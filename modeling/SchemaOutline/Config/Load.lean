import SchemaOutline.Config.Check
import SchemaOutline.File.Disk
import SchemaOutline.Json.Basic
import SchemaOutline.Json.Reader

namespace SchemaOutline.Config

open Json (Fields)

def overlay (base upper : Fields) : Fields :=
  upper.foldl (fun fs f ↦ fs.put f.1 f.2) base

/-- Lays one field over the settings so far. Two objects are merged key by key. -/
def layField (fs : Fields) (f : String × Json) : Fields :=
  match fs.get? f.1, f.2 with
  | some (.object current), .object fields => fs.put f.1 (.object (overlay current fields))
  | _, v => fs.put f.1 v

def merge (base layer : Fields) : Fields := layer.foldl layField base

def mergeAll (layers : List Fields) : Fields := layers.foldl merge []

def shipped : Fields :=
  [("parser", .object [("strict_end_of_input", .bool true)]),
   ("cache", .object [("enabled", .bool true), ("max_documents", .int 256)]),
   ("logging", .object [("level", .text "WARNING"), ("log_transient_errors", .bool false)])]

structure Places where
  user : Path
  project : Path
  shipped : String

def fileBelow (directory : Path) : Path := directory.join [".protoutline", "config.json"]

inductive LoadFault where
  | unreadable (path : String) (f : ReadFault)
  | malformed (path : String) (f : Json.Fault)
  | notObject (path type : String)
  | invalidFile (path : String) (vs : List Violation)
  | invalidLayers (names : List String) (vs : List Violation)

namespace LoadFault

/-- Whether the program breaks off at a fault instead of reporting it. -/
def isFatal : LoadFault → Bool
  | unreadable _ f => f.isFatal
  | malformed _ f => f.isFatal
  | _ => false

def message : LoadFault → String
  | unreadable path .missing => "Config file not found: " ++ path
  | unreadable _ .unnameable => ReadFault.unnameable.systemText
  | unreadable path f => s!"Failed to read config file {path}: {f.explain path}"
  | malformed path f => if f.isFatal then f.message else s!"Invalid JSON in {path}: {f.message}"
  | notObject path type => s!"Expected object in {path}, got {type}"
  | invalidFile path vs => s!"Config validation failed for {path}: {Violation.headline vs}"
  | invalidLayers names vs =>
    "Config validation failed (merged from " ++ ", ".intercalate names ++ "): " ++
      Violation.headline vs

def violations : LoadFault → List Violation
  | invalidFile _ vs => vs
  | invalidLayers _ vs => vs
  | _ => []

end LoadFault

/-- The fields that the text of a settings file gives. A blank file gives none. -/
def fieldsOfText (path text : String) : Except LoadFault Fields :=
  match Text.trim Text.isSeparator text.toList with
  | [] => .ok []
  | cs =>
    match Json.parse (String.ofList cs) with
    | .error f => .error (.malformed path f)
    | .ok (.object fields) => .ok fields
    | .ok v => .error (.notObject path v.typeName)

def readFile (disk : Disk) (p : Path) : Except LoadFault Fields :=
  match disk.readText p with
  | .error f => .error (.unreadable p.spelling f)
  | .ok text => fieldsOfText p.spelling text

def loadFile (disk : Disk) (p : Path) (checks : Checks := {}) : Except LoadFault Config := do
  let fields ← readFile disk p
  (ofFields fields checks).mapError (.invalidFile p.spelling)

abbrev Layer := String × Except LoadFault Fields

def fileLayer (disk : Disk) (p : Path) : Layer := (p.spelling, readFile disk p)

/-- The user's settings, or those that the program comes with, and over them those of the working
directory. -/
def layers (disk : Disk) (places : Places) : List Layer :=
  (if (disk places.user).isFile then fileLayer disk places.user
    else (places.shipped, .ok Config.shipped)) ::
  if (disk places.project).isFile then [fileLayer disk places.project] else []

def source : String := "protoutline.config.loader"

def loadLayers (disk : Disk) (places : Places) (checks : Checks := {}) :
    Except LoadFault Config × List Log.Record :=
  let names := (layers disk places).map Prod.fst
  let noUser : List Log.Record :=
    if (disk places.user).isFile then []
    else [⟨Log.Level.debug.number, source,
      s!"No global config at: {places.user.spelling}, using defaults"⟩]
  match (layers disk places).mapM Prod.snd with
  | .error f => (.error f, noUser)
  | .ok fields =>
    ((ofFields (mergeAll fields) checks).mapError (.invalidLayers names),
      noUser ++ [⟨Log.Level.info.number, source, s!"Config loaded from: {Quoted.list names}"⟩])

def load (disk : Disk) (places : Places) (path : Option Path) (checks : Checks := {}) :
    Except LoadFault Config × List Log.Record :=
  match path with
  | some p => (loadFile disk p checks, [])
  | none => loadLayers disk places checks

end SchemaOutline.Config
