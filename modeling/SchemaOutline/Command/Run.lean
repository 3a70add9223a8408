import SchemaOutline.Command.Options
import SchemaOutline.Config.Load
import SchemaOutline.Display.Tree
import SchemaOutline.Json.Basic
import SchemaOutline.Outline.Node
import SchemaOutline.Outline.Reading

namespace SchemaOutline.Command

structure Output where
  exit : Nat
  stdout : String
  stderr : String
  deriving DecidableEq

inductive Outcome where
  | finished (o : Output)
  /-- The run breaks off, for a reason that the program does not look after, with what was printed
  by then. -/
  | brokenOff {printed : Output} (reason : String)
  deriving DecidableEq

def Refusal.output : Refusal → Output
  | help => ⟨0, helpText, ""⟩
  | misuse problem => ⟨2, "", usage ++ s!"protoutline: error: {problem}\n"⟩

structure Context where
  disk : Disk
  places : Config.Places
  stamp : String

def source : String := "protoutline.cli.main"

structure FileReport where
  path : Path
  result : Except String (List Node)
  records : List Log.Record

/-- Reads a file and its outline. The record on a file that cannot be read also carries a stack
trace, which is left out here. -/
def reportFile (disk : Disk) (strict : Bool) (p : Path) : FileReport :=
  match disk.readText p with
  | .error f =>
    ⟨p, .error f.message,
      [⟨Log.Level.debug.number, source, "Failed to read " ++ p.spelling⟩]⟩
  | .ok text =>
    let r := outlineTokens (tokenize text)
    ⟨p, (r.result strict).mapError Fault.message, r.records strict⟩

namespace FileReport

def failed (r : FileReport) : Bool := r.result.toOption.isNone

def errorLine (r : FileReport) : String :=
  match r.result with
  | .error m => s!"{r.path.spelling}: {m}\n"
  | .ok _ => ""

def treeText (r : FileReport) : String :=
  match r.result with
  | .error _ => ""
  | .ok nodes => Display.treeText {} r.path.spelling nodes

def entry? (r : FileReport) : Option Json :=
  match r.result with
  | .error _ => none
  | .ok nodes =>
    some (.object [("file", .text r.path.spelling), ("symbols", .list (Node.allToJson nodes))])

end FileReport

/-- What is printed on the files. The records on a file come before the line about it. -/
def printReports (stamp : String) (threshold : Int) (json : Bool) (rs : List FileReport) :
    Output where
  exit := if rs.any FileReport.failed then 1 else 0
  stdout :=
    if json then Json.render 0 (.list (rs.filterMap FileReport.entry?)) ++ "\n"
    else String.join (rs.map FileReport.treeText)
  stderr := String.join (rs.map fun r ↦ Log.lines stamp threshold r.records ++ r.errorLine)

/-- Carries out the options. A JSON report is only printed after the last file. -/
def runOptions (c : Context) (o : Options) : Outcome :=
  match (Config.load c.disk c.places o.config).1 with
  | .error f =>
    if f.isFatal then @Outcome.brokenOff ⟨1, "", ""⟩ f.message
    else .finished ⟨1, "", s!"Config error: {f.message}\n"⟩
  | .ok config =>
    let threshold := if o.verbose then Log.Level.debug else config.logging.level
    let strict := config.parser.strictEndOfInput && !o.lenient
    let out := printReports c.stamp threshold.number o.json
      ((o.files.takeWhile Path.isNameable).map (reportFile c.disk strict))
    if o.files.all Path.isNameable then .finished out
    else
      @Outcome.brokenOff ⟨1, if o.json then "" else out.stdout, out.stderr⟩
        ReadFault.unnameable.message

def run (c : Context) (args : List String) : Outcome :=
  match parse args with
  | .error r => .finished r.output
  | .ok o => runOptions c o

end SchemaOutline.Command
