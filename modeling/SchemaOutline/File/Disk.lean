import SchemaOutline.Text.Basic
import SchemaOutline.Text.Utf8

namespace SchemaOutline

/-- Where a path starts. Two slashes differ from one. -/
inductive Path.Root where
  | relative
  | slash
  | slashes
  deriving DecidableEq

/-- A path without empty parts and without parts that stand for the same place. -/
structure Path where
  root : Path.Root
  parts : List String
  deriving DecidableEq

namespace Path

def Root.spelling : Root → String
  | relative => ""
  | slash => "/"
  | slashes => "//"

def rootOf : List Char → Root
  | '/' :: '/' :: '/' :: _ => .slash
  | '/' :: '/' :: _ => .slashes
  | '/' :: _ => .slash
  | _ => .relative

def ofString (s : String) : Path :=
  ⟨rootOf s.toList, ((Text.split '/' s.toList).map String.ofList).filter fun p ↦ p ≠ "" && p ≠ "."⟩

def spelling (p : Path) : String :=
  let s := p.root.spelling ++ "/".intercalate p.parts
  if s = "" then "." else s

def isNameable (p : Path) : Bool := p.parts.all fun s ↦ !s.toList.contains '\x00'

def join (p : Path) (parts : List String) : Path := ⟨p.root, p.parts ++ parts⟩

/-- Takes back the part before each step up. A step up from the start stays. -/
def resolve (p : Path) : Path :=
  ⟨p.root, (p.parts.foldl (fun read part ↦
    match part, read with
    | "..", q :: read => if q = ".." then ".." :: q :: read else read
    | _, _ => part :: read) []).reverse⟩

end Path

inductive Entry where
  | file (bytes : List UInt8)
  | directory
  | missing
  /-- The path leads through a file. -/
  | blocked
  | tooLong
  | unnameable
  | denied
  deriving DecidableEq

abbrev Disk := Path → Entry

/-- A file need not be readable to be there. -/
def Entry.isFile : Entry → Bool
  | file _ | denied => true
  | _ => false

inductive FileTree where
  | file (bytes : List UInt8)
  | directory (entries : List (String × FileTree))

namespace FileTree

def empty : FileTree := directory []

def child? (name : String) : List (String × FileTree) → Option FileTree
  | [] => none
  | (n, t) :: rest => if n = name then some t else child? name rest

def setChild (name : String) (t : FileTree) :
    List (String × FileTree) → List (String × FileTree)
  | [] => [(name, t)]
  | (n, u) :: rest => if n = name then (n, t) :: rest else (n, u) :: setChild name t rest

/-- Puts `t` at a place below, with the directories that lead there. A directory that is already
there stays. -/
def insert (t : FileTree) : List String → FileTree → FileTree
  | [], old =>
    match t, old with
    | directory [], directory entries => directory entries
    | _, _ => t
  | name :: parts, old =>
    let entries := match old with
      | directory entries => entries
      | file _ => []
    directory (setChild name (insert t parts ((child? name entries).getD empty)) entries)

def entry : FileTree → Entry
  | file bytes => .file bytes
  | directory _ => .directory

def longestName : Nat := 255

def longestPath : Nat := 4095

/-- What stands at the end of a walk from `t`, below the directories `above`. Of what lies above the
tree nothing is known. -/
def walk (above : List FileTree) (t : FileTree) : List String → Entry
  | [] => t.entry
  | name :: parts =>
    match t with
    | file _ => .blocked
    | directory entries =>
      if name = ".." then
        match above with
        | [] => walk [] empty parts
        | u :: above => walk above u parts
      else if longestName < name.utf8ByteSize then .tooLong
      else
        match child? name entries with
        | some u => walk (t :: above) u parts
        | none => .missing

/-- The tree as a file system whose working directory, called `mount`, it is. -/
def disk (mount : Path) (t : FileTree) : Disk := fun p ↦
  if !p.isNameable then .unnameable
  else if longestPath < p.spelling.utf8ByteSize then .tooLong
  else if p.root = mount.root && mount.parts.isPrefixOf p.parts && !mount.parts.isEmpty then
    walk [] t (p.parts.drop mount.parts.length)
  else if p.root = .relative then walk [] t p.parts
  else walk [] empty p.parts

end FileTree

inductive ReadFault where
  | missing
  | directory
  | blocked
  | tooLong
  | unnameable
  | denied
  | undecodable (f : Utf8.Fault)
  deriving DecidableEq

namespace ReadFault

def systemText : ReadFault → String
  | missing => "No such file or directory"
  | directory => "Is a directory"
  | blocked => "Not a directory"
  | tooLong => "File name too long"
  | unnameable => "embedded null byte"
  | denied => "Permission denied"
  | undecodable f => f.message

def systemNumber : ReadFault → Nat
  | missing => 2
  | directory => 21
  | blocked => 20
  | tooLong => 36
  | denied => 13
  | undecodable _ | unnameable => 0

def isFatal (f : ReadFault) : Bool := f = unnameable

def message (f : ReadFault) : String :=
  match f with
  | undecodable u => s!"cannot read file: not valid UTF-8 (byte {u.offset})"
  | unnameable => f.systemText
  | f => "cannot read file: " ++ f.systemText

def explain (path : String) (f : ReadFault) : String :=
  match f with
  | undecodable u => u.message
  | f => s!"[Errno {f.systemNumber}] {f.systemText}: {Quoted.text path}"

end ReadFault

def Disk.readText (disk : Disk) (p : Path) : Except ReadFault String :=
  match disk p with
  | .file bytes => (Utf8.toText bytes).mapError .undecodable
  | .directory => .error .directory
  | .missing => .error .missing
  | .blocked => .error .blocked
  | .tooLong => .error .tooLong
  | .unnameable => .error .unnameable
  | .denied => .error .denied

end SchemaOutline
