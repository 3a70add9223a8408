import SchemaOutline.File.Disk
import SchemaOutline.Text.Basic
import SchemaOutline.Text.Quoted

namespace SchemaOutline.Command

structure Options where
  files : List Path := []
  json : Bool := false
  lenient : Bool := false
  config : Option Path := none
  verbose : Bool := false
  deriving DecidableEq

inductive Refusal where
  | help
  | misuse (problem : String)
  deriving DecidableEq

inductive Flag where
  | help
  | json
  | lenient
  | config
  | verbose
  deriving DecidableEq

namespace Flag

def title : Flag → String
  | help => "-h/--help"
  | json => "--json"
  | lenient => "--lenient"
  | config => "--config"
  | verbose => "--verbose/-v"

/-- All spellings, in the order in which an ambiguous one is explained. -/
def spellings : List (String × Flag) :=
  [("-h", help), ("--help", help), ("--json", json), ("--lenient", lenient), ("--config", config),
   ("--verbose", verbose), ("-v", verbose)]

def ofSpelling? (s : String) : Option Flag :=
  (spellings.find? (·.1 = s)).map Prod.snd

end Flag

inductive Argument where
  | word (s : String)
  | dashes
  | flag (f : Flag) (short : Bool) (value : Option String)
  | unknown (s : String)
  deriving DecidableEq

/-- A minus and digits, perhaps with a point before the last of them. A final newline is let
pass. -/
def isNegativeNumber : List Char → Bool
  | '-' :: cs =>
    let cs := if cs.getLast? = some '\n' then cs.dropLast else cs
    match cs.span Text.isDecimal with
    | (whole, []) => !whole.isEmpty
    | (_, '.' :: decimals) => !decimals.isEmpty && decimals.all Text.isDecimal
    | _ => false
  | _ => false

def splitValue (cs : List Char) : List Char × Option (List Char) :=
  match cs.span (· ≠ '=') with
  | (name, _ :: value) => (name, some value)
  | (name, []) => (name, none)

/-- The flags that a spelling may stand for: those it abbreviates, or a short one with something
behind it. -/
def candidates (cs : List Char) : List (String × Argument) :=
  match cs with
  | '-' :: '-' :: _ =>
    let (name, value) := splitValue cs
    (Flag.spellings.filter fun f ↦ name.isPrefixOf f.1.toList).map fun f ↦
      (f.1, .flag f.2 false (value.map String.ofList))
  | _ =>
    (Flag.spellings.filter fun f ↦ f.1.toList = cs.take 2).map fun f ↦
      (f.1, .flag f.2 true (some (String.ofList (cs.drop 2))))

def isShort : List Char → Bool
  | '-' :: '-' :: _ => false
  | _ => true

def classify (s : String) : Except Refusal Argument :=
  let cs := s.toList
  if cs.head? ≠ some '-' then .ok (.word s)
  else match Flag.ofSpelling? s with
    | some f => .ok (.flag f (isShort cs) none)
    | none =>
      if cs.length = 1 then .ok (.word s)
      else
        let (name, value) := splitValue cs
        match Flag.ofSpelling? (String.ofList name), value with
        | some f, some v => .ok (.flag f (isShort cs) (some (String.ofList v)))
        | _, _ =>
          match candidates cs with
          | [c] => .ok c.2
          | [] =>
            if isNegativeNumber cs || cs.contains ' ' then .ok (.word s) else .ok (.unknown s)
          | many =>
            let names := ", ".intercalate (many.map Prod.fst)
            .error (.misuse s!"ambiguous option: {s} could match {names}")

def classifyAll : List String → Except Refusal (List Argument)
  | [] => .ok []
  | s :: rest =>
    if s = "--" then .ok (.dashes :: rest.map .word)
    else do
      let a ← classify s
      let as ← classifyAll rest
      return a :: as

structure State where
  options : Options := {}
  filled : Bool := false
  /-- The words since the last flag, latest first, where `none` stands for two dashes. -/
  run : List (Option String) := []
  extras : List String := []
  awaiting : Bool := false

namespace State

def missingValue : Refusal := .misuse "argument --config: expected one argument"

def wordOf (w : Option String) : String := w.getD "--"

/-- Ends a run of words. The first run with a word in it gives the files, without the first two
dashes in it. -/
def settle (s : State) : State :=
  let words := s.run.reverse
  if !s.filled && words.any Option.isSome then
    { s with
      options := { s.options with files := (words.erase none).map (.ofString ∘ wordOf) }
      filled := true, run := [] }
  else { s with extras := s.run.map wordOf ++ s.extras, run := [] }

def set (o : Options) : Flag → Options
  | .json => { o with json := true }
  | .lenient => { o with lenient := true }
  | .verbose => { o with verbose := true }
  | .help | .config => o

def setConfig (s : State) (value : String) : State :=
  { s with options := { s.options with config := some (.ofString value) } }

def ignored (f : Flag) (value : String) : Refusal :=
  .misuse s!"argument {f.title}: ignored explicit argument {Quoted.text value}"

/-- The flags of one argument: a short flag without a value may be followed by more of them. -/
def cluster (flags : List Flag) (f : Flag) : List Char → Except Refusal (List Flag)
  | [] => .ok (f :: flags).reverse
  | c :: cs =>
    match Flag.ofSpelling? (String.ofList ['-', c]) with
    | some g => cluster (f :: flags) g cs
    | none => .error (ignored f (String.ofList (c :: cs)))

def applyAll (s : State) (flags : List Flag) : Except Refusal State :=
  if flags.contains .help then .error .help
  else .ok { s with options := flags.foldl set s.options }

def readFlag (s : State) (f : Flag) (short : Bool) : Option String → Except Refusal State
  | none => if f = .config then .ok { s with awaiting := true } else s.applyAll [f]
  | some value =>
    if f = .config then .ok (s.setConfig value)
    else if short && value ≠ "" then do
      let flags ← cluster [] f value.toList
      s.applyAll flags
    else .error (ignored f value)

def read (s : State) : Argument → Except Refusal State
  | .word w =>
    if s.awaiting then
      .ok { s.setConfig w with awaiting := false }
    else .ok { s with run := some w :: s.run }
  | .dashes =>
    if s.awaiting then .error missingValue else .ok { s with run := none :: s.run }
  | .flag f short value =>
    if s.awaiting then .error missingValue else s.settle.readFlag f short value
  | .unknown w =>
    if s.awaiting then .error missingValue
    else .ok { s.settle with extras := w :: s.settle.extras }

def finish (s : State) : Except Refusal Options :=
  let t := s.settle
  if s.awaiting then .error missingValue
  else if !t.filled then .error (.misuse "the following arguments are required: FILE")
  else if !t.extras.isEmpty then
    .error (.misuse ("unrecognized arguments: " ++ " ".intercalate t.extras.reverse))
  else .ok t.options

end State

def parse (args : List String) : Except Refusal Options := do
  let as ← classifyAll args
  let s ← as.foldlM State.read {}
  s.finish

def usage : String :=
  "usage: protoutline [-h] [--json] [--lenient] [--config CONFIG] [--verbose] FILE [FILE ...]\n"

def helpText : String :=
  usage ++
  "\nPrint the declaration outline of protobuf files\n" ++
  "\npositional arguments:\n" ++
  "  FILE             .proto files to outline\n" ++
  "\noptions:\n" ++
  "  -h, --help       show this help message and exit\n" ++
  "  --json           Print the outline as JSON (1-indexed lines) instead of a tree\n" ++
  "  --lenient        Return a truncated outline when a file ends inside a declaration\n" ++
  "  --config CONFIG  Config file path (default: ~/.protoutline/config.json + " ++
  "./.protoutline/config.json)\n" ++
  "  --verbose, -v    Enable debug logging on stderr\n"

end SchemaOutline.Command
