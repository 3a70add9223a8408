import SchemaOutline.Config.Numeral
import SchemaOutline.Json.Basic
import SchemaOutline.Log

namespace SchemaOutline

structure Config.Parser where
  strictEndOfInput : Bool := true
  deriving DecidableEq

structure Config.Cache where
  enabled : Bool := true
  maxDocuments : Nat := 256
  deriving DecidableEq

structure Config.Logging where
  level : Log.Level := .warning
  logTransientErrors : Bool := false
  deriving DecidableEq

structure Config where
  parser : Config.Parser := {}
  cache : Config.Cache := {}
  logging : Config.Logging := {}
  deriving DecidableEq

end SchemaOutline

namespace SchemaOutline.Config

inductive Cause where
  | notObject (model : String)
  | unknownKey
  | notBoolean
  | unreadableBoolean
  | notInteger
  | unreadableInteger
  | fractional
  | tooLarge
  | notFinite
  | belowOne
  | notLevel
  deriving DecidableEq

def Cause.code : Cause → String
  | notObject _ => "model_type"
  | unknownKey => "extra_forbidden"
  | notBoolean => "bool_type"
  | unreadableBoolean => "bool_parsing"
  | notInteger => "int_type"
  | unreadableInteger => "int_parsing"
  | fractional => "int_from_float"
  | tooLarge => "int_parsing_size"
  | notFinite => "finite_number"
  | belowOne => "greater_than_equal"
  | notLevel => "literal_error"

def Cause.message : Cause → String
  | notObject model => "Input should be a valid dictionary or instance of " ++ model
  | unknownKey => "Extra inputs are not permitted"
  | notBoolean => "Input should be a valid boolean"
  | unreadableBoolean => "Input should be a valid boolean, unable to interpret input"
  | notInteger => "Input should be a valid integer"
  | unreadableInteger => "Input should be a valid integer, unable to parse string as an integer"
  | fractional => "Input should be a valid integer, got a number with a fractional part"
  | tooLarge => "Unable to parse input string as an integer, exceeded maximum size"
  | notFinite => "Input should be a finite number"
  | belowOne => "Input should be greater than or equal to 1"
  | notLevel => "Input should be 'DEBUG', 'INFO', 'WARNING' or 'ERROR'"

structure Violation where
  keys : List String
  cause : Cause
  deriving DecidableEq

namespace Violation

def location (v : Violation) : String := ".".intercalate v.keys

/-- The order of a report: by location, then by kind, then by message. -/
def notAfter (v w : Violation) : Bool :=
  if v.location ≠ w.location then v.location < w.location
  else if v.cause.code ≠ w.cause.code then v.cause.code < w.cause.code
  else v.cause.message ≤ w.cause.message

def report (vs : List Violation) : List Violation := vs.mergeSort notAfter

def headline (vs : List Violation) : String :=
  let plural := if vs.length = 1 then "" else "s"
  s!"{vs.length} validation error{plural} for Config"

end Violation

open Json (Fields)

def isWord (n : Int) : Bool := -0x8000000000000000 ≤ n && n < 0x8000000000000000

/-- The integers that a real can be exactly, apart from the least of 64 bits. -/
def isWordReal (n : Int) : Bool := -0x8000000000000000 < n && n < 0x8000000000000000

def boolOfInt? (n : Int) : Option Bool :=
  if n = 0 then some false else if n = 1 then some true else none

def boolOfText? (s : String) : Option Bool :=
  let s := s.toLower
  if ["0", "off", "f", "false", "n", "no"].contains s then some false
  else if ["1", "on", "t", "true", "y", "yes"].contains s then some true
  else none

/-- Booleans may also be written as words or as zero and one. -/
def checkBool : Json → Except Cause Bool
  | .bool b => .ok b
  | .text s => (boolOfText? s).elim (.error .unreadableBoolean) .ok
  | .int n =>
    if isWord n then (boolOfInt? n).elim (.error .unreadableBoolean) .ok
    else .error .notBoolean
  | .real x =>
    match x.toInt? with
    | some n =>
      if isWordReal n then (boolOfInt? n).elim (.error .unreadableBoolean) .ok
      else .error .notBoolean
    | none => .error .notBoolean
  | _ => .error .notBoolean

def checkNumeral (s : String) : Except Cause Int :=
  match Numeral.read s.toList with
  | .ok n => .ok n
  | .error .malformed => .error .unreadableInteger
  | .error .tooLong => .error .tooLarge

/-- Integers may also be written as texts, as reals without a fraction, or as booleans. -/
def checkInt : Json → Except Cause Int
  | .int n => .ok n
  | .bool b => .ok (if b then 1 else 0)
  | .text s => checkNumeral s
  | .real (.finite negative m e) =>
    match (Binary64.finite negative m e).toInt? with
    | some n => if isWordReal n then .ok n else .error .tooLarge
    | none => .error .fractional
  | .real _ => .error .notFinite
  | _ => .error .notInteger

def checkPositive (v : Json) : Except Cause Nat := do
  let n ← checkInt v
  if n < 1 then .error .belowOne else .ok n.toNat

def checkLevel : Json → Except Cause Log.Level
  | .text s =>
    ([Log.Level.debug, .info, .warning, .error].find? (·.name = s)).elim (.error .notLevel) .ok
  | _ => .error .notLevel

structure Checked (α : Type) where
  value : α
  violations : List Violation

/-- One setting of a section. One that is not there has its default. -/
def setting {α : Type} (name key : String) (default : α) (check : Json → Except Cause α)
    (fields : Fields) : Checked α :=
  match Fields.get? key fields with
  | none => ⟨default, []⟩
  | some v =>
    match check v with
    | .ok a => ⟨a, []⟩
    | .error cause => ⟨default, [⟨[name, key], cause⟩]⟩

def unknownKeys (above known : List String) (fields : Fields) : List Violation :=
  (fields.filter fun f ↦ !known.contains f.1).map fun f ↦ ⟨above ++ [f.1], .unknownKey⟩

def subsection {α : Type} (name model : String) (known : List String) (default : α)
    (check : Fields → Checked α) (fields : Fields) : Checked α :=
  match Fields.get? name fields with
  | none => ⟨default, []⟩
  | some (.object inner) =>
    let c := check inner
    ⟨c.value, c.violations ++ unknownKeys [name] known inner⟩
  | some _ => ⟨default, [⟨[name], .notObject model⟩]⟩

/-- How the values of settings are read. -/
structure Checks where
  bool : Json → Except Cause Bool := checkBool
  positive : Json → Except Cause Nat := checkPositive
  level : Json → Except Cause Log.Level := checkLevel

def checkParser (checks : Checks) : Fields → Checked Parser :=
  subsection "parser" "ParserConfig" ["strict_end_of_input"] {} fun fs ↦
    let strict := setting "parser" "strict_end_of_input" true checks.bool fs
    ⟨⟨strict.value⟩, strict.violations⟩

def checkCache (checks : Checks) : Fields → Checked Cache :=
  subsection "cache" "CacheConfig" ["enabled", "max_documents"] {} fun fs ↦
    let enabled := setting "cache" "enabled" true checks.bool fs
    let most := setting "cache" "max_documents" 256 checks.positive fs
    ⟨⟨enabled.value, most.value⟩, enabled.violations ++ most.violations⟩

def checkLogging (checks : Checks) : Fields → Checked Logging :=
  subsection "logging" "LoggingConfig" ["level", "log_transient_errors"] {} fun fs ↦
    let level := setting "logging" "level" .warning checks.level fs
    let transient := setting "logging" "log_transient_errors" false checks.bool fs
    ⟨⟨level.value, transient.value⟩, level.violations ++ transient.violations⟩

def checkFields (checks : Checks) (fields : Fields) : Checked Config :=
  let parser := checkParser checks fields
  let cache := checkCache checks fields
  let logging := checkLogging checks fields
  ⟨⟨parser.value, cache.value, logging.value⟩,
    parser.violations ++ cache.violations ++ logging.violations ++
      unknownKeys [] ["parser", "cache", "logging"] fields⟩

/-- The settings that an object gives, or all that is wrong with it, in the order of a report. -/
def ofFields (fields : Fields) (checks : Checks := {}) : Except (List Violation) Config :=
  let c := checkFields checks fields
  if c.violations.isEmpty then .ok c.value else .error (Violation.report c.violations)

def ofJson (v : Json) (checks : Checks := {}) : Except (List Violation) Config :=
  match v with
  | .object fields => ofFields fields checks
  | _ => .error [⟨[], .notObject "Config"⟩]

end SchemaOutline.Config
