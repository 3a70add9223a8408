namespace SchemaOutline.Log

inductive Level where
  | debug
  | info
  | warning
  | error
  | critical
  deriving DecidableEq

namespace Level

def all : List Level := [debug, info, warning, error, critical]

def name : Level → String
  | debug => "DEBUG"
  | info => "INFO"
  | warning => "WARNING"
  | error => "ERROR"
  | critical => "CRITICAL"

def number : Level → Int
  | debug => 10
  | info => 20
  | warning => 30
  | error => 40
  | critical => 50

end Level

def levelText (n : Int) : String :=
  match Level.all.find? (·.number = n) with
  | some l => l.name
  | none => if n = 0 then "NOTSET" else s!"Level {n}"

def number? (name : String) : Option Int :=
  if name = "NOTSET" then some 0
  else if name = "WARN" then some Level.warning.number
  else if name = "FATAL" then some Level.critical.number
  else (Level.all.find? (·.name = name)).map Level.number

structure Record where
  level : Int
  source : String
  text : String
  deriving DecidableEq

def Record.line (stamp : String) (r : Record) : String :=
  s!"{stamp} [{levelText r.level}] {r.source}: {r.text}\n"

def program : String := "protoutline"

def isOwn (source : String) : Bool :=
  source = program || (program ++ ".").toList.isPrefixOf source.toList

/-- What is printed of a record at a threshold. The threshold 0 leaves it to the default, which is
a warning. Records of others are printed bare, from the default on. -/
def printed (stamp : String) (threshold : Int) (r : Record) : String :=
  let threshold := if threshold = 0 || !isOwn r.source then Level.warning.number else threshold
  if r.level ≤ 0 || r.level < threshold then ""
  else if isOwn r.source then r.line stamp
  else r.text ++ "\n"

def lines (stamp : String) (threshold : Int) (rs : List Record) : String :=
  String.join (rs.map (printed stamp threshold))

end SchemaOutline.Log
