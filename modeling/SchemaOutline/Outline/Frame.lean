import SchemaOutline.Outline.Bracket
import SchemaOutline.Outline.Node

namespace SchemaOutline

structure Head where
  name : String
  detail : String
  kind : SymbolKind
  start : Int
  selection : Int
  deriving DecidableEq

/-- The declaration that ends on `line`, counted from 1. -/
def Head.close (h : Head) (line : Int) (children : List Node) : Node where
  name := h.name
  detail := h.detail
  kind := h.kind
  range := ⟨h.start, line - 1⟩
  selection := .point h.selection
  children := children

/-- What is done with the tokens up to a terminator that stands outside all brackets. -/
inductive Job where
  /-- The top level. Nodes are kept latest first, here and in a body. -/
  | document (nodes : List Node)
  /-- The members of a block; `inEnum` when a member is an enum value. -/
  | body (head : Head) (inEnum : Bool) (members : List Node)
  | signature (head : Head) (inOptions : Bool)
  | tail (head : Head)
  | skip (ends : List String)

namespace Job

def ends : Job → List String
  | document _ => []
  | body .. => ["\x7d"]
  | signature .. => [";", "\x7d"]
  | tail _ => [";", "\x7d"]
  | skip ends => ends

def close (line : Int) : Job → List Node
  | document nodes => nodes.reverse
  | body head _ members => [head.close line members.reverse]
  | signature head _ => [head.close line []]
  | tail head => [head.close line []]
  | skip _ => []

def receive (nodes : List Node) : Job → Job
  | document ns => document (nodes.reverse ++ ns)
  | body head inEnum ns => body head inEnum (nodes.reverse ++ ns)
  | job => job

/-- A signature is written without blanks, except around `returns`. Its options and the final
semicolon are no part of it. -/
def sign (head : Head) (v : String) : Job :=
  if v = "\x7b" then signature head true
  else if v = "returns" then signature { head with detail := head.detail ++ " returns " } false
  else if v = ";" then signature head false
  else signature { head with detail := head.detail ++ v } false

end Job

/-- A declaration whose name is the next token, whatever that token is. -/
inductive Unnamed where
  | block (word : BlockWord) (start : Int)
  | method (start : Int)
  | field (start : Int) (detail : String) (shape : FieldShape)

def Unnamed.named (name : String) (line : Int) : Unnamed → Job
  | block word start => .body ⟨name, word.spelling, word.kind, start, start⟩ (word = .enum) []
  | method start => .signature ⟨name, "rpc", .method, start, start⟩ false
  | field start detail shape =>
    let head : Head := ⟨name, detail, shape.kind, start, line - 1⟩
    if shape.opensBody then .body head false [] else .tail head

def Unnamed.typed (start : Int) (c : Cardinality) (typeName : String) : Unnamed :=
  .field start (c.spelling ++ " " ++ typeName) { typeName, cardinality := some c }

def Unnamed.mapped (start : Int) (detail : String) : Unnamed :=
  .field start detail { typeName := "map", isMap := true }

/-- A part of the schema that has been begun. Each scan counts only the brackets that it opened
itself. -/
inductive Frame where
  | scan (unclosed : List Bracket) (job : Job)
  | name (pending : Unnamed)
  | fieldType (start : Int) (cardinality : Cardinality)
  | mapType (unclosed : List Bracket) (start : Int) (detail : String)

namespace Frame

def ofField (inEnum : Bool) (v : String) (start : Int) : Frame :=
  if v = "map" then .mapType [] start "map"
  else if inEnum then
    let shape : FieldShape := { typeName := v, inEnum := true }
    .scan [] (.tail ⟨v, "", shape.kind, start, start⟩)
  else
    match Cardinality.ofWord? v with
    | some c => .fieldType start c
    | none => .name (.field start v { typeName := v })

/-- What the token `v` begins, if anything. The context is that of a body, or none at the top
level, where all that is not a declaration runs to a semicolon. -/
def ofToken? (context : Option Bool) (v : String) (start : Int) : Option Frame :=
  if Bracket.isBracket v || v = ";" then none
  else match BlockWord.ofWord? v with
    | some word => some (.name (.block word start))
    | none =>
      if v = "rpc" then some (.name (.method start))
      else if v = "group" || v = "extend" then some (.scan [] (.skip ["\x7d"]))
      else if v = "option" || v = "reserved" then some (.scan [] (.skip [";"]))
      else match context with
        | some inEnum => some (ofField inEnum v start)
        | none => some (.scan [] (.skip [";"]))

inductive Move where
  | go (f : Frame)
  | push (f inner : Frame)
  | pop (nodes : List Node)

def settle (unclosed : List Bracket) (t : Token) (job : Job) : Move :=
  if unclosed.isEmpty && job.ends.contains t.value then .pop (job.close t.line)
  else .go (.scan unclosed job)

def enter (context : Option Bool) (unclosed : List Bracket) (t : Token) (job : Job) : Move :=
  match ofToken? context t.value (t.line - 1) with
  | some inner => .push (.scan unclosed job) inner
  | none => settle unclosed t job

def visit (unclosed : List Bracket) (t : Token) (job : Job) : Move :=
  match job with
  | .document _ => enter none unclosed t job
  | .body _ inEnum _ => enter (some inEnum) unclosed t job
  | .signature head false => settle unclosed t (Job.sign head t.value)
  | _ => settle unclosed t job

def visitMap (unclosed : List Bracket) (start : Int) (detail : String) (v : String) : Frame :=
  let detail := detail ++ v ++ if v = "," then " " else ""
  if unclosed.isEmpty && v = ">" then .name (.mapped start detail)
  else .mapType unclosed start detail

def read (t : Token) : Frame → Except Mismatch Move
  | scan unclosed job => (Bracket.nest unclosed t).map (visit · t job)
  | name pending => .ok (.go (.scan [] (pending.named t.value t.line)))
  | fieldType start c => .ok (.go (.name (.typed start c t.value)))
  | mapType unclosed start detail =>
    (Bracket.nest unclosed t).map fun unclosed ↦ .go (visitMap unclosed start detail t.value)

def receive (nodes : List Node) : Frame → Frame
  | scan unclosed job => scan unclosed (job.receive nodes)
  | f => f

end Frame

def Job.truncations (line : Int) (unclosed : List Bracket) (job : Job) : List Truncation :=
  if job.ends.isEmpty && unclosed.isEmpty then []
  else [⟨line, job.ends, Bracket.openers unclosed⟩]

def Truncation.unnamed (line : Int) : Truncation := ⟨line, ["name"], []⟩

/-- What is missing when the text ends, and the nodes that are there all the same. A missing name
or type is empty. -/
def Unnamed.cutShort (line : Int) (u : Unnamed) : List Truncation × List Node :=
  let job := u.named "" line
  (.unnamed line :: job.truncations line [], job.close line)

def Frame.cutShort (line : Int) : Frame → List Truncation × List Node
  | scan unclosed job => (job.truncations line unclosed, job.close line)
  | name pending => pending.cutShort line
  | fieldType start c =>
    let (ts, ns) := (Unnamed.typed start c "").cutShort line
    (.unnamed line :: ts, ns)
  | mapType unclosed start detail =>
    let (ts, ns) := (Unnamed.mapped start detail).cutShort line
    (⟨line, [">"], Bracket.openers unclosed⟩ :: ts, ns)

end SchemaOutline
