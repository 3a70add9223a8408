import SchemaOutline.Json.Basic

namespace SchemaOutline

inductive SymbolKind where
  | service
  | method
  | field
  | enum
  | boolean
  | array
  | object
  | enumMember
  | struct
  deriving DecidableEq

namespace SymbolKind

def all : List SymbolKind :=
  [service, method, field, enum, boolean, array, object, enumMember, struct]

/-- The name of the kind in the editor protocol, where a service is a class. -/
def label : SymbolKind → String
  | service => "CLASS"
  | method => "METHOD"
  | field => "FIELD"
  | enum => "ENUM"
  | boolean => "BOOLEAN"
  | array => "ARRAY"
  | object => "OBJECT"
  | enumMember => "ENUM_MEMBER"
  | struct => "STRUCT"

def code : SymbolKind → Nat
  | service => 5
  | method => 6
  | field => 8
  | enum => 10
  | boolean => 17
  | array => 18
  | object => 19
  | enumMember => 22
  | struct => 23

def ofLabel? (s : String) : Option SymbolKind := all.find? (·.label = s)

def ofCode? (n : Int) : Option SymbolKind := all.find? (fun k ↦ (k.code : Int) = n)

end SymbolKind

inductive BlockWord where
  | message
  | enum
  | service
  deriving DecidableEq

namespace BlockWord

def spelling : BlockWord → String
  | message => "message"
  | enum => "enum"
  | service => "service"

def kind : BlockWord → SymbolKind
  | message => .struct
  | enum => .enum
  | service => .service

def ofWord? (v : String) : Option BlockWord :=
  if v = "message" then some message
  else if v = "enum" then some enum
  else if v = "service" then some service
  else none

end BlockWord

inductive Cardinality where
  | required
  | optional
  | repeated
  deriving DecidableEq

namespace Cardinality

def spelling : Cardinality → String
  | required => "required"
  | optional => "optional"
  | repeated => "repeated"

def ofWord? (v : String) : Option Cardinality :=
  if v = "required" then some required
  else if v = "optional" then some optional
  else if v = "repeated" then some repeated
  else none

end Cardinality

structure FieldShape where
  /-- The declared type: `map` for a map, the value's own name for an enum value. -/
  typeName : String
  cardinality : Option Cardinality := none
  isMap : Bool := false
  inEnum : Bool := false
  deriving DecidableEq

structure KindRule where
  label : String
  applies : FieldShape → Bool
  kind : SymbolKind

namespace FieldShape

/-- The first rule that applies decides. -/
def rules : List KindRule :=
  [⟨"map", fun s ↦ s.isMap, .object⟩,
   ⟨"enum value", fun s ↦ s.inEnum, .enumMember⟩,
   ⟨"oneof", fun s ↦ s.typeName = "oneof", .enum⟩,
   ⟨"repeated", fun s ↦ s.cardinality = some .repeated, .array⟩,
   ⟨"bool", fun s ↦ s.typeName = "bool", .boolean⟩]

def rule? (s : FieldShape) : Option KindRule := rules.find? (·.applies s)

def kind (s : FieldShape) : SymbolKind := (s.rule?.map KindRule.kind).getD .field

def opensBody (s : FieldShape) : Bool := s.typeName = "oneof" && !(s.isMap || s.inEnum)

end FieldShape

/-- The lines from `first` to `last`, both included, counted from 0. -/
structure LineRange where
  first : Int
  last : Int
  deriving DecidableEq

namespace LineRange

def point (line : Int) : LineRange := ⟨line, line⟩

def isPoint (r : LineRange) : Bool := r.first = r.last

def contains (r s : LineRange) : Bool := r.first ≤ s.first && s.last ≤ r.last

def fromOne (r : LineRange) : Int × Int := (r.first + 1, r.last + 1)

end LineRange

structure Node where
  name : String
  detail : String
  kind : SymbolKind
  range : LineRange
  selection : LineRange
  children : List Node := []

namespace Node

mutual

/-- The node and all below it, each before its children, in source order. -/
def walk : Node → List Node
  | n@⟨_, _, _, _, _, children⟩ => n :: walkAll children

def walkAll : List Node → List Node
  | [] => []
  | n :: ns => walk n ++ walkAll ns

end

def find? (n : Node) (name : String) : Option Node := n.children.find? (·.name = name)

end Node

end SchemaOutline

namespace SchemaOutline.Node

mutual

def toJson : Node → Json
  | ⟨name, detail, kind, range, selection, children⟩ =>
    .object [("name", .text name), ("detail", .text detail), ("kind", .text kind.label),
      ("range", .list [.int range.fromOne.1, .int range.fromOne.2]),
      ("selection_line", .int (selection.first + 1)),
      ("children", .list (allToJson children))]

def allToJson : List Node → List Json
  | [] => []
  | n :: ns => n.toJson :: allToJson ns

end

end SchemaOutline.Node
