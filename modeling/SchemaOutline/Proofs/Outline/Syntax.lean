import SchemaOutline.Proofs.Outline.Nesting
import SchemaOutline.Outline.Node

namespace SchemaOutline.Syntax

open SchemaOutline.Bracket

/-- Well-nested tokens with none of `ends` outside all their brackets. The bracket that closes a
group stands outside that group. -/
inductive Clear (ends : List String) : List Token → Prop
  | nil : Clear ends []
  | plain {t : Token} {ts : List Token} (ht : mark t.value = .plain) (he : t.value ∉ ends)
      (h : Clear ends ts) : Clear ends (t :: ts)
  | group {b : Bracket} {o c : Token} {ts us : List Token} (ho : mark o.value = .opening b)
      (h : WellNested ts) (hc : mark c.value = .closing b) (he : c.value ∉ ends)
      (h' : Clear ends us) : Clear ends (o :: ts ++ c :: us)

/-- Tokens up to, and without, the first of `ends` that stands outside all brackets. -/
structure Stretch (ends : List String) where
  tokens : List Token
  clear : Clear ends tokens

structure Group (b : Bracket) where
  first : Int
  inside : List Token
  nested : WellNested inside
  last : Int

def Group.tokens {b : Bracket} (g : Group b) : List Token :=
  ⟨b.opener, g.first⟩ :: g.inside ++ [⟨b.closer, g.last⟩]

inductive Ending where
  | semicolon (line : Int)
  | braces (group : Group .curly)

def Ending.tokens : Ending → List Token
  | semicolon line => [⟨";", line⟩]
  | braces group => group.tokens

def Ending.line : Ending → Int
  | semicolon line => line
  | braces group => group.last

def enders : List String := [";", Bracket.curly.closer]

/-- The types of a method, with no semicolon and no brace at any depth. -/
structure Signature extends Stretch enders where
  noBrace : ∀ t ∈ tokens, t.value ≠ Bracket.curly.opener
  noSemicolon : ∀ t ∈ tokens, t.value ≠ ";"

def signatureWord (t : Token) : String := if t.value = "returns" then " returns " else t.value

def Signature.text (s : Signature) : String := String.join (s.tokens.map signatureWord)

def mapWord (t : Token) : String := t.value ++ if t.value = "," then " " else ""

def mapText (ts : List Token) : String := String.join (ts.map mapWord)

def keywords : List String :=
  ["message", "enum", "service", "rpc", "group", "extend", "option", "reserved"]

def fieldWords : List String := ["map", "oneof", "required", "optional", "repeated"]

structure Ordinary (v : String) : Prop where
  plain : mark v = .plain
  ne_semicolon : v ≠ ";"
  not_keyword : v ∉ keywords

mutual

/-- An item of a schema: at the top level, or in a body, which may be that of an enum. -/
inductive Item : Option Bool → Type
  | block {c : Option Bool} (word : BlockWord) (line : Int) (name : Token) (first : Int)
      (members : Items (some (word = .enum))) (last : Int) : Item c
  | method {c : Option Bool} (line : Int) (name : Token) (signature : Signature)
      (ending : Ending) : Item c
  | empty {c : Option Bool} (line : Int) : Item c
  | setting {c : Option Bool} (word : Token) (hw : word.value ∈ ["option", "reserved"])
      (content : Stretch [";"]) (last : Int) : Item c
  | extension {c : Option Bool} (word : Token) (hw : word.value ∈ ["extend", "group"])
      (title : Stretch [Bracket.curly.closer]) (content : Group .curly) : Item c
  | statement (word : Token) (hw : Ordinary word.value) (content : Stretch [";"])
      (last : Int) : Item none
  | value (name : Token) (hw : Ordinary name.value) (hm : name.value ≠ "map")
      (tail : Stretch enders) (ending : Ending) : Item (some true)
  | field (type : Token) (hw : Ordinary type.value) (hf : type.value ∉ fieldWords) (name : Token)
      (tail : Stretch enders) (ending : Ending) : Item (some false)
  | labelled (label : Cardinality) (line : Int) (type : Token) (ht : type.value ≠ "oneof")
      (name : Token) (tail : Stretch enders) (ending : Ending) : Item (some false)
  | oneof (line : Int) (name : Token) (first : Int) (members : Items (some false))
      (last : Int) : Item (some false)
  | labelledOneof (label : Cardinality) (line typeLine : Int) (name : Token) (first : Int)
      (members : Items (some false)) (last : Int) : Item (some false)
  | map {inEnum : Bool} (line : Int) (lead : Stretch [Bracket.angle.closer]) (types : Group .angle)
      (name : Token) (tail : Stretch enders) (ending : Ending) : Item (some inEnum)

inductive Items : Option Bool → Type
  | nil {c : Option Bool} : Items c
  | cons {c : Option Bool} (item : Item c) (items : Items c) : Items c

end

def braced (first : Int) (inside : List Token) (last : Int) : List Token :=
  ⟨Bracket.curly.opener, first⟩ :: inside ++ [⟨Bracket.curly.closer, last⟩]

mutual

def Item.tokens {c : Option Bool} : Item c → List Token
  | .block word line name first members last =>
    ⟨word.spelling, line⟩ :: name :: braced first members.tokens last
  | .method line name signature ending =>
    ⟨"rpc", line⟩ :: name :: signature.tokens ++ ending.tokens
  | .empty line => [⟨";", line⟩]
  | .setting word _ content last => word :: content.tokens ++ [⟨";", last⟩]
  | .extension word _ title content => word :: title.tokens ++ content.tokens
  | .statement word _ content last => word :: content.tokens ++ [⟨";", last⟩]
  | .value name _ _ tail ending => name :: tail.tokens ++ ending.tokens
  | .field type _ _ name tail ending => type :: name :: tail.tokens ++ ending.tokens
  | .labelled label line type _ name tail ending =>
    ⟨label.spelling, line⟩ :: type :: name :: tail.tokens ++ ending.tokens
  | .oneof line name first members last =>
    ⟨"oneof", line⟩ :: name :: braced first members.tokens last
  | .labelledOneof label line typeLine name first members last =>
    ⟨label.spelling, line⟩ :: ⟨"oneof", typeLine⟩ :: name :: braced first members.tokens last
  | .map line lead types name tail ending =>
    ⟨"map", line⟩ :: (lead.tokens ++ types.tokens) ++ (name :: tail.tokens ++ ending.tokens)

def Items.tokens {c : Option Bool} : Items c → List Token
  | .nil => []
  | .cons item items => item.tokens ++ items.tokens

end

/-- A node for a declaration that stands on the lines `first` to `last` and whose name is on the
line `name`, all counted from 1. -/
def nodeAt (first name last : Int) (title detail : String) (kind : SymbolKind)
    (children : List Node) : Node where
  name := title
  detail := detail
  kind := kind
  range := ⟨first - 1, last - 1⟩
  selection := .point (name - 1)
  children := children

def blockKind : BlockWord → SymbolKind
  | .message => .struct
  | .enum => .enum
  | .service => .service

def fieldKind (type : String) : SymbolKind := if type = "bool" then .boolean else .field

mutual

def Item.nodes {c : Option Bool} : Item c → List Node
  | .block word line name _ members last =>
    [nodeAt line line last name.value word.spelling (blockKind word) members.nodes]
  | .method line name signature ending =>
    [nodeAt line line ending.line name.value ("rpc" ++ signature.text) .method []]
  | .empty _ | .setting .. | .extension .. | .statement .. => []
  | .value name _ _ _ ending =>
    [nodeAt name.line name.line ending.line name.value "" .enumMember []]
  | .field type _ _ name _ ending =>
    [nodeAt type.line name.line ending.line name.value type.value (fieldKind type.value) []]
  | .labelled label line type _ name _ ending =>
    [nodeAt line name.line ending.line name.value (label.spelling ++ " " ++ type.value)
      (if label = .repeated then .array else fieldKind type.value) []]
  | .oneof line name _ members last =>
    [nodeAt line name.line last name.value "oneof" .enum members.nodes]
  | .labelledOneof label line _ name _ members last =>
    [nodeAt line name.line last name.value (label.spelling ++ " " ++ "oneof") .enum members.nodes]
  | .map line lead types name _ ending =>
    [nodeAt line name.line ending.line name.value ("map" ++ mapText (lead.tokens ++ types.tokens))
      .object []]

def Items.nodes {c : Option Bool} : Items c → List Node
  | .nil => []
  | .cons item items => item.nodes ++ items.nodes

end

abbrev Document : Type := Items none

end SchemaOutline.Syntax
