import SchemaOutline.Proofs.Outline.Lines
import SchemaOutline.Proofs.Outline.Matching

namespace SchemaOutline

open Stack

def typeText : Option Cardinality → String → String
  | none, type => type
  | some c, type => c.spelling ++ " " ++ type

/-- The declarations that may stand in a context, by kind and detail. The context is that of a
body, or none at the top level; `body` is the context of the members, for a declaration that has
some. -/
inductive Declares : Option Bool → SymbolKind → String → (body : Option Bool) → Prop
  | block (c : Option Bool) (word : BlockWord) :
      Declares c word.kind word.spelling (some (word = .enum))
  | method (c : Option Bool) (signature : String) : Declares c .method ("rpc" ++ signature) none
  | map (inEnum : Bool) (types : String) : Declares (some inEnum) .object ("map" ++ types) none
  | value : Declares (some true) .enumMember "" none
  | oneof (label : Option Cardinality) :
      Declares (some false) .enum (typeText label "oneof") (some false)
  | array (type : String) (ht : type ≠ "oneof") :
      Declares (some false) .array (typeText (some .repeated) type) none
  | boolean (label : Option Cardinality) (hl : label ≠ some .repeated) :
      Declares (some false) .boolean (typeText label "bool") none
  | field (detail : String) : Declares (some false) .field detail none

theorem declares_field (label : Option Cardinality) (type : String) :
    let shape : FieldShape := { typeName := type, cardinality := label }
    Declares (some false) shape.kind (typeText label type)
      (if shape.opensBody then some false else none) := by
  by_cases ho : type = "oneof"
  · subst ho
    exact .oneof label
  · by_cases hl : label = some .repeated
    · subst hl
      simpa [FieldShape.kind, FieldShape.rule?, FieldShape.rules, FieldShape.opensBody, ho]
        using Declares.array type ho
    · by_cases hb : type = "bool"
      · subst hb
        simpa [FieldShape.kind, FieldShape.rule?, FieldShape.rules, FieldShape.opensBody, hl]
          using Declares.boolean label hl
      · simpa [FieldShape.kind, FieldShape.rule?, FieldShape.rules, FieldShape.opensBody, ho, hl, hb]
          using Declares.field (typeText label type)

namespace Node

/-- Trees in which every declaration may stand where it does. -/
inductive Placed : Option Bool → Node → Prop
  | leaf {c : Option Bool} {n : Node} (h : Declares c n.kind n.detail none)
      (hc : n.children = []) : Placed c n
  | body {c : Option Bool} {inEnum : Bool} {n : Node}
      (h : Declares c n.kind n.detail (some inEnum))
      (hc : ∀ m ∈ n.children, Placed (some inEnum) m) : Placed c n

end Node

open Node (Placed)

section Frames

variable {c : Option Bool} {job : Job} {f : Frame} {nodes : List Node}

def Job.Makes (c : Option Bool) : Job → Prop
  | document nodes => c = none ∧ ∀ n ∈ nodes, Placed none n
  | body head inEnum members =>
    Declares c head.kind head.detail (some inEnum) ∧ ∀ n ∈ members, Placed (some inEnum) n
  | signature head _ => head.kind = .method ∧ ∃ signature, head.detail = "rpc" ++ signature
  | tail head => Declares c head.kind head.detail none
  | skip _ => True

def Unnamed.Makes (c : Option Bool) : Unnamed → Prop
  | block .. | method _ => True
  | field _ detail shape =>
    Declares c shape.kind detail (if shape.opensBody then some false else none)

def Frame.Makes (c : Option Bool) : Frame → Prop
  | scan _ job => job.Makes c
  | name pending => pending.Makes c
  | fieldType .. => c = some false
  | mapType _ _ detail => (∃ inEnum, c = some inEnum) ∧ ∃ types, detail = "map" ++ types

def Frame.context : Frame → Option (Option Bool)
  | scan _ job => job.context
  | name _ | fieldType .. | mapType .. => none

theorem Head.placed_close {head : Head} (h : Declares c head.kind head.detail none) (line : Int) :
    ∀ n ∈ [head.close line []], Placed c n := by
  intro n hn
  obtain rfl := List.mem_singleton.1 hn
  exact .leaf h rfl

theorem Job.Makes.close (h : job.Makes c) (line : Int) : ∀ n ∈ job.close line, Placed c n := by
  cases job with
  | document nodes =>
    obtain ⟨rfl, hn⟩ := h
    intro n hmem
    exact hn n (List.mem_reverse.1 hmem)
  | body head inEnum members =>
    obtain ⟨hd, hm⟩ := h
    intro n hmem
    obtain rfl := List.mem_singleton.1 hmem
    exact .body hd fun m hmem ↦ hm m (List.mem_reverse.1 hmem)
  | signature head inOptions =>
    obtain ⟨hk, s, hs⟩ := h
    have hd : Declares c head.kind head.detail none := by
      rw [hk, hs]
      exact .method c s
    exact Head.placed_close hd line
  | tail head => exact Head.placed_close h line
  | skip ends => exact nofun

theorem Job.Makes.grow (h : job.Makes c) (v : String) : (job.grow v).Makes c := by
  unfold Job.grow
  split
  · obtain ⟨hk, s, hs⟩ := h
    unfold Job.sign
    split_ifs
    · exact ⟨hk, s, hs⟩
    · exact ⟨hk, s ++ " returns ", by simp [hs, String.append_assoc]⟩
    · exact ⟨hk, s, hs⟩
    · exact ⟨hk, s ++ v, by simp [hs, String.append_assoc]⟩
  · exact h

theorem Frame.Makes.receive {inner : Option Bool} (h : f.Makes c) (hf : f.context = some inner)
    (hn : ∀ n ∈ nodes, Placed inner n) : (f.receive nodes).Makes c := by
  cases f with
  | scan u job =>
    cases job with
    | document ns =>
      cases hf
      obtain ⟨rfl, hns⟩ := h
      exact ⟨rfl, List.forall_mem_append.2 ⟨by simpa using hn, hns⟩⟩
    | body head inEnum ns =>
      cases hf
      obtain ⟨hd, hns⟩ := h
      exact ⟨hd, List.forall_mem_append.2 ⟨by simpa using hn, hns⟩⟩
    | signature head inOptions => cases hf
    | tail head => cases hf
    | skip ends => cases hf
  | name pending => cases hf
  | fieldType start label => cases hf
  | mapType u start detail => cases hf

theorem Unnamed.Makes.named {u : Unnamed} (h : u.Makes c) (name : String) (line : Int) :
    (u.named name line).Makes c := by
  cases u with
  | block word start => exact ⟨.block c word, nofun⟩
  | method start => exact ⟨rfl, "", rfl⟩
  | field start detail shape =>
    simp only [Unnamed.Makes] at h
    simp only [Unnamed.named]
    split_ifs at h ⊢
    · exact ⟨h, nofun⟩
    · exact h

theorem Unnamed.makes_typed (start : Int) (label : Cardinality) (type : String) :
    (Unnamed.typed start label type).Makes (some false) :=
  declares_field (some label) type

theorem Unnamed.makes_mapped (inEnum : Bool) (start : Int) (types : String) :
    (Unnamed.mapped start ("map" ++ types)).Makes (some inEnum) :=
  Declares.map inEnum types

theorem Frame.makes_ofField (inEnum : Bool) (v : String) (start : Int) :
    (ofField inEnum v start).Makes (some inEnum) := by
  unfold ofField
  split_ifs with hm he
  · exact ⟨⟨inEnum, rfl⟩, "", rfl⟩
  · subst he
    exact Declares.value
  · simp only [Bool.not_eq_true] at he
    subst he
    split
    · exact rfl
    · exact declares_field none v

theorem Frame.makes_ofToken? {v : String} {start : Int} (h : ofToken? c v start = some f) :
    f.Makes c := by
  obtain ⟨word, -, rfl⟩ | ⟨-, rfl⟩ | ⟨e, -, rfl⟩ | ⟨inEnum, rfl, rfl⟩ := ofToken?_cases h
  · trivial
  · trivial
  · trivial
  · exact makes_ofField inEnum v start

def Frame.Move.Makes (c : Option Bool) : Frame.Move → Prop
  | .go f => f.Makes c
  | .push f g => f.Makes c ∧ ∃ c', f.context = some c' ∧ g.Makes c'
  | .pop nodes => ∀ n ∈ nodes, Placed c n

theorem Frame.Effect.makes {t : Token} {m : Frame.Move} (he : Frame.Effect t f m)
    (h : f.Makes c) : m.Makes c := by
  cases he with
  | named pending => exact Unnamed.Makes.named h t.value t.line
  | typed start label =>
    obtain rfl : c = some false := h
    exact Unnamed.makes_typed start label t.value
  | @mapped u v start detail hn =>
    obtain ⟨⟨inEnum, rfl⟩, types, rfl⟩ := h
    simp only [Frame.Move.Makes, visitMap, String.append_assoc]
    generalize types ++ (t.value ++ if t.value = "," then " " else "") = longer
    split_ifs
    · exact Unnamed.makes_mapped inEnum start longer
    · exact ⟨⟨inEnum, rfl⟩, longer, rfl⟩
  | begins hc hi => exact ⟨h, _, hc, makes_ofToken? hi⟩
  | @stays u v job hn hc he => exact Job.Makes.grow h t.value
  | @ends u job hn hc he => exact (Job.Makes.grow h t.value).close t.line

theorem Unnamed.Makes.cutShort {u : Unnamed} (h : u.Makes c) (line : Int) :
    ∀ n ∈ (u.cutShort line).2, Placed c n :=
  (h.named "" line).close line

theorem Frame.Makes.cutShort (h : f.Makes c) (line : Int) :
    ∀ n ∈ (f.cutShort line).2, Placed c n := by
  cases f with
  | scan u job => exact Job.Makes.close h line
  | name pending => exact Unnamed.Makes.cutShort h line
  | fieldType start label =>
    obtain rfl : c = some false := h
    exact (Unnamed.makes_typed start label "").cutShort line
  | mapType u start detail =>
    obtain ⟨⟨inEnum, rfl⟩, types, rfl⟩ := h
    exact (Unnamed.makes_mapped inEnum start types).cutShort line

def Stack.Makes : Frame → List Frame → Prop
  | f, [] => f.Makes none
  | f, g :: outer => ∃ c, g.context = some c ∧ f.Makes c ∧ Stack.Makes g outer

theorem Stack.Makes.receive {outer : List Frame} (h : Stack.Makes f outer)
    (hf : f.context = some c) (hn : ∀ n ∈ nodes, Placed c n) :
    Stack.Makes (f.receive nodes) outer := by
  cases outer with
  | nil => exact Frame.Makes.receive h hf hn
  | cons g outer =>
    obtain ⟨c', hg, hm, hrest⟩ := h
    exact ⟨c', hg, hm.receive hf hn, hrest⟩

theorem Stack.Makes.read {s s' : Stack} {t : Token} (h : Stack.Makes s.inner s.outer)
    (hr : s.read t = .ok (.more s')) : Stack.Makes s'.inner s'.outer := by
  obtain ⟨f, outer⟩ := s
  obtain ⟨c, hm, hrest⟩ : ∃ c, f.Makes c ∧ ∀ f' : Frame, f'.Makes c → Stack.Makes f' outer := by
    cases outer with
    | nil => exact ⟨none, h, fun _ h' ↦ h'⟩
    | cons g outer =>
      obtain ⟨c, hg, hm, hrest⟩ := h
      exact ⟨c, hm, fun _ h' ↦ ⟨c, hg, h', hrest⟩⟩
  obtain ⟨f', he, rfl⟩ | ⟨f', inner, he, rfl⟩ | ⟨nodes, g, fs, he, rfl, rfl⟩ := read_more_cases hr
  · exact hrest f' (he.makes hm)
  · obtain ⟨hf', c', hc', hi⟩ := he.makes hm
    exact ⟨c', hc', hi, hrest f' hf'⟩
  · obtain ⟨c', hg, hm', hg'⟩ := h
    exact hg'.receive hg (he.makes hm')

theorem Stack.Makes.cutShort {outer : List Frame} (h : Stack.Makes f outer) (line : Int) :
    ∀ n ∈ (Stack.cutShort line f outer).2, Placed none n := by
  induction outer generalizing f with
  | nil => exact Frame.Makes.cutShort h line
  | cons g outer ih =>
    obtain ⟨c, hg, hm, hrest⟩ := h
    exact ih (hrest.receive hg (hm.cutShort line))

theorem Reading.placed_of_nodes {ts : List Token} (h : (outlineTokens ts).nodes = .ok nodes) :
    ∀ n ∈ nodes, Placed none n := by
  obtain ⟨s, hs, he⟩ := exists_reads_of_nodes h
  have hroot : Stack.Makes root.inner root.outer := ⟨rfl, nofun⟩
  have hmakes : Stack.Makes s.inner s.outer :=
    hs.invariant (P := fun s ↦ Stack.Makes s.inner s.outer) Stack.Makes.read hroot
  rw [he] at h
  obtain rfl := Except.ok.inj h
  exact hmakes.cutShort _

end Frames

namespace SymbolKind

def oneofDetails : List String := ["oneof", "required oneof", "optional oneof", "repeated oneof"]

def Describes : SymbolKind → String → Prop
  | struct, detail => detail = "message"
  | service, detail => detail = "service"
  | method, detail => ∃ signature, detail = "rpc" ++ signature
  | object, detail => ∃ types, detail = "map" ++ types
  | enumMember, detail => detail = ""
  | boolean, detail => detail ∈ ["bool", "required bool", "optional bool"]
  | array, detail => ∃ type, detail = "repeated " ++ type ∧ type ≠ "oneof"
  | enum, detail => detail ∈ "enum" :: oneofDetails
  | field, _ => True

end SymbolKind

namespace Declares

open SymbolKind (oneofDetails)

variable {c body : Option Bool} {kind : SymbolKind} {detail : String}

theorem mem_oneofDetails (label : Option Cardinality) : typeText label "oneof" ∈ oneofDetails := by
  rcases label with _ | label
  · decide
  · cases label <;> decide

theorem describes (h : Declares c kind detail body) : kind.Describes detail := by
  cases h with
  | block _ word => cases word <;> simp [BlockWord.kind, BlockWord.spelling, SymbolKind.Describes]
  | method _ signature => exact ⟨signature, rfl⟩
  | map inEnum types => exact ⟨types, rfl⟩
  | value => exact rfl
  | oneof label => exact .tail _ (mem_oneofDetails label)
  | array type ht => exact ⟨type, rfl, ht⟩
  | boolean label hl =>
    simp only [SymbolKind.Describes]
    rcases label with _ | label
    · decide
    · cases label with
      | required => decide
      | optional => decide
      | repeated => exact absurd rfl hl
  | field => trivial

theorem top (h : Declares none kind detail body) :
    kind ∈ [.struct, .service, .method] ∨ kind = .enum ∧ detail = "enum" := by
  cases h with
  | block _ word => cases word <;> simp [BlockWord.kind, BlockWord.spelling]
  | method => simp

theorem body_eq_none (h : Declares c kind detail body)
    (hk : kind ∈ [.method, .field, .boolean, .array, .object, .enumMember]) : body = none := by
  cases h with
  | block _ word => cases word <;> simp [BlockWord.kind] at hk
  | oneof label => simp at hk
  | _ => rfl

theorem context_of_enumMember (h : Declares c kind detail body) (hk : kind = .enumMember) :
    c = some true := by
  cases h with
  | block _ word => cases word <;> cases hk
  | value => rfl
  | _ => cases hk

theorem body_eq_true_iff (h : Declares c kind detail body) :
    body = some true ↔ kind = .enum ∧ detail = "enum" := by
  cases h with
  | block _ word => cases word <;> simp [BlockWord.kind, BlockWord.spelling]
  | oneof label =>
    have hne : typeText label "oneof" ≠ "enum" := by
      intro he
      have hmem := mem_oneofDetails label
      rw [he] at hmem
      revert hmem
      decide
    simp [hne]
  | _ => simp

theorem in_enum (h : Declares (some true) kind detail body) :
    kind ∉ [.field, .boolean, .array] ∧ ¬ (kind = .enum ∧ detail ∈ oneofDetails) := by
  cases h with
  | block _ word => cases word <;> simp [BlockWord.kind, BlockWord.spelling, oneofDetails]
  | method => simp
  | map => simp
  | value => simp

end Declares

namespace Node

variable {c : Option Bool} {m n : Node} {ns : List Node}

theorem mem_walkAll_iff : m ∈ walkAll ns ↔ ∃ n ∈ ns, m = n ∨ m ∈ walkAll n.children := by
  induction ns with
  | nil => simp [walkAll]
  | cons n ns ih =>
    rw [walkAll_cons, List.cons_append, List.mem_cons, List.mem_append, ih]
    simp [or_assoc]

theorem Placed.of_mem_children (h : Placed c n) (hm : m ∈ walkAll n.children) : ∃ c, Placed c m := by
  induction h with
  | leaf h hc =>
    rw [hc] at hm
    simp [walkAll] at hm
  | body h hc ih =>
    obtain ⟨k, hk, rfl | hm⟩ := mem_walkAll_iff.1 hm
    · exact ⟨_, hc _ hk⟩
    · exact ih k hk hm

theorem Placed.of_mem_walkAll (h : ∀ n ∈ ns, Placed c n) (hm : m ∈ walkAll ns) :
    ∃ c, Placed c m := by
  obtain ⟨n, hn, rfl | hm⟩ := mem_walkAll_iff.1 hm
  · exact ⟨c, h _ hn⟩
  · exact (h n hn).of_mem_children hm

theorem Placed.declares (h : Placed c n) : ∃ body, Declares c n.kind n.detail body := by
  cases h with
  | leaf h hc => exact ⟨_, h⟩
  | body h hc => exact ⟨_, h⟩

theorem Placed.child (h : Placed c n) (hm : m ∈ n.children) :
    ∃ inEnum, Declares c n.kind n.detail (some inEnum) ∧ Placed (some inEnum) m := by
  cases h with
  | leaf h hc =>
    rw [hc] at hm
    cases hm
  | @body _ inEnum _ h hc => exact ⟨inEnum, h, hc m hm⟩

/-- How kind, detail, members and place of the declarations of an outline agree. -/
structure WellKinded (nodes : List Node) : Prop where
  top : ∀ n ∈ nodes,
    n.kind ∈ [.struct, .service, .method] ∨ n.kind = .enum ∧ n.detail = "enum"
  leaves : ∀ n ∈ walkAll nodes,
    n.kind ∈ [.method, .field, .boolean, .array, .object, .enumMember] → n.children = []
  details : ∀ n ∈ walkAll nodes, n.kind.Describes n.detail
  values : ∀ n ∈ walkAll nodes, ∀ m ∈ n.children,
    m.kind = .enumMember → n.kind = .enum ∧ n.detail = "enum"
  enums : ∀ n ∈ walkAll nodes, n.kind = .enum ∧ n.detail = "enum" → ∀ m ∈ n.children,
    m.kind ∉ [.field, .boolean, .array] ∧
      ¬ (m.kind = .enum ∧ m.detail ∈ SymbolKind.oneofDetails)

theorem wellKinded_of_placed (h : ∀ n ∈ ns, Placed none n) : WellKinded ns where
  top n hn := by
    obtain ⟨body, hd⟩ := (h n hn).declares
    exact hd.top
  leaves n hn hk := by
    obtain ⟨c, hp⟩ := Placed.of_mem_walkAll h hn
    cases hp with
    | leaf hd hc => exact hc
    | body hd hc => cases hd.body_eq_none hk
  details n hn := by
    obtain ⟨c, hp⟩ := Placed.of_mem_walkAll h hn
    obtain ⟨body, hd⟩ := hp.declares
    exact hd.describes
  values n hn m hm hk := by
    obtain ⟨c, hp⟩ := Placed.of_mem_walkAll h hn
    obtain ⟨inEnum, hd, hpm⟩ := hp.child hm
    obtain ⟨body, hdm⟩ := hpm.declares
    exact hd.body_eq_true_iff.1 (hdm.context_of_enumMember hk)
  enums n hn hk m hm := by
    obtain ⟨c, hp⟩ := Placed.of_mem_walkAll h hn
    obtain ⟨inEnum, hd, hpm⟩ := hp.child hm
    obtain ⟨body, hdm⟩ := hpm.declares
    rw [hd.body_eq_true_iff.2 hk] at hdm
    exact hdm.in_enum

end Node

/-- Every outline is well kinded, also that of a text that is malformed or cut short. -/
theorem outline_wellKinded (strict : Bool) (text : String) (nodes : List Node)
    (h : outline strict text = .ok nodes) : Node.WellKinded nodes :=
  Node.wellKinded_of_placed (Reading.placed_of_nodes (Reading.result_eq_ok_iff.1 h).1)

/-- A value that is called like a oneof, with a map beside it, and a oneof with a cardinality, cut
short inside a field. -/
theorem outline_wellKinded_odd :
    let text := "enum E\x7boneof;map<A> m;\x7dmessage M\x7brepeated oneof o\x7boptional"
    let nodes : List Node :=
      [⟨"E", "enum", .enum, ⟨0, 0⟩, ⟨0, 0⟩,
        [⟨"oneof", "", .enumMember, ⟨0, 0⟩, ⟨0, 0⟩, []⟩,
          ⟨"m", "map<A>", .object, ⟨0, 0⟩, ⟨0, 0⟩, []⟩]⟩,
      ⟨"M", "message", .struct, ⟨0, 0⟩, ⟨0, 0⟩,
        [⟨"o", "repeated oneof", .enum, ⟨0, 0⟩, ⟨0, 0⟩,
          [⟨"", "optional ", .field, ⟨0, 0⟩, ⟨0, 0⟩, []⟩]⟩]⟩]
    outline false text = .ok nodes ∧ Node.WellKinded nodes := by
  refine ⟨?h, outline_wellKinded false _ _ ?h⟩
  rfl

end SchemaOutline
