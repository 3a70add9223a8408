import SchemaOutline.Proofs.Outline.Kinds
import SchemaOutline.Proofs.Text.OneLine
import SchemaOutline.Proofs.Token.Printing

namespace SchemaOutline

open Stack
open Text (OneLine)

inductive Node.Legible : Node → Prop
  | mk {n : Node} (hn : OneLine n.name) (hd : OneLine n.detail)
      (hc : ∀ m ∈ n.children, Legible m) : Legible n

open Node (Legible)

structure Head.Legible (h : Head) : Prop where
  name : OneLine h.name
  detail : OneLine h.detail

def Job.Legible : Job → Prop
  | document nodes => ∀ n ∈ nodes, n.Legible
  | body head _ members => head.Legible ∧ ∀ n ∈ members, n.Legible
  | signature head _ | tail head => head.Legible
  | skip _ => True

def Unnamed.Legible : Unnamed → Prop
  | block .. | method _ => True
  | field _ detail _ => OneLine detail

def Frame.Legible : Frame → Prop
  | scan _ job => job.Legible
  | name pending => pending.Legible
  | fieldType .. => True
  | mapType _ _ detail => OneLine detail

section Frames

variable {head : Head} {job : Job} {u : Unnamed} {f : Frame} {nodes : List Node} {v : String}
  {line : Int}

theorem Head.Legible.close (h : head.Legible) (hn : ∀ n ∈ nodes, n.Legible) (line : Int) :
    ∀ n ∈ [head.close line nodes], n.Legible := by
  intro n hmem
  obtain rfl := List.mem_singleton.1 hmem
  exact .mk h.name h.detail hn

theorem Job.Legible.close (h : job.Legible) (line : Int) : ∀ n ∈ job.close line, n.Legible := by
  cases job with
  | document nodes => exact fun n hn ↦ h n (List.mem_reverse.1 hn)
  | body head inEnum members =>
    exact h.1.close (fun n hn ↦ h.2 n (List.mem_reverse.1 hn)) line
  | signature head inOptions => exact Head.Legible.close h (by simp) line
  | tail head => exact Head.Legible.close h (by simp) line
  | skip ends => exact nofun

theorem Job.Legible.grow (h : job.Legible) (hv : OneLine v) : (job.grow v).Legible := by
  unfold Job.grow
  split
  · have hreturns : OneLine " returns " := by decide
    unfold Job.sign
    split_ifs
    · exact h
    · exact ⟨h.name, h.detail.append hreturns⟩
    · exact h
    · exact ⟨h.name, h.detail.append hv⟩
  · exact h

theorem Frame.Legible.receive (h : f.Legible) (hn : ∀ n ∈ nodes, n.Legible) :
    (f.receive nodes).Legible := by
  cases f with
  | scan u job =>
    cases job with
    | document ns => exact List.forall_mem_append.2 ⟨by simpa using hn, h⟩
    | body head inEnum ns => exact ⟨h.1, List.forall_mem_append.2 ⟨by simpa using hn, h.2⟩⟩
    | signature head inOptions => exact h
    | tail head => exact h
    | skip ends => exact h
  | name pending => exact h
  | fieldType start c => exact h
  | mapType u start detail => exact h

theorem Unnamed.Legible.named (h : u.Legible) (hv : OneLine v) (line : Int) :
    (u.named v line).Legible := by
  cases u with
  | block word start =>
    have hword : OneLine word.spelling := by cases word <;> decide
    exact ⟨⟨hv, hword⟩, nofun⟩
  | method start =>
    have hrpc : OneLine "rpc" := by decide
    exact ⟨hv, hrpc⟩
  | field start detail shape =>
    simp only [Unnamed.named]
    split_ifs
    · exact ⟨⟨hv, h⟩, nofun⟩
    · exact ⟨hv, h⟩

theorem Unnamed.legible_typed (start : Int) (c : Cardinality) (hv : OneLine v) :
    (Unnamed.typed start c v).Legible := by
  have hlabel : OneLine (c.spelling ++ " ") := by cases c <;> decide
  exact hlabel.append hv

theorem Frame.legible_ofField (inEnum : Bool) (hv : OneLine v) (start : Int) :
    (ofField inEnum v start).Legible := by
  have hnone : OneLine "" := by decide
  have hmap : OneLine "map" := by decide
  unfold ofField
  split_ifs
  · exact hmap
  · exact ⟨hv, hnone⟩
  · split
    · trivial
    · exact hv

theorem Frame.legible_ofToken? {c : Option Bool} {start : Int} (hv : OneLine v)
    (h : ofToken? c v start = some f) : f.Legible := by
  obtain ⟨word, -, rfl⟩ | ⟨-, rfl⟩ | ⟨e, -, rfl⟩ | ⟨inEnum, -, rfl⟩ := ofToken?_cases h
  · trivial
  · trivial
  · trivial
  · exact legible_ofField inEnum hv start

theorem Frame.legible_visitMap (unclosed : List Bracket) (start : Int) {detail : String}
    (hd : OneLine detail) (hv : OneLine v) : (visitMap unclosed start detail v).Legible := by
  have hblank : OneLine (if v = "," then " " else "") := by split_ifs <;> decide
  have hlonger := (hd.append hv).append hblank
  unfold visitMap
  dsimp only
  split_ifs at hlonger ⊢ <;> exact hlonger

def Frame.Move.Legible : Frame.Move → Prop
  | .go f => f.Legible
  | .push f g => f.Legible ∧ g.Legible
  | .pop nodes => ∀ n ∈ nodes, n.Legible

theorem Frame.Effect.legible {t : Token} {m : Frame.Move} (he : Frame.Effect t f m)
    (ht : OneLine t.value) (h : f.Legible) : m.Legible := by
  cases he with
  | named pending => exact Unnamed.Legible.named h ht t.line
  | typed start c => exact Unnamed.legible_typed start c ht
  | mapped hn => exact Frame.legible_visitMap _ _ h ht
  | begins hc hi => exact ⟨h, legible_ofToken? ht hi⟩
  | @stays u v job hn hc he => exact Job.Legible.grow h ht
  | @ends u job hn hc he => exact (Job.Legible.grow h ht).close t.line

theorem Unnamed.Legible.cutShort (h : u.Legible) (line : Int) :
    ∀ n ∈ (u.cutShort line).2, n.Legible := by
  have hnone : OneLine "" := by decide
  exact (h.named hnone line).close line

theorem Frame.Legible.cutShort (h : f.Legible) (line : Int) :
    ∀ n ∈ (f.cutShort line).2, n.Legible := by
  cases f with
  | scan u job => exact Job.Legible.close h line
  | name pending => exact Unnamed.Legible.cutShort h line
  | fieldType start c =>
    have hnone : OneLine "" := by decide
    exact (Unnamed.legible_typed start c hnone).cutShort line
  | mapType u start detail =>
    have hmapped : (Unnamed.mapped start detail).Legible := h
    exact hmapped.cutShort line

def Stack.Legible (s : Stack) : Prop := ∀ f ∈ s.inner :: s.outer, f.Legible

theorem Stack.Legible.read {s s' : Stack} {t : Token} (h : s.Legible) (ht : OneLine t.value)
    (hr : s.read t = .ok (.more s')) : s'.Legible := by
  obtain ⟨inner, outer⟩ := s
  obtain ⟨hinner, houter⟩ := List.forall_mem_cons.1 h
  obtain ⟨f, he, rfl⟩ | ⟨f, g, he, rfl⟩ | ⟨nodes, f, fs, he, rfl, rfl⟩ := read_more_cases hr
  · exact List.forall_mem_cons.2 ⟨he.legible ht hinner, houter⟩
  · obtain ⟨hf, hg⟩ := he.legible ht hinner
    exact List.forall_mem_cons.2 ⟨hg, List.forall_mem_cons.2 ⟨hf, houter⟩⟩
  · obtain ⟨hf, hfs⟩ := List.forall_mem_cons.1 houter
    exact List.forall_mem_cons.2 ⟨hf.receive (he.legible ht hinner), hfs⟩

theorem Stack.Legible.reads {s s' : Stack} {ts : List Token} (hr : Reads s ts s')
    (ht : ∀ t ∈ ts, OneLine t.value) (h : s.Legible) : s'.Legible := by
  induction hr with
  | nil => exact h
  | cons hread hrest ih =>
    obtain ⟨hfirst, hothers⟩ := List.forall_mem_cons.1 ht
    exact ih hothers (h.read hfirst hread)

theorem Stack.Legible.cutShort {f : Frame} {outer : List Frame} (h : Stack.Legible ⟨f, outer⟩)
    (line : Int) : ∀ n ∈ (Stack.cutShort line f outer).2, n.Legible := by
  induction outer generalizing f with
  | nil => exact (h f (by simp)).cutShort line
  | cons g outer ih =>
    obtain ⟨hf, hall⟩ := List.forall_mem_cons.1 h
    obtain ⟨hg, houter⟩ := List.forall_mem_cons.1 hall
    exact ih (List.forall_mem_cons.2 ⟨hg.receive (hf.cutShort line), houter⟩)

end Frames

theorem Node.Legible.of_mem_children {m n : Node} (h : n.Legible) (hm : m ∈ walkAll n.children) :
    m.Legible := by
  induction h with
  | mk hn hd hc ih =>
    obtain ⟨k, hk, rfl | hm⟩ := mem_walkAll_iff.1 hm
    · exact hc _ hk
    · exact ih k hk hm

theorem Node.Legible.of_mem_walkAll {m : Node} {ns : List Node} (h : ∀ n ∈ ns, n.Legible)
    (hm : m ∈ walkAll ns) : m.Legible := by
  obtain ⟨n, hn, rfl | hm⟩ := mem_walkAll_iff.1 hm
  · exact h _ hn
  · exact (h n hn).of_mem_children hm

/-- No token of a text holds a line end, and so nothing that is shown of its outline does. -/
theorem legible_of_outline {strict : Bool} {text : String} {nodes : List Node}
    (h : outline strict text = .ok nodes) : ∀ n ∈ Node.walkAll nodes, n.Legible := by
  have htokens : ∀ t ∈ tokenize text, OneLine t.value := by
    intro t ht
    obtain ⟨rest, hlexeme⟩ := Token.isLexeme_of_mem_tokenize ht
    exact hlexeme.newline_notMem
  have hn := (Reading.result_eq_ok_iff.1 h).1
  obtain ⟨s, hs, he⟩ := Reading.exists_reads_of_nodes hn
  have hroot : Stack.Legible Reading.root := by
    simp [Stack.Legible, Reading.root, Frame.Legible, Job.Legible]
  have hlegible := Stack.Legible.reads hs htokens hroot
  rw [he] at hn
  obtain rfl := Except.ok.inj hn
  intro n hmem
  exact Node.Legible.of_mem_walkAll (hlegible.cutShort _) hmem

end SchemaOutline
