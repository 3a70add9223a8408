import SchemaOutline.Proofs.Outline.Steps

namespace SchemaOutline

open SchemaOutline.Bracket Stack

def Frame.Move.unclosed : Frame.Move → List Bracket
  | .go f => f.unclosed
  | .push f g => g.unclosed ++ f.unclosed
  | .pop _ => []

theorem Frame.unclosed_ofToken? {c : Option Bool} {v : String} {start : Int} {f : Frame}
    (h : ofToken? c v start = some f) : f.unclosed = [] := by
  obtain ⟨word, -, rfl⟩ | ⟨-, rfl⟩ | ⟨e, -, rfl⟩ | ⟨inEnum, -, rfl⟩ := ofToken?_cases h
  · rfl
  · rfl
  · rfl
  · unfold ofField
    split_ifs
    · rfl
    · rfl
    · split <;> rfl

theorem Frame.unclosed_visitMap (u : List Bracket) (start : Int) (detail v : String) :
    (visitMap u start detail v).unclosed = u := by
  cases u with
  | nil =>
    simp only [visitMap]
    split_ifs <;> rfl
  | cons b u => rfl

/-- A frame checks every token against its own brackets, unless it takes it for a name. -/
theorem Frame.Effect.nest_unclosed {t : Token} {f : Frame} {m : Frame.Move}
    (h : Frame.Effect t f m) (hf : f.takes = false) : nest f.unclosed t = .ok m.unclosed := by
  cases h with
  | named pending => cases hf
  | typed start c => cases hf
  | @mapped u v start detail hn =>
    rw [Frame.Move.unclosed, unclosed_visitMap]
    exact hn
  | @begins u job c inner hc hi =>
    rw [Frame.Move.unclosed, unclosed_ofToken? hi]
    exact nest_plain (ofToken?_plain hi) u
  | stays hn hc he => exact hn
  | ends hn hc he => exact hn

theorem Frame.Effect.unclosed_eq {t : Token} {f : Frame} {m : Frame.Move}
    (h : Frame.Effect t f m) (hf : f.takes = true) : m.unclosed = f.unclosed := by
  cases h with
  | named pending => rfl
  | typed start c => rfl
  | mapped hn => cases hf
  | begins hc hi => cases hf
  | stays hn hc he => cases hf
  | ends hn hc he => cases hf

namespace Stack

variable {s s' : Stack} {t : Token} {ts : List Token}

def unclosed (s : Stack) : List Bracket := (s.inner :: s.outer).flatMap Frame.unclosed

theorem exists_move (h : s.read t = .ok (.more s')) :
    ∃ m, Frame.Effect t s.inner m ∧
      s'.unclosed = m.unclosed ++ s.outer.flatMap Frame.unclosed := by
  obtain ⟨f, he, rfl⟩ | ⟨f, inner, he, rfl⟩ | ⟨nodes, f, fs, he, ho, rfl⟩ := read_more_cases h
  · exact ⟨_, he, by simp [unclosed, Frame.Move.unclosed]⟩
  · exact ⟨_, he, by simp [unclosed, Frame.Move.unclosed]⟩
  · exact ⟨_, he, by simp [unclosed, Frame.Move.unclosed, ho, Frame.unclosed_receive]⟩

theorem nest_unclosed (h : s.read t = .ok (.more s')) (ht : s.inner.takes = false) :
    nest s.unclosed t = .ok s'.unclosed := by
  obtain ⟨m, he, hu⟩ := exists_move h
  rw [hu]
  exact nest_append (he.nest_unclosed ht) _

theorem unclosed_eq (h : s.read t = .ok (.more s')) (ht : s.inner.takes = true) :
    s'.unclosed = s.unclosed := by
  obtain ⟨m, he, hu⟩ := exists_move h
  rw [hu, he.unclosed_eq ht]
  rfl

def Rooted : Frame → List Frame → Prop
  | f, [] => ∃ u nodes, f = .scan u (.document nodes)
  | _, g :: outer => Rooted g outer

theorem Rooted.receive {f : Frame} {outer : List Frame} (h : Rooted f outer) (nodes : List Node) :
    Rooted (f.receive nodes) outer := by
  cases outer with
  | nil =>
    obtain ⟨u, ns, rfl⟩ := h
    exact ⟨u, nodes.reverse ++ ns, rfl⟩
  | cons g outer => exact h

theorem Rooted.read (h : Rooted s.inner s.outer) {r : Step} (hr : s.read t = .ok r) :
    ∃ s', r = .more s' ∧ Rooted s'.inner s'.outer := by
  obtain ⟨m, he, rfl⟩ := read_eq_ok_iff.1 hr
  obtain ⟨f, outer⟩ := s
  cases outer with
  | nil =>
    obtain ⟨u, nodes, rfl⟩ : ∃ u nodes, f = .scan u (.document nodes) := h
    cases he with
    | begins hc hi => exact ⟨_, rfl, u, nodes, rfl⟩
    | @stays _ v _ hn hc he => exact ⟨_, rfl, v, nodes, rfl⟩
    | ends hn hc he => cases he
  | cons g outer =>
    have hg : Rooted g outer := h
    cases m with
    | go f' => exact ⟨_, rfl, hg⟩
    | push f' inner => exact ⟨_, rfl, hg⟩
    | pop nodes => exact ⟨_, rfl, hg.receive nodes⟩

theorem Rooted.more (h : Rooted s.inner s.outer) (hr : s.read t = .ok (.more s')) :
    Rooted s'.inner s'.outer := by
  obtain ⟨s₁, h₁, hs₁⟩ := h.read hr
  cases h₁
  exact hs₁

theorem Rooted.reads (h : Reads s ts s') (hr : Rooted s.inner s.outer) :
    Rooted s'.inner s'.outer :=
  h.invariant (P := fun s ↦ Rooted s.inner s.outer) Rooted.more hr

theorem unclosed_of_cutShort {line : Int} {f : Frame} {outer : List Frame}
    (h : (cutShort line f outer).1 = []) : unclosed ⟨f, outer⟩ = [] := by
  have hframe : ∀ {f : Frame}, (f.cutShort line).1 = [] → f.unclosed = [] := by
    intro f hf
    cases f with
    | scan u job =>
      simp only [Frame.cutShort, Job.truncations] at hf
      split_ifs at hf with he
      simp only [Bool.and_eq_true, List.isEmpty_iff] at he
      exact he.2
    | name pending => cases hf
    | fieldType start c => cases hf
    | mapType u start detail => cases hf
  induction outer generalizing f with
  | nil => simpa [unclosed] using hframe h
  | cons g outer ih =>
    obtain ⟨hf, hg⟩ := List.append_eq_nil_iff.1 h
    have hrest := ih hg
    simp only [unclosed, List.flatMap_cons, Frame.unclosed_receive] at hrest ⊢
    rw [hframe hf, hrest]
    rfl

end Stack

namespace Reading

variable {s s' : Stack} {ts : List Token}

def readBy (kind : Frame → Bool) (s : Stack) : List Token → List Token
  | [] => []
  | t :: ts =>
    (if kind s.inner then [t] else []) ++
      match s.read t with
      | .ok (.more s') => readBy kind s' ts
      | _ => []

def root : Stack := ⟨.scan [] (.document []), []⟩

/-- The tokens of a schema that are taken for a name, or for the type after a cardinality. -/
def taken (ts : List Token) : List Token := readBy Frame.takes root ts

/-- The other tokens of a schema, which are scanned for brackets. -/
def scanned (ts : List Token) : List Token := readBy (!·.takes) root ts

theorem nestAll_readBy (h : Reads s ts s') :
    nestAll s.unclosed (readBy (!·.takes) s ts) = .ok s'.unclosed := by
  induction h with
  | nil => rfl
  | @cons s s₁ s' t ts hr h ih =>
    -- Each frame counts its own brackets only. Those of all frames together behave like one account.
    cases ht : s.inner.takes with
    | true =>
      simp only [readBy, ht, hr]
      rw [← unclosed_eq hr ht]
      exact ih
    | false =>
      simp only [readBy, ht, hr]
      exact (nestAll_cons (nest_unclosed hr ht) _).trans ih

theorem countP_readBy (p : Token → Bool) (h : Reads s ts s') :
    (readBy (!·.takes) s ts).countP p + (readBy Frame.takes s ts).countP p = ts.countP p := by
  induction h with
  | nil => rfl
  | @cons s s₁ s' t ts hr h ih =>
    cases ht : s.inner.takes <;> simp [readBy, ht, hr, List.countP_cons] <;> omega

theorem filter_readBy (p : Token → Bool) (h : Reads s ts s')
    (hp : ∀ t ∈ readBy Frame.takes s ts, p t = false) :
    (readBy (!·.takes) s ts).filter p = ts.filter p := by
  induction h with
  | nil => rfl
  | @cons s s₁ s' t ts hr h ih =>
    cases ht : s.inner.takes with
    | true =>
      simp only [readBy, ht, hr, if_true, List.singleton_append, List.forall_mem_cons] at hp
      simp [readBy, ht, hr, hp.1, ih hp.2]
    | false =>
      simp only [readBy, ht, hr] at hp
      simp [readBy, ht, hr, List.filter_cons, ih hp]

theorem exists_reads_of_nodes {nodes : List Node} (h : (outlineTokens ts).nodes = .ok nodes) :
    ∃ s', Reads root ts s' ∧ outlineTokens ts = run s' (lineAfter 1 ts) [] := by
  have hroot : Rooted root.inner root.outer := ⟨[], [], rfl⟩
  obtain ⟨s', ⟨hs, he⟩ | ⟨before, t, after, rfl, hs, ⟨m, hr, he⟩ | ⟨ns, hr, he⟩⟩⟩ :=
    exists_reads root 1 ts
  · exact ⟨s', hs, he⟩
  · replace h : (run root 1 _).nodes = .ok nodes := h
    rw [he] at h
    cases h
  · obtain ⟨s₁, h₁, -⟩ := (hroot.reads hs).read hr
    cases h₁

theorem reads_of_result {nodes : List Node} (h : (outlineTokens ts).result true = .ok nodes) :
    ∃ s', Reads root ts s' ∧ s'.unclosed = [] := by
  obtain ⟨hn, ht⟩ := result_eq_ok_iff.1 h
  obtain ⟨s', hs, he⟩ := exists_reads_of_nodes hn
  have hnone := ht rfl
  rw [he] at hnone
  exact ⟨s', hs, unclosed_of_cutShort hnone⟩

end Reading

/-- Which mismatched brackets a strict outline excludes. The brackets that are scanned match. So do
all brackets of the text when none is taken for a name or a type; but they never all match when an
odd number of them is taken. -/
theorem wellNested_scanned_of_outline (text : String) (nodes : List Node)
    (h : outline true text = .ok nodes) :
    WellNested (Reading.scanned (tokenize text)) ∧
    ((∀ t ∈ Reading.taken (tokenize text), isBracket t.value = false) →
      WellNested ((tokenize text).filter (isBracket ·.value))) ∧
    (WellNested ((tokenize text).filter (isBracket ·.value)) →
      Even ((Reading.taken (tokenize text)).countP (isBracket ·.value))) := by
  obtain ⟨s', hs, hu⟩ := Reading.reads_of_result h
  have hscanned : WellNested (Reading.scanned (tokenize text)) :=
    wellNested_iff.2 ((Reading.nestAll_readBy hs).trans (congrArg Except.ok hu))
  refine ⟨hscanned, fun ht ↦ ?_, fun hall ↦ ?_⟩
  · rw [← Reading.filter_readBy _ hs ht]
    exact wellNested_filter.2 hscanned
  · have hcount := Reading.countP_readBy (isBracket ·.value) hs
    have heven := (wellNested_filter.1 hall).even_countP
    rw [← hcount] at heven
    exact (Nat.even_add.1 heven).1 hscanned.even_countP

/-- A map with options, in which no bracket stands for a name. -/
theorem wellNested_scanned_of_outline_map :
    let text := "message A \x7b map<int32, B> m = 1 [(x) = \x7b\x7d]; \x7d"
    let m : Node := ⟨"m", "map<int32, B>", .object, ⟨0, 0⟩, ⟨0, 0⟩, []⟩
    outline true text = .ok [⟨"A", "message", .struct, ⟨0, 0⟩, ⟨0, 0⟩, [m]⟩] ∧
      WellNested ((tokenize text).filter (isBracket ·.value)) :=
  ⟨by rfl, (wellNested_scanned_of_outline _ _ (by rfl)).2.1 (by decide)⟩

/-- A closing bracket that is taken for a name goes unnoticed. -/
theorem outline_closer_for_name :
    outline true "message \x7d \x7b \x7d" =
      .ok [⟨"\x7d", "message", .struct, ⟨0, 0⟩, ⟨0, 0⟩, []⟩] ∧
    ¬ WellNested ((tokenize "message \x7d \x7b \x7d").filter (isBracket ·.value)) := by
  refine ⟨by rfl, fun h ↦ ?_⟩
  have hn : nestAll [] ((tokenize "message \x7d \x7b \x7d").filter (isBracket ·.value)) =
      .error ⟨1, none, "\x7d"⟩ := by rfl
  rw [wellNested_iff, hn] at h
  cases h

end SchemaOutline
