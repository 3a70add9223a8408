import SchemaOutline.Proofs.Outline.Steps

namespace SchemaOutline

open SchemaOutline.Bracket Stack

structure Shortest (P : List Token → Prop) (ts p : List Token) : Prop where
  first : p <+: ts
  holds : P p
  least : ∀ q, q <+: ts → P q → p.length ≤ q.length

theorem shortest_concat {P : List Token → Prop} {before after : List Token} {t : Token}
    (h : P (before ++ [t])) (hb : ∀ q, q <+: before → ¬ P q) :
    Shortest P (before ++ t :: after) (before ++ [t]) := by
  refine ⟨⟨after, by simp⟩, h, fun q hq hP ↦ ?_⟩
  by_contra hlt
  have hle : q.length ≤ before.length := by
    simp only [List.length_append, List.length_singleton] at hlt
    omega
  have hq' : q <+: before := List.prefix_of_prefix_length_le hq (List.prefix_append _ _) hle
  exact hb q hq' hP

namespace Bracket

/-- Tokens behind which a scan for `ends` stops: they are well nested, and the last is one of
`ends`. -/
structure Stops (ends : List String) (ts : List Token) : Prop where
  nested : WellNested ts
  last : ∃ t, ts.getLast? = some t ∧ t.value ∈ ends

variable {ends : List String} {ts : List Token}

theorem stops_concat {t : Token} (h : nestAll [] (ts ++ [t]) = .ok []) (ht : t.value ∈ ends) :
    Stops ends (ts ++ [t]) :=
  ⟨wellNested_iff.2 h, t, List.getLast?_concat, ht⟩

theorem Stops.exists_concat (h : Stops ends ts) :
    ∃ p t, ts = p ++ [t] ∧ nestAll [] (p ++ [t]) = .ok [] ∧ t.value ∈ ends := by
  obtain ⟨hn, t, hl, ht⟩ := h
  obtain ⟨p, rfl⟩ := List.getLast?_eq_some_iff.1 hl
  exact ⟨p, t, rfl, wellNested_iff.1 hn, ht⟩

theorem Stops.extendable (h : Stops ends ts) : Extendable ts := ⟨[], by simpa using h.nested⟩

def CanStop (ends : List String) (ts : List Token) : Prop := ∃ p, p <+: ts ∧ Stops ends p

def Breaks (ts : List Token) : Prop := ∃ p, p <+: ts ∧ ¬ Extendable p

theorem not_breaks {u : List Bracket} (h : nestAll [] ts = .ok u) : ¬ Breaks ts := by
  rintro ⟨p, ⟨rest, rfl⟩, hp⟩
  exact hp (extendable_iff.2 ⟨u, h⟩).of_append

end Bracket

namespace Stack

def skipping (ends : List String) (u : List Bracket) : Stack := ⟨.scan u (.skip ends), []⟩

variable {ends : List String} {u : List Bracket} {t : Token} {ts : List Token} {s : Stack}

theorem more_of_skipping (h : (skipping ends u).read t = .ok (.more s)) :
    ∃ v, nest u t = .ok v ∧ (v = [] → t.value ∉ ends) ∧ s = skipping ends v := by
  obtain ⟨f, he, rfl⟩ | ⟨f, inner, he, rfl⟩ | ⟨nodes, f, fs, -, ho, -⟩ := read_more_cases h
  · cases he with
    | @stays _ v _ hn hc he => exact ⟨v, hn, he, rfl⟩
  · cases he with
    | begins hc hi => cases hc
  · cases ho

theorem done_of_skipping {nodes : List Node} (h : (skipping ends u).read t = .ok (.done nodes)) :
    nest u t = .ok [] ∧ t.value ∈ ends ∧ nodes = [] := by
  obtain ⟨m, he, hm⟩ := read_eq_ok_iff.1 h
  cases he with
  | begins hc hi => cases hc
  | stays hn hc he => cases hm
  | ends hn hc he =>
    cases hm
    exact ⟨hn, he, rfl⟩

theorem reads_skipping (h : Reads (skipping ends u) ts s) :
    ∃ v, s = skipping ends v ∧ nestAll u ts = .ok v ∧
      ∀ p t, p ++ [t] <+: ts → nestAll u (p ++ [t]) = .ok [] → t.value ∉ ends := by
  induction ts generalizing u with
  | nil =>
    cases h
    refine ⟨u, rfl, rfl, fun p t hp ↦ ?_⟩
    simp at hp
  | cons a ts ih =>
    cases h with
    | cons hread hrest =>
      obtain ⟨v, hv, hstop, rfl⟩ := more_of_skipping hread
      obtain ⟨w, hs, hw, hnone⟩ := ih hrest
      refine ⟨w, hs, (nestAll_cons hv ts).trans hw, fun p t hp hn ↦ ?_⟩
      cases p with
      | nil =>
        obtain ⟨rfl, -⟩ := List.cons_prefix_cons.1 hp
        rw [List.nil_append, nestAll_cons hv] at hn
        exact hstop (Except.ok.inj hn)
      | cons b p =>
        obtain ⟨rfl, hp'⟩ := List.cons_prefix_cons.1 hp
        rw [List.cons_append, nestAll_cons hv] at hn
        exact hnone p t hp' hn

theorem not_stops_of_reads (h : Reads (skipping ends []) ts s) :
    ∀ q, q <+: ts → ¬ Stops ends q := by
  intro q hq hstops
  obtain ⟨v, -, -, hnone⟩ := reads_skipping h
  obtain ⟨p, t, rfl, hn, ht⟩ := hstops.exists_concat
  exact hnone p t hq hn ht

end Stack

theorem lineAfter_eq_exhaust (c : Cursor) : lineAfter c.line c.rest = c.exhaust.line := by
  obtain ⟨ts, line⟩ := c
  obtain rfl | ⟨ts, t, rfl⟩ := ts.eq_nil_or_concat'
  · rfl
  · simp [lineAfter, Cursor.exhaust]

/-- What the grammar of brackets says of a reading from `c` that discards all tokens up to one of
`ends`. Each part applies where those before it do not. -/
structure Reading.FollowsGrammar (ends : List String) (c : Cursor) (r : Reading) : Prop where
  stop : CanStop ends c.rest →
    ∃ p, Shortest (Stops ends) c.rest p ∧ r.result true = .ok [] ∧ c.rest = p ++ r.cursor.rest
  mismatch : ¬ CanStop ends c.rest → Breaks c.rest →
    ∃ before t opened, Shortest (¬ Extendable ·) c.rest (before ++ [t]) ∧
      (∀ bs, Unmatched before bs ↔ bs = opened) ∧
      r.result true = .error (.mismatch ⟨t.line, opened.getLast?.map opener, t.value⟩) ∧
      c.rest = before ++ [t] ++ r.cursor.rest
  whole : ¬ CanStop ends c.rest → ¬ Breaks c.rest → ends = [] ∧ WellNested c.rest →
    r.result true = .ok [] ∧ r.cursor.rest = []
  cutShort : ¬ CanStop ends c.rest → ¬ Breaks c.rest → ¬ (ends = [] ∧ WellNested c.rest) →
    ∃ opened, (∀ bs, Unmatched c.rest bs ↔ bs = opened) ∧
      r.result true = .error (.truncated ⟨c.exhaust.line, ends, opened.map opener⟩)

namespace Reading

variable {ends : List String} {u : List Bracket} {before after : List Token} {t : Token} {line : Int}

theorem followsGrammar_of_done (hs : Reads (skipping ends []) before (skipping ends u))
    (hu : nestAll [] before = .ok u) (hn : nest u t = .ok []) (ht : t.value ∈ ends) :
    FollowsGrammar ends ⟨before ++ t :: after, line⟩ ⟨.ok [], [], ⟨after, t.line⟩⟩ := by
  have hstop : Stops ends (before ++ [t]) := stops_concat ((nestAll_concat hu t).trans hn) ht
  have hshort : Shortest (Stops ends) (before ++ t :: after) (before ++ [t]) :=
    shortest_concat hstop (not_stops_of_reads hs)
  have hcan : CanStop ends (before ++ t :: after) := ⟨_, hshort.first, hstop⟩
  exact ⟨fun _ ↦ ⟨_, hshort, rfl, by simp⟩, fun h ↦ absurd hcan h, fun h ↦ absurd hcan h,
    fun h ↦ absurd hcan h⟩

theorem followsGrammar_of_error {m : Mismatch}
    (hs : Reads (skipping ends []) before (skipping ends u)) (hu : nestAll [] before = .ok u)
    (hn : nest u t = .error m) :
    FollowsGrammar ends ⟨before ++ t :: after, line⟩ ⟨.error m, [], ⟨after, t.line⟩⟩ := by
  have hdead : ¬ Extendable (before ++ [t]) := by
    rw [extendable_iff, nestAll_concat hu, hn]
    simp
  have hlive : ∀ q, q <+: before → ¬ ¬ Extendable q := by
    rintro q ⟨rest, rfl⟩ hq
    exact hq (extendable_iff.2 ⟨u, hu⟩).of_append
  have hshort : Shortest (¬ Extendable ·) (before ++ t :: after) (before ++ [t]) :=
    shortest_concat hdead hlive
  have hbreaks : Breaks (before ++ t :: after) := ⟨_, hshort.first, hdead⟩
  -- A place to stop would be behind the fault, where nothing can be well nested any more.
  have hcannot : ¬ CanStop ends (before ++ t :: after) := by
    rintro ⟨q, hq, hstops⟩
    by_cases hle : q.length ≤ before.length
    · have hq' := List.prefix_of_prefix_length_le hq (List.prefix_append before (t :: after)) hle
      exact not_stops_of_reads hs q hq' hstops
    · have hle' : (before ++ [t]).length ≤ q.length := by
        rw [List.length_append, List.length_singleton]
        omega
      obtain ⟨rest, rfl⟩ := List.prefix_of_prefix_length_le hshort.first hq hle'
      exact hdead hstops.extendable.of_append
  obtain ⟨b, -, -, rfl⟩ := nest_error_cases hn
  refine ⟨fun h ↦ absurd h hcannot, fun _ _ ↦ ?_, fun _ h ↦ absurd hbreaks h,
    fun _ h ↦ absurd hbreaks h⟩
  refine ⟨before, t, u.reverse, hshort, unmatched_eq_iff hu, ?_, by simp⟩
  rw [List.getLast?_reverse]
  rfl

theorem followsGrammar_of_end {c : Cursor} (hs : Reads (skipping ends []) c.rest (skipping ends u))
    (hu : nestAll [] c.rest = .ok u) :
    FollowsGrammar ends c (run (skipping ends u) (lineAfter c.line c.rest) []) := by
  have hcannot : ¬ CanStop ends c.rest := by
    rintro ⟨q, hq, hstops⟩
    exact not_stops_of_reads hs q hq hstops
  have hnested : WellNested c.rest ↔ u = [] := by rw [wellNested_iff, hu, Except.ok.injEq]
  refine ⟨fun h ↦ absurd h hcannot, fun _ h ↦ absurd h (not_breaks hu), ?_, ?_⟩
  · rintro - - ⟨rfl, hw⟩
    obtain rfl := hnested.1 hw
    exact ⟨rfl, rfl⟩
  · intro _ _ hmore
    refine ⟨u.reverse, unmatched_eq_iff hu, ?_⟩
    have hmissing : ¬ (ends.isEmpty && u.isEmpty) = true := by
      rw [hnested] at hmore
      simpa using hmore
    rw [lineAfter_eq_exhaust]
    simp only [run, skipping, cutShort, Frame.cutShort, Job.truncations, Job.ends, hmissing,
      Bool.false_eq_true, if_false, result, openers, List.map_reverse]

end Reading

/-- A scan that discards all tokens up to a terminator implements the grammar of brackets. -/
theorem skip_followsGrammar (c : Cursor) (ends : List String) :
    Reading.FollowsGrammar ends c (c.skip ends) := by
  obtain ⟨s', ⟨hs, he⟩ | ⟨before, t, after, hts, hs, ⟨m, hr, he⟩ | ⟨nodes, hr, he⟩⟩⟩ :=
    Reading.exists_reads (skipping ends []) c.line c.rest
  · obtain ⟨u, rfl, hu, -⟩ := reads_skipping hs
    have hskip : c.skip ends = Reading.run (skipping ends u) (lineAfter c.line c.rest) [] := he
    rw [hskip]
    exact Reading.followsGrammar_of_end hs hu
  · obtain ⟨u, rfl, hu, -⟩ := reads_skipping hs
    have hskip : c.skip ends = ⟨.error m, [], ⟨after, t.line⟩⟩ := he
    obtain ⟨ts, line⟩ := c
    obtain rfl : ts = _ := hts
    rw [hskip]
    exact Reading.followsGrammar_of_error hs hu (nest_of_read_error hr)
  · obtain ⟨u, rfl, hu, -⟩ := reads_skipping hs
    obtain ⟨hn, ht, rfl⟩ := done_of_skipping hr
    have hskip : c.skip ends = ⟨.ok [], [], ⟨after, t.line⟩⟩ := he
    obtain ⟨ts, line⟩ := c
    obtain rfl : ts = _ := hts
    rw [hskip]
    exact Reading.followsGrammar_of_done hs hu hn ht

-- A closing bracket can be the terminator. One that closes nothing is a fault even where it is
-- awaited.
example : (Cursor.skip ⟨tokenize "<int32, A<B>> x;", 1⟩ [">"]).cursor.values = ["x", ";"] ∧
    (Cursor.skip ⟨tokenize "[;] = (;); x", 1⟩ [";"]).cursor.values = ["x"] ∧
    (Cursor.skip ⟨tokenize "a > x", 1⟩ [">"]).result true =
      .error (.mismatch ⟨1, none, ">"⟩) :=
  ⟨by rfl, by rfl, by rfl⟩

end SchemaOutline
