import SchemaOutline.Outline.Bracket
import Mathlib.Algebra.Group.Nat.Even
import Mathlib.Data.List.Basic
import Mathlib.Data.List.Induction

namespace SchemaOutline.Bracket

theorem mark_opener (b : Bracket) : mark b.opener = .opening b := by cases b <;> rfl

theorem mark_closer (b : Bracket) : mark b.closer = .closing b := by cases b <;> rfl

theorem eq_closer_of_mark {v : String} {b : Bracket} (h : mark v = .closing b) : v = b.closer := by
  unfold mark at h
  split_ifs at h with h₁ h₂ h₃ h₄ h₅ h₆ h₇ h₈
  · cases h; exact h₅
  · cases h; exact h₆
  · cases h; exact h₇
  · cases h; exact h₈

theorem isBracket_eq_false {v : String} : isBracket v = false ↔ mark v = .plain := by
  simp [isBracket]

variable {u v outer : List Bracket} {t : Token} {b : Bracket}

theorem nest_plain (h : mark t.value = .plain) (u : List Bracket) : nest u t = .ok u := by
  simp only [nest, h]

theorem nest_opening (h : mark t.value = .opening b) (u : List Bracket) :
    nest u t = .ok (b :: u) := by
  simp only [nest, h]

theorem nest_closing (h : mark t.value = .closing b) (u : List Bracket) :
    nest (b :: u) t = .ok u := by
  simp only [nest, h, if_true]

theorem nest_cases (h : nest u t = .ok v) :
    (mark t.value = .plain ∧ v = u) ∨ (∃ b, mark t.value = .opening b ∧ v = b :: u) ∨
      ∃ b, mark t.value = .closing b ∧ u = b :: v := by
  unfold nest at h
  split at h
  · next hm => exact .inl ⟨hm, (Except.ok.inj h).symm⟩
  · next b hm => exact .inr (.inl ⟨b, hm, (Except.ok.inj h).symm⟩)
  · next b hm =>
    split at h
    · cases h
    · next a rest =>
      split_ifs at h with hab
      exact .inr (.inr ⟨b, hm, by rw [hab, Except.ok.inj h]⟩)

theorem nest_error_cases {m : Mismatch} (h : nest u t = .error m) :
    ∃ b, mark t.value = .closing b ∧ u.head? ≠ some b ∧
      m = ⟨t.line, u.head?.map opener, t.value⟩ := by
  unfold nest at h
  split at h
  · cases h
  · cases h
  · next b hm =>
    have hv : t.value = b.closer := eq_closer_of_mark hm
    refine ⟨b, hm, ?_⟩
    split at h
    · exact ⟨nofun, by rw [← Except.error.inj h, hv]; rfl⟩
    · next a rest =>
      split_ifs at h with hab
      refine ⟨fun ha ↦ hab (Option.some.inj ha), ?_⟩
      rw [← Except.error.inj h, hv]
      rfl

theorem nest_append (h : nest u t = .ok v) (outer : List Bracket) :
    nest (u ++ outer) t = .ok (v ++ outer) := by
  obtain ⟨hm, rfl⟩ | ⟨b, hm, rfl⟩ | ⟨b, hm, rfl⟩ := nest_cases h
  · exact nest_plain hm _
  · exact nest_opening hm _
  · exact nest_closing hm _

def nestAll (unclosed : List Bracket) (ts : List Token) : Except Mismatch (List Bracket) :=
  ts.foldlM nest unclosed

theorem nestAll_cons (h : nest u t = .ok v) (ts : List Token) :
    nestAll u (t :: ts) = nestAll v ts := by
  simp only [nestAll, List.foldlM_cons, h]
  rfl

theorem nestAll_append {ts us : List Token} (h : nestAll u ts = .ok v) :
    nestAll u (ts ++ us) = nestAll v us := by
  simp only [nestAll] at h ⊢
  rw [List.foldlM_append, h]
  rfl

theorem nestAll_cons_eq_ok {ts : List Token} (h : nestAll u (t :: ts) = .ok v) :
    ∃ w, nest u t = .ok w ∧ nestAll w ts = .ok v := by
  cases hw : nest u t with
  | error m =>
    simp only [nestAll, List.foldlM_cons, hw] at h
    cases h
  | ok w => exact ⟨w, rfl, by rwa [nestAll_cons hw] at h⟩

theorem nestAll_append_eq_ok {ts us : List Token} (h : nestAll u (ts ++ us) = .ok v) :
    ∃ w, nestAll u ts = .ok w ∧ nestAll w us = .ok v := by
  cases hw : nestAll u ts with
  | error m =>
    simp only [nestAll] at h hw
    rw [List.foldlM_append, hw] at h
    cases h
  | ok w => exact ⟨w, rfl, by rwa [nestAll_append hw] at h⟩

theorem nestAll_concat {ts : List Token} (h : nestAll u ts = .ok v) (t : Token) :
    nestAll u (ts ++ [t]) = nest v t := by
  rw [nestAll_append h]
  simp [nestAll]

theorem nestAll_filter (u : List Bracket) (ts : List Token) :
    nestAll u (ts.filter (isBracket ·.value)) = nestAll u ts := by
  induction ts generalizing u with
  | nil => rfl
  | cons t ts ih =>
    by_cases ht : isBracket t.value
    · rw [List.filter_cons_of_pos (by simpa using ht)]
      cases hn : nest u t with
      | error m => simp only [nestAll, List.foldlM_cons, hn]; rfl
      | ok w => rw [nestAll_cons hn, nestAll_cons hn, ih]
    · rw [List.filter_cons_of_neg (by simpa using ht), ih,
        nestAll_cons (nest_plain (isBracket_eq_false.1 (by simpa using ht)) u)]

/-- Tokens whose brackets all match, in the order of the grammar that generates them. -/
inductive WellNested : List Token → Prop
  | nil : WellNested []
  | plain {t : Token} {ts : List Token} (ht : mark t.value = .plain) (h : WellNested ts) :
      WellNested (t :: ts)
  | group {b : Bracket} {o c : Token} {ts us : List Token} (ho : mark o.value = .opening b)
      (h : WellNested ts) (hc : mark c.value = .closing b) (h' : WellNested us) :
      WellNested (o :: ts ++ c :: us)

theorem WellNested.nestAll_eq {ts : List Token} (h : WellNested ts) (u : List Bracket) :
    nestAll u ts = .ok u := by
  induction h generalizing u with
  | nil => rfl
  | plain ht h ih => rw [nestAll_cons (nest_plain ht u), ih]
  | group ho h hc h' ih ih' =>
    rw [List.cons_append, nestAll_cons (nest_opening ho u), nestAll_append (ih _),
      nestAll_cons (nest_closing hc u), ih']

theorem split_of_nestAll_cons {ts : List Token} (h : nestAll (b :: u) ts = .ok []) :
    ∃ ws c us, ts = ws ++ c :: us ∧ WellNested ws ∧ mark c.value = .closing b ∧
      nestAll u us = .ok [] := by
  -- The part behind an inner group is no tail of the list, so the induction is on the length.
  induction hn : ts.length using Nat.strong_induction_on generalizing ts b u with
  | _ n ih =>
    cases ts with
    | nil => cases h
    | cons t ts =>
      obtain ⟨w, hw, hts⟩ := nestAll_cons_eq_ok h
      obtain ⟨hm, rfl⟩ | ⟨a, hm, rfl⟩ | ⟨a, hm, ha⟩ := nest_cases hw
      · obtain ⟨ws, c, us, rfl, hws, hc, hus⟩ := ih _ (by simp [← hn]) hts rfl
        exact ⟨t :: ws, c, us, rfl, .plain hm hws, hc, hus⟩
      · obtain ⟨ws, c, us, rfl, hws, hc, hus⟩ := ih _ (by simp [← hn]) hts rfl
        obtain ⟨ws', c', us', rfl, hws', hc', hus'⟩ := ih _ (by simp [← hn]; omega) hus rfl
        exact ⟨t :: ws ++ c :: ws', c', us', by simp, .group hm hws hc hws', hc', hus'⟩
      · obtain ⟨rfl, rfl⟩ := List.cons.inj ha
        exact ⟨[], t, ts, rfl, .nil, hm, hts⟩

/-- The grammar generates exactly what the running account of open brackets accepts. -/
theorem wellNested_iff {ts : List Token} : WellNested ts ↔ nestAll [] ts = .ok [] := by
  refine ⟨fun h ↦ h.nestAll_eq [], fun h ↦ ?_⟩
  induction hn : ts.length using Nat.strong_induction_on generalizing ts with
  | _ n ih =>
    cases ts with
    | nil => exact .nil
    | cons t ts =>
      obtain ⟨w, hw, hts⟩ := nestAll_cons_eq_ok h
      obtain ⟨hm, rfl⟩ | ⟨a, hm, rfl⟩ | ⟨a, hm, ha⟩ := nest_cases hw
      · exact .plain hm (ih _ (by simp [← hn]) hts rfl)
      · obtain ⟨ws, c, us, rfl, hws, hc, hus⟩ := split_of_nestAll_cons hts
        exact .group hm hws hc (ih _ (by simp [← hn]; omega) hus rfl)
      · cases ha

theorem WellNested.append {ts us : List Token} (h : WellNested ts) (h' : WellNested us) :
    WellNested (ts ++ us) := by
  rw [wellNested_iff, nestAll_append (h.nestAll_eq []), h'.nestAll_eq]

/-- Tokens that some others complete to a well-nested list. -/
def Extendable (ts : List Token) : Prop := ∃ us, WellNested (ts ++ us)

theorem nestAll_closers (u : List Bracket) :
    nestAll u (u.map fun b ↦ ⟨b.closer, 0⟩) = .ok [] := by
  induction u with
  | nil => rfl
  | cons b u ih => rw [List.map_cons, nestAll_cons (nest_closing (mark_closer b) u), ih]

theorem extendable_iff {ts : List Token} : Extendable ts ↔ ∃ u, nestAll [] ts = .ok u := by
  constructor
  · rintro ⟨us, h⟩
    obtain ⟨u, hu, -⟩ := nestAll_append_eq_ok (wellNested_iff.1 h)
    exact ⟨u, hu⟩
  · rintro ⟨u, hu⟩
    exact ⟨_, wellNested_iff.2 ((nestAll_append hu).trans (nestAll_closers u))⟩

theorem Extendable.of_append {ts us : List Token} (h : Extendable (ts ++ us)) : Extendable ts := by
  obtain ⟨ws, h⟩ := h
  exact ⟨us ++ ws, by rwa [← List.append_assoc]⟩

/-- The opening brackets of a list that nothing in it closes, outermost first: between them, and
around them, the list is well nested. -/
inductive Unmatched : List Token → List Bracket → Prop
  | nested {ts : List Token} (h : WellNested ts) : Unmatched ts []
  | opened {ts us : List Token} {bs : List Bracket} {b : Bracket} {o : Token}
      (h : Unmatched ts bs) (ho : mark o.value = .opening b) (h' : WellNested us) :
      Unmatched (ts ++ o :: us) (bs ++ [b])

namespace Unmatched

variable {ts us : List Token} {bs : List Bracket}

theorem append (h : Unmatched ts bs) (hus : WellNested us) : Unmatched (ts ++ us) bs := by
  cases h with
  | nested h => exact .nested (h.append hus)
  | opened h ho h' =>
    rw [List.append_assoc, List.cons_append]
    exact .opened h ho (h'.append hus)

theorem split_last (h : Unmatched ts (bs ++ [b])) :
    ∃ ws o us, ts = ws ++ o :: us ∧ Unmatched ws bs ∧ mark o.value = .opening b ∧
      WellNested us := by
  generalize hcs : bs ++ [b] = cs at h
  cases h with
  | nested h => simp at hcs
  | @opened ws us bs' b' o h ho h' =>
    obtain ⟨rfl, hb⟩ := List.append_inj' hcs rfl
    cases hb
    exact ⟨ws, o, us, rfl, h, ho, h'⟩

theorem concat (h : Unmatched ts u.reverse) (hn : nest u t = .ok v) :
    Unmatched (ts ++ [t]) v.reverse := by
  obtain ⟨hm, rfl⟩ | ⟨b, hm, rfl⟩ | ⟨b, hm, rfl⟩ := nest_cases hn
  · exact h.append (.plain hm .nil)
  · rw [List.reverse_cons]
    exact .opened h hm .nil
  · rw [List.reverse_cons] at h
    obtain ⟨ws, o, us, rfl, hws, ho, hus⟩ := h.split_last
    have hgroup : WellNested (o :: us ++ t :: []) := .group ho hus hm .nil
    rw [List.append_assoc]
    exact hws.append hgroup

end Unmatched

theorem unmatched_iff {ts : List Token} {bs : List Bracket} :
    Unmatched ts bs ↔ nestAll [] ts = .ok bs.reverse := by
  constructor
  · intro h
    induction h with
    | nested h => exact h.nestAll_eq []
    | @opened ts us bs b o h ho h' ih =>
      rw [nestAll_append ih, nestAll_cons (nest_opening ho _), h'.nestAll_eq,
        List.reverse_concat]
  · intro h
    -- The list grows at its end, as the account does.
    induction ts using List.reverseRecOn generalizing bs with
    | nil =>
      have hbs : bs = [] := by simpa using (Except.ok.inj h).symm
      exact hbs ▸ .nested .nil
    | append_singleton ts t ih =>
      obtain ⟨u, hu, ht⟩ := nestAll_append_eq_ok h
      obtain ⟨v, hv, hbs⟩ := nestAll_cons_eq_ok ht
      cases hbs
      have hts : Unmatched ts u.reverse := ih (by rwa [List.reverse_reverse])
      simpa using hts.concat hv

theorem unmatched_eq_iff {ts : List Token} (h : nestAll [] ts = .ok u) (bs : List Bracket) :
    Unmatched ts bs ↔ bs = u.reverse := by
  rw [unmatched_iff, h, Except.ok.injEq, eq_comm, List.reverse_eq_iff]

theorem wellNested_filter {ts : List Token} :
    WellNested (ts.filter (isBracket ·.value)) ↔ WellNested ts := by
  rw [wellNested_iff, wellNested_iff, nestAll_filter]

theorem WellNested.even_countP {ts : List Token} (h : WellNested ts) :
    Even (ts.countP (isBracket ·.value)) := by
  induction h with
  | nil => exact ⟨0, rfl⟩
  | plain ht h ih =>
    rwa [List.countP_cons_of_neg (by simp [isBracket_eq_false.2 ht])]
  | @group b o c ts us ho h hc h' ih ih' =>
    have hob : isBracket o.value := by simp [isBracket, ho]
    have hcb : isBracket c.value := by simp [isBracket, hc]
    simp only [List.countP_append, List.countP_cons, hob, hcb, if_true]
    obtain ⟨m, hm⟩ := ih
    obtain ⟨n, hn⟩ := ih'
    exact ⟨m + n + 1, by omega⟩

end SchemaOutline.Bracket
