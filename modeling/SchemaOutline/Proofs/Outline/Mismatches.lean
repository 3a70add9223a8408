import SchemaOutline.Proofs.Outline.Steps

namespace SchemaOutline

open SchemaOutline.Bracket Stack

/-- The token of `ts` at `k`, counted from 0, is where a reading of `ts` must fail with `m`. -/
structure Mismatch.FoundAt (ts : List Token) (m : Mismatch) (k : Nat) : Prop where
  token : ts[k]? = some ⟨m.closer, m.line⟩
  before : ∀ p, p <+: ts → p.length ≤ k → ∃ nodes, (outlineTokens p).result false = .ok nodes
  after : ∀ us strict, (outlineTokens (ts.take (k + 1) ++ us)).result strict = .error (.mismatch m)

theorem Mismatch.FoundAt.le {ts : List Token} {m : Mismatch} {k l : Nat} (hk : m.FoundAt ts k)
    (hl : m.FoundAt ts l) : l ≤ k := by
  by_contra hlt
  -- A failure at `k` would show in a part that ends before `l`.
  have hlen : (ts.take (k + 1)).length ≤ l := by
    rw [List.length_take]
    omega
  obtain ⟨nodes, hok⟩ := hl.before _ (List.take_prefix _ _) hlen
  have herror := hk.after [] false
  rw [List.append_nil, hok] at herror
  cases herror

theorem Bracket.closer_of_nest_error {u : List Bracket} {t : Token} {m : Mismatch}
    (h : nest u t = .error m) :
    t = ⟨m.closer, m.line⟩ ∧ ∃ b : Bracket, m.closer = b.closer ∧
      (m.opener = none ∨ ∃ a : Bracket, m.opener = some a.opener ∧ a.closer ≠ m.closer) := by
  obtain ⟨b, hm, hu, rfl⟩ := nest_error_cases h
  refine ⟨rfl, b, eq_closer_of_mark hm, ?_⟩
  cases u with
  | nil => exact .inl rfl
  | cons a u =>
    refine .inr ⟨a, rfl, fun hc ↦ hu ?_⟩
    -- A closer belongs to one bracket only.
    have hab : Mark.closing a = Mark.closing b := by rw [← mark_closer a, hc, hm]
    rw [List.head?_cons, Mark.closing.inj hab]

namespace Reading

variable {s s' : Stack} {before after : List Token} {t : Token} {m : Mismatch}

theorem exists_nodes_of_reads (h : s.Reads before s') (line : Int) :
    ∃ nodes, (run s line before).result false = .ok nodes := by
  rw [run_of_reads h]
  exact ⟨_, result_eq_ok_iff.2 ⟨rfl, nofun⟩⟩

theorem exists_reads_of_mismatch {ts : List Token} {line : Int} {strict : Bool}
    (h : (run s line ts).result strict = .error (.mismatch m)) :
    ∃ before t after s', ts = before ++ t :: after ∧ s.Reads before s' ∧
      s'.read t = .error m := by
  have hn := result_eq_mismatch_iff.1 h
  obtain ⟨s', ⟨-, he⟩ | ⟨before, t, after, rfl, hs, ⟨m', hr, he⟩ | ⟨nodes, -, he⟩⟩⟩ :=
    exists_reads s line ts
  · rw [he] at hn
    cases hn
  · rw [he] at hn
    cases hn
    exact ⟨before, t, after, s', rfl, hs, hr⟩
  · rw [he] at hn
    cases hn

theorem foundAt_of_read (hs : Reads ⟨.scan [] (.document []), []⟩ before s')
    (hr : s'.read t = .error m) : m.FoundAt (before ++ t :: after) before.length where
  token := by
    obtain ⟨ht, -⟩ := closer_of_nest_error (nest_of_read_error hr)
    rw [List.getElem?_append_right le_rfl, ← ht]
    simp
  before := by
    intro p hp hlen
    obtain ⟨rest, rfl⟩ := List.prefix_of_prefix_length_le hp (List.prefix_append _ _) hlen
    obtain ⟨s₁, hs₁⟩ := hs.of_append
    exact exists_nodes_of_reads hs₁ 1
  after := by
    intro us strict
    have htake : (before ++ t :: after).take (before.length + 1) ++ us = before ++ t :: us := by
      rw [List.take_length_add_append, List.take_succ_cons, List.take_zero, List.append_assoc]
      rfl
    rw [htake]
    refine result_eq_mismatch_iff.2 ?_
    have hrun : outlineTokens (before ++ t :: us) = run s' (lineAfter 1 before) (t :: us) :=
      run_append hs 1 _
    rw [hrun]
    simp only [run, hr]

end Reading

/-- A bracket that does not match is reported at the first token from which no reading of the
schema can recover, whatever follows it. -/
theorem outlineTokens_mismatch (ts : List Token) (strict : Bool) (m : Mismatch)
    (h : (outlineTokens ts).result strict = .error (.mismatch m)) :
    (∃! k, m.FoundAt ts k) ∧ ∃ b : Bracket, m.closer = b.closer ∧
      (m.opener = none ∨ ∃ a : Bracket, m.opener = some a.opener ∧ a.closer ≠ m.closer) := by
  obtain ⟨before, t, after, s', rfl, hs, hr⟩ := Reading.exists_reads_of_mismatch h
  have hfound : m.FoundAt (before ++ t :: after) before.length := Reading.foundAt_of_read hs hr
  obtain ⟨-, hm⟩ := closer_of_nest_error (nest_of_read_error hr)
  refine ⟨⟨before.length, hfound, fun k hk ↦ ?_⟩, hm⟩
  exact Nat.le_antisymm (hfound.le hk) (hk.le hfound)

/-- A map type closed by the wrong bracket, and behind it a brace that closes nothing. -/
theorem outlineTokens_mismatch_in_map :
    let ts := tokenize "message A \x7b\n map<int32, B) m = 1; \x7d \x7d"
    let m : Mismatch := ⟨2, some "<", ")"⟩
    (outlineTokens ts).result false = .error (.mismatch m) ∧ (∃! k, m.FoundAt ts k) ∧
      (outlineTokens (ts.take 9)).result true = .error (.mismatch m) ∧
      ∃ nodes, (outlineTokens (ts.take 8)).result false = .ok nodes := by
  intro ts m
  have h : (outlineTokens ts).result false = .error (.mismatch m) := by rfl
  exact ⟨h, (outlineTokens_mismatch ts false m h).1, by rfl, _, by rfl⟩

end SchemaOutline
