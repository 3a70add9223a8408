import SchemaOutline.Proofs.Text.OneLine
import Mathlib.Data.List.Basic

namespace SchemaOutline.Text

/-- Every blank behind another one takes a column of its own. -/
def BlanksCount (columns : List Char → Nat) : Prop :=
  ∀ part n, columns (part ++ List.replicate (n + 1) ' ') = columns (part ++ [' ']) + n

/-- A text with its tabs written as blanks, from a column on: each as the fewest, but one at least,
that lead to a column that eight divides. -/
inductive Expands (columns : List Char → Nat) : Nat → List Char → List Char → Prop
  | plain {column : Nat} {cs : List Char} (h : '\t' ∉ cs) : Expands columns column cs cs
  | tab {column blanks : Nat} {part cs out : List Char} (hpart : '\t' ∉ part) (hpos : 0 < blanks)
      (hstop : (column + columns (part ++ List.replicate blanks ' ')) % 8 = 0)
      (hleast : ∀ n, 0 < n → n < blanks →
        (column + columns (part ++ List.replicate n ' ')) % 8 ≠ 0)
      (hrest : Expands columns (column + columns (part ++ List.replicate blanks ' ')) cs out) :
      Expands columns column (part ++ '\t' :: cs) (part ++ List.replicate blanks ' ' ++ out)

section Expands

variable {columns : List Char → Nat} {column : Nat} {part cs out out' : List Char}
  {rest : List (List Char)}

theorem split_ne_nil (separator : Char) (cs : List Char) : split separator cs ≠ [] := by
  by_cases h : separator ∈ cs
  · obtain ⟨l, r, rfl, hl⟩ := List.eq_append_cons_of_mem h
    simp [split_append hl]
  · simp [split_of_notMem h]

theorem expandFrom_cons (h : rest ≠ []) :
    expandFrom columns column (part :: rest) =
      let reached := column + columns (part ++ [' '])
      let more := (8 - reached % 8) % 8
      part ++ List.replicate (more + 1) ' ' ++ expandFrom columns (reached + more) rest := by
  cases rest with
  | nil => exact absurd rfl h
  | cons r rest => simp [expandFrom, tabSize, List.replicate_succ]

theorem expands_expandFrom (h : BlanksCount columns) (column : Nat) (cs : List Char) :
    Expands columns column cs (expandFrom columns column (split '\t' cs)) := by
  -- On the length, since what follows a tab is not the tail of the text.
  induction hlength : cs.length using Nat.strongRecOn generalizing column cs with
  | ind length ih =>
    by_cases htab : '\t' ∈ cs
    · obtain ⟨part, cs, rfl, hpart⟩ := List.eq_append_cons_of_mem htab
      rw [split_append hpart, expandFrom_cons (split_ne_nil _ _)]
      dsimp only
      generalize hmore : (8 - (column + columns (part ++ [' '])) % 8) % 8 = more
      have hreached : column + columns (part ++ [' ']) + more =
          column + columns (part ++ List.replicate (more + 1) ' ') := by
        rw [h, Nat.add_assoc]
      rw [hreached]
      refine .tab hpart (Nat.succ_pos more) (by omega) ?_ (ih _ ?_ _ cs rfl)
      · rintro (_ | n) hpos hn
        · omega
        · rw [h]
          omega
      · simp at hlength
        omega
    · rw [split_of_notMem htab]
      exact .plain htab

theorem Expands.unique (h : Expands columns column cs out) (h' : Expands columns column cs out') :
    out = out' := by
  induction h generalizing out' with
  | plain hplain =>
    cases h' with
    | plain => rfl
    | tab => simp at hplain
  | @tab column blanks part cs out hpart hpos hstop hleast hrest ih =>
    generalize hcs : part ++ '\t' :: cs = ds at h'
    cases h' with
    | plain hplain => simp [← hcs] at hplain
    | @tab _ blanks' part' cs' out' hpart' hpos' hstop' hleast' hrest' =>
      have hsplit := congrArg (split '\t') hcs
      rw [split_append hpart, split_append hpart'] at hsplit
      obtain rfl : part = part' := (List.cons.inj hsplit).1
      obtain rfl : cs = cs' := (List.cons.inj (List.append_cancel_left hcs)).2
      obtain rfl : blanks = blanks' := by
        rcases Nat.lt_trichotomy blanks blanks' with hlt | heq | hlt
        · exact absurd hstop (hleast' blanks hpos hlt)
        · exact heq
        · exact absurd hstop' (hleast blanks' hpos' hlt)
      rw [ih hrest']

end Expands

theorem inRuns_of_lt {n first last : Nat} {runs : List (Nat × Nat)} (h : n < first) :
    inRuns n ((first, last) :: runs) = false := by
  simp [inRuns, Nat.not_le.2 h]

namespace Measure

theorem read_blank (m : Measure) : (m.read ' ').joined = false := by
  have hwidth : width ' ' = 1 := by decide
  cases hm : m.joined <;> simp [read, hm, joiner, pictureSelector, hwidth]

theorem read_ascii {m : Measure} {c : Char} (hm : m.joined = false) (hc : ' ' ≤ c ∧ c ≤ '~') :
    (m.read c).joined = false ∧ (m.read c).columns = m.columns + 1 := by
  have hcode : 0x20 ≤ c.toNat ∧ c.toNat ≤ 0x7e := hc
  have hflat : inRuns c.toNat flat = false := inRuns_of_lt (show c.toNat < 0x300 by omega)
  have hwide : inRuns c.toNat wide = false := inRuns_of_lt (show c.toNat < 0x1100 by omega)
  have hcontrol : isControl c = false := by
    simp [isControl]
    omega
  have hwidth : width c = 1 := by simp [width, hcontrol, hflat, hwide]
  have hjoiner : c ≠ joiner := by
    rintro rfl
    exact absurd hcode.2 (by decide)
  have hselector : c ≠ pictureSelector := by
    rintro rfl
    exact absurd hcode.2 (by decide)
  simp [read, hm, hjoiner, hselector, hwidth]

theorem foldl_read_ascii {cs : List Char} (h : ∀ c ∈ cs, ' ' ≤ c ∧ c ≤ '~') {m : Measure}
    (hm : m.joined = false) : (cs.foldl read m).columns = m.columns + cs.length := by
  induction cs generalizing m with
  | nil => rfl
  | cons c cs ih =>
    obtain ⟨hc, hcs⟩ := List.forall_mem_cons.1 h
    obtain ⟨hjoined, hcolumns⟩ := read_ascii hm hc
    rw [List.foldl_cons, ih hcs hjoined, hcolumns, List.length_cons]
    omega

end Measure

theorem columns_ascii {cs : List Char} (h : ∀ c ∈ cs, ' ' ≤ c ∧ c ≤ '~') :
    columns cs = cs.length := by
  rw [columns, Measure.foldl_read_ascii h rfl, Nat.zero_add]

theorem blanksCount_columns : BlanksCount columns := by
  intro part n
  have hblanks : ∀ c ∈ List.replicate n ' ', ' ' ≤ c ∧ c ≤ '~' := by
    intro c hc
    obtain ⟨-, rfl⟩ := List.mem_replicate.1 hc
    decide
  have hjoined : ((part ++ [' ']).foldl Measure.read {}).joined = false := by
    rw [List.foldl_append]
    exact Measure.read_blank _
  rw [List.replicate_succ, ← List.singleton_append, ← List.append_assoc, columns,
    List.foldl_append, Measure.foldl_read_ascii hblanks hjoined, List.length_replicate, columns]

end SchemaOutline.Text
