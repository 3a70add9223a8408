import SchemaOutline.Text.Columns
import Mathlib.Data.List.Basic

namespace SchemaOutline.Text

section Split

variable {separator c : Char} {cs l read part : List Char} {parts : List (List Char)}
  {columns : List Char → Nat}

theorem splitFrom_of_notMem (h : separator ∉ cs) (read : List Char) :
    splitFrom separator read cs = [read.reverse ++ cs] := by
  induction cs generalizing read with
  | nil => simp [splitFrom]
  | cons c cs ih =>
    obtain ⟨hc, hcs⟩ : separator ≠ c ∧ separator ∉ cs := by simpa using h
    rw [splitFrom, if_neg (Ne.symm hc), ih hcs]
    simp

theorem split_of_notMem (h : separator ∉ cs) : split separator cs = [cs] :=
  splitFrom_of_notMem h []

theorem splitFrom_append (h : separator ∉ l) (read cs : List Char) :
    splitFrom separator read (l ++ separator :: cs) = (read.reverse ++ l) :: split separator cs := by
  induction l generalizing read with
  | nil => simp [splitFrom, split]
  | cons c l ih =>
    obtain ⟨hc, hl⟩ : separator ≠ c ∧ separator ∉ l := by simpa using h
    rw [List.cons_append, splitFrom, if_neg (Ne.symm hc), ih hl]
    simp

theorem split_append (h : separator ∉ l) (cs : List Char) :
    split separator (l ++ separator :: cs) = l :: split separator cs :=
  splitFrom_append h [] cs

theorem mem_of_mem_splitFrom (h : part ∈ splitFrom separator read cs) (hc : c ∈ part) :
    c ∈ read ∨ c ∈ cs := by
  induction cs generalizing read with
  | nil =>
    obtain rfl : part = read.reverse := by simpa [splitFrom] using h
    exact .inl (List.mem_reverse.1 hc)
  | cons d cs ih =>
    rw [splitFrom] at h
    split_ifs at h with hd
    · rcases List.mem_cons.1 h with rfl | h
      · exact .inl (List.mem_reverse.1 hc)
      · rcases ih h with hread | hcs
        · cases hread
        · exact .inr (List.mem_cons_of_mem _ hcs)
    · rcases ih h with hread | hcs
      · rcases List.mem_cons.1 hread with rfl | hread
        · exact .inr (by simp)
        · exact .inl hread
      · exact .inr (List.mem_cons_of_mem _ hcs)

theorem mem_of_mem_split (h : part ∈ split separator cs) (hc : c ∈ part) : c ∈ cs := by
  rcases mem_of_mem_splitFrom h hc with hread | hcs
  · cases hread
  · exact hcs

theorem mem_expandFrom {column : Nat} (h : c ∈ expandFrom columns column parts) :
    c = ' ' ∨ ∃ part ∈ parts, c ∈ part := by
  fun_induction expandFrom columns column parts with
  | case1 => simp at h
  | case2 column part => exact .inr ⟨part, by simp, h⟩
  | case3 column part rest hrest reached more ih =>
    simp only [List.append_assoc, List.cons_append, List.mem_append, List.mem_cons,
      List.mem_replicate] at h
    rcases h with hpart | rfl | ⟨-, rfl⟩ | hmore
    · exact .inr ⟨part, by simp, hpart⟩
    · exact .inl rfl
    · exact .inl rfl
    · rcases ih hmore with rfl | ⟨p, hp, hc⟩
      · exact .inl rfl
      · exact .inr ⟨p, List.mem_cons_of_mem _ hp, hc⟩

end Split

def OneLine (s : String) : Prop := '\n' ∉ s.toList

instance (s : String) : Decidable (OneLine s) := inferInstanceAs (Decidable ('\n' ∉ s.toList))

variable {s t : String}

theorem OneLine.append (hs : OneLine s) (ht : OneLine t) : OneLine (s ++ t) := by
  simp only [OneLine, String.toList_append, List.mem_append, not_or]
  exact ⟨hs, ht⟩

theorem oneLine_expandTabs (columns : List Char → Nat) (h : OneLine s) :
    OneLine (expandTabs columns s.toList) := by
  intro hmem
  rw [expandTabs, String.toList_ofList] at hmem
  rcases mem_expandFrom hmem with hblank | ⟨part, hpart, hc⟩
  · cases hblank
  · exact h (mem_of_mem_split hpart hc)

theorem oneLine_repr (n : Nat) : OneLine n.repr := by
  intro h
  rw [Nat.toList_repr] at h
  have hdigit := Nat.isDigit_of_mem_toDigits (by decide) (by decide) h
  cases hdigit

theorem oneLine_toString (i : Int) : OneLine (toString i) := by
  cases i with
  | ofNat n => exact oneLine_repr n
  | negSucc n =>
    have hminus : OneLine "-" := by decide
    exact hminus.append (oneLine_repr _)

theorem split_join_rows {rows : List String} (h : ∀ r ∈ rows, OneLine r) :
    split '\n' (String.join (rows.map (· ++ "\n"))).toList = rows.map String.toList ++ [[]] := by
  induction rows with
  | nil => rfl
  | cons r rows ih =>
    obtain ⟨hr, hrows⟩ := List.forall_mem_cons.1 h
    have hchars : (String.join ((r :: rows).map (· ++ "\n"))).toList =
        r.toList ++ '\n' :: (String.join (rows.map (· ++ "\n"))).toList := by
      simp
    rw [hchars, split_append hr, ih hrows]
    rfl

end SchemaOutline.Text
