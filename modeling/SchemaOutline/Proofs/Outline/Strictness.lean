import SchemaOutline.Outline.Reading
import SchemaOutline.Proofs.Outline.Steps

namespace SchemaOutline

abbrev ModeM := ExceptT Fault (StateM (List Truncation))

namespace ModeM

/-- What is missing stops a strict reading at once. A lenient one takes note of it and goes on. -/
def miss (strict : Bool) (t : Truncation) : ModeM Unit :=
  if strict then throw (.truncated t) else modify (· ++ [t])

def missAll (strict : Bool) {α : Type} (a : α) : List Truncation → ModeM α
  | [] => pure a
  | t :: ts => do miss strict t; missAll strict a ts

variable {α β : Type} {strict : Bool}

theorem missAll_bind (a : α) (f : α → ModeM β) (ts : List Truncation) :
    (missAll strict a ts >>= f) = missAll strict () ts >>= fun _ ↦ f a := by
  induction ts with
  | nil => simp [missAll]
  | cons t ts ih => simp [missAll, ih]

theorem missAll_append (a : α) (ts us : List Truncation) :
    missAll strict a (ts ++ us) = missAll strict () ts >>= fun _ ↦ missAll strict a us := by
  induction ts with
  | nil => simp [missAll]
  | cons t ts ih => simp [missAll, ih]

theorem run_missAll_true (a : α) (ts log : List Truncation) :
    (missAll true a ts).run.run log =
      (match ts with | [] => .ok a | t :: _ => .error (.truncated t), log) := by
  cases ts <;> rfl

theorem run_missAll_false (a : α) (ts log : List Truncation) :
    (missAll false a ts).run.run log = (.ok a, log ++ ts) := by
  induction ts generalizing log with
  | nil => simp [missAll]; rfl
  | cons t ts ih =>
    have h := ih (log ++ [t])
    rw [List.append_assoc] at h
    exact h

end ModeM

open ModeM

variable {strict : Bool} {line : Int}

def Job.finish (strict : Bool) (line : Int) (unclosed : List Bracket) (job : Job) :
    ModeM (List Node) := do
  unless job.ends.isEmpty && unclosed.isEmpty do
    miss strict ⟨line, job.ends, Bracket.openers unclosed⟩
  return job.close line

def Unnamed.finish (strict : Bool) (line : Int) (u : Unnamed) : ModeM (List Node) := do
  miss strict (.unnamed line)
  (u.named "" line).finish strict line []

def Frame.finish (strict : Bool) (line : Int) : Frame → ModeM (List Node)
  | scan unclosed job => job.finish strict line unclosed
  | name pending => pending.finish strict line
  | fieldType start c => do
    miss strict (.unnamed line)
    (Unnamed.typed start c "").finish strict line
  | mapType unclosed start detail => do
    miss strict ⟨line, [">"], Bracket.openers unclosed⟩
    (Unnamed.mapped start detail).finish strict line

def Stack.finish (strict : Bool) (line : Int) (inner : Frame) : List Frame → ModeM (List Node)
  | [] => inner.finish strict line
  | f :: fs => do
    let nodes ← inner.finish strict line
    finish strict line (f.receive nodes) fs

def Stack.parse (strict : Bool) (s : Stack) (line : Int) : List Token → ModeM (List Node)
  | [] => finish strict line s.inner s.outer
  | t :: rest =>
    match s.read t with
    | .error m => throw (.mismatch m)
    | .ok (.done nodes) => pure nodes
    | .ok (.more s) => parse strict s t.line rest

def outlineIn (strict : Bool) (ts : List Token) : Except Fault (List Node) × List Truncation :=
  (Stack.parse strict ⟨.scan [] (.document []), []⟩ 1 ts).run.run []

theorem Job.finish_eq (u : List Bracket) (job : Job) :
    job.finish strict line u = missAll strict (job.close line) (job.truncations line u) := by
  unfold finish truncations
  split_ifs with h
  · simp [missAll]
  · simp [missAll]

theorem Unnamed.finish_eq (u : Unnamed) :
    u.finish strict line = missAll strict (u.cutShort line).2 (u.cutShort line).1 := by
  simp only [finish, Job.finish_eq, cutShort, missAll]

theorem Frame.finish_eq (f : Frame) :
    f.finish strict line = missAll strict (f.cutShort line).2 (f.cutShort line).1 := by
  cases f with
  | scan u job => exact Job.finish_eq u job
  | name pending => exact pending.finish_eq
  | fieldType start c => simp only [finish, Unnamed.finish_eq, cutShort, missAll]
  | mapType u start detail => simp only [finish, Unnamed.finish_eq, cutShort, missAll]

theorem Stack.finish_eq (inner : Frame) (outer : List Frame) :
    finish strict line inner outer =
      missAll strict (cutShort line inner outer).2 (cutShort line inner outer).1 := by
  induction outer generalizing inner with
  | nil => exact inner.finish_eq
  | cons f fs ih =>
    -- The nodes that a frame hands on do not depend on the mode, only what is noted before does.
    simp only [finish, Frame.finish_eq, missAll_bind, ih, cutShort, missAll_append]

namespace Reading

/-- What is missing is listed once for both modes: a strict reading stops at the first item of the
list, a lenient one notes all of it. -/
theorem run_parse (strict : Bool) (s : Stack) (line : Int) (ts : List Token) :
    (s.parse strict line ts).run.run [] =
      ((run s line ts).result strict, if strict then [] else (run s line ts).truncations) := by
  induction ts generalizing s line with
  | nil =>
    simp only [Stack.parse, Stack.finish_eq, run]
    cases strict with
    | true =>
      rw [run_missAll_true]
      cases h : (Stack.cutShort line s.inner s.outer).1 <;> simp [result]
    | false => rw [run_missAll_false]; rfl
  | cons t ts ih =>
    simp only [Stack.parse, run]
    cases hr : s.read t with
    | error m => cases strict <;> rfl
    | ok r =>
      cases r with
      | done nodes => cases strict <;> rfl
      | more s' => exact ih s' t.line

end Reading

theorem Job.line_of_mem_truncations {u : List Bracket} {job : Job} {t : Truncation}
    (h : t ∈ job.truncations line u) : t.line = line := by
  unfold truncations at h
  split_ifs at h with hj
  · cases h
  · rw [List.mem_singleton.1 h]

theorem Unnamed.line_of_mem_cutShort {u : Unnamed} {t : Truncation}
    (h : t ∈ (u.cutShort line).1) : t.line = line := by
  obtain rfl | h := List.mem_cons.1 h
  · rfl
  · exact Job.line_of_mem_truncations h

theorem Frame.line_of_mem_cutShort {f : Frame} {t : Truncation} (h : t ∈ (f.cutShort line).1) :
    t.line = line := by
  cases f with
  | scan u job => exact Job.line_of_mem_truncations h
  | name pending => exact Unnamed.line_of_mem_cutShort h
  | fieldType start c =>
    obtain rfl | h := List.mem_cons.1 h
    · rfl
    · exact Unnamed.line_of_mem_cutShort h
  | mapType u start detail =>
    obtain rfl | h := List.mem_cons.1 h
    · rfl
    · exact Unnamed.line_of_mem_cutShort h

theorem Stack.line_of_mem_cutShort {inner : Frame} {outer : List Frame} {t : Truncation}
    (h : t ∈ (cutShort line inner outer).1) : t.line = line := by
  induction outer generalizing inner with
  | nil => exact Frame.line_of_mem_cutShort h
  | cons f fs ih =>
    obtain h | h := List.mem_append.1 h
    · exact Frame.line_of_mem_cutShort h
    · exact ih h

namespace Reading

theorem truncations_eq_nil_or_run_eq (s : Stack) (line : Int) (ts : List Token) :
    (run s line ts).truncations = [] ∨ ∃ s', run s line ts = run s' (lineAfter line ts) [] := by
  obtain ⟨s', ⟨-, he⟩ | ⟨before, t, after, -, -, ⟨m, -, he⟩ | ⟨nodes, -, he⟩⟩⟩ :=
    exists_reads s line ts
  · exact .inr ⟨s', he⟩
  · exact .inl (by rw [he])
  · exact .inl (by rw [he])

theorem line_of_mem_truncations {s : Stack} {ts : List Token} {t : Truncation}
    (h : t ∈ (run s line ts).truncations) : t.line = lineAfter line ts := by
  obtain hnil | ⟨s', he⟩ := truncations_eq_nil_or_run_eq s line ts
  · rw [hnil] at h
    cases h
  · rw [he] at h
    exact Stack.line_of_mem_cutShort h

theorem truncations_of_mismatch {s : Stack} {ts : List Token} {m : Mismatch}
    (h : (run s line ts).nodes = .error m) : (run s line ts).truncations = [] := by
  obtain hnil | ⟨s', he⟩ := truncations_eq_nil_or_run_eq s line ts
  · exact hnil
  · rw [he] at h
    cases h

variable (r : Reading)

def Whole : Prop :=
  ∃ nodes, r.result true = .ok nodes ∧ r.result false = .ok nodes ∧ r.truncations = [] ∧
    r.records false = [successRecord nodes]

def Mismatched : Prop :=
  ∃ m, r.result true = .error (.mismatch m) ∧ r.result false = .error (.mismatch m) ∧
    r.records false = []

/-- Strict reading fails with what lenient reading notes first, and all that the latter notes is
missing on one line. -/
def CutShort : Prop :=
  ∃ t later nodes, r.result true = .error (.truncated t) ∧ r.result false = .ok nodes ∧
    r.truncations = t :: later ∧ (∀ u ∈ later, u.line = t.line) ∧
    r.records false =
      truncationRecord t :: later.map truncationRecord ++ [successRecord nodes]

variable {r}

theorem Whole.not_mismatched (h : r.Whole) : ¬ r.Mismatched := by
  obtain ⟨nodes, h, -⟩ := h
  rintro ⟨m, h', -⟩
  cases h.symm.trans h'

theorem Whole.not_cutShort (h : r.Whole) : ¬ r.CutShort := by
  obtain ⟨nodes, h, -⟩ := h
  rintro ⟨t, later, nodes', h', -⟩
  cases h.symm.trans h'

theorem Mismatched.not_cutShort (h : r.Mismatched) : ¬ r.CutShort := by
  obtain ⟨m, h, -⟩ := h
  rintro ⟨t, later, nodes, h', -⟩
  cases h.symm.trans h'

theorem whole_or_mismatched_or_cutShort (s : Stack) (line : Int) (ts : List Token) :
    (run s line ts).Whole ∨ (run s line ts).Mismatched ∨ (run s line ts).CutShort := by
  have hline : ∀ t ∈ (run s line ts).truncations, t.line = lineAfter line ts :=
    fun t ↦ line_of_mem_truncations
  have hnone : ∀ m, (run s line ts).nodes = .error m → (run s line ts).truncations = [] :=
    fun m ↦ truncations_of_mismatch
  generalize run s line ts = r at hline hnone
  obtain ⟨nodes, truncations, cursor⟩ := r
  cases nodes with
  | error m =>
    cases hnone m rfl
    exact .inr (.inl ⟨m, rfl, rfl, rfl⟩)
  | ok nodes =>
    cases truncations with
    | nil => exact .inl ⟨nodes, rfl, rfl, rfl, rfl⟩
    | cons t later =>
      refine .inr (.inr ⟨t, later, nodes, rfl, rfl, rfl, fun u hu ↦ ?_, rfl⟩)
      calc
        u.line = lineAfter line ts := hline u (List.mem_cons_of_mem t hu)
        _ = t.line := (hline t List.mem_cons_self).symm

theorem result_false_ne_truncated (r : Reading) (t : Truncation) :
    r.result false ≠ .error (.truncated t) := by
  obtain ⟨nodes, truncations, cursor⟩ := r
  cases nodes <;> simp [result]

end Reading

/-- Strict and lenient reading, each in its own mode, agree up to what is missing: a schema is read
whole by both, fails in both at the same bracket, or is cut short. Lenient reading never fails for a
missing part. -/
theorem outlineTokens_strict_lenient (ts : List Token) :
    let r := outlineTokens ts
    (∀ strict, outlineIn strict ts = (r.result strict, if strict then [] else r.truncations)) ∧
    (r.Whole ∧ ¬ r.Mismatched ∧ ¬ r.CutShort ∨ ¬ r.Whole ∧ r.Mismatched ∧ ¬ r.CutShort ∨
      ¬ r.Whole ∧ ¬ r.Mismatched ∧ r.CutShort) ∧
    ∀ t, r.result false ≠ .error (.truncated t) := by
  intro r
  refine ⟨fun strict ↦ Reading.run_parse strict _ 1 ts, ?_, r.result_false_ne_truncated⟩
  obtain h | h | h : r.Whole ∨ r.Mismatched ∨ r.CutShort :=
    Reading.whole_or_mismatched_or_cutShort _ 1 ts
  · exact .inl ⟨h, h.not_mismatched, h.not_cutShort⟩
  · exact .inr (.inl ⟨fun hw ↦ hw.not_mismatched h, h, h.not_cutShort⟩)
  · exact .inr (.inr ⟨fun hw ↦ hw.not_cutShort h, fun hm ↦ hm.not_cutShort h, h⟩)

end SchemaOutline
