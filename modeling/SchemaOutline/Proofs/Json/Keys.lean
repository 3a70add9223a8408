import SchemaOutline.Json.Reader
import Mathlib.Data.List.Nodup

namespace SchemaOutline.Json

namespace Fields

def keys (fs : Fields) : List String := fs.map Prod.fst

@[simp] theorem keys_nil : keys [] = [] := rfl

@[simp] theorem keys_cons (key : String) (v : Json) (fs : Fields) :
    keys ((key, v) :: fs) = key :: keys fs := rfl

variable {key name : String} {v : Json} {fs base layer : Fields}

theorem get?_put (key : String) (v : Json) (fs : Fields) (name : String) :
    get? name (put key v fs) = if key = name then some v else get? name fs := by
  induction fs with
  | nil => simp [put, get?]
  | cons f fs ih =>
    obtain ⟨k, w⟩ := f
    by_cases hk : k = key
    · subst hk
      by_cases hn : k = name <;> simp [put, get?, hn]
    · by_cases hn : k = name
      · subst hn
        simp [put, get?, hk, Ne.symm hk]
      · simp [put, get?, hk, hn, ih]

theorem keys_put (key : String) (v : Json) (fs : Fields) :
    keys (put key v fs) = if key ∈ keys fs then keys fs else keys fs ++ [key] := by
  induction fs with
  | nil => simp [put]
  | cons f fs ih =>
    obtain ⟨k, w⟩ := f
    by_cases hk : k = key
    · simp [put, hk]
    · by_cases hmem : key ∈ keys fs <;> simp [put, hk, Ne.symm hk, ih, hmem]

theorem mem_put {f : String × Json} (h : f ∈ put key v fs) : f = (key, v) ∨ f ∈ fs := by
  induction fs with
  | nil => simpa [put] using h
  | cons g fs ih =>
    obtain ⟨k, w⟩ := g
    by_cases hk : k = key
    · subst hk
      simp only [put, if_true, List.mem_cons] at h ⊢
      tauto
    · simp only [put, hk, if_false, List.mem_cons] at h ⊢
      tauto

theorem get?_eq_none (h : name ∉ keys fs) : get? name fs = none := by
  induction fs with
  | nil => rfl
  | cons f fs ih =>
    obtain ⟨k, w⟩ := f
    obtain ⟨hk, hfs⟩ : name ≠ k ∧ name ∉ keys fs := by simpa using h
    simp [get?, Ne.symm hk, ih hfs]

theorem mem_of_get? (h : get? name fs = some v) : (name, v) ∈ fs := by
  induction fs with
  | nil => cases h
  | cons f fs ih =>
    obtain ⟨k, w⟩ := f
    by_cases hk : k = name
    · subst hk
      simp only [get?, if_true, Option.some.injEq] at h
      simp [h]
    · simp only [get?, hk, if_false] at h
      exact List.mem_cons_of_mem _ (ih h)

theorem mem_keys_iff : name ∈ keys fs ↔ ∃ v, get? name fs = some v := by
  constructor
  · intro h
    induction fs with
    | nil => simp at h
    | cons f fs ih =>
      obtain ⟨k, v⟩ := f
      by_cases hk : k = name
      · exact ⟨v, by simp [get?, hk]⟩
      · obtain ⟨w, hw⟩ := ih (by simpa [Ne.symm hk] using h)
        exact ⟨w, by simp [get?, hk, hw]⟩
  · rintro ⟨v, hv⟩
    exact List.mem_map_of_mem (mem_of_get? hv)

def combine (f : Option Json → Json → Json) (base layer : Fields) : Fields :=
  layer.foldl (fun fs g ↦ put g.1 (f (get? g.1 fs) g.2) fs) base

section Combine

variable {f : Option Json → Json → Json}

theorem get?_combine (h : (keys layer).Nodup) :
    get? name (combine f base layer) =
      ((get? name layer).map (f (get? name base))).or (get? name base) := by
  induction layer generalizing base with
  | nil => rfl
  | cons g layer ih =>
    obtain ⟨key, v⟩ := g
    obtain ⟨hkey, hlayer⟩ := List.nodup_cons.1 h
    have hstep : combine f base ((key, v) :: layer) =
        combine f (put key (f (get? key base) v) base) layer := rfl
    rw [hstep, ih hlayer, get?_put]
    by_cases hn : key = name
    · subst hn
      simp [get?, get?_eq_none hkey]
    · simp [get?, hn]

theorem filter_keys_combine {p : String → Bool} (h : (keys layer).Nodup)
    (hp : ∀ key ∈ keys base, key ∈ keys layer → p key = false) :
    (keys (combine f base layer)).filter p = (keys base).filter p ++ (keys layer).filter p := by
  induction layer generalizing base with
  | nil => simp [combine]
  | cons g layer ih =>
    obtain ⟨key, v⟩ := g
    obtain ⟨hkey, hlayer⟩ := List.nodup_cons.1 h
    have hstep : combine f base ((key, v) :: layer) =
        combine f (put key (f (get? key base) v) base) layer := rfl
    rw [hstep, ih hlayer]
    · by_cases hmem : key ∈ keys base
      · have hfalse : p key = false := hp key hmem (by simp)
        simp [keys_put, hmem, hfalse]
      · rw [keys_put, if_neg hmem, List.filter_append, List.append_assoc, ← List.filter_append]
        rfl
    · intro k hk hl
      rw [keys_put] at hk
      split_ifs at hk with hmem
      · exact hp k hk (by simp [hl])
      · obtain hk | rfl : k ∈ keys base ∨ k = key := by simpa using hk
        · exact hp k hk (by simp [hl])
        · exact absurd hl hkey

end Combine

end Fields

def isObject : Json → Bool
  | object _ => true
  | _ => false

theorem isObject_iff {v : Json} : v.isObject = true ↔ ∃ fields, v = object fields := by
  cases v <;> simp [isObject]

theorem get?_of_not_isObject {v : Json} {key : String} (h : v.isObject = false) :
    v.get? key = none := by
  cases v with
  | object fields => cases h
  | _ => rfl

/-- No object in a value has a key twice. -/
inductive WellKeyed : Json → Prop
  | null : WellKeyed null
  | bool (b : Bool) : WellKeyed (bool b)
  | int (n : Int) : WellKeyed (int n)
  | real (x : Binary64) : WellKeyed (real x)
  | text (s : String) : WellKeyed (text s)
  | list {xs : List Json} (h : ∀ v ∈ xs, WellKeyed v) : WellKeyed (list xs)
  | object {fields : Fields} (hk : fields.keys.Nodup) (hv : ∀ f ∈ fields, WellKeyed f.2) :
      WellKeyed (object fields)

namespace WellKeyed

attribute [simp] null bool int real text

variable {key : String} {v : Json} {xs : List Json} {fs base layer : Fields}

@[simp] theorem list_iff : WellKeyed (.list xs) ↔ ∀ v ∈ xs, WellKeyed v := by
  constructor
  · intro h
    cases h with
    | list h => exact h
  · exact list

theorem object_iff :
    WellKeyed (.object fs) ↔ fs.keys.Nodup ∧ ∀ f ∈ fs, WellKeyed f.2 := by
  constructor
  · intro h
    cases h with
    | object hk hv => exact ⟨hk, hv⟩
  · intro h
    exact object h.1 h.2

@[simp] theorem object_nil : WellKeyed (.object []) := object List.nodup_nil nofun

@[simp] theorem object_cons : WellKeyed (.object ((key, v) :: fs)) ↔
    key ∉ fs.keys ∧ WellKeyed v ∧ WellKeyed (.object fs) := by
  simp only [object_iff, Fields.keys_cons, List.nodup_cons, List.forall_mem_cons]
  tauto

theorem nodup (h : WellKeyed (.object fs)) : fs.keys.Nodup := (object_iff.1 h).1

theorem get? (h : WellKeyed (.object fs)) (hv : fs.get? key = some v) : WellKeyed v :=
  (object_iff.1 h).2 _ (Fields.mem_of_get? hv)

theorem put (h : WellKeyed (.object fs)) (hv : WellKeyed v) (key : String) :
    WellKeyed (.object (fs.put key v)) := by
  obtain ⟨hkeys, hall⟩ := object_iff.1 h
  refine object ?_ ?_
  · rw [Fields.keys_put]
    split_ifs with hmem
    · exact hkeys
    · refine List.Nodup.append hkeys (List.nodup_singleton key) ?_
      simpa using hmem
  · intro f hf
    obtain rfl | hf := Fields.mem_put hf
    · exact hv
    · exact hall f hf

theorem combine {f : Option Json → Json → Json}
    (hf : ∀ current v, (∀ u ∈ current, WellKeyed u) → WellKeyed v → WellKeyed (f current v))
    (hb : WellKeyed (.object base)) (hl : WellKeyed (.object layer)) :
    WellKeyed (.object (Fields.combine f base layer)) := by
  induction layer generalizing base with
  | nil => exact hb
  | cons g layer ih =>
    obtain ⟨-, hg, hlayer⟩ := object_cons.1 hl
    refine ih (hb.put (hf _ _ ?_ hg) g.1) hlayer
    intro u hu
    exact hb.get? hu

end WellKeyed

def Delivers (P : Json → Prop) (result : Except Stop (Json × List Char)) : Prop :=
  ∀ v rest, result = .ok (v, rest) → P v

section Delivers

variable {P : Json → Prop}

theorem delivers_error (s : Stop) : Delivers P (.error s) := nofun

theorem delivers_ok {v : Json} (h : P v) (rest : List Char) : Delivers P (.ok (v, rest)) := by
  rintro _ _ ⟨⟩
  exact h

theorem delivers_bind {α : Type} {x : Except Stop α} {f : α → Except Stop (Json × List Char)}
    (h : ∀ a, x = .ok a → Delivers P (f a)) : Delivers P (x >>= f) := by
  cases x with
  | error s => exact delivers_error s
  | ok a => exact h a rfl

end Delivers

section Readers

variable {most : Nat}

theorem delivers_number (cs : List Char) : Delivers WellKeyed (number most cs) := by
  have hunsigned : ∀ start negative ds, Delivers WellKeyed (unsigned most start negative ds) := by
    intro start negative ds
    unfold unsigned
    dsimp only
    split
    · exact delivers_error _
    split
    · exact delivers_ok (.real _) _
    split
    · exact delivers_ok (.real _) _
    split
    · exact delivers_error _
    · exact delivers_ok (.int _) _
  unfold number
  split <;> exact hunsigned _ _ _

theorem delivers_atom (cs : List Char) : Delivers WellKeyed (atom most cs) := by
  fun_cases atom most cs
  · exact delivers_ok .null _
  · exact delivers_ok (.bool true) _
  · exact delivers_ok (.bool false) _
  · exact delivers_ok (.real _) _
  · exact delivers_ok (.real _) _
  · exact delivers_ok (.real _) _
  · exact delivers_number cs

/-- The three readers call each other, one level deeper each time. -/
theorem delivers_wellKeyed (depth : Nat) :
    (∀ cs, Delivers WellKeyed (value most depth cs)) ∧
    (∀ fields cs, WellKeyed (.object fields) →
      Delivers WellKeyed (members most depth fields cs)) ∧
    (∀ read cs, (∀ v ∈ read, WellKeyed v) → Delivers WellKeyed (elements most depth read cs)) := by
  induction depth with
  | zero =>
    refine ⟨?_, ?_, ?_⟩
    · exact fun cs ↦ delivers_error _
    · exact fun fields cs _ ↦ delivers_error _
    · exact fun read cs _ ↦ delivers_error _
  | succ depth ih =>
    obtain ⟨hvalue, hmembers, helements⟩ := ih
    refine ⟨?_, ?_, ?_⟩
    · intro cs
      unfold value
      split
      · exact delivers_bind fun _ _ ↦ delivers_ok (.text _) _
      · split
        · exact delivers_ok .object_nil _
        · exact hmembers _ _ .object_nil
      · split
        · exact delivers_ok (.list nofun) _
        · exact helements _ _ nofun
      · exact delivers_atom _
    · intro fields cs hfields
      unfold members
      split
      · refine delivers_bind ?_
        rintro ⟨key, rest⟩ -
        dsimp only
        split
        · refine delivers_bind ?_
          rintro ⟨v, rest⟩ hv
          have hput := hfields.put (hvalue _ _ _ hv) key
          dsimp only
          split
          · exact delivers_ok hput _
          · exact hmembers _ _ hput
          · exact delivers_error _
        · exact delivers_error _
      · exact delivers_error _
    · intro read cs hread
      unfold elements
      refine delivers_bind ?_
      rintro ⟨v, rest⟩ hv
      have hall : ∀ u ∈ v :: read, WellKeyed u :=
        List.forall_mem_cons.2 ⟨hvalue _ _ _ hv, hread⟩
      dsimp only
      split
      · exact delivers_ok (.list fun u hu ↦ hall u (List.mem_reverse.1 hu)) _
      · exact helements _ _ hall
      · exact delivers_error _

theorem wellKeyed_of_readWhole {cs : List Char} {v : Json} (h : readWhole most cs = .ok v) :
    WellKeyed v := by
  unfold readWhole at h
  split at h
  · cases h
  · cases hvalue : value most (2 * cs.length + 1) (skipGap cs) with
    | error s =>
      rw [hvalue] at h
      cases h
    | ok result =>
      obtain ⟨w, rest⟩ := result
      have hw : WellKeyed w := (delivers_wellKeyed _).1 _ _ _ hvalue
      simp only [hvalue, bind, Except.bind] at h
      split at h
      · cases h
        exact hw
      · cases h

end Readers

theorem wellKeyed_of_parse {text : String} {v : Json} (h : parse text = .ok v) : WellKeyed v := by
  unfold parse parseWithin at h
  cases hread : readWhole 4300 text.toList with
  | error s =>
    rw [hread] at h
    cases h
  | ok w =>
    rw [hread] at h
    cases h
    exact wellKeyed_of_readWhole hread

end SchemaOutline.Json
