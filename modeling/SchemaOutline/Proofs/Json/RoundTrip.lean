import SchemaOutline.Proofs.Json.Keys
import Mathlib.Data.List.TakeDrop

namespace SchemaOutline.Json

section Strings

variable {whole read tail rest : List Char} {x : Char} {n m : Nat}

theorem hexValue?_hexDigit (h : n < 16) : Text.hexValue? (Quoted.hexDigit n) = some n := by
  have hall : ∀ d : Fin 16, Text.hexValue? (Quoted.hexDigit d) = some d.val := by decide
  exact hall ⟨n, h⟩

theorem toList_escapeUnit (n : Nat) :
    (escapeUnit n).toList = ['\\', 'u', Quoted.hexDigit (n / 0x1000 % 16),
      Quoted.hexDigit (n / 0x100 % 16), Quoted.hexDigit (n / 0x10 % 16),
      Quoted.hexDigit (n % 16)] := by
  simp [escapeUnit, Quoted.hex, List.range_succ]

theorem hexValue4?_hexDigit (h : n < 0x10000) :
    hexValue4? (Quoted.hexDigit (n / 0x1000 % 16)) (Quoted.hexDigit (n / 0x100 % 16))
      (Quoted.hexDigit (n / 0x10 % 16)) (Quoted.hexDigit (n % 16)) = some n := by
  simp only [hexValue4?, hexValue?_hexDigit (Nat.mod_lt _ (by decide : 0 < 16)), Option.bind_eq_bind,
    Option.bind_some, Option.pure_def, Option.some_inj]
  omega

/-- A unit that starts no pair is read by itself, whatever follows. -/
theorem chars_escapeUnit (hn : n < 0x10000) (hh : isHigh n = false) :
    chars whole read ((escapeUnit n).toList ++ x :: tail) =
      chars whole (unitChar n :: read) (x :: tail) := by
  rw [toList_escapeUnit]
  simp only [List.cons_append, List.nil_append]
  by_cases hpair : ∃ a b c d e rest, x = '\\' ∧ tail = 'u' :: a :: b :: c :: d :: e :: rest
  · obtain ⟨a, b, c, d, e, rest, rfl, rfl⟩ := hpair
    rw [chars.eq_5 _ _ _ _ _ _ n _ _ _ _ _ _ (hexValue4?_hexDigit hn)]
    simp [hh]
  · rw [chars.eq_6 _ _ _ _ _ _ n _ _ ?_ (hexValue4?_hexDigit hn)]
    intro a b c d e rest hx htail
    exact hpair ⟨a, b, c, d, e, rest, hx, htail⟩

theorem chars_escapePair (hn : isHigh n = true) (hm : isLow m = true) :
    chars whole read ((escapeUnit n).toList ++ ((escapeUnit m).toList ++ x :: tail)) =
      chars whole (pairChar n m :: read) (x :: tail) := by
  simp only [isHigh, isLow, Bool.and_eq_true, decide_eq_true_eq] at hn hm
  rw [toList_escapeUnit, toList_escapeUnit]
  simp only [List.cons_append, List.nil_append]
  rw [chars.eq_5 _ _ _ _ _ _ n _ _ _ _ _ _ (hexValue4?_hexDigit (by omega)),
    hexValue4?_hexDigit (by omega)]
  simp [isHigh, isLow, hn, hm]

theorem chars_plain {c : Char} (hquote : c ≠ '"') (hslash : c ≠ '\\') (hc : 0x20 ≤ c.toNat) :
    chars whole read (c :: tail) = chars whole (c :: read) tail := by
  rw [chars.eq_10 _ _ _ _ hquote (fun _ _ _ _ _ h _ ↦ hslash h) (fun _ h _ ↦ hslash h)
    (fun _ _ h _ ↦ hslash h) (fun h _ ↦ hslash h), if_neg (Nat.not_lt.2 hc)]

theorem chars_escapeChar (c : Char) :
    chars whole read ((escapeChar c).toList ++ x :: tail) =
      chars whole (c :: read) (x :: tail) := by
  -- No character has the number of a unit of a pair.
  have hvalid : c.toNat < 0xd800 ∨ (0xdfff < c.toNat ∧ c.toNat < 0x110000) := c.valid
  unfold escapeChar
  split_ifs with hquote hslash hline hreturn htab hback hfeed hprint hunit
  · subst hquote; rfl
  · subst hslash; rfl
  · subst hline; rfl
  · subst hreturn; rfl
  · subst htab; rfl
  · subst hback; rfl
  · subst hfeed; rfl
  · simp only [Bool.and_eq_true, decide_eq_true_eq] at hprint
    simpa using chars_plain hquote hslash hprint.1
  · have hhigh : isHigh c.toNat = false := by simp [isHigh]; omega
    have hlow : isLow c.toNat = false := by simp [isLow]; omega
    rw [chars_escapeUnit hunit hhigh, unitChar, hhigh, hlow]
    simp
  · have hhigh : isHigh (0xd800 + (c.toNat - 0x10000) / 0x400) = true := by simp [isHigh]; omega
    have hlow : isLow (0xdc00 + (c.toNat - 0x10000) % 0x400) = true := by simp [isLow]; omega
    have hpair : pairChar (0xd800 + (c.toNat - 0x10000) / 0x400)
        (0xdc00 + (c.toNat - 0x10000) % 0x400) = c := by
      have hcode : 0x10000 + (0xd800 + (c.toNat - 0x10000) / 0x400 - 0xd800) * 0x400 +
          (0xdc00 + (c.toNat - 0x10000) % 0x400 - 0xdc00) = c.toNat := by omega
      rw [pairChar, hcode, Char.ofNat_toNat]
    rw [String.toList_append, List.append_assoc, chars_escapePair hhigh hlow, hpair]

theorem chars_quoted (s : List Char) :
    chars whole read ((String.join (s.map escapeChar)).toList ++ '"' :: rest) =
      .ok (String.ofList (read.reverse ++ s), rest) := by
  induction s generalizing read with
  | nil => simp [chars]
  | cons c s ih =>
    -- What follows an escape is never empty: there is the closing quote at least.
    obtain ⟨x, tail, htail⟩ :=
      List.exists_cons_of_ne_nil (l := (String.join (s.map escapeChar)).toList ++ '"' :: rest)
        (by simp)
    rw [List.map_cons, String.join_cons, String.toList_append, List.append_assoc, htail,
      chars_escapeChar, ← htail, ih]
    simp

end Strings

section Numbers

/-- Texts that no number goes on with: the end, or what stands between the parts of a value. -/
def Stops (rest : List Char) : Prop := ∀ c ∈ rest.head?, c = ',' ∨ c = '\n'

theorem stops_nil : Stops [] := nofun

theorem stops_comma (cs : List Char) : Stops (',' :: cs) := by simp [Stops]

theorem stops_line (cs : List Char) : Stops ('\n' :: cs) := by simp [Stops]

variable {rest : List Char} {n most : Nat}

theorem isDigit_of_mem_toDigits {c : Char} (h : c ∈ Nat.toDigits 10 n) : Text.isDigit c = true := by
  have hdigit := Nat.isDigit_of_mem_toDigits (by decide) (by decide) h
  simpa [Char.isDigit, Text.isDigit, Char.le_def] using hdigit

theorem decimalValue_toDigits (n : Nat) : Text.decimalValue (Nat.toDigits 10 n) = n := by
  have hvalue := Nat.ofDigitChars_ten_toDigits (n := n)
  rw [Nat.ofDigitChars_eq_foldl] at hvalue
  simpa [Text.decimalValue, Text.digitValue, Nat.mul_comm] using hvalue

theorem head_toDigits {c : Char} {cs : List Char} (h : Nat.toDigits 10 n = c :: cs) (hn : 0 < n) :
    c ≠ '0' := by
  induction n using Nat.strongRecOn generalizing c cs with
  | ind n ih =>
    rw [Nat.toDigits_eq_if (by decide)] at h
    split_ifs at h with hlt
    · have hall : ∀ d : Fin 10, 0 < d.val → Nat.digitChar d ≠ '0' := by decide
      obtain ⟨rfl, -⟩ := List.cons.inj h
      exact hall ⟨n, hlt⟩ hn
    · obtain ⟨d, ds, hds⟩ := List.exists_cons_of_ne_nil (Nat.toDigits_ne_nil (n := n / 10) (b := 10))
      rw [hds, List.cons_append] at h
      obtain ⟨rfl, -⟩ := List.cons.inj h
      exact ih (n / 10) (by omega) hds (by omega)

theorem span_toDigits (hr : Stops rest) :
    (Nat.toDigits 10 n ++ rest).span Text.isDigit = (Nat.toDigits 10 n, rest) := by
  have hdigits : ∀ c ∈ Nat.toDigits 10 n, Text.isDigit c = true := fun c ↦ isDigit_of_mem_toDigits
  have hstop : rest.takeWhile Text.isDigit = [] ∧ rest.dropWhile Text.isDigit = rest := by
    cases rest with
    | nil => simp
    | cons c cs =>
      obtain rfl | rfl : c = ',' ∨ c = '\n' := hr c rfl
      · simp [Text.isDigit]
      · simp [Text.isDigit]
  rw [List.span_eq_takeWhile_dropWhile, List.takeWhile_append_of_pos hdigits,
    List.dropWhile_append_of_pos hdigits, hstop.1, hstop.2, List.append_nil]

theorem wholePart_toDigits (hr : Stops rest) :
    wholePart (Nat.toDigits 10 n ++ rest) = (Nat.toDigits 10 n, rest) := by
  rcases Nat.eq_zero_or_pos n with rfl | hn
  · rw [Nat.toDigits_zero]
    rfl
  · obtain ⟨c, cs, hcs⟩ := List.exists_cons_of_ne_nil (Nat.toDigits_ne_nil (n := n) (b := 10))
    have hc : c ≠ '0' := head_toDigits hcs hn
    rw [← span_toDigits hr, hcs, List.cons_append, wholePart.eq_2]
    rintro rest h
    exact hc (List.cons.inj h).1

theorem unsigned_toDigits {start : List Char} {negative : Bool} (hr : Stops rest)
    (hn : (Nat.toDigits 10 n).length ≤ most) :
    unsigned most start negative (Nat.toDigits 10 n ++ rest) =
      .ok (.int (if negative then -n else n), rest) := by
  have hfraction : fraction rest = ([], rest) := by
    cases rest with
    | nil => rfl
    | cons c cs => obtain rfl | rfl : c = ',' ∨ c = '\n' := hr c rfl <;> rfl
  have hpower : power? rest = none := by
    cases rest with
    | nil => rfl
    | cons c cs => obtain rfl | rfl : c = ',' ∨ c = '\n' := hr c rfl <;> simp [power?]
  simp [unsigned, wholePart_toDigits hr, hfraction, hpower, Nat.not_lt.2 hn, decimalValue_toDigits]

theorem atom_of_isDigit {c : Char} {cs : List Char} (hc : Text.isDigit c = true) :
    atom most (c :: cs) = unsigned most (c :: cs) false (c :: cs) ∧
    atom most ('-' :: c :: cs) = unsigned most ('-' :: c :: cs) true (c :: cs) := by
  have hword : c ≠ 'n' ∧ c ≠ 't' ∧ c ≠ 'f' ∧ c ≠ 'N' ∧ c ≠ 'I' ∧ c ≠ '-' := by
    refine ⟨?_, ?_, ?_, ?_, ?_, ?_⟩ <;> rintro rfl <;> cases hc
  simp [atom, number, hword]

theorem toList_toString (i : Int) :
    (toString i).toList = if 0 ≤ i then Nat.toDigits 10 i.natAbs
      else '-' :: Nat.toDigits 10 i.natAbs := by
  cases i with
  | ofNat n => simp [Int.toString_eq_repr, Int.repr_eq_if]
  | negSucc n => simp [Int.toString_eq_repr, Int.repr_eq_if, Int.negSucc_not_nonneg]

theorem head_toString (i : Int) :
    ∃ c cs, (toString i).toList = c :: cs ∧ (c = '-' ∨ Text.isDigit c = true) := by
  obtain ⟨c, cs, hcs⟩ :=
    List.exists_cons_of_ne_nil (Nat.toDigits_ne_nil (n := i.natAbs) (b := 10))
  rw [toList_toString]
  split_ifs
  · exact ⟨c, cs, hcs, .inr (isDigit_of_mem_toDigits (by rw [hcs]; simp))⟩
  · exact ⟨'-', _, rfl, .inl rfl⟩

theorem atom_toString {i : Int} (hr : Stops rest)
    (hi : (Nat.toDigits 10 i.natAbs).length ≤ most) :
    atom most ((toString i).toList ++ rest) = .ok (.int i, rest) := by
  obtain ⟨c, cs, hcs⟩ :=
    List.exists_cons_of_ne_nil (Nat.toDigits_ne_nil (n := i.natAbs) (b := 10))
  have hc : Text.isDigit c = true := isDigit_of_mem_toDigits (by rw [hcs]; simp)
  obtain ⟨hplus, hminus⟩ := @atom_of_isDigit most c (cs ++ rest) hc
  rw [← List.cons_append, ← hcs] at hplus hminus
  rw [toList_toString]
  split_ifs with hsign
  · rw [hplus, unsigned_toDigits hr hi, if_neg Bool.false_ne_true, Int.natAbs_of_nonneg hsign]
  · have habs : -(i.natAbs : Int) = i := by omega
    rw [List.cons_append, hminus, unsigned_toDigits hr hi, if_pos rfl, habs]

end Numbers

section Items

variable {x y : String} {xs : List String} {depth : Nat}

theorem skipGap_of_not_isGap {c : Char} (h : isGap c = false) (cs : List Char) :
    skipGap (c :: cs) = c :: cs := by
  simp [skipGap, h]

theorem skipGap_indent (depth : Nat) (cs : List Char) :
    skipGap ((indent depth).toList ++ cs) = skipGap cs := by
  have hblanks : ∀ c ∈ (indent depth).toList, isGap c = true := by
    simp [indent, isGap]
  rw [skipGap, List.dropWhile_append_of_pos hblanks, skipGap]

theorem stops_indent (depth : Nat) (cs : List Char) : Stops ((indent depth).toList ++ cs) := by
  simp [indent, stops_line]

def items (depth : Nat) (xs : List String) : List Char :=
  (("," ++ indent depth).intercalate xs).toList

theorem items_singleton : items depth [x] = x.toList := by simp [items]

theorem items_cons_cons :
    items depth (x :: y :: xs) =
      x.toList ++ ',' :: ((indent depth).toList ++ items depth (y :: xs)) := by
  simp [items]

theorem toList_block {opener closer : String} (h : xs ≠ []) :
    (block opener closer depth xs).toList = opener.toList ++ ((indent (depth + 1)).toList ++
      (items (depth + 1) xs ++ ((indent depth).toList ++ closer.toList))) := by
  simp [block, items, h]

def others : List Char := [' ', '\t', '\n', '\r', ']', '}', '\ufeff']

def Starts (cs : List Char) : Prop := ∃ c rest, cs = c :: rest ∧ c ∉ others

theorem Starts.append {cs : List Char} (h : Starts cs) (rest : List Char) : Starts (cs ++ rest) := by
  obtain ⟨c, cs, rfl, hc⟩ := h
  exact ⟨c, cs ++ rest, rfl, hc⟩

theorem Starts.skipGap_eq {cs : List Char} (h : Starts cs) : skipGap cs = cs := by
  obtain ⟨c, cs, rfl, hc⟩ := h
  simp only [others, List.mem_cons, List.not_mem_nil, or_false, not_or] at hc
  exact skipGap_of_not_isGap (by simp [isGap, hc]) cs

theorem starts_items (h : Starts x.toList) (xs : List String) : Starts (items depth (x :: xs)) := by
  cases xs with
  | nil => rwa [items_singleton]
  | cons y ys =>
    rw [items_cons_cons]
    exact h.append _

end Items

theorem Fields.put_of_notMem {key : String} {fs : Fields} (h : key ∉ keys fs) (v : Json) :
    put key v fs = fs ++ [(key, v)] := by
  induction fs with
  | nil => rfl
  | cons f fs ih =>
    obtain ⟨k, w⟩ := f
    obtain ⟨hk, hfs⟩ : key ≠ k ∧ key ∉ keys fs := by simpa using h
    simp [put, Ne.symm hk, ih hfs]

/-- Values whose text says all there is to them: without reals, with keys that differ, and with
integers that are not too long to be read. -/
inductive Plain (most : Nat) : Json → Prop
  | null : Plain most null
  | bool (b : Bool) : Plain most (bool b)
  | int {i : Int} (h : (Nat.toDigits 10 i.natAbs).length ≤ most) : Plain most (int i)
  | text (s : String) : Plain most (text s)
  | list {xs : List Json} (h : ∀ v ∈ xs, Plain most v) : Plain most (list xs)
  | object {fields : Fields} (hk : fields.keys.Nodup) (hv : ∀ f ∈ fields, Plain most f.2) :
      Plain most (object fields)

namespace Plain

attribute [simp] null bool text

variable {most : Nat} {key : String} {v : Json} {xs : List Json} {fs : Fields}

@[simp] theorem list_iff : Plain most (.list xs) ↔ ∀ v ∈ xs, Plain most v := by
  constructor
  · rintro ⟨⟩
    assumption
  · exact list

@[simp] theorem object_nil : Plain most (.object []) := object List.nodup_nil nofun

@[simp] theorem object_cons : Plain most (.object ((key, v) :: fs)) ↔
    key ∉ fs.keys ∧ Plain most v ∧ Plain most (.object fs) := by
  constructor
  · rintro ⟨⟩
    next hk hv =>
      obtain ⟨hkey, hkeys⟩ := List.nodup_cons.1 hk
      obtain ⟨hfirst, hothers⟩ := List.forall_mem_cons.1 hv
      exact ⟨hkey, hfirst, object hkeys hothers⟩
  · rintro ⟨hkey, hfirst, ⟨⟩⟩
    next hkeys hothers =>
      exact object (List.nodup_cons.2 ⟨hkey, hkeys⟩) (List.forall_mem_cons.2 ⟨hfirst, hothers⟩)

end Plain

structure ReadsBack (most : Nat) (v : Json) : Prop where
  starts : ∀ depth, Starts (render depth v).toList
  value_render : ∀ depth fuel rest, Stops rest → (render depth v).toList.length ≤ fuel →
    value most fuel ((render depth v).toList ++ rest) = .ok (v, rest)

section Values

variable {most : Nat} {depth outer fuel : Nat} {v : Json} {rest : List Char}

theorem elements_items {xs : List Json} (hne : xs ≠ []) (hall : ∀ v ∈ xs, ReadsBack most v)
    (read : List Json) (hfuel : (items depth (renderAll depth xs)).length < fuel) :
    elements most fuel read
      (items depth (renderAll depth xs) ++ ((indent outer).toList ++ ']' :: rest)) =
      .ok (.list (read.reverse ++ xs), rest) := by
  induction xs generalizing read fuel with
  | nil => exact absurd rfl hne
  | cons x xs ih =>
    obtain ⟨hx, hxs⟩ := List.forall_mem_cons.1 hall
    obtain ⟨fuel, rfl⟩ : ∃ k, fuel = k + 1 := ⟨fuel - 1, by omega⟩
    cases xs with
    | nil =>
      simp only [renderAll, items_singleton] at hfuel ⊢
      rw [elements, hx.value_render depth fuel _ (stops_indent _ _) (by omega)]
      simp only [bind, Except.bind, skipGap_indent]
      simp [skipGap_of_not_isGap (c := ']') rfl, pure, Except.pure]
    | cons y ys =>
      have hy := (hxs y (by simp)).starts depth
      simp only [renderAll, items_cons_cons, List.length_append, List.length_cons] at hfuel ih ⊢
      rw [elements, List.append_assoc, List.cons_append,
        hx.value_render depth fuel _ (stops_comma _) (by omega)]
      simp only [bind, Except.bind, skipGap_of_not_isGap (c := ',') rfl, List.append_assoc,
        skipGap_indent, ((starts_items hy _).append _).skipGap_eq]
      rw [ih (by simp) hxs (x :: read) (by omega)]
      simp

theorem toList_quote (s : String) :
    (quote s).toList = '"' :: ((String.join (s.toList.map escapeChar)).toList ++ ['"']) := by
  simp [quote]

theorem starts_quote (s : String) : Starts (quote s).toList :=
  ⟨'"', _, toList_quote s, by decide⟩

theorem starts_field (f : String × Json) (depth : Nat) :
    Starts (quote f.1 ++ ": " ++ render depth f.2).toList := by
  rw [String.toList_append, String.toList_append, List.append_assoc]
  exact (starts_quote f.1).append _

theorem members_field {key : String} {fields : Fields} (hv : ReadsBack most v) (hr : Stops rest)
    (hfuel : (render depth v).toList.length ≤ fuel) :
    members most (fuel + 1) fields ((quote key ++ ": " ++ render depth v).toList ++ rest) =
      match skipGap rest with
      | '}' :: rest => .ok (.object (Fields.put key v fields), rest)
      | ',' :: rest => members most fuel (Fields.put key v fields) (skipGap rest)
      | rest => .error ⟨.comma, rest⟩ := by
  have hcolon : ∀ cs, skipGap (": ".toList ++ cs) = ':' :: ' ' :: cs := fun cs ↦ rfl
  have hblank : ∀ cs, skipGap (' ' :: cs) = skipGap cs := fun cs ↦ rfl
  rw [String.toList_append, String.toList_append, toList_quote]
  simp only [List.cons_append, List.append_assoc, List.nil_append]
  rw [members]
  simp only [chars_quoted, List.reverse_nil, List.nil_append, String.ofList_toList, bind,
    Except.bind, hcolon, hblank, ((hv.starts depth).append rest).skipGap_eq,
    hv.value_render depth fuel rest hr hfuel]
  rfl

theorem members_items {fs : Fields} (hne : fs ≠ []) (hall : ∀ f ∈ fs, ReadsBack most f.2)
    (fields : Fields) (hkeys : (Fields.keys (fields ++ fs)).Nodup)
    (hfuel : (items depth (renderFields depth fs)).length < fuel) :
    members most fuel fields
      (items depth (renderFields depth fs) ++ ((indent outer).toList ++ '}' :: rest)) =
      .ok (.object (fields ++ fs), rest) := by
  induction fs generalizing fields fuel with
  | nil => exact absurd rfl hne
  | cons f fs ih =>
    obtain ⟨key, v⟩ := f
    obtain ⟨hv, hfs⟩ := List.forall_mem_cons.1 hall
    obtain ⟨fuel, rfl⟩ : ∃ k, fuel = k + 1 := ⟨fuel - 1, by omega⟩
    have hkey : key ∉ Fields.keys fields := by
      intro hmem
      rw [Fields.keys, List.map_append] at hkeys
      exact List.disjoint_of_nodup_append hkeys hmem (by simp)
    have hput : Fields.put key v fields = fields ++ [(key, v)] := Fields.put_of_notMem hkey v
    cases fs with
    | nil =>
      simp only [renderFields, items_singleton] at hfuel ⊢
      have hlength : (render depth v).toList.length ≤ fuel := by
        simp only [String.toList_append, List.length_append] at hfuel
        omega
      rw [members_field hv (stops_indent _ _) hlength, skipGap_indent, skipGap_of_not_isGap rfl,
        hput]
      rfl
    | cons g gs =>
      simp only [renderFields, items_cons_cons, List.length_append, List.length_cons] at hfuel ih ⊢
      have hlength : (render depth v).toList.length ≤ fuel := by
        simp only [String.toList_append, List.length_append] at hfuel
        omega
      rw [List.append_assoc, List.cons_append, members_field hv (stops_comma _) hlength,
        skipGap_of_not_isGap rfl, hput]
      simp only [List.append_assoc, skipGap_indent,
        ((starts_items (starts_field g depth) _).append _).skipGap_eq]
      rw [ih (by simp) hfs _ (by simpa using hkeys) (by omega)]
      simp

theorem readsBack_of_succ (hs : ∀ depth, Starts (render depth v).toList)
    (hv : ∀ depth fuel rest, Stops rest → (render depth v).toList.length ≤ fuel + 1 →
      value most (fuel + 1) ((render depth v).toList ++ rest) = .ok (v, rest)) :
    ReadsBack most v := by
  refine ⟨hs, fun depth fuel rest hr hfuel ↦ ?_⟩
  cases fuel with
  | zero =>
    obtain ⟨c, cs, hcs, -⟩ := hs depth
    simp [hcs] at hfuel
  | succ fuel => exact hv depth fuel rest hr hfuel

theorem readsBack_of_atom {c : Char} {cs : List Char}
    (ht : ∀ depth, (render depth v).toList = c :: cs)
    (hc : c ∉ '[' :: '{' :: '"' :: others)
    (ha : ∀ rest, Stops rest → atom most (c :: cs ++ rest) = .ok (v, rest)) :
    ReadsBack most v := by
  simp only [List.mem_cons, not_or] at hc
  obtain ⟨hlist, hobject, htext, hothers⟩ := hc
  apply readsBack_of_succ
  · exact fun depth ↦ ⟨c, cs, ht depth, hothers⟩
  · intro depth fuel rest hr _
    rw [ht, ← ha rest hr]
    simp [value, hlist, hobject, htext]

theorem readsBack_null : ReadsBack most null := by
  have htext : ∀ depth, (render depth null).toList = ['n', 'u', 'l', 'l'] := by simp [render]
  exact readsBack_of_atom htext (by decide) fun rest hr ↦ rfl

theorem readsBack_bool (b : Bool) : ReadsBack most (bool b) := by
  cases b with
  | false =>
    have htext : ∀ depth, (render depth (bool false)).toList = ['f', 'a', 'l', 's', 'e'] := by
      simp [render]
    exact readsBack_of_atom htext (by decide) fun rest hr ↦ rfl
  | true =>
    have htext : ∀ depth, (render depth (bool true)).toList = ['t', 'r', 'u', 'e'] := by
      simp [render]
    exact readsBack_of_atom htext (by decide) fun rest hr ↦ rfl

theorem readsBack_int {i : Int} (h : (Nat.toDigits 10 i.natAbs).length ≤ most) :
    ReadsBack most (int i) := by
  obtain ⟨c, cs, hcs, hc⟩ := head_toString i
  have hplain : c ∉ '[' :: '{' :: '"' :: others := by
    rcases hc with rfl | hc
    · decide
    · intro hmem
      have hnone : ('[' :: '{' :: '"' :: others).all (!Text.isDigit ·) = true := by decide
      simpa [hc] using List.all_eq_true.1 hnone c hmem
  refine readsBack_of_atom (fun depth ↦ by rw [render, hcs]) hplain fun rest hr ↦ ?_
  rw [← hcs]
  exact atom_toString hr h

theorem readsBack_text (s : String) : ReadsBack most (text s) := by
  apply readsBack_of_succ
  · intro depth
    rw [render]
    exact starts_quote s
  · intro depth fuel rest hr _
    rw [render, toList_quote]
    simp only [value, List.cons_append, List.append_assoc, List.nil_append, chars_quoted, bind,
      Except.bind, List.reverse_nil, String.ofList_toList]
    rfl

theorem value_list {cs : List Char} (h : Starts (skipGap cs)) :
    value most (fuel + 1) ('[' :: cs) = elements most fuel [] (skipGap cs) := by
  obtain ⟨c, rest, hcs, hc⟩ := h
  have hend : c ≠ ']' := fun h ↦ hc (by simp [h, others])
  simp [value, hcs, hend]

theorem value_object {cs : List Char} (h : Starts (skipGap cs)) :
    value most (fuel + 1) ('{' :: cs) = members most fuel [] (skipGap cs) := by
  obtain ⟨c, rest, hcs, hc⟩ := h
  have hend : c ≠ '}' := fun h ↦ hc (by simp [h, others])
  simp [value, hcs, hend]

/-- Lists and objects that are not empty differ in the reader of their items only. -/
theorem readsBack_of_items {o c : Char} (texts : Nat → List String)
    {reader : Nat → List Char → Except Stop (Json × List Char)} (ho : o ∉ others)
    (htext : ∀ depth, (render depth v).toList = o :: ((indent (depth + 1)).toList ++
      (items (depth + 1) (texts (depth + 1)) ++ ((indent depth).toList ++ [c]))))
    (hstarts : ∀ depth, Starts (items depth (texts depth)))
    (hvalue : ∀ fuel cs, Starts (skipGap cs) →
      value most (fuel + 1) (o :: cs) = reader fuel (skipGap cs))
    (hreader : ∀ depth outer fuel rest, (items depth (texts depth)).length < fuel →
      reader fuel (items depth (texts depth) ++ ((indent outer).toList ++ c :: rest)) =
        .ok (v, rest)) :
    ReadsBack most v := by
  apply readsBack_of_succ
  · exact fun depth ↦ ⟨o, _, htext depth, ho⟩
  · intro depth fuel rest hr hfuel
    rw [htext] at hfuel ⊢
    simp only [List.length_cons, List.length_append] at hfuel
    simp only [List.cons_append, List.append_assoc, List.nil_append]
    have hitems := (hstarts (depth + 1)).append ((indent depth).toList ++ c :: rest)
    rw [hvalue _ _ (by rwa [skipGap_indent, hitems.skipGap_eq]), skipGap_indent,
      hitems.skipGap_eq, hreader _ _ _ _ (by omega)]

theorem readsBack_list {xs : List Json} (h : ∀ v ∈ xs, ReadsBack most v) :
    ReadsBack most (list xs) := by
  cases xs with
  | nil =>
    apply readsBack_of_succ
    · exact fun depth ↦ ⟨'[', [']'], by simp [render, renderAll, block], by decide⟩
    · intro depth fuel rest hr _
      simp [render, renderAll, block, value, skipGap_of_not_isGap (c := ']') rfl]
  | cons x xs =>
    refine readsBack_of_items (renderAll · (x :: xs)) (o := '[') (c := ']') (by decide) ?_ ?_
      (fun fuel cs ↦ value_list) ?_
    · intro depth
      rw [render, toList_block (by simp [renderAll])]
      rfl
    · exact fun depth ↦ starts_items ((h x (by simp)).starts depth) _
    · exact fun depth outer fuel rest hfuel ↦ elements_items (by simp) h [] hfuel

theorem readsBack_object {fs : Fields} (hk : fs.keys.Nodup) (h : ∀ f ∈ fs, ReadsBack most f.2) :
    ReadsBack most (object fs) := by
  cases fs with
  | nil =>
    apply readsBack_of_succ
    · exact fun depth ↦ ⟨'{', ['}'], by simp [render, renderFields, block], by decide⟩
    · intro depth fuel rest hr _
      simp [render, renderFields, block, value, skipGap_of_not_isGap (c := '}') rfl]
  | cons f fs =>
    refine readsBack_of_items (renderFields · (f :: fs)) (o := '{') (c := '}') (by decide) ?_ ?_
      (fun fuel cs ↦ value_object) ?_
    · intro depth
      rw [render, toList_block (by simp [renderFields])]
      rfl
    · exact fun depth ↦ starts_items (starts_field f depth) _
    · exact fun depth outer fuel rest hfuel ↦ members_items (by simp) h [] hk hfuel

theorem readsBack_of_plain (h : Plain most v) : ReadsBack most v := by
  induction h with
  | null => exact readsBack_null
  | bool b => exact readsBack_bool b
  | int h => exact readsBack_int h
  | text s => exact readsBack_text s
  | list h ih => exact readsBack_list ih
  | object hk hv ih => exact readsBack_object hk ih

theorem readWhole_render (h : Plain most v) (hr : Stops rest) (hg : skipGap rest = []) :
    readWhole most ((render 0 v).toList ++ rest) = .ok v := by
  have hv := readsBack_of_plain h
  have hstarts := (hv.starts 0).append rest
  have hmark : ((render 0 v).toList ++ rest).head? ≠ some '\ufeff' := by
    obtain ⟨c, cs, hcs, hc⟩ := hstarts
    rw [hcs, List.head?_cons, ne_eq, Option.some_inj]
    exact fun h ↦ hc (by simp [h, others])
  have hvalue := hv.value_render 0 (2 * ((render 0 v).toList ++ rest).length + 1) rest hr
    (by simp; omega)
  rw [readWhole, if_neg hmark, hstarts.skipGap_eq]
  simp only [hvalue, bind, Except.bind, hg]
  rfl

/-- What is written is read back, with or without an end of its last line. -/
theorem parseWithin_render (h : Plain most v) :
    parseWithin most (render 0 v) = .ok v ∧ parseWithin most (render 0 v ++ "\n") = .ok v := by
  have hbare := readWhole_render h stops_nil rfl
  have hline := readWhole_render h (stops_line []) rfl
  have hchars : (render 0 v ++ "\n").toList = (render 0 v).toList ++ ['\n'] := by simp
  rw [List.append_nil] at hbare
  rw [← hchars] at hline
  simp only [parseWithin, hbare, hline]
  exact ⟨rfl, rfl⟩

end Values

end SchemaOutline.Json
