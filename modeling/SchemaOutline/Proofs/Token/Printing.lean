import SchemaOutline.Proofs.Token.Decomposition

namespace SchemaOutline

namespace Token

open Lexer

def printLines (values : List String) : String := String.join (values.map (· ++ "\n"))

variable {q : Quote} {line : Int} {rest more v cs : List Char}

theorem literalTail_of_lineEnds (h : LiteralTail q rest v) (hm : LineEnds more) :
    LiteralTail q more v := by
  induction h with
  | closed => exact .closed
  | cut hr => exact .cut hm
  | cutEscape hr => exact .cutEscape hm
  | plain hq hb hn h ih => exact .plain hq hb hn ih
  | escaped hn h ih => exact .escaped hn ih

theorem wordTail_of_endsWord (hp : ∀ c ∈ v, endsWord c = false)
    (hn : ¬ ['/', '/'] <:+: v ∧ ¬ ['/', '*'] <:+: v) (hr : ∀ c ∈ rest.head?, endsWord c = true) :
    WordTail rest v := by
  induction v with
  | nil => exact .stop fun c hc ↦ .inl (hr c hc)
  | cons c v ih =>
    simp only [List.infix_cons_iff, not_or] at hn
    obtain ⟨⟨hslash, hnslash⟩, hstar, hnstar⟩ := hn
    refine .more (hp c (by simp)) ?_ (ih (fun d hd ↦ hp d (by simp [hd])) ⟨hnslash, hnstar⟩)
    intro hbegins
    obtain ⟨rfl, hnext⟩ := commentBegins_cons.1 hbegins
    cases v with
    | nil =>
      -- The slash is the last character of the word, and what follows it ends a word.
      obtain hnext | hnext := hnext
      · cases hr '/' hnext
      · cases hr '*' hnext
    | cons d v =>
      obtain rfl | rfl : d = '/' ∨ d = '*' := by simpa using hnext
      · exact hslash ⟨v, rfl⟩
      · exact hstar ⟨v, rfl⟩

/-- A lexeme on a line of its own is read as that lexeme, whatever followed it before. -/
theorem IsLexeme.lexes_line (h : IsLexeme rest v) {ts : List Token} (hs : Lexes (line + 1) cs ts) :
    Lexes line (v ++ '\n' :: cs) (⟨String.ofList v, line⟩ :: ts) := by
  have hnewline : Lexes line ('\n' :: cs) ts := .blank rfl hs
  cases h with
  | delimiter hc => exact .delimiter (by simpa [isDelimiter] using hc) hnewline
  | literal h =>
    obtain ⟨q, tail, rfl, htail⟩ := h.exists_tail
    exact .literal (literalTail_of_lineEnds htail (by simp [LineEnds])) hnewline
  | word h =>
    obtain ⟨c, w, rfl⟩ := List.exists_cons_of_ne_nil h.ne_nil
    refine .word (wordTail_of_endsWord h.plain h.no_comment ?_) hnewline
    simp [endsWord, isBlank, blanks]

theorem lexes_printLines {values : List String}
    (h : ∀ v ∈ values, ∃ rest, IsLexeme rest v.toList) (line : Int) :
    Lexes line (printLines values).toList (values.mapIdx fun k v ↦ ⟨v, line + k⟩) := by
  induction values generalizing line with
  | nil => exact .nil
  | cons v values ih =>
    obtain ⟨⟨rest, hv⟩, hvalues⟩ := List.forall_mem_cons.1 h
    have hline := hv.lexes_line (ih hvalues (line + 1))
    simpa [printLines, String.toList_join, List.mapIdx_cons, Int.add_assoc, Int.add_comm 1]
      using hline

theorem isLexeme_of_mem_tokenize {text : String} {t : Token} (h : t ∈ tokenize text) :
    ∃ rest, IsLexeme rest t.value.toList := by
  obtain ⟨pieces, last, hd, -⟩ := decomposable_tokenize text
  rw [hd.tokens_eq] at h
  obtain ⟨p, hp, rfl⟩ := List.mem_map.1 h
  obtain ⟨front, back, hpieces⟩ := List.append_of_mem hp
  exact ⟨_, (hd.fits front p back hpieces).lexeme⟩

end Token

/-- Reading is stable under printing: the values of a text, printed on a line each, are read as the
same values, each on its line. -/
theorem tokenize_printLines (text : String) :
    let values := (tokenize text).map Token.value
    tokenize (Token.printLines values) = values.mapIdx fun k v ↦ ⟨v, k + 1⟩ := by
  intro values
  have hvalues : ∀ v ∈ values, ∃ rest, Token.IsLexeme rest v.toList := by
    intro v hv
    obtain ⟨t, ht, rfl⟩ := List.mem_map.1 hv
    exact Token.isLexeme_of_mem_tokenize ht
  have htokens : tokenize (Token.printLines values) = values.mapIdx fun k v ↦ ⟨v, 1 + k⟩ :=
    (Token.lexes_printLines hvalues 1).tokensFrom_eq
  simpa only [Int.add_comm 1] using htokens

end SchemaOutline
