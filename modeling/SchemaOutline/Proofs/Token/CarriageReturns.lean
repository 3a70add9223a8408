import SchemaOutline.Proofs.Token.Decomposition
import SchemaOutline.Text.Utf8

namespace SchemaOutline

namespace Text

def insertReturns (cs : List Char) : List Char :=
  cs.flatMap fun c ↦ if c = '\n' then ['\r', '\n'] else [c]

def withReturns (text : String) : String := String.ofList (insertReturns text.toList)

def withoutReturns (text : String) : String := String.ofList (text.toList.filter (· ≠ '\r'))

variable {cs : List Char}

theorem insertReturns_newline (cs : List Char) :
    insertReturns ('\n' :: cs) = '\r' :: '\n' :: insertReturns cs := rfl

theorem insertReturns_cons {c : Char} (hc : c ≠ '\n') (cs : List Char) :
    insertReturns (c :: cs) = c :: insertReturns cs := by
  simp [insertReturns, hc]

theorem unifyNewlines_insertReturns (h : '\r' ∉ cs) (read : List Char) :
    Utf8.unifyNewlines read (insertReturns cs) = read.reverse ++ cs := by
  induction cs generalizing read with
  | nil => simp [insertReturns, Utf8.unifyNewlines]
  | cons c cs ih =>
    obtain ⟨hr, hcs⟩ : '\r' ≠ c ∧ '\r' ∉ cs := by simpa using h
    by_cases hc : c = '\n'
    · subst hc
      rw [insertReturns_newline, Utf8.unifyNewlines, ih hcs]
      simp
    · rw [insertReturns_cons hc, Utf8.unifyNewlines, ih hcs]
      · simp
      · rintro _ rfl
        exact absurd rfl hr
      · rintro rfl
        exact absurd rfl hr

theorem newline_after_return (h : '\r' ∉ cs) {before after : List Char}
    (hcs : insertReturns cs = before ++ '\r' :: after) : after.head? = some '\n' := by
  induction cs generalizing before with
  | nil => simp [insertReturns] at hcs
  | cons c cs ih =>
    obtain ⟨hr, hrest⟩ : '\r' ≠ c ∧ '\r' ∉ cs := by simpa using h
    by_cases hc : c = '\n'
    · subst hc
      rw [insertReturns_newline] at hcs
      rcases before with _ | ⟨b, _ | ⟨b', before⟩⟩
      · obtain ⟨-, rfl⟩ := List.cons.inj hcs
        rfl
      · simp at hcs
      · simp only [List.cons_append, List.cons.injEq] at hcs
        exact ih hrest hcs.2.2
    · rw [insertReturns_cons hc] at hcs
      rcases before with _ | ⟨b, before⟩
      · exact absurd (List.cons.inj hcs).1.symm hr
      · exact ih hrest (List.cons.inj hcs).2

end Text

def Token.withoutReturns (t : Token) : Token := { t with value := Text.withoutReturns t.value }

namespace Lexer

open Token

/-- Reading a carriage return and a newline leads where reading the newline leads, with the same
lexemes but for a carriage return. -/
theorem read_return_newline (mode : Mode) :
    ((mode.read '\r').1.read '\n').1 = (mode.read '\n').1 ∧
    ((mode.read '\r').2 ++ ((mode.read '\r').1.read '\n').2).map Text.withoutReturns =
      (mode.read '\n').2.map Text.withoutReturns := by
  cases mode with
  | gap => exact ⟨rfl, rfl⟩
  | word w => exact ⟨rfl, rfl⟩
  | slash w => exact ⟨rfl, rfl⟩
  | lineComment => exact ⟨rfl, rfl⟩
  | blockComment => exact ⟨rfl, rfl⟩
  | blockStar => exact ⟨rfl, rfl⟩
  | literal q w =>
    -- The carriage return becomes the last character of the literal.
    cases q <;> simp [Mode.read, Quote.char, Text.withoutReturns, spell]
  | escape q w => cases q <;> simp [Mode.read, Quote.char, Text.withoutReturns, spell]

theorem map_withoutReturns_mk (values : List String) (line : Int) :
    (values.map (Token.mk · line)).map withoutReturns =
      (values.map Text.withoutReturns).map (Token.mk · line) := by
  simp [withoutReturns]

theorem tokensFrom_insertReturns (mode : Mode) (line : Int) (cs : List Char) :
    (tokensFrom mode line (Text.insertReturns cs)).map withoutReturns =
      (tokensFrom mode line cs).map withoutReturns := by
  induction cs generalizing mode line with
  | nil => rfl
  | cons c cs ih =>
    by_cases hc : c = '\n'
    · subst hc
      obtain ⟨hmode, hlexemes⟩ := read_return_newline mode
      have hreturn : nextLine line '\r' = line := rfl
      simp only [Text.insertReturns_newline, tokensFrom_cons, hreturn, hmode, List.map_append,
        map_withoutReturns_mk, ih]
      rw [← List.append_assoc, ← List.map_append, ← List.map_append, hlexemes]
    · simp only [Text.insertReturns_cons hc, tokensFrom_cons, List.map_append, ih]

/-- What stands behind the opening quote holds no quote that no backslash escapes. -/
inductive Unclosed (q : Quote) : List Char → Prop
  | nil : Unclosed q []
  | backslash : Unclosed q ['\\']
  | plain {c : Char} {v : List Char} (hq : c ≠ q.char) (hb : c ≠ '\\') (h : Unclosed q v) :
      Unclosed q (c :: v)
  | escaped {c : Char} {v : List Char} (h : Unclosed q v) : Unclosed q ('\\' :: c :: v)

theorem LiteralTail.unclosed_or {q : Quote} {rest v : List Char} (h : LiteralTail q rest v) :
    Unclosed q v ∨ v.getLast? = some q.char := by
  induction h with
  | closed => exact .inr rfl
  | cut hr => exact .inl .nil
  | cutEscape hr => exact .inl .backslash
  | plain hq hb hn h ih =>
    obtain ih | ih := ih
    · exact .inl (.plain hq hb ih)
    · exact .inr (by simp [List.getLast?_cons, ih])
  | escaped hn h ih =>
    obtain ih | ih := ih
    · exact .inl (.escaped ih)
    · exact .inr (by simp [List.getLast?_cons, ih])

end Lexer

namespace Token

open Lexer

/-- A literal that nothing closes before its line ends, with a carriage return for its last
character and nowhere else. -/
structure EndsInReturn (rest v : List Char) : Prop where
  unclosed : ∃ (q : Quote) (body : List Char),
    v = q.char :: body ++ ['\r'] ∧ '\r' ∉ body ∧ Unclosed q (body ++ ['\r'])
  line_ends : rest.head? = some '\n'

variable {rest v : List Char}

theorem IsLexeme.endsInReturn (h : IsLexeme rest v) (hv : '\r' ∈ v)
    (hnext : ∀ front back, v = front ++ '\r' :: back → (back ++ rest).head? = some '\n') :
    EndsInReturn rest v := by
  obtain ⟨front, back, rfl, hfront⟩ := List.eq_append_cons_of_mem hv
  have hhead := hnext front back rfl
  obtain rfl : back = [] := by
    cases back with
    | nil => rfl
    | cons b back =>
      obtain rfl : b = '\n' := by simpa using hhead
      exact absurd (by simp) h.newline_notMem
  have hquote : ∀ q : Quote, '\r' ≠ q.char := by rintro (_ | _) <;> decide
  refine ⟨?_, by simpa using hhead⟩
  generalize hw : front ++ ['\r'] = w at h
  cases h with
  | @delimiter c hc =>
    obtain ⟨-, rfl⟩ : front = [] ∧ '\r' = c := by
      simpa using List.append_eq_singleton_iff.1 hw
    exact absurd hc (by decide)
  | word hword =>
    have hplain := hword.plain '\r' (by simp [← hw])
    cases hplain
  | literal hlit =>
    obtain ⟨q, tail, rfl, htail⟩ := hlit.exists_tail
    cases front with
    | nil => exact absurd (List.cons.inj hw).1 (hquote q)
    | cons c body =>
      obtain ⟨rfl, rfl⟩ := List.cons.inj hw
      refine ⟨q, body, rfl, fun hbody ↦ hfront (by simp [hbody]), ?_⟩
      obtain hopen | hclosed := htail.unclosed_or
      · exact hopen
      · exact absurd (by simpa using hclosed) (hquote q)

theorem withoutReturns_of_notMem {t : Token} (h : '\r' ∉ t.value.toList) :
    t.withoutReturns = t := by
  have hfilter : t.value.toList.filter (· ≠ '\r') = t.value.toList := by
    apply List.filter_eq_self.2
    intro c hc
    simpa using fun hr : c = '\r' ↦ h (hr ▸ hc)
  simp only [withoutReturns, Text.withoutReturns, hfilter, String.ofList_toList]

theorem notMem_tokenize {text : String} {c : Char} (h : c ∉ text.toList) {t : Token}
    (ht : t ∈ tokenize text) : c ∉ t.value.toList := by
  obtain ⟨pieces, last, hd, -⟩ := decomposable_tokenize text
  rw [hd.tokens_eq] at ht
  obtain ⟨p, hp, rfl⟩ := List.mem_map.1 ht
  intro hc
  apply h
  rw [hd.text_eq]
  refine List.mem_append_left _ (List.mem_flatMap.2 ⟨p, hp, ?_⟩)
  exact List.mem_append_right _ hc

end Token

/-- Line ends of two characters do not change the tokens, but for a carriage return at the end of a
literal that its line cuts short. -/
theorem tokenize_withReturns (text : String) (h : '\r' ∉ text.toList) :
    Utf8.unifyNewlines [] (Text.withReturns text).toList = text.toList ∧
    (tokenize (Text.withReturns text)).map Token.withoutReturns = tokenize text ∧
    ∃ pieces last, Token.Decomposes [] (Text.withReturns text).toList
        (tokenize (Text.withReturns text)) pieces last ∧
      ∀ front p back, pieces = front ++ p :: back → '\r' ∈ p.lexeme →
        Token.EndsInReturn (back.flatMap Token.Piece.chars ++ last) p.lexeme := by
  have hchars : (Text.withReturns text).toList = Text.insertReturns text.toList :=
    String.toList_ofList
  refine ⟨?_, ?_, ?_⟩
  · rw [hchars, Text.unifyNewlines_insertReturns h, List.reverse_nil, List.nil_append]
  · have hrun := Lexer.tokensFrom_insertReturns .gap 1 text.toList
    rw [← hchars] at hrun
    calc (tokenize (Text.withReturns text)).map Token.withoutReturns
        = (tokenize text).map Token.withoutReturns := hrun
      _ = (tokenize text).map id :=
        List.map_congr_left fun t ht ↦ Token.withoutReturns_of_notMem (Token.notMem_tokenize h ht)
      _ = tokenize text := List.map_id _
  · obtain ⟨pieces, last, hd, -⟩ := Token.decomposable_tokenize (Text.withReturns text)
    refine ⟨pieces, last, hd, ?_⟩
    intro front p back hpieces hreturn
    refine (hd.fits front p back hpieces).lexeme.endsInReturn hreturn ?_
    intro u w hlexeme
    have htext : Text.insertReturns text.toList = front.flatMap Token.Piece.chars ++ p.gap ++ u ++
        '\r' :: (w ++ (back.flatMap Token.Piece.chars ++ last)) := by
      rw [← hchars, hd.text_eq, hpieces]
      simp [Token.Piece.chars, hlexeme]
    exact Text.newline_after_return h htext

/-- A literal that ends in a backslash at its line end, with a word and a comment after it. -/
theorem tokenize_withReturns_backslash :
    let text := "'a\\\nb/ /*\n*/ \"c\""
    '\r' ∉ text.toList ∧
    tokenize (Text.withReturns text) = [⟨"'a\\\r", 1⟩, ⟨"b/", 2⟩, ⟨"\"c\"", 3⟩] ∧
    (tokenize (Text.withReturns text)).map Token.withoutReturns = tokenize text := by
  intro text
  have htext : '\r' ∉ text.toList := by decide
  exact ⟨htext, by decide, (tokenize_withReturns text htext).2.1⟩

end SchemaOutline
