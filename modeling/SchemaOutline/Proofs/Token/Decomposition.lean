import SchemaOutline.Proofs.Token.Lexes

namespace SchemaOutline

namespace Token

open Lexer

/-- What may stand between tokens, when the text goes on with `rest`. Only a gap that ends the text
may leave a comment open. -/
inductive Gap (rest : List Char) : List Char → Prop
  | nil : Gap rest []
  | blank {c : Char} {g : List Char} (hc : c ∈ blanks) (h : Gap rest g) : Gap rest (c :: g)
  | lineComment {body g : List Char} (hb : '\n' ∉ body) (he : LineEnds (g ++ rest))
      (h : Gap rest g) : Gap rest ('/' :: '/' :: body ++ g)
  | blockComment {body g : List Char} (hb : ¬ ['*', '/'] <:+: body ++ ['*']) (h : Gap rest g) :
      Gap rest ('/' :: '*' :: body ++ '*' :: '/' :: g)
  | openComment {body : List Char} (hb : ¬ ['*', '/'] <:+: body) (hr : rest = []) :
      Gap rest ('/' :: '*' :: body)

structure IsWord (v : List Char) : Prop where
  ne_nil : v ≠ []
  plain : ∀ c ∈ v, endsWord c = false
  no_comment : ¬ ['/', '/'] <:+: v ∧ ¬ ['/', '*'] <:+: v

structure IsLiteral (rest v : List Char) : Prop where
  exists_tail : ∃ (q : Quote) (tail : List Char), v = q.char :: tail ∧ LiteralTail q rest tail
  no_newline : '\n' ∉ v

/-- The three kinds of lexemes. Where a literal ends depends on what follows it. -/
inductive IsLexeme (rest : List Char) : List Char → Prop
  | delimiter {c : Char} (hc : c ∈ delimiters) : IsLexeme rest [c]
  | literal {v : List Char} (h : IsLiteral rest v) : IsLexeme rest v
  | word {v : List Char} (h : IsWord v) : IsLexeme rest v

structure Piece where
  gap : List Char
  token : Token

namespace Piece

def lexeme (p : Piece) : List Char := p.token.value.toList

def chars (p : Piece) : List Char := p.gap ++ p.lexeme

structure Fits (before rest : List Char) (p : Piece) : Prop where
  gap : Gap (p.lexeme ++ rest) p.gap
  lexeme : IsLexeme rest p.lexeme
  line_eq : p.token.line = 1 + (before ++ p.gap).count '\n'

end Piece

/-- The text behind `before` is made up of the tokens, with gaps between them. -/
structure Decomposes (before text : List Char) (ts : List Token) (pieces : List Piece)
    (last : List Char) : Prop where
  tokens_eq : ts = pieces.map Piece.token
  text_eq : text = pieces.flatMap Piece.chars ++ last
  gap_last : Gap [] last
  fits : ∀ front p back, pieces = front ++ p :: back →
    p.Fits (before ++ front.flatMap Piece.chars) (back.flatMap Piece.chars ++ last)
  apart : pieces.IsChain fun p q ↦ IsWord p.lexeme → IsWord q.lexeme → q.gap ≠ []

section Lexemes

variable {q : Quote} {c : Char} {v rest : List Char}

theorem newline_notMem_literalTail (h : LiteralTail q rest v) : '\n' ∉ v := by
  induction h with
  | closed => simpa using q.char_ne_newline.symm
  | cut hr => simp
  | cutEscape hr => decide
  | plain hq hb hn h ih => simpa [Ne.symm hn] using ih
  | escaped hn h ih => simpa [Ne.symm hn] using ih

theorem isLiteral_of_tail (h : LiteralTail q rest v) : IsLiteral rest (q.char :: v) := by
  refine ⟨⟨q, v, rfl, h⟩, ?_⟩
  simpa [q.char_ne_newline.symm] using newline_notMem_literalTail h

theorem plain_of_wordTail (h : WordTail rest v) : ∀ c ∈ v, endsWord c = false := by
  induction h with
  | stop hr => simp
  | more hc hn h ih => simpa [hc] using ih

theorem no_comment_of_wordTail (h : WordTail rest v) :
    ¬ ['/', '/'] <:+: v ∧ ¬ ['/', '*'] <:+: v := by
  induction h with
  | stop hr => simp
  | @more c v hc hn h ih =>
    have hbegins : ∀ d, d = '/' ∨ d = '*' → ¬ ['/', d] <+: c :: v := by
      rintro d hd hprefix
      have hlong := hprefix.trans (List.prefix_append (c :: v) rest)
      obtain rfl | rfl := hd
      · exact hn (.inl hlong)
      · exact hn (.inr hlong)
    simp only [List.infix_cons_iff, not_or]
    exact ⟨⟨hbegins _ (.inl rfl), ih.1⟩, hbegins _ (.inr rfl), ih.2⟩

theorem isWord_of_tail (h : WordTail rest (c :: v)) : IsWord (c :: v) :=
  ⟨List.cons_ne_nil c v, plain_of_wordTail h, no_comment_of_wordTail h⟩

theorem stops_of_wordTail (h : WordTail rest v) :
    ∀ c ∈ rest.head?, endsWord c = true ∨ CommentBegins rest := by
  induction h with
  | stop hr => exact hr
  | more hc hn h ih => exact ih

theorem IsLexeme.newline_notMem (h : IsLexeme rest v) : '\n' ∉ v := by
  cases h with
  | @delimiter c hc =>
    have hb : isBlank c = false := isBlank_of_isDelimiter (by simpa [isDelimiter] using hc)
    simpa using (ne_newline_of_isBlank hb).symm
  | literal h => exact h.no_newline
  | word h =>
    intro hmem
    exact ne_newline_of_endsWord (h.plain _ hmem) rfl

theorem IsLexeme.line_eq (h : IsLexeme rest v) {before : List Char} {line : Int}
    (hl : line = 1 + before.count '\n') : line = 1 + (before ++ v).count '\n' := by
  rw [List.count_append, List.count_eq_zero.2 h.newline_notMem]
  exact hl

end Lexemes

def Decomposable (before text : List Char) (ts : List Token) : Prop :=
  ∃ pieces last, Decomposes before text ts pieces last ∧
    ∀ p ∈ pieces.head?, p.gap = [] → ¬ CommentBegins text

variable {before text last v : List Char} {ts : List Token} {pieces : List Piece} {line : Int}

theorem Decomposes.gap_ne_nil (h : Decomposes before text ts pieces last)
    (hc : ∀ p ∈ pieces.head?, p.gap = [] → ¬ CommentBegins text)
    (hs : ∀ c ∈ text.head?, endsWord c = true ∨ CommentBegins text) :
    ∀ p ∈ pieces.head?, IsWord p.lexeme → p.gap ≠ [] := by
  intro p hp hw hgap
  obtain ⟨ps, rfl⟩ : ∃ ps, pieces = p :: ps := by
    simpa [List.head?_eq_some_iff] using hp
  obtain ⟨c, v, hv⟩ := List.exists_cons_of_ne_nil hw.ne_nil
  have hhead : text.head? = some c := by
    simp [h.text_eq, Piece.chars, hgap, hv]
  obtain hends | hbegins := hs c hhead
  · have hplain := hw.plain c (by simp [hv])
    rw [hplain] at hends
    cases hends
  · exact hc p hp hgap hbegins

theorem Decomposable.cons (h : Decomposable (before ++ v) text ts) (hv : IsLexeme text v)
    (hl : line = 1 + before.count '\n')
    (hs : IsWord v → ∀ c ∈ text.head?, endsWord c = true ∨ CommentBegins text)
    (hc : ¬ CommentBegins (v ++ text)) :
    Decomposable before (v ++ text) (⟨String.ofList v, line⟩ :: ts) := by
  obtain ⟨pieces, last, h, hbegins⟩ := h
  have hlexeme : Piece.lexeme ⟨[], String.ofList v, line⟩ = v := String.toList_ofList
  refine ⟨⟨[], String.ofList v, line⟩ :: pieces, last,
    ⟨by rw [h.tokens_eq]; rfl, ?_, h.gap_last, ?_, ?_⟩, fun _ _ _ ↦ hc⟩
  · simp [Piece.chars, hlexeme, h.text_eq]
  · intro front p back heq
    cases front with
    | nil =>
      obtain ⟨rfl, rfl⟩ := List.cons.inj heq
      refine ⟨.nil, ?_, by simpa using hl⟩
      rwa [hlexeme, ← h.text_eq]
    | cons first front =>
      obtain ⟨rfl, rfl⟩ := List.cons.inj heq
      simpa [Piece.chars, hlexeme] using h.fits front p back rfl
  · cases pieces with
    | nil => exact .singleton _
    | cons p ps =>
      refine .cons_cons ?_ h.apart
      intro hw
      rw [hlexeme] at hw
      exact h.gap_ne_nil hbegins (hs hw) p rfl

theorem Decomposable.skip {filler : List Char} (h : Decomposable (before ++ filler) text ts)
    (hf : ∀ g rest, g ++ rest = text → Gap rest g → Gap rest (filler ++ g)) (hne : filler ≠ []) :
    Decomposable before (filler ++ text) ts := by
  obtain ⟨pieces, last, h, -⟩ := h
  cases pieces with
  | nil =>
    have htext : text = last := h.text_eq
    refine ⟨[], filler ++ last, ⟨h.tokens_eq, by simp [htext], ?_, by simp, .nil⟩, by simp⟩
    exact hf last [] (by simp [htext]) h.gap_last
  | cons p ps =>
    refine ⟨⟨filler ++ p.gap, p.token⟩ :: ps, last,
      ⟨h.tokens_eq, ?_, h.gap_last, ?_, ?_⟩, by simp [hne]⟩
    · simp [Piece.chars, Piece.lexeme, h.text_eq]
    · intro front r back heq
      cases front with
      | nil =>
        obtain ⟨rfl, rfl⟩ := List.cons.inj heq
        have hfits := h.fits [] p ps rfl
        refine ⟨hf p.gap _ ?_ hfits.gap, hfits.lexeme, ?_⟩
        · simp [h.text_eq, Piece.chars, Piece.lexeme]
        · simpa using hfits.line_eq
      | cons first front =>
        obtain ⟨rfl, rfl⟩ := List.cons.inj heq
        simpa [Piece.chars, Piece.lexeme] using h.fits (p :: front) r back rfl
    · cases ps with
      | nil => exact .singleton _
      | cons r rs =>
        cases h.apart with
        | cons_cons hpr hrs => exact .cons_cons hpr hrs

theorem decomposable_of_lexes (h : Lexes line text ts) (before : List Char)
    (hl : line = 1 + before.count '\n') : Decomposable before text ts := by
  induction h generalizing before with
  | nil => exact ⟨[], [], ⟨rfl, rfl, .nil, by simp, .nil⟩, by simp⟩
  | @blank line c rest ts hc h ih =>
    have hline : nextLine line c = 1 + (before ++ [c]).count '\n' := by
      have hnext := nextLine_add_count line c []
      simp only [List.count_nil, List.count_append] at hnext ⊢
      omega
    refine (ih _ hline).skip ?_ (List.cons_ne_nil c [])
    intro g more _ hg
    exact .blank (by simpa [isBlank] using hc) hg
  | @lineComment line body rest ts hb hr h ih =>
    have hline : line = 1 + (before ++ '/' :: '/' :: body).count '\n' := by
      simp [hl, List.count_eq_zero.2 hb]
    refine (ih _ hline).skip ?_ (List.cons_ne_nil _ _)
    rintro g more rfl hg
    exact .lineComment hb hr hg
  | @blockComment line body rest ts hb h ih =>
    have hline : line + body.count '\n' =
        1 + (before ++ ('/' :: '*' :: body ++ ['*', '/'])).count '\n' := by
      simp [hl]
      omega
    have hskip := (ih _ hline).skip ?_ (List.cons_ne_nil _ _)
    · simpa using hskip
    · intro g more _ hg
      simpa using Gap.blockComment hb hg
  | @openComment line body hb =>
    exact ⟨[], '/' :: '*' :: body, ⟨rfl, rfl, .openComment hb rfl, by simp, .nil⟩, by simp⟩
  | @delimiter line c rest ts hc h ih =>
    have hv : IsLexeme rest [c] := .delimiter (by simpa [isDelimiter] using hc)
    refine (ih _ (hv.line_eq hl)).cons hv hl ?_ ?_
    · intro hw
      have hends := hw.plain c (by simp)
      simp [endsWord, hc] at hends
    · intro hbegins
      obtain rfl := (commentBegins_cons.1 hbegins).1
      cases hc
  | @literal line q v rest ts hv h ih =>
    have hlit : IsLexeme rest (q.char :: v) := .literal (isLiteral_of_tail hv)
    refine (ih _ (hlit.line_eq hl)).cons hlit hl ?_ ?_
    · intro hw
      have hends := hw.plain q.char (by simp)
      cases q <;> cases hends
    · intro hbegins
      have hslash := (commentBegins_cons.1 hbegins).1
      cases q <;> cases hslash
  | @word line c v rest ts hv h ih =>
    have hword : IsLexeme rest (c :: v) := .word (isWord_of_tail hv)
    refine (ih _ (hword.line_eq hl)).cons hword hl (fun _ ↦ stops_of_wordTail hv) ?_
    cases hv with
    | more hc hn hv => exact hn

theorem decomposable_tokenize (text : String) : Decomposable [] text.toList (tokenize text) :=
  decomposable_of_lexes (lexes_tokenize text) [] (by simp)

end Token

/-- The lexer loses nothing: the tokens and the gaps between them make up the text. Each token is a
delimiter, a literal or a word, on the line that the newlines before it give; two words in
succession have a gap between them. -/
theorem tokenize_decomposes (text : String) :
    ∃ pieces last, Token.Decomposes [] text.toList (tokenize text) pieces last := by
  have hlexes := Lexer.lexes_tokenize text
  obtain ⟨pieces, last, h, -⟩ := Token.decomposable_of_lexes hlexes [] (by simp)
  exact ⟨pieces, last, h⟩

end SchemaOutline
