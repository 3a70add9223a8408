import SchemaOutline.Token.Lexer
import Mathlib.Data.List.Infix
import Mathlib.Data.List.TakeWhile

namespace SchemaOutline

namespace Token

variable {c : Char}

theorem isBlank_of_isDelimiter (h : isDelimiter c = true) : isBlank c = false := by
  have hall : delimiters.all (!isBlank ·) = true := rfl
  have hc : c ∈ delimiters := by simpa [isDelimiter] using h
  simpa using List.all_eq_true.1 hall c hc

theorem ne_newline_of_isBlank (h : isBlank c = false) : c ≠ '\n' := by
  rintro rfl
  cases h

theorem ne_newline_of_endsWord (h : endsWord c = false) : c ≠ '\n' := by
  rintro rfl
  cases h

namespace Quote

theorem of?_char (q : Quote) : of? q.char = some q := by cases q <;> rfl

theorem char_ne_newline (q : Quote) : q.char ≠ '\n' := by cases q <;> decide

theorem char_ne_backslash (q : Quote) : q.char ≠ '\\' := by cases q <;> decide

theorem eq_char_of_of? {q : Quote} (h : of? c = some q) : c = q.char := by
  unfold of? at h
  split_ifs at h with hs hd
  · rw [hs, ← Option.some.inj h]
  · rw [hd, ← Option.some.inj h]

end Quote

end Token

namespace Lexer

open Token

def nextLine (line : Int) (c : Char) : Int := if c = '\n' then line + 1 else line

theorem nextLine_of_ne {c : Char} (hc : c ≠ '\n') (line : Int) : nextLine line c = line :=
  if_neg hc

def tokensFrom (mode : Mode) (line : Int) (cs : List Char) : List Token :=
  (cs.foldl State.read { mode, line }).finish

theorem State.emit_eq (s : State) (lexemes : List String) :
    s.emit lexemes = (lexemes.map (Token.mk · s.line)).reverse ++ s.tokens := by
  unfold emit
  generalize s.tokens = ts
  induction lexemes generalizing ts with
  | nil => rfl
  | cons v vs ih => simp [ih]

theorem finish_foldl (s : State) (cs : List Char) :
    (cs.foldl State.read s).finish = s.tokens.reverse ++ tokensFrom s.mode s.line cs := by
  induction cs generalizing s with
  | nil => simp [tokensFrom, State.finish, State.emit_eq]
  | cons c cs ih =>
    have h := ih (s.read c)
    have h' := ih (State.read { mode := s.mode, line := s.line } c)
    simp only [tokensFrom, List.foldl_cons] at h h' ⊢
    rw [h, h']
    simp [State.read, State.emit_eq]

theorem tokensFrom_nil (mode : Mode) (line : Int) :
    tokensFrom mode line [] = mode.finish.map (Token.mk · line) := by
  simp [tokensFrom, State.finish, State.emit_eq]

theorem tokensFrom_cons (mode : Mode) (line : Int) (c : Char) (cs : List Char) :
    tokensFrom mode line (c :: cs) =
      (mode.read c).2.map (Token.mk · line) ++
        tokensFrom (mode.read c).1 (nextLine line c) cs := by
  have h := finish_foldl (State.read { mode, line } c) cs
  simpa [tokensFrom, State.read, State.emit_eq, nextLine] using h

def LineEnds (rest : List Char) : Prop := ∀ c ∈ rest.head?, c = '\n'

def CommentBegins (cs : List Char) : Prop := ['/', '/'] <+: cs ∨ ['/', '*'] <+: cs

/-- A literal behind its opening quote, when `rest` follows it: up to the first quote that no
backslash escapes or, if there is none on the line, to the end of the line. -/
inductive LiteralTail (q : Quote) (rest : List Char) : List Char → Prop
  | closed : LiteralTail q rest [q.char]
  | cut (hr : LineEnds rest) : LiteralTail q rest []
  | cutEscape (hr : LineEnds rest) : LiteralTail q rest ['\\']
  | plain {c : Char} {v : List Char} (hq : c ≠ q.char) (hb : c ≠ '\\') (hn : c ≠ '\n')
      (h : LiteralTail q rest v) : LiteralTail q rest (c :: v)
  | escaped {c : Char} {v : List Char} (hn : c ≠ '\n') (h : LiteralTail q rest v) :
      LiteralTail q rest ('\\' :: c :: v)

/-- The rest of a word, as long as it can be: no comment begins in it, and `rest` does not go on
with it. -/
inductive WordTail (rest : List Char) : List Char → Prop
  | stop (hr : ∀ c ∈ rest.head?, endsWord c = true ∨ CommentBegins rest) : WordTail rest []
  | more {c : Char} {v : List Char} (hc : endsWord c = false)
      (hn : ¬ CommentBegins (c :: v ++ rest)) (h : WordTail rest v) : WordTail rest (c :: v)

/-- The tokens of a text that begins on `line`, one blank, comment or lexeme after another. -/
inductive Lexes : Int → List Char → List Token → Prop
  | nil {line : Int} : Lexes line [] []
  | blank {line : Int} {c : Char} {rest : List Char} {ts : List Token} (hc : isBlank c = true)
      (h : Lexes (nextLine line c) rest ts) : Lexes line (c :: rest) ts
  | lineComment {line : Int} {body rest : List Char} {ts : List Token} (hb : '\n' ∉ body)
      (hr : LineEnds rest) (h : Lexes line rest ts) : Lexes line ('/' :: '/' :: body ++ rest) ts
  | blockComment {line : Int} {body rest : List Char} {ts : List Token}
      (hb : ¬ ['*', '/'] <:+: body ++ ['*']) (h : Lexes (line + body.count '\n') rest ts) :
      Lexes line ('/' :: '*' :: body ++ '*' :: '/' :: rest) ts
  | openComment {line : Int} {body : List Char} (hb : ¬ ['*', '/'] <:+: body) :
      Lexes line ('/' :: '*' :: body) []
  | delimiter {line : Int} {c : Char} {rest : List Char} {ts : List Token}
      (hc : isDelimiter c = true) (h : Lexes line rest ts) :
      Lexes line (c :: rest) (⟨c.toString, line⟩ :: ts)
  | literal {line : Int} {q : Quote} {v rest : List Char} {ts : List Token}
      (hv : LiteralTail q rest v) (h : Lexes line rest ts) :
      Lexes line (q.char :: v ++ rest) (⟨String.ofList (q.char :: v), line⟩ :: ts)
  | word {line : Int} {c : Char} {v rest : List Char} {ts : List Token}
      (hv : WordTail rest (c :: v)) (h : Lexes line rest ts) :
      Lexes line (c :: v ++ rest) (⟨String.ofList (c :: v), line⟩ :: ts)

variable {line : Int} {c : Char} {q : Quote} {w v rest cs : List Char}

theorem ofList_cons_ne_empty (c : Char) (v : List Char) : String.ofList (c :: v) ≠ "" := by
  intro h
  have hchars := congrArg String.toList h
  simp at hchars

theorem Lexes.value_ne_empty {ts : List Token} (h : Lexes line cs ts) :
    ∀ t ∈ ts, t.value ≠ "" := by
  induction h with
  | nil => exact nofun
  | blank hc h ih => exact ih
  | lineComment hb hr h ih => exact ih
  | blockComment hb h ih => exact ih
  | openComment hb => exact nofun
  | @delimiter line c rest ts hc h ih =>
    exact List.forall_mem_cons.2 ⟨ofList_cons_ne_empty c [], ih⟩
  | literal hv h ih => exact List.forall_mem_cons.2 ⟨ofList_cons_ne_empty _ _, ih⟩
  | word hv h ih => exact List.forall_mem_cons.2 ⟨ofList_cons_ne_empty _ _, ih⟩

theorem tokensFrom_gap_blank (hc : isBlank c = true) :
    tokensFrom .gap line (c :: cs) = tokensFrom .gap (nextLine line c) cs := by
  simp [tokensFrom_cons, Mode.read, Mode.start, hc]

theorem tokensFrom_gap_delimiter (hc : isDelimiter c = true) :
    tokensFrom .gap line (c :: cs) = ⟨c.toString, line⟩ :: tokensFrom .gap line cs := by
  have hb := isBlank_of_isDelimiter hc
  simp [tokensFrom_cons, Mode.read, Mode.start, hc, hb, nextLine_of_ne (ne_newline_of_isBlank hb)]

theorem tokensFrom_gap_quote (q : Quote) :
    tokensFrom .gap line (q.char :: cs) = tokensFrom (.literal q [q.char]) line cs := by
  have hb : isBlank q.char = false := by cases q <;> rfl
  have hd : isDelimiter q.char = false := by cases q <;> rfl
  simp [tokensFrom_cons, Mode.read, Mode.start, hb, hd, Quote.of?_char,
    nextLine_of_ne q.char_ne_newline]

theorem tokensFrom_literal_of_lineEnds (hr : LineEnds rest) :
    tokensFrom (.literal q w) line rest = ⟨spell w, line⟩ :: tokensFrom .gap line rest ∧
    tokensFrom (.escape q w) line rest = ⟨spell w, line⟩ :: tokensFrom .gap line rest := by
  cases rest with
  | nil => simp [tokensFrom_nil, Mode.finish]
  | cons c cs =>
    obtain rfl : c = '\n' := hr c rfl
    rw [tokensFrom_gap_blank rfl]
    simp [tokensFrom_cons, Mode.read, q.char_ne_newline.symm]

theorem LiteralTail.tokensFrom_eq (h : LiteralTail q rest v) (w : List Char) :
    tokensFrom (.literal q w) line (v ++ rest) =
      ⟨spell (v.reverse ++ w), line⟩ :: tokensFrom .gap line rest := by
  induction h generalizing w with
  | closed => simp [tokensFrom_cons, Mode.read, nextLine_of_ne q.char_ne_newline]
  | cut hr => exact (tokensFrom_literal_of_lineEnds hr).1
  | cutEscape hr =>
    have hlast : tokensFrom (.escape q ('\\' :: w)) line rest =
        ⟨spell ('\\' :: w), line⟩ :: tokensFrom .gap line rest :=
      (tokensFrom_literal_of_lineEnds hr).2
    simpa [tokensFrom_cons, Mode.read, q.char_ne_backslash.symm, nextLine] using hlast
  | plain hq hb hn h ih =>
    simpa [tokensFrom_cons, Mode.read, hq, hb, hn, nextLine_of_ne hn] using ih (_ :: w)
  | escaped hn h ih =>
    simpa [tokensFrom_cons, Mode.read, q.char_ne_backslash.symm, hn, nextLine_of_ne hn, nextLine]
      using ih (_ :: '\\' :: w)

theorem commentBegins_cons :
    CommentBegins (c :: cs) ↔ c = '/' ∧ (cs.head? = some '/' ∨ cs.head? = some '*') := by
  cases cs with
  | nil => simp [CommentBegins]
  | cons d ds =>
    simp only [CommentBegins, List.cons_prefix_cons, List.nil_prefix, and_true, List.head?_cons,
      Option.some.injEq]
    constructor
    · rintro (⟨rfl, rfl⟩ | ⟨rfl, rfl⟩) <;> simp
    · rintro ⟨rfl, rfl | rfl⟩ <;> simp

theorem tokensFrom_gap_slash :
    tokensFrom .gap line ('/' :: cs) = tokensFrom (.slash []) line cs := rfl

theorem tokensFrom_slash_lineComment :
    tokensFrom (.slash w) line ('/' :: cs) =
      (spell? w).map (Token.mk · line) ++ tokensFrom .lineComment line cs :=
  tokensFrom_cons _ _ _ _

theorem tokensFrom_slash_blockComment :
    tokensFrom (.slash w) line ('*' :: cs) =
      (spell? w).map (Token.mk · line) ++ tokensFrom .blockComment line cs :=
  tokensFrom_cons _ _ _ _

theorem tokensFrom_slash (hn : ¬ CommentBegins ('/' :: cs)) :
    tokensFrom (.slash w) line cs = tokensFrom (.word ('/' :: w)) line cs := by
  cases cs with
  | nil => rfl
  | cons c cs =>
    have hc : c ≠ '/' ∧ c ≠ '*' := by simpa [commentBegins_cons] using hn
    simp [tokensFrom_cons, Mode.read, hc]

theorem tokensFrom_gap_word (hc : endsWord c = false) (hn : ¬ CommentBegins (c :: cs)) :
    tokensFrom .gap line (c :: cs) = tokensFrom (.word [c]) line cs := by
  have hline := nextLine_of_ne (ne_newline_of_endsWord hc) line
  simp only [endsWord, isQuote, Bool.or_eq_false_iff] at hc
  obtain ⟨⟨hb, hd⟩, hq⟩ := hc
  have hq : Quote.of? c = none := by simpa using hq
  by_cases hs : c = '/'
  · subst hs
    rw [← tokensFrom_slash hn]
    simp [tokensFrom_cons, Mode.read, Mode.start, hb, hd, hq, hline]
  · simp [tokensFrom_cons, Mode.read, Mode.start, hb, hd, hq, hs, hline]

theorem tokensFrom_word_more (hc : endsWord c = false) (hn : ¬ CommentBegins (c :: cs)) :
    tokensFrom (.word w) line (c :: cs) = tokensFrom (.word (c :: w)) line cs := by
  have hline := nextLine_of_ne (ne_newline_of_endsWord hc) line
  by_cases hs : c = '/'
  · subst hs
    rw [← tokensFrom_slash hn]
    simp [tokensFrom_cons, Mode.read, hline]
  · simp [tokensFrom_cons, Mode.read, hc, hs, hline]

theorem tokensFrom_word_stop (hw : w ≠ [])
    (hr : ∀ c ∈ rest.head?, endsWord c = true ∨ CommentBegins rest) :
    tokensFrom (.word w) line rest = ⟨spell w, line⟩ :: tokensFrom .gap line rest := by
  cases rest with
  | nil => rfl
  | cons c cs =>
    obtain hc | hc := hr c rfl
    · have hs : c ≠ '/' := by
        rintro rfl
        cases hc
      simp [tokensFrom_cons, Mode.read, hc, hs]
    · obtain ⟨rfl, hd⟩ := commentBegins_cons.1 hc
      cases cs with
      | nil => simp at hd
      | cons d ds =>
        have hspell : spell? w = [spell w] := by simp [spell?, hw]
        have hslash : tokensFrom (.word w) line ('/' :: d :: ds) =
            tokensFrom (.slash w) line (d :: ds) := rfl
        rw [hslash, tokensFrom_gap_slash]
        -- Both runs enter the comment; only the first one has a word to complete.
        obtain rfl | rfl : d = '/' ∨ d = '*' := by simpa using hd
        · rw [tokensFrom_slash_lineComment, tokensFrom_slash_lineComment, hspell]
          rfl
        · rw [tokensFrom_slash_blockComment, tokensFrom_slash_blockComment, hspell]
          rfl

theorem WordTail.tokensFrom_eq (h : WordTail rest v) (hw : w ≠ []) :
    tokensFrom (.word w) line (v ++ rest) =
      ⟨spell (v.reverse ++ w), line⟩ :: tokensFrom .gap line rest := by
  induction h generalizing w with
  | stop hr => exact tokensFrom_word_stop hw hr
  | @more c v hc hn h ih =>
    have hmore : tokensFrom (.word w) line (c :: (v ++ rest)) =
        tokensFrom (.word (c :: w)) line (v ++ rest) := tokensFrom_word_more hc hn
    rw [List.cons_append, hmore, ih (List.cons_ne_nil c w)]
    simp

theorem tokensFrom_lineComment {body : List Char} (hb : '\n' ∉ body) (hr : LineEnds rest) :
    tokensFrom .lineComment line (body ++ rest) = tokensFrom .gap line rest := by
  induction body with
  | nil =>
    cases rest with
    | nil => rfl
    | cons c cs =>
      obtain rfl : c = '\n' := hr c rfl
      rfl
  | cons c body ih =>
    obtain ⟨hc, hb⟩ : '\n' ≠ c ∧ '\n' ∉ body := by simpa using hb
    simpa [tokensFrom_cons, Mode.read, Ne.symm hc, nextLine_of_ne (Ne.symm hc)] using ih hb

theorem tokensFrom_blockComment_more (hn : ¬ ['*', '/'] <+: c :: cs) :
    tokensFrom .blockComment line (c :: cs) = tokensFrom .blockComment (nextLine line c) cs := by
  by_cases hc : c = '*'
  · subst hc
    cases cs with
    | nil => rfl
    | cons d ds =>
      have hd : d ≠ '/' := by
        rintro rfl
        exact hn ⟨ds, rfl⟩
      simp [tokensFrom_cons, Mode.read, hd]
  · simp [tokensFrom_cons, Mode.read, hc]

theorem nextLine_add_count (line : Int) (c : Char) (cs : List Char) :
    nextLine line c + cs.count '\n' = line + (c :: cs).count '\n' := by
  by_cases hc : c = '\n'
  · subst hc
    simp [nextLine]
    omega
  · simp [nextLine_of_ne hc, hc]

theorem tokensFrom_blockComment {body : List Char} (hb : ¬ ['*', '/'] <:+: body ++ ['*']) :
    tokensFrom .blockComment line (body ++ '*' :: '/' :: rest) =
      tokensFrom .gap (line + body.count '\n') rest := by
  induction body generalizing line with
  | nil =>
    have hclosed : tokensFrom .blockComment line ('*' :: '/' :: rest) =
        tokensFrom .gap line rest := rfl
    simpa using hclosed
  | cons c body ih =>
    rw [List.cons_append, List.infix_cons_iff, not_or] at hb
    have hn : ¬ ['*', '/'] <+: c :: (body ++ '*' :: '/' :: rest) := by
      intro h
      apply hb.1
      cases body with
      | nil => simp at h
      | cons d body => simpa using h
    rw [List.cons_append, tokensFrom_blockComment_more hn, ih hb.2, nextLine_add_count]

theorem tokensFrom_openComment {body : List Char} (hb : ¬ ['*', '/'] <:+: body) :
    tokensFrom .blockComment line body = [] := by
  induction body generalizing line with
  | nil => rfl
  | cons c body ih =>
    rw [List.infix_cons_iff, not_or] at hb
    rw [tokensFrom_blockComment_more hb.1, ih hb.2]

theorem Lexes.tokensFrom_eq {ts : List Token} (h : Lexes line cs ts) :
    tokensFrom .gap line cs = ts := by
  induction h with
  | nil => rfl
  | blank hc h ih => rw [tokensFrom_gap_blank hc, ih]
  | lineComment hb hr h ih =>
    rw [List.cons_append, List.cons_append, tokensFrom_gap_slash, tokensFrom_slash_lineComment,
      tokensFrom_lineComment hb hr, ih]
    rfl
  | blockComment hb h ih =>
    rw [List.cons_append, List.cons_append, tokensFrom_gap_slash, tokensFrom_slash_blockComment,
      tokensFrom_blockComment hb, ih]
    rfl
  | openComment hb =>
    rw [tokensFrom_gap_slash, tokensFrom_slash_blockComment, tokensFrom_openComment hb]
    rfl
  | delimiter hc h ih => rw [tokensFrom_gap_delimiter hc, ih]
  | literal hv h ih =>
    rw [List.cons_append, tokensFrom_gap_quote, hv.tokensFrom_eq, ih]
    simp [spell]
  | @word line c v rest ts hv h ih =>
    cases hv with
    | more hc hn hv =>
      have hfirst : tokensFrom .gap line (c :: (v ++ rest)) =
          tokensFrom (.word [c]) line (v ++ rest) := tokensFrom_gap_word hc hn
      rw [List.cons_append, hfirst, hv.tokensFrom_eq (List.cons_ne_nil c []), ih]
      simp [spell]

theorem exists_literalTail (q : Quote) (cs : List Char) :
    ∃ v rest, cs = v ++ rest ∧ LiteralTail q rest v := by
  -- An escape takes two characters, so the induction is on the length.
  induction hn : cs.length using Nat.strong_induction_on generalizing cs with
  | _ n ih =>
    rcases cs with _ | ⟨c, cs⟩
    · exact ⟨[], [], rfl, .cut (by simp [LineEnds])⟩
    by_cases hq : c = q.char
    · exact ⟨[c], cs, rfl, hq ▸ .closed⟩
    by_cases hl : c = '\n'
    · exact ⟨[], c :: cs, rfl, .cut (by simp [LineEnds, hl])⟩
    by_cases hb : c = '\\'
    · subst hb
      rcases cs with _ | ⟨d, ds⟩
      · exact ⟨['\\'], [], rfl, .cutEscape (by simp [LineEnds])⟩
      by_cases hd : d = '\n'
      · exact ⟨['\\'], d :: ds, rfl, .cutEscape (by simp [LineEnds, hd])⟩
      · have hlt : ds.length < n := by
          rw [← hn, List.length_cons, List.length_cons]
          omega
        obtain ⟨v, rest, rfl, hv⟩ := ih ds.length hlt ds rfl
        exact ⟨'\\' :: d :: v, rest, rfl, .escaped hd hv⟩
    · obtain ⟨v, rest, rfl, hv⟩ := ih cs.length (by simp [← hn]) cs rfl
      exact ⟨c :: v, rest, rfl, .plain hq hb hl hv⟩

theorem exists_wordTail (cs : List Char) : ∃ v rest, cs = v ++ rest ∧ WordTail rest v := by
  induction cs with
  | nil => exact ⟨[], [], rfl, .stop (by simp)⟩
  | cons c cs ih =>
    by_cases hs : endsWord c = true ∨ CommentBegins (c :: cs)
    · refine ⟨[], c :: cs, rfl, .stop ?_⟩
      intro d hd
      obtain rfl : c = d := by simpa using hd
      exact hs
    · push Not at hs
      obtain ⟨v, rest, rfl, hv⟩ := ih
      exact ⟨c :: v, rest, rfl, .more (by simpa using hs.1) hs.2 hv⟩

theorem exists_lineComment (cs : List Char) :
    ∃ body rest, cs = body ++ rest ∧ '\n' ∉ body ∧ LineEnds rest := by
  refine ⟨cs.takeWhile (· ≠ '\n'), cs.dropWhile (· ≠ '\n'),
    List.takeWhile_append_dropWhile.symm, fun h ↦ ?_, fun c hc ↦ ?_⟩
  · simpa using List.mem_takeWhile_imp h
  · have hnot := List.head?_dropWhile_not (· ≠ '\n') cs
    rw [Option.mem_def.1 hc] at hnot
    simpa using hnot

theorem exists_blockComment (cs : List Char) :
    (∃ body rest, cs = body ++ '*' :: '/' :: rest ∧ ¬ ['*', '/'] <:+: body ++ ['*']) ∨
      ¬ ['*', '/'] <:+: cs := by
  induction cs with
  | nil => exact .inr (by simp)
  | cons c cs ih =>
    by_cases hc : ['*', '/'] <+: c :: cs
    · obtain ⟨rest, hrest⟩ := hc
      exact .inl ⟨[], rest, hrest.symm, by simp [List.infix_cons_iff]⟩
    obtain ⟨body, rest, rfl, hb⟩ | hb := ih
    · refine .inl ⟨c :: body, rest, rfl, ?_⟩
      rw [List.cons_append, List.infix_cons_iff, not_or]
      refine ⟨fun h ↦ hc ?_, hb⟩
      have hshort : c :: (body ++ ['*']) <+: c :: (body ++ '*' :: '/' :: rest) := by simp
      exact h.trans hshort
    · exact .inr (by rw [List.infix_cons_iff, not_or]; exact ⟨hc, hb⟩)

theorem exists_lexes (line : Int) (cs : List Char) : ∃ ts, Lexes line cs ts := by
  induction hn : cs.length using Nat.strong_induction_on generalizing line cs with
  | _ n ih =>
    rcases cs with _ | ⟨c, cs⟩
    · exact ⟨[], .nil⟩
    have hrest : ∀ rest : List Char, rest.length ≤ cs.length →
        ∀ line, ∃ ts, Lexes line rest ts := by
      intro rest hlen line
      exact ih rest.length (by simp [← hn]; omega) line rest rfl
    by_cases hb : isBlank c = true
    · obtain ⟨ts, h⟩ := hrest cs le_rfl (nextLine line c)
      exact ⟨ts, .blank hb h⟩
    by_cases hd : isDelimiter c = true
    · obtain ⟨ts, h⟩ := hrest cs le_rfl line
      exact ⟨_, .delimiter hd h⟩
    cases hq : Quote.of? c with
    | some q =>
      obtain rfl := Quote.eq_char_of_of? hq
      obtain ⟨v, rest, rfl, hv⟩ := exists_literalTail q cs
      obtain ⟨ts, h⟩ := hrest rest (by simp) line
      exact ⟨_, .literal hv h⟩
    | none =>
      have hw : endsWord c = false := by simp [endsWord, isQuote, hb, hd, hq]
      by_cases hc : CommentBegins (c :: cs)
      · obtain ⟨ds, hds⟩ | ⟨ds, hds⟩ := hc
        · obtain ⟨rfl, rfl⟩ : '/' = c ∧ '/' :: ds = cs := by simpa using hds
          obtain ⟨body, rest, rfl, hbody, hend⟩ := exists_lineComment ds
          obtain ⟨ts, h⟩ := hrest rest (by simp; omega) line
          exact ⟨ts, .lineComment hbody hend h⟩
        · obtain ⟨rfl, rfl⟩ : '/' = c ∧ '*' :: ds = cs := by simpa using hds
          obtain ⟨body, rest, rfl, hbody⟩ | hbody := exists_blockComment ds
          · obtain ⟨ts, h⟩ := hrest rest (by simp; omega) (line + body.count '\n')
            exact ⟨ts, .blockComment hbody h⟩
          · exact ⟨[], .openComment hbody⟩
      · obtain ⟨v, rest, rfl, hv⟩ := exists_wordTail cs
        obtain ⟨ts, h⟩ := hrest rest (by simp) line
        exact ⟨_, .word (.more hw hc hv) h⟩

/-- The lexer finds the tokens of every text. -/
theorem lexes_tokenize (text : String) : Lexes 1 text.toList (tokenize text) := by
  obtain ⟨ts, h⟩ := exists_lexes 1 text.toList
  have htokens : tokenize text = ts := h.tokensFrom_eq
  rwa [htokens]

end Lexer

end SchemaOutline
