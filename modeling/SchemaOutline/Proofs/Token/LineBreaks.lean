import SchemaOutline.Proofs.Outline.Relabelling
import SchemaOutline.Proofs.Token.Lexes
import SchemaOutline.Proofs.Token.Lines

namespace SchemaOutline

namespace Lexer

open Token

namespace Mode

def inComment : Mode → Bool
  | blockComment | blockStar => true
  | _ => false

def opensComment : Mode → Bool
  | gap | word _ => true
  | _ => false

variable {mode : Mode} {c : Char} {w : List Char}

/-- A newline completes what the end of the text completes, and only a block comment goes on
behind it. -/
theorem read_newline (mode : Mode) :
    mode.read '\n' = (if mode.inComment then blockComment else gap, mode.finish) := by
  cases mode with
  | literal q w => cases q <;> rfl
  | _ => rfl

theorem read_open (h : mode.opensComment = true) :
    ((mode.read '/').1.read '*').1 = blockComment := by
  cases mode with
  | gap => rfl
  | word w => rfl
  | _ => cases h

theorem opensComment_of_read (h : (mode.read c).1 = slash w) :
    c = '/' ∧ mode.opensComment = true := by
  cases mode <;> grind [read, start, opensComment]

theorem inComment_of_read (h : (mode.read c).1.inComment = true) :
    (c = '*' ∧ ∃ w, mode = slash w) ∨ (mode.inComment = true ∧ ¬ (mode = blockStar ∧ c = '/')) := by
  cases mode <;> grind [read, start, inComment]

end Mode

def modeAfter (cs : List Char) : Mode := (cs.foldl State.read {}).mode

/-- A block comment begins in the text, and nothing closes it. -/
def EndsInComment (text : String) : Prop :=
  ∃ front body, text.toList = front ++ '/' :: '*' :: body ∧
    (modeAfter front).opensComment = true ∧ ¬ ['*', '/'] <:+: body

variable {cs front body : List Char} {c : Char}

theorem modeAfter_concat (cs : List Char) (c : Char) :
    modeAfter (cs ++ [c]) = ((modeAfter cs).read c).1 := by
  simp [modeAfter, State.read]

theorem closes_concat :
    ['*', '/'] <:+: body ++ [c] ↔
      ['*', '/'] <:+: body ∨ (body.getLast? = some '*' ∧ c = '/') := by
  have hlast : ['*', '/'] <:+ body ++ [c] ↔ body.getLast? = some '*' ∧ c = '/' := by
    rw [← List.singleton_suffix_iff_getLast?_eq_some]
    constructor
    · rintro ⟨t, ht⟩
      have hends : (t ++ ['*']) ++ ['/'] = body ++ [c] := by simpa using ht
      obtain ⟨hbody, hc⟩ := List.append_inj' hends rfl
      exact ⟨⟨t, hbody⟩, by simpa using hc.symm⟩
    · rintro ⟨⟨t, rfl⟩, rfl⟩
      exact ⟨t, by simp⟩
  rw [List.infix_concat_iff, hlast, or_comm]

theorem modeAfter_open (hf : (modeAfter front).opensComment = true)
    (hb : ¬ ['*', '/'] <:+: body) :
    modeAfter (front ++ '/' :: '*' :: body) =
      if body.getLast? = some '*' then .blockStar else .blockComment := by
  induction body using List.reverseRecOn with
  | nil =>
    have hopen : modeAfter (front ++ ['/'] ++ ['*']) = .blockComment := by
      rw [modeAfter_concat, modeAfter_concat, Mode.read_open hf]
    simpa using hopen
  | append_singleton body c ih =>
    rw [closes_concat, not_or] at hb
    have hconcat : front ++ '/' :: '*' :: (body ++ [c]) = front ++ '/' :: '*' :: body ++ [c] := by
      simp
    rw [hconcat, modeAfter_concat, ih hb.1, List.getLast?_concat]
    by_cases hstar : body.getLast? = some '*'
    · have hc : c ≠ '/' := fun hc ↦ hb.2 ⟨hstar, hc⟩
      simp [hstar, hc, Mode.read]
    · simp [hstar, Mode.read]

theorem exists_open (h : (modeAfter cs).inComment = true) :
    ∃ front body, cs = front ++ '/' :: '*' :: body ∧
      (modeAfter front).opensComment = true ∧ ¬ ['*', '/'] <:+: body := by
  induction cs using List.reverseRecOn with
  | nil => cases h
  | append_singleton cs c ih =>
    rw [modeAfter_concat] at h
    obtain ⟨rfl, w, hw⟩ | ⟨hin, hopen⟩ := Mode.inComment_of_read h
    · -- The comment begins here, with the slash that was read before.
      cases cs using List.reverseRecOn with
      | nil => cases hw
      | append_singleton front d =>
        rw [modeAfter_concat] at hw
        obtain ⟨rfl, hfront⟩ := Mode.opensComment_of_read hw
        exact ⟨front, [], by simp, hfront, by simp⟩
    · obtain ⟨front, body, rfl, hfront, hbody⟩ := ih hin
      refine ⟨front, body ++ [c], by simp, hfront, ?_⟩
      rw [closes_concat, not_or]
      refine ⟨hbody, fun hclose ↦ hopen ⟨?_, hclose.2⟩⟩
      rw [modeAfter_open hfront hbody, if_pos hclose.1]

theorem endsInComment_iff (text : String) :
    EndsInComment text ↔ (modeAfter text.toList).inComment = true := by
  refine ⟨?_, exists_open⟩
  rintro ⟨front, body, htext, hfront, hbody⟩
  rw [htext, modeAfter_open hfront hbody]
  split_ifs <;> rfl

instance (text : String) : Decidable (EndsInComment text) :=
  decidable_of_iff _ (endsInComment_iff text).symm

theorem tokensFrom_relabel (mode : Mode) (line lines : Int) (cs : List Char) :
    tokensFrom mode (line + lines) cs =
      (tokensFrom mode line cs).map (Token.relabel (· + lines)) := by
  induction cs generalizing mode line with
  | nil => simp [tokensFrom_nil, Token.relabel]
  | cons c cs ih =>
    have hnext : nextLine (line + lines) c = nextLine line c + lines := by
      unfold nextLine
      split_ifs <;> omega
    simp [tokensFrom_cons, hnext, ih, Token.relabel]

theorem State.read_newline (s : State) :
    s.read '\n' =
      ⟨if s.mode.inComment then .blockComment else .gap, s.line + 1, s.emit s.mode.finish⟩ := by
  simp [State.read, Mode.read_newline]

theorem tokenize_append_newline (before after : String) :
    tokenize (before ++ "\n" ++ after) = tokenize before ++
      (tokensFrom (if EndsInComment before then .blockComment else .gap) 1 after.toList).map
        (Token.relabel (· + (1 + (before.toList.count '\n' : Int)))) := by
  let s := before.toList.foldl State.read {}
  have hmode : (if s.mode.inComment then Mode.blockComment else .gap) =
      if EndsInComment before then .blockComment else .gap :=
    if_congr (endsInComment_iff before).symm rfl rfl
  have hline : s.line + 1 = 1 + (1 + (before.toList.count '\n' : Int)) := by
    have hs : s.line = 1 + (before.toList.count '\n' : Int) := line_foldl {} before.toList
    omega
  have htokens : s.emit s.mode.finish = (tokenize before).reverse :=
    (List.reverse_reverse _).symm
  have hrun : tokenize (before ++ "\n" ++ after) =
      (after.toList.foldl State.read (s.read '\n')).finish := by
    simp [tokenize, s]
  rw [hrun, finish_foldl, State.read_newline, hmode, hline, htokens, List.reverse_reverse,
    tokensFrom_relabel]

theorem tokenize_openComment (text : String) :
    tokenize ("/*" ++ text) = tokensFrom .blockComment 1 text.toList := by
  have hrun : tokenize ("/*" ++ text) = tokensFrom .gap 1 ('/' :: '*' :: text.toList) := by
    simp [tokenize, tokensFrom]
  rw [hrun, tokensFrom_gap_slash, tokensFrom_slash_blockComment]
  rfl

end Lexer

/-- A newline is a hard boundary between tokens: the texts on its two sides are read as each is
alone. Only an open block comment goes on behind it, and then what follows is read as if the
comment began there. -/
theorem tokenize_newline (before after : String) :
    let shift : Int → Int := (· + (1 + before.toList.count '\n'))
    (¬ Lexer.EndsInComment before →
      tokenize (before ++ "\n" ++ after) =
        tokenize before ++ (tokenize after).map (Token.relabel shift)) ∧
    (Lexer.EndsInComment before →
      tokenize (before ++ "\n" ++ after) =
        tokenize before ++ (tokenize ("/*" ++ after)).map (Token.relabel shift)) := by
  intro shift
  have happend := Lexer.tokenize_append_newline before after
  constructor
  · intro h
    have hafter : tokenize after = Lexer.tokensFrom .gap 1 after.toList := rfl
    rw [happend, if_neg h, hafter]
  · intro h
    rw [happend, if_pos h, Lexer.tokenize_openComment]

/-- A literal that is cut short behind a backslash, and a comment cut short behind a star. -/
theorem tokenize_newline_cut_short :
    let literal := "a/ /*\n*/ 'b\\"
    let comment := "c/* '\n*"
    ¬ Lexer.EndsInComment literal ∧
    tokenize (literal ++ "\n" ++ "' /**/") =
      [⟨"a/", 1⟩, ⟨"'b\\", 2⟩, ⟨"' /**/", 3⟩] ∧
    Lexer.EndsInComment comment ∧
    tokenize (comment ++ "\n" ++ "/ d */ e") = [⟨"c", 1⟩, ⟨"e", 3⟩] := by
  intro literal comment
  have hl : ¬ Lexer.EndsInComment literal := by decide
  have hc : Lexer.EndsInComment comment := by decide
  exact ⟨hl, ((tokenize_newline literal _).1 hl).trans (by decide), hc,
    ((tokenize_newline comment _).2 hc).trans (by decide)⟩

end SchemaOutline
