import SchemaOutline.Token.Lexer
import Mathlib.Data.List.Basic

namespace SchemaOutline

namespace Lexer

def Descends (line : Int) (tokens : List Token) : Prop :=
  (line :: tokens.map Token.line ++ [1]).Pairwise (· ≥ ·)

theorem Descends.emit {s : State} (h : Descends s.line s.tokens) (lexemes : List String) :
    Descends s.line (s.emit lexemes) := by
  unfold State.emit
  generalize s.tokens = ts at h ⊢
  induction lexemes generalizing ts with
  | nil => exact h
  | cons v vs ih =>
    apply ih
    -- The lexeme is on the line that all lines before are compared with.
    refine List.pairwise_cons.2 ⟨fun x hx ↦ ?_, h⟩
    obtain rfl | hx := List.mem_cons.1 hx
    · exact Int.le_refl _
    · exact (List.pairwise_cons.1 h).1 x hx

theorem Descends.mono {line line' : Int} {tokens : List Token} (h : Descends line tokens)
    (hl : line ≤ line') : Descends line' tokens := by
  obtain ⟨ha, ht⟩ := List.pairwise_cons.1 h
  exact List.pairwise_cons.2 ⟨fun x hx ↦ Int.le_trans (ha x hx) hl, ht⟩

theorem Descends.read {s : State} (h : Descends s.line s.tokens) (c : Char) :
    Descends (s.read c).line (s.read c).tokens := by
  refine (h.emit (s.mode.read c).2).mono ?_
  simp only [State.read]
  split_ifs <;> omega

theorem Descends.foldl {s : State} (h : Descends s.line s.tokens) (cs : List Char) :
    Descends (cs.foldl State.read s).line (cs.foldl State.read s).tokens := by
  induction cs generalizing s with
  | nil => exact h
  | cons c cs ih => exact ih (h.read c)

theorem line_foldl (s : State) (cs : List Char) :
    (cs.foldl State.read s).line = s.line + cs.count '\n' := by
  induction cs generalizing s with
  | nil => simp
  | cons c cs ih =>
    rw [List.foldl_cons, ih, List.count_cons]
    by_cases hc : c = '\n' <;> simp [State.read, hc]
    omega

end Lexer

/-- The lines of the tokens never fall, from the first line of the text to its last. -/
theorem pairwise_tokenize (text : String) :
    (1 :: (tokenize text).map Token.line ++ [1 + (text.toList.count '\n' : Int)]).Pairwise
      (· ≤ ·) := by
  have h : Lexer.Descends ({} : Lexer.State).line ({} : Lexer.State).tokens := by
    simp [Lexer.Descends]
  have hend := (h.foldl text.toList).emit (text.toList.foldl Lexer.State.read {}).mode.finish
  rw [Lexer.line_foldl] at hend
  have hrev := List.pairwise_reverse.2 hend
  simpa [tokenize, Lexer.State.finish] using hrev

end SchemaOutline
