import SchemaOutline.Outline.Reading
import SchemaOutline.Proofs.Outline.Matching

namespace SchemaOutline

open SchemaOutline.Bracket Stack

theorem Bracket.openers_append (u v : List Bracket) :
    openers (u ++ v) = openers v ++ openers u := by
  simp [openers]

def Truncation.opened (ts : List Truncation) : List String := ts.reverse.flatMap unclosed

theorem Truncation.opened_cons (t : Truncation) (ts : List Truncation) :
    opened (t :: ts) = opened ts ++ t.unclosed := by
  simp [opened]

theorem Truncation.opened_append (ts us : List Truncation) :
    opened (ts ++ us) = opened us ++ opened ts := by
  simp [opened]

open Truncation

theorem Job.opened_truncations (line : Int) (u : List Bracket) (job : Job) :
    opened (job.truncations line u) = openers u := by
  unfold truncations
  split_ifs with h
  · -- A scan that lists nothing has nothing open.
    obtain ⟨-, rfl⟩ : job.ends = [] ∧ u = [] := by simpa using h
    rfl
  · simp [opened]

theorem Unnamed.opened_cutShort (line : Int) (u : Unnamed) : opened (u.cutShort line).1 = [] := by
  simp only [cutShort, opened_cons, Job.opened_truncations, Truncation.unnamed]
  rfl

theorem Frame.opened_cutShort (line : Int) (f : Frame) :
    opened (f.cutShort line).1 = openers f.unclosed := by
  cases f with
  | scan u job => exact job.opened_truncations line u
  | name pending => exact pending.opened_cutShort line
  | fieldType start c =>
    simp only [cutShort, opened_cons, Unnamed.opened_cutShort, Truncation.unnamed]
    rfl
  | mapType u start detail =>
    simp only [cutShort, opened_cons, Unnamed.opened_cutShort]
    rfl

/-- Each frame lists the brackets that it has opened itself, so all frames together list those of
the stack. -/
theorem Stack.opened_cutShort (line : Int) (f : Frame) (outer : List Frame) :
    opened (cutShort line f outer).1 = openers (unclosed ⟨f, outer⟩) := by
  induction outer generalizing f with
  | nil => simp [cutShort, unclosed, Frame.opened_cutShort]
  | cons g outer ih =>
    have hrest := ih (g.receive (f.cutShort line).2)
    simp only [unclosed, List.flatMap_cons, Frame.unclosed_receive] at hrest ⊢
    rw [cutShort, opened_append, hrest, Frame.opened_cutShort, ← openers_append]

namespace Reading

variable {s s' : Stack} {ts : List Token} {t : Truncation}

theorem nestAll_of_reads (h : Reads s ts s')
    (ht : ∀ t ∈ readBy Frame.takes s ts, isBracket t.value = false) :
    nestAll s.unclosed ts = .ok s'.unclosed :=
  calc
    nestAll s.unclosed ts = nestAll s.unclosed (ts.filter (isBracket ·.value)) :=
      (nestAll_filter _ _).symm
    _ = nestAll s.unclosed ((readBy (!·.takes) s ts).filter (isBracket ·.value)) := by
      rw [filter_readBy _ h ht]
    _ = nestAll s.unclosed (readBy (!·.takes) s ts) := nestAll_filter _ _
    _ = .ok s'.unclosed := nestAll_readBy h

theorem suffix_of_truncated {r : Reading} (h : r.result true = .error (.truncated t)) :
    t.unclosed <:+ opened r.truncations := by
  obtain ⟨nodes, truncations, cursor⟩ := r
  cases nodes with
  | error m => cases h
  | ok nodes =>
    cases truncations with
    | nil => cases h
    | cons u us =>
      cases h
      rw [opened_cons]
      exact List.suffix_append _ _

end Reading

/-- The truncations of a lenient reading, from the last to the first, list the brackets of the whole
schema that are never closed, when no bracket is taken for a name or a type. The fault of a strict
reading lists the innermost of them. -/
theorem truncations_unmatched (ts : List Token) (nodes : List Node)
    (h : (outlineTokens ts).result false = .ok nodes)
    (ht : ∀ t ∈ Reading.taken ts, isBracket t.value = false) :
    (outlineTokens ts).records false =
      (outlineTokens ts).truncations.map Reading.truncationRecord ++
        [Reading.successRecord nodes] ∧
    ∃ brackets, (∀ bs, Unmatched ts bs ↔ bs = brackets) ∧
      (outlineTokens ts).truncations.reverse.flatMap Truncation.unclosed =
        brackets.map opener ∧
      ∀ t, (outlineTokens ts).result true = .error (.truncated t) →
        t.unclosed <:+ brackets.map opener := by
  obtain ⟨s, hs, he⟩ := Reading.exists_reads_of_nodes (Reading.result_eq_ok_iff.1 h).1
  have hnest : nestAll [] ts = .ok s.unclosed := Reading.nestAll_of_reads hs ht
  have hopened : opened (outlineTokens ts).truncations = s.unclosed.reverse.map opener := by
    rw [he, List.map_reverse]
    exact Stack.opened_cutShort _ s.inner s.outer
  refine ⟨by simp only [Reading.records, h]; rfl, s.unclosed.reverse, unmatched_eq_iff hnest,
    hopened, ?_⟩
  intro t hstrict
  rw [← hopened]
  exact Reading.suffix_of_truncated hstrict

/-- A map type cut short in a oneof: the brackets of the type are listed first, then those of the
bodies around it. -/
theorem truncations_unmatched_in_map :
    let ts := tokenize "message A \x7b int32 x = 1 [(y) = 2]; oneof o \x7b map<B["
    (∀ t ∈ Reading.taken ts, isBracket t.value = false) ∧
    (outlineTokens ts).truncations.map Truncation.unclosed =
      [["<", "["], [], [], ["\x7b"], ["\x7b"]] ∧
    (∃ brackets, (∀ bs, Unmatched ts bs ↔ bs = brackets) ∧
      brackets.map opener = ["\x7b", "\x7b", "<", "["]) ∧
    ["<", "["] <:+ ["\x7b", "\x7b", "<", "["] := by
  intro ts
  have ht : ∀ t ∈ Reading.taken ts, isBracket t.value = false := by decide
  obtain ⟨-, brackets, hbs, hopened, hstrict⟩ := truncations_unmatched ts _ (by rfl) ht
  have hlist : ["\x7b", "\x7b", "<", "["] = brackets.map opener := hopened
  rw [hlist]
  refine ⟨ht, by rfl, ⟨brackets, hbs, rfl⟩, ?_⟩
  exact hstrict ⟨1, [">"], ["<", "["]⟩ (by rfl)

end SchemaOutline
