import SchemaOutline.Proofs.Outline.Steps
import SchemaOutline.Proofs.Text.Tabs

namespace SchemaOutline

namespace Quoted

def IsPlain (w : String) : Prop := ∀ c ∈ w.toList, ' ' ≤ c ∧ c ≤ '~' ∧ c ≠ '\'' ∧ c ≠ '\\'

instance (w : String) : Decidable (IsPlain w) := List.decidableBAll _ w.toList

def tick (w : String) : String := "'" ++ w ++ "'"

variable {w : String} {ws : List String}

theorem isHidden_of_ascii {c : Char} (hc : ' ' ≤ c ∧ c ≤ '~') : Text.isHidden c = false := by
  have hcode : 0x20 ≤ c.toNat ∧ c.toNat ≤ 0x7e := hc
  have hrest : Text.inRuns c.toNat (Text.hidden.drop 1) = false :=
    Text.inRuns_of_lt (show c.toNat < 0x7f by omega)
  have hfirst : Text.hidden = (0x0, 0x1f) :: Text.hidden.drop 1 := rfl
  rw [Text.isHidden, hfirst, Text.inRuns, hrest]
  simp
  omega

theorem text_of_isPlain (h : IsPlain w) : text w = tick w := by
  have hquote : quoteFor w = '\'' := by
    have hnone : '\'' ∉ w.toList := fun hmem ↦ (h _ hmem).2.2.1 rfl
    simp [quoteFor, hnone]
  have hescape : ∀ c ∈ w.toList, escape '\'' c = c.toString := by
    intro c hc
    obtain ⟨hlo, hhi, hne, hslash⟩ := h c hc
    have hcontrol : c ≠ '\n' ∧ c ≠ '\r' ∧ c ≠ '\t' := by
      refine ⟨?_, ?_, ?_⟩ <;> rintro rfl <;> exact absurd hlo (by decide)
    simp [escape, hne, hslash, hcontrol, isHidden_of_ascii ⟨hlo, hhi⟩]
  have hjoin : String.join (w.toList.map Char.toString) = w := by
    apply String.toList_inj.1
    simp [List.flatMap_map]
  rw [text, hquote, List.map_congr_left hescape, hjoin]
  rfl

theorem list_of_isPlain (h : ∀ w ∈ ws, IsPlain w) :
    list ws = "[" ++ ", ".intercalate (ws.map tick) ++ "]" := by
  rw [list, List.map_congr_left fun w hw ↦ text_of_isPlain (h w hw)]

theorem tuple_of_isPlain (h : ∀ w ∈ ws, IsPlain w) :
    tuple ws =
      "(" ++ ", ".intercalate (ws.map tick) ++ (if ws.length = 1 then "," else "") ++ ")" := by
  have htexts := List.map_congr_left fun w hw ↦ text_of_isPlain (h w hw)
  match ws, htexts with
  | [], _ => rfl
  | [w], htexts =>
    obtain ⟨hw, -⟩ := List.cons.inj htexts
    simp [tuple, hw, String.append_assoc]
  | v :: w :: ws, htexts =>
    rw [tuple, htexts]
    · simp
    · simp

end Quoted

section Words

def Truncation.Worded (t : Truncation) : Prop := ∀ w ∈ t.expected ++ t.unclosed, Quoted.IsPlain w

def Job.Worded (job : Job) : Prop := ∀ w ∈ job.ends, w = ";" ∨ w = "\x7d"

def Frame.Worded : Frame → Prop
  | scan _ job => job.Worded
  | name _ | fieldType .. | mapType .. => True

def Frame.Move.Worded : Frame.Move → Prop
  | go f => f.Worded
  | push f inner => f.Worded ∧ inner.Worded
  | pop _ => True

variable {f : Frame} {line : Int}

theorem Unnamed.worded_named (u : Unnamed) (name : String) (line : Int) :
    (u.named name line).Worded := by
  unfold named
  split
  · simp [Job.Worded, Job.ends]
  · simp [Job.Worded, Job.ends]
  · split_ifs <;> simp [Job.Worded, Job.ends]

theorem Frame.Worded.receive (h : f.Worded) (nodes : List Node) : (f.receive nodes).Worded := by
  cases f with
  | scan u job => cases job <;> exact h
  | _ => trivial

theorem Frame.worded_ofField (inEnum : Bool) (v : String) (start : Int) :
    (ofField inEnum v start).Worded := by
  unfold ofField
  split_ifs
  · trivial
  · simp [Worded, Job.Worded, Job.ends]
  · split <;> trivial

theorem Frame.worded_ofToken? {c : Option Bool} {v : String} {start : Int}
    (h : ofToken? c v start = some f) : f.Worded := by
  obtain ⟨word, -, rfl⟩ | ⟨-, rfl⟩ | ⟨e, rfl | rfl, rfl⟩ | ⟨inEnum, -, rfl⟩ := ofToken?_cases h
  · trivial
  · trivial
  · simp [Worded, Job.Worded, Job.ends]
  · simp [Worded, Job.Worded, Job.ends]
  · exact worded_ofField inEnum v start

theorem Frame.Effect.worded {t : Token} {m : Frame.Move} (he : Frame.Effect t f m)
    (h : f.Worded) : m.Worded := by
  cases he with
  | named pending => exact pending.worded_named t.value t.line
  | typed start c => trivial
  | mapped hn =>
    unfold visitMap
    dsimp only
    split_ifs <;> trivial
  | begins hc hi => exact ⟨h, worded_ofToken? hi⟩
  | @stays u v job hn hc he =>
    intro w hw
    rw [Job.ends_grow] at hw
    exact h w hw
  | ends hn hc he => trivial

def Stack.Worded (s : Stack) : Prop := ∀ f ∈ s.inner :: s.outer, f.Worded

theorem Stack.Worded.read {s s' : Stack} {t : Token} (h : s.Worded)
    (hr : s.read t = .ok (.more s')) : s'.Worded := by
  obtain ⟨inner, outer⟩ := s
  obtain ⟨hinner, houter⟩ := List.forall_mem_cons.1 h
  obtain ⟨f, he, rfl⟩ | ⟨f, g, he, rfl⟩ | ⟨nodes, f, fs, he, rfl, rfl⟩ := read_more_cases hr
  · exact List.forall_mem_cons.2 ⟨he.worded hinner, houter⟩
  · obtain ⟨hf, hg⟩ := he.worded hinner
    exact List.forall_mem_cons.2 ⟨hg, List.forall_mem_cons.2 ⟨hf, houter⟩⟩
  · obtain ⟨hf, hfs⟩ := List.forall_mem_cons.1 houter
    exact List.forall_mem_cons.2 ⟨hf.receive nodes, hfs⟩

theorem Bracket.isPlain_of_mem_openers {unclosed : List Bracket} {w : String}
    (h : w ∈ openers unclosed) : Quoted.IsPlain w := by
  obtain ⟨b, -, rfl⟩ := List.mem_map.1 (List.mem_reverse.1 h)
  cases b <;> decide

theorem Job.Worded.truncations {job : Job} (h : job.Worded) (unclosed : List Bracket) :
    ∀ t ∈ job.truncations line unclosed, t.Worded := by
  unfold Job.truncations
  split_ifs
  · simp
  · simp only [List.forall_mem_singleton]
    refine List.forall_mem_append.2 ⟨fun w hw ↦ ?_, fun w ↦ Bracket.isPlain_of_mem_openers⟩
    obtain rfl | rfl := h w hw <;> decide

theorem Truncation.worded_unnamed (line : Int) : (unnamed line).Worded := by
  simp only [Worded, unnamed]
  decide

theorem Unnamed.worded_cutShort (u : Unnamed) (line : Int) :
    ∀ t ∈ (u.cutShort line).1, t.Worded :=
  List.forall_mem_cons.2 ⟨Truncation.worded_unnamed line, (u.worded_named "" line).truncations []⟩

theorem Frame.Worded.cutShort (h : f.Worded) (line : Int) :
    ∀ t ∈ (f.cutShort line).1, t.Worded := by
  cases f with
  | scan u job => exact Job.Worded.truncations h u
  | name pending => exact pending.worded_cutShort line
  | fieldType start c =>
    exact List.forall_mem_cons.2 ⟨Truncation.worded_unnamed line, Unnamed.worded_cutShort _ line⟩
  | mapType u start detail =>
    refine List.forall_mem_cons.2 ⟨?_, Unnamed.worded_cutShort _ line⟩
    refine List.forall_mem_append.2 ⟨?_, fun w ↦ Bracket.isPlain_of_mem_openers⟩
    simp only [List.forall_mem_singleton]
    decide

theorem Stack.Worded.cutShort {outer : List Frame} (h : Stack.Worded ⟨f, outer⟩) (line : Int) :
    ∀ t ∈ (Stack.cutShort line f outer).1, t.Worded := by
  induction outer generalizing f with
  | nil => exact (h f (by simp)).cutShort line
  | cons g outer ih =>
    obtain ⟨hf, hall⟩ := List.forall_mem_cons.1 h
    obtain ⟨hg, houter⟩ := List.forall_mem_cons.1 hall
    exact List.forall_mem_append.2
      ⟨hf.cutShort line, ih (List.forall_mem_cons.2 ⟨hg.receive _, houter⟩)⟩

end Words

namespace Reading

theorem worded_of_mem_truncations {ts : List Token} {t : Truncation}
    (h : t ∈ (outlineTokens ts).truncations) : t.Worded := by
  have hroot : Stack.Worded ⟨.scan [] (.document []), []⟩ := by
    simp [Stack.Worded, Frame.Worded, Job.Worded, Job.ends]
  replace h : t ∈ (run ⟨.scan [] (.document []), []⟩ 1 ts).truncations := h
  obtain ⟨s, ⟨hs, he⟩ | ⟨before, u, after, -, -, ⟨m, -, he⟩ | ⟨nodes, -, he⟩⟩⟩ :=
    exists_reads ⟨.scan [] (.document []), []⟩ 1 ts
  · rw [he] at h
    exact (hs.invariant Stack.Worded.read hroot).cutShort _ t h
  · rw [he] at h
    cases h
  · rw [he] at h
    cases h

theorem debug_of_mem_records {r : Reading} {strict : Bool} {record : Log.Record}
    (h : record ∈ r.records strict) :
    record.level = 10 ∧ record.source = "protoutline.outline.parser" := by
  unfold records at h
  rcases List.mem_append.1 h with h | h
  · split_ifs at h
    · cases h
    · obtain ⟨t, -, rfl⟩ := List.mem_map.1 h
      exact ⟨rfl, rfl⟩
  · split at h
    · obtain rfl := List.mem_singleton.1 h
      exact ⟨rfl, rfl⟩
    · cases h

/-- The record on what is missing, with the words between quotes. -/
theorem truncationRecord_eq {ts : List Token} {t : Truncation}
    (h : t ∈ (outlineTokens ts).truncations) :
    let expected := "(" ++ ", ".intercalate (t.expected.map Quoted.tick) ++
      (if t.expected.length = 1 then "," else "") ++ ")"
    let unclosed := "[" ++ ", ".intercalate (t.unclosed.map Quoted.tick) ++ "]"
    truncationRecord t = ⟨10, "protoutline.outline.parser",
      s!"Token stream ended at line {t.line} (expected {expected}, " ++
        s!"unclosed {unclosed})"⟩ := by
  obtain ⟨hexpected, hunclosed⟩ := List.forall_mem_append.1 (worded_of_mem_truncations h)
  rw [truncationRecord, Quoted.tuple_of_isPlain hexpected, Quoted.list_of_isPlain hunclosed]
  rfl

example : truncationRecord ⟨3, [";", "\x7d"], ["\x7b"]⟩ =
    ⟨10, "protoutline.outline.parser",
      "Token stream ended at line 3 (expected (';', '\x7d'), unclosed ['\x7b'])"⟩ := by
  decide +kernel

end Reading

end SchemaOutline
