import SchemaOutline.Proofs.Outline.Steps
import SchemaOutline.Proofs.Token.Lines

namespace SchemaOutline

namespace Node

/-- Declarations one after another between two lines, each with its name within its own lines and
its children one after another there. -/
inductive InOrder : Int → Int → List Node → Prop
  | nil {lo hi : Int} (h : lo ≤ hi) : InOrder lo hi []
  | cons {lo hi : Int} {n : Node} {ns : List Node} (hlo : lo ≤ n.range.first)
      (hs : n.range.first ≤ n.selection.first) (hp : n.selection.first = n.selection.last)
      (hl : n.selection.last ≤ n.range.last) (hc : InOrder n.range.first n.range.last n.children)
      (hns : InOrder n.range.last hi ns) : InOrder lo hi (n :: ns)

variable {lo mid hi : Int} {n : Node} {ns xs ys : List Node}

theorem InOrder.le (h : InOrder lo hi ns) : lo ≤ hi := by
  induction h with
  | nil h => exact h
  | cons hlo hs hp hl hc hns ihc ihns => omega

theorem InOrder.append (h : InOrder lo mid xs) (h' : InOrder mid hi ys) :
    InOrder lo hi (xs ++ ys) := by
  induction h with
  | @nil lo mid h =>
    cases h' with
    | nil h' => exact .nil (Int.le_trans h h')
    | cons hlo hs hp hl hc hns => exact .cons (Int.le_trans h hlo) hs hp hl hc hns
  | cons hlo hs hp hl hc hns ihc ihns => exact .cons hlo hs hp hl hc (ihns h')

theorem InOrder.mono (h : InOrder lo mid ns) (hm : mid ≤ hi) : InOrder lo hi ns := by
  simpa using h.append (.nil hm)

theorem walkAll_cons (n : Node) (ns : List Node) :
    walkAll (n :: ns) = n :: walkAll n.children ++ walkAll ns := by
  cases n
  simp [walkAll, walk]

theorem InOrder.mem_walkAll (h : InOrder lo hi ns) (hn : n ∈ walkAll ns) :
    lo ≤ n.range.first ∧ n.range.first ≤ n.selection.first ∧
      n.selection.first = n.selection.last ∧ n.selection.last ≤ n.range.last ∧
      n.range.last ≤ hi := by
  induction h with
  | nil => simp [walkAll] at hn
  | @cons lo hi m ms hlo hs hp hl hc hns ihc ihns =>
    have hms := hns.le
    rw [walkAll_cons, List.cons_append, List.mem_cons, List.mem_append] at hn
    obtain rfl | hn | hn := hn
    · omega
    · have h := ihc hn
      omega
    · have h := ihns hn
      omega

theorem InOrder.children (h : InOrder lo hi ns) (hn : n ∈ walkAll ns) :
    InOrder n.range.first n.range.last n.children := by
  induction h with
  | nil => simp [walkAll] at hn
  | cons hlo hs hp hl hc hns ihc ihns =>
    rw [walkAll_cons, List.cons_append, List.mem_cons, List.mem_append] at hn
    obtain rfl | hn | hn := hn
    · exact hc
    · exact ihc hn
    · exact ihns hn

theorem mem_walkAll_of_mem (h : n ∈ ns) : n ∈ walkAll ns := by
  induction ns with
  | nil => cases h
  | cons m ms ih =>
    rw [walkAll_cons, List.cons_append, List.mem_cons, List.mem_append]
    obtain rfl | h := List.mem_cons.1 h
    · exact .inl rfl
    · exact .inr (.inr (ih h))

theorem InOrder.isChain (h : InOrder lo hi ns) :
    ns.IsChain fun m n ↦ m.range.last ≤ n.range.first := by
  induction h with
  | nil => exact .nil
  | @cons lo hi m ms hlo hs hp hl hc hns ihc ihns =>
    cases hns with
    | nil => exact .singleton _
    | cons hlo' => exact .cons_cons hlo' ihns

theorem InOrder.pairwise_first (h : InOrder lo hi ns) :
    ((walkAll ns).map (·.range.first)).Pairwise (· ≤ ·) := by
  induction h with
  | nil => simp [walkAll]
  | @cons lo hi m ms hlo hs hp hl hc hns ihc ihns =>
    rw [walkAll_cons]
    simp only [List.map_cons, List.map_append, List.cons_append, List.pairwise_cons,
      List.pairwise_append, List.mem_append, List.mem_map]
    refine ⟨?_, ihc, ihns, ?_⟩
    · rintro _ (⟨n, hn, rfl⟩ | ⟨n, hn, rfl⟩)
      · exact (hc.mem_walkAll hn).1
      · have h := hns.mem_walkAll hn
        have h' := hc.le
        omega
    · rintro _ ⟨n, hn, rfl⟩ _ ⟨n', hn', rfl⟩
      have h := hc.mem_walkAll hn
      have h' := hns.mem_walkAll hn'
      omega

end Node

open Node (InOrder)

structure Head.Spans (lo hi : Int) (h : Head) : Prop where
  le_start : lo ≤ h.start
  start_le : h.start ≤ h.selection
  selection_le : h.selection ≤ hi

def Job.Spans (lo hi : Int) : Job → Prop
  | document nodes => InOrder lo hi nodes.reverse
  | body head _ members => head.Spans lo hi ∧ InOrder head.start hi members.reverse
  | signature head _ | tail head => head.Spans lo hi
  | skip _ => lo ≤ hi

def Unnamed.start : Unnamed → Int
  | block _ start | method start | field start .. => start

def Frame.Spans (lo hi : Int) : Frame → Prop
  | scan _ job => job.Spans lo hi
  | name pending => lo ≤ pending.start ∧ pending.start ≤ hi
  | fieldType start _ | mapType _ start _ => lo ≤ start ∧ start ≤ hi

section Spans

variable {lo mid hi line : Int} {head : Head} {job : Job} {f : Frame}

theorem Head.Spans.mono (h : head.Spans lo mid) (hm : mid ≤ hi) : head.Spans lo hi :=
  ⟨h.le_start, h.start_le, Int.le_trans h.selection_le hm⟩

theorem Head.Spans.close (h : head.Spans lo (line - 1)) {children : List Node}
    (hc : InOrder head.start (line - 1) children) :
    InOrder lo (line - 1) [head.close line children] :=
  .cons h.le_start h.start_le rfl h.selection_le hc (.nil (Int.le_refl _))

theorem Job.Spans.receive (h : job.Spans lo mid) {nodes : List Node} (hn : InOrder mid hi nodes) :
    (job.receive nodes).Spans lo hi := by
  have hm := hn.le
  cases job with
  | document ns =>
    simp only [Job.receive, Job.Spans, List.reverse_append, List.reverse_reverse] at h ⊢
    exact h.append hn
  | body head inEnum ns =>
    simp only [Job.receive, Job.Spans, List.reverse_append, List.reverse_reverse] at h ⊢
    exact ⟨h.1.mono hm, h.2.append hn⟩
  | signature head inOptions => exact Head.Spans.mono h hm
  | tail head => exact Head.Spans.mono h hm
  | skip ends => exact Int.le_trans h hm

theorem Frame.Spans.receive (h : f.Spans lo mid) {nodes : List Node} (hn : InOrder mid hi nodes) :
    (f.receive nodes).Spans lo hi := by
  have hm := hn.le
  cases f with
  | scan u job => exact Job.Spans.receive h hn
  | name pending => exact ⟨h.1, Int.le_trans h.2 hm⟩
  | fieldType start c => exact ⟨h.1, Int.le_trans h.2 hm⟩
  | mapType u start detail => exact ⟨h.1, Int.le_trans h.2 hm⟩

theorem Frame.Spans.mono (h : f.Spans lo mid) (hm : mid ≤ hi) : f.Spans lo hi := by
  have h' := h.receive (.nil hm)
  cases f with
  | scan u job => cases job <;> exact h'
  | name pending => exact h'
  | fieldType start c => exact h'
  | mapType u start detail => exact h'

theorem Job.Spans.close (h : job.Spans lo (line - 1)) : InOrder lo (line - 1) (job.close line) := by
  cases job with
  | document ns => exact h
  | body head inEnum ns => exact h.1.close h.2
  | signature head inOptions =>
    exact Head.Spans.close h (.nil (Int.le_trans h.start_le h.selection_le))
  | tail head => exact Head.Spans.close h (.nil (Int.le_trans h.start_le h.selection_le))
  | skip ends => exact .nil h

theorem Job.Spans.grow (h : job.Spans lo hi) (v : String) : (job.grow v).Spans lo hi := by
  unfold Job.grow
  split
  · unfold Job.sign
    split_ifs <;> exact ⟨h.le_start, h.start_le, h.selection_le⟩
  · exact h

theorem Unnamed.spans_named {u : Unnamed} (hlo : lo ≤ u.start) (hhi : u.start ≤ line - 1)
    (name : String) : (u.named name line).Spans lo (line - 1) := by
  cases u with
  | block word start => exact ⟨⟨hlo, Int.le_refl _, hhi⟩, .nil hhi⟩
  | method start => exact ⟨hlo, Int.le_refl _, hhi⟩
  | field start detail shape =>
    have h : Head.Spans lo (line - 1) ⟨name, detail, shape.kind, start, line - 1⟩ :=
      ⟨hlo, hhi, Int.le_refl _⟩
    simp only [Unnamed.named]
    split_ifs
    · exact ⟨h, .nil hhi⟩
    · exact h

theorem Frame.spans_ofField (inEnum : Bool) (v : String) (h : lo ≤ hi) :
    (ofField inEnum v hi).Spans lo hi := by
  unfold ofField
  split_ifs
  · exact ⟨h, Int.le_refl _⟩
  · exact ⟨h, Int.le_refl _, Int.le_refl _⟩
  · split <;> exact ⟨h, Int.le_refl _⟩

theorem Frame.spans_ofToken? {c : Option Bool} {v : String} (h : lo ≤ hi)
    (hf : ofToken? c v hi = some f) : f.Spans lo hi := by
  obtain ⟨word, -, rfl⟩ | ⟨-, rfl⟩ | ⟨e, -, rfl⟩ | ⟨inEnum, -, rfl⟩ := ofToken?_cases hf
  · exact ⟨h, Int.le_refl _⟩
  · exact ⟨h, Int.le_refl _⟩
  · exact h
  · exact spans_ofField inEnum v h

def Frame.Move.Spans (lo mid hi : Int) : Frame.Move → Prop
  | .go f => f.Spans lo hi
  | .push f inner => f.Spans lo mid ∧ inner.Spans mid hi
  | .pop nodes => InOrder lo hi nodes

theorem Frame.Effect.spans {t : Token} {m : Frame.Move} (he : Frame.Effect t f m)
    (h : f.Spans lo mid) (hm : mid ≤ t.line - 1) : m.Spans lo mid (t.line - 1) := by
  cases he with
  | named pending => exact Unnamed.spans_named h.1 (Int.le_trans h.2 hm) t.value
  | typed start c => exact ⟨h.1, Int.le_trans h.2 hm⟩
  | @mapped u v start detail hn =>
    simp only [Frame.Move.Spans, visitMap]
    split_ifs <;> exact ⟨h.1, Int.le_trans h.2 hm⟩
  | begins hc hi => exact ⟨h, spans_ofToken? hm hi⟩
  | @stays u v job hn hc he =>
    have hj : Job.Spans lo (t.line - 1) job := Frame.Spans.mono h hm
    exact hj.grow t.value
  | @ends u job hn hc he =>
    have hj : Job.Spans lo (t.line - 1) job := Frame.Spans.mono h hm
    exact (hj.grow t.value).close

/-- The frames begun lie one within the lines that the next one has left. -/
def Stack.Spans (lo : Int) : Int → Frame → List Frame → Prop
  | hi, f, [] => f.Spans lo hi
  | hi, f, g :: outer => ∃ mid, f.Spans mid hi ∧ Stack.Spans lo mid g outer

variable {outer : List Frame} {nodes : List Node}

theorem Stack.Spans.receive (h : Stack.Spans lo mid f outer) (hn : InOrder mid hi nodes) :
    Stack.Spans lo hi (f.receive nodes) outer := by
  cases outer with
  | nil => exact Frame.Spans.receive h hn
  | cons g outer =>
    obtain ⟨mid', hf, hg⟩ := h
    exact ⟨mid', hf.receive hn, hg⟩

def Stack.Step.Spans (lo hi : Int) : Stack.Step → Prop
  | .more s => Stack.Spans lo hi s.inner s.outer
  | .done nodes => InOrder lo hi nodes

theorem Stack.Spans.read {s : Stack} {t : Token} {r : Stack.Step}
    (h : Stack.Spans lo mid s.inner s.outer) (hm : mid ≤ t.line - 1) (hr : s.read t = .ok r) :
    r.Spans lo (t.line - 1) := by
  obtain ⟨m, he, rfl⟩ := Stack.read_eq_ok_iff.1 hr
  obtain ⟨f, outer⟩ := s
  cases outer with
  | nil =>
    have hs := he.spans h hm
    cases m with
    | go g => exact hs
    | push g inner => exact ⟨mid, hs.2, hs.1⟩
    | pop nodes => exact hs
  | cons g outer =>
    obtain ⟨lo', hf, hg⟩ := h
    have hs := he.spans hf hm
    -- A frame that is put aside keeps its lines up to `mid`, where the one begun starts.
    cases m with
    | go f' => exact ⟨lo', hs, hg⟩
    | push f' inner => exact ⟨mid, hs.2, lo', hs.1, hg⟩
    | pop nodes => exact hg.receive hs

theorem Unnamed.inOrder_cutShort {u : Unnamed} (hlo : lo ≤ u.start) (hhi : u.start ≤ line - 1) :
    InOrder lo (line - 1) (u.cutShort line).2 :=
  (u.spans_named hlo hhi "").close

theorem Frame.Spans.cutShort (h : f.Spans lo (line - 1)) :
    InOrder lo (line - 1) (f.cutShort line).2 := by
  cases f with
  | scan u job => exact Job.Spans.close h
  | name pending => exact Unnamed.inOrder_cutShort h.1 h.2
  | fieldType start c => exact Unnamed.inOrder_cutShort h.1 h.2
  | mapType u start detail => exact Unnamed.inOrder_cutShort h.1 h.2

theorem Stack.Spans.cutShort (h : Stack.Spans lo (line - 1) f outer) :
    InOrder lo (line - 1) (Stack.cutShort line f outer).2 := by
  induction outer generalizing f with
  | nil => exact Frame.Spans.cutShort h
  | cons g outer ih =>
    obtain ⟨mid, hf, hg⟩ := h
    exact ih (hg.receive hf.cutShort)

theorem Stack.Spans.run {s : Stack} {ts : List Token} {last : Int}
    (h : Stack.Spans lo (line - 1) s.inner s.outer)
    (hl : (line :: ts.map Token.line ++ [last]).Pairwise (· ≤ ·))
    (hr : (Reading.run s line ts).nodes = .ok nodes) : InOrder lo (last - 1) nodes := by
  induction ts generalizing s line with
  | nil =>
    have hlast : line ≤ last := by simpa using hl
    have hn : nodes = (Stack.cutShort line s.inner s.outer).2 := by
      simpa [Reading.run] using hr.symm
    rw [hn]
    exact h.cutShort.mono (by omega)
  | cons t ts ih =>
    obtain ⟨hline, hl⟩ := List.pairwise_cons.1 hl
    have ht : line ≤ t.line := hline t.line (by simp)
    simp only [Reading.run] at hr
    split at hr
    · cases hr
    · next nodes' hread =>
      have hs : InOrder lo (t.line - 1) nodes' := h.read (by omega) hread
      have hlast : t.line ≤ last := (List.pairwise_cons.1 hl).1 last (by simp)
      cases hr
      exact hs.mono (by omega)
    · next s' hread =>
      have hs : Stack.Spans lo (t.line - 1) s'.inner s'.outer := h.read (by omega) hread
      exact ih hs hl hr

end Spans

def Node.Consecutive (ns : List Node) : Prop :=
  ns.IsChain fun m n ↦ m.range.last ≤ n.range.first

/-- How the declarations of an outline lie on the lines up to `last`, counted from 0. -/
structure Node.LaidOut (last : Int) (nodes : List Node) : Prop where
  lines : ∀ n ∈ walkAll nodes, 0 ≤ n.range.first ∧ n.range.first ≤ n.selection.first ∧
    n.selection.first = n.selection.last ∧ n.selection.last ≤ n.range.last ∧ n.range.last ≤ last
  contained : ∀ n ∈ walkAll nodes, ∀ child ∈ n.children, n.range.contains child.range
  siblings : Consecutive nodes ∧ ∀ n ∈ walkAll nodes, Consecutive n.children
  ordered : ((walkAll nodes).map (·.range.first)).Pairwise (· ≤ ·)

theorem Node.InOrder.laidOut {last : Int} {nodes : List Node} (h : InOrder 0 last nodes) :
    Node.LaidOut last nodes where
  lines n hn := h.mem_walkAll hn
  contained n hn child hc := by
    have hchild := (h.children hn).mem_walkAll (Node.mem_walkAll_of_mem hc)
    simp only [LineRange.contains, Bool.and_eq_true, decide_eq_true_eq]
    omega
  siblings := ⟨h.isChain, fun n hn ↦ (h.children hn).isChain⟩
  ordered := h.pairwise_first

theorem inOrder_of_outline {strict : Bool} {text : String} {nodes : List Node}
    (h : outline strict text = .ok nodes) : InOrder 0 (text.toList.count '\n') nodes := by
  have hstart : Stack.Spans 0 (1 - 1) (.scan [] (.document [])) [] := .nil (Int.le_refl 0)
  have ho : InOrder 0 (1 + (text.toList.count '\n' : Int) - 1) nodes :=
    hstart.run (pairwise_tokenize text) (Reading.result_eq_ok_iff.1 h).1
  exact ho.mono (by omega)

/-- Every outline is laid out on the lines of its text, also that of a text cut short. -/
theorem outline_laidOut (strict : Bool) (text : String) (nodes : List Node)
    (h : outline strict text = .ok nodes) : Node.LaidOut (text.toList.count '\n') nodes :=
  (inOrder_of_outline h).laidOut

/-- A schema that ends inside a message, right where a method should be named. -/
theorem outline_laidOut_cut_short :
    let text := "message A \x7b\n oneof o \x7b\n  bool b = 1;\n \x7d\n rpc"
    let nodes : List Node := [⟨"A", "message", .struct, ⟨0, 4⟩, ⟨0, 0⟩,
      [⟨"o", "oneof", .enum, ⟨1, 3⟩, ⟨1, 1⟩, [⟨"b", "bool", .boolean, ⟨2, 2⟩, ⟨2, 2⟩, []⟩]⟩,
        ⟨"", "rpc", .method, ⟨4, 4⟩, ⟨4, 4⟩, []⟩]⟩]
    outline false text = .ok nodes ∧ Node.LaidOut (text.toList.count '\n') nodes :=
  ⟨by rfl, outline_laidOut false _ _ (by rfl)⟩

end SchemaOutline
