import SchemaOutline.Proofs.Outline.Lines

namespace SchemaOutline

namespace Node

mutual

def walkFrom (depth : Nat) : Node → List (Nat × Node)
  | n@⟨_, _, _, _, _, children⟩ => (depth, n) :: walkAllFrom (depth + 1) children

def walkAllFrom (depth : Nat) : List Node → List (Nat × Node)
  | [] => []
  | n :: ns => walkFrom depth n ++ walkAllFrom depth ns

end

theorem walkAllFrom_cons (depth : Nat) (n : Node) (ns : List Node) :
    walkAllFrom depth (n :: ns) =
      (depth, n) :: walkAllFrom (depth + 1) n.children ++ walkAllFrom depth ns := by
  cases n
  simp [walkAllFrom, walkFrom]

theorem walkAllFrom_append (depth : Nat) (ns ms : List Node) :
    walkAllFrom depth (ns ++ ms) = walkAllFrom depth ns ++ walkAllFrom depth ms := by
  induction ns with
  | nil => simp [walkAllFrom]
  | cons n ns ih => simp [walkAllFrom, ih]

mutual

theorem map_snd_walkFrom (depth : Nat) : (n : Node) → (walkFrom depth n).map Prod.snd = walk n
  | ⟨_, _, _, _, _, children⟩ => by
    simp [walkFrom, walk, map_snd_walkAllFrom (depth + 1) children]

theorem map_snd_walkAllFrom (depth : Nat) :
    (ns : List Node) → (walkAllFrom depth ns).map Prod.snd = walkAll ns
  | [] => by simp [walkAllFrom, walkAll]
  | n :: ns => by
    simp [walkAllFrom, walkAll, map_snd_walkFrom depth n, map_snd_walkAllFrom depth ns]

end

/-- Two entries of a walk that tell the same, but for where the declaration ends and what is in
it. -/
structure Same (x y : Nat × Node) : Prop where
  depth : x.1 = y.1
  name : x.2.name = y.2.name
  detail : x.2.detail = y.2.detail
  kind : x.2.kind = y.2.kind
  first : x.2.range.first = y.2.range.first
  selection : x.2.selection = y.2.selection

/-- The first entry is what is known of the second while the declaration is being read. -/
structure Begun (x y : Nat × Node) : Prop where
  depth : x.1 = y.1
  first : x.2.range.first = y.2.range.first
  name : x.2.name = y.2.name ∨ x.2.name = ""

/-- The beginning of a walk, up to a declaration that may be incomplete. -/
inductive Cut : List (Nat × Node) → List (Nat × Node) → Prop
  | nil (ys : List (Nat × Node)) : Cut [] ys
  | last {x y : Nat × Node} (h : Begun x y) (ys : List (Nat × Node)) : Cut [x] (y :: ys)
  | cons {x y : Nat × Node} {xs ys : List (Nat × Node)} (h : Same x y) (h' : Cut xs ys) :
      Cut (x :: xs) (y :: ys)

variable {x y z : Nat × Node} {xs ys zs : List (Nat × Node)}

theorem Same.refl (x : Nat × Node) : Same x x := ⟨rfl, rfl, rfl, rfl, rfl, rfl⟩

theorem Same.trans (h : Same x y) (h' : Same y z) : Same x z :=
  ⟨h.depth.trans h'.depth, h.name.trans h'.name, h.detail.trans h'.detail, h.kind.trans h'.kind,
    h.first.trans h'.first, h.selection.trans h'.selection⟩

theorem Same.begun (h : Same x y) : Begun x y := ⟨h.depth, h.first, .inl h.name⟩

theorem Begun.trans (h : Begun x y) (h' : Begun y z) : Begun x z := by
  refine ⟨h.depth.trans h'.depth, h.first.trans h'.first, ?_⟩
  obtain hn | hn := h.name
  · rw [hn]
    exact h'.name
  · exact .inr hn

theorem Cut.append_left (h : Cut xs ys) (zs : List (Nat × Node)) : Cut (zs ++ xs) (zs ++ ys) := by
  induction zs with
  | nil => exact h
  | cons z zs ih => exact .cons (.refl z) ih

theorem Cut.refl (xs : List (Nat × Node)) : Cut xs xs := by
  simpa using (Cut.nil []).append_left xs

theorem Cut.trans (h : Cut xs ys) (h' : Cut ys zs) : Cut xs zs := by
  induction h generalizing zs with
  | nil => exact .nil zs
  | last h =>
    cases h' with
    | last h' => exact .last (h.trans h') _
    | cons h' => exact .last (h.trans h'.begun) _
  | cons h hxs ih =>
    cases h' with
    | last h' =>
      cases hxs
      exact .last (h.begun.trans h') _
    | cons h' hys => exact .cons (h.trans h') (ih hys)

theorem Cut.length_le (h : Cut xs ys) : xs.length ≤ ys.length := by
  induction h with
  | nil => simp
  | last => simp
  | cons h hxs ih => simpa using ih

theorem Cut.same {i : Nat} (h : Cut xs ys) (hx : xs[i]? = some x) (hy : ys[i]? = some y)
    (hi : i + 1 < xs.length) : Same x y := by
  induction h generalizing i with
  | nil => simp at hx
  | last => simp at hi
  | cons h hxs ih =>
    cases i with
    | zero =>
      simp only [List.getElem?_cons_zero, Option.some.injEq] at hx hy
      rwa [← hx, ← hy]
    | succ i => exact ih hx hy (by simpa using hi)

theorem Cut.begun {i : Nat} (h : Cut xs ys) (hx : xs[i]? = some x) (hy : ys[i]? = some y) :
    Begun x y := by
  induction h generalizing i with
  | nil => simp at hx
  | last h =>
    cases i with
    | zero =>
      simp only [List.getElem?_cons_zero, Option.some.injEq] at hx hy
      rwa [← hx, ← hy]
    | succ i => simp at hx
  | cons h hxs ih =>
    cases i with
    | zero =>
      simp only [List.getElem?_cons_zero, Option.some.injEq] at hx hy
      rw [← hx, ← hy]
      exact h.begun
    | succ i => exact ih hx hy

def CutFrom (ns ms : List Node) : Prop := ∀ depth, Cut (walkAllFrom depth ns) (walkAllFrom depth ms)

variable {ns ms ks : List Node}

theorem CutFrom.refl (ns : List Node) : CutFrom ns ns := fun _ ↦ .refl _

theorem CutFrom.trans (h : CutFrom ns ms) (h' : CutFrom ms ks) : CutFrom ns ks :=
  fun depth ↦ (h depth).trans (h' depth)

theorem CutFrom.nil (ns : List Node) : CutFrom [] ns := fun _ ↦ .nil _

theorem CutFrom.append_left (h : CutFrom ns ms) (ks : List Node) :
    CutFrom (ks ++ ns) (ks ++ ms) := by
  intro depth
  rw [walkAllFrom_append, walkAllFrom_append]
  exact (h depth).append_left _

end Node

open Node (CutFrom)

section Frames

variable {ns ms : List Node} {line line' : Int}

theorem Head.cutFrom_close (h : CutFrom ns ms) (head : Head) (line line' : Int) :
    CutFrom [head.close line ns] [head.close line' ms] := by
  intro depth
  rw [Node.walkAllFrom_cons, Node.walkAllFrom_cons]
  refine .cons ⟨rfl, rfl, rfl, rfl, rfl, rfl⟩ ?_
  simpa [Node.walkAllFrom, Head.close] using h (depth + 1)

theorem Head.cutFrom_close_nil {head head' : Head} (hs : head.start = head'.start)
    (hn : head.name = head'.name ∨ head.name = "") (line line' : Int) (ms : List Node) :
    CutFrom [head.close line []] [head'.close line' ms] := by
  intro depth
  have hlast : Node.walkAllFrom depth [head.close line []] = [(depth, head.close line [])] := by
    rw [Node.walkAllFrom_cons]
    simp [Head.close, Node.walkAllFrom]
  rw [hlast, Node.walkAllFrom_cons]
  have hb : Node.Begun (depth, head.close line []) (depth, head'.close line' ms) := ⟨rfl, hs, hn⟩
  exact .last hb _

theorem Unnamed.exists_head (u : Unnamed) (name : String) (line : Int) :
    ∃ head : Head, (u.named name line).close line = [head.close line []] ∧
      head.start = u.start ∧ head.name = name := by
  cases u with
  | block word start => exact ⟨_, rfl, rfl, rfl⟩
  | method start => exact ⟨_, rfl, rfl, rfl⟩
  | field start detail shape =>
    refine ⟨⟨name, detail, shape.kind, start, line - 1⟩, ?_, rfl, rfl⟩
    simp only [Unnamed.named]
    split_ifs <;> rfl

theorem Unnamed.cutFrom_named {u u' : Unnamed} (hu : u.start = u'.start) {name name' : String}
    (hn : name = name' ∨ name = "") (line line' : Int) :
    CutFrom ((u.named name line).close line) ((u'.named name' line').close line') := by
  obtain ⟨head, hc, hs, rfl⟩ := u.exists_head name line
  obtain ⟨head', hc', hs', rfl⟩ := u'.exists_head name' line'
  rw [hc, hc']
  exact Head.cutFrom_close_nil (hs.trans (hu.trans hs'.symm)) hn line line' []

theorem Unnamed.cutFrom_cutShort {u u' : Unnamed} (hu : u.start = u'.start) (line line' : Int) :
    CutFrom (u.cutShort line).2 (u'.cutShort line').2 :=
  Unnamed.cutFrom_named hu (.inl rfl) line line'

theorem Frame.cutFrom_receive (h : CutFrom ns ms) (f : Frame) (line line' : Int) :
    CutFrom ((f.receive ns).cutShort line).2 ((f.receive ms).cutShort line').2 := by
  cases f with
  | scan u job =>
    cases job with
    | document nodes => simpa [receive, Job.receive, cutShort, Job.close] using h.append_left _
    | body head inEnum members =>
      simpa [receive, Job.receive, cutShort, Job.close] using
        Head.cutFrom_close (h.append_left members.reverse) head line line'
    | signature head inOptions => exact Head.cutFrom_close (.refl []) head line line'
    | tail head => exact Head.cutFrom_close (.refl []) head line line'
    | skip ends => exact .refl []
  | name pending => exact Unnamed.cutFrom_cutShort rfl line line'
  | fieldType start c =>
    simp only [receive, cutShort]
    exact Unnamed.cutFrom_cutShort rfl line line'
  | mapType u start detail =>
    simp only [receive, cutShort]
    exact Unnamed.cutFrom_cutShort rfl line line'

theorem Stack.cutFrom_cutShort {f f' : Frame}
    (h : CutFrom (f.cutShort line).2 (f'.cutShort line').2) (outer : List Frame) :
    CutFrom (cutShort line f outer).2 (cutShort line' f' outer).2 := by
  induction outer generalizing f f' with
  | nil => exact h
  | cons g outer ih => exact ih (g.cutFrom_receive h line line')

theorem Job.cutFrom_grow (job : Job) (v : String) (line line' : Int) :
    CutFrom (job.close line) ((job.grow v).close line') := by
  cases job with
  | document nodes => exact .refl _
  | body head inEnum members => exact Head.cutFrom_close (.refl _) head line line'
  | signature head inOptions =>
    cases inOptions with
    | true => exact Head.cutFrom_close (.refl _) head line line'
    | false =>
      simp only [Job.grow, Job.sign]
      split_ifs <;> refine Head.cutFrom_close_nil ?_ ?_ line line' [] <;> simp
  | tail head => exact Head.cutFrom_close (.refl _) head line line'
  | skip ends => exact .refl _

def Frame.Move.nodes (line : Int) : Frame.Move → List Node
  | .go f => (f.cutShort line).2
  | .push f inner => ((f.receive (inner.cutShort line).2).cutShort line).2
  | .pop nodes => nodes

theorem Frame.Effect.cutFrom {t : Token} {f : Frame} {m : Frame.Move} (h : Frame.Effect t f m)
    (line : Int) : CutFrom (f.cutShort line).2 (m.nodes t.line) := by
  cases h with
  | named pending => exact Unnamed.cutFrom_named rfl (.inr rfl) line t.line
  | typed start c =>
    have hu : (Unnamed.typed start c "").start = (Unnamed.typed start c t.value).start := rfl
    exact Unnamed.cutFrom_cutShort hu line t.line
  | @mapped u v start detail hn =>
    -- Whether or not this token ends the type, the field is the one begun with less of its type.
    have hu : ∀ d, (Unnamed.mapped start detail).start = (Unnamed.mapped start d).start :=
      fun _ ↦ rfl
    simp only [Frame.Move.nodes, visitMap]
    split_ifs <;> exact Unnamed.cutFrom_cutShort (hu _) line t.line
  | @begins u job c inner hc hi =>
    have hr := (Frame.scan u job).cutFrom_receive (.nil (inner.cutShort t.line).2) line t.line
    rwa [Frame.receive_nil] at hr
  | @stays u v job hn hc he => exact job.cutFrom_grow t.value line t.line
  | @ends u job hn hc he => exact job.cutFrom_grow t.value line t.line

end Frames

def Stack.Step.nodes (line : Int) : Stack.Step → List Node
  | .more s => (cutShort line s.inner s.outer).2
  | .done nodes => nodes

theorem Stack.cutFrom_read {s : Stack} {t : Token} {r : Step} (h : s.read t = .ok r) (line : Int) :
    CutFrom (cutShort line s.inner s.outer).2 (r.nodes t.line) := by
  obtain ⟨m, he, rfl⟩ := read_eq_ok_iff.1 h
  obtain ⟨f, outer⟩ := s
  have hf := he.cutFrom line
  cases m with
  | go f' => exact cutFrom_cutShort hf outer
  | push f' inner => exact cutFrom_cutShort hf outer
  | pop nodes =>
    cases outer with
    | nil => exact hf
    | cons g outer => exact cutFrom_cutShort (g.cutFrom_receive hf line t.line) outer

namespace Reading

variable {s : Stack} {ts us : List Token} {line : Int} {nodes : List Node}

theorem cutFrom_run (h : (run s line ts).nodes = .ok nodes) :
    CutFrom (Stack.cutShort line s.inner s.outer).2 nodes := by
  induction ts generalizing s line with
  | nil =>
    cases h
    exact .refl _
  | cons t ts ih =>
    simp only [run] at h
    split at h
    · cases h
    · next nodes' hread =>
      cases h
      exact Stack.cutFrom_read hread line
    · next s' hread => exact (Stack.cutFrom_read hread line).trans (ih h)

theorem cutFrom_run_append (h : (run s line (ts ++ us)).nodes = .ok nodes) :
    ∃ nodes', (run s line ts).nodes = .ok nodes' ∧ CutFrom nodes' nodes := by
  induction ts generalizing s line with
  | nil => exact ⟨_, rfl, cutFrom_run h⟩
  | cons t ts ih =>
    simp only [List.cons_append, run] at h ⊢
    split at h
    · cases h
    · next nodes' hread =>
      cases h
      exact ⟨nodes, rfl, .refl nodes⟩
    · next s' hread => exact ih h

end Reading

open Node in
/-- How an outline cut short compares with the whole one, along the walks over both: it lists the
same declarations at the same depths, but may know less of the last one it lists. -/
structure Node.Abridges (ns ms : List Node) : Prop where
  length_le : (walkAllFrom 1 ns).length ≤ (walkAllFrom 1 ms).length
  same : ∀ i x y, (walkAllFrom 1 ns)[i]? = some x → (walkAllFrom 1 ms)[i]? = some y →
    i + 1 < (walkAllFrom 1 ns).length → Same x y
  last : ∀ i x y, (walkAllFrom 1 ns)[i]? = some x → (walkAllFrom 1 ms)[i]? = some y →
    i + 1 = (walkAllFrom 1 ns).length → Begun x y

theorem Node.CutFrom.abridges {ns ms : List Node} (h : CutFrom ns ms) : Node.Abridges ns ms where
  length_le := (h 1).length_le
  same _ _ _ hx hy hi := (h 1).same hx hy hi
  last _ _ _ hx hy _ := (h 1).begun hx hy

/-- To cut the text short is to cut the outline short: where lenient reading gives an outline, it
gives an abridged one at every point before the end. -/
theorem outlineTokens_cut (ts before : List Token) (nodes : List Node) (hb : before <+: ts)
    (h : (outlineTokens ts).result false = .ok nodes) :
    ∃ nodes', (outlineTokens before).result false = .ok nodes' ∧ Node.Abridges nodes' nodes := by
  obtain ⟨rest, rfl⟩ := hb
  obtain ⟨nodes', hn, hc⟩ := Reading.cutFrom_run_append (Reading.result_eq_ok_iff.1 h).1
  exact ⟨nodes', Reading.result_eq_ok_iff.2 ⟨hn, nofun⟩, hc.abridges⟩

/-- A message cut short after the label of its field, which has neither type nor name then. -/
theorem outlineTokens_cut_after_label :
    let ts := tokenize "message A \x7b\n repeated\n int32 x = 1; \x7d"
    let x : Node := ⟨"x", "repeated int32", .array, ⟨1, 2⟩, ⟨2, 2⟩, []⟩
    let cut : Node := ⟨"", "repeated ", .array, ⟨1, 1⟩, ⟨1, 1⟩, []⟩
    (outlineTokens ts).result false = .ok [⟨"A", "message", .struct, ⟨0, 2⟩, ⟨0, 0⟩, [x]⟩] ∧
    (outlineTokens (ts.take 4)).result false =
      .ok [⟨"A", "message", .struct, ⟨0, 1⟩, ⟨0, 0⟩, [cut]⟩] ∧
    Node.Abridges [⟨"A", "message", .struct, ⟨0, 1⟩, ⟨0, 0⟩, [cut]⟩]
      [⟨"A", "message", .struct, ⟨0, 2⟩, ⟨0, 0⟩, [x]⟩] := by
  intro ts x cut
  have h : (outlineTokens ts).result false =
      .ok [⟨"A", "message", .struct, ⟨0, 2⟩, ⟨0, 0⟩, [x]⟩] := by rfl
  have hcut : (outlineTokens (ts.take 4)).result false =
      .ok [⟨"A", "message", .struct, ⟨0, 1⟩, ⟨0, 0⟩, [cut]⟩] := by rfl
  obtain ⟨nodes', hn, ha⟩ := outlineTokens_cut ts (ts.take 4) _ ⟨_, List.take_append_drop 4 ts⟩ h
  obtain rfl := Except.ok.inj (hcut.symm.trans hn)
  exact ⟨h, hcut, ha⟩

end SchemaOutline
