import SchemaOutline.Proofs.Outline.Relabelling

namespace SchemaOutline

section Identity

theorem LineRange.relabel_id (r : LineRange) : r.relabel id = r := by
  simp [relabel, fromZero]

mutual

theorem Node.relabel_id : (n : Node) → n.relabel id = n
  | ⟨_, _, _, _, _, children⟩ => by
    simp [relabel, LineRange.relabel_id, relabelAll_id children]

theorem Node.relabelAll_id : (ns : List Node) → relabelAll id ns = ns
  | [] => rfl
  | n :: ns => by simp [relabelAll, relabel_id n, relabelAll_id ns]

end

theorem Fault.relabel_id (f : Fault) : f.relabel id = f := by
  cases f <;> rfl

theorem Token.map_relabel_id (ts : List Token) : ts.map (Token.relabel id) = ts :=
  List.map_id' ts

end Identity

theorem Frame.Waits.truncations_ne_nil {f : Frame} (h : f.Waits) (line : Int) :
    (f.cutShort line).1 ≠ [] := by
  cases f with
  | scan u job =>
    have hj : job.ends ≠ [] := h
    simp [cutShort, Job.truncations, hj]
  | name pending => exact List.cons_ne_nil _ _
  | fieldType start c => exact List.cons_ne_nil _ _
  | mapType u start detail => exact List.cons_ne_nil _ _

theorem Stack.Waiting.reads {s s' : Stack} {ts : List Token} (h : s.Reads ts s')
    (hw : Waiting s.inner s.outer) : Waiting s'.inner s'.outer :=
  h.invariant (P := fun s ↦ Waiting s.inner s.outer) Waiting.read hw

/-- A stack that misses nothing is back at the top level, with no bracket open. -/
theorem Stack.eq_of_cutShort {s : Stack} {line : Int} {nodes : List Node}
    (hr : Rooted s.inner s.outer) (hw : Waiting s.inner s.outer)
    (h : cutShort line s.inner s.outer = ([], nodes)) :
    s = ⟨.scan [] (.document nodes.reverse), []⟩ := by
  obtain ⟨f, outer⟩ := s
  cases outer with
  | nil =>
    obtain ⟨u, ns, rfl⟩ : ∃ u ns, f = .scan u (.document ns) := hr
    obtain ⟨hu, hn⟩ : u = [] ∧ ns.reverse = nodes := by
      simpa [cutShort, Frame.cutShort, Job.truncations, Job.ends, Job.close] using h
    rw [hu, ← hn, List.reverse_reverse]
  | cons k outer =>
    obtain ⟨hf, -⟩ := List.append_eq_nil_iff.1 (congrArg Prod.fst h)
    exact absurd hf (hw.1.truncations_ne_nil line)

namespace Reading

theorem reads_document_of_result {ts : List Token} {nodes : List Node}
    (h : (outlineTokens ts).result true = .ok nodes) :
    root.Reads ts ⟨.scan [] (.document nodes.reverse), []⟩ := by
  obtain ⟨s, hs, -⟩ := reads_of_result h
  have hrooted : Stack.Rooted s.inner s.outer := Stack.Rooted.reads hs ⟨[], [], rfl⟩
  have hwaiting : Stack.Waiting s.inner s.outer := Stack.Waiting.reads hs trivial
  have hrun : outlineTokens ts = run s (lineAfter 1 ts) [] := run_of_reads hs 1
  rw [hrun] at h
  obtain ⟨hn, ht⟩ := result_eq_ok_iff.1 h
  have hcut : Stack.cutShort (lineAfter 1 ts) s.inner s.outer = ([], nodes) :=
    Prod.ext (ht rfl) (Except.ok.inj hn)
  rwa [Stack.eq_of_cutShort hrooted hwaiting hcut] at hs

end Reading

/-- Reading is a homomorphism over whole schemas: behind one that strict reading accepts, anything
is read as it is alone. -/
theorem outlineTokens_append (ts us : List Token) (nodes : List Node)
    (h : (outlineTokens ts).result true = .ok nodes) (strict : Bool) :
    (outlineTokens (ts ++ us)).result strict =
      ((outlineTokens us).result strict).map (nodes ++ ·) := by
  have hrun : outlineTokens (ts ++ us) =
      Reading.run (Reading.root.relabel id nodes) (lineAfter 1 ts) us :=
    Reading.run_append (Reading.reads_document_of_result h) 1 us
  have hus := (Reading.relabels_root id nodes 1 (lineAfter 1 ts) us).result strict
  rw [Token.map_relabel_id] at hus
  calc
    (outlineTokens (ts ++ us)).result strict
      = (((outlineTokens us).result strict).map (nodes ++ Node.relabelAll id ·)).mapError
          (Fault.relabel id) := by
        rw [hrun]
        exact hus
    _ = ((outlineTokens us).result strict).map (nodes ++ ·) := by
        simp only [Node.relabelAll_id]
        cases (outlineTokens us).result strict with
        | error f => exact congrArg Except.error f.relabel_id
        | ok nodes' => rfl

/-- A message, with an enum behind it that is cut short, and with one whose brackets do not match. -/
theorem outlineTokens_append_enum :
    let a : Node := ⟨"A", "message", .struct, ⟨0, 0⟩, ⟨0, 0⟩, []⟩
    let b : Node := ⟨"B", "enum", .enum, ⟨0, 0⟩, ⟨0, 0⟩, []⟩
    let ts := tokenize "message A \x7b \x7d"
    (outlineTokens ts).result true = .ok [a] ∧
    (outlineTokens (ts ++ tokenize "enum B \x7b")).result false = .ok [a, b] ∧
    (outlineTokens (ts ++ tokenize "enum B (\x7d")).result false =
      .error (.mismatch ⟨1, some "(", "\x7d"⟩) := by
  intro a b ts
  have h : (outlineTokens ts).result true = .ok [a] := by rfl
  exact ⟨h, (outlineTokens_append ts _ [a] h false).trans (by rfl),
    (outlineTokens_append ts _ [a] h false).trans (by rfl)⟩

end SchemaOutline
