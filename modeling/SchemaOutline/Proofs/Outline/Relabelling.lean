import SchemaOutline.Outline.Reading
import SchemaOutline.Proofs.Outline.Matching

namespace SchemaOutline

def fromZero (g : Int → Int) (line : Int) : Int := g (line + 1) - 1

theorem fromZero_sub_one (g : Int → Int) (line : Int) : fromZero g (line - 1) = g line - 1 := by
  simp [fromZero]

section Relabel

variable (g : Int → Int)

def Token.relabel (t : Token) : Token := { t with line := g t.line }

def Mismatch.relabel (m : Mismatch) : Mismatch := { m with line := g m.line }

def Truncation.relabel (t : Truncation) : Truncation := { t with line := g t.line }

def Fault.relabel : Fault → Fault
  | mismatch m => mismatch (m.relabel g)
  | truncated t => truncated (t.relabel g)

def LineRange.relabel (r : LineRange) : LineRange := ⟨fromZero g r.first, fromZero g r.last⟩

mutual

def Node.relabel : Node → Node
  | ⟨name, detail, kind, range, selection, children⟩ =>
    ⟨name, detail, kind, range.relabel g, selection.relabel g, relabelAll children⟩

def Node.relabelAll : List Node → List Node
  | [] => []
  | n :: ns => n.relabel :: relabelAll ns

end

def Head.relabel (h : Head) : Head :=
  { h with start := fromZero g h.start, selection := fromZero g h.selection }

/-- The job on other lines, with the declarations `before` in front of a schema. -/
def Job.relabel (before : List Node) : Job → Job
  | document nodes => document (Node.relabelAll g nodes ++ before.reverse)
  | body head inEnum members => body (head.relabel g) inEnum (Node.relabelAll g members)
  | signature head inOptions => signature (head.relabel g) inOptions
  | tail head => tail (head.relabel g)
  | skip ends => skip ends

def Unnamed.relabel : Unnamed → Unnamed
  | block word start => block word (fromZero g start)
  | method start => method (fromZero g start)
  | field start detail shape => field (fromZero g start) detail shape

def Frame.relabel (before : List Node) : Frame → Frame
  | scan u job => scan u (job.relabel g before)
  | name pending => name (pending.relabel g)
  | fieldType start c => fieldType (fromZero g start) c
  | mapType u start detail => mapType u (fromZero g start) detail

def Frame.Move.relabel (before : List Node) : Frame.Move → Frame.Move
  | .go f => .go (f.relabel g before)
  | .push f inner => .push (f.relabel g before) (inner.relabel g before)
  | .pop nodes => .pop (Node.relabelAll g nodes)

def Stack.relabel (before : List Node) (s : Stack) : Stack :=
  ⟨s.inner.relabel g before, s.outer.map (Frame.relabel g before)⟩

def Stack.Step.relabel (before : List Node) : Stack.Step → Stack.Step
  | .more s => .more (s.relabel g before)
  | .done nodes => .done (Node.relabelAll g nodes)

end Relabel

variable {g : Int → Int} {before : List Node}

theorem Node.relabelAll_eq_map (ns : List Node) : relabelAll g ns = ns.map (relabel g) := by
  induction ns with
  | nil => rfl
  | cons n ns ih => rw [relabelAll, ih, List.map_cons]

theorem Node.relabelAll_append (ns ms : List Node) :
    relabelAll g (ns ++ ms) = relabelAll g ns ++ relabelAll g ms := by
  simp [relabelAll_eq_map]

theorem Node.relabelAll_reverse (ns : List Node) :
    relabelAll g ns.reverse = (relabelAll g ns).reverse := by
  simp [relabelAll_eq_map]

theorem Head.close_relabel (h : Head) (line : Int) (ns : List Node) :
    (h.relabel g).close (g line) (Node.relabelAll g ns) = (h.close line ns).relabel g := by
  simp [close, relabel, Node.relabel, LineRange.relabel, LineRange.point, fromZero_sub_one]

namespace Job

theorem ends_relabel (job : Job) : (job.relabel g before).ends = job.ends := by
  cases job <;> rfl

theorem context_relabel (job : Job) : (job.relabel g before).context = job.context := by
  cases job <;> rfl

theorem grow_relabel (job : Job) (v : String) :
    (job.relabel g before).grow v = (job.grow v).relabel g before := by
  cases job with
  | signature head inOptions =>
    cases inOptions with
    | true => rfl
    | false =>
      simp only [grow, relabel, sign]
      split_ifs <;> rfl
  | document nodes => rfl
  | body head inEnum members => rfl
  | tail head => rfl
  | skip ends => rfl

theorem close_relabel {job : Job} (h : job.ends ≠ []) (line : Int) :
    (job.relabel g before).close (g line) = Node.relabelAll g (job.close line) := by
  cases job with
  | document nodes => exact absurd rfl h
  | body head inEnum members =>
    simp only [relabel, close, ← Node.relabelAll_reverse, Head.close_relabel, Node.relabelAll]
  | signature head inOptions => exact congrArg (fun n ↦ [n]) (head.close_relabel line [])
  | tail head => exact congrArg (fun n ↦ [n]) (head.close_relabel line [])
  | skip ends => rfl

theorem receive_relabel (job : Job) (ns : List Node) :
    (job.relabel g before).receive (Node.relabelAll g ns) =
      (job.receive ns).relabel g before := by
  cases job with
  | document nodes =>
    simp [relabel, receive, Node.relabelAll_append, Node.relabelAll_reverse]
  | body head inEnum members =>
    simp [relabel, receive, Node.relabelAll_append, Node.relabelAll_reverse]
  | signature head inOptions => rfl
  | tail head => rfl
  | skip ends => rfl

theorem truncations_relabel (job : Job) (line : Int) (u : List Bracket) :
    (job.relabel g before).truncations (g line) u =
      (job.truncations line u).map (Truncation.relabel g) := by
  simp only [truncations, ends_relabel]
  split_ifs <;> rfl

end Job

theorem Unnamed.named_relabel (before : List Node) (pending : Unnamed) (v : String) (line : Int) :
    (pending.relabel g).named v (g line) = (pending.named v line).relabel g before := by
  cases pending with
  | block word start => rfl
  | method start => rfl
  | field start detail shape =>
    simp only [relabel, named]
    split_ifs <;> simp [Job.relabel, Head.relabel, Node.relabelAll, fromZero_sub_one]

theorem Token.value_relabel (t : Token) : (t.relabel g).value = t.value := rfl

theorem Bracket.nest_relabel (u : List Bracket) (t : Token) :
    nest u (t.relabel g) = (nest u t).mapError (Mismatch.relabel g) := by
  cases hm : mark t.value with
  | plain => simp only [nest, Token.value_relabel, hm]; rfl
  | opening b => simp only [nest, Token.value_relabel, hm]; rfl
  | closing b =>
    cases u with
    | nil => simp only [nest, Token.value_relabel, hm]; rfl
    | cons a u =>
      simp only [nest, Token.value_relabel, hm]
      split_ifs <;> rfl

namespace Frame

theorem ofField_relabel (inEnum : Bool) (v : String) (start : Int) :
    ofField inEnum v (fromZero g start) = (ofField inEnum v start).relabel g before := by
  unfold ofField
  split_ifs
  · rfl
  · rfl
  · split <;> rfl

theorem ofToken?_relabel (c : Option Bool) (v : String) (start : Int) :
    ofToken? c v (fromZero g start) = (ofToken? c v start).map (relabel g before) := by
  unfold ofToken?
  split
  · rfl
  split
  · rfl
  split_ifs
  · rfl
  · rfl
  · rfl
  · cases c with
    | none => rfl
    | some inEnum => exact congrArg some (ofField_relabel inEnum v start)

variable {u : List Bracket} {t : Token} {job : Job}

theorem settle_relabel (u : List Bracket) (t : Token) (job : Job) :
    settle u (t.relabel g) (job.relabel g before) = (settle u t job).relabel g before := by
  by_cases he : u = [] ∧ t.value ∈ job.ends
  · obtain ⟨rfl, he⟩ := he
    have he' : (t.relabel g).value ∈ (job.relabel g before).ends := by rwa [Job.ends_relabel]
    rw [settle_of_mem he, settle_of_mem he']
    exact congrArg Move.pop (Job.close_relabel (List.ne_nil_of_mem he) t.line)
  · have hs : u = [] → t.value ∉ job.ends := fun hu hm ↦ he ⟨hu, hm⟩
    have hs' : u = [] → (t.relabel g).value ∉ (job.relabel g before).ends := by
      rwa [Job.ends_relabel]
    rw [settle_of_not_mem hs, settle_of_not_mem hs']
    rfl

theorem visit_relabel (u : List Bracket) (t : Token) (job : Job) :
    visit u (t.relabel g) (job.relabel g before) = (visit u t job).relabel g before := by
  have hz : (t.relabel g).line - 1 = fromZero g (t.line - 1) := (fromZero_sub_one g t.line).symm
  cases hc : job.context with
  | none =>
    rw [visit_eq_settle hc, visit_eq_settle ((Job.context_relabel job).trans hc),
      Token.value_relabel, Job.grow_relabel, settle_relabel]
  | some c =>
    rw [visit_eq_enter hc, visit_eq_enter ((Job.context_relabel job).trans hc), enter, enter,
      Token.value_relabel, hz, ofToken?_relabel]
    cases ofToken? c t.value (t.line - 1) with
    | none => exact settle_relabel u t job
    | some inner => rfl

theorem visitMap_relabel (u : List Bracket) (start : Int) (detail v : String) :
    visitMap u (fromZero g start) detail v = (visitMap u start detail v).relabel g before := by
  simp only [visitMap]
  split_ifs <;> rfl

theorem read_relabel (f : Frame) (t : Token) :
    (f.relabel g before).read (t.relabel g) =
      ((f.read t).map (Move.relabel g before)).mapError (Mismatch.relabel g) := by
  cases f with
  | scan u job =>
    simp only [relabel, read, Bracket.nest_relabel]
    cases Bracket.nest u t with
    | error m => rfl
    | ok v => exact congrArg Except.ok (visit_relabel v t job)
  | name pending =>
    simp only [relabel, read, Except.map, Except.mapError, Move.relabel]
    rw [← Unnamed.named_relabel before]
    rfl
  | fieldType start c => rfl
  | mapType u start detail =>
    simp only [relabel, read, Bracket.nest_relabel]
    cases Bracket.nest u t with
    | error m => rfl
    | ok v => exact congrArg (Except.ok ∘ Move.go) (visitMap_relabel v start detail t.value)

theorem receive_relabel (f : Frame) (ns : List Node) :
    (f.relabel g before).receive (Node.relabelAll g ns) = (f.receive ns).relabel g before := by
  cases f with
  | scan u job => exact congrArg (scan u) (job.receive_relabel ns)
  | name pending => rfl
  | fieldType start c => rfl
  | mapType u start detail => rfl

end Frame

theorem Stack.read_relabel (s : Stack) (t : Token) :
    (s.relabel g before).read (t.relabel g) =
      ((s.read t).map (Step.relabel g before)).mapError (Mismatch.relabel g) := by
  obtain ⟨f, outer⟩ := s
  simp only [read, relabel, Frame.read_relabel]
  cases f.read t with
  | error m => rfl
  | ok m =>
    refine congrArg Except.ok ?_
    cases m with
    | go f' => rfl
    | push f' inner => rfl
    | pop nodes =>
      cases outer with
      | nil => rfl
      | cons h outer =>
        simp only [Frame.Move.relabel, List.map_cons, apply, Frame.receive_relabel]
        rfl

def Frame.Waits : Frame → Prop
  | scan _ job => job.ends ≠ []
  | name _ | fieldType .. | mapType .. => True

def Stack.Waiting : Frame → List Frame → Prop
  | _, [] => True
  | f, h :: outer => f.Waits ∧ Waiting h outer

theorem Unnamed.ends_named (pending : Unnamed) (v : String) (line : Int) :
    (pending.named v line).ends ≠ [] := by
  cases pending with
  | block word start => simp [named, Job.ends]
  | method start => simp [named, Job.ends]
  | field start detail shape =>
    simp only [named]
    split_ifs <;> simp [Job.ends]

theorem Frame.waits_ofToken? {c : Option Bool} {v : String} {start : Int} {f : Frame}
    (h : ofToken? c v start = some f) : f.Waits := by
  obtain ⟨word, -, rfl⟩ | ⟨-, rfl⟩ | ⟨e, -, rfl⟩ | ⟨inEnum, -, rfl⟩ := ofToken?_cases h
  · trivial
  · trivial
  · exact List.cons_ne_nil e []
  · unfold ofField
    split_ifs
    · trivial
    · exact List.cons_ne_nil _ _
    · split <;> trivial

theorem Frame.Waits.receive {f : Frame} (h : f.Waits) (ns : List Node) : (f.receive ns).Waits := by
  cases f with
  | scan u job =>
    cases job <;> exact h
  | name pending => trivial
  | fieldType start c => trivial
  | mapType u start detail => trivial

theorem Frame.Effect.waits_go {t : Token} {f f' : Frame} (h : Frame.Effect t f (.go f'))
    (hf : f.Waits) : f'.Waits := by
  cases h with
  | named pending => exact pending.ends_named t.value t.line
  | typed start c => trivial
  | mapped hn =>
    simp only [visitMap]
    split_ifs <;> trivial
  | @stays u v job hn hc he =>
    have hj : (job.grow t.value).ends ≠ [] := by
      rw [Job.ends_grow]
      exact hf
    exact hj

theorem Stack.Waiting.receive {f : Frame} {outer : List Frame} (h : Waiting f outer)
    (ns : List Node) : Waiting (f.receive ns) outer := by
  cases outer with
  | nil => trivial
  | cons k outer => exact ⟨h.1.receive ns, h.2⟩

theorem Stack.Waiting.read {s s' : Stack} {t : Token} (h : Waiting s.inner s.outer)
    (hr : s.read t = .ok (.more s')) : Waiting s'.inner s'.outer := by
  obtain ⟨f, outer⟩ := s
  obtain ⟨f', he, rfl⟩ | ⟨f', inner, he, rfl⟩ | ⟨nodes, k, fs, he, ho, rfl⟩ := read_more_cases hr
  · cases outer with
    | nil => trivial
    | cons k outer => exact ⟨he.waits_go h.1, h.2⟩
  · cases he with
    | begins hc hi => exact ⟨Frame.waits_ofToken? hi, h⟩
  · obtain rfl : outer = k :: fs := ho
    exact Stack.Waiting.receive h.2 nodes

theorem Unnamed.cutShort_relabel (pending : Unnamed) (g : Int → Int) (line : Int) :
    (pending.relabel g).cutShort (g line) =
      ((pending.cutShort line).1.map (Truncation.relabel g),
        Node.relabelAll g (pending.cutShort line).2) := by
  -- A field has nothing in front of it, so any choice of `before` will do.
  simp only [cutShort, named_relabel [], Job.truncations_relabel, List.map_cons,
    Job.close_relabel (pending.ends_named "" line)]
  rfl

theorem Frame.Waits.cutShort_relabel {f : Frame} (h : f.Waits) (line : Int) :
    (f.relabel g before).cutShort (g line) =
      ((f.cutShort line).1.map (Truncation.relabel g),
        Node.relabelAll g (f.cutShort line).2) := by
  cases f with
  | scan u job =>
    simp only [relabel, cutShort, Job.truncations_relabel, Job.close_relabel h]
  | name pending => exact pending.cutShort_relabel g line
  | fieldType start c =>
    have hp := (Unnamed.typed start c "").cutShort_relabel g line
    simp only [Unnamed.typed, Unnamed.relabel] at hp
    simp only [relabel, cutShort, Unnamed.typed, hp]
    rfl
  | mapType u start detail =>
    have hp := (Unnamed.mapped start detail).cutShort_relabel g line
    simp only [Unnamed.mapped, Unnamed.relabel] at hp
    simp only [relabel, cutShort, Unnamed.mapped, hp]
    rfl

theorem Stack.cutShort_relabel {f : Frame} {outer : List Frame} (hr : Rooted f outer)
    (hw : Waiting f outer) (line : Int) :
    cutShort (g line) (f.relabel g before) (outer.map (Frame.relabel g before)) =
      ((cutShort line f outer).1.map (Truncation.relabel g),
        before ++ Node.relabelAll g (cutShort line f outer).2) := by
  induction outer generalizing f with
  | nil =>
    obtain ⟨u, nodes, rfl⟩ : ∃ u nodes, f = .scan u (.document nodes) := hr
    simp only [cutShort, Frame.relabel, List.map_nil, Frame.cutShort, Job.truncations_relabel]
    simp [Job.relabel, Job.close, Node.relabelAll_reverse]
  | cons k outer ih =>
    have hrk : Rooted k outer := hr
    have hk := ih (hrk.receive (f.cutShort line).2) (hw.2.receive (f.cutShort line).2)
    simp only [cutShort, List.map_cons, hw.1.cutShort_relabel, Frame.receive_relabel, hk,
      List.map_append]

namespace Reading

/-- The second outcome is the first one with other lines, after the declarations `before`. -/
structure Relabels (g : Int → Int) (before : List Node) (r r' : Reading) : Prop where
  nodes : r'.nodes = (r.nodes.map (before ++ Node.relabelAll g ·)).mapError (Mismatch.relabel g)
  truncations : r'.truncations = r.truncations.map (Truncation.relabel g)

theorem Relabels.result {r r' : Reading} (h : Relabels g before r r') (strict : Bool) :
    r'.result strict = ((r.result strict).map (before ++ Node.relabelAll g ·)).mapError
      (Fault.relabel g) := by
  obtain ⟨nodes, truncations, cursor⟩ := r
  obtain ⟨nodes', truncations', cursor'⟩ := r'
  obtain ⟨rfl, rfl⟩ : nodes' = _ ∧ truncations' = _ := ⟨h.nodes, h.truncations⟩
  cases nodes with
  | error m => rfl
  | ok nodes =>
    cases strict with
    | false => rfl
    | true => cases truncations <;> rfl

/-- A run of a whole schema goes the same way on other lines and after other declarations. -/
theorem relabels_run {s : Stack} (hr : Stack.Rooted s.inner s.outer)
    (hw : Stack.Waiting s.inner s.outer) (line : Int) (ts : List Token) :
    Relabels g before (run s line ts)
      (run (s.relabel g before) (g line) (ts.map (Token.relabel g))) := by
  induction ts generalizing s line with
  | nil =>
    have hc : Stack.cutShort (g line) (s.relabel g before).inner (s.relabel g before).outer = _ :=
      Stack.cutShort_relabel hr hw line
    simp only [List.map_nil, run, hc]
    exact ⟨rfl, rfl⟩
  | cons t ts ih =>
    simp only [List.map_cons, run, Stack.read_relabel]
    cases hread : s.read t with
    | error m => exact ⟨rfl, rfl⟩
    | ok r =>
      obtain ⟨s', rfl, hr'⟩ := hr.read hread
      exact ih hr' (hw.read hread) t.line

theorem relabels_root (g : Int → Int) (before : List Node) (line line' : Int) (ts : List Token) :
    Relabels g before (run root line ts)
      (run (root.relabel g before) line' (ts.map (Token.relabel g))) := by
  have hroot : Stack.Rooted root.inner root.outer := ⟨[], [], rfl⟩
  have h : Relabels g before (run root line ts) _ := relabels_run hroot trivial line ts
  -- A schema that has not been begun has nothing on any line.
  cases ts with
  | nil => exact ⟨h.nodes, h.truncations⟩
  | cons t ts => exact h

theorem Relabels.records {r r' : Reading} (h : Relabels g [] r r') (strict : Bool) :
    r'.records strict =
      (if strict then [] else r.truncations.map fun t ↦ truncationRecord (t.relabel g)) ++
        match r.result strict with
        | .ok nodes => [successRecord nodes]
        | .error _ => [] := by
  have hsuccess : ∀ nodes, successRecord (Node.relabelAll g nodes) = successRecord nodes := by
    intro nodes
    simp [successRecord, Node.relabelAll_eq_map]
  simp only [Reading.records, h.truncations, h.result, List.map_map]
  cases r.result strict with
  | error f => rfl
  | ok nodes => exact congrArg (_ ++ [·]) (hsuccess nodes)

end Reading

def relabelResult (g : Int → Int) (r : Except Fault (List Node)) : Except Fault (List Node) :=
  (r.map (Node.relabelAll g)).mapError (Fault.relabel g)

theorem Token.relabel_const (line : Int) (ts : List Token) :
    ts.map (Token.relabel fun _ ↦ line) = (ts.map Token.value).map fun v ↦ ⟨v, line⟩ := by
  rw [List.map_map]
  rfl

/-- Layout never influences structure. Tokens on other lines give the same outline, fault and
records on those lines; and two texts with the same lexemes have the same outline or fault once all
lines are taken for one. -/
theorem outline_relabel :
    (∀ (g : Int → Int) (ts : List Token) (strict : Bool),
      let r := outlineTokens ts
      let r' := outlineTokens (ts.map (Token.relabel g))
      r'.result strict = relabelResult g (r.result strict) ∧
      r'.truncations = r.truncations.map (Truncation.relabel g) ∧
      r'.records strict =
        (if strict then [] else r.truncations.map fun t ↦ Reading.truncationRecord (t.relabel g)) ++
          match r.result strict with
          | .ok nodes => [Reading.successRecord nodes]
          | .error _ => []) ∧
    ∀ (text text' : String) (strict : Bool) (line : Int),
      (tokenize text).map Token.value = (tokenize text').map Token.value →
        relabelResult (fun _ ↦ line) (outline strict text) =
          relabelResult (fun _ ↦ line) (outline strict text') := by
  have h : ∀ g ts, Reading.Relabels g [] (outlineTokens ts)
      (outlineTokens (ts.map (Token.relabel g))) :=
    fun g ts ↦ Reading.relabels_root g [] 1 1 ts
  refine ⟨fun g ts strict ↦ ?_, fun text text' strict line hv ↦ ?_⟩
  · exact ⟨(h g ts).result strict, (h g ts).truncations, (h g ts).records strict⟩
  · calc
      relabelResult (fun _ ↦ line) (outline strict text)
        = (outlineTokens ((tokenize text).map (Token.relabel fun _ ↦ line))).result strict :=
          ((h _ _).result strict).symm
      _ = (outlineTokens ((tokenize text').map (Token.relabel fun _ ↦ line))).result strict := by
          rw [Token.relabel_const, Token.relabel_const, hv]
      _ = relabelResult (fun _ ↦ line) (outline strict text') := (h _ _).result strict

/-- An enum that is cut short, on one line and on three. -/
theorem outline_relabel_spread_out :
    let text := "enum E \x7b A = 0;"
    let text' := "enum E // cut\n\x7b A = 0\n ;"
    (tokenize text).map Token.value = (tokenize text').map Token.value ∧
    outline true text = .error (.truncated ⟨1, ["\x7d"], ["\x7b"]⟩) ∧
    outline true text' = .error (.truncated ⟨3, ["\x7d"], ["\x7b"]⟩) ∧
    relabelResult (fun _ ↦ 1) (outline true text) = relabelResult (fun _ ↦ 1) (outline true text') :=
  ⟨by decide, by rfl, by rfl, outline_relabel.2 _ _ true 1 (by decide)⟩

end SchemaOutline
