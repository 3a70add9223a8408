import SchemaOutline.Proofs.Outline.Concatenation
import SchemaOutline.Proofs.Outline.Lines
import SchemaOutline.Proofs.Token.Lexes

namespace SchemaOutline

open Stack

namespace Node

def names (ns : List Node) : List String := (walkAll ns).map Node.name

theorem names_cons (n : Node) (ns : List Node) :
    names (n :: ns) = n.name :: names n.children ++ names ns := by
  simp [names, walkAll_cons]

theorem names_append (ns ms : List Node) : names (ns ++ ms) = names ns ++ names ms := by
  induction ns with
  | nil => simp [names, walkAll]
  | cons n ns ih => rw [List.cons_append, names_cons, names_cons, ih, List.append_assoc]

end Node

def Job.names : Job → List String
  | document nodes => Node.names nodes.reverse
  | body head _ members => head.name :: Node.names members.reverse
  | signature head _ | tail head => [head.name]
  | skip _ => []

namespace Frame

def names : Frame → List String
  | scan _ job => job.names
  | name _ | fieldType .. | mapType .. => []

def unnamed : Frame → Bool
  | scan .. => false
  | name _ | fieldType .. | mapType .. => true

def Move.names : Move → List String
  | .go f => f.names
  | .push f g => f.names ++ g.names
  | .pop nodes => Node.names nodes

end Frame

section Names

variable {line : Int} {f : Frame} {outer : List Frame}

theorem Head.names_close (head : Head) (line : Int) (children : List Node) :
    Node.names [head.close line children] = head.name :: Node.names children := by
  rw [Node.names_cons]
  simp [Head.close, Node.names, Node.walkAll]

theorem Job.names_close (line : Int) (job : Job) : Node.names (job.close line) = job.names := by
  cases job with
  | document nodes => rfl
  | body head inEnum members => exact head.names_close line _
  | signature head inOptions => exact head.names_close line []
  | tail head => exact head.names_close line []
  | skip ends => rfl

theorem Job.names_grow (v : String) (job : Job) : (job.grow v).names = job.names := by
  unfold Job.grow
  split
  · unfold Job.sign
    split_ifs <;> rfl
  · rfl

theorem Frame.names_receive (nodes : List Node) (f : Frame) :
    (f.receive nodes).names.Sublist (f.names ++ Node.names nodes) := by
  cases f with
  | scan u job =>
    cases job with
    | document ns => simp [receive, Job.receive, names, Job.names, Node.names_append]
    | body head inEnum ns => simp [receive, Job.receive, names, Job.names, Node.names_append]
    | signature head inOptions => exact List.sublist_append_left _ _
    | tail head => exact List.sublist_append_left _ _
    | skip ends => exact List.sublist_append_left _ _
  | name pending => exact List.nil_sublist _
  | fieldType start c => exact List.nil_sublist _
  | mapType u start detail => exact List.nil_sublist _

theorem Frame.unnamed_receive (nodes : List Node) (f : Frame) :
    (f.receive nodes).unnamed = f.unnamed := by
  cases f <;> rfl

theorem Unnamed.names_named (name : String) (line : Int) (u : Unnamed) :
    (u.named name line).names = [name] := by
  cases u with
  | block word start => simp [named, Job.names, Node.names, Node.walkAll]
  | method start => rfl
  | field start detail shape =>
    simp only [named]
    split_ifs
    · simp [Job.names, Node.names, Node.walkAll]
    · rfl

theorem Frame.names_ofToken? {c : Option Bool} {v : String} {start : Int}
    (h : ofToken? c v start = some f) : f.names.Sublist [v] := by
  obtain ⟨word, -, rfl⟩ | ⟨-, rfl⟩ | ⟨e, -, rfl⟩ | ⟨inEnum, -, rfl⟩ := ofToken?_cases h
  · exact List.nil_sublist _
  · exact List.nil_sublist _
  · exact List.nil_sublist _
  · unfold ofField
    split_ifs
    · exact List.nil_sublist _
    · -- Only a value of an enum is named by its first token.
      exact List.Sublist.refl _
    · split <;> exact List.nil_sublist _

theorem Frame.Effect.names_sublist {t : Token} {m : Frame.Move} (h : Frame.Effect t f m) :
    m.names.Sublist (f.names ++ [t.value]) := by
  cases h with
  | named pending =>
    simp only [Frame.Move.names, Frame.names, Unnamed.names_named]
    exact List.Sublist.refl _
  | typed start c => exact List.nil_sublist _
  | @mapped u v start detail hn =>
    simp only [Frame.Move.names, visitMap]
    split_ifs <;> exact List.nil_sublist _
  | begins hc hi => exact (Frame.names_ofToken? hi).append_left _
  | @stays u v job hn hc he =>
    simp only [Frame.Move.names, Frame.names, Job.names_grow]
    exact List.sublist_append_left _ _
  | @ends u job hn hc he =>
    simp only [Frame.Move.names, Frame.names, Job.names_close, Job.names_grow]
    exact List.sublist_append_left _ _

/-- The names known to frames that lie one within another, the innermost first. The outer ones were
read before. -/
def namesOf (frames : List Frame) : List String := frames.reverse.flatMap Frame.names

theorem namesOf_cons (f : Frame) (outer : List Frame) :
    namesOf (f :: outer) = namesOf outer ++ f.names := by
  simp [namesOf]

theorem namesOf_receive (nodes : List Node) (f : Frame) (outer : List Frame) :
    (namesOf (f.receive nodes :: outer)).Sublist (namesOf (f :: outer) ++ Node.names nodes) := by
  rw [namesOf_cons, namesOf_cons, List.append_assoc]
  exact (f.names_receive nodes).append_left _

/-- The names known are among `values`, in their order, and only the innermost frame can still be
without a name. -/
structure Stack.Named (values : List String) (s : Stack) : Prop where
  names : (namesOf (s.inner :: s.outer)).Sublist values
  outer : ∀ g ∈ s.outer, g.unnamed = false

theorem Stack.Named.read {s s' : Stack} {t : Token} {values : List String} (h : s.Named values)
    (hr : s.read t = .ok (.more s')) : s'.Named (values ++ [t.value]) := by
  obtain ⟨inner, outer⟩ := s
  have hvalues : (namesOf outer ++ (inner.names ++ [t.value])).Sublist (values ++ [t.value]) := by
    rw [← List.append_assoc, ← namesOf_cons]
    exact h.names.append_right _
  obtain ⟨f, he, rfl⟩ | ⟨f, inner, he, rfl⟩ | ⟨nodes, g, fs, he, ho, rfl⟩ := read_more_cases hr
  · refine ⟨?_, h.outer⟩
    rw [namesOf_cons]
    exact (he.names_sublist.append_left _).trans hvalues
  · refine ⟨?_, List.forall_mem_cons.2 ⟨?_, h.outer⟩⟩
    · rw [namesOf_cons, namesOf_cons, List.append_assoc]
      exact (he.names_sublist.append_left _).trans hvalues
    · cases he with
      | begins hc hi => rfl
  · obtain rfl : outer = g :: fs := ho
    refine ⟨?_, (List.forall_mem_cons.1 h.outer).2⟩
    exact ((namesOf_receive nodes g fs).trans (he.names_sublist.append_left _)).trans hvalues

theorem Stack.Named.reads {s s' : Stack} {ts : List Token} {values : List String}
    (h : Reads s ts s') (hs : s.Named values) : s'.Named (values ++ ts.map Token.value) := by
  induction h generalizing values with
  | nil s => simpa using hs
  | @cons s s₁ s' t ts hr h ih =>
    rw [List.map_cons, List.append_cons]
    exact ih (hs.read hr)

theorem Unnamed.names_cutShort (line : Int) (u : Unnamed) :
    Node.names (u.cutShort line).2 = [""] :=
  (Job.names_close line _).trans (u.names_named "" line)

theorem Frame.names_cutShort (line : Int) (f : Frame) :
    Node.names (f.cutShort line).2 = f.names ++ if f.unnamed then [""] else [] := by
  cases f with
  | scan u job => exact (Job.names_close line job).trans (List.append_nil _).symm
  | name pending => exact pending.names_cutShort line
  | fieldType start c => exact Unnamed.names_cutShort line _
  | mapType u start detail => exact Unnamed.names_cutShort line _

theorem Stack.names_cutShort (line : Int) (f : Frame) (outer : List Frame)
    (ho : ∀ g ∈ outer, g.unnamed = false) :
    (Node.names (Stack.cutShort line f outer).2).Sublist
      (namesOf (f :: outer) ++ if f.unnamed then [""] else []) := by
  induction outer generalizing f with
  | nil =>
    rw [Stack.cutShort, Frame.names_cutShort, namesOf_cons]
    exact List.Sublist.refl _
  | cons g outer ih =>
    -- What `f` leaves is received by a scan, which adds no empty name of its own.
    obtain ⟨hg, ho⟩ := List.forall_mem_cons.1 ho
    have hrest := ih (g.receive (f.cutShort line).2) ho
    have hreceive := namesOf_receive (f.cutShort line).2 g outer
    rw [Frame.unnamed_receive, hg, if_neg Bool.false_ne_true, List.append_nil] at hrest
    rw [Frame.names_cutShort, ← List.append_assoc, ← namesOf_cons] at hreceive
    exact hrest.trans hreceive

end Names

theorem blank_last_of_sublist {names values : List String} (h : names.Sublist (values ++ [""]))
    (hv : "" ∉ values) :
    (names.filter (· ≠ "")).Sublist values ∧ names.count "" ≤ 1 ∧
      ("" ∈ names → names.getLast? = some "") := by
  obtain ⟨xs, ys, rfl, hxs, hys⟩ := List.sublist_append_iff.1 h
  have hne : "" ∉ xs := fun hmem ↦ hv (hxs.subset hmem)
  have hfilter : xs.filter (· ≠ "") = xs := by
    refine List.filter_eq_self.2 fun x hx ↦ ?_
    simpa using ne_of_mem_of_not_mem hx hne
  obtain rfl | rfl := List.sublist_singleton.1 hys
  · simp only [List.append_nil]
    exact ⟨by rwa [hfilter], by simp [List.count_eq_zero.2 hne], fun hmem ↦ absurd hmem hne⟩
  · refine ⟨?_, by simp [List.count_eq_zero.2 hne], fun _ ↦ List.getLast?_concat⟩
    rw [List.filter_append, hfilter]
    simpa using hxs

namespace Reading

variable {ts : List Token} {nodes : List Node}

theorem named_root : root.Named [] := ⟨List.Sublist.refl _, nofun⟩

theorem names_sublist (h : (outlineTokens ts).nodes = .ok nodes) :
    (Node.names nodes).Sublist (ts.map Token.value ++ [""]) := by
  obtain ⟨s, hs, he⟩ := exists_reads_of_nodes h
  have hnamed : s.Named (ts.map Token.value) := named_root.reads hs
  rw [he] at h
  obtain rfl := Except.ok.inj h
  refine (Stack.names_cutShort _ s.inner s.outer hnamed.outer).trans (hnamed.names.append ?_)
  split_ifs
  · exact List.Sublist.refl _
  · exact List.nil_sublist _

theorem names_sublist_of_strict (h : (outlineTokens ts).result true = .ok nodes) :
    (Node.names nodes).Sublist (ts.map Token.value) := by
  have hnamed : Stack.Named (ts.map Token.value) ⟨.scan [] (.document nodes.reverse), []⟩ :=
    named_root.reads (reads_document_of_result h)
  simpa [namesOf, Frame.names, Job.names] using hnamed.names

end Reading

/-- The names of an outline are tokens of the text, in its order. Only where the text is cut short
can one be missing, and then it is the last. -/
theorem outline_names (strict : Bool) (text : String) (nodes : List Node)
    (h : outline strict text = .ok nodes) :
    let names := (Node.walkAll nodes).map Node.name
    (names.filter (· ≠ "")).Sublist ((tokenize text).map Token.value) ∧
    (strict = true → "" ∉ names) ∧
    names.count "" ≤ 1 ∧ ("" ∈ names → names.getLast? = some "") := by
  intro names
  have hvalues : "" ∉ (tokenize text).map Token.value := by
    intro hmem
    obtain ⟨t, ht, hv⟩ := List.mem_map.1 hmem
    exact (Lexer.lexes_tokenize text).value_ne_empty t ht hv
  have hsub := Reading.names_sublist (Reading.result_eq_ok_iff.1 h).1
  obtain ⟨hfilter, hcount, hlast⟩ := blank_last_of_sublist hsub hvalues
  refine ⟨hfilter, ?_, hcount, hlast⟩
  rintro rfl hmem
  exact hvalues ((Reading.names_sublist_of_strict h).subset hmem)

/-- A map, an enum with a value, and a field cut short before its type and name. -/
theorem outline_names_cut_short :
    let text := "message A\x7bmap<B> m;enum E\x7bV;\x7doptional"
    let nodes : List Node :=
      [⟨"A", "message", .struct, ⟨0, 0⟩, ⟨0, 0⟩,
        [⟨"m", "map<B>", .object, ⟨0, 0⟩, ⟨0, 0⟩, []⟩,
          ⟨"E", "enum", .enum, ⟨0, 0⟩, ⟨0, 0⟩,
            [⟨"V", "", .enumMember, ⟨0, 0⟩, ⟨0, 0⟩, []⟩]⟩,
          ⟨"", "optional ", .field, ⟨0, 0⟩, ⟨0, 0⟩, []⟩]⟩]
    outline false text = .ok nodes ∧ ["A", "m", "E", "V"].Sublist ((tokenize text).map Token.value) ∧
      ((Node.walkAll nodes).map Node.name).getLast? = some "" := by
  refine ⟨?h, (outline_names false _ _ ?h).1, (outline_names false _ _ ?h).2.2.2 ?_⟩
  · rfl
  · decide

end SchemaOutline
