import SchemaOutline.Proofs.Outline.Matching

namespace SchemaOutline

open SchemaOutline.Bracket Stack

namespace Stack

/-- The outermost of the frames is a scan inside a brace, up to the end of that brace. -/
def Braced : Frame → List Frame → Prop
  | f, [] => ∃ u job, f = .scan (u ++ [.curly]) job ∧ job.ends = ["\x7d"]
  | _, g :: outer => Braced g outer

variable {s s' : Stack} {t : Token} {ts : List Token}

theorem braced_nil_iff {f : Frame} :
    Braced f [] ↔ ∃ u job, f = .scan (u ++ [.curly]) job ∧ job.ends = ["\x7d"] := Iff.rfl

theorem Braced.receive {f : Frame} {outer : List Frame} (h : Braced f outer) (nodes : List Node) :
    Braced (f.receive nodes) outer := by
  cases outer with
  | nil =>
    obtain ⟨u, job, rfl, he⟩ := h
    refine ⟨u, job.receive nodes, rfl, ?_⟩
    cases job <;> exact he
  | cons g outer => exact h

theorem Braced.unclosed_ne_nil {f : Frame} {outer : List Frame} (h : Braced f outer) :
    unclosed ⟨f, outer⟩ ≠ [] := by
  induction outer generalizing f with
  | nil =>
    obtain ⟨u, job, rfl, -⟩ := h
    simp [unclosed, Frame.unclosed]
  | cons g outer ih =>
    have hg := ih h
    simp only [unclosed, List.flatMap_cons, ne_eq, List.append_eq_nil_iff, not_and] at hg ⊢
    exact fun _ ↦ hg

theorem nest_inside {u v : List Bracket} (h : nest (u ++ [.curly]) t = .ok v) :
    (∃ w, v = w ++ [.curly]) ∨ v = [] ∧ t.value = "\x7d" := by
  obtain ⟨-, rfl⟩ | ⟨b, -, rfl⟩ | ⟨b, hm, hu⟩ := nest_cases h
  · exact .inl ⟨u, rfl⟩
  · exact .inl ⟨b :: u, rfl⟩
  · cases u with
    | nil =>
      obtain ⟨rfl, rfl⟩ := List.cons.inj hu
      exact .inr ⟨rfl, eq_closer_of_mark hm⟩
    | cons a u =>
      obtain ⟨rfl, rfl⟩ := List.cons.inj hu
      exact .inl ⟨u, rfl⟩

theorem Braced.read (h : Braced s.inner s.outer) (hr : s.read t = .ok (.more s')) :
    Braced s'.inner s'.outer := by
  obtain ⟨f, outer⟩ := s
  cases outer with
  | nil =>
    obtain ⟨u, job, rfl, he⟩ := braced_nil_iff.1 h
    obtain ⟨g, heffect, rfl⟩ | ⟨g, inner, heffect, rfl⟩ | ⟨nodes, g, gs, -, ho, -⟩ :=
      read_more_cases hr
    · cases heffect with
      | @stays _ v _ hn hc hends =>
        obtain ⟨w, rfl⟩ | ⟨rfl, ht⟩ := nest_inside hn
        · exact ⟨w, job.grow t.value, rfl, by rw [Job.ends_grow, he]⟩
        · exact absurd (by simp [he, ht]) (hends rfl)
    · cases heffect with
      | begins hc hi => exact ⟨u, job, rfl, he⟩
    · cases ho
  | cons k outer =>
    have hk : Braced k outer := h
    obtain ⟨g, -, rfl⟩ | ⟨g, inner, -, rfl⟩ | ⟨nodes, g, gs, -, ho, rfl⟩ := read_more_cases hr
    · exact hk
    · exact hk
    · obtain ⟨rfl, rfl⟩ := List.cons.inj ho
      exact hk.receive nodes

def discarding (u : List Bracket) : Stack := ⟨.scan u (.skip ["\x7d"]), []⟩

theorem read_discard {u v : List Bracket} (hn : nest u t = .ok v) (hv : v ≠ []) :
    (discarding u).read t = .ok (.more (discarding v)) := by
  have h : Frame.Effect t (.scan u (.skip ["\x7d"])) (.go (.scan v (.skip ["\x7d"]))) :=
    .stays hn (fun c hc ↦ nomatch hc) (fun h ↦ absurd h hv)
  exact read_eq_ok_iff.2 ⟨_, h, rfl⟩

theorem read_discard_end {u : List Bracket} (hn : nest u t = .ok []) (ht : t.value = "\x7d") :
    (discarding u).read t = .ok (.done []) := by
  have h : Frame.Effect t (.scan u (.skip ["\x7d"])) (.pop []) :=
    .ends hn (fun c hc ↦ nomatch hc) (by simp [Job.ends, ht])
  exact read_eq_ok_iff.2 ⟨_, h, rfl⟩

/-- The frames together open and close brackets as one frame would that discards the tokens. -/
theorem Braced.reads_discard (h : Reads s ts s') (hb : Braced s.inner s.outer)
    (ht : ∀ t ∈ Reading.readBy Frame.takes s ts, isBracket t.value = false) :
    Reads (discarding s.unclosed) ts (discarding s'.unclosed) ∧ Braced s'.inner s'.outer := by
  induction h with
  | nil s => exact ⟨.nil _, hb⟩
  | @cons s s₁ s' t ts hr h ih =>
    have hb₁ := hb.read hr
    have hnest : nest s.unclosed t = .ok s₁.unclosed := by
      cases hk : s.inner.takes with
      | false => exact nest_unclosed hr hk
      | true =>
        -- A name leaves the brackets as they are. To a scan that discards it, it must be no bracket.
        have hplain : isBracket t.value = false := ht t (by simp [Reading.readBy, hk])
        rw [unclosed_eq hr hk]
        exact nest_plain (isBracket_eq_false.1 hplain) _
    have hrest : ∀ t ∈ Reading.readBy Frame.takes s₁ ts, isBracket t.value = false := by
      intro t' ht'
      exact ht t' (by simp [Reading.readBy, hr, ht'])
    obtain ⟨hreads, hb'⟩ := ih hb₁ hrest
    exact ⟨.cons (read_discard hnest hb₁.unclosed_ne_nil) hreads, hb'⟩

theorem Braced.read_done (h : Braced s.inner s.outer) {nodes : List Node}
    (hr : s.read t = .ok (.done nodes)) : nest s.unclosed t = .ok [] ∧ t.value = "\x7d" := by
  obtain ⟨f, outer⟩ := s
  obtain ⟨m, he, hm⟩ := read_eq_ok_iff.1 hr
  cases outer with
  | nil =>
    obtain ⟨u, job, rfl, hends⟩ := braced_nil_iff.1 h
    cases he with
    | begins hc hi => cases hm
    | stays hn hc he => cases hm
    | ends hn hc he =>
      refine ⟨?_, by simpa [hends] using he⟩
      simpa [unclosed, Frame.unclosed] using hn
  | cons g outer => cases m <;> cases hm

end Stack

namespace Reading

variable {o : Token} {ts : List Token}

/-- No bracket is taken for a name, or for the type after a cardinality, on the way from `s`. -/
def TakesNoBracket (s : Stack) (ts : List Token) : Prop :=
  ∀ t ∈ readBy Frame.takes s ts, isBracket t.value = false

instance (s : Stack) (ts : List Token) : Decidable (TakesNoBracket s ts) :=
  inferInstanceAs (Decidable (∀ t ∈ readBy Frame.takes s ts, isBracket t.value = false))

def EndsAsDiscarded (r : Reading) (ts : List Token) : Prop :=
  ∀ line, (Cursor.skip ⟨ts, line⟩ ["\x7d"]).result true = .ok [] ∧
    (Cursor.skip ⟨ts, line⟩ ["\x7d"]).cursor = r.cursor

theorem mem_readBy_append {kind : Frame → Bool} {s : Stack} {t : Token} {us : List Token}
    (h : t ∈ readBy kind s ts) : t ∈ readBy kind s (ts ++ us) := by
  induction ts generalizing s with
  | nil => cases h
  | cons a ts ih =>
    simp only [readBy, List.cons_append, List.mem_append] at h ⊢
    refine h.imp id fun h ↦ ?_
    split at h
    · exact ih h
    · exact h

theorem TakesNoBracket.after {s s' : Stack} {us : List Token} (h : Reads s ts s')
    (ht : TakesNoBracket s (ts ++ us)) : TakesNoBracket s' us := by
  induction h with
  | nil => exact ht
  | cons hr h ih =>
    refine ih fun t ht' ↦ ht t ?_
    simp only [List.cons_append, readBy, hr, List.mem_append]
    exact .inr ht'

theorem run_discard_of_braced {s : Stack} (hb : Braced s.inner s.outer) (line : Int)
    {nodes : List Node} (h : (run s line ts).result true = .ok nodes) (ht : TakesNoBracket s ts)
    (line' : Int) :
    run (discarding s.unclosed) line' ts = ⟨.ok [], [], (run s line ts).cursor⟩ := by
  obtain ⟨hn, htr⟩ := result_eq_ok_iff.1 h
  obtain ⟨s', ⟨hs, he⟩ | ⟨before, t, after, rfl, hs, ⟨m, hr, he⟩ | ⟨ns, hr, he⟩⟩⟩ :=
    exists_reads s line ts
  · -- At the end of the text the brace would still be open.
    have hb' := (hb.reads_discard hs ht).2
    have hcut : (Stack.cutShort (lineAfter line ts) s'.inner s'.outer).1 = [] := by
      rw [he] at htr
      exact htr rfl
    exact absurd (unclosed_of_cutShort hcut) hb'.unclosed_ne_nil
  · rw [he] at hn
    cases hn
  · have hbefore : TakesNoBracket s before := fun t ht' ↦ ht t (mem_readBy_append ht')
    obtain ⟨hreads, hb'⟩ := hb.reads_discard hs hbefore
    obtain ⟨hnest, hvalue⟩ := hb'.read_done hr
    rw [run_append hreads, he]
    simp only [run, read_discard_end hnest hvalue]

theorem endsAsDiscarded_of_reads {s : Stack} {before : List Token} {head : Head} {inEnum : Bool}
    {members nodes : List Node} (hs : Reads s before ⟨.scan [] (.body head inEnum members), []⟩)
    (line : Int) (ho : o.value = "\x7b")
    (h : (run s line (before ++ o :: ts)).result true = .ok nodes)
    (ht : TakesNoBracket s (before ++ o :: ts)) :
    EndsAsDiscarded (run s line (before ++ o :: ts)) (o :: ts) := by
  have hmark : mark o.value = .opening .curly := by rw [ho]; rfl
  -- Behind the brace both scans have the same bracket open.
  have hopen : Reads ⟨.scan [] (.body head inEnum members), []⟩ [o]
      ⟨.scan [.curly] (.body head inEnum members), []⟩ := by
    refine .go (.stays (nest_opening hmark []) ?_ (fun hv ↦ nomatch hv))
    intro c _
    rw [Option.eq_none_iff_forall_ne_some]
    intro f hf
    cases hmark.symm.trans (Frame.ofToken?_plain hf)
  have hflat : Reads (discarding []) [o] (discarding [.curly]) :=
    .cons (read_discard (nest_opening hmark []) (by simp)) (.nil _)
  have hb : Braced (.scan [.curly] (.body head inEnum members)) [] :=
    ⟨[], .body head inEnum members, rfl, rfl⟩
  have hbody : TakesNoBracket ⟨.scan [.curly] (.body head inEnum members), []⟩ ts :=
    .after hopen (.after hs ht)
  have hrun : run s line (before ++ o :: ts) =
      run ⟨.scan [.curly] (.body head inEnum members), []⟩ o.line ts :=
    (run_append hs line _).trans (run_append hopen _ ts)
  rw [hrun] at h ⊢
  intro line'
  have hskip : Cursor.skip ⟨o :: ts, line'⟩ ["\x7d"] = run (discarding [.curly]) o.line ts :=
    run_append hflat line' ts
  have hend := run_discard_of_braced hb o.line h hbody o.line
  rw [hskip]
  exact hend ▸ ⟨rfl, rfl⟩

end Reading

open Reading

/-- The body of a block, or of a oneof with or without a cardinality, ends where a scan ends that
discards it: what is declared inside has all its brackets closed. -/
theorem body_endsAsDiscarded (c : Cursor) (brace : Token) (ts : List Token)
    (hb : brace.value = "\x7b") :
    (∀ (word : BlockWord) (name : Token) (nodes : List Node), c.rest = name :: brace :: ts →
      (c.block word).result true = .ok nodes →
      TakesNoBracket ⟨.name (.block word c.here), []⟩ c.rest →
      EndsAsDiscarded (c.block word) (brace :: ts)) ∧
    (∀ (name : Token) (nodes : List Node), c.rest = name :: brace :: ts →
      (c.field false "oneof").result true = .ok nodes →
      TakesNoBracket ⟨.ofField false "oneof" c.here, []⟩ c.rest →
      EndsAsDiscarded (c.field false "oneof") (brace :: ts)) ∧
    (∀ (label : Cardinality) (typeName name : Token) (nodes : List Node),
      typeName.value = "oneof" → c.rest = typeName :: name :: brace :: ts →
      (c.field false label.spelling).result true = .ok nodes →
      TakesNoBracket ⟨.ofField false label.spelling c.here, []⟩ c.rest →
      EndsAsDiscarded (c.field false label.spelling) (brace :: ts)) := by
  obtain ⟨rest, line⟩ := c
  refine ⟨?_, ?_, ?_⟩
  · rintro word name nodes rfl h ht
    have hs : Reads ⟨.name (.block word (line - 1)), []⟩ [name]
        ⟨.scan [] ((Unnamed.block word (line - 1)).named name.value name.line), []⟩ :=
      .go (.named _)
    exact endsAsDiscarded_of_reads hs line hb h ht
  · rintro name nodes rfl h ht
    have hs : Reads ⟨.name (.field (line - 1) "oneof" { typeName := "oneof" }), []⟩ [name]
        ⟨.scan [] (.body ⟨name.value, "oneof", _, line - 1, name.line - 1⟩ false []), []⟩ :=
      .go (.named _)
    exact endsAsDiscarded_of_reads hs line hb h ht
  · rintro label typeName name nodes ho rfl h ht
    have hfield : Frame.ofField false label.spelling (line - 1) = .fieldType (line - 1) label := by
      cases label <;> rfl
    have hs : Reads ⟨.ofField false label.spelling (line - 1), []⟩ [typeName, name]
        ⟨.scan [] ((Unnamed.typed (line - 1) label "oneof").named name.value name.line), []⟩ := by
      rw [hfield, ← ho]
      exact .trans (.go (.typed _ _)) (.go (.named _))
    exact endsAsDiscarded_of_reads hs line hb h ht

/-- One body for a message and for a oneof, with a map, options and a oneof in it. -/
theorem body_endsAsDiscarded_nested :
    let brace : Token := ⟨"\x7b", 1⟩
    let body := tokenize "map<int32, C> m = 1 [(x) = \x7b\x7d]; oneof o \x7b D d = 2; \x7d \x7d ;"
    let c : Cursor := ⟨⟨"A", 1⟩ :: brace :: body, 1⟩
    let labelled : Cursor := ⟨⟨"oneof", 1⟩ :: c.rest, 1⟩
    (c.block .message).cursor.rest = [⟨";", 1⟩] ∧
      EndsAsDiscarded (c.block .message) (brace :: body) ∧
      EndsAsDiscarded (c.field false "oneof") (brace :: body) ∧
      EndsAsDiscarded (labelled.field false "repeated") (brace :: body) := by
  intro brace body c labelled
  refine ⟨by rfl, ?_, ?_, ?_⟩
  · exact (body_endsAsDiscarded c brace body rfl).1 .message _ _ rfl (by rfl) (by decide)
  · exact (body_endsAsDiscarded c brace body rfl).2.1 _ _ rfl (by rfl) (by decide)
  · exact (body_endsAsDiscarded labelled brace body rfl).2.2 .repeated _ _ _ rfl rfl (by rfl)
      (by decide)

end SchemaOutline
