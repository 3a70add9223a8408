import SchemaOutline.Proofs.Outline.Steps
import SchemaOutline.Proofs.Outline.Syntax

namespace SchemaOutline

open SchemaOutline.Bracket Stack Syntax

variable {ts : List Token} {outer : List Frame} {u : List Bracket} {job : Job}

section Scanning

variable {σ : Type} {ends : List String} (F : List Bracket → σ → Frame) (grow : σ → Token → σ)

/-- The frames go on at every token allowed, unless one of `ends` leaves no bracket open. -/
structure GoesOn (ends : List String) (allowed : Token → Prop) : Prop where
  step {u v : List Bracket} {t : Token} (a : σ) (ha : allowed t) (hn : nest u t = .ok v)
    (he : v = [] → t.value ∉ ends) : Frame.Effect t (F u a) (.go (F v (grow a t)))

variable {F grow} {allowed : Token → Prop}

theorem GoesOn.reads_wellNested (hF : GoesOn F grow ends allowed) (h : WellNested ts)
    (ha : ∀ t ∈ ts, allowed t) (hu : u ≠ []) (a : σ) :
    Reads ⟨F u a, outer⟩ ts ⟨F u (ts.foldl grow a), outer⟩ := by
  induction h generalizing u a with
  | nil => exact .nil _
  | plain ht h ih =>
    rw [List.forall_mem_cons] at ha
    have hgo := hF.step a ha.1 (nest_plain ht u) (fun hv ↦ absurd hv hu)
    exact (Reads.go hgo).trans (ih ha.2 hu _)
  | @group b o c ts us ho h hc h' ih ih' =>
    rw [List.cons_append, List.forall_mem_cons, List.forall_mem_append,
      List.forall_mem_cons] at ha
    obtain ⟨hao, hats, hac, haus⟩ := ha
    rw [List.foldl_append]
    have hopen := hF.step a hao (nest_opening ho u) (fun hv ↦ nomatch hv)
    have hinside := ih hats (List.cons_ne_nil b u) (grow a o)
    have hclose := hF.step (ts.foldl grow (grow a o)) hac (nest_closing hc u)
      (fun hv ↦ absurd hv hu)
    exact ((Reads.go hopen).trans hinside).trans ((Reads.go hclose).trans (ih' haus hu _))

theorem GoesOn.reads_clear (hF : GoesOn F grow ends allowed) (h : Clear ends ts)
    (ha : ∀ t ∈ ts, allowed t) (a : σ) :
    Reads ⟨F u a, outer⟩ ts ⟨F u (ts.foldl grow a), outer⟩ := by
  induction h generalizing a with
  | nil => exact .nil _
  | plain ht he h ih =>
    rw [List.forall_mem_cons] at ha
    exact (Reads.go (hF.step a ha.1 (nest_plain ht u) (fun _ ↦ he))).trans (ih ha.2 _)
  | @group b o c ts us ho h hc he h' ih =>
    rw [List.cons_append, List.forall_mem_cons, List.forall_mem_append,
      List.forall_mem_cons] at ha
    obtain ⟨hao, hats, hac, haus⟩ := ha
    rw [List.foldl_append]
    have hopen := hF.step a hao (nest_opening ho u) (fun hv ↦ nomatch hv)
    have hclose := hF.step (ts.foldl grow (grow a o)) hac (nest_closing hc u) (fun _ ↦ he)
    have hinside : Reads ⟨F (b :: u) (grow a o), outer⟩ ts ⟨F (b :: u) _, outer⟩ :=
      hF.reads_wellNested h hats (List.cons_ne_nil b u) (grow a o)
    exact ((Reads.go hopen).trans hinside).trans ((Reads.go hclose).trans (ih haus _))

end Scanning

structure Job.Discards (job : Job) : Prop where
  context : job.context = none
  grow (v : String) : job.grow v = job

theorem Job.discards_tail (head : Head) : (Job.tail head).Discards := ⟨rfl, fun _ ↦ rfl⟩

theorem Job.discards_skip (ends : List String) : (Job.skip ends).Discards := ⟨rfl, fun _ ↦ rfl⟩

theorem Job.discards_options (head : Head) : (Job.signature head true).Discards :=
  ⟨rfl, fun _ ↦ rfl⟩

namespace Job.Discards

theorem goesOn (hj : job.Discards) :
    GoesOn (fun u (_ : Unit) ↦ .scan u job) (fun a _ ↦ a) job.ends (fun _ ↦ True) := by
  constructor
  intro u v t a _ hn he
  have h : Frame.Effect t (.scan u job) _ := .stays hn (by simp [hj.context]) he
  rwa [hj.grow] at h

theorem reads_nested (hj : job.Discards) (h : WellNested ts) (hu : u ≠ []) :
    Reads ⟨.scan u job, outer⟩ ts ⟨.scan u job, outer⟩ :=
  hj.goesOn.reads_wellNested h (fun _ _ ↦ trivial) hu ()

theorem reads_stretch (hj : job.Discards) (s : Stretch job.ends) :
    Reads ⟨.scan u job, outer⟩ s.tokens ⟨.scan u job, outer⟩ :=
  hj.goesOn.reads_clear s.clear (fun _ _ ↦ trivial) ()

theorem reads_end (hj : job.Discards) {t : Token} {f : Frame} (hn : nest u t = .ok [])
    (he : t.value ∈ job.ends) :
    Reads ⟨.scan u job, f :: outer⟩ [t] ⟨f.receive (job.close t.line), outer⟩ := by
  have h : Frame.Effect t (.scan u job) _ := .ends hn (by simp [hj.context]) he
  rw [hj.grow] at h
  exact .pop h

theorem reads_inside (hj : job.Discards) {b : Bracket} (g : Group b) (f : Frame)
    (he : b.closer ∈ job.ends) :
    Reads ⟨.scan [b] job, f :: outer⟩ (g.inside ++ [⟨b.closer, g.last⟩])
      ⟨f.receive (job.close g.last), outer⟩ :=
  (hj.reads_nested g.nested (by simp)).trans (hj.reads_end (nest_closing (mark_closer b) []) he)

theorem reads_group (hj : job.Discards) {b : Bracket} (g : Group b) (f : Frame)
    (he : b.closer ∈ job.ends) :
    Reads ⟨.scan [] job, f :: outer⟩ g.tokens ⟨f.receive (job.close g.last), outer⟩ := by
  have h : Frame.Effect ⟨b.opener, g.first⟩ (.scan [] job) (.go (.scan [b] job)) :=
    hj.goesOn.step () trivial (nest_opening (mark_opener b) []) (fun hv ↦ nomatch hv)
  exact (Reads.go h).trans (hj.reads_inside g f he)

theorem reads_ending (hj : job.Discards) (e : Ending) (f : Frame) (he : job.ends = enders) :
    Reads ⟨.scan [] job, f :: outer⟩ e.tokens ⟨f.receive (job.close e.line), outer⟩ := by
  cases e with
  | semicolon line => exact hj.reads_end (nest_plain rfl []) (by simp [he, enders])
  | braces g => exact hj.reads_group g f (by simp [he, enders])

end Job.Discards

theorem foldl_append_join (w : Token → String) (d : String) (ts : List Token) :
    ts.foldl (fun d t ↦ d ++ w t) d = d ++ String.join (ts.map w) := by
  induction ts generalizing d with
  | nil => simp
  | cons t ts ih =>
    simp only [List.foldl_cons, ih, List.map_cons, String.join_cons, String.append_assoc]

section Method

theorem Job.sign_eq {t : Token} (hb : t.value ≠ curly.opener) (hs : t.value ≠ ";") (head : Head) :
    Job.sign head t.value =
      .signature { head with detail := head.detail ++ signatureWord t } false := by
  have hb' : t.value ≠ "\x7b" := hb
  by_cases hr : t.value = "returns" <;> simp [Job.sign, signatureWord, hb', hs, hr]

theorem goesOn_signature (head : Head) :
    GoesOn (fun u d ↦ .scan u (.signature { head with detail := d } false))
      (fun d t ↦ d ++ signatureWord t) enders
      (fun t ↦ t.value ≠ curly.opener ∧ t.value ≠ ";") := by
  constructor
  intro u v t d ha hn he
  have h : Frame.Effect t (.scan u (.signature { head with detail := d } false)) _ :=
    .stays hn (fun _ hc ↦ nomatch hc) he
  rwa [Job.grow, Job.sign_eq ha.1 ha.2] at h

theorem reads_signature_ending (head : Head) (e : Ending) (f : Frame) :
    Reads ⟨.scan [] (.signature head false), f :: outer⟩ e.tokens
      ⟨f.receive [head.close e.line []], outer⟩ := by
  cases e with
  | semicolon line =>
    exact .pop (.ends (nest_plain rfl []) (fun _ hc ↦ nomatch hc) (by simp [Job.ends]))
  | braces g =>
    have h : Frame.Effect ⟨curly.opener, g.first⟩ (.scan [] (.signature head false))
        (.go (.scan [.curly] (.signature head true))) :=
      .stays (nest_opening (mark_opener .curly) []) (fun _ hc ↦ nomatch hc) (fun hv ↦ nomatch hv)
    exact (Reads.go h).trans
      ((Job.discards_options head).reads_inside g f (by simp [Job.ends, closer]))

theorem reads_signature (head : Head) (s : Signature) (e : Ending) (f : Frame) :
    Reads ⟨.scan [] (.signature head false), f :: outer⟩ (s.tokens ++ e.tokens)
      ⟨f.receive [{ head with detail := head.detail ++ s.text }.close e.line []], outer⟩ := by
  have h : Reads ⟨.scan [] (.signature head false), f :: outer⟩ s.tokens _ :=
    (goesOn_signature head).reads_clear s.clear
      (fun t ht ↦ ⟨s.noBrace t ht, s.noSemicolon t ht⟩) head.detail
  rw [foldl_append_join] at h
  exact h.trans (reads_signature_ending _ e f)

end Method

section MapType

theorem Frame.visitMap_eq {u : List Bracket} {t : Token} (he : u = [] → t.value ∉ [angle.closer])
    (start : Int) (d : String) :
    Frame.visitMap u start d t.value = .mapType u start (d ++ mapWord t) := by
  cases u with
  | nil =>
    have ht : t.value ≠ ">" := by simpa [closer] using he rfl
    simp [visitMap, mapWord, ht, String.append_assoc]
  | cons b u => simp [visitMap, mapWord, String.append_assoc]

theorem goesOn_mapType (start : Int) :
    GoesOn (fun u d ↦ .mapType u start d) (fun d t ↦ d ++ mapWord t) [angle.closer]
      (fun _ ↦ True) := by
  constructor
  intro u v t d _ hn he
  have h : Frame.Effect t (.mapType u start d) _ := .mapped hn
  rwa [Frame.visitMap_eq he] at h

theorem reads_types (start : Int) (d : String) (types : Group .angle) :
    Reads ⟨.mapType [] start d, outer⟩ types.tokens
      ⟨.name (.mapped start (d ++ mapText types.tokens)), outer⟩ := by
  have hgo := goesOn_mapType start
  let d' := types.inside.foldl (fun d t ↦ d ++ mapWord t) (d ++ angle.opener)
  have hopen : Frame.Effect ⟨angle.opener, types.first⟩ (.mapType [] start d)
      (.go (.mapType [.angle] start (d ++ angle.opener))) :=
    hgo.step d trivial (nest_opening (mark_opener .angle) []) (fun hv ↦ nomatch hv)
  have hinside : Reads ⟨.mapType [.angle] start (d ++ angle.opener), outer⟩ types.inside
      ⟨.mapType [.angle] start d', outer⟩ :=
    hgo.reads_wellNested types.nested (fun _ _ ↦ trivial) (by simp) _
  have hclose : Frame.Effect ⟨angle.closer, types.last⟩ (.mapType [.angle] start d')
      (.go (.name (.mapped start (d' ++ angle.closer ++ "")))) :=
    .mapped (nest_closing (mark_closer .angle) [])
  have htext : d' ++ angle.closer ++ "" = d ++ mapText types.tokens := by
    simp only [d', foldl_append_join]
    simp [mapText, Group.tokens, mapWord, opener, closer, String.append_assoc]
  rw [← htext]
  exact ((Reads.go hopen).trans hinside).trans (Reads.go hclose)

theorem reads_mapType (start : Int) (lead : Stretch [angle.closer]) (types : Group .angle) :
    Reads ⟨.mapType [] start "map", outer⟩ (lead.tokens ++ types.tokens)
      ⟨.name (.mapped start ("map" ++ mapText (lead.tokens ++ types.tokens))), outer⟩ := by
  have hlead : Reads ⟨.mapType [] start "map", outer⟩ lead.tokens _ :=
    (goesOn_mapType start).reads_clear lead.clear (fun _ _ ↦ trivial) "map"
  rw [foldl_append_join] at hlead
  have h := hlead.trans (reads_types start _ types)
  rwa [String.append_assoc, mapText, ← String.join_append, ← List.map_append] at h

end MapType

end SchemaOutline
