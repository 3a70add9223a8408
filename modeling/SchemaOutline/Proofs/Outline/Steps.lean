import SchemaOutline.Outline.Reading
import SchemaOutline.Proofs.Outline.Nesting

namespace SchemaOutline

/-- Where a declaration may begin at every token of a job, the context it would begin in. -/
def Job.context : Job → Option (Option Bool)
  | document _ => some none
  | body _ inEnum _ => some (some inEnum)
  | signature .. | tail _ | skip _ => none

def Job.grow (v : String) : Job → Job
  | signature head false => sign head v
  | job => job

theorem Job.ends_grow (v : String) (job : Job) : (job.grow v).ends = job.ends := by
  unfold grow
  split
  · unfold sign
    split_ifs <;> rfl
  · rfl

theorem Job.grow_of_context {job : Job} {c : Option Bool} (h : job.context = some c) (v : String) :
    job.grow v = job := by
  cases job <;> first | rfl | cases h

theorem eq_error_of_map {ε α β : Type} {g : α → β} {x : Except ε α} {e : ε}
    (h : x.map g = .error e) : x = .error e := by
  cases x with
  | error e' => exact congrArg Except.error (Except.error.inj h)
  | ok a => cases h

theorem Job.receive_nil (job : Job) : job.receive [] = job := by
  cases job <;> rfl

namespace Frame

theorem receive_nil (f : Frame) : f.receive [] = f := by
  cases f with
  | scan u job => rw [receive, Job.receive_nil]
  | name pending => rfl
  | fieldType start c => rfl
  | mapType u start detail => rfl

theorem ofToken?_plain {c : Option Bool} {v : String} {start : Int} {f : Frame}
    (h : ofToken? c v start = some f) : Bracket.mark v = .plain := by
  by_contra hv
  have hb : Bracket.isBracket v = true := by simpa [Bracket.isBracket] using hv
  simp [ofToken?, hb] at h

theorem ofToken?_cases {c : Option Bool} {v : String} {start : Int} {f : Frame}
    (h : ofToken? c v start = some f) :
    (∃ word, BlockWord.ofWord? v = some word ∧ f = .name (.block word start)) ∨
      (v = "rpc" ∧ f = .name (.method start)) ∨
      (∃ e, (e = ";" ∨ e = "\x7d") ∧ f = .scan [] (.skip [e])) ∨
      ∃ inEnum, c = some inEnum ∧ f = ofField inEnum v start := by
  unfold ofToken? at h
  split at h
  · cases h
  split at h
  · next word hw => exact .inl ⟨word, hw, (Option.some.inj h).symm⟩
  split_ifs at h with hr
  · exact .inr (.inl ⟨hr, (Option.some.inj h).symm⟩)
  · exact .inr (.inr (.inl ⟨_, .inr rfl, (Option.some.inj h).symm⟩))
  · exact .inr (.inr (.inl ⟨_, .inl rfl, (Option.some.inj h).symm⟩))
  · split at h
    · next inEnum => exact .inr (.inr (.inr ⟨inEnum, rfl, (Option.some.inj h).symm⟩))
    · exact .inr (.inr (.inl ⟨_, .inl rfl, (Option.some.inj h).symm⟩))

inductive Effect (t : Token) : Frame → Move → Prop
  | named (pending : Unnamed) :
      Effect t (.name pending) (.go (.scan [] (pending.named t.value t.line)))
  | typed (start : Int) (c : Cardinality) :
      Effect t (.fieldType start c) (.go (.name (.typed start c t.value)))
  | mapped {u v : List Bracket} {start : Int} {detail : String} (hn : Bracket.nest u t = .ok v) :
      Effect t (.mapType u start detail) (.go (visitMap v start detail t.value))
  | begins {u : List Bracket} {job : Job} {c : Option Bool} {inner : Frame}
      (hc : job.context = some c) (hi : ofToken? c t.value (t.line - 1) = some inner) :
      Effect t (.scan u job) (.push (.scan u job) inner)
  | stays {u v : List Bracket} {job : Job} (hn : Bracket.nest u t = .ok v)
      (hc : ∀ c, job.context = some c → ofToken? c t.value (t.line - 1) = none)
      (he : v = [] → t.value ∉ job.ends) :
      Effect t (.scan u job) (.go (.scan v (job.grow t.value)))
  | ends {u : List Bracket} {job : Job} (hn : Bracket.nest u t = .ok [])
      (hc : ∀ c, job.context = some c → ofToken? c t.value (t.line - 1) = none)
      (he : t.value ∈ job.ends) :
      Effect t (.scan u job) (.pop ((job.grow t.value).close t.line))

variable {t : Token} {u v : List Bracket} {job : Job}

theorem settle_of_mem (he : t.value ∈ job.ends) : settle [] t job = .pop (job.close t.line) := by
  simp [settle, he]

theorem settle_of_not_mem (he : u = [] → t.value ∉ job.ends) :
    settle u t job = .go (.scan u job) := by
  cases u with
  | nil => simp [settle, he rfl]
  | cons b u => simp [settle]

theorem visit_eq_enter {c : Option Bool} (h : job.context = some c) (u : List Bracket) (t : Token) :
    visit u t job = enter c u t job := by
  cases job <;> cases h <;> rfl

theorem visit_eq_settle (h : job.context = none) (u : List Bracket) (t : Token) :
    visit u t job = settle u t (job.grow t.value) := by
  cases job with
  | document nodes => cases h
  | body head inEnum members => cases h
  | signature head inOptions => cases inOptions <;> rfl
  | tail head => rfl
  | skip ends => rfl

theorem visit_of_none (hc : ∀ c, job.context = some c → ofToken? c t.value (t.line - 1) = none)
    (u : List Bracket) : visit u t job = settle u t (job.grow t.value) := by
  cases h : job.context with
  | none => exact visit_eq_settle h u t
  | some c => rw [visit_eq_enter h, enter, hc c h, Job.grow_of_context h]

theorem Effect.read_eq {f : Frame} {m : Move} (h : Effect t f m) : f.read t = .ok m := by
  cases h with
  | named pending => rfl
  | typed start c => rfl
  | mapped hn => simp only [read, hn]; rfl
  | @begins u job c inner hc hi =>
    have hn := Bracket.nest_plain (ofToken?_plain hi) u
    simp only [read, hn, Except.map, visit_eq_enter hc, enter, hi]
  | @stays u v job hn hc he =>
    simp only [read, hn, Except.map, visit_of_none hc]
    rw [settle_of_not_mem (by rwa [Job.ends_grow])]
  | @ends u job hn hc he =>
    simp only [read, hn, Except.map, visit_of_none hc]
    rw [settle_of_mem (by rwa [Job.ends_grow])]

theorem effect_visit (hn : Bracket.nest u t = .ok v) : Effect t (.scan u job) (visit v t job) := by
  by_cases hc : ∀ c, job.context = some c → ofToken? c t.value (t.line - 1) = none
  · rw [visit_of_none hc]
    by_cases he : v = [] ∧ t.value ∈ job.ends
    · obtain ⟨rfl, he⟩ := he
      rw [settle_of_mem (by rwa [Job.ends_grow])]
      exact .ends hn hc he
    · have hs : v = [] → t.value ∉ job.ends := fun hv hm ↦ he ⟨hv, hm⟩
      rw [settle_of_not_mem (by rwa [Job.ends_grow])]
      exact .stays hn hc hs
  · push Not at hc
    obtain ⟨c, hc, hi⟩ := hc
    obtain ⟨inner, hi⟩ := Option.ne_none_iff_exists'.1 hi
    -- A token that begins a declaration is no bracket, so it leaves the open brackets as they are.
    have hv : v = u := Except.ok.inj (hn.symm.trans (Bracket.nest_plain (ofToken?_plain hi) u))
    simp only [visit_eq_enter hc, enter, hi, hv]
    exact .begins hc hi

theorem read_eq_ok_iff {f : Frame} {m : Move} : f.read t = .ok m ↔ Effect t f m := by
  refine ⟨fun h ↦ ?_, Effect.read_eq⟩
  cases f with
  | name pending => cases h; exact .named pending
  | fieldType start c => cases h; exact .typed start c
  | mapType u start detail =>
    cases hn : Bracket.nest u t with
    | error m => simp [read, hn, Except.map] at h
    | ok v =>
      simp only [read, hn, Except.map, Except.ok.injEq] at h
      exact h ▸ .mapped hn
  | scan u job =>
    cases hn : Bracket.nest u t with
    | error m => simp [read, hn, Except.map] at h
    | ok v =>
      simp only [read, hn, Except.map, Except.ok.injEq] at h
      exact h ▸ effect_visit hn

def takes : Frame → Bool
  | name _ | fieldType .. => true
  | scan .. | mapType .. => false

def unclosed : Frame → List Bracket
  | scan u _ | mapType u .. => u
  | name _ | fieldType .. => []

theorem unclosed_receive (nodes : List Node) (f : Frame) :
    (f.receive nodes).unclosed = f.unclosed := by
  cases f <;> rfl

theorem nest_of_read_error {f : Frame} {m : Mismatch} (h : f.read t = .error m) :
    Bracket.nest f.unclosed t = .error m := by
  cases f with
  | name pending => cases h
  | fieldType start c => cases h
  | scan u job => exact eq_error_of_map h
  | mapType u start detail => exact eq_error_of_map h

end Frame

namespace Stack

variable {s s' s'' : Stack} {t : Token} {ts us : List Token}

theorem nest_of_read_error {m : Mismatch} (h : s.read t = .error m) :
    Bracket.nest s.inner.unclosed t = .error m :=
  Frame.nest_of_read_error (eq_error_of_map h)

theorem read_eq_ok_iff {r : Step} :
    s.read t = .ok r ↔ ∃ m, Frame.Effect t s.inner m ∧ apply s.outer m = r := by
  unfold read
  cases h : s.inner.read t with
  | error m =>
    refine ⟨(nomatch ·), fun ⟨m', hm, _⟩ ↦ ?_⟩
    rw [hm.read_eq] at h
    cases h
  | ok m =>
    have hm := Frame.read_eq_ok_iff.1 h
    refine ⟨fun hr ↦ ⟨m, hm, Except.ok.inj hr⟩, fun ⟨m', hm', hr⟩ ↦ ?_⟩
    cases (hm.read_eq.symm.trans hm'.read_eq)
    exact congrArg Except.ok hr

/-- The ways in which a token leaves work to do: it stays within the innermost frame, begins a
frame, or completes one. -/
theorem read_more_cases (h : s.read t = .ok (.more s')) :
    (∃ f, Frame.Effect t s.inner (.go f) ∧ s' = ⟨f, s.outer⟩) ∨
    (∃ f inner, Frame.Effect t s.inner (.push f inner) ∧ s' = ⟨inner, f :: s.outer⟩) ∨
    ∃ nodes f fs, Frame.Effect t s.inner (.pop nodes) ∧ s.outer = f :: fs ∧
      s' = ⟨f.receive nodes, fs⟩ := by
  obtain ⟨m, hm, hr⟩ := read_eq_ok_iff.1 h
  cases m with
  | go f => exact .inl ⟨f, hm, (Step.more.inj hr).symm⟩
  | push f inner => exact .inr (.inl ⟨f, inner, hm, (Step.more.inj hr).symm⟩)
  | pop nodes =>
    cases ho : s.outer with
    | nil => simp [apply, ho] at hr
    | cons f fs =>
      simp only [apply, ho, Step.more.injEq] at hr
      exact .inr (.inr ⟨nodes, f, fs, hm, rfl, hr.symm⟩)

inductive Reads : Stack → List Token → Stack → Prop
  | nil (s : Stack) : Reads s [] s
  | cons {s s' s'' : Stack} {t : Token} {ts : List Token} (h : s.read t = .ok (.more s'))
      (h' : Reads s' ts s'') : Reads s (t :: ts) s''

theorem Reads.trans (h : Reads s ts s') (h' : Reads s' us s'') : Reads s (ts ++ us) s'' := by
  induction h with
  | nil => exact h'
  | cons hr h ih => exact .cons hr (ih h')

/-- What one token keeps, a run keeps. -/
theorem Reads.invariant {P : Stack → Prop} (h : Reads s ts s')
    (hstep : ∀ {s t s'}, P s → s.read t = .ok (.more s') → P s') (hs : P s) : P s' := by
  induction h with
  | nil => exact hs
  | cons hr h ih => exact ih (hstep hs hr)

theorem Reads.of_append (h : Reads s (ts ++ us) s') : ∃ s₁, Reads s ts s₁ := by
  induction ts generalizing s with
  | nil => exact ⟨s, .nil s⟩
  | cons t ts ih =>
    cases h with
    | cons hr h =>
      obtain ⟨s₁, h₁⟩ := ih h
      exact ⟨s₁, .cons hr h₁⟩

theorem Reads.go {f g : Frame} {outer : List Frame} (h : Frame.Effect t f (.go g)) :
    Reads ⟨f, outer⟩ [t] ⟨g, outer⟩ :=
  .cons (read_eq_ok_iff.2 ⟨_, h, rfl⟩) (.nil _)

theorem Reads.push {f g inner : Frame} {outer : List Frame}
    (h : Frame.Effect t f (.push g inner)) : Reads ⟨f, outer⟩ [t] ⟨inner, g :: outer⟩ :=
  .cons (read_eq_ok_iff.2 ⟨_, h, rfl⟩) (.nil _)

theorem Reads.pop {f g : Frame} {nodes : List Node} {outer : List Frame}
    (h : Frame.Effect t f (.pop nodes)) : Reads ⟨f, g :: outer⟩ [t] ⟨g.receive nodes, outer⟩ :=
  .cons (read_eq_ok_iff.2 ⟨_, h, rfl⟩) (.nil _)

end Stack

def lineAfter (line : Int) (ts : List Token) : Int := ts.foldl (fun _ t ↦ t.line) line

namespace Reading

variable {s s' : Stack} {ts us : List Token} {line : Int}

theorem run_append (h : s.Reads ts s') (line : Int) (us : List Token) :
    run s line (ts ++ us) = run s' (lineAfter line ts) us := by
  induction h generalizing line with
  | nil => rfl
  | cons hr h ih =>
    simp only [List.cons_append, run, hr]
    exact ih _

/-- Every run reads tokens with work left after each, up to the end of the text, to a bracket
that does not match, or to the end of the outermost frame. -/
theorem exists_reads (s : Stack) (line : Int) (ts : List Token) :
    ∃ s', (s.Reads ts s' ∧ run s line ts = run s' (lineAfter line ts) []) ∨
      ∃ before t after, ts = before ++ t :: after ∧ s.Reads before s' ∧
        ((∃ m, s'.read t = .error m ∧ run s line ts = ⟨.error m, [], ⟨after, t.line⟩⟩) ∨
          ∃ nodes, s'.read t = .ok (.done nodes) ∧
            run s line ts = ⟨.ok nodes, [], ⟨after, t.line⟩⟩) := by
  induction ts generalizing s line with
  | nil => exact ⟨s, .inl ⟨.nil s, rfl⟩⟩
  | cons t ts ih =>
    cases hr : s.read t with
    | error m =>
      exact ⟨s, .inr ⟨[], t, ts, rfl, .nil s, .inl ⟨m, hr, by simp only [run, hr]⟩⟩⟩
    | ok r =>
      cases r with
      | done nodes =>
        exact ⟨s, .inr ⟨[], t, ts, rfl, .nil s, .inr ⟨nodes, hr, by simp only [run, hr]⟩⟩⟩
      | more s₁ =>
        have hrun : run s line (t :: ts) = run s₁ t.line ts := by simp only [run, hr]
        rw [hrun]
        obtain ⟨s', h⟩ := ih s₁ t.line
        refine ⟨s', ?_⟩
        obtain ⟨hs, he⟩ | ⟨before, t', after, rfl, hs, h⟩ := h
        · exact .inl ⟨.cons hr hs, he⟩
        · exact .inr ⟨t :: before, t', after, rfl, .cons hr hs, h⟩

theorem run_of_reads (h : s.Reads ts s') (line : Int) :
    run s line ts = run s' (lineAfter line ts) [] := by
  have hrun := run_append h line []
  rwa [List.append_nil] at hrun

theorem result_eq_mismatch_iff {r : Reading} {strict : Bool} {m : Mismatch} :
    r.result strict = .error (.mismatch m) ↔ r.nodes = .error m := by
  obtain ⟨ns, ts, cursor⟩ := r
  cases ns with
  | error m' => simp [result]
  | ok ns => cases strict <;> cases ts <;> simp [result]

theorem result_eq_ok_iff {r : Reading} {strict : Bool} {nodes : List Node} :
    r.result strict = .ok nodes ↔ r.nodes = .ok nodes ∧ (strict = true → r.truncations = []) := by
  obtain ⟨ns, ts, cursor⟩ := r
  cases ns with
  | error m => simp [result]
  | ok ns => cases strict <;> cases ts <;> simp [result]

end Reading

end SchemaOutline
