import SchemaOutline.Proofs.Symbols.Calls
import Mathlib.Data.Finset.Card

namespace SchemaOutline

def Call.concerns (uri : String) : Call → Bool
  | provide d => d.uri = uri
  | forget uri' => uri' = uri
  | clear => true

namespace Provider

def answer? (uri : String) (p : Provider) : Call → Option (List Node)
  | .provide d => if d.uri = uri then some (p.provide d).nodes else none
  | .forget _ | .clear => none

def answers (uri : String) (p : Provider) : List Call → List (List Node)
  | [] => []
  | call :: calls => (p.answer? uri call).toList ++ (p.after call).answers uri calls

def serve (config : Config) (entry : Option Cached) (d : Document) : List Node × Option Cached :=
  match current? config entry d with
  | some c => (c.nodes, some c)
  | none =>
    match config.outline d.text with
    | .error _ => ((entry.map Cached.nodes).getD [], entry)
    | .ok nodes => (nodes, if config.cache.enabled then some ⟨d.uri, d.version, nodes⟩ else entry)

/-- The answers to the calls that concern one document, given what is kept of it so far. -/
def follow (config : Config) : Option Cached → List Call → List (List Node)
  | _, [] => []
  | entry, .provide d :: calls =>
    (serve config entry d).1 :: follow config (serve config entry d).2 calls
  | _, .forget _ :: calls | _, .clear :: calls => follow config none calls

variable {p p' : Provider} {d : Document} {nodes : List Node} {c : Cached} {uri : String}

theorem Serves.serve_eq (h : Serves p d nodes p') (hm : 1 ≤ p.config.cache.maxDocuments) :
    serve p.config (p.cached? d.uri) d = (nodes, p'.cached? d.uri) := by
  cases h with
  | @hit c hc =>
    simp only [serve, current?_eq_some_iff.2 hc]
    rw [hc.1]
  | failed hmiss ho => simp only [serve, current?_eq_none hmiss, ho]
  | stored hmiss he ho =>
    have hkept : (p.store ⟨d.uri, d.version, nodes⟩).1.cached? d.uri =
        some ⟨d.uri, d.version, nodes⟩ := cached?_store hm _
    simp only [serve, current?_eq_none hmiss, ho, he, if_true, hkept]
  | passed he ho =>
    have hmiss : ∀ c, ¬ p.Hits d c := by
      intro c hc
      cases he.symm.trans hc.2.1
    simp [serve, current?_eq_none hmiss, ho, he]

structure Within (room : List String) (p : Provider) : Prop where
  nodup : p.uris.Nodup
  subset : p.uris ⊆ room

variable {room : List String}

theorem Within.cache_store (h : Within room p) (hc : c.uri ∈ room)
    (hr : room.toFinset.card ≤ p.config.cache.maxDocuments) : (p.store c).1.cache = p.stored c := by
  have hsub : (p.uris.filter (· ≠ c.uri) ++ [c.uri]).toFinset ⊆ room.toFinset := by
    intro v hv
    rw [List.mem_toFinset, List.mem_append] at hv
    rw [List.mem_toFinset]
    obtain hv | hv := hv
    · exact h.subset (List.mem_of_mem_filter hv)
    · rwa [List.mem_singleton.1 hv]
  have hcard := Finset.card_le_card hsub
  rw [List.toFinset_card_of_nodup (nodup_filter_concat h.nodup c.uri), ← uris_stored,
    List.length_map] at hcard
  have hexcess : p.excess (p.stored c) = 0 := by
    rw [excess]
    omega
  simp [store, hexcess]

theorem cached?_filter (p : Provider) (uri uri' : String) :
    (p.cache.filter (·.uri ≠ uri')).find? (·.uri = uri) =
      if uri' = uri then none else p.cached? uri := by
  rw [List.find?_filter]
  split_ifs with hu
  · simp [hu]
  · refine congrArg (fun f ↦ p.cache.find? f) (funext fun c ↦ ?_)
    by_cases hc : c.uri = uri
    · simp [hc, Ne.symm hu]
    · simp [hc]

theorem Within.cached?_store_of_ne (h : Within room p) (hc : c.uri ∈ room)
    (hr : room.toFinset.card ≤ p.config.cache.maxDocuments) (hu : c.uri ≠ uri) :
    (p.store c).1.cached? uri = p.cached? uri := by
  rw [cached?, h.cache_store hc hr, stored, List.find?_append, cached?_filter, if_neg hu]
  simp [hu]

theorem Within.store (h : Within room p) (hc : c.uri ∈ room)
    (hr : room.toFinset.card ≤ p.config.cache.maxDocuments) : Within room (p.store c).1 := by
  have huris : (p.store c).1.uris = p.uris.filter (· ≠ c.uri) ++ [c.uri] := by
    rw [← uris_stored, ← h.cache_store hc hr]
    rfl
  refine ⟨huris ▸ nodup_filter_concat h.nodup c.uri, ?_⟩
  rw [huris, List.append_subset, List.cons_subset]
  exact ⟨fun v hv ↦ h.subset (List.mem_of_mem_filter hv), hc, List.nil_subset room⟩

theorem Within.after (h : Within room p) {call : Call} (hd : ∀ d ∈ call.document?, d.uri ∈ room)
    (hr : room.toFinset.card ≤ p.config.cache.maxDocuments) : Within room (p.after call) := by
  cases call with
  | provide d =>
    simp only [Provider.after]
    obtain hp | ⟨ns, hp⟩ := (serves_provide p d).provider_cases
    · rwa [hp]
    · rw [hp]
      exact h.store (hd d rfl) hr
  | forget uri =>
    have huris : (p.forget uri).uris = p.uris.filter (· ≠ uri) := p.uris_filter uri
    simp only [Provider.after]
    refine ⟨huris ▸ h.nodup.filter _, ?_⟩
    rw [huris]
    exact fun v hv ↦ h.subset (List.mem_of_mem_filter hv)
  | clear => exact ⟨List.nodup_nil, List.nil_subset room⟩

theorem Within.cached?_after (h : Within room p) {call : Call}
    (hd : ∀ d ∈ call.document?, d.uri ∈ room)
    (hr : room.toFinset.card ≤ p.config.cache.maxDocuments) (hc : call.concerns uri = false) :
    (p.after call).cached? uri = p.cached? uri := by
  cases call with
  | provide d =>
    have hu : d.uri ≠ uri := by simpa [Call.concerns] using hc
    simp only [Provider.after]
    obtain hp | ⟨ns, hp⟩ := (serves_provide p d).provider_cases
    · rw [hp]
    · rw [hp]
      exact h.cached?_store_of_ne (hd d rfl) hr hu
  | forget uri' =>
    have hu : uri' ≠ uri := by simpa [Call.concerns] using hc
    exact (p.cached?_filter uri uri').trans (if_neg hu)
  | clear => cases hc

theorem answer?_eq_none {call : Call} (hc : call.concerns uri = false) :
    p.answer? uri call = none := by
  cases call with
  | provide d =>
    have hu : d.uri ≠ uri := by simpa [Call.concerns] using hc
    exact if_neg hu
  | forget uri' => rfl
  | clear => rfl

/-- The calls that concern a document determine the answers to the requests for it. -/
theorem Within.answers_eq (h : Within room p) {calls : List Call}
    (hd : ∀ d ∈ Call.documents calls, d.uri ∈ room)
    (hr : room.toFinset.card ≤ p.config.cache.maxDocuments) :
    p.answers uri calls = follow p.config (p.cached? uri) (calls.filter (Call.concerns uri)) := by
  induction calls generalizing p with
  | nil => rfl
  | cons call calls ih =>
    have hfirst : ∀ d ∈ call.document?, d.uri ∈ room := by
      intro d hmem
      exact hd d (List.mem_filterMap.2 ⟨call, List.mem_cons_self, hmem⟩)
    have hrest : ∀ d ∈ Call.documents calls, d.uri ∈ room := by
      intro d hmem
      obtain ⟨call', hcall', hd'⟩ := List.mem_filterMap.1 hmem
      exact hd d (List.mem_filterMap.2 ⟨call', List.mem_cons_of_mem _ hcall', hd'⟩)
    have hconfig := p.config_after call
    have htail := ih (h.after hfirst hr) hrest (by rwa [hconfig])
    rw [answers, htail, hconfig]
    cases hc : call.concerns uri with
    | false =>
      rw [List.filter_cons_of_neg (by simp [hc]), answer?_eq_none hc, h.cached?_after hfirst hr hc]
      rfl
    | true =>
      rw [List.filter_cons_of_pos hc]
      cases call with
      | provide d =>
        obtain rfl : d.uri = uri := by simpa [Call.concerns] using hc
        have hone : 1 ≤ p.config.cache.maxDocuments := by
          have hpos := Finset.card_pos.2 ⟨d.uri, List.mem_toFinset.2 (hfirst d rfl)⟩
          omega
        have hserve := (serves_provide p d).serve_eq hone
        simp only [follow, hserve, answer?, if_true]
        rfl
      | forget uri' =>
        obtain rfl : uri' = uri := by simpa [Call.concerns] using hc
        have hnone : (p.forget uri').cached? uri' = none :=
          (p.cached?_filter uri' uri').trans (if_pos rfl)
        simp only [Provider.after, hnone]
        rfl
      | clear => rfl

end Provider

/-- Documents do not interfere: with room for all of them, the answers to the requests for one are
those of a run that has nothing to do with the others. -/
theorem answers_independent (config : Config) (calls : List Call) (uri : String)
    (h : ((Call.documents calls).map Document.uri).toFinset.card ≤ config.cache.maxDocuments) :
    let new : Provider := { config }
    new.answers uri calls = new.answers uri (calls.filter (Call.concerns uri)) := by
  intro new
  have hnew : Provider.Within ((Call.documents calls).map Document.uri) new :=
    ⟨List.nodup_nil, List.nil_subset _⟩
  have hall : ∀ d ∈ Call.documents calls, d.uri ∈ (Call.documents calls).map Document.uri := by
    intro d hd
    exact List.mem_map_of_mem hd
  have hsome : ∀ d ∈ Call.documents (calls.filter (Call.concerns uri)),
      d.uri ∈ (Call.documents calls).map Document.uri := by
    intro d hd
    obtain ⟨call, hcall, hd⟩ := List.mem_filterMap.1 hd
    exact hall d (List.mem_filterMap.2 ⟨call, List.mem_of_mem_filter hcall, hd⟩)
  -- Both runs answer as one that keeps nothing but the entry of the document.
  rw [hnew.answers_eq hall h, hnew.answers_eq hsome h, List.filter_filter]
  simp

/-- A document that is edited, broken and cleared away, while another one is opened and closed.
While it is broken it has the outline that is kept of it. -/
theorem answers_independent_of_other :
    let a (version : Int) (text : String) : Document := { uri := "a", version, text }
    let b : Document := { uri := "b", version := 1, text := "enum E \x7b A = 0; \x7d" }
    let p : Provider := { config := { cache := { maxDocuments := 2 } } }
    let calls : List Call := [.provide b, .provide (a 1 "service S \x7b \x7d"), .forget "b",
      .provide (a 2 "service S \x7b"), .provide b, .clear, .provide (a 2 "service S \x7b")]
    let own : List Call := [.provide (a 1 "service S \x7b \x7d"), .provide (a 2 "service S \x7b"),
      .clear, .provide (a 2 "service S \x7b")]
    let service : Node := ⟨"S", "service", .service, ⟨0, 0⟩, ⟨0, 0⟩, []⟩
    ((Call.documents calls).map Document.uri).toFinset.card ≤ 2 ∧
    p.answers "a" calls = p.answers "a" own ∧ p.answers "a" calls = [[service], [service], []] := by
  intro a b p calls own service
  have hroom : ((Call.documents calls).map Document.uri).toFinset.card ≤ 2 := by decide
  have hsame : p.answers "a" calls = p.answers "a" own :=
    answers_independent p.config calls "a" hroom
  have hwhole : (outlineTokens (tokenize "service S \x7b \x7d")).result true = .ok [service] := rfl
  have hbroken : (outlineTokens (tokenize "service S \x7b")).result true =
      .error (.truncated ⟨1, ["\x7d"], ["\x7b"]⟩) := rfl
  have hown : p.answers "a" own = [[service], [service], []] := by
    simp [Provider.answers, Provider.answer?, Provider.after, own, a, p, Provider.provide,
      Provider.refresh, hwhole, hbroken, Provider.cached?, Provider.store, Provider.stored,
      Provider.excess, Provider.clear]
  exact ⟨hroom, hsame, hsame.trans hown⟩

end SchemaOutline
