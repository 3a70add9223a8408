import SchemaOutline.Proofs.Symbols.Calls

namespace SchemaOutline

def Call.lastOutline (config : Config) (uri : String) (calls : List Call) : Option (List Node) :=
  (documents calls).reverse.findSome? fun d ↦
    if d.uri = uri then (config.outline d.text).toOption else none

namespace Call

variable {config : Config} {uri : String} {d : Document} {calls : List Call}

theorem lastOutline_provide (config : Config) (uri : String) (calls : List Call) (d : Document) :
    lastOutline config uri (calls ++ [.provide d]) =
      ((if d.uri = uri then (config.outline d.text).toOption else none).or
        (lastOutline config uri calls)) := by
  simp only [lastOutline, documents_append, List.reverse_append, List.findSome?_append]
  simp [documents, document?]

theorem lastOutline_of_document?_eq_none (config : Config) (uri : String) (calls : List Call)
    {call : Call} (h : call.document? = none) :
    lastOutline config uri (calls ++ [call]) = lastOutline config uri calls := by
  simp [lastOutline, documents, h]

theorem lastOutline_of_ok {nodes : List Node} (h : config.outline d.text = .ok nodes) :
    lastOutline config d.uri (calls ++ [.provide d]) = some nodes := by
  simp [lastOutline_provide, h, Except.toOption]

theorem lastOutline_of_error {f : Fault} (h : config.outline d.text = .error f) :
    lastOutline config uri (calls ++ [.provide d]) = lastOutline config uri calls := by
  simp [lastOutline_provide, h, Except.toOption]

theorem lastOutline_of_ne (h : d.uri ≠ uri) :
    lastOutline config uri (calls ++ [.provide d]) = lastOutline config uri calls := by
  simp [lastOutline_provide, h]

end Call

open Call

/-- What an entry of the cache tells about the calls before: it is the outline of the version it
names, and the latest outline of its document. -/
structure Cached.Recalls (config : Config) (calls : List Call) (c : Cached) : Prop where
  version : ∃ d ∈ documents calls, d.uri = c.uri ∧ d.version = c.version ∧
    config.outline d.text = .ok c.nodes
  latest : lastOutline config c.uri calls = some c.nodes

structure Provider.Recalls (calls : List Call) (p : Provider) : Prop where
  entries : ∀ c ∈ p.cache, c.Recalls p.config calls
  disabled : p.config.cache.enabled = false → p.cache = []

variable {config : Config} {calls : List Call} {c : Cached} {d : Document}

theorem Cached.Recalls.append (h : c.Recalls config calls) {call : Call}
    (hl : lastOutline config c.uri (calls ++ [call]) = lastOutline config c.uri calls) :
    c.Recalls config (calls ++ [call]) := by
  obtain ⟨d, hd, hdc⟩ := h.version
  exact ⟨⟨d, mem_documents_concat.2 (.inl hd), hdc⟩, hl.trans h.latest⟩

theorem Cached.recalls_of_ok (ho : config.outline d.text = .ok c.nodes) (hu : d.uri = c.uri)
    (hv : d.version = c.version) : c.Recalls config (calls ++ [.provide d]) := by
  refine ⟨⟨d, mem_documents_concat.2 (.inr rfl), hu, hv, ho⟩, ?_⟩
  rw [← hu]
  exact lastOutline_of_ok ho

theorem Cached.Recalls.outline_eq (h : c.Recalls config calls)
    (hv : Versioned (calls ++ [.provide d])) (hu : c.uri = d.uri) (hd : c.version = d.version) :
    config.outline d.text = .ok c.nodes := by
  obtain ⟨d', hd', hu', hd'', ho⟩ := h.version
  have htext : d'.text = d.text :=
    hv d' (mem_documents_concat.2 (.inl hd')) d (mem_documents_concat.2 (.inr rfl))
      (hu'.trans hu) (hd''.trans hd)
  rwa [htext] at ho

namespace Provider

variable {p p' : Provider} {nodes : List Node}

theorem Recalls.serves (h : p.Recalls calls) (hv : Versioned (calls ++ [.provide d]))
    (hs : Serves p d nodes p') : p'.Recalls (calls ++ [.provide d]) := by
  cases hs with
  | @hit c hc =>
    obtain ⟨hmem, hu⟩ := mem_of_cached? hc.1
    have ho := (h.entries c hmem).outline_eq hv hu hc.2.2
    refine ⟨fun c' hc' ↦ (h.entries c' hc').append ?_, h.disabled⟩
    by_cases hcu : c'.uri = d.uri
    · -- All entries of one document hold its latest outline, which the hit repeats.
      calc
        lastOutline p.config c'.uri (calls ++ [.provide d]) = some c.nodes := by
          rw [hcu]
          exact lastOutline_of_ok ho
        _ = lastOutline p.config c.uri calls := (h.entries c hmem).latest.symm
        _ = lastOutline p.config c'.uri calls := by rw [hu, hcu]
    · exact lastOutline_of_ne (Ne.symm hcu)
  | failed hm ho =>
    exact ⟨fun c hc ↦ (h.entries c hc).append (lastOutline_of_error ho), h.disabled⟩
  | stored hm he ho =>
    refine ⟨fun c hc ↦ ?_, fun hd ↦ ?_⟩
    · obtain rfl | ⟨hc, hu⟩ := mem_cache_store hc
      · exact Cached.recalls_of_ok ho rfl rfl
      · exact (h.entries c hc).append (lastOutline_of_ne (Ne.symm hu))
    · have hd' : p.config.cache.enabled = false := hd
      rw [he] at hd'
      cases hd'
  | passed he ho =>
    refine ⟨fun c hc ↦ ?_, h.disabled⟩
    rw [h.disabled he] at hc
    cases hc

theorem Recalls.of_sublist (h : p.Recalls calls) (hs : p'.cache.Sublist p.cache)
    (hc : p'.config = p.config) (call : Call) (hn : call.document? = none) :
    p'.Recalls (calls ++ [call]) := by
  refine ⟨fun c hmem ↦ ?_, fun hd ↦ ?_⟩
  · rw [hc]
    exact (h.entries c (hs.subset hmem)).append (lastOutline_of_document?_eq_none _ _ _ hn)
  · rw [hc] at hd
    exact List.sublist_nil.1 (h.disabled hd ▸ hs)

theorem Recalls.after (h : p.Recalls calls) {call : Call} (hv : Versioned (calls ++ [call])) :
    (p.after call).Recalls (calls ++ [call]) := by
  cases call with
  | provide d => exact h.serves hv (serves_provide p d)
  | forget uri =>
    have hs : (p.forget uri).cache.Sublist p.cache := List.filter_sublist
    exact h.of_sublist hs rfl (.forget uri) rfl
  | clear =>
    have hs : p.clear.cache.Sublist p.cache := List.nil_sublist p.cache
    exact h.of_sublist hs rfl .clear rfl

theorem Recalls.afterAll (h : p.Recalls calls) {more : List Call}
    (hv : Versioned (calls ++ more)) : (p.afterAll more).Recalls (calls ++ more) := by
  induction more generalizing p calls with
  | nil => simpa [Provider.afterAll] using h
  | cons call more ih =>
    rw [← List.singleton_append, ← List.append_assoc] at hv ⊢
    exact ih (h.after hv.of_append) hv

theorem recalls_new (config : Config) : Provider.Recalls [] { config } :=
  ⟨fun _ hc ↦ (nomatch hc), fun _ ↦ rfl⟩

theorem recalls_afterAll (config : Config) (hv : Versioned calls) :
    (({ config } : Provider).afterAll calls).Recalls calls :=
  (recalls_new config).afterAll hv

/-- The answer to a request is the outline of its text, hit or not. A text that cannot be read never
hits: an entry for its version would be its outline. -/
theorem Recalls.nodes_eq (h : p.Recalls calls) (hv : Versioned (calls ++ [.provide d]))
    (hs : Serves p d nodes p') :
    nodes = match p.config.outline d.text with
      | .ok nodes => nodes
      | .error _ => ((p.cached? d.uri).map Cached.nodes).getD [] := by
  cases hs with
  | @hit c hc =>
    obtain ⟨hmem, hu⟩ := mem_of_cached? hc.1
    rw [(h.entries c hmem).outline_eq hv hu hc.2.2]
  | failed hm ho => rw [ho]
  | stored hm he ho => rw [ho]
  | passed he ho => rw [ho]

theorem nodes_provide_of_ok (config : Config) (hv : Versioned (calls ++ [.provide d]))
    (ho : config.outline d.text = .ok nodes) :
    ((({ config } : Provider).afterAll calls).provide d).nodes = nodes := by
  have hr := recalls_afterAll config hv.of_append
  have hn := hr.nodes_eq hv (serves_provide _ d)
  rwa [config_afterAll, ho] at hn

theorem nodes_provide_of_error (config : Config) (hv : Versioned (calls ++ [.provide d])) {f : Fault}
    (ho : config.outline d.text = .error f) :
    let p := ({ config } : Provider).afterAll calls
    (p.provide d).nodes = ((p.cached? d.uri).map Cached.nodes).getD [] := by
  have hr := recalls_afterAll config hv.of_append
  have hn := hr.nodes_eq hv (serves_provide _ d)
  rwa [config_afterAll, ho] at hn

theorem lastOutline_of_cached? (config : Config) (hv : Versioned calls)
    (hc : (({ config } : Provider).afterAll calls).cached? d.uri = some c) :
    lastOutline config d.uri calls = some c.nodes := by
  obtain ⟨hmem, hu⟩ := mem_of_cached? hc
  have hlast := ((recalls_afterAll config hv).entries c hmem).latest
  rwa [config_afterAll, hu] at hlast

end Provider

/-- The cache is transparent. A text that can be read gets its own outline, whatever was asked
before; one that cannot gets the latest outline of its document while the cache has that document,
and none otherwise. The cache stays empty if it is disabled; else, with room for one document, it has
each document from the request that reads it on. -/
theorem cache_transparent (config : Config) (calls : List Call) (hv : Versioned calls) :
    (∀ before d, before ++ [.provide d] <+: calls →
      let p := ({ config } : Provider).afterAll before
      (∀ nodes, config.outline d.text = .ok nodes → (p.provide d).nodes = nodes) ∧
      ∀ f, config.outline d.text = .error f →
        (p.cached? d.uri ≠ none → lastOutline config d.uri before = some (p.provide d).nodes) ∧
        (p.cached? d.uri = none → (p.provide d).nodes = [])) ∧
    (config.cache.enabled = false →
      ∀ before, before <+: calls → (({ config } : Provider).afterAll before).cache = []) ∧
    (config.cache.enabled = true → 1 ≤ config.cache.maxDocuments →
      ∀ before d nodes, before ++ [.provide d] <+: calls → config.outline d.text = .ok nodes →
        (({ config } : Provider).afterAll (before ++ [.provide d])).cached? d.uri =
          some ⟨d.uri, d.version, nodes⟩) := by
  have hbefore : ∀ {before}, before <+: calls → Versioned before := by
    rintro before ⟨rest, rfl⟩
    exact hv.of_append
  refine ⟨fun before d hb ↦ ?_, fun he before hb ↦ ?_, fun he hm before d nodes hb ho ↦ ?_⟩
  · have hv' := hbefore hb
    refine ⟨fun nodes ho ↦ Provider.nodes_provide_of_ok config hv' ho, fun f ho ↦ ?_⟩
    have hn := Provider.nodes_provide_of_error config hv' ho
    refine ⟨fun hc ↦ ?_, fun hc ↦ by simpa [hc] using hn⟩
    obtain ⟨c, hc⟩ := Option.ne_none_iff_exists'.1 hc
    rw [Provider.lastOutline_of_cached? config hv'.of_append hc, hn, hc]
    rfl
  · have hr := Provider.recalls_afterAll config (hbefore hb)
    exact hr.disabled (by rwa [Provider.config_afterAll])
  · have hs := Provider.serves_provide (({ config } : Provider).afterAll before) d
    rw [Provider.nodes_provide_of_ok config (hbefore hb) ho] at hs
    rw [Provider.afterAll_concat]
    refine hs.cached?_eq ?_ ?_ ?_
    · rwa [Provider.config_afterAll]
    · rwa [Provider.config_afterAll]
    · rwa [Provider.config_afterAll]

/-- A document is broken by an edit and served from the cache, until another one pushes it out. -/
theorem cache_transparent_pushed_out :
    let whole : Document := { uri := "a", version := 1, text := "enum E \x7b A = 0; \x7d" }
    let broken : Document := { uri := "a", version := 2, text := "enum E \x7b A", dirty := true }
    let other : Document := { uri := "b", version := 1, text := "service S \x7b \x7d" }
    let p : Provider := { config := { cache := { maxDocuments := 1 } } }
    Versioned [.provide whole, .provide broken, .provide other, .provide broken] ∧
    lastOutline p.config "a" [.provide whole] =
      some ((p.afterAll [.provide whole]).provide broken).nodes ∧
    ((p.afterAll [.provide whole, .provide broken, .provide other]).provide broken).nodes = [] := by
  intro whole broken other p
  have hv : Versioned [.provide whole, .provide broken, .provide other, .provide broken] := by decide
  have hf : p.config.outline broken.text = .error (.truncated ⟨1, [";", "\x7d"], []⟩) := by
    show outline true "enum E \x7b A" = _
    rfl
  have h := (cache_transparent p.config _ hv).1
  have hkept := ((h [.provide whole] broken ⟨[_, _], rfl⟩).2 _ hf).1
  have hgone := ((h [.provide whole, .provide broken, .provide other] broken ⟨[], rfl⟩).2 _ hf).2
  exact ⟨hv, hkept (by decide), hgone (by decide)⟩

end SchemaOutline
