import SchemaOutline.Symbols.Provider
import Mathlib.Data.List.Nodup

namespace SchemaOutline

def Config.outline (config : Config) (text : String) : Except Fault (List Node) :=
  SchemaOutline.outline config.parser.strictEndOfInput text

inductive Call where
  | provide (d : Document)
  | forget (uri : String)
  | clear

namespace Call

def document? : Call → Option Document
  | provide d => some d
  | forget _ | clear => none

def documents (calls : List Call) : List Document := calls.filterMap document?

theorem documents_append (calls calls' : List Call) :
    documents (calls ++ calls') = documents calls ++ documents calls' :=
  List.filterMap_append

theorem mem_documents_concat {calls : List Call} {call : Call} {d : Document} :
    d ∈ documents (calls ++ [call]) ↔ d ∈ documents calls ∨ call.document? = some d := by
  rw [documents_append, List.mem_append]
  cases call with
  | provide d' => simp [documents, document?, eq_comm]
  | forget uri => simp [documents, document?]
  | clear => simp [documents, document?]

/-- A document whose version is the same has not been edited. -/
def Versioned (calls : List Call) : Prop :=
  ∀ d ∈ documents calls, ∀ d' ∈ documents calls,
    d.uri = d'.uri → d.version = d'.version → d.text = d'.text

instance (calls : List Call) : Decidable (Versioned calls) :=
  inferInstanceAs (Decidable (∀ d ∈ documents calls, ∀ d' ∈ documents calls,
    d.uri = d'.uri → d.version = d'.version → d.text = d'.text))

theorem Versioned.of_append {calls calls' : List Call} (h : Versioned (calls ++ calls')) :
    Versioned calls := by
  intro d hd d' hd'
  rw [Versioned, documents_append] at h
  exact h d (List.mem_append_left _ hd) d' (List.mem_append_left _ hd')

end Call

namespace Provider

def after (p : Provider) : Call → Provider
  | .provide d => (p.provide d).provider
  | .forget uri => p.forget uri
  | .clear => p.clear

def afterAll (p : Provider) (calls : List Call) : Provider := calls.foldl after p

def Hits (p : Provider) (d : Document) (c : Cached) : Prop :=
  p.cached? d.uri = some c ∧ p.config.cache.enabled = true ∧ c.version = d.version

def current? (config : Config) (entry : Option Cached) (d : Document) : Option Cached :=
  entry.filter fun c ↦ config.cache.enabled && c.version = d.version

theorem current?_eq_some_iff {p : Provider} {d : Document} {c : Cached} :
    current? p.config (p.cached? d.uri) d = some c ↔ p.Hits d c := by
  simp [current?, Hits, Option.filter_eq_some_iff]

theorem current?_eq_none {p : Provider} {d : Document} (h : ∀ c, ¬ p.Hits d c) :
    current? p.config (p.cached? d.uri) d = none := by
  rw [Option.eq_none_iff_forall_ne_some]
  intro c hc
  exact h c (current?_eq_some_iff.1 hc)

/-- What can come of a request: the nodes returned and the provider after it. -/
inductive Serves (p : Provider) (d : Document) : List Node → Provider → Prop
  | hit {c : Cached} (h : p.Hits d c) : Serves p d c.nodes p
  | failed {f : Fault} (hm : ∀ c, ¬ p.Hits d c) (ho : p.config.outline d.text = .error f) :
      Serves p d (((p.cached? d.uri).map Cached.nodes).getD []) p
  | stored {nodes : List Node} (hm : ∀ c, ¬ p.Hits d c) (he : p.config.cache.enabled = true)
      (ho : p.config.outline d.text = .ok nodes) :
      Serves p d nodes (p.store ⟨d.uri, d.version, nodes⟩).1
  | passed {nodes : List Node} (he : p.config.cache.enabled = false)
      (ho : p.config.outline d.text = .ok nodes) : Serves p d nodes p

theorem serves_refresh {p : Provider} {d : Document} (hm : ∀ c, ¬ p.Hits d c) :
    Serves p d (p.refresh d).nodes (p.refresh d).provider := by
  cases ho : (outlineTokens (tokenize d.text)).result p.config.parser.strictEndOfInput with
  | error f =>
    simp only [refresh, ho]
    exact .failed hm ho
  | ok nodes =>
    cases he : p.config.cache.enabled with
    | true =>
      simp only [refresh, ho, he, if_true]
      exact .stored hm he ho
    | false =>
      simp only [refresh, ho, he]
      exact .passed he ho

theorem serves_provide (p : Provider) (d : Document) :
    Serves p d (p.provide d).nodes (p.provide d).provider := by
  unfold provide
  split
  · next c hc =>
    split_ifs with h
    · obtain ⟨he, hv⟩ : p.config.cache.enabled = true ∧ c.version = d.version := by simpa using h
      exact .hit ⟨hc, he, hv⟩
    · refine serves_refresh fun c' h' ↦ h ?_
      obtain rfl : c' = c := Option.some.inj (h'.1.symm.trans hc)
      simpa using h'.2
  · next hc => exact serves_refresh fun c h ↦ nomatch hc.symm.trans h.1

theorem mem_of_cached? {p : Provider} {uri : String} {c : Cached} (h : p.cached? uri = some c) :
    c ∈ p.cache ∧ c.uri = uri :=
  ⟨List.mem_of_find?_eq_some h, by simpa using List.find?_some h⟩

theorem mem_cache_store {p : Provider} {c c' : Cached} (h : c' ∈ (p.store c).1.cache) :
    c' = c ∨ c' ∈ p.cache ∧ c'.uri ≠ c.uri := by
  have hs : c' ∈ p.stored c := List.mem_of_mem_drop h
  simp only [stored, List.mem_append, List.mem_filter, List.mem_singleton] at hs
  obtain ⟨hc, hu⟩ | rfl := hs
  · exact .inr ⟨hc, by simpa using hu⟩
  · exact .inl rfl

theorem cached?_store {p : Provider} (hm : 1 ≤ p.config.cache.maxDocuments) (c : Cached) :
    (p.store c).1.cached? c.uri = some c := by
  have hlen : p.excess (p.stored c) ≤ (p.cache.filter (·.uri ≠ c.uri)).length := by
    simp only [excess, stored, List.length_append, List.length_singleton]
    omega
  have hcache : (p.store c).1.cache =
      (p.cache.filter (·.uri ≠ c.uri)).drop (p.excess (p.stored c)) ++ [c] := by
    simp only [store, stored] at hlen ⊢
    rw [List.drop_append_of_le_length hlen]
  have hnone : ((p.cache.filter (·.uri ≠ c.uri)).drop (p.excess (p.stored c))).find?
      (·.uri = c.uri) = none := by
    refine List.find?_eq_none.2 fun c' hc' ↦ ?_
    simpa using (List.mem_filter.1 (List.mem_of_mem_drop hc')).2
  rw [cached?, hcache, List.find?_append, hnone]
  simp

theorem Serves.config_eq {p p' : Provider} {d : Document} {nodes : List Node}
    (h : Serves p d nodes p') : p'.config = p.config := by
  cases h <;> rfl

theorem Serves.provider_cases {p p' : Provider} {d : Document} {nodes : List Node}
    (h : Serves p d nodes p') : p' = p ∨ ∃ ns, p' = (p.store ⟨d.uri, d.version, ns⟩).1 := by
  cases h with
  | hit hc => exact .inl rfl
  | failed hm ho => exact .inl rfl
  | stored hm he ho => exact .inr ⟨_, rfl⟩
  | passed he ho => exact .inl rfl

theorem Serves.cached?_eq {p p' : Provider} {d : Document} {nodes : List Node}
    (h : Serves p d nodes p') (he : p.config.cache.enabled = true)
    (hm : 1 ≤ p.config.cache.maxDocuments) (ho : p.config.outline d.text = .ok nodes) :
    p'.cached? d.uri = some ⟨d.uri, d.version, nodes⟩ := by
  cases h with
  | @hit c hc =>
    obtain ⟨-, hu⟩ := mem_of_cached? hc.1
    rw [hc.1, ← hu, ← hc.2.2]
  | failed _ hf => cases hf.symm.trans ho
  | stored _ _ _ => exact cached?_store hm _
  | passed hd _ => cases hd.symm.trans he

theorem config_after (p : Provider) (call : Call) : (p.after call).config = p.config := by
  cases call with
  | provide d => exact (serves_provide p d).config_eq
  | forget uri => rfl
  | clear => rfl

theorem afterAll_concat (p : Provider) (calls : List Call) (call : Call) :
    p.afterAll (calls ++ [call]) = (p.afterAll calls).after call := by
  simp [afterAll]

theorem config_afterAll (p : Provider) (calls : List Call) :
    (p.afterAll calls).config = p.config := by
  induction calls generalizing p with
  | nil => rfl
  | cons call calls ih => exact (ih (p.after call)).trans (p.config_after call)

def uris (p : Provider) : List String := p.cache.map Cached.uri

theorem uris_filter (p : Provider) (uri : String) :
    (p.cache.filter (·.uri ≠ uri)).map Cached.uri = p.uris.filter (· ≠ uri) := by
  rw [uris, List.filter_map]
  rfl

theorem uris_stored (p : Provider) (c : Cached) :
    (p.stored c).map Cached.uri = p.uris.filter (· ≠ c.uri) ++ [c.uri] := by
  rw [stored, List.map_append, uris_filter]
  rfl

theorem nodup_filter_concat {us : List String} (h : us.Nodup) (u : String) :
    (us.filter (· ≠ u) ++ [u]).Nodup := by
  refine List.nodup_append.2 ⟨h.filter _, List.nodup_singleton u, ?_⟩
  intro v hv w hw
  obtain rfl := List.mem_singleton.1 hw
  simpa using (List.mem_filter.1 hv).2

end Provider

end SchemaOutline
