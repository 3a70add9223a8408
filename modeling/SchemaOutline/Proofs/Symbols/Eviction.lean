import SchemaOutline.Proofs.Symbols.Calls
import Mathlib.Data.Finset.Dedup
import Mathlib.Data.Finset.Card

namespace SchemaOutline

namespace Provider

def hits (p : Provider) (d : Document) : Bool :=
  (current? p.config (p.cached? d.uri) d).isSome

def storeOf? (p : Provider) : Call → Option String
  | .provide d => if p.hits d then none else (p.config.outline d.text).toOption.map fun _ ↦ d.uri
  | .forget _ | .clear => none

def storesOf (p : Provider) : List Call → List String
  | [] => []
  | call :: calls => (p.storeOf? call).toList ++ (p.after call).storesOf calls

theorem hits_iff {p : Provider} {d : Document} : p.hits d = true ↔ ∃ c, p.Hits d c := by
  simp only [hits, Option.isSome_iff_exists, current?_eq_some_iff]

/-- What a call can do to the addresses in a cache that has room for `m` documents, and the address
that it stores. -/
inductive Turn (m : Nat) (us : List String) : Call → Option String → List String → Prop
  | store {d : Document} {us' : List String} (hs : us' <:+ us.filter (· ≠ d.uri) ++ [d.uri])
      (hl : us'.length = min m (us.filter (· ≠ d.uri) ++ [d.uri]).length) :
      Turn m us (.provide d) (some d.uri) us'
  | serve {d : Document} : Turn m us (.provide d) none us
  | forget {uri : String} : Turn m us (.forget uri) none (us.filter (· ≠ uri))
  | clear : Turn m us .clear none []

theorem turn_store (p : Provider) {d : Document} {c : Cached} (hc : c.uri = d.uri) :
    Turn p.config.cache.maxDocuments p.uris (.provide d) (some d.uri) (p.store c).1.uris := by
  have huris : (p.store c).1.uris =
      (p.uris.filter (· ≠ d.uri) ++ [d.uri]).drop (p.excess (p.stored c)) := by
    rw [← hc, ← uris_stored, ← List.map_drop]
    rfl
  have hlen : (p.stored c).length = (p.uris.filter (· ≠ d.uri) ++ [d.uri]).length := by
    rw [← hc, ← uris_stored, List.length_map]
  rw [huris]
  refine .store (List.drop_suffix _ _) ?_
  rw [List.length_drop, excess, hlen]
  omega

theorem Serves.turn {p p' : Provider} {d : Document} {nodes : List Node}
    (h : Serves p d nodes p') (he : p.config.cache.enabled = true) :
    Turn p.config.cache.maxDocuments p.uris (.provide d) (p.storeOf? (.provide d)) p'.uris := by
  cases h with
  | hit hc =>
    have hhits : p.hits d = true := hits_iff.2 ⟨_, hc⟩
    simp only [storeOf?, hhits, if_true]
    exact .serve
  | failed hm ho =>
    have hnone : p.storeOf? (.provide d) = none := by simp [storeOf?, ho, Except.toOption]
    rw [hnone]
    exact .serve
  | stored hm _ ho =>
    have hmiss : p.hits d = false := by simp [hits, current?_eq_none hm]
    have hsome : p.storeOf? (.provide d) = some d.uri := by
      simp [storeOf?, hmiss, ho, Except.toOption]
    rw [hsome]
    exact turn_store p rfl
  | passed hd ho => cases hd.symm.trans he

theorem turn_after {p : Provider} (he : p.config.cache.enabled = true) (call : Call) :
    Turn p.config.cache.maxDocuments p.uris call (p.storeOf? call) (p.after call).uris := by
  cases call with
  | provide d => exact (serves_provide p d).turn he
  | forget uri =>
    have huris : (p.forget uri).uris = p.uris.filter (· ≠ uri) := p.uris_filter uri
    simp only [after, storeOf?, huris]
    exact .forget
  | clear => exact .clear

end Provider

section Ranks

variable {m : Nat} {us us' stores : List String} {call : Call} {stored : Option String}

theorem dedup_concat (l : List String) (u : String) :
    (l ++ [u]).dedup = l.dedup.filter (· ≠ u) ++ [u] := by
  induction l with
  | nil => rfl
  | cons a l ih =>
    rw [List.cons_append, List.dedup_cons, List.dedup_cons, ih]
    by_cases hau : a = u
    · subst hau
      by_cases ha : a ∈ l <;> simp [ha]
    · by_cases ha : a ∈ l <;> simp [hau, ha]

/-- The cache has room for its addresses, and they stand in the order of their last stores, since
`List.dedup` keeps the last of equal elements. -/
structure Ranked (m : Nat) (stores us : List String) : Prop where
  length_le : us.length ≤ m
  sublist : us.Sublist stores.dedup

theorem Ranked.nodup (h : Ranked m stores us) : us.Nodup :=
  h.sublist.nodup stores.nodup_dedup

theorem Ranked.turn (h : Ranked m stores us) (ht : Provider.Turn m us call stored us') :
    Ranked m (stores ++ stored.toList) us' := by
  cases ht with
  | @store d us' hs hl =>
    refine ⟨by omega, ?_⟩
    rw [Option.toList_some, dedup_concat]
    exact hs.sublist.trans ((h.sublist.filter _).append_right _)
  | serve => simpa using h
  | forget =>
    refine ⟨(List.length_filter_le _ us).trans h.length_le, ?_⟩
    rw [Option.toList_none, List.append_nil]
    exact List.filter_sublist.trans h.sublist
  | clear => exact ⟨Nat.zero_le m, List.nil_sublist _⟩

structure Latest (m : Nat) (stores us : List String) : Prop where
  suffix : us <:+ stores.dedup
  length_eq : us.length = min m stores.dedup.length

theorem length_le_filter_ne (h : us.Nodup) (u : String) :
    us.length - 1 ≤ (us.filter (· ≠ u)).length := by
  have herase : us.erase u = us.filter (· ≠ u) := by
    rw [h.erase_eq_filter]
    refine List.filter_congr fun v _ ↦ ?_
    by_cases hv : v = u <;> simp [hv]
  rw [← herase]
  exact List.le_length_erase

theorem Latest.turn (h : Latest m stores us) (ht : Provider.Turn m us call stored us')
    (hc : call.document?.isSome) : Latest m (stores ++ stored.toList) us' := by
  cases ht with
  | @store d us' hs hl =>
    have hsuffix := h.suffix.filter (· ≠ d.uri)
    rw [Option.toList_some]
    refine ⟨?_, ?_⟩
    · rw [dedup_concat]
      exact hs.trans ((List.suffix_append_inj_of_length_eq rfl).2 ⟨hsuffix, rfl⟩)
    · rw [dedup_concat, hl]
      have heq := h.length_eq
      simp only [List.length_append, List.length_singleton]
      by_cases hroom : stores.dedup.length ≤ m
      · rw [h.suffix.eq_of_length (by omega)]
      · have hnodup : us.Nodup := h.suffix.sublist.nodup stores.nodup_dedup
        have hfilter := length_le_filter_ne hnodup d.uri
        have hle := hsuffix.length_le
        omega
  | serve => simpa using h
  | forget => cases hc
  | clear => cases hc

/-- The address `u` is in the cache, with none behind it but those stored since, or enough have been
stored since to push it out. -/
def Kept (m : Nat) (u : String) (since us : List String) : Prop :=
  (∃ older newer, us = older ++ u :: newer ∧ newer ⊆ since) ∨ m ≤ since.toFinset.card

theorem kept_of_suffix {u : String} {since older newer : List String}
    (hs : us' <:+ older ++ u :: newer) (hl : us'.length = min m (older ++ u :: newer).length)
    (hu : us'.Nodup) (hn : newer ⊆ since) : Kept m u since us' := by
  obtain hcut | ⟨more, rfl⟩ := List.suffix_or_suffix_of_suffix hs (List.suffix_append older _)
  · obtain rfl | hgone := List.suffix_cons_iff.1 hcut
    · exact .inl ⟨[], newer, rfl, hn⟩
    · have hle := hgone.length_le
      have hsub : us'.toFinset ⊆ since.toFinset := by
        intro v hv
        exact List.mem_toFinset.2 (hn (hgone.subset (List.mem_toFinset.1 hv)))
      have hcard := Finset.card_le_card hsub
      rw [List.toFinset_card_of_nodup hu] at hcard
      simp only [List.length_append, List.length_cons] at hl
      exact .inr (by omega)
  · exact .inl ⟨more, newer, rfl, hn⟩

theorem Kept.turn {u : String} {since : List String} (h : Kept m u since us) (hu : us'.Nodup)
    (ht : Provider.Turn m us call stored us') (hs : u ∉ stored)
    (hc : call ≠ .forget u ∧ call ≠ .clear) : Kept m u (since ++ stored.toList) us' := by
  obtain ⟨older, newer, rfl, hn⟩ | hcard := h
  · cases ht with
    | @store d us' hsuffix hlen =>
      have hne : u ≠ d.uri := by
        rintro rfl
        exact hs rfl
      have hfilter : (older ++ u :: newer).filter (· ≠ d.uri) ++ [d.uri] =
          older.filter (· ≠ d.uri) ++ u :: (newer.filter (· ≠ d.uri) ++ [d.uri]) := by
        simp [hne]
      rw [hfilter] at hsuffix hlen
      refine kept_of_suffix hsuffix hlen hu ?_
      rw [Option.toList_some]
      refine List.append_subset.2 ⟨fun v hv ↦ ?_, List.subset_append_right _ _⟩
      exact List.mem_append_left _ (hn (List.mem_of_mem_filter hv))
    | serve => exact .inl ⟨older, newer, rfl, by simpa using hn⟩
    | @forget uri =>
      have hne : u ≠ uri := by
        rintro rfl
        exact hc.1 rfl
      refine .inl ⟨older.filter (· ≠ uri), newer.filter (· ≠ uri), by simp [hne], ?_⟩
      intro v hv
      exact List.mem_append_left _ (hn (List.mem_of_mem_filter hv))
    | clear => exact absurd rfl hc.2
  · refine .inr (hcard.trans (Finset.card_le_card ?_))
    rw [List.toFinset_append]
    exact Finset.subset_union_left

theorem Provider.Turn.nodup (ht : Provider.Turn m us call stored us') (hu : us.Nodup) :
    us'.Nodup := by
  cases ht with
  | @store d us' hs hl => exact hs.sublist.nodup (nodup_filter_concat hu d.uri)
  | serve => exact hu
  | forget => exact hu.filter _
  | clear => exact List.nodup_nil

/-- What every turn preserves holds after every run. The conditions are on the calls of the run and
on the addresses stored in it. -/
theorem Provider.afterAll_invariant {I : List String → List String → Prop} {C : Call → Prop}
    {P : String → Prop}
    (hturn : ∀ {stores us us' call stored}, I stores us → Turn m us call stored us' → C call →
      (∀ v ∈ stored, P v) → I (stores ++ stored.toList) us')
    {p : Provider} (he : p.config.cache.enabled = true) (hm : p.config.cache.maxDocuments = m)
    {calls : List Call} (hc : ∀ call ∈ calls, C call) (hp : ∀ v ∈ p.storesOf calls, P v)
    (h : I stores p.uris) : I (stores ++ p.storesOf calls) (p.afterAll calls).uris := by
  induction calls generalizing p stores with
  | nil => simpa [storesOf, afterAll] using h
  | cons call calls ih =>
    have hconfig := p.config_after call
    have hstored : ∀ v ∈ p.storeOf? call, P v := by
      intro v hv
      exact hp v (List.mem_append_left _ (Option.mem_toList.2 hv))
    have hturned := hturn h (hm ▸ turn_after he call) (hc call (by simp)) hstored
    have hrest := ih (hconfig ▸ he) (hconfig ▸ hm) (fun c hc' ↦ hc c (by simp [hc']))
      (fun v hv ↦ hp v (List.mem_append_right _ hv)) hturned
    rwa [List.append_assoc] at hrest

end Ranks

namespace Provider

theorem Serves.provider_eq {p p' : Provider} {d : Document} {nodes : List Node}
    (h : Serves p d nodes p')
    (hd : p.hits d = true ∨ ∃ f, p.config.outline d.text = .error f) : p' = p := by
  cases h with
  | hit hc => rfl
  | failed hm ho => rfl
  | stored hm he ho =>
    obtain hh | ⟨f, hf⟩ := hd
    · obtain ⟨c, hc⟩ := hits_iff.1 hh
      exact absurd hc (hm c)
    · cases hf.symm.trans ho
  | passed he ho => rfl

variable {config : Config}

theorem ranked_afterAll (he : config.cache.enabled = true) (calls : List Call) :
    let new : Provider := { config }
    Ranked config.cache.maxDocuments (new.storesOf calls) (new.afterAll calls).uris := by
  intro new
  have hnew : Ranked config.cache.maxDocuments [] new.uris := ⟨Nat.zero_le _, .slnil⟩
  exact afterAll_invariant (C := fun _ ↦ True) (P := fun _ ↦ True)
    (fun h ht _ _ ↦ h.turn ht) he rfl (by simp) (by simp) hnew

theorem latest_afterAll (he : config.cache.enabled = true) {calls : List Call}
    (hc : ∀ call ∈ calls, call.document?.isSome) :
    let new : Provider := { config }
    Latest config.cache.maxDocuments (new.storesOf calls) (new.afterAll calls).uris := by
  intro new
  have hnew : Latest config.cache.maxDocuments [] new.uris := ⟨List.suffix_rfl, by simp [uris, new]⟩
  exact afterAll_invariant (P := fun _ ↦ True)
    (fun h ht hc _ ↦ h.turn ht hc) he rfl hc (by simp) hnew

theorem kept_afterAll {p : Provider} {d : Document} (he : p.config.cache.enabled = true)
    (hu : p.uris.Nodup) (hs : p.storeOf? (.provide d) = some d.uri) {calls : List Call}
    (hn : d.uri ∉ (p.after (.provide d)).storesOf calls)
    (hc : ∀ call ∈ calls, call ≠ .forget d.uri ∧ call ≠ .clear) :
    Kept p.config.cache.maxDocuments d.uri ((p.after (.provide d)).storesOf calls)
      ((p.after (.provide d)).afterAll calls).uris := by
  have hconfig := p.config_after (.provide d)
  have hturn := turn_after he (.provide d)
  have hnodup := hturn.nodup hu
  have hkept : Kept p.config.cache.maxDocuments d.uri [] (p.after (.provide d)).uris := by
    rw [hs] at hturn
    cases hturn with
    | store hsuffix hlen => exact kept_of_suffix hsuffix hlen hnodup (List.nil_subset _)
  have hrun := afterAll_invariant (I := fun since us ↦ us.Nodup ∧ Kept _ d.uri since us)
    (P := (· ≠ d.uri)) (m := p.config.cache.maxDocuments)
    (fun h ht hc hs ↦ ⟨ht.nodup h.1, h.2.turn (ht.nodup h.1) ht (fun hmem ↦ hs _ hmem rfl) hc⟩)
    (hconfig ▸ he) (congrArg (·.cache.maxDocuments) hconfig) hc
    (fun v hv hvd ↦ hn (hvd ▸ hv)) ⟨hnodup, hkept⟩
  exact hrun.2

end Provider

open Provider

/-- The cache drops the documents that were stored longest ago, and only as many as it must. The
addresses in it stand in the order of their last stores. One that is missing, although it was
neither forgotten nor cleared away since its last store, gave way to as many others as there is room
for; after requests alone, the addresses in the cache are those stored last. A request that hits, or
whose text cannot be read, changes nothing. -/
theorem cache_evicts_oldest (config : Config) (he : config.cache.enabled = true)
    (calls : List Call) :
    let new : Provider := { config }
    let p := new.afterAll calls
    let room := config.cache.maxDocuments
    (p.cache.length ≤ room ∧ p.uris.Nodup ∧ p.uris.Sublist (new.storesOf calls).dedup) ∧
    (∀ before d after, calls = before ++ .provide d :: after →
      (new.afterAll before).storeOf? (.provide d) = some d.uri →
      let since := (new.afterAll (before ++ [.provide d])).storesOf after
      d.uri ∉ since → (∀ call ∈ after, call ≠ .forget d.uri ∧ call ≠ .clear) →
      d.uri ∉ p.uris → room ≤ since.toFinset.card) ∧
    ((∀ call ∈ calls, call.document?.isSome) →
      p.uris <:+ (new.storesOf calls).dedup ∧
      p.uris.length = min room (new.storesOf calls).dedup.length) ∧
    ∀ d, (p.hits d = true ∨ ∃ f, config.outline d.text = .error f) →
      (p.provide d).provider.cache = p.cache := by
  intro new p room
  have hranked := ranked_afterAll he calls
  refine ⟨⟨?_, hranked.nodup, hranked.sublist⟩, ?_, ?_, ?_⟩
  · simpa [uris] using hranked.length_le
  · intro before d after hcalls hstore since hn hc habsent
    have hconfig : (new.afterAll before).config = config := new.config_afterAll before
    have hkept := kept_afterAll (by rwa [hconfig]) (ranked_afterAll he before).nodup hstore
      (by rwa [← afterAll_concat]) hc
    rw [hconfig, ← afterAll_concat] at hkept
    obtain ⟨older, newer, hmem, -⟩ | hcard := hkept
    · have hp : p = (new.afterAll (before ++ [.provide d])).afterAll after := by
        simp [p, hcalls, afterAll]
      rw [hp, hmem] at habsent
      simp at habsent
    · exact hcard
  · intro hc
    have hlatest := latest_afterAll he hc
    exact ⟨hlatest.suffix, hlatest.length_eq⟩
  · intro d hd
    have hconfig : p.config = config := new.config_afterAll calls
    rw [← hconfig] at hd
    rw [(serves_provide p d).provider_eq hd]

/-- A hit does not save the document that was stored first. -/
theorem cache_evicts_oldest_after_hit :
    let d (uri : String) : Document := { uri, version := 1, text := "service S \x7b \x7d" }
    let p : Provider := { config := { cache := { maxDocuments := 2 } } }
    let after := [Call.provide (d "b"), .provide (d "a"), .provide (d "c")]
    let calls := .provide (d "a") :: after
    "a" ∉ (p.afterAll calls).uris ∧
    2 ≤ ((p.afterAll [.provide (d "a")]).storesOf after).toFinset.card ∧
    (p.afterAll calls).uris <:+ (p.storesOf calls).dedup ∧ (p.afterAll calls).uris.length = 2 := by
  intro d p after calls
  have h := cache_evicts_oldest p.config rfl calls
  have hgone : "a" ∉ (p.afterAll calls).uris := by decide
  have hothers := h.2.1 [] (d "a") after rfl (by decide) (by decide) (by simp [after]) hgone
  have hlatest := h.2.2.1 (by simp [calls, after, Call.document?])
  exact ⟨hgone, hothers, hlatest.1, hlatest.2.trans (by decide)⟩

end SchemaOutline
