import SchemaOutline.Config.Load
import SchemaOutline.Proofs.Json.Keys
import Mathlib.Data.List.DropRight

namespace SchemaOutline.Config

open Json (Fields WellKeyed)

def laid : Option Json → Json → Json
  | some (.object current), .object fields => .object (overlay current fields)
  | _, v => v

variable {base layer upper : Fields} {layers : List Fields} {values : List Json} {name key : String}
  {current : Option Json} {v : Json}

theorem overlay_eq_combine (base upper : Fields) :
    overlay base upper = Fields.combine (fun _ v ↦ v) base upper := rfl

theorem layField_eq (fs : Fields) (f : String × Json) :
    layField fs f = fs.put f.1 (laid (fs.get? f.1) f.2) := by
  unfold layField laid
  split <;> simp_all

theorem merge_eq_combine (base layer : Fields) :
    merge base layer = Fields.combine laid base layer := by
  have hstep : layField = fun fs f ↦ fs.put f.1 (laid (fs.get? f.1) f.2) := by
    funext fs f
    exact layField_eq fs f
  rw [merge, hstep, Fields.combine]

theorem get?_overlay (h : upper.keys.Nodup) :
    (overlay base upper).get? key = (upper.get? key).or (base.get? key) := by
  rw [overlay_eq_combine, Fields.get?_combine h, Option.map_id']

theorem get?_merge (h : layer.keys.Nodup) :
    (merge base layer).get? name =
      ((layer.get? name).map (laid (base.get? name))).or (base.get? name) := by
  rw [merge_eq_combine, Fields.get?_combine h]

theorem mergeAll_concat (layers : List Fields) (layer : Fields) :
    mergeAll (layers ++ [layer]) = merge (mergeAll layers) layer := by
  simp [mergeAll]

theorem wellKeyed_overlay (hb : WellKeyed (.object base)) (hu : WellKeyed (.object upper)) :
    WellKeyed (.object (overlay base upper)) := by
  rw [overlay_eq_combine]
  exact hb.combine (fun _ _ _ hv ↦ hv) hu

theorem wellKeyed_laid (hc : ∀ u ∈ current, WellKeyed u) (hv : WellKeyed v) :
    WellKeyed (laid current v) := by
  unfold laid
  split
  · exact wellKeyed_overlay (hc _ rfl) hv
  · exact hv

theorem wellKeyed_merge (hb : WellKeyed (.object base)) (hl : WellKeyed (.object layer)) :
    WellKeyed (.object (merge base layer)) := by
  rw [merge_eq_combine]
  exact hb.combine (fun _ _ ↦ wellKeyed_laid) hl

theorem wellKeyed_mergeAll (h : ∀ layer ∈ layers, WellKeyed (.object layer)) :
    WellKeyed (.object (mergeAll layers)) := by
  induction layers using List.reverseRecOn with
  | nil => exact .object_nil
  | append_singleton layers layer ih =>
    obtain ⟨hlayers, hlayer⟩ := List.forall_mem_append.1 h
    rw [mergeAll_concat]
    exact wellKeyed_merge (ih hlayers) (hlayer layer (by simp))

def settle (values : List Json) : Option Json :=
  values.foldl (fun current v ↦ some (laid current v)) none

theorem settle_concat (values : List Json) (v : Json) :
    settle (values ++ [v]) = some (laid (settle values) v) := by
  simp [settle]

theorem get?_mergeAll (h : ∀ layer ∈ layers, WellKeyed (.object layer)) :
    (mergeAll layers).get? name = settle (layers.filterMap (Fields.get? name)) := by
  induction layers using List.reverseRecOn with
  | nil => rfl
  | append_singleton layers layer ih =>
    obtain ⟨hlayers, hlayer⟩ := List.forall_mem_append.1 h
    rw [mergeAll_concat, get?_merge (hlayer layer (by simp)).nodup, ih hlayers,
      List.filterMap_append]
    cases hget : layer.get? name with
    | none => simp [hget]
    | some v => simp [hget, settle_concat]

theorem laid_of_not_isObject (h : v.isObject = false) : laid current v = v := by
  unfold laid
  split
  · cases h
  · rfl

theorem isObject_laid (current : Option Json) (v : Json) :
    (laid current v).isObject = v.isObject := by
  unfold laid
  split <;> rfl

theorem get?_laid (hv : WellKeyed v) (ho : v.isObject = true) :
    (laid current v).get? key = (v.get? key).or (current.bind (Json.get? key)) := by
  obtain ⟨fields, rfl⟩ := Json.isObject_iff.1 ho
  rcases current with _ | current
  · simp [laid]
  · cases current with
    | object inner => exact get?_overlay hv.nodup
    | _ => simp [laid, Json.get?]

/-- Only the objects behind the last value that is none have a say. -/
theorem get?_settle (h : ∀ v ∈ values, WellKeyed v) :
    (settle values).bind (Json.get? key) =
      ((values.rtakeWhile Json.isObject).filterMap (Json.get? key)).getLast? := by
  induction values using List.reverseRecOn with
  | nil => rfl
  | append_singleton values v ih =>
    obtain ⟨hvalues, hv⟩ := List.forall_mem_append.1 h
    rw [settle_concat, Option.bind_some]
    by_cases ho : v.isObject = true
    · rw [get?_laid (hv v (by simp)) ho, ih hvalues, List.rtakeWhile_concat_pos _ _ _ ho,
        List.filterMap_append, List.getLast?_append]
      cases hget : v.get? key with
      | none => simp [hget]
      | some w => simp [hget]
    · rw [List.rtakeWhile_concat_neg _ _ _ ho]
      have ho : v.isObject = false := by simpa using ho
      rw [laid_of_not_isObject ho, Json.get?_of_not_isObject ho]
      rfl

/-- The value that a section has after all the values it was given: the last one, if it is no
object; else the objects given since then, the later over the earlier. -/
structure Latest (values : List Json) (result : Option Json) : Prop where
  none_iff : result = none ↔ values = []
  replaced : ∀ v, values.getLast? = some v → v.isObject = false → result = some v
  merged : ∀ v, values.getLast? = some v → v.isObject = true →
    ∃ fields : Fields, result = some (.object fields) ∧
      ∀ key, fields.get? key =
        ((values.rtakeWhile Json.isObject).filterMap (Json.get? key)).getLast?

theorem latest_settle (h : ∀ v ∈ values, WellKeyed v) : Latest values (settle values) := by
  rcases values.eq_nil_or_concat' with rfl | ⟨front, last, rfl⟩
  · exact ⟨by simp [settle], nofun, nofun⟩
  have hsettle := settle_concat front last
  refine ⟨by simp [hsettle], ?_, ?_⟩
  · intro v hv ho
    obtain rfl : last = v := by simpa using hv
    rw [hsettle, laid_of_not_isObject ho]
  · intro v hv ho
    obtain rfl : last = v := by simpa using hv
    have hobject : (laid (settle front) last).isObject = true := by rw [isObject_laid, ho]
    obtain ⟨fields, hfields⟩ := Json.isObject_iff.1 hobject
    refine ⟨fields, by rw [hsettle, hfields], fun key ↦ ?_⟩
    rw [← get?_settle h, hsettle, hfields]
    rfl

/-- Folding any number of layers keeps the latest setting of every key. -/
theorem mergeAll_latest (layers : List Fields)
    (h : ∀ layer ∈ layers, WellKeyed (.object layer)) :
    WellKeyed (.object (mergeAll layers)) ∧
    ∀ name, Latest (layers.filterMap (Fields.get? name)) ((mergeAll layers).get? name) := by
  refine ⟨wellKeyed_mergeAll h, fun name ↦ ?_⟩
  rw [get?_mergeAll h]
  apply latest_settle
  intro v hv
  obtain ⟨layer, hlayer, hget⟩ := List.mem_filterMap.1 hv
  exact (h layer hlayer).get? hget

/-- A null between two objects of a section takes away what the first one had set. -/
theorem mergeAll_latest_null :
    let layers : List Fields :=
      [[("cache", .object [("enabled", .bool false), ("max_documents", .int 8)])],
       [("cache", .null)],
       [("cache", .object [("enabled", .bool true)])],
       [("parser", .list []), ("cache", .object [("enabled", .text "no")])]]
    (∀ layer ∈ layers, WellKeyed (.object layer)) ∧
    ∃ fields : Fields, (mergeAll layers).get? "cache" = some (.object fields) ∧
      fields.get? "enabled" = some (.text "no") ∧ fields.get? "max_documents" = none := by
  intro layers
  have hlayers : ∀ layer ∈ layers, WellKeyed (.object layer) := by
    simp [layers]
  refine ⟨hlayers, ?_⟩
  have hlatest := (mergeAll_latest layers hlayers).2 "cache"
  obtain ⟨fields, hfields, hkeys⟩ := hlatest.merged (.object [("enabled", .text "no")]) rfl rfl
  exact ⟨fields, hfields, hkeys "enabled", hkeys "max_documents"⟩

end SchemaOutline.Config
