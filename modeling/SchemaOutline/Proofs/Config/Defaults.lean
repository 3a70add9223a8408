import SchemaOutline.Config.Load
import SchemaOutline.Proofs.Config.Layers

namespace SchemaOutline.Config

open Json (Fields WellKeyed)

variable {α : Type} {base layer upper : Fields} {name key model : String} {known : List String}
  {default : α}

theorem unknownKeys_eq (above known : List String) (fields : Fields) :
    unknownKeys above known fields =
      (fields.keys.filter (!known.contains ·)).map fun key ↦ ⟨above ++ [key], .unknownKey⟩ := by
  simp [unknownKeys, Fields.keys, List.filter_map, Function.comp_def]

/-- Fields that are put over known ones leave the same keys unknown, in the same order. -/
theorem unknownKeys_combine {f : Option Json → Json → Json} (above : List String)
    (hb : ∀ key ∈ base.keys, key ∈ known) (hl : layer.keys.Nodup) :
    unknownKeys above known (Fields.combine f base layer) = unknownKeys above known layer := by
  have hknown : ∀ key ∈ base.keys, (!known.contains key) = false := by
    intro key hkey
    simpa using hb key hkey
  have hnone : base.keys.filter (!known.contains ·) = [] := by
    apply List.filter_eq_nil_iff.2
    intro key hkey
    simpa using hknown key hkey
  have hkeys := Fields.filter_keys_combine (f := f) hl fun key hkey _ ↦ hknown key hkey
  rw [unknownKeys_eq, unknownKeys_eq, hkeys, hnone, List.nil_append]

theorem setting_overlay {check : Json → Except Cause α} {v : Json} (hu : upper.keys.Nodup)
    (hb : base.get? key = some v) (hv : check v = .ok default) :
    setting name key default check (overlay base upper) =
      setting name key default check upper := by
  unfold setting
  rw [get?_overlay hu]
  cases upper.get? key with
  | some w => rfl
  | none => simp [hb, hv]

theorem subsection_merge {check : Fields → Checked α} {defaults : Fields}
    (hl : WellKeyed (.object layer)) (hb : base.get? name = some (.object defaults))
    (hk : ∀ key ∈ defaults.keys, key ∈ known) (hd : check [] = ⟨default, []⟩)
    (hc : ∀ upper : Fields, upper.keys.Nodup → check (overlay defaults upper) = check upper) :
    subsection name model known default check (merge base layer) =
      subsection name model known default check layer := by
  have hover : ∀ upper : Fields, upper.keys.Nodup →
      unknownKeys [name] known (overlay defaults upper) = unknownKeys [name] known upper := by
    intro upper hu
    rw [overlay_eq_combine, unknownKeys_combine _ hk hu]
  unfold subsection
  rw [get?_merge hl.nodup, hb]
  cases hv : layer.get? name with
  | none =>
    -- The defaults alone are the defaults with nothing over them.
    have hcheck : check defaults = ⟨default, []⟩ := (hc [] List.nodup_nil).trans hd
    have hunknown : unknownKeys [name] known defaults = [] := hover [] List.nodup_nil
    simp [hcheck, hunknown]
  | some v =>
    cases v with
    | object upper =>
      have hu : (Fields.keys upper).Nodup := (hl.get? hv).nodup
      simp [laid, hc upper hu, hover upper hu]
    | _ => rfl

/-- The defaults can be written down as settings: each of them passes its own check. -/
structure Checks.AcceptDefaults (checks : Checks) : Prop where
  bool : ∀ b, checks.bool (.bool b) = .ok b
  positive : checks.positive (.int 256) = .ok 256
  level : checks.level (.text "WARNING") = .ok .warning

theorem acceptDefaults_default : ({} : Checks).AcceptDefaults := ⟨fun _ ↦ rfl, rfl, rfl⟩

section Shipped

variable {checks : Checks} (hd : checks.AcceptDefaults)

include hd

theorem checkParser_merge_shipped (hl : WellKeyed (.object layer)) :
    checkParser checks (merge shipped layer) = checkParser checks layer := by
  refine subsection_merge hl rfl (by decide) rfl ?_
  intro upper hu
  dsimp only
  rw [setting_overlay hu (by rfl) (hd.bool true)]

theorem checkCache_merge_shipped (hl : WellKeyed (.object layer)) :
    checkCache checks (merge shipped layer) = checkCache checks layer := by
  refine subsection_merge hl rfl (by decide) rfl ?_
  intro upper hu
  dsimp only
  rw [setting_overlay hu (by rfl) (hd.bool true),
    setting_overlay hu (by rfl) hd.positive]

theorem checkLogging_merge_shipped (hl : WellKeyed (.object layer)) :
    checkLogging checks (merge shipped layer) = checkLogging checks layer := by
  refine subsection_merge hl rfl (by decide) rfl ?_
  intro upper hu
  dsimp only
  rw [setting_overlay hu (by rfl) hd.level,
    setting_overlay hu (by rfl) (hd.bool false)]

theorem checkFields_merge_shipped (hl : WellKeyed (.object layer)) :
    checkFields checks (merge shipped layer) = checkFields checks layer := by
  have hunknown : unknownKeys [] ["parser", "cache", "logging"] (merge shipped layer) =
      unknownKeys [] ["parser", "cache", "logging"] layer := by
    rw [merge_eq_combine]
    exact unknownKeys_combine _ (by decide) hl.nodup
  unfold checkFields
  rw [checkParser_merge_shipped hd hl, checkCache_merge_shipped hd hl,
    checkLogging_merge_shipped hd hl, hunknown]

theorem ofFields_merge_shipped (hl : WellKeyed (.object layer)) :
    ofFields (merge shipped layer) checks = ofFields layer checks := by
  unfold ofFields
  rw [checkFields_merge_shipped hd hl]

end Shipped

variable {disk : Disk} {p : Path} {places : Places} {checks : Checks}

theorem wellKeyed_of_readFile (h : readFile disk p = .ok layer) : WellKeyed (.object layer) := by
  unfold readFile at h
  split at h
  · cases h
  · unfold fieldsOfText at h
    split at h
    · cases h
      exact .object_nil
    · split at h
      · cases h
      · next hparse =>
        cases h
        exact Json.wellKeyed_of_parse hparse
      · cases h

theorem isFile_of_readFile (h : readFile disk p = .ok layer) : (disk p).isFile = true := by
  unfold readFile Disk.readText at h
  cases hentry : disk p with
  | file bytes | denied => rfl
  | _ => simp [hentry] at h

theorem loadLayers_eq (named : List (String × Fields))
    (h : layers disk places = named.map fun f ↦ (f.1, .ok f.2)) :
    (loadLayers disk places checks).1 = (ofFields (mergeAll (named.map Prod.snd)) checks).mapError
      (.invalidLayers (named.map Prod.fst)) := by
  have hfields : (layers disk places).mapM Prod.snd = .ok (named.map Prod.snd) := by
    rw [h, List.mapM_map]
    exact List.mapM_pure
  have hnames : (layers disk places).map Prod.fst = named.map Prod.fst := by
    rw [h, List.map_map]
    rfl
  simp only [loadLayers, hfields, hnames]

theorem loadLayers_of_project (hu : (disk places.user).isFile = false)
    (hp : readFile disk places.project = .ok layer) :
    (loadLayers disk places checks).1 = (ofFields (merge shipped layer) checks).mapError
      (.invalidLayers [places.shipped, places.project.spelling]) := by
  have hlayers : layers disk places =
      [(places.shipped, .ok shipped), (places.project.spelling, .ok layer)] := by
    simp [layers, hu, isFile_of_readFile hp, fileLayer, hp]
  exact loadLayers_eq [(places.shipped, shipped), (places.project.spelling, layer)] hlayers

/-- The settings that the program comes with are neutral: laid below a layer, they change nothing of
what checking it gives, as long as the defaults pass their own checks, which they do. So without a
user's file, the layers give what the project's file gives alone, and are at fault where it is. -/
theorem shipped_neutral :
    ({} : Checks).AcceptDefaults ∧ ∀ checks : Checks, checks.AcceptDefaults →
      (∀ layer : Fields, WellKeyed (.object layer) →
        ofJson (.object (merge shipped layer)) checks = ofJson (.object layer) checks) ∧
      ∀ (disk : Disk) (places : Places) (path : Path) (layer : Fields),
        (disk places.user).isFile = false → readFile disk places.project = .ok layer →
        readFile disk path = .ok layer →
        (load disk places none checks).1 = (ofFields layer checks).mapError
          (.invalidLayers [places.shipped, places.project.spelling]) ∧
        (load disk places (some path) checks).1 =
          (ofFields layer checks).mapError (.invalidFile path.spelling) := by
  refine ⟨acceptDefaults_default, fun checks hd ↦
    ⟨fun layer hl ↦ ofFields_merge_shipped hd hl, ?_⟩⟩
  intro disk places path layer hu hproject hpath
  constructor
  · rw [load, loadLayers_of_project hu hproject,
      ofFields_merge_shipped hd (wellKeyed_of_readFile hproject)]
  · simp only [load, loadFile, hpath]
    rfl

/-- A partial section with a setting that has no meaning, and a project's file whose only section is
null. -/
theorem shipped_neutral_null :
    let layer : Fields := [("cache", .object [("enabled", .text "no"), ("size", .int 1)])]
    -- The characters of `{"parser":null}`.
    let bytes : List UInt8 :=
      [0x7b, 0x22, 0x70, 0x61, 0x72, 0x73, 0x65, 0x72, 0x22, 0x3a, 0x6e, 0x75, 0x6c, 0x6c, 0x7d]
    let project := fileBelow ⟨.relative, []⟩
    let disk : Disk := fun p ↦ if p = project then .file bytes else .missing
    let places : Places := ⟨fileBelow ⟨.relative, ["home"]⟩, project, "defaults"⟩
    let wrong : List Violation := [⟨["parser"], .notObject "ParserConfig"⟩]
    ofJson (.object (merge shipped layer)) = ofJson (.object layer) ∧
    (load disk places none).1 = .error (.invalidLayers ["defaults", project.spelling] wrong) ∧
    (load disk places (some project)).1 = .error (.invalidFile project.spelling wrong) := by
  intro layer bytes project disk places wrong
  have hlayer : WellKeyed (.object layer) := by simp [layer]
  have hentry : disk project = .file bytes := if_pos rfl
  have htext : Utf8.toText bytes = .ok "\x7b\"parser\":null\x7d" := by
    simp [bytes, Utf8.toText, Utf8.decode, Utf8.withoutMark, Utf8.decodeFrom, Utf8.unifyNewlines,
      Except.map]
  have hfields : ∀ path, fieldsOfText path "\x7b\"parser\":null\x7d" =
      .ok [("parser", .null)] := by
    intro path
    simp [fieldsOfText, Text.trim, Text.isSeparator, Text.isWhiteSpace, Json.parse,
      Json.parseWithin, Json.readWhole, Json.value, Json.members, Json.chars, Json.atom,
      Json.skipGap, Json.isGap, Fields.put, bind, Except.bind, pure, Except.pure, Except.mapError]
  have hread : readFile disk project = .ok [("parser", .null)] := by
    rw [readFile, Disk.readText, hentry, ← hfields project.spelling]
    simp only [htext, Except.mapError]
  have hwrong : ofFields [("parser", .null)] = .error wrong := by
    simp [ofFields, checkFields, checkParser, checkCache, checkLogging, subsection, unknownKeys,
      Fields.get?, Violation.report, wrong]
  obtain ⟨hd, hneutral⟩ := shipped_neutral
  obtain ⟨hlayers, hfiles⟩ := hneutral {} hd
  have hload := hfiles disk places project _ rfl hread hread
  rw [hwrong] at hload
  exact ⟨hlayers layer hlayer, hload⟩

end SchemaOutline.Config
