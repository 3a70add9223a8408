import SchemaOutline.Proofs.Config.Defaults
import SchemaOutline.Proofs.Json.RoundTrip
import Mathlib.Tactic.Tauto

namespace SchemaOutline.Config

open Json (Fields WellKeyed)

inductive Setting where
  | strictEndOfInput
  | cacheEnabled
  | maxDocuments
  | logLevel
  | logTransientErrors

namespace Setting

abbrev Value : Setting → Type
  | maxDocuments => Nat
  | logLevel => Log.Level
  | strictEndOfInput | cacheEnabled | logTransientErrors => Bool

def place : Setting → String × String
  | strictEndOfInput => ("parser", "strict_end_of_input")
  | cacheEnabled => ("cache", "enabled")
  | maxDocuments => ("cache", "max_documents")
  | logLevel => ("logging", "level")
  | logTransientErrors => ("logging", "log_transient_errors")

def get (c : Config) : (s : Setting) → s.Value
  | strictEndOfInput => c.parser.strictEndOfInput
  | cacheEnabled => c.cache.enabled
  | maxDocuments => c.cache.maxDocuments
  | logLevel => c.logging.level
  | logTransientErrors => c.logging.logTransientErrors

def check (checks : Checks) : (s : Setting) → Json → Except Cause s.Value
  | strictEndOfInput | cacheEnabled | logTransientErrors => checks.bool
  | maxDocuments => checks.positive
  | logLevel => checks.level

theorem forall_iff {P : Setting → Prop} :
    (∀ s, P s) ↔ P strictEndOfInput ∧ P cacheEnabled ∧ P maxDocuments ∧ P logLevel ∧
      P logTransientErrors := by
  constructor
  · exact fun h ↦ ⟨h _, h _, h _, h _, h _⟩
  · rintro ⟨h₁, h₂, h₃, h₄, h₅⟩ s
    cases s <;> assumption

theorem exists_iff {P : Setting → Prop} :
    (∃ s, P s) ↔ P strictEndOfInput ∨ P cacheEnabled ∨ P maxDocuments ∨ P logLevel ∨
      P logTransientErrors := by
  rw [← not_forall_not, forall_iff]
  tauto

theorem place_injective : Function.Injective place := by
  intro s s' h
  cases s <;> cases s' <;> first | rfl | simp [place] at h

theorem get_ext {c d : Config} (h : ∀ s, get c s = get d s) : c = d := by
  obtain ⟨⟨strict⟩, ⟨enabled, most⟩, ⟨level, transient⟩⟩ := c
  obtain ⟨⟨strict'⟩, ⟨enabled', most'⟩, ⟨level', transient'⟩⟩ := d
  obtain rfl : strict = strict' := h strictEndOfInput
  obtain rfl : enabled = enabled' := h cacheEnabled
  obtain rfl : most = most' := h maxDocuments
  obtain rfl : level = level' := h logLevel
  obtain rfl : transient = transient' := h logTransientErrors
  rfl

end Setting

def lookUp (place : String × String) (fields : Fields) : Option Json :=
  (fields.get? place.1).bind (Json.get? place.2)

def Setting.setBy (fields : Fields) (s : Setting) : Bool := (lookUp s.place fields).isSome

def valueOf {α : Type} (default : α) (check : Json → Except Cause α) : Option Json → α
  | none => default
  | some v => (check v).toOption.getD default

section Sections

variable {α β : Type} {fields : Fields} {name key model : String} {known : List String}
  {default : α} {checks : Checks}

theorem value_setting {check : Json → Except Cause α} :
    (setting name key default check fields).value = valueOf default check (fields.get? key) := by
  unfold setting valueOf
  cases fields.get? key with
  | none => rfl
  | some v =>
    cases hv : check v with
    | ok a => simp only [hv]; rfl
    | error cause => simp only [hv]; rfl

theorem violations_setting {check : Json → Except Cause α} :
    (setting name key default check fields).violations = [] ↔
      ∀ v, fields.get? key = some v → (check v).isOk = true := by
  unfold setting
  cases fields.get? key with
  | none => simp
  | some v => cases hv : check v <;> simp [hv, Except.isOk, Except.toBool]

theorem value_subsection {check : Fields → Checked α} {g : α → β}
    {checkValue : Json → Except Cause β}
    (hc : ∀ inner, g (check inner).value = valueOf (g default) checkValue (inner.get? key)) :
    g (subsection name model known default check fields).value =
      valueOf (g default) checkValue (lookUp (name, key) fields) := by
  unfold subsection lookUp
  cases fields.get? name with
  | none => rfl
  | some v =>
    cases v with
    | object inner => exact hc inner
    | _ => rfl

theorem unknownKeys_eq_nil {above : List String} :
    unknownKeys above known fields = [] ↔ ∀ key v, fields.get? key = some v → key ∈ known := by
  have hkeys : unknownKeys above known fields = [] ↔ ∀ key ∈ fields.keys, key ∈ known := by
    rw [unknownKeys_eq, List.map_eq_nil_iff, List.filter_eq_nil_iff]
    simp
  simp only [hkeys, Fields.mem_keys_iff, forall_exists_index]

/-- A value that a section can have: an object whose keys are settings, with values that these can
take. -/
structure Fits (checks : Checks) (name : String) (v : Json) : Prop where
  isObject : v.isObject = true
  settings : ∀ key w, v.get? key = some w →
    ∃ s : Setting, s.place = (name, key) ∧ (s.check checks w).isOk = true

theorem fits_object {inner : Fields} : Fits checks name (.object inner) ↔
    (∀ key v, inner.get? key = some v → ∃ s : Setting, s.place = (name, key)) ∧
    ∀ s : Setting, s.place.1 = name → ∀ v, inner.get? s.place.2 = some v →
      (s.check checks v).isOk = true := by
  constructor
  · rintro ⟨-, h⟩
    refine ⟨fun key v hv ↦ (h key v hv).imp fun s hs ↦ hs.1, fun s hs v hv ↦ ?_⟩
    obtain ⟨s', hplace, ha⟩ := h _ v hv
    obtain rfl : s' = s := Setting.place_injective (hplace.trans (by rw [← hs]))
    exact ha
  · rintro ⟨hknown, hall⟩
    refine ⟨rfl, fun key v hv ↦ ?_⟩
    obtain ⟨s, hs⟩ := hknown key v hv
    exact ⟨s, hs, hall s (by rw [hs]) v (by rw [hs]; exact hv)⟩

theorem violations_subsection {check : Fields → Checked α}
    (hk : ∀ key, key ∈ known ↔ ∃ s : Setting, s.place = (name, key))
    (hc : ∀ inner, (check inner).violations = [] ↔ ∀ s : Setting, s.place.1 = name →
      ∀ v, inner.get? s.place.2 = some v → (s.check checks v).isOk = true) :
    (subsection name model known default check fields).violations = [] ↔
      ∀ v, fields.get? name = some v → Fits checks name v := by
  unfold subsection
  cases fields.get? name with
  | none => simp
  | some v =>
    cases v with
    | object inner =>
      have hfits : Fits checks name (.object inner) ↔
          (check inner).violations = [] ∧ unknownKeys [name] known inner = [] := by
        rw [fits_object, hc, unknownKeys_eq_nil, and_comm]
        simp only [hk]
      simp [hfits]
    | _ => simpa using fun h : Fits _ _ _ ↦ nomatch h.isObject

end Sections

section Settings

variable {fields base layer : Fields} {layers : List Fields} {c : Config} {checks : Checks}

theorem violations_checkParser : (checkParser checks fields).violations = [] ↔
    ∀ v, fields.get? "parser" = some v → Fits checks "parser" v := by
  apply violations_subsection
  · simp [Setting.exists_iff, Setting.place, eq_comm]
  · simp [violations_setting, Setting.forall_iff, Setting.place, Setting.check]

theorem violations_checkCache : (checkCache checks fields).violations = [] ↔
    ∀ v, fields.get? "cache" = some v → Fits checks "cache" v := by
  apply violations_subsection
  · simp [Setting.exists_iff, Setting.place, eq_comm]
  · simp [violations_setting, Setting.forall_iff, Setting.place, Setting.check]

theorem violations_checkLogging : (checkLogging checks fields).violations = [] ↔
    ∀ v, fields.get? "logging" = some v → Fits checks "logging" v := by
  apply violations_subsection
  · simp [Setting.exists_iff, Setting.place, eq_comm]
  · simp [violations_setting, Setting.forall_iff, Setting.place, Setting.check]

def Acceptable (checks : Checks) (fields : Fields) : Prop :=
  ∀ name v, fields.get? name = some v → (∃ s : Setting, s.place.1 = name) ∧ Fits checks name v

theorem violations_checkFields :
    (checkFields checks fields).violations = [] ↔ Acceptable checks fields := by
  have hname : ∀ name, name ∈ ["parser", "cache", "logging"] ↔
      ∃ s : Setting, s.place.1 = name := by
    simp [Setting.exists_iff, Setting.place, eq_comm]
  simp only [checkFields, List.append_eq_nil_iff, violations_checkParser, violations_checkCache,
    violations_checkLogging, unknownKeys_eq_nil]
  constructor
  · rintro ⟨⟨⟨hparser, hcache⟩, hlogging⟩, hknown⟩ name v hv
    have hmem := hknown name v hv
    refine ⟨(hname name).1 hmem, ?_⟩
    simp only [List.mem_cons, List.not_mem_nil, or_false] at hmem
    obtain rfl | rfl | rfl := hmem
    · exact hparser v hv
    · exact hcache v hv
    · exact hlogging v hv
  · intro h
    refine ⟨⟨⟨?_, ?_⟩, ?_⟩, ?_⟩
    · exact fun v hv ↦ (h _ v hv).2
    · exact fun v hv ↦ (h _ v hv).2
    · exact fun v hv ↦ (h _ v hv).2
    · exact fun name v hv ↦ (hname name).2 (h name v hv).1

theorem ofFields_eq_ok_iff :
    ofFields fields checks = .ok c ↔
      Acceptable checks fields ∧ (checkFields checks fields).value = c := by
  rw [← violations_checkFields, ofFields]
  cases hv : (checkFields checks fields).violations <;> simp

theorem get_checkFields (s : Setting) :
    s.get (checkFields checks fields).value =
      valueOf (s.get {}) (s.check checks) (lookUp s.place fields) := by
  cases s with
  | strictEndOfInput =>
    exact value_subsection (g := Parser.strictEndOfInput) fun inner ↦ value_setting
  | cacheEnabled => exact value_subsection (g := Cache.enabled) fun inner ↦ value_setting
  | maxDocuments => exact value_subsection (g := Cache.maxDocuments) fun inner ↦ value_setting
  | logLevel => exact value_subsection (g := Logging.level) fun inner ↦ value_setting
  | logTransientErrors =>
    exact value_subsection (g := Logging.logTransientErrors) fun inner ↦ value_setting

end Settings

section Layers

variable {fields base layer lower upper : Fields} {layers : List Fields} {name : String}
  {place : String × String} {current : Option Json} {v : Json} {l u : Config} {checks : Checks}

theorem Fits.laid (hc : ∀ w, current = some w → Fits checks name w) (hv : Fits checks name v)
    (hk : WellKeyed v) : Fits checks name (laid current v) := by
  refine ⟨by rw [isObject_laid, hv.isObject], fun key w hw ↦ ?_⟩
  rw [get?_laid hk hv.isObject, Option.or_eq_some_iff] at hw
  obtain hw | ⟨-, hw⟩ := hw
  · exact hv.settings key w hw
  · obtain ⟨x, hx, hw⟩ := Option.bind_eq_some_iff.1 hw
    exact (hc x hx).settings key w hw

theorem Acceptable.merge (hb : Acceptable checks base) (hl : Acceptable checks layer)
    (hk : WellKeyed (.object layer)) : Acceptable checks (merge base layer) := by
  intro name v hv
  rw [get?_merge hk.nodup] at hv
  cases hlayer : layer.get? name with
  | none =>
    rw [hlayer] at hv
    exact hb name v hv
  | some w =>
    rw [hlayer] at hv
    obtain rfl : Config.laid (base.get? name) w = v := by simpa using hv
    obtain ⟨hname, hw⟩ := hl name w hlayer
    exact ⟨hname, .laid (fun x hx ↦ (hb name x hx).2) hw (hk.get? hlayer)⟩

theorem lookUp_merge (hl : Acceptable checks layer) (hk : WellKeyed (.object layer)) :
    lookUp place (merge base layer) = (lookUp place layer).or (lookUp place base) := by
  unfold lookUp
  rw [get?_merge hk.nodup]
  cases hlayer : layer.get? place.1 with
  | none => simp
  | some v => simpa using get?_laid (hk.get? hlayer) (hl _ v hlayer).2.isObject

theorem acceptable_mergeAll
    (h : ∀ layer ∈ layers, WellKeyed (.object layer) ∧ Acceptable checks layer) :
    Acceptable checks (mergeAll layers) := by
  induction layers using List.reverseRecOn with
  | nil => exact nofun
  | append_singleton layers layer ih =>
    obtain ⟨hlayers, hlayer⟩ := List.forall_mem_append.1 h
    obtain ⟨hk, hl⟩ := hlayer layer (by simp)
    rw [mergeAll_concat]
    exact (ih hlayers).merge hl hk

theorem lookUp_mergeAll
    (h : ∀ layer ∈ layers, WellKeyed (.object layer) ∧ Acceptable checks layer) :
    lookUp place (mergeAll layers) = (layers.filterMap (lookUp place)).getLast? := by
  induction layers using List.reverseRecOn with
  | nil => rfl
  | append_singleton layers layer ih =>
    obtain ⟨hlayers, hlayer⟩ := List.forall_mem_append.1 h
    obtain ⟨hk, hl⟩ := hlayer layer (by simp)
    rw [mergeAll_concat, lookUp_merge hl hk, ih hlayers, List.filterMap_append,
      List.getLast?_append]
    cases hv : lookUp place layer <;> simp [hv]

/-- Each setting of `c` is that of the upper layer if that sets it, else that of the lower layer if
that sets it, else the default. The layers give the settings `u` and `l` when they are alone. -/
def Precedes (lower upper : Fields) (l u c : Config) : Prop :=
  ∀ s : Setting, s.get c =
    if s.setBy upper then s.get u else if s.setBy lower then s.get l else s.get {}

theorem Precedes.eq {c d : Config} (hc : Precedes lower upper l u c)
    (hd : Precedes lower upper l u d) : c = d :=
  Setting.get_ext fun s ↦ (hc s).trans (hd s).symm

/-- To choose between merged values and to check the choice is to check both and to choose. -/
theorem precedes_mergeAll (hkl : WellKeyed (.object lower)) (hku : WellKeyed (.object upper))
    (hl : ofFields lower checks = .ok l) (hu : ofFields upper checks = .ok u) :
    ∃ c, ofFields (mergeAll [lower, upper]) checks = .ok c ∧ Precedes lower upper l u c := by
  obtain ⟨hlower, rfl⟩ := ofFields_eq_ok_iff.1 hl
  obtain ⟨hupper, rfl⟩ := ofFields_eq_ok_iff.1 hu
  have hall : ∀ layer ∈ [lower, upper], WellKeyed (.object layer) ∧ Acceptable checks layer := by
    simp [hkl, hku, hlower, hupper]
  refine ⟨_, ofFields_eq_ok_iff.2 ⟨acceptable_mergeAll hall, rfl⟩, fun s ↦ ?_⟩
  simp only [get_checkFields, lookUp_mergeAll hall, Setting.setBy]
  cases hlow : lookUp s.place lower <;> cases hup : lookUp s.place upper <;>
    simp [hlow, hup, valueOf]

variable {disk : Disk} {places : Places}

theorem loadLayers_of_both (hl : readFile disk places.user = .ok lower)
    (hu : readFile disk places.project = .ok upper) :
    (loadLayers disk places checks).1 = (ofFields (mergeAll [lower, upper]) checks).mapError
      (.invalidLayers [places.user.spelling, places.project.spelling]) := by
  have hlayers : Config.layers disk places =
      [(places.user.spelling, .ok lower), (places.project.spelling, .ok upper)] := by
    simp [Config.layers, isFile_of_readFile hl, isFile_of_readFile hu, fileLayer, hl, hu]
  exact loadLayers_eq [(places.user.spelling, lower), (places.project.spelling, upper)] hlayers

theorem readFile_of_file {path : Path} {bytes : List UInt8} {text : String}
    (hentry : disk path = .file bytes) (htext : Utf8.toText bytes = .ok text) :
    readFile disk path = fieldsOfText path.spelling text := by
  simp only [readFile, Disk.readText, hentry, htext, Except.mapError]

theorem fieldsOfText_of_trim {path text : String} (hp : Json.Plain 4300 (.object fields))
    (ht : Text.trim Text.isSeparator text.toList = (Json.render 0 (.object fields)).toList) :
    fieldsOfText path text = .ok fields := by
  obtain ⟨c, cs, hcs, -⟩ := (Json.readsBack_of_plain hp).starts 0
  have hparse : Json.parse (String.ofList (c :: cs)) = .ok (.object fields) := by
    rw [← hcs, String.ofList_toList]
    exact (Json.parseWithin_render hp).1
  rw [fieldsOfText, ht, hcs]
  simp only [hparse]

theorem load_eq {path : Path} (h : readFile disk path = .ok fields) :
    (load disk places (some path) checks).1 =
      (ofFields fields checks).mapError (.invalidFile path.spelling) := by
  simp only [load, loadFile, h]
  rfl

theorem load_eq_ok_iff {path : Path} {c : Config} (h : readFile disk path = .ok fields) :
    (load disk places (some path) checks).1 = .ok c ↔ ofFields fields checks = .ok c := by
  rw [load_eq h]
  cases ofFields fields checks <;> simp [Except.mapError]

end Layers

/-- Two layers that are each acceptable are acceptable together, and every setting comes from the
upper one of those that set it, with the value that it has there alone, however values are read. The
same holds of the files of the user and of the project. -/
theorem layers_precedence (checks : Checks) :
    (∀ (lower upper : Fields) (l u : Config), WellKeyed (.object lower) →
      WellKeyed (.object upper) → ofJson (.object lower) checks = .ok l →
      ofJson (.object upper) checks = .ok u →
      ∃ c, ofJson (.object (mergeAll [lower, upper])) checks = .ok c ∧
        Precedes lower upper l u c ∧ ∀ d, Precedes lower upper l u d → d = c) ∧
    ∀ (disk : Disk) (places : Places) (lower upper : Fields) (l u : Config),
      readFile disk places.user = .ok lower → readFile disk places.project = .ok upper →
      (load disk places (some places.user) checks).1 = .ok l →
      (load disk places (some places.project) checks).1 = .ok u →
      ∃ c, (load disk places none checks).1 = .ok c ∧ Precedes lower upper l u c := by
  constructor
  · intro lower upper l u hkl hku hl hu
    obtain ⟨c, hc, hp⟩ := precedes_mergeAll hkl hku hl hu
    exact ⟨c, hc, hp, fun d hd ↦ hd.eq hp⟩
  · intro disk places lower upper l u hlower hupper hl hu
    obtain ⟨c, hc, hp⟩ := precedes_mergeAll (wellKeyed_of_readFile hlower)
      (wellKeyed_of_readFile hupper) ((load_eq_ok_iff hlower).1 hl) ((load_eq_ok_iff hupper).1 hu)
    refine ⟨c, ?_, hp⟩
    rw [load, loadLayers_of_both hlower hupper, hc]
    rfl

/-- Two layers that set the same, and two files that do not. -/
theorem layers_precedence_cache :
    let lower : Fields := [("cache", .object [("enabled", .text "no"), ("max_documents", .int 8)])]
    let user : Fields := [("cache", .object [("enabled", .text "no")])]
    let upper : Fields := [("cache", .object [("max_documents", .text "16")])]
    let userText := "\x7b\n  \"cache\": \x7b\n    \"enabled\": \"no\"\n  \x7d\n\x7d\n"
    let upperText := "\x7b\n  \"cache\": \x7b\n    \"max_documents\": \"16\"\n  \x7d\n\x7d\n"
    let places : Places := ⟨⟨.relative, ["home"]⟩, ⟨.relative, ["here"]⟩, "defaults"⟩
    let disk : Disk := fun p ↦
      if p = places.user then .file userText.toUTF8.toList
      else if p = places.project then .file upperText.toUTF8.toList
      else .missing
    ofJson (.object (mergeAll [lower, upper])) = .ok { cache := ⟨false, 16⟩ } ∧
    readFile disk places.user = .ok user ∧ readFile disk places.project = .ok upper ∧
    (load disk places none).1 = .ok { cache := ⟨false, 16⟩ } := by
  intro lower user upper userText upperText places disk
  have hlower : ofFields lower = .ok { cache := ⟨false, 8⟩ } := by decide +kernel
  have huser : ofFields user = .ok { cache := ⟨false, 256⟩ } := by decide +kernel
  have hupper : ofFields upper = .ok { cache := ⟨true, 16⟩ } := by decide +kernel
  have hreadUser : readFile disk places.user = .ok user := by
    have htext : Utf8.toText userText.toUTF8.toList = .ok userText := by decide +kernel
    rw [readFile_of_file (if_pos rfl) htext]
    exact fieldsOfText_of_trim (by simp [user]) (by decide +kernel)
  have hreadUpper : readFile disk places.project = .ok upper := by
    have htext : Utf8.toText upperText.toUTF8.toList = .ok upperText := by decide +kernel
    have hother : places.project ≠ places.user := by simp [places]
    rw [readFile_of_file ((if_neg hother).trans (if_pos rfl)) htext]
    exact fieldsOfText_of_trim (by simp [upper]) (by decide +kernel)
  refine ⟨?_, hreadUser, hreadUpper, ?_⟩
  · have hchosen : Precedes lower upper { cache := ⟨false, 8⟩ } { cache := ⟨true, 16⟩ }
        { cache := ⟨false, 16⟩ } := by
      intro s
      cases s <;> rfl
    obtain ⟨c, hc, -, hunique⟩ := (layers_precedence {}).1 lower upper _ _ (by simp [lower])
      (by simp [upper]) hlower hupper
    rw [hunique _ hchosen]
    exact hc
  · have hchosen : Precedes user upper { cache := ⟨false, 256⟩ } { cache := ⟨true, 16⟩ }
        { cache := ⟨false, 16⟩ } := by
      intro s
      cases s <;> rfl
    obtain ⟨c, hc, hp⟩ := (layers_precedence {}).2 disk places user upper _ _ hreadUser hreadUpper
      ((load_eq_ok_iff hreadUser).2 huser) ((load_eq_ok_iff hreadUpper).2 hupper)
    rw [hchosen.eq hp]
    exact hc

end SchemaOutline.Config
