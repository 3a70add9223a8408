import SchemaOutline.Command.Run
import SchemaOutline.Proofs.Config.Defaults
import SchemaOutline.Proofs.Json.RoundTrip
import SchemaOutline.Proofs.Outline.Lines
import SchemaOutline.Proofs.Outline.Records

namespace SchemaOutline

namespace Node

variable {most : Nat} {lo hi : Int}

theorem plain_int {i : Int} (h : i.natAbs < 10 ^ most) (hm : 0 < most) :
    Json.Plain most (.int i) :=
  .int ((Nat.length_toDigits_le_iff (by decide) hm).2 h)

theorem plain_allToJson {ns : List Node} (h : InOrder lo hi ns) (h₀ : 0 ≤ lo)
    (hhi : (hi + 1).toNat < 10 ^ most) (hm : 0 < most) :
    ∀ v ∈ allToJson ns, Json.Plain most v := by
  induction h with
  | nil => simp [allToJson]
  | @cons lo hi n ns hlo hs hp hl hc hns ihc ihns =>
    have hle := hns.le
    obtain ⟨name, detail, kind, ⟨first, last⟩, ⟨line, line'⟩, children⟩ := n
    simp only at hlo hs hp hl hle ihc ihns
    have hfirst : Json.Plain most (.int (first + 1)) := plain_int (by omega) hm
    have hlast : Json.Plain most (.int (last + 1)) := plain_int (by omega) hm
    have hline : Json.Plain most (.int (line + 1)) := plain_int (by omega) hm
    have hchildren := ihc (by omega) (by omega)
    simp only [allToJson, List.forall_mem_cons]
    refine ⟨?_, ihns (by omega) hhi⟩
    simpa [toJson, LineRange.fromOne, hfirst, hlast, hline] using hchildren

end Node

theorem Log.printed_debug {r : Log.Record} (hl : r.level = 10) (ho : Log.isOwn r.source = true)
    (stamp : String) (level : Log.Level) :
    Log.printed stamp level.number r =
      if level = .debug then stamp ++ " [DEBUG] " ++ r.source ++ ": " ++ r.text ++ "\n" else "" := by
  have hline : r.line stamp = stamp ++ " [DEBUG] " ++ r.source ++ ": " ++ r.text ++ "\n" := by
    have hlabel : " [" ++ Log.levelText 10 ++ "] " = " [DEBUG] " := by decide
    rw [← hlabel, Log.Record.line, hl]
    simp only [String.append_assoc]
    rfl
  cases level <;> simp [Log.printed, hl, ho, hline, Log.Level.number]

namespace Command

def outlineFile (disk : Disk) (strict : Bool) (p : Path) : Except String (List Node) := do
  let text ← (disk.readText p).mapError ReadFault.message
  (outline strict text).mapError Fault.message

def entryOf? (disk : Disk) (strict : Bool) (p : Path) : Option Json :=
  (outlineFile disk strict p).toOption.map fun nodes ↦
    .object [("file", .text p.spelling), ("symbols", .list (Node.allToJson nodes))]

def treeOf (disk : Disk) (strict : Bool) (p : Path) : String :=
  ((outlineFile disk strict p).toOption.map (Display.treeText {} p.spelling)).getD ""

def errorLineOf (disk : Disk) (strict : Bool) (p : Path) : String :=
  match outlineFile disk strict p with
  | .error m => p.spelling ++ ": " ++ m ++ "\n"
  | .ok _ => ""

def recordsOf (disk : Disk) (strict : Bool) (p : Path) : List Log.Record :=
  match disk.readText p with
  | .error _ => [⟨10, "protoutline.cli.main", "Failed to read " ++ p.spelling⟩]
  | .ok text => (outlineTokens (tokenize text)).records strict

def logOf (disk : Disk) (strict : Bool) (stamp : String) (p : Path) : String :=
  String.join ((recordsOf disk strict p).map fun r ↦
    stamp ++ " [DEBUG] " ++ r.source ++ ": " ++ r.text ++ "\n")

section Report

variable {disk : Disk} {strict : Bool} {p : Path}

theorem parts_of_ok {nodes : List Node} (h : outlineFile disk strict p = .ok nodes) :
    entryOf? disk strict p = some (.object [("file", .text p.spelling),
      ("symbols", .list (Node.allToJson nodes))]) ∧
    treeOf disk strict p = Display.treeText {} p.spelling nodes ∧
    errorLineOf disk strict p = "" := by
  simp [entryOf?, treeOf, errorLineOf, h, Except.toOption]

theorem parts_of_error {m : String} (h : outlineFile disk strict p = .error m) :
    entryOf? disk strict p = none ∧ treeOf disk strict p = "" ∧
    errorLineOf disk strict p = p.spelling ++ ": " ++ m ++ "\n" := by
  simp [entryOf?, treeOf, errorLineOf, h, Except.toOption]

theorem result_reportFile : (reportFile disk strict p).result = outlineFile disk strict p := by
  unfold reportFile outlineFile
  cases disk.readText p <;> rfl

theorem path_reportFile : (reportFile disk strict p).path = p := by
  unfold reportFile
  split <;> rfl

theorem records_reportFile : (reportFile disk strict p).records = recordsOf disk strict p := by
  unfold reportFile recordsOf
  cases disk.readText p <;> rfl

theorem entry?_reportFile :
    FileReport.entry? (reportFile disk strict p) = entryOf? disk strict p := by
  unfold FileReport.entry? entryOf?
  rw [result_reportFile, path_reportFile]
  cases outlineFile disk strict p <;> rfl

theorem treeText_reportFile : (reportFile disk strict p).treeText = treeOf disk strict p := by
  unfold FileReport.treeText treeOf
  rw [result_reportFile, path_reportFile]
  cases outlineFile disk strict p <;> simp [Except.toOption]

theorem errorLine_reportFile :
    (reportFile disk strict p).errorLine = errorLineOf disk strict p := by
  unfold FileReport.errorLine errorLineOf
  rw [result_reportFile, path_reportFile]
  cases outlineFile disk strict p <;> rfl

theorem failed_reportFile :
    (reportFile disk strict p).failed = true ↔ (outlineFile disk strict p).isOk = false := by
  unfold FileReport.failed
  rw [result_reportFile]
  cases outlineFile disk strict p <;> simp [Except.toOption, Except.isOk, Except.toBool]

theorem debug_of_mem_recordsOf {r : Log.Record} (h : r ∈ recordsOf disk strict p) :
    r.level = 10 ∧ Log.isOwn r.source = true := by
  unfold recordsOf at h
  split at h
  · obtain rfl := List.mem_singleton.1 h
    have hown : Log.isOwn "protoutline.cli.main" = true := by decide
    exact ⟨rfl, hown⟩
  · obtain ⟨hlevel, hsource⟩ := Reading.debug_of_mem_records h
    exact ⟨hlevel, by rw [hsource]; decide⟩

theorem lines_reportFile (stamp : String) (level : Log.Level) :
    Log.lines stamp level.number (reportFile disk strict p).records =
      if level = .debug then logOf disk strict stamp p else "" := by
  have hprinted : ∀ r ∈ recordsOf disk strict p, Log.printed stamp level.number r =
      if level = .debug then stamp ++ " [DEBUG] " ++ r.source ++ ": " ++ r.text ++ "\n" else "" := by
    intro r hr
    obtain ⟨hlevel, hown⟩ := debug_of_mem_recordsOf hr
    exact Log.printed_debug hlevel hown stamp level
  rw [Log.lines, records_reportFile, List.map_congr_left hprinted]
  split_ifs
  · rfl
  · apply String.toList_inj.1
    simp

theorem outlineFile_eq_ok_iff {nodes : List Node} :
    outlineFile disk strict p = .ok nodes ↔
      ∃ text, disk.readText p = .ok text ∧ outline strict text = .ok nodes := by
  unfold outlineFile
  cases disk.readText p with
  | error f => simp [Except.mapError, bind, Except.bind]
  | ok text =>
    cases houtline : outline strict text <;> simp [houtline, Except.mapError, bind, Except.bind]

theorem plain_entry {most : Nat} {e : Json}
    (h : ∀ text, disk.readText p = .ok text → text.length + 1 < 10 ^ most)
    (he : entryOf? disk strict p = some e) : Json.Plain most e := by
  cases hresult : outlineFile disk strict p with
  | error m => simp [(parts_of_error hresult).1] at he
  | ok nodes =>
    obtain rfl := Option.some.inj ((parts_of_ok hresult).1.symm.trans he)
    obtain ⟨text, htext, houtline⟩ := outlineFile_eq_ok_iff.1 hresult
    have hlength := h text htext
    have hm : 0 < most := Nat.pos_of_ne_zero fun h₀ ↦ by simp [h₀] at hlength
    have hlines : ((text.toList.count '\n' : Int) + 1).toNat < 10 ^ most := by
      have hcount : text.toList.count '\n' ≤ text.length := by
        rw [← String.length_toList]
        exact List.count_le_length
      omega
    have hsymbols := Node.plain_allToJson (inOrder_of_outline houtline) (Int.le_refl 0) hlines hm
    simpa using hsymbols

end Report

def Options.only (o : Options) (p : Path) : Options := { o with files := [p] }

/-- A JSON report on files: one array with the entries of those that have an outline, in order. It
is read back as that, if integers may have the digits that it takes to count the lines. -/
structure Reports (disk : Disk) (strict : Bool) (files : List Path) (stdout : String) : Prop where
  written : stdout = Json.render 0 (.list (files.filterMap (entryOf? disk strict))) ++ "\n"
  parsed : ∀ most, (∀ p ∈ files, ∀ text, disk.readText p = .ok text →
      text.length + 1 < 10 ^ most) →
    Json.parseWithin most stdout = .ok (.list (files.filterMap (entryOf? disk strict)))

/-- How a run on files is put together from the runs on each of them alone, whose outputs are
`own`. Log lines are printed if they are `shown`. -/
structure Gathers (disk : Disk) (stamp : String) (strict json shown : Bool) (files : List Path)
    (own : Path → Output) (out : Output) : Prop where
  entries : json = true → Reports disk strict files out.stdout ∧
    ∀ p ∈ files, Reports disk strict [p] (own p).stdout
  trees : json = false →
    out.stdout = String.join (files.map fun p ↦ (own p).stdout) ∧
    ∀ p ∈ files, (own p).stdout = treeOf disk strict p
  errors : out.stderr = String.join (files.map fun p ↦ (own p).stderr) ∧
    ∀ p ∈ files, (own p).stderr =
      (if shown then logOf disk strict stamp p else "") ++ errorLineOf disk strict p
  exit_zero : out.exit = 0 ↔ ∀ p ∈ files, (outlineFile disk strict p).isOk = true
  exit_one : out.exit = 1 ↔ ∃ p ∈ files, (outlineFile disk strict p).isOk = false

theorem reports_printReports (disk : Disk) (strict : Bool) (stamp : String) (threshold : Int)
    (files : List Path) :
    Reports disk strict files
      (printReports stamp threshold true (files.map (reportFile disk strict))).stdout := by
  have hwritten : (printReports stamp threshold true (files.map (reportFile disk strict))).stdout =
      Json.render 0 (.list (files.filterMap (entryOf? disk strict))) ++ "\n" := by
    simp only [printReports, if_true, List.filterMap_map, Function.comp_def, entry?_reportFile]
  refine ⟨hwritten, fun most htexts ↦ ?_⟩
  have hplain : Json.Plain most (.list (files.filterMap (entryOf? disk strict))) := by
    rw [Json.Plain.list_iff]
    intro e he
    obtain ⟨p, hp, he⟩ := List.mem_filterMap.1 he
    exact plain_entry (htexts p hp) he
  rw [hwritten]
  exact (Json.parseWithin_render hplain).2

theorem gathers_printReports (disk : Disk) (strict json : Bool) (stamp : String)
    (level : Log.Level) (files : List Path) :
    Gathers disk stamp strict json (level = .debug) files
      (fun p ↦ printReports stamp level.number json [reportFile disk strict p])
      (printReports stamp level.number json (files.map (reportFile disk strict))) where
  entries := by
    rintro rfl
    exact ⟨reports_printReports _ _ _ _ files, fun p hp ↦ reports_printReports _ _ _ _ [p]⟩
  trees := by
    rintro rfl
    constructor
    · simp [printReports, Function.comp_def]
    · intro p hp
      simp [printReports, treeText_reportFile]
  errors := by
    constructor
    · simp [printReports, Function.comp_def]
    · intro p hp
      simp [printReports, lines_reportFile, errorLine_reportFile]
  exit_zero := by
    simp [printReports, failed_reportFile]
  exit_one := by
    simp [printReports, failed_reportFile]

theorem runOptions_eq {c : Context} {o : Options} {config : Config}
    (hload : (Config.load c.disk c.places o.config).1 = .ok config)
    (hnames : ∀ p ∈ o.files, p.isNameable = true) :
    runOptions c o = .finished (printReports c.stamp
      (if o.verbose then Log.Level.debug else config.logging.level).number o.json
      (o.files.map (reportFile c.disk (config.parser.strictEndOfInput && !o.lenient)))) := by
  have hall : o.files.all Path.isNameable = true := List.all_eq_true.2 hnames
  have htaken : o.files.takeWhile Path.isNameable = o.files := List.takeWhile_eq_self_iff.2 hnames
  simp only [runOptions, hload, hall, htaken, if_true]

/-- Files do not meet: once the settings are loaded, a run on any number of files, in any order and
also on the same one twice, is put together from the runs on each of them alone. -/
theorem runOptions_gathers (c : Context) (o : Options) (config : Config)
    (hload : (Config.load c.disk c.places o.config).1 = .ok config)
    (hnames : ∀ p ∈ o.files, p.isNameable = true) :
    ∃ (own : Path → Output) (out : Output),
      (∀ p ∈ o.files, runOptions c (o.only p) = .finished (own p)) ∧
      runOptions c o = .finished out ∧
      Gathers c.disk c.stamp (config.parser.strictEndOfInput && !o.lenient) o.json
        (o.verbose || config.logging.level = .debug) o.files own out := by
  have hgathers := gathers_printReports c.disk (config.parser.strictEndOfInput && !o.lenient)
    o.json c.stamp (if o.verbose then .debug else config.logging.level) o.files
  have hshown : decide ((if o.verbose then Log.Level.debug else config.logging.level) = .debug) =
      (o.verbose || config.logging.level = .debug) := by
    cases o.verbose <;> simp
  rw [hshown] at hgathers
  refine ⟨_, _, fun p hp ↦ ?_, runOptions_eq hload hnames, hgathers⟩
  have honly : ∀ q ∈ (o.only p).files, q.isNameable = true := by
    intro q hq
    obtain rfl : q = p := List.mem_singleton.1 hq
    exact hnames q hp
  exact runOptions_eq hload honly

/-- A file with an outline, given twice, and one that is missing between, in both kinds of report. -/
theorem runOptions_gathers_missing :
    let good : Path := ⟨.relative, ["good"]⟩
    let missing : Path := ⟨.relative, ["missing"]⟩
    let disk : Disk := fun p ↦
      if p = good then .file "enum E \x7b A = 0; \x7d".toUTF8.toList else .missing
    let c : Context :=
      ⟨disk, ⟨⟨.relative, ["home"]⟩, ⟨.relative, ["here"]⟩, "defaults"⟩, "00:00:00"⟩
    let tree := "good\n└──        L1 enum E  enum\n    └──        L1 enum_member A\n"
    let entry : Json := .object [("file", .text "good"), ("symbols", .list [.object
      [("name", .text "E"), ("detail", .text "enum"), ("kind", .text "ENUM"),
       ("range", .list [.int 1, .int 1]), ("selection_line", .int 1), ("children", .list [.object
        [("name", .text "A"), ("detail", .text ""), ("kind", .text "ENUM_MEMBER"),
         ("range", .list [.int 1, .int 1]), ("selection_line", .int 1),
         ("children", .list [])]])]])]
    let parsed := "00:00:00 [DEBUG] protoutline.outline.parser: Parsed 1 top-level declarations\n"
    let failed := "00:00:00 [DEBUG] protoutline.cli.main: Failed to read missing\n"
    let error := "missing: cannot read file: No such file or directory\n"
    runOptions c { files := [good, missing, good] } = .finished ⟨1, tree ++ tree, error⟩ ∧
    ∃ stdout, runOptions c { files := [good, missing, good], json := true, verbose := true } =
        .finished ⟨1, stdout, parsed ++ (failed ++ error ++ parsed)⟩ ∧
      Json.parse stdout = .ok (.list [entry, entry]) := by
  intro good missing disk c tree entry parsed failed error
  let nodes : List Node := [⟨"E", "enum", .enum, ⟨0, 0⟩, ⟨0, 0⟩,
    [⟨"A", "", .enumMember, ⟨0, 0⟩, ⟨0, 0⟩, []⟩]⟩]
  have hload : (Config.load c.disk c.places none).1 = .ok {} := by
    have hlayers : Config.layers c.disk c.places = [("defaults", .ok Config.shipped)] := by
      simp [Config.layers, c, disk, good, Entry.isFile]
    have hshipped : Config.ofFields (Config.mergeAll [Config.shipped]) = .ok {} := by
      decide +kernel
    rw [Config.load, Config.loadLayers_eq [("defaults", Config.shipped)] hlayers]
    simp only [List.map_cons, List.map_nil, hshipped, Except.mapError]
  have hnames : ∀ p ∈ [good, missing, good], p.isNameable = true := by
    simp [good, missing, Path.isNameable]
  have hread : disk.readText good = .ok "enum E \x7b A = 0; \x7d" := by
    have hentry : disk good = .file "enum E \x7b A = 0; \x7d".toUTF8.toList := if_pos rfl
    rw [Disk.readText, hentry]
    decide +kernel
  have hmissing : disk.readText missing = .error .missing := by
    have hentry : disk missing = .missing := if_neg (by simp [good, missing])
    rw [Disk.readText, hentry]
  have hgood : outlineFile disk true good = .ok nodes := outlineFile_eq_ok_iff.2 ⟨_, hread, by rfl⟩
  have hnone : outlineFile disk true missing =
      .error "cannot read file: No such file or directory" := by
    simp only [outlineFile, hmissing]
    rfl
  have hexit : (outlineFile disk true missing).isOk = false := by rw [hnone]; rfl
  obtain ⟨hentry, htree, hquiet⟩ := parts_of_ok hgood
  obtain ⟨hskipped, hempty, herror⟩ := parts_of_error hnone
  replace herror : errorLineOf disk true missing = error := herror.trans (by decide +kernel)
  constructor
  · obtain ⟨own, ⟨exit, stdout, stderr⟩, -, hrun, h⟩ :=
      runOptions_gathers c { files := [good, missing, good] } {} hload hnames
    replace h : Gathers disk "00:00:00" true false false [good, missing, good] own
      ⟨exit, stdout, stderr⟩ := h
    obtain rfl : exit = 1 := h.exit_one.2 ⟨missing, by simp, hexit⟩
    replace htree : treeOf disk true good = tree := htree.trans (by decide +kernel)
    obtain ⟨htrees, hown⟩ := h.trees rfl
    obtain ⟨herrors, hlines⟩ := h.errors
    obtain rfl : stdout = tree ++ tree := by
      simpa [hown, htree, hempty] using htrees
    obtain rfl : stderr = error := by
      simpa [hlines, herror, hquiet] using herrors
    exact hrun
  · obtain ⟨own, ⟨exit, stdout, stderr⟩, -, hrun, h⟩ := runOptions_gathers c
      { files := [good, missing, good], json := true, verbose := true } {} hload hnames
    replace h : Gathers disk "00:00:00" true true true [good, missing, good] own
      ⟨exit, stdout, stderr⟩ := h
    obtain rfl : exit = 1 := h.exit_one.2 ⟨missing, by simp, hexit⟩
    have hparsed : logOf disk true "00:00:00" good = parsed := by
      rw [logOf, recordsOf, hread]
      decide +kernel
    have hfailed : logOf disk true "00:00:00" missing = failed := by
      rw [logOf, recordsOf, hmissing]
      decide +kernel
    obtain ⟨herrors, hlines⟩ := h.errors
    obtain rfl : stderr = parsed ++ (failed ++ error ++ parsed) := by
      simpa [hlines, herror, hquiet, hparsed, hfailed] using herrors
    replace hentry : entryOf? disk true good = some entry := hentry
    have hparse : ∀ most, 2 ≤ most →
        Json.parseWithin most stdout = .ok (.list [entry, entry]) := by
      intro most hmost
      have hfew : 18 < 10 ^ most :=
        Nat.lt_of_lt_of_le (by decide) (Nat.pow_le_pow_right (by decide) hmost)
      have htexts : ∀ p ∈ [good, missing, good], ∀ text, disk.readText p = .ok text →
          text.length + 1 < 10 ^ most := by
        intro p hp text htext
        obtain rfl | rfl : p = good ∨ p = missing := by simpa [or_comm, or_assoc] using hp
        · obtain rfl := Except.ok.inj (hread.symm.trans htext)
          exact hfew
        · cases hmissing.symm.trans htext
      simpa [hentry, hskipped] using (h.entries rfl).1.parsed most htexts
    exact ⟨stdout, hrun, hparse 4300 (by decide)⟩

end Command

end SchemaOutline
