import SchemaOutline.Proofs.Outline.Scanning

namespace SchemaOutline

open SchemaOutline.Bracket Stack Syntax

section Words

variable {v : String}

theorem Frame.ofToken?_bracket (h : mark v ≠ .plain) (c : Option Bool) (start : Int) :
    ofToken? c v start = none := by
  have hb : isBracket v = true := by simpa [isBracket] using h
  simp [ofToken?, hb]

theorem Frame.ofToken?_semicolon (c : Option Bool) (start : Int) : ofToken? c ";" start = none :=
  rfl

theorem Frame.ofToken?_blockWord (word : BlockWord) (c : Option Bool) (start : Int) :
    ofToken? c word.spelling start = some (.name (.block word start)) := by
  cases word <;> rfl

theorem Frame.ofToken?_setting (h : v ∈ ["option", "reserved"]) (c : Option Bool) (start : Int) :
    ofToken? c v start = some (.scan [] (.skip [";"])) := by
  simp only [List.mem_cons, List.not_mem_nil, or_false] at h
  obtain rfl | rfl := h <;> rfl

theorem Frame.ofToken?_extension (h : v ∈ ["extend", "group"]) (c : Option Bool) (start : Int) :
    ofToken? c v start = some (.scan [] (.skip [curly.closer])) := by
  simp only [List.mem_cons, List.not_mem_nil, or_false] at h
  obtain rfl | rfl := h <;> rfl

theorem Frame.ofToken?_ordinary (h : Ordinary v) (c : Option Bool) (start : Int) :
    ofToken? c v start = some (match c with
      | some inEnum => ofField inEnum v start
      | none => .scan [] (.skip [";"])) := by
  have hb : isBracket v = false := isBracket_eq_false.2 h.plain
  have hk := h.not_keyword
  simp only [keywords, List.mem_cons, List.not_mem_nil, or_false, not_or] at hk
  obtain ⟨hm, he, hs, hr, hg, hx, ho, hv⟩ := hk
  have hw : BlockWord.ofWord? v = none := by simp [BlockWord.ofWord?, hm, he, hs]
  simp only [ofToken?, hb, h.ne_semicolon, hw, hr, hg, hx, ho, hv, decide_false, Bool.or_false,
    Bool.false_eq_true, if_false]
  cases c <;> rfl

theorem Frame.ofField_value (hm : v ≠ "map") (start : Int) :
    ofField true v start = .scan [] (.tail ⟨v, "", .enumMember, start, start⟩) := by
  simp [ofField, hm, FieldShape.kind, FieldShape.rule?, FieldShape.rules]

theorem Frame.ofField_field (hf : v ∉ fieldWords) (start : Int) :
    ofField false v start = .name (.field start v { typeName := v }) := by
  simp only [fieldWords, List.mem_cons, List.not_mem_nil, or_false, not_or] at hf
  obtain ⟨hm, -, hr, ho, hp⟩ := hf
  simp [ofField, hm, Cardinality.ofWord?, hr, ho, hp]

theorem Frame.ofToken?_label (label : Cardinality) (start : Int) :
    ofToken? (some false) label.spelling start = some (.fieldType start label) := by
  cases label <;> rfl

theorem BlockWord.kind_eq (word : BlockWord) : word.kind = blockKind word := by
  cases word <;> rfl

theorem FieldShape.kind_labelled (hv : v ≠ "oneof") (label : Cardinality) :
    FieldShape.kind { typeName := v, cardinality := some label } =
      if label = .repeated then .array else fieldKind v := by
  by_cases hr : label = .repeated <;> by_cases hb : v = "bool" <;>
    simp [FieldShape.kind, FieldShape.rule?, FieldShape.rules, fieldKind, hv, hr, hb]

theorem FieldShape.kind_unlabelled (hv : v ≠ "oneof") :
    FieldShape.kind { typeName := v } = fieldKind v := by
  by_cases hb : v = "bool" <;>
    simp [FieldShape.kind, FieldShape.rule?, FieldShape.rules, fieldKind, hv, hb]

theorem Unnamed.named_field {shape : FieldShape} (h : shape.opensBody = false) (name : String)
    (line start : Int) (detail : String) :
    Unnamed.named name line (.field start detail shape) =
      .tail ⟨name, detail, shape.kind, start, line - 1⟩ := by
  simp [Unnamed.named, h]

end Words

theorem Job.context_receive (nodes : List Node) (job : Job) :
    (job.receive nodes).context = job.context := by
  cases job <;> rfl

theorem Job.receive_append (xs ys : List Node) (job : Job) :
    job.receive (xs ++ ys) = (job.receive xs).receive ys := by
  cases job <;> simp [Job.receive]

section Items

variable {outer : List Frame} {u : List Bracket} {job : Job} {c : Option Bool}

theorem reads_begin {t : Token} {inner : Frame} (hc : job.context = some c)
    (hi : Frame.ofToken? c t.value (t.line - 1) = some inner) :
    Reads ⟨.scan u job, outer⟩ [t] ⟨inner, .scan u job :: outer⟩ :=
  .push (.begins hc hi)

theorem reads_name (pending : Unnamed) (name : Token) :
    Reads ⟨.name pending, outer⟩ [name] ⟨.scan [] (pending.named name.value name.line), outer⟩ :=
  .go (.named pending)

theorem reads_skip (content : Stretch [";"]) (last : Int) (f : Frame) :
    Reads ⟨.scan [] (.skip [";"]), f :: outer⟩ (content.tokens ++ [⟨";", last⟩])
      ⟨f.receive [], outer⟩ :=
  have hj := Job.discards_skip [";"]
  (hj.reads_stretch content).trans (hj.reads_end (nest_plain rfl []) (by simp [Job.ends]))

theorem reads_skip_group (title : Stretch [curly.closer]) (content : Group .curly) (f : Frame) :
    Reads ⟨.scan [] (.skip [curly.closer]), f :: outer⟩ (title.tokens ++ content.tokens)
      ⟨f.receive [], outer⟩ :=
  have hj := Job.discards_skip [curly.closer]
  (hj.reads_stretch title).trans (hj.reads_group content f (by simp [Job.ends]))

theorem reads_tail (head : Head) (tail : Stretch enders) (e : Ending) (f : Frame) :
    Reads ⟨.scan [] (.tail head), f :: outer⟩ (tail.tokens ++ e.tokens)
      ⟨f.receive [head.close e.line []], outer⟩ :=
  have hj := Job.discards_tail head
  (hj.reads_stretch tail).trans (hj.reads_ending e f rfl)

theorem reads_braced {head : Head} {inEnum : Bool} {inside : List Token} {nodes : List Node}
    {f : Frame} (first last : Int)
    (h : Reads ⟨.scan [.curly] (.body head inEnum []), f :: outer⟩ inside
      ⟨.scan [.curly] ((Job.body head inEnum []).receive nodes), f :: outer⟩) :
    Reads ⟨.scan [] (.body head inEnum []), f :: outer⟩ (braced first inside last)
      ⟨f.receive [head.close last nodes], outer⟩ := by
  have hopen : Frame.Effect ⟨curly.opener, first⟩ (.scan [] (.body head inEnum []))
      (.go (.scan [.curly] (.body head inEnum []))) :=
    .stays (nest_opening (mark_opener .curly) [])
      (fun c _ ↦ Frame.ofToken?_bracket (by simp [mark_opener]) c _) (fun hv ↦ nomatch hv)
  have hclose : Frame.Effect ⟨curly.closer, last⟩
      (.scan [.curly] ((Job.body head inEnum []).receive nodes))
      (.pop (((Job.body head inEnum []).receive nodes).close last)) :=
    .ends (nest_closing (mark_closer .curly) [])
      (fun c _ ↦ Frame.ofToken?_bracket (by simp [mark_closer]) c _)
      (by simp [Job.receive, Job.ends, closer])
  have hnodes : ((Job.body head inEnum []).receive nodes).close last = [head.close last nodes] := by
    simp [Job.receive, Job.close]
  rw [hnodes] at hclose
  exact ((Reads.go hopen).trans h).trans (.pop hclose)

theorem reads_semicolon (hc : job.context = some c) (line : Int) :
    Reads ⟨.scan u job, outer⟩ [⟨";", line⟩] ⟨.scan u job, outer⟩ := by
  have he : ";" ∉ job.ends := by
    cases job with
    | document nodes => simp [Job.ends]
    | body head inEnum members => simp [Job.ends]
    | signature head inOptions => cases hc
    | tail head => cases hc
    | skip ends => cases hc
  have h : Frame.Effect ⟨";", line⟩ (.scan u job) _ :=
    .stays (nest_plain rfl u) (fun c _ ↦ Frame.ofToken?_semicolon c _) (fun _ ↦ he)
  rw [Job.grow_of_context hc] at h
  exact .go h

theorem reads_named_field {shape : FieldShape} (h : shape.opensBody = false) (start : Int)
    (detail : String) (name : Token) (tail : Stretch enders) (e : Ending) (f : Frame) :
    Reads ⟨.name (.field start detail shape), f :: outer⟩ (name :: tail.tokens ++ e.tokens)
      ⟨f.receive [Head.close ⟨name.value, detail, shape.kind, start, name.line - 1⟩ e.line []],
        outer⟩ := by
  have hname : Reads ⟨.name (.field start detail shape), f :: outer⟩ [name] _ := reads_name _ name
  rw [Unnamed.named_field h] at hname
  exact hname.trans (reads_tail _ tail e f)

mutual

/-- Reading an item adds its nodes to the body it stands in. -/
theorem Syntax.Item.reads {c : Option Bool} {job : Job} {u : List Bracket} {outer : List Frame}
    (hc : job.context = some c) :
    (i : Item c) → Reads ⟨.scan u job, outer⟩ i.tokens ⟨.scan u (job.receive i.nodes), outer⟩
  | .block word line name first members last => by
    have hmembers : Reads ⟨.scan [.curly] (.body ⟨name.value, word.spelling, word.kind, line - 1,
        line - 1⟩ (word = .enum) []), .scan u job :: outer⟩ members.tokens _ := members.reads rfl
    have hbegin : Reads ⟨.scan u job, outer⟩ [⟨word.spelling, line⟩] _ :=
      reads_begin hc (Frame.ofToken?_blockWord word c _)
    have h := hbegin.trans
      ((reads_name (.block word (line - 1)) name).trans (reads_braced first last hmembers))
    rwa [BlockWord.kind_eq] at h
  | .method line name signature ending => by
    have hbegin : Reads ⟨.scan u job, outer⟩ [⟨"rpc", line⟩] _ := reads_begin hc (by rfl)
    exact hbegin.trans ((reads_name (.method (line - 1)) name).trans
      (reads_signature _ signature ending (.scan u job)))
  | .empty line => by
    rw [Item.nodes, Job.receive_nil]
    exact reads_semicolon hc line
  | .setting word hw content last =>
    (reads_begin hc (Frame.ofToken?_setting hw c _)).trans (reads_skip content last _)
  | .extension word hw title content =>
    (reads_begin hc (Frame.ofToken?_extension hw c _)).trans (reads_skip_group title content _)
  | .statement word hw content last =>
    (reads_begin hc (Frame.ofToken?_ordinary hw none _)).trans (reads_skip content last _)
  | .value name hw hm tail ending => by
    have hbegin := (Frame.ofToken?_ordinary hw (some true) _).trans
      (congrArg some (Frame.ofField_value hm (name.line - 1)))
    exact (reads_begin hc hbegin).trans (reads_tail _ tail ending _)
  | .field type hw hf name tail ending => by
    have ho : type.value ≠ "oneof" := fun h ↦ hf (by simp [h, fieldWords])
    have hbegin := (Frame.ofToken?_ordinary hw (some false) _).trans
      (congrArg some (Frame.ofField_field hf (type.line - 1)))
    have hname : Reads ⟨.name (.field (type.line - 1) type.value { typeName := type.value }),
        .scan u job :: outer⟩ (name :: tail.tokens ++ ending.tokens) _ :=
      reads_named_field (by simp [FieldShape.opensBody, ho]) _ _ name tail ending (.scan u job)
    rw [FieldShape.kind_unlabelled ho] at hname
    exact (reads_begin hc hbegin).trans hname
  | .labelled label line type ht name tail ending => by
    have hbegin : Reads ⟨.scan u job, outer⟩ [⟨label.spelling, line⟩, type] _ :=
      (reads_begin hc (Frame.ofToken?_label label _)).trans (.go (.typed (line - 1) label))
    have h := hbegin.trans (reads_named_field (by simp [FieldShape.opensBody, ht]) (line - 1)
      (label.spelling ++ " " ++ type.value) name tail ending (.scan u job))
    rwa [FieldShape.kind_labelled ht] at h
  | .oneof line name first members last => by
    have hbegin : Reads ⟨.scan u job, outer⟩ [⟨"oneof", line⟩] _ := reads_begin hc (by rfl)
    have hmembers : Reads ⟨.scan [.curly] (.body ⟨name.value, "oneof", .enum, line - 1,
        name.line - 1⟩ false []), .scan u job :: outer⟩ members.tokens _ := members.reads rfl
    exact hbegin.trans ((reads_name (.field (line - 1) "oneof" { typeName := "oneof" }) name).trans
      (reads_braced first last hmembers))
  | .labelledOneof label line typeLine name first members last => by
    have hbegin : Reads ⟨.scan u job, outer⟩ [⟨label.spelling, line⟩, ⟨"oneof", typeLine⟩] _ :=
      (reads_begin hc (Frame.ofToken?_label label _)).trans (.go (.typed (line - 1) label))
    have hmembers : Reads ⟨.scan [.curly] (.body ⟨name.value, label.spelling ++ " " ++ "oneof",
        .enum, line - 1, name.line - 1⟩ false []), .scan u job :: outer⟩ members.tokens _ :=
      members.reads rfl
    exact hbegin.trans ((reads_name (.typed (line - 1) label "oneof") name).trans
      (reads_braced first last hmembers))
  | .map line lead types name tail ending => by
    have hbegin : Reads ⟨.scan u job, outer⟩ [⟨"map", line⟩] _ := reads_begin hc (by rfl)
    have htypes := hbegin.trans (reads_mapType (line - 1) lead types)
    exact htypes.trans (reads_named_field rfl (line - 1) _ name tail ending (.scan u job))

theorem Syntax.Items.reads {c : Option Bool} {job : Job} {u : List Bracket} {outer : List Frame}
    (hc : job.context = some c) :
    (is : Items c) → Reads ⟨.scan u job, outer⟩ is.tokens ⟨.scan u (job.receive is.nodes), outer⟩
  | .nil => by
    rw [Items.nodes, Job.receive_nil]
    exact .nil _
  | .cons item items => by
    rw [Items.nodes, Job.receive_append]
    exact (item.reads hc).trans (items.reads (by rwa [Job.context_receive]))

end

end Items

/-- Reading undoes printing: the tokens of a well-formed schema have exactly the outline of that
schema, whether or not missing tokens count as faults, and none is missing. -/
theorem outlineTokens_document (d : Syntax.Document) (strict : Bool) :
    (outlineTokens d.tokens).result strict = .ok d.nodes ∧
      (outlineTokens d.tokens).truncations = [] := by
  have h : Reads ⟨.scan [] (.document []), []⟩ d.tokens
      ⟨.scan [] ((Job.document []).receive d.nodes), []⟩ := Syntax.Items.reads rfl d
  have hrun := Reading.run_append h 1 []
  rw [List.append_nil] at hrun
  have houtline : outlineTokens d.tokens =
      ⟨.ok d.nodes, [], ⟨[], lineAfter 1 d.tokens⟩⟩ := by
    rw [show outlineTokens d.tokens = _ from hrun]
    simp [Reading.run, cutShort, Frame.cutShort, Job.receive, Job.truncations, Job.ends, Job.close]
  rw [houtline]
  cases strict <;> exact ⟨rfl, rfl⟩

end SchemaOutline
