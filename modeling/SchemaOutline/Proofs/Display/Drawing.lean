import SchemaOutline.Display.Tree
import SchemaOutline.Proofs.Outline.Legibility
import SchemaOutline.Proofs.Outline.Prefixes
import SchemaOutline.Proofs.Text.Tabs

namespace SchemaOutline

open Text (OneLine)

namespace Layout

/-- What is taken for granted of a console: the guides that it draws, and that a blank behind
another one takes a column. -/
structure Regular (layout : Layout) : Prop where
  branch_inner : layout.branch false = "├── "
  branch_last : layout.branch true = "└── "
  below_inner : layout.below false = "│   "
  below_last : layout.below true = "    "
  blanks : Text.BlanksCount layout.columns

theorem regular_default : ({} : Layout).Regular := ⟨rfl, rfl, rfl, rfl, Text.blanksCount_columns⟩

/-- A text as it is printed: without the characters that are removed, and with blanks for tabs. -/
def Prints (layout : Layout) (s printed : String) : Prop :=
  Text.Expands layout.columns 0 (s.toList.filter (!layout.removes ·)) printed.toList

theorem prints_iff {layout : Layout} (h : layout.Regular) (s printed : String) :
    layout.Prints s printed ↔
      printed = Text.expandTabs layout.columns (Label.printable s layout).toList := by
  have hprints : layout.Prints s
      (Text.expandTabs layout.columns (Label.printable s layout).toList) := by
    rw [Prints, Text.expandTabs, Label.printable, String.toList_ofList, String.toList_ofList]
    exact Text.expands_expandFrom h.blanks 0 _
  constructor
  · intro hprinted
    exact String.toList_inj.1 (Text.Expands.unique hprinted hprints)
  · rintro rfl
    exact hprints

end Layout

namespace Label

variable {layout : Layout}

theorem oneLine_printable {s : String} (h : OneLine s) : OneLine (printable s layout) := by
  intro hmem
  rw [printable, String.toList_ofList] at hmem
  exact h (List.mem_filter.1 hmem).1

theorem printable_append (s t : String) :
    printable (s ++ t) layout = printable s layout ++ printable t layout := by
  simp [printable, String.ofList_append]

theorem plain_append (l : Label) (s style : String) :
    (l.append s style layout).plain = l.plain ++ printable s layout := rfl

def caption (n : Node) : String :=
  padLeft 9 (lineText n.range) ++ " " ++ n.kind.label.toLower ++ " " ++ n.name ++
    if n.detail ≠ "" ∧ n.detail ≠ n.name then "  " ++ n.detail else ""

theorem plain_ofNode (theme : Theme) (n : Node) :
    (ofNode theme n layout).plain = printable (caption n) layout := by
  have hempty : printable "" layout = "" := rfl
  unfold ofNode caption
  split_ifs <;> simp_all [plain_append, printable_append, String.append_assoc]

theorem oneLine_lineText (r : LineRange) : OneLine (lineText r) := by
  have hl : OneLine "L" := by decide
  have hdash : OneLine "-" := by decide
  have hfirst := hl.append (Text.oneLine_toString (r.first + 1))
  unfold lineText LineRange.fromOne
  dsimp only
  split_ifs
  · exact hfirst
  · exact (hfirst.append hdash).append (Text.oneLine_toString (r.last + 1))

theorem oneLine_padLeft {s : String} (width : Nat) (h : OneLine s) : OneLine (padLeft width s) := by
  have hblanks : OneLine (String.ofList (List.replicate (width - s.length) ' ')) := by
    simp [OneLine]
  exact hblanks.append h

theorem oneLine_caption {n : Node} (h : n.Legible) : OneLine (caption n) := by
  obtain ⟨hname, hdetail, -⟩ := h
  have hblank : OneLine " " := by decide
  have hkind : OneLine n.kind.label.toLower := by
    cases n.kind <;> decide +kernel
  have hshort := ((((oneLine_padLeft 9 (oneLine_lineText n.range)).append hblank).append
    hkind).append hblank).append hname
  have hindent : OneLine "  " := by decide
  unfold caption
  split_ifs
  · exact hshort.append (hindent.append hdetail)
  · exact hshort.append (by decide)

end Label

namespace Node

@[elab_as_elim]
theorem forest_induction {motive : List Node → Prop} (nil : motive [])
    (cons : ∀ n ns, motive n.children → motive ns → motive (n :: ns)) : ∀ ns, motive ns
  | [] => nil
  | ⟨_, _, _, _, _, children⟩ :: ns =>
    cons _ ns (forest_induction nil cons children) (forest_induction nil cons ns)

end Node

inductive Shape where
  | node (children : List Shape)

namespace Shape

/-- The trees below one another, each with its depth, when a node is put before them: those that
are deeper than it, up to the first that is not, become its children. -/
def attach (depth : Nat) (trees : List (Nat × Shape)) : List (Nat × Shape) :=
  (depth, node ((trees.takeWhile (depth < ·.1)).map Prod.snd)) :: trees.dropWhile (depth < ·.1)

def ofDepths (depths : List Nat) : List Shape := (depths.foldr attach []).map Prod.snd

/-- The trees drawn with these guides: a guide takes four characters for each level. -/
def ofGuides (guides : List String) : List Shape := ofDepths (guides.map (·.length / 4))

theorem attach_append {depth : Nat} {trees others : List (Nat × Shape)}
    (ht : ∀ t ∈ trees, depth < t.1) (ho : ∀ t ∈ others.head?, t.1 ≤ depth) :
    attach depth (trees ++ others) = (depth, node (trees.map Prod.snd)) :: others := by
  have hdeeper : ∀ t ∈ trees, decide (depth < t.1) = true := by simpa using ht
  have hstop : others.takeWhile (depth < ·.1) = [] ∧ others.dropWhile (depth < ·.1) = others := by
    cases others with
    | nil => simp
    | cons t others =>
      have hfirst : t.1 ≤ depth := ho t rfl
      simp [hfirst]
  rw [attach, List.takeWhile_append_of_pos hdeeper, List.dropWhile_append_of_pos hdeeper, hstop.1,
    hstop.2, List.append_nil]

end Shape

namespace Node

mutual

def shape : Node → Shape
  | ⟨_, _, _, _, _, children⟩ => .node (shapes children)

def shapes : List Node → List Shape
  | [] => []
  | n :: ns => shape n :: shapes ns

end

theorem shapes_cons (n : Node) (ns : List Node) :
    shapes (n :: ns) = .node (shapes n.children) :: shapes ns := by
  cases n
  simp [shapes, shape]

/-- The depths of a walk, read from its end, give the trees at the depth of the walk, before those
that were read already. -/
theorem foldr_attach_walkAllFrom (ns : List Node) (depth : Nat) (others : List (Nat × Shape))
    (ho : ∀ t ∈ others.head?, t.1 ≤ depth) :
    ((walkAllFrom depth ns).map Prod.fst).foldr Shape.attach others =
      (shapes ns).map (depth, ·) ++ others := by
  induction ns using forest_induction generalizing depth others with
  | nil => simp [walkAllFrom, shapes]
  | cons n ns ihc ihns =>
    -- What was read before `n` and its children starts no deeper than `n`: none of it is taken in.
    have hsiblings : ∀ t ∈ ((shapes ns).map (depth, ·) ++ others).head?, t.1 ≤ depth := by
      cases h : shapes ns with
      | nil => simpa using ho
      | cons s ss => simp
    have hbelow : ∀ t ∈ ((shapes ns).map (depth, ·) ++ others).head?, t.1 ≤ depth + 1 :=
      fun t ht ↦ Nat.le_succ_of_le (hsiblings t ht)
    have hdeeper : ∀ t ∈ (shapes n.children).map (depth + 1, ·), depth < t.1 := by simp
    rw [walkAllFrom_cons, shapes_cons, List.map_append, List.foldr_append, ihns depth others ho,
      List.map_cons, List.foldr_cons, ihc _ _ hbelow, Shape.attach_append hdeeper hsiblings]
    simp [Function.comp_def]

theorem ofDepths_walkAllFrom (depth : Nat) (ns : List Node) :
    Shape.ofDepths ((walkAllFrom depth ns).map Prod.fst) = shapes ns := by
  rw [Shape.ofDepths, foldr_attach_walkAllFrom ns depth [] (by simp)]
  simp [Function.comp_def]

end Node

namespace Display

inductive Margin : Nat → String → Prop
  | nil : Margin 0 ""
  | bar {depth : Nat} {margin : String} (h : Margin depth margin) :
      Margin (depth + 1) (margin ++ "│   ")
  | blank {depth : Nat} {margin : String} (h : Margin depth margin) :
      Margin (depth + 1) (margin ++ "    ")

inductive IsGuide : Nat → String → Prop
  | inner {depth : Nat} {margin : String} (h : Margin depth margin) :
      IsGuide (depth + 1) (margin ++ "├── ")
  | last {depth : Nat} {margin : String} (h : Margin depth margin) :
      IsGuide (depth + 1) (margin ++ "└── ")

section Guides

variable {layout : Layout} {depth : Nat} {margin guide : String}

theorem Margin.snoc (h : Margin depth margin) (hl : layout.Regular) (last : Bool) :
    Margin (depth + 1) (margin ++ layout.below last) := by
  cases last with
  | false => rw [hl.below_inner]; exact h.bar
  | true => rw [hl.below_last]; exact h.blank

theorem Margin.isGuide (h : Margin depth margin) (hl : layout.Regular) (last : Bool) :
    IsGuide (depth + 1) (margin ++ layout.branch last) := by
  cases last with
  | false => rw [hl.branch_inner]; exact .inner h
  | true => rw [hl.branch_last]; exact .last h

theorem Margin.length_eq (h : Margin depth margin) : margin.length = 4 * depth := by
  induction h with
  | nil => rfl
  | bar h ih | blank h ih =>
    rw [String.length_append, ih]
    rfl

theorem Margin.oneLine (h : Margin depth margin) : OneLine margin := by
  induction h with
  | nil => decide
  | bar h ih | blank h ih => exact ih.append (by decide)

theorem IsGuide.length_eq (h : IsGuide depth guide) : guide.length = 4 * depth := by
  cases h with
  | inner h | last h =>
    rw [String.length_append, h.length_eq]
    rfl

theorem IsGuide.ends (h : IsGuide depth guide) :
    ∃ margin, guide = margin ++ "├── " ∨ guide = margin ++ "└── " := by
  cases h with
  | inner h => exact ⟨_, .inl rfl⟩
  | last h => exact ⟨_, .inr rfl⟩

theorem IsGuide.oneLine (h : IsGuide depth guide) : OneLine guide := by
  cases h with
  | inner h | last h => exact h.oneLine.append (by decide)

end Guides

structure Row where
  depth : Nat
  guide : String
  node : Node

def Row.text (layout : Layout) (r : Row) : String :=
  r.guide ++ Text.expandTabs layout.columns (Label.printable (Label.caption r.node) layout).toList

section Drawing

variable (layout : Layout)

mutual

def nodeDrawn (depth : Nat) (margin : String) (last : Bool) : Node → List Row
  | n@⟨_, _, _, _, _, children⟩ =>
    ⟨depth, margin ++ layout.branch last, n⟩ ::
      drawn (depth + 1) (margin ++ layout.below last) children

def drawn (depth : Nat) (margin : String) : List Node → List Row
  | [] => []
  | n :: ns => nodeDrawn depth margin ns.isEmpty n ++ drawn depth margin ns

end

theorem drawn_cons (depth : Nat) (margin : String) (n : Node) (ns : List Node) :
    drawn layout depth margin (n :: ns) = ⟨depth, margin ++ layout.branch ns.isEmpty, n⟩ ::
      drawn layout (depth + 1) (margin ++ layout.below ns.isEmpty) n.children ++
      drawn layout depth margin ns := by
  cases n
  simp [drawn, nodeDrawn]

theorem rows_cons (theme : Theme) (margin : String) (n : Node) (ns : List Node) :
    rows layout theme margin (n :: ns) =
      textRows layout (margin ++ layout.branch ns.isEmpty) (margin ++ layout.below ns.isEmpty)
          (Label.ofNode theme n layout).plain ++
        rows layout theme (margin ++ layout.below ns.isEmpty) n.children ++
      rows layout theme margin ns := by
  cases n
  simp [rows, nodeRows]

theorem textRows_of_oneLine {s : String} (h : OneLine s) (first rest : String) :
    textRows layout first rest s = [first ++ Text.expandTabs layout.columns s.toList] := by
  rw [textRows, Text.split_of_notMem h]
  rfl

theorem rows_eq (theme : Theme) (ns : List Node) (depth : Nat) (margin : String)
    (h : ∀ n ∈ Node.walkAll ns, n.Legible) :
    rows layout theme margin ns = (drawn layout depth margin ns).map (Row.text layout) := by
  induction ns using Node.forest_induction generalizing depth margin with
  | nil => simp [rows, drawn]
  | cons n ns ihc ihns =>
    rw [Node.walkAll_cons, List.forall_mem_append, List.forall_mem_cons] at h
    obtain ⟨⟨hn, hc⟩, hns⟩ := h
    rw [rows_cons, drawn_cons, Label.plain_ofNode,
      textRows_of_oneLine layout (Label.oneLine_printable (Label.oneLine_caption hn)),
      ihc (depth + 1) _ hc, ihns depth margin hns]
    simp [Row.text]

theorem map_drawn (ns : List Node) (depth : Nat) (margin : String) :
    (drawn layout depth margin ns).map (fun r ↦ (r.depth, r.node)) =
      Node.walkAllFrom depth ns := by
  induction ns using Node.forest_induction generalizing depth margin with
  | nil => simp [drawn, Node.walkAllFrom]
  | cons n ns ihc ihns =>
    rw [drawn_cons, Node.walkAllFrom_cons, ← ihc (depth + 1) (margin ++ layout.below ns.isEmpty),
      ← ihns depth margin]
    simp

theorem length_drawn (depth : Nat) (margin : String) (ns : List Node) :
    (drawn layout depth margin ns).length = (Node.walkAll ns).length := by
  rw [← Node.map_snd_walkAllFrom depth, ← map_drawn layout ns depth margin]
  simp

end Drawing

section Tree

variable {layout : Layout} {title : String} {nodes : List Node}

theorem isGuide_of_mem_drawn (hl : layout.Regular) {ns : List Node} {depth : Nat}
    {margin : String} {r : Row} (h : Margin depth margin)
    (hr : r ∈ drawn layout (depth + 1) margin ns) : IsGuide r.depth r.guide := by
  induction ns using Node.forest_induction generalizing depth margin with
  | nil => simp [drawn] at hr
  | cons n ns ihc ihns =>
    rw [drawn_cons, List.cons_append, List.mem_cons, List.mem_append] at hr
    obtain rfl | hr | hr := hr
    · exact h.isGuide hl ns.isEmpty
    · exact ihc (h.snoc hl ns.isEmpty) hr
    · exact ihns h hr

theorem map_length_guide_drawn (hl : layout.Regular) (ns : List Node) :
    ((drawn layout 1 "" ns).map Row.guide).map (·.length / 4) =
      (Node.walkAllFrom 1 ns).map Prod.fst := by
  rw [← map_drawn layout ns 1 "", List.map_map, List.map_map]
  refine List.map_congr_left fun r hr ↦ ?_
  have hguide := (isGuide_of_mem_drawn hl .nil hr).length_eq
  simp only [Function.comp_apply, hguide]
  omega

theorem tree_eq (theme : Theme) (ht : OneLine title) (hn : ∀ n ∈ Node.walkAll nodes, n.Legible) :
    tree theme title nodes layout =
      Text.expandTabs layout.columns (Label.printable title layout).toList ::
        (drawn layout 1 "" nodes).map (Row.text layout) := by
  rw [tree, textRows_of_oneLine layout (Label.oneLine_printable ht),
    rows_eq layout theme nodes 1 "" hn, String.empty_append, List.singleton_append]

theorem oneLine_of_mem_tree (hl : layout.Regular) (theme : Theme) (ht : OneLine title)
    (hn : ∀ n ∈ Node.walkAll nodes, n.Legible) :
    ∀ row ∈ tree theme title nodes layout, OneLine row := by
  rw [tree_eq theme ht hn, List.forall_mem_cons, List.forall_mem_map]
  refine ⟨Text.oneLine_expandTabs _ (Label.oneLine_printable ht), fun r hr ↦ ?_⟩
  have hwalked : r.node ∈ Node.walkAll nodes := by
    rw [← Node.map_snd_walkAllFrom 1, ← map_drawn layout nodes 1 "", List.map_map]
    exact List.mem_map_of_mem hr
  have hlabel : OneLine (Label.printable (Label.caption r.node) layout) :=
    Label.oneLine_printable (Label.oneLine_caption (hn _ hwalked))
  exact (isGuide_of_mem_drawn hl .nil hr).oneLine.append (Text.oneLine_expandTabs _ hlabel)

/-- Lines that show nodes below a title: one for the title, and one for each node in the order of
the walk, with a guide for its depth. The guides alone tell the nesting. -/
structure Draws (layout : Layout) (title : String) (nodes : List Node)
    (lines guides : List String) : Prop where
  length_lines : lines.length = 1 + (Node.walkAll nodes).length
  length_guides : guides.length = (Node.walkAll nodes).length
  first : ∀ text, lines[0]? = some text ↔ layout.Prints title text
  line : ∀ k depth n, (Node.walkAllFrom 1 nodes)[k]? = some (depth, n) →
    ∃ guide, guides[k]? = some guide ∧ IsGuide depth guide ∧ guide.length = 4 * depth ∧
      (∃ margin, guide = margin ++ "├── " ∨ guide = margin ++ "└── ") ∧
      ∀ text, lines[k + 1]? = some (guide ++ text) ↔ layout.Prints (Label.caption n) text
  shape : Shape.ofGuides guides = Node.shapes nodes

theorem draws_tree (hl : layout.Regular) (theme : Theme) (ht : OneLine title)
    (hn : ∀ n ∈ Node.walkAll nodes, n.Legible) :
    Draws layout title nodes (tree theme title nodes layout)
      ((drawn layout 1 "" nodes).map Row.guide) := by
  rw [tree_eq theme ht hn]
  refine ⟨?_, ?_, ?_, ?_, ?_⟩
  · rw [List.length_cons, List.length_map, length_drawn, Nat.add_comm]
  · rw [List.length_map, length_drawn]
  · intro text
    rw [Layout.prints_iff hl, List.getElem?_cons_zero, Option.some_inj, eq_comm]
  · intro k depth n hk
    rw [← map_drawn layout nodes 1 "", List.getElem?_map, Option.map_eq_some_iff] at hk
    obtain ⟨r, hr, hentry⟩ := hk
    obtain ⟨rfl, rfl⟩ := Prod.mk.inj hentry
    have hguide := isGuide_of_mem_drawn hl .nil (List.mem_of_getElem? hr)
    refine ⟨r.guide, by simp [hr], hguide, hguide.length_eq, hguide.ends, fun text ↦ ?_⟩
    rw [Layout.prints_iff hl, List.getElem?_cons_succ, List.getElem?_map, hr, Option.map_some,
      Option.some_inj, Row.text, String.append_right_inj, eq_comm]
  · rw [Shape.ofGuides, map_length_guide_drawn hl, Node.ofDepths_walkAllFrom]

end Tree

/-- The printed tree shows every node of an outline once, in the order of the walk and indented by
its depth, and keeps the shape. It does so on every console with these guides, and labels say what
captions do. The console in use has these guides, removes five characters and gives a column to each
printable character of ASCII. -/
theorem treeText_of_outline :
    (({} : Layout).Regular ∧
      (∀ c, ({} : Layout).removes c = true ↔ c ∈ ['\x07', '\x08', '\x0b', '\x0c', '\r']) ∧
      ∀ cs, (∀ c ∈ cs, ' ' ≤ c ∧ c ≤ '~') → ({} : Layout).columns cs = cs.length) ∧
    (∀ (layout : Layout) (theme : Theme) (n : Node), (Label.ofNode theme n layout).plain.toList =
      (Label.caption n).toList.filter (!layout.removes ·)) ∧
    ∀ (layout : Layout) (theme : Theme) (strict : Bool) (text title : String) (nodes : List Node),
      layout.Regular → outline strict text = .ok nodes → OneLine title →
      ∃ lines guides, Text.split '\n' (treeText theme title nodes layout).toList =
          lines.map String.toList ++ [[]] ∧ Draws layout title nodes lines guides := by
  refine ⟨⟨Layout.regular_default, ?_, fun cs h ↦ Text.columns_ascii h⟩, ?_, ?_⟩
  · simp [or_assoc]
  · intro layout theme n
    rw [Label.plain_ofNode, Label.printable, String.toList_ofList]
  · intro layout theme strict text title nodes hl h ht
    have hn := legible_of_outline h
    exact ⟨_, _, Text.split_join_rows (oneLine_of_mem_tree hl theme ht hn),
      draws_tree hl theme ht hn⟩

/-- An enum in a message, and after them a service that is cut short, whose name has a tab in it.
The title has a character that is not printed. -/
theorem treeText_of_outline_nested :
    let nodes : List Node :=
      [⟨"A", "message", .struct, ⟨0, 0⟩, ⟨0, 0⟩,
        [⟨"B", "enum", .enum, ⟨0, 0⟩, ⟨0, 0⟩, [⟨"X", "", .enumMember, ⟨0, 0⟩, ⟨0, 0⟩, []⟩]⟩]⟩,
       ⟨"'S\tT'", "service", .service, ⟨0, 0⟩, ⟨0, 0⟩, []⟩]
    let lines :=
      ["a.proto", "├──        L1 struct A  message", "│   └──        L1 enum B  enum",
       "│       └──        L1 enum_member X", "└──        L1 class 'S      T'  service"]
    outline false "message A \x7b enum B \x7b X = 0; \x7d \x7d service 'S\tT'" = .ok nodes ∧
    treeText {} "a\r.proto" nodes = String.join (lines.map (· ++ "\n")) ∧
    ∃ guides, Draws {} "a\r.proto" nodes lines guides ∧
      Shape.ofGuides guides = [.node [.node [.node []]], .node []] := by
  intro nodes lines
  have h : outline false "message A \x7b enum B \x7b X = 0; \x7d \x7d service 'S\tT'" =
      .ok nodes := by
    rfl
  have ht : OneLine "a\r.proto" := by decide
  have htext : treeText {} "a\r.proto" nodes = String.join (lines.map (· ++ "\n")) := by
    decide +kernel
  obtain ⟨⟨hl, -, -⟩, -, hall⟩ := treeText_of_outline
  obtain ⟨rows, guides, hrows, hdraws⟩ := hall {} {} false _ _ nodes hl h ht
  have hlines : ∀ l ∈ lines, OneLine l := by decide
  obtain rfl : rows = lines := by
    rw [htext, Text.split_join_rows hlines] at hrows
    have hinj : Function.Injective String.toList := fun _ _ ↦ String.toList_inj.1
    exact (hinj.list_map (List.append_cancel_right hrows)).symm
  exact ⟨h, htext, guides, hdraws, hdraws.shape⟩

end Display

end SchemaOutline
