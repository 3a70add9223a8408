import SchemaOutline.Outline.Node
import SchemaOutline.Text.Columns

namespace SchemaOutline

structure Theme where
  kinds : List (SymbolKind × String) :=
    [(.service, "bold magenta"), (.method, "bold cyan"), (.struct, "bold green"),
     (.enum, "bold yellow"), (.enumMember, "yellow"), (.field, ""), (.boolean, ""),
     (.array, ""), (.object, "")]
  title : String := "bold"
  detail : String := "dim"
  lineNumber : String := "dim"

def Theme.kindStyle (t : Theme) (k : SymbolKind) : String :=
  ((t.kinds.find? (·.1 = k)).map Prod.snd).getD ""

structure Span where
  start : Nat
  stop : Nat
  style : String
  deriving DecidableEq

structure Label where
  plain : String := ""
  spans : List Span := []
  deriving DecidableEq

/-- How a console lays out a tree. -/
structure Layout where
  branch (last : Bool) : String := if last then "└── " else "├── "
  below (last : Bool) : String := if last then "    " else "│   "
  /-- Characters that would move the cursor are never printed. -/
  removes (c : Char) : Bool := c = '\x07' || c = '\x08' || c = '\x0b' || c = '\x0c' || c = '\r'
  columns : List Char → Nat := Text.columns

namespace Label

def printable (s : String) (layout : Layout := {}) : String :=
  String.ofList (s.toList.filter (!layout.removes ·))

/-- Appends a text in a style. An empty style, like an empty text, leaves no span. -/
def append (l : Label) (s style : String) (layout : Layout := {}) : Label where
  plain := l.plain ++ printable s layout
  spans := if s = "" || style = "" then l.spans
    else l.spans ++ [⟨l.plain.length, l.plain.length + (printable s layout).length, style⟩]

def lineText (r : LineRange) : String :=
  let (first, last) := r.fromOne
  if first = last then s!"L{first}" else s!"L{first}-{last}"

def padLeft (width : Nat) (s : String) : String :=
  String.ofList (List.replicate (width - s.length) ' ') ++ s

/-- The label of a node: its lines, its kind, its name, and its detail if it adds something. -/
def ofNode (theme : Theme) (n : Node) (layout : Layout := {}) : Label :=
  let l := ({} : Label)
    |>.append (padLeft 9 (lineText n.range) ++ " ") theme.lineNumber layout
    |>.append (n.kind.label.toLower ++ " ") theme.detail layout
    |>.append n.name (theme.kindStyle n.kind) layout
  if n.detail ≠ "" && n.detail ≠ n.name then l.append ("  " ++ n.detail) theme.detail layout else l

end Label

end SchemaOutline

namespace SchemaOutline.Display

def textRows (layout : Layout) (first rest : String) (s : String) : List String :=
  match Text.split '\n' s.toList with
  | [] => [first]
  | l :: ls =>
    (first ++ Text.expandTabs layout.columns l) ::
      ls.map fun l ↦ rest ++ Text.expandTabs layout.columns l

mutual

def nodeRows (layout : Layout) (theme : Theme) (guide : String) (last : Bool) : Node → List String
  | n@⟨_, _, _, _, _, children⟩ =>
    textRows layout (guide ++ layout.branch last) (guide ++ layout.below last)
        (Label.ofNode theme n layout).plain ++
      rows layout theme (guide ++ layout.below last) children

def rows (layout : Layout) (theme : Theme) (guide : String) : List Node → List String
  | [] => []
  | n :: ns => nodeRows layout theme guide ns.isEmpty n ++ rows layout theme guide ns

end

def tree (theme : Theme) (title : String) (nodes : List Node) (layout : Layout := {}) :
    List String :=
  textRows layout "" "" (Label.printable title layout) ++ rows layout theme "" nodes

def treeText (theme : Theme) (title : String) (nodes : List Node) (layout : Layout := {}) :
    String :=
  String.join ((tree theme title nodes layout).map (· ++ "\n"))

end SchemaOutline.Display
