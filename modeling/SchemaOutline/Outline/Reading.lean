import SchemaOutline.Log
import SchemaOutline.Outline.Frame
import SchemaOutline.Text.Quoted
import SchemaOutline.Token.Lexer

namespace SchemaOutline

structure Stack where
  inner : Frame
  outer : List Frame := []

namespace Stack

inductive Step where
  | more (s : Stack)
  | done (nodes : List Node)

def apply (outer : List Frame) : Frame.Move → Step
  | .go f => .more ⟨f, outer⟩
  | .push f inner => .more ⟨inner, f :: outer⟩
  | .pop nodes =>
    match outer with
    | [] => .done nodes
    | f :: fs => .more ⟨f.receive nodes, fs⟩

def read (s : Stack) (t : Token) : Except Mismatch Step :=
  (s.inner.read t).map (apply s.outer)

/-- What is missing in all frames, the innermost first, and the nodes of the outermost. -/
def cutShort (line : Int) (inner : Frame) : List Frame → List Truncation × List Node
  | [] => inner.cutShort line
  | f :: fs =>
    let (ts, nodes) := inner.cutShort line
    let (us, all) := cutShort line (f.receive nodes) fs
    (ts ++ us, all)

end Stack

structure Reading where
  nodes : Except Mismatch (List Node)
  truncations : List Truncation
  cursor : Cursor

namespace Reading

def run (s : Stack) (line : Int) : List Token → Reading
  | [] =>
    let (ts, nodes) := Stack.cutShort line s.inner s.outer
    ⟨.ok nodes, ts, ⟨[], line⟩⟩
  | t :: rest =>
    match s.read t with
    | .error m => ⟨.error m, [], ⟨rest, t.line⟩⟩
    | .ok (.done nodes) => ⟨.ok nodes, [], ⟨rest, t.line⟩⟩
    | .ok (.more s) => run s t.line rest

def start (f : Frame) (c : Cursor) : Reading := run ⟨f, []⟩ c.line c.rest

/-- Strict reading takes what was missing for a fault, lenient reading does not. -/
def result (r : Reading) (strict : Bool) : Except Fault (List Node) :=
  match r.nodes, strict, r.truncations with
  | .error m, _, _ => .error (.mismatch m)
  | .ok _, true, t :: _ => .error (.truncated t)
  | .ok nodes, _, _ => .ok nodes

end Reading

namespace Cursor

def here (c : Cursor) : Int := c.line - 1

def document (c : Cursor) : Reading := .start (.scan [] (.document [])) c

def block (c : Cursor) (word : BlockWord) : Reading := .start (.name (.block word c.here)) c

def method (c : Cursor) : Reading := .start (.name (.method c.here)) c

def field (c : Cursor) (inEnum : Bool) (v : String) : Reading := .start (.ofField inEnum v c.here) c

def declaration (c : Cursor) (context : Option Bool) (v : String) : Reading :=
  match Frame.ofToken? context v c.here with
  | some f => .start f c
  | none => ⟨.ok [], [], c⟩

inductive BlockFault where
  | fault (f : Fault)
  | unknownWord (word : String)

/-- Reads a block introduced by any word. The name is read before the word is looked up. -/
def blockOf (c : Cursor) (strict : Bool) (word : String) :
    Except BlockFault (List Node) × Cursor :=
  match BlockWord.ofWord? word with
  | some w =>
    let r := c.block w
    ((r.result strict).mapError .fault, r.cursor)
  | none =>
    match c.next? with
    | some (_, after) => (.error (.unknownWord word), after)
    | none =>
      if strict then (.error (.fault (.truncated (.unnamed c.line))), c)
      else (.error (.unknownWord word), c)

def skip (c : Cursor) (ends : List String) : Reading := .start (.scan [] (.skip ends)) c

/-- The tokens that reading on from `c` accepted: all it consumed, but for a bracket that did not
match. -/
def accepted (c : Cursor) (r : Reading) : List String :=
  let consumed := c.values.take (c.rest.length - r.cursor.rest.length)
  match r.nodes with
  | .ok _ => consumed
  | .error _ => consumed.dropLast

end Cursor

def outlineTokens (tokens : List Token) : Reading := ({ rest := tokens } : Cursor).document

def outline (strict : Bool) (text : String) : Except Fault (List Node) :=
  (outlineTokens (tokenize text)).result strict

namespace Reading

def source : String := "protoutline.outline.parser"

def truncationRecord (t : Truncation) : Log.Record :=
  ⟨Log.Level.debug.number, source,
    s!"Token stream ended at line {t.line} (expected {Quoted.tuple t.expected}, " ++
      s!"unclosed {Quoted.list t.unclosed})"⟩

def successRecord (nodes : List Node) : Log.Record :=
  ⟨Log.Level.debug.number, source, s!"Parsed {nodes.length} top-level declarations"⟩

def records (r : Reading) (strict : Bool) : List Log.Record :=
  (if strict then [] else r.truncations.map truncationRecord) ++
    match r.result strict with
    | .ok nodes => [successRecord nodes]
    | .error _ => []

end Reading

end SchemaOutline
