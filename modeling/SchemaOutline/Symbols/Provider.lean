import SchemaOutline.Config.Check
import SchemaOutline.File.Disk
import SchemaOutline.Outline.Reading

namespace SchemaOutline

structure Document where
  uri : String
  version : Int
  text : String
  dirty : Bool := false
  deriving DecidableEq

def isPlainByte (b : UInt8) : Bool :=
  let c := Char.ofNat b.toNat
  b < 0x80 && (c.isAlphanum || c = '_' || c = '.' || c = '-' || c = '~' || c = '/')

private def upperHex (n : Nat) : String :=
  String.ofList [(Nat.digitChar (n / 16)).toUpper, (Nat.digitChar (n % 16)).toUpper]

def percentEncode (s : String) : String :=
  String.join (s.toUTF8.toList.map fun b ↦
    if isPlainByte b then (Char.ofNat b.toNat).toString else "%" ++ upperHex b.toNat)

namespace Document

def uriOf (base : String) (p : Path) : String :=
  "file://" ++ (if p.root = .relative then base ++ "/" else p.root.spelling) ++
    percentEncode ("/".intercalate p.parts)

/-- The saved document at a path. Steps up are taken back before the disk is asked. -/
def ofPath (disk : Disk) (base : String) (p : Path) (version : Int) :
    Except ReadFault Document := do
  let text ← disk.readText p.resolve
  return { uri := uriOf base p.resolve, version, text }

end Document

structure Cached where
  uri : String
  version : Int
  nodes : List Node

/-- Gives outlines to an editor and keeps the latest of each document, the one stored longest ago
first. -/
structure Provider where
  config : Config := {}
  cache : List Cached := []

namespace Provider

def cached? (p : Provider) (uri : String) : Option Cached := p.cache.find? (·.uri = uri)

def source : String := "protoutline.ide.provider"

/-- The record on a document that cannot be read. With unsaved edits a fault is expected. -/
def faultRecord (p : Provider) (d : Document) (f : Fault) : Log.Record :=
  if d.dirty && !p.config.logging.logTransientErrors then
    ⟨Log.Level.debug.number, source,
      s!"Ignoring parse error in unsaved {d.uri} (version {d.version}): {f.message}"⟩
  else
    ⟨Log.Level.warning.number, source,
      s!"Error parsing document symbols for {d.uri}: {f.message}"⟩

def evictionRecord (c : Cached) : Log.Record :=
  ⟨Log.Level.debug.number, source, "Evicted cached outline for " ++ c.uri⟩

def stored (p : Provider) (c : Cached) : List Cached :=
  p.cache.filter (·.uri ≠ c.uri) ++ [c]

def excess (p : Provider) (cache : List Cached) : Nat :=
  cache.length - p.config.cache.maxDocuments

def store (p : Provider) (c : Cached) : Provider × List Log.Record :=
  let cache := p.stored c
  ({ p with cache := cache.drop (p.excess cache) },
    (cache.take (p.excess cache)).map evictionRecord)

structure Answer where
  nodes : List Node
  provider : Provider
  records : List Log.Record

def refresh (p : Provider) (d : Document) : Answer :=
  let strict := p.config.parser.strictEndOfInput
  let r := outlineTokens (tokenize d.text)
  match r.result strict with
  | .error f =>
    ⟨((p.cached? d.uri).map Cached.nodes).getD [], p,
      r.records strict ++ [p.faultRecord d f]⟩
  | .ok nodes =>
    if p.config.cache.enabled then
      let (p, records) := p.store ⟨d.uri, d.version, nodes⟩
      ⟨nodes, p, r.records strict ++ records⟩
    else ⟨nodes, p, r.records strict⟩

/-- The outline of a document: the one kept for this version, or a new one, or, if the document
cannot be read, the last one kept. -/
def provide (p : Provider) (d : Document) : Answer :=
  match p.cached? d.uri with
  | some c =>
    if p.config.cache.enabled && c.version = d.version then ⟨c.nodes, p, []⟩ else p.refresh d
  | none => p.refresh d

def forget (p : Provider) (uri : String) : Provider :=
  { p with cache := p.cache.filter (·.uri ≠ uri) }

def clear (p : Provider) : Provider := { p with cache := [] }

end Provider

end SchemaOutline
