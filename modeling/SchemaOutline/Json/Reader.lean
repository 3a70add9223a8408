import SchemaOutline.Json.Basic
import SchemaOutline.Text.Basic

namespace SchemaOutline.Json

inductive Problem where
  | value
  | property
  | colon
  | comma
  | extra
  | unterminated
  | control
  | escape
  | unicode
  | byteOrderMark
  | digits (most count : Nat)
  deriving DecidableEq

def Problem.message : Problem → String
  | value => "Expecting value"
  | property => "Expecting property name enclosed in double quotes"
  | colon => "Expecting ':' delimiter"
  | comma => "Expecting ',' delimiter"
  | extra => "Extra data"
  | unterminated => "Unterminated string starting at"
  | control => "Invalid control character at"
  | escape => "Invalid \\escape"
  | unicode => "Invalid \\uXXXX escape"
  | byteOrderMark => "Unexpected UTF-8 BOM (decode using utf-8-sig)"
  | digits most count =>
    s!"Exceeds the limit ({most} digits) for integer string conversion: " ++
      s!"value has {count} digits; use sys.set_int_max_str_digits() to increase the limit"

structure Stop where
  problem : Problem
  rest : List Char

def isGap (c : Char) : Bool := c = ' ' || c = '\t' || c = '\n' || c = '\r'

def skipGap (cs : List Char) : List Char := cs.dropWhile isGap

def hexValue4? (a b c d : Char) : Option Nat := do
  let a ← Text.hexValue? a
  let b ← Text.hexValue? b
  let c ← Text.hexValue? c
  let d ← Text.hexValue? d
  return ((a * 16 + b) * 16 + c) * 16 + d

def escaped? (c : Char) : Option Char :=
  if c = '"' || c = '\\' || c = '/' then some c
  else if c = 'b' then some '\x08'
  else if c = 'f' then some '\x0c'
  else if c = 'n' then some '\n'
  else if c = 'r' then some '\r'
  else if c = 't' then some '\t'
  else none

def isHigh (n : Nat) : Bool := 0xd800 ≤ n && n < 0xdc00

def isLow (n : Nat) : Bool := 0xdc00 ≤ n && n < 0xe000

/-- The character of a code unit. A unit of a pair that stands alone is no character. -/
def unitChar (n : Nat) : Char := if isHigh n || isLow n then '\ufffd' else Char.ofNat n

def pairChar (high low : Nat) : Char :=
  Char.ofNat (0x10000 + (high - 0xd800) * 0x400 + (low - 0xdc00))

/-- The rest of a string after its opening quote, where the text `whole` starts. The characters
read are kept latest first. -/
def chars (whole : List Char) (read : List Char) : List Char → Except Stop (String × List Char)
  | [] => .error ⟨.unterminated, whole⟩
  | '"' :: rest => .ok (String.ofList read.reverse, rest)
  | '\\' :: 'u' :: a :: b :: c :: d :: rest =>
    match hexValue4? a b c d, rest with
    | none, _ | some _, [] => .error ⟨.unicode, 'u' :: a :: b :: c :: d :: rest⟩
    | some n, '\\' :: 'u' :: a' :: b' :: c' :: d' :: e' :: rest' =>
      if isHigh n then
        match hexValue4? a' b' c' d' with
        | none => .error ⟨.unicode, 'u' :: a' :: b' :: c' :: d' :: e' :: rest'⟩
        | some m =>
          if isLow m then chars whole (pairChar n m :: read) (e' :: rest')
          else chars whole (unitChar n :: read)
            ('\\' :: 'u' :: a' :: b' :: c' :: d' :: e' :: rest')
      else chars whole (unitChar n :: read) ('\\' :: 'u' :: a' :: b' :: c' :: d' :: e' :: rest')
    | some n, x :: rest' => chars whole (unitChar n :: read) (x :: rest')
  | '\\' :: 'u' :: rest => .error ⟨.unicode, 'u' :: rest⟩
  | '\\' :: c :: rest =>
    match escaped? c with
    | some x => chars whole (x :: read) rest
    | none => .error ⟨.escape, '\\' :: c :: rest⟩
  | '\\' :: [] => .error ⟨.unterminated, whole⟩
  | c :: rest =>
    if c.toNat < 0x20 then .error ⟨.control, c :: rest⟩ else chars whole (c :: read) rest

/-- The digits of the whole part. A leading zero stands alone. -/
def wholePart : List Char → List Char × List Char
  | '0' :: rest => (['0'], rest)
  | cs => cs.span Text.isDigit

def fraction : List Char → List Char × List Char
  | '.' :: rest =>
    if (rest.takeWhile Text.isDigit).isEmpty then ([], '.' :: rest) else rest.span Text.isDigit
  | cs => ([], cs)

def power? : List Char → Option (Int × List Char)
  | e :: rest =>
    let (negative, digits) := match rest with
      | '-' :: r => (true, r)
      | '+' :: r => (false, r)
      | r => (false, r)
    let (ds, after) := digits.span Text.isDigit
    if (e = 'e' || e = 'E') && !ds.isEmpty then
      some (if negative then -(Text.decimalValue ds : Int) else Text.decimalValue ds, after)
    else none
  | [] => none

section Limit

-- How many digits an integer may have.
variable (most : Nat)

def unsigned (start : List Char) (negative : Bool) (cs : List Char) :
    Except Stop (Json × List Char) :=
  let (whole, rest) := wholePart cs
  let (decimals, rest) := fraction rest
  if whole.isEmpty then .error ⟨.value, start⟩
  else
    let digits := Text.decimalValue (whole ++ decimals)
    match power? rest with
    | some (e, rest) =>
      .ok (.real (.ofDecimal negative digits (e - decimals.length)), rest)
    | none =>
      if !decimals.isEmpty then .ok (.real (.ofDecimal negative digits (-decimals.length)), rest)
      else if most < whole.length then .error ⟨.digits most whole.length, rest⟩
      else .ok (.int (if negative then -digits else digits), rest)

def number : List Char → Except Stop (Json × List Char)
  | '-' :: rest => unsigned most ('-' :: rest) true rest
  | cs => unsigned most cs false cs

def atom : List Char → Except Stop (Json × List Char)
  | 'n' :: 'u' :: 'l' :: 'l' :: rest => .ok (.null, rest)
  | 't' :: 'r' :: 'u' :: 'e' :: rest => .ok (.bool true, rest)
  | 'f' :: 'a' :: 'l' :: 's' :: 'e' :: rest => .ok (.bool false, rest)
  | 'N' :: 'a' :: 'N' :: rest => .ok (.real .nan, rest)
  | 'I' :: 'n' :: 'f' :: 'i' :: 'n' :: 'i' :: 't' :: 'y' :: rest =>
    .ok (.real (.infinite false), rest)
  | '-' :: 'I' :: 'n' :: 'f' :: 'i' :: 'n' :: 'i' :: 't' :: 'y' :: rest =>
    .ok (.real (.infinite true), rest)
  | cs => number most cs

mutual

/-- One value. A bracket takes two calls and all else one for each character or more, so a depth
above twice the length of the text is never used up. -/
def value : Nat → List Char → Except Stop (Json × List Char)
  | 0, cs => .error ⟨.value, cs⟩
  | depth + 1, cs =>
    match cs with
    | '"' :: rest => do
      let (s, rest) ← chars cs [] rest
      return (.text s, rest)
    | '{' :: rest =>
      match skipGap rest with
      | '}' :: rest => .ok (.object [], rest)
      | rest => members depth [] rest
    | '[' :: rest =>
      match skipGap rest with
      | ']' :: rest => .ok (.list [], rest)
      | rest => elements depth [] rest
    | _ => atom most cs

/-- The fields of an object from a key on. Of two with the same key the later counts. -/
def members : Nat → Fields → List Char → Except Stop (Json × List Char)
  | 0, _, cs => .error ⟨.property, cs⟩
  | depth + 1, fields, cs =>
    match cs with
    | '"' :: rest => do
      let (key, rest) ← chars cs [] rest
      match skipGap rest with
      | ':' :: rest =>
        let (v, rest) ← value depth (skipGap rest)
        let fields := Fields.put key v fields
        match skipGap rest with
        | '}' :: rest => return (.object fields, rest)
        | ',' :: rest => members depth fields (skipGap rest)
        | rest => .error ⟨.comma, rest⟩
      | rest => .error ⟨.colon, rest⟩
    | _ => .error ⟨.property, cs⟩

def elements : Nat → List Json → List Char → Except Stop (Json × List Char)
  | 0, _, cs => .error ⟨.value, cs⟩
  | depth + 1, read, cs => do
    let (v, rest) ← value depth cs
    match skipGap rest with
    | ']' :: rest => return (.list (v :: read).reverse, rest)
    | ',' :: rest => elements depth (v :: read) (skipGap rest)
    | rest => .error ⟨.comma, rest⟩

end

def readWhole (cs : List Char) : Except Stop Json :=
  if cs.head? = some '\ufeff' then .error ⟨.byteOrderMark, cs⟩
  else do
    let (v, rest) ← value most (2 * cs.length + 1) (skipGap cs)
    match skipGap rest with
    | [] => return v
    | rest => .error ⟨.extra, rest⟩

end Limit

structure Fault where
  problem : Problem
  offset : Nat
  line : Nat
  column : Nat
  deriving DecidableEq

/-- Whether the text may well be JSON, but is more than can be read. -/
def Fault.isFatal (f : Fault) : Bool := f.problem matches .digits ..

def Fault.message (f : Fault) : String :=
  if f.isFatal then f.problem.message
  else s!"{f.problem.message}: line {f.line} column {f.column} (char {f.offset})"

def Stop.locate (text : List Char) (s : Stop) : Fault :=
  let before := text.take (text.length - s.rest.length)
  { problem := s.problem
    offset := before.length
    line := before.count '\n' + 1
    column := (before.reverse.takeWhile (· ≠ '\n')).length + 1 }

def parseWithin (most : Nat) (text : String) : Except Fault Json :=
  (readWhole most text.toList).mapError (Stop.locate text.toList)

def parse (text : String) : Except Fault Json := parseWithin 4300 text

end SchemaOutline.Json
