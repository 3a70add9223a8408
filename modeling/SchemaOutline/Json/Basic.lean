import SchemaOutline.Text.Quoted

namespace SchemaOutline

/-- The numbers of the 64-bit binary format. A finite one is `mantissa * 2 ^ exponent`, with its
sign. -/
inductive Binary64 where
  | finite (negative : Bool) (mantissa : Nat) (exponent : Int)
  | infinite (negative : Bool)
  | nan
  deriving DecidableEq

namespace Binary64

/-- The quotient rounded to the nearest integer, a half to the even one. -/
def roundDiv (n d : Nat) : Nat :=
  let q := n / d
  let r := n % d
  if 2 * r < d then q else if d < 2 * r then q + 1 else q + q % 2

def twoTo (e : Int) : Nat := Nat.pow 2 e.toNat

def tenTo (e : Int) : Nat := Nat.pow 10 e.toNat

/-- The exponent that gives the quotient of two positive numbers a mantissa of 53 bits, or the
least exponent there is. -/
def exponentFor (n d : Nat) : Int :=
  let size : Int := (n.log2 : Int) - d.log2
  let size := if d * twoTo size ≤ n * twoTo (-size) then size else size - 1
  if size < -1022 then -1074 else size - 52

def ofRatio (negative : Bool) (n d : Nat) : Binary64 :=
  let e := exponentFor n d
  let m := roundDiv (n * twoTo (-e)) (d * twoTo e)
  if 1024 ≤ (m.log2 : Int) + e then infinite negative else finite negative m e

/-- The number nearest to `digits * 10 ^ exponent`. The largest finite number has 309 digits before
the point, and the least positive one has 323 zeros behind it. -/
def ofDecimal (negative : Bool) (digits : Nat) (exponent : Int) : Binary64 :=
  let size : Int := (Nat.toDigits 10 digits).length + exponent
  if digits = 0 ∨ size < -330 then finite negative 0 0
  else if 310 < size then infinite negative
  else ofRatio negative (digits * tenTo exponent) (tenTo (-exponent))

def toInt? : Binary64 → Option Int
  | finite negative m e =>
    let sign : Int := if negative then -1 else 1
    if 0 ≤ e then some (sign * (m * twoTo e : Nat))
    else if m % twoTo (-e) = 0 then some (sign * (m / twoTo (-e) : Nat))
    else none
  | _ => none

end Binary64

/-- A JSON value. A number is a real if it is written with a point or an exponent. -/
inductive Json where
  | null
  | bool (b : Bool)
  | int (n : Int)
  | real (x : Binary64)
  | text (s : String)
  | list (xs : List Json)
  | object (fields : List (String × Json))

namespace Json

/-- The fields of an object, in the order in which their keys first appear. -/
abbrev Fields := List (String × Json)

/-- Sets a field: in place if the key is there, at the end if it is new. -/
def Fields.put (key : String) (v : Json) : Fields → Fields
  | [] => [(key, v)]
  | (k, w) :: fs => if k = key then (k, v) :: fs else (k, w) :: Fields.put key v fs

def Fields.get? (key : String) : Fields → Option Json
  | [] => none
  | (k, w) :: fs => if k = key then some w else Fields.get? key fs

def get? (key : String) : Json → Option Json
  | object fields => Fields.get? key fields
  | _ => none

def typeName : Json → String
  | null => "NoneType"
  | bool _ => "bool"
  | int _ => "int"
  | real _ => "float"
  | text _ => "str"
  | list _ => "list"
  | object _ => "dict"

end Json

end SchemaOutline

namespace SchemaOutline.Json

def escapeUnit (n : Nat) : String := "\\u" ++ Quoted.hex 4 n

/-- One character of a string. All outside ASCII is escaped, by code units of 16 bits. -/
def escapeChar (c : Char) : String :=
  if c = '"' then "\\\""
  else if c = '\\' then "\\\\"
  else if c = '\n' then "\\n"
  else if c = '\r' then "\\r"
  else if c = '\t' then "\\t"
  else if c = '\x08' then "\\b"
  else if c = '\x0c' then "\\f"
  else if 0x20 ≤ c.toNat && c.toNat < 0x7f then c.toString
  else if c.toNat < 0x10000 then escapeUnit c.toNat
  else
    let n := c.toNat - 0x10000
    escapeUnit (0xd800 + n / 0x400) ++ escapeUnit (0xdc00 + n % 0x400)

def quote (s : String) : String := "\"" ++ String.join (s.toList.map escapeChar) ++ "\""

/-- A real with all its digits: every one is an integer over a power of ten. -/
def realText : Binary64 → String
  | .nan => "NaN"
  | .infinite negative => if negative then "-Infinity" else "Infinity"
  | .finite negative m e =>
    let digits := m * Binary64.twoTo e * Nat.pow 5 (-e).toNat
    let exponent := if e < 0 then e else 0
    (if negative then "-" else "") ++ toString digits ++ "e" ++ toString exponent

def indent (depth : Nat) : String := "\n" ++ String.join (List.replicate depth "  ")

/-- Items on lines of their own between brackets, which stand at the given depth. -/
def block (opener closer : String) (depth : Nat) (items : List String) : String :=
  if items.isEmpty then opener ++ closer
  else opener ++ indent (depth + 1) ++ ("," ++ indent (depth + 1)).intercalate items ++
    indent depth ++ closer

mutual

def render (depth : Nat) : Json → String
  | null => "null"
  | bool b => if b then "true" else "false"
  | int n => toString n
  | real x => realText x
  | text s => quote s
  | list xs => block "[" "]" depth (renderAll (depth + 1) xs)
  | object fields => block "\x7b" "\x7d" depth (renderFields (depth + 1) fields)

def renderAll (depth : Nat) : List Json → List String
  | [] => []
  | x :: xs => render depth x :: renderAll depth xs

def renderFields (depth : Nat) : List (String × Json) → List String
  | [] => []
  | (k, x) :: fs => (quote k ++ ": " ++ render depth x) :: renderFields depth fs

end

end SchemaOutline.Json
