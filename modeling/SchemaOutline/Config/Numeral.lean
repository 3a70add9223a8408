import SchemaOutline.Text.Basic

namespace SchemaOutline.Config.Numeral

inductive Fault where
  | malformed
  | tooLong
  deriving DecidableEq

def longest : Nat := 4300

def splitMinus : List Char → Bool × List Char
  | '-' :: cs => (true, cs)
  | cs => (false, cs)

def isCanonical : List Char → Bool
  | [] => false
  | ['0'] => true
  | c :: _ => c != '0'

/-- An integer in plain form: digits, with a minus before them at most. That there are too many of
them is found before what stands behind them. -/
def readPlain (cs : List Char) : Except Fault Int :=
  let (negative, unsigned) := splitMinus cs
  let (digits, rest) := unsigned.span Text.isDigit
  if !isCanonical digits then .error .malformed
  else if longest < cs.length - rest.length then .error .tooLong
  else if !rest.isEmpty then .error .malformed
  else .ok (if negative then -(Text.decimalValue digits : Int) else Text.decimalValue digits)

def mayFollow (c : Char) : Bool := c = '-' || (Text.isDigit c && c != '0')

/-- A number without the zeros that it starts with, and the underscores among them. The last of
them, `last`, stays where the number ends or has a point. -/
def dropZeros (last : Char) : List Char → Option (List Char)
  | [] => some [last]
  | c :: cs =>
    if c = '0' || c = '_' then dropZeros c cs
    else if c = '.' then some (last :: c :: cs)
    else if mayFollow c then some (c :: cs)
    else none

def withoutZeros : List Char → Option (List Char)
  | [] => none
  | c :: cs =>
    if c = '0' then dropZeros c cs else if mayFollow c then some (c :: cs) else none

def withoutFraction (cs : List Char) : List Char :=
  match cs.span (· ≠ '.') with
  | (whole, _ :: zeros) => if !zeros.isEmpty && zeros.all (· = '0') then whole else cs
  | (_, []) => cs

def areSingle (after : Bool) : List Char → Bool
  | [] => true
  | c :: cs => !(after && c = '_') && areSingle (c = '_') cs

def withoutUnderscores (cs : List Char) : List Char :=
  if cs.head? = some '_' || cs.getLast? = some '_' || !areSingle false cs then cs
  else cs.filter (· ≠ '_')

def plain? (cs : List Char) : Option (List Char) :=
  (withoutZeros cs).map fun cs ↦ withoutUnderscores (withoutFraction cs)

def signedPlain? : List Char → Option (List Char)
  | '+' :: '-' :: _ => none
  | '+' :: cs => plain? cs
  | '-' :: cs => (plain? cs).map ('-' :: ·)
  | cs => plain? cs

/-- An integer in plain form or with blanks around it, zeros before it, a plus, a fraction of zeros,
or underscores between its digits. -/
def read (cs : List Char) : Except Fault Int :=
  match readPlain cs with
  | .error .malformed =>
    match (signedPlain? (Text.trim Text.isWhiteSpace cs)).map readPlain with
    | some (.ok n) => .ok n
    | _ => .error .malformed
  | result => result

end SchemaOutline.Config.Numeral
