import SchemaOutline.Token.Lexer

namespace SchemaOutline

/-- A closing bracket that does not close the innermost open bracket. -/
structure Mismatch where
  line : Int
  opener : Option String
  closer : String
  deriving DecidableEq

/-- The text ended where something was still expected. -/
structure Truncation where
  line : Int
  expected : List String
  /-- The brackets left open, outermost first. -/
  unclosed : List String
  deriving DecidableEq

inductive Fault where
  | mismatch (m : Mismatch)
  | truncated (t : Truncation)
  deriving DecidableEq

private def ticked (s : String) : String := "'" ++ s ++ "'"

def Mismatch.message (m : Mismatch) : String :=
  s!"Bracket mismatch at line {m.line}: " ++
    match m.opener with
    | none => "unexpected " ++ ticked m.closer
    | some o => ticked o ++ " closed by " ++ ticked m.closer

def Truncation.details (t : Truncation) : List String :=
  (if t.expected.isEmpty then []
    else ["expected " ++ " or ".intercalate (t.expected.map ticked)]) ++
  if t.unclosed.isEmpty then []
    else ["unclosed " ++ " ".intercalate (t.unclosed.map ticked)]

def Truncation.message (t : Truncation) : String :=
  s!"Unexpected end of input at line {t.line}" ++
    if t.details.isEmpty then "" else ": " ++ ", ".intercalate t.details

def Fault.message : Fault → String
  | mismatch m => m.message
  | truncated t => t.message

inductive Bracket where
  | square
  | round
  | curly
  | angle
  deriving DecidableEq

namespace Bracket

def opener : Bracket → String
  | square => "["
  | round => "("
  | curly => "\x7b"
  | angle => "<"

def closer : Bracket → String
  | square => "]"
  | round => ")"
  | curly => "\x7d"
  | angle => ">"

inductive Mark where
  | opening (b : Bracket)
  | closing (b : Bracket)
  | plain
  deriving DecidableEq

def mark (v : String) : Mark :=
  if v = "[" then .opening square
  else if v = "(" then .opening round
  else if v = "\x7b" then .opening curly
  else if v = "<" then .opening angle
  else if v = "]" then .closing square
  else if v = ")" then .closing round
  else if v = "\x7d" then .closing curly
  else if v = ">" then .closing angle
  else .plain

def isBracket (v : String) : Bool := mark v != .plain

/-- The open brackets, innermost first, after one more token. -/
def nest (unclosed : List Bracket) (t : Token) : Except Mismatch (List Bracket) :=
  match mark t.value with
  | .plain => .ok unclosed
  | .opening b => .ok (b :: unclosed)
  | .closing b =>
    match unclosed with
    | [] => .error ⟨t.line, none, b.closer⟩
    | a :: outer => if a = b then .ok outer else .error ⟨t.line, some a.opener, b.closer⟩

def openers (unclosed : List Bracket) : List String := (unclosed.map opener).reverse

end Bracket

end SchemaOutline
