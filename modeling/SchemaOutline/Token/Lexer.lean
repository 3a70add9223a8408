namespace SchemaOutline

structure Token where
  value : String
  line : Int
  deriving DecidableEq

namespace Token

def blanks : List Char := [' ', '\t', '\r', '\n', '\x0c', '\x0b']

def delimiters : List Char :=
  ['\x7b', '\x7d', '[', ']', '(', ')', '<', '>', '=', ';', ':', ',']

inductive Quote where
  | single
  | double
  deriving DecidableEq

def Quote.char : Quote → Char
  | single => '\''
  | double => '"'

def Quote.of? (c : Char) : Option Quote :=
  if c = Quote.single.char then some .single
  else if c = Quote.double.char then some .double
  else none

def isBlank (c : Char) : Bool := blanks.contains c

def isDelimiter (c : Char) : Bool := delimiters.contains c

def isQuote (c : Char) : Bool := (Quote.of? c).isSome

def endsWord (c : Char) : Bool := isBlank c || isDelimiter c || isQuote c

def IsDelimiterWord (s : String) : Prop := ∃ c ∈ delimiters, s = c.toString

instance (s : String) : Decidable (IsDelimiterWord s) :=
  inferInstanceAs (Decidable (∃ c ∈ delimiters, s = c.toString))

end Token

/-- A place in a list of tokens: what is still to be read, and the line of the last token read. -/
structure Cursor where
  rest : List Token
  line : Int := 1
  deriving DecidableEq

namespace Cursor

def next? (c : Cursor) : Option (String × Cursor) :=
  match c.rest with
  | [] => none
  | t :: ts => some (t.value, ⟨ts, t.line⟩)

def exhaust (c : Cursor) : Cursor :=
  ⟨[], (c.rest.getLast?.map Token.line).getD c.line⟩

def values (c : Cursor) : List String := c.rest.map Token.value

end Cursor

namespace Lexer

open Token

/-- What the characters read so far leave unfinished. Every list holds the characters of the
current lexeme, the latest first. -/
inductive Mode where
  | gap
  | word (read : List Char)
  /-- After a slash that may still open a comment; `read` is the word before the slash. -/
  | slash (read : List Char)
  | literal (quote : Quote) (read : List Char)
  | escape (quote : Quote) (read : List Char)
  | lineComment
  | blockComment
  | blockStar
  deriving DecidableEq

def spell (read : List Char) : String := String.ofList read.reverse

def spell? (read : List Char) : List String := if read.isEmpty then [] else [spell read]

namespace Mode

def start (c : Char) : Mode × List String :=
  if isBlank c then (gap, [])
  else if isDelimiter c then (gap, [c.toString])
  else match Quote.of? c with
    | some q => (literal q [c], [])
    | none => if c = '/' then (slash [], []) else (word [c], [])

def read : Mode → Char → Mode × List String
  | gap, c => start c
  | word w, c =>
    if c = '/' then (slash w, [])
    else if endsWord c then ((start c).1, spell w :: (start c).2)
    else (word (c :: w), [])
  | slash w, c =>
    if c = '/' then (lineComment, spell? w)
    else if c = '*' then (blockComment, spell? w)
    else if endsWord c then ((start c).1, spell ('/' :: w) :: (start c).2)
    else (word (c :: '/' :: w), [])
  | literal q w, c =>
    if c = q.char then (gap, [spell (c :: w)])
    else if c = '\n' then (gap, [spell w])
    else if c = '\\' then (escape q (c :: w), [])
    else (literal q (c :: w), [])
  | escape q w, c =>
    if c = '\n' then (gap, [spell w]) else (literal q (c :: w), [])
  | lineComment, c => (if c = '\n' then gap else lineComment, [])
  | blockComment, c => (if c = '*' then blockStar else blockComment, [])
  | blockStar, c =>
    (if c = '/' then gap else if c = '*' then blockStar else blockComment, [])

def finish : Mode → List String
  | word w => [spell w]
  | slash w => [spell ('/' :: w)]
  | literal _ w => [spell w]
  | escape _ w => [spell w]
  | gap | lineComment | blockComment | blockStar => []

end Mode

structure State where
  mode : Mode := .gap
  line : Int := 1
  tokens : List Token := []

/-- A lexeme never contains a newline, so the line on which it is completed is the line on which it
starts. -/
def State.emit (s : State) (lexemes : List String) : List Token :=
  lexemes.foldl (fun ts v ↦ ⟨v, s.line⟩ :: ts) s.tokens

def State.read (s : State) (c : Char) : State where
  mode := (s.mode.read c).1
  line := if c = '\n' then s.line + 1 else s.line
  tokens := s.emit (s.mode.read c).2

def State.finish (s : State) : List Token := (s.emit s.mode.finish).reverse

end Lexer

/-- The tokens of a text: comments and blanks separate them, quoted literals keep their quotes. -/
def tokenize (text : String) : List Token :=
  (text.toList.foldl Lexer.State.read {}).finish

end SchemaOutline
