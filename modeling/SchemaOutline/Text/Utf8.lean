import SchemaOutline.Text.Quoted

namespace SchemaOutline.Utf8

inductive Reason where
  | start
  | continuation
  | endOfData
  deriving DecidableEq

def Reason.message : Reason → String
  | start => "invalid start byte"
  | continuation => "invalid continuation byte"
  | endOfData => "unexpected end of data"

structure Fault where
  offset : Nat
  bytes : List UInt8
  reason : Reason
  deriving DecidableEq

def Fault.message (f : Fault) : String :=
  let place := match f.bytes with
    | [b] => s!"byte 0x{Quoted.hex 2 b.toNat} in position {f.offset}"
    | bs => s!"bytes in position {f.offset}-{f.offset + bs.length - 1}"
  s!"'utf-8' codec can't decode {place}: {f.reason.message}"

def isContinuation (b : UInt8) : Bool := 0x80 ≤ b && b ≤ 0xbf

/-- Whether `b` may follow the first byte `a` of a character of three or four bytes. It excludes
overlong forms, surrogates and all beyond the last code point. -/
def follows (a b : UInt8) : Bool :=
  isContinuation b &&
    if a = 0xe0 then 0xa0 ≤ b
    else if a = 0xed then b ≤ 0x9f
    else if a = 0xf0 then 0x90 ≤ b
    else if a = 0xf4 then b ≤ 0x8f
    else true

def codePoint (base : Nat) (a : UInt8) (rest : List UInt8) : Char :=
  Char.ofNat (rest.foldl (fun n b ↦ n * 64 + (b.toNat - 0x80)) (a.toNat - base))

/-- The characters of the data from `offset` on, after those read, which are kept latest first. -/
def decodeFrom (offset : Nat) (read : List Char) : List UInt8 → Except Fault (List Char)
  | [] => .ok read.reverse
  | a :: rest =>
    if a < 0x80 then decodeFrom (offset + 1) (Char.ofNat a.toNat :: read) rest
    else if a < 0xc2 then .error ⟨offset, [a], .start⟩
    else if a < 0xe0 then
      match rest with
      | [] => .error ⟨offset, [a], .endOfData⟩
      | b :: rest =>
        if isContinuation b then decodeFrom (offset + 2) (codePoint 0xc0 a [b] :: read) rest
        else .error ⟨offset, [a], .continuation⟩
    else if a < 0xf0 then
      match rest with
      | [] => .error ⟨offset, [a], .endOfData⟩
      | b :: rest =>
        if !follows a b then .error ⟨offset, [a], .continuation⟩
        else match rest with
          | [] => .error ⟨offset, [a, b], .endOfData⟩
          | c :: rest =>
            if isContinuation c then decodeFrom (offset + 3) (codePoint 0xe0 a [b, c] :: read) rest
            else .error ⟨offset, [a, b], .continuation⟩
    else if a < 0xf5 then
      match rest with
      | [] => .error ⟨offset, [a], .endOfData⟩
      | b :: rest =>
        if !follows a b then .error ⟨offset, [a], .continuation⟩
        else match rest with
          | [] => .error ⟨offset, [a, b], .endOfData⟩
          | c :: rest =>
            if !isContinuation c then .error ⟨offset, [a, b], .continuation⟩
            else match rest with
              | [] => .error ⟨offset, [a, b, c], .endOfData⟩
              | d :: rest =>
                if isContinuation d then
                  decodeFrom (offset + 4) (codePoint 0xf0 a [b, c, d] :: read) rest
                else .error ⟨offset, [a, b, c], .continuation⟩
    else .error ⟨offset, [a], .start⟩

/-- Drops a byte order mark, and also the beginning of one if there is nothing else. -/
def withoutMark : List UInt8 → List UInt8
  | 0xef :: 0xbb :: 0xbf :: rest => rest
  | [0xef, 0xbb] => []
  | [0xef] => []
  | bytes => bytes

def decode (bytes : List UInt8) : Except Fault (List Char) := decodeFrom 0 [] (withoutMark bytes)

def unifyNewlines (read : List Char) : List Char → List Char
  | '\r' :: '\n' :: cs => unifyNewlines ('\n' :: read) cs
  | '\r' :: cs => unifyNewlines ('\n' :: read) cs
  | c :: cs => unifyNewlines (c :: read) cs
  | [] => read.reverse

def toText (bytes : List UInt8) : Except Fault String :=
  (decode bytes).map fun cs ↦ String.ofList (unifyNewlines [] cs)

end SchemaOutline.Utf8
