import CallContract.Text.Printable

/-!
# Quoted texts

The literal form of a text and of a byte string: enclosed in quotes, with the enclosing quote, the
backslash and everything unprintable escaped.
-/

namespace CallContract

/-- `n` in lower-case hexadecimal, filled with zeros to at least `width` digits. -/
def hexDigits (width n : Nat) : List Char :=
  let digits := Nat.toDigits 16 n
  List.replicate (width - digits.length) '0' ++ digits

/-- The quote that encloses `cs`: a double one only where it saves escaping, that is where `cs`
holds a single quote and no double one. -/
def enclosingQuote (cs : List Char) : Char :=
  if cs.contains '\x27' && !cs.contains '\x22' then '\x22' else '\x27'

/-- The short escape of `c`, if it has one inside `quote`. -/
def shortEscape (quote c : Char) : Option Char :=
  if c = quote ∨ c = '\\' then some c
  else if c = '\t' then some 't'
  else if c = '\n' then some 'n'
  else if c = '\r' then some 'r'
  else none

def escapeChar (quote c : Char) : List Char :=
  match shortEscape quote c with
  | some e => ['\\', e]
  | none =>
    if isPrintable c then [c]
    else if c.toNat < 0x100 then '\\' :: 'x' :: hexDigits 2 c.toNat
    else if c.toNat < 0x10000 then '\\' :: 'u' :: hexDigits 4 c.toNat
    else '\\' :: 'U' :: hexDigits 8 c.toNat

/-- The literal form of a text. -/
def quoted (s : String) : String :=
  let cs := s.toList
  let quote := enclosingQuote cs
  String.ofList (quote :: cs.flatMap (escapeChar quote) ++ [quote])

def escapeByte (quote : Char) (b : UInt8) : List Char :=
  let c := Char.ofNat b.toNat
  match shortEscape quote c with
  | some e => ['\\', e]
  | none =>
    if 0x20 ≤ b.toNat ∧ b.toNat < 0x7f then [c] else '\\' :: 'x' :: hexDigits 2 b.toNat

def enclosingByteQuote (data : List UInt8) : Char :=
  enclosingQuote (data.map fun b => Char.ofNat b.toNat)

/-- Bytes between two `quote`, with `escaped` as the quote that is escaped among them. Only printable
ASCII stands for itself. -/
def enclosedBytes (quote escaped : Char) (data : List UInt8) : String :=
  String.ofList ('b' :: quote :: data.flatMap (escapeByte escaped) ++ [quote])

/-- The literal form of a byte string. -/
def quotedBytes (data : List UInt8) : String :=
  let quote := enclosingByteQuote data
  enclosedBytes quote quote data

/-- The literal form of a byte array, in which a single quote is escaped whatever encloses it. -/
def quotedByteArray (data : List UInt8) : String :=
  "bytearray(" ++ enclosedBytes (enclosingByteQuote data) '\x27' data ++ ")"

end CallContract
