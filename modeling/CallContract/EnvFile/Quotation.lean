import CallContract.Text.Blank

/-!
# Quotations of environment files

A name or a value can stand in quotes, and then spans lines and keeps its blanks. In a value a
backslash takes the character behind it along, so that a quote behind one closes nothing, and some
characters are written with one.
-/

namespace CallContract

namespace EnvFile

/-- The text up to the `quote` that closes it, and what follows the quote. -/
def splitAtClosingQuote? (quote : Char) : List Char → Option (List Char × List Char)
  | [] => none
  | '\\' :: c :: cs =>
    (splitAtClosingQuote? quote cs).map fun (text, rest) => ('\\' :: c :: text, rest)
  | c :: cs =>
    if c = quote then some ([], cs)
    else (splitAtClosingQuote? quote cs).map fun (text, rest) => (c :: text, rest)

/-- The character written as `c` behind a backslash between double quotes. -/
def escapedInDouble : Char → Option Char
  | 'a' => some '\x07'
  | 'b' => some '\x08'
  | 't' => some '\t'
  | 'n' => some '\n'
  | 'v' => some '\x0b'
  | 'f' => some '\x0c'
  | 'r' => some '\r'
  | c => if c = '\\' ∨ c = '\x27' ∨ c = '\x22' then some c else none

/-- The character written as `c` behind a backslash between single quotes. -/
def escapedInSingle (c : Char) : Option Char :=
  if c = '\\' ∨ c = '\x27' then some c else none

/-- `cs` with its escapes replaced. A backslash in front of another character stays. -/
def unescape (escaped : Char → Option Char) : List Char → List Char
  | '\\' :: c :: cs =>
    match escaped c with
    | some d => d :: unescape escaped cs
    | none => '\\' :: unescape escaped (c :: cs)
  | c :: cs => c :: unescape escaped cs
  | [] => []

end EnvFile

end CallContract
