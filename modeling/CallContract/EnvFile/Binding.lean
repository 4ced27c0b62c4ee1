import CallContract.EnvFile.Quotation

/-!
# Bindings of environment files

A file of lines `NAME=value`. Blanks around the name and the value are dropped, a name or a value can
stand in quotes, the word `export` may stand in front, and a `#` behind a blank starts a comment. A
name without a value binds nothing. What is no binding is left out up to the end of its line.
-/

namespace CallContract

namespace EnvFile

structure Binding where
  name : String
  value? : Option String

/-- `cs` with every line end written as a line feed. -/
def unifyLineEnds : List Char → List Char
  | '\r' :: '\n' :: cs => '\n' :: unifyLineEnds cs
  | '\r' :: cs => '\n' :: unifyLineEnds cs
  | c :: cs => c :: unifyLineEnds cs
  | [] => []

/-- The blanks that end no line. -/
def isInlineBlank (c : Char) : Bool := isBlank c && c != '\n'

/-- What follows the word `export`, if a blank ends that word, and else all of `cs`. -/
def dropExport (cs : List Char) : List Char :=
  let rest := cs.drop 6
  if cs.take 6 = "export".toList ∧ rest.head?.any isInlineBlank then rest.dropWhile isInlineBlank
  else cs

def isNameChar (c : Char) : Bool := !isBlank c && c != '=' && c != '#'

/-- The name at the start of `cs`, and what follows it. A comment has none. -/
def readName? (cs : List Char) : Option (Option String × List Char) :=
  let (name, rest) := match cs with
    | '\x27' :: cs =>
      let name := cs.takeWhile fun c => c != '\x27'
      (if name.length = cs.length then [] else name, cs.drop (name.length + 1))
    | _ => cs.span isNameChar
  if cs.head? = some '#' then some (none, cs)
  else if name.isEmpty then none
  else some (some (String.ofList name), rest)

/-- `cs` without the comment at its end. -/
def dropComment : List Char → List Char
  | [] => []
  | c :: cs =>
    if isBlank c && (cs.dropWhile isBlank).head? = some '#' then [] else c :: dropComment cs

/-- The value at the start of `cs`, in front of which blanks can stand, and what follows it. Without
quotes it may be all comment. -/
def readValue? (cs : List Char) : Option (List Char × List Char) :=
  match cs.dropWhile isInlineBlank with
  | '\x27' :: cs =>
    (splitAtClosingQuote? '\x27' cs).map fun (text, rest) => (unescape escapedInSingle text, rest)
  | '\x22' :: cs =>
    (splitAtClosingQuote? '\x22' cs).map fun (text, rest) => (unescape escapedInDouble text, rest)
  | _ =>
    let (line, rest) := cs.span fun c => c != '\n'
    some (trimBlanks (dropComment line), rest)

/-- What follows the end of the line, if there is nothing else than a comment in front of it. -/
def endLine? (cs : List Char) : Option (List Char) :=
  let rest := cs.dropWhile isInlineBlank
  match if rest.head? = some '#' then rest.dropWhile (fun c => c != '\n') else rest with
  | [] => some []
  | '\n' :: rest => some rest
  | _ => none

/-- What follows the end of the line, whatever stands in front of it. -/
def skipLine (cs : List Char) : List Char := (cs.dropWhile fun c => c != '\n').drop 1

/-- The value behind the equals sign at the start of `cs`, if there is one, and what follows. -/
def readAssigned? (cs : List Char) : Option (Option String × List Char) :=
  match cs with
  | '=' :: cs =>
    (readValue? cs).map fun (value, rest) =>
      (some (String.ofList value), rest)
  | _ => some (none, cs)

/-- The binding at the start of `cs`, which starts with no blank, and what follows its line. -/
def readBinding (cs : List Char) : Option Binding × List Char :=
  let start := dropExport cs
  match readName? start with
  | none => (none, skipLine start)
  | some (name?, rest) =>
    let assigned := rest.dropWhile isInlineBlank
    match readAssigned? assigned with
    | none => (none, skipLine assigned)
    | some (value?, rest) =>
      match endLine? rest with
      | none => (none, skipLine rest)
      | some next => (name?.map fun name => { name, value? }, next)

/-- Up to `bound` bindings. -/
def readBindings : (bound : Nat) → List Char → List Binding
  | 0, _ => []
  | bound + 1, cs =>
    match cs.dropWhile isBlank with
    | [] => []
    | start =>
      let (binding?, next) := readBinding start
      binding?.toList ++ readBindings bound next

/-- `cs` without the byte order mark at its start. -/
def dropByteOrderMark : List Char → List Char
  | '\ufeff' :: cs => cs
  | cs => cs

/-- The bindings of a file, in their order. Each takes a character at least. -/
def read (content : String) : List Binding :=
  let cs := unifyLineEnds (dropByteOrderMark content.toList)
  readBindings cs.length cs

end EnvFile

end CallContract
