import CallContract.Failure
import CallContract.Text.Quoted

/-!
# The texts of a value

`Value.literal` shows a value so that its class can be told, `Value.display` shows it as running
text does: the two differ on texts, decimals, fractions, conventions, dates and mapping proxies. A
mute creature cannot be shown, and nor can what holds one. The texts are idealised: an integer is
shown with all its digits and a value to any depth, without the limits that an interpreter sets.
-/

namespace CallContract

def commaSeparated (parts : List String) : String := String.intercalate ", " parts

def bracketed (left right : String) (parts : List String) : String :=
  left ++ commaSeparated parts ++ right

/-- A tuple of one item keeps a comma, to be told from an expression in parentheses. -/
def tupleLiteral : List String → String
  | [item] => "(" ++ item ++ ",)"
  | items => bracketed "(" ")" items

def dictLiteral (entries : List (String × String)) : String :=
  bracketed "\x7b" "\x7d" (entries.map fun (k, v) => k ++ ": " ++ v)

/-- A mapping of the given kind whose keys and values are shown as `entries`. -/
def MappingKind.literal (entries : List (String × String)) : MappingKind → String
  | .dict | .bag => dictLiteral entries
  | .proxy => "mappingproxy(" ++ dictLiteral entries ++ ")"
  | .env => "Env(" ++ dictLiteral entries ++ ")"
  | .ordered =>
    if entries.isEmpty then "OrderedDict()"
    else bracketed "OrderedDict([" "])" (entries.map fun (k, v) => "(" ++ k ++ ", " ++ v ++ ")")

def setLiteral (items : List String) : String :=
  if items.isEmpty then "set()" else bracketed "\x7b" "\x7d" items

def frozensetLiteral (items : List String) : String :=
  if items.isEmpty then "frozenset()" else "frozenset(" ++ setLiteral items ++ ")"

/-- Seconds are left out when they and their fraction are zero, the fraction when it is. -/
def DateTime.literal (t : DateTime) : String :=
  let seconds := if t.microsecond ≠ 0 then [t.second, t.microsecond]
    else if t.second ≠ 0 then [t.second] else []
  bracketed "datetime.datetime(" ")"
    (([t.date.year, t.date.month, t.date.day, t.hour, t.minute] ++ seconds).map toString)

def Date.literal (d : Date) : String :=
  bracketed "datetime.date(" ")" ([d.year, d.month, d.day].map toString)

def zeroPadded (width n : Nat) : String :=
  let digits := toString n
  String.ofList (List.replicate (width - digits.length) '0') ++ digits

def Date.display (d : Date) : String :=
  zeroPadded 4 d.year ++ "-" ++ zeroPadded 2 d.month ++ "-" ++ zeroPadded 2 d.day

def DateTime.display (t : DateTime) : String :=
  t.date.display ++ " " ++ zeroPadded 2 t.hour ++ ":" ++ zeroPadded 2 t.minute ++ ":" ++
    zeroPadded 2 t.second ++ (if t.microsecond = 0 then "" else "." ++ zeroPadded 6 t.microsecond)

def Convention.literal (c : Convention) : String :=
  "<" ++ c.memberName ++ ": " ++ quoted c.name ++ ">"

def rangeLiteral (start stop step : Int) : String :=
  bracketed "range(" ")" ((if step = 1 then [start, stop] else [start, stop, step]).map toString)

def Species.literal (text : String) : Species → Except Failure String
  | .mute => .error (.unprintable ("mute: " ++ text))
  | s => .ok (s.className.name ++ "(" ++ quoted text ++ ")")

namespace Value

mutual

def literal : Value → Except Failure String
  | .null => .ok "None"
  | .undefined => .ok "UNDEFINED"
  | .bool b => .ok (if b then "True" else "False")
  | .int n | .count n => .ok (toString n)
  | .float _ s | .complex _ s => .ok s
  | .decimal _ s => .ok ("Decimal(" ++ quoted s ++ ")")
  | .fraction q => .ok (bracketed "Fraction(" ")" [toString q.num, toString q.den])
  | .str s | .text s => .ok (quoted s)
  | .bytes data => .ok (quotedBytes data)
  | .bytearray data => .ok (quotedByteArray data)
  | .list items | .stack items => return bracketed "[" "]" (← literals items)
  | .tuple items => return tupleLiteral (← literals items)
  | .point x y => return bracketed "Point(" ")" ["x=" ++ (← x.literal), "y=" ++ (← y.literal)]
  | .set items => return setLiteral (← literals items)
  | .frozenset items => return frozensetLiteral (← literals items)
  | .range start stop step => .ok (rangeLiteral start stop step)
  | .generator _ _ _ => .ok "<generator object gen>"
  | .mapping kind entries => return kind.literal (← entryLiterals entries)
  | .datetime t => .ok t.literal
  | .date d => .ok d.literal
  | .cls c => .ok c.literal
  | .builtin name => .ok ("<built-in function " ++ name ++ ">")
  | .function _ name => .ok ("<function " ++ name ++ ">")
  | .creature _ species s => species.literal s
  | .convention c => .ok c.literal

def literals : List Value → Except Failure (List String)
  | [] => .ok []
  | v :: vs => return (← v.literal) :: (← literals vs)

def entryLiterals : List (Value × Value) → Except Failure (List (String × String))
  | [] => .ok []
  | (k, v) :: es => return (← k.literal, ← v.literal) :: (← entryLiterals es)

end

def display : Value → Except Failure String
  | .str s | .text s | .decimal _ s => .ok s
  | .fraction q =>
    .ok (if q.den = 1 then toString q.num else toString q.num ++ "/" ++ toString q.den)
  | .convention c => .ok c.memberName
  | .datetime t => .ok t.display
  | .date d => .ok d.display
  | .mapping .proxy entries => return dictLiteral (← entryLiterals entries)
  | v => v.literal

/-- A list of values, shown as a list. -/
def listLiteral (vs : List Value) : Except Failure String := Value.literal (.list vs)

@[simp] theorem display_str (s : String) : (Value.str s).display = .ok s := rfl

@[simp] theorem display_text (s : String) : (Value.text s).display = .ok s := rfl

end Value

end CallContract
