import CallContract.Schema.Description

/-!
# Checks

The checks that a payload goes through, each of which ends with its first violation: required
parameters, types in declaration order, undeclared names, and the number of positional values.
-/

namespace CallContract

/-- The names in double quotes, separated by commas. -/
def quotedNames (names : List Value) : Except Failure String := do
  let shown ← names.mapM Value.display
  return commaSeparated (shown.map fun name => "\"" ++ name ++ "\"")

namespace Value

/-- Whether a value is an instance of a class that can be tested for. -/
def testInstance (v : Value) (c : ClassName) : Except Failure Bool :=
  if c = .any then .error .untestableClass else .ok (v.isInstance c)

/-- The text by which a mismatch shows the tag of an array or another value in place of it. -/
def mismatchText (v : Value) (tag : String) : Except Failure String :=
  if tag = Tag.array.name then .ok ("array but got " ++ v.tag.name)
  else return tag ++ " but got " ++ (← v.literal) ++ " instead"

/-- Whether a value is counted under the tag of the given name. -/
def hasTag (v : Value) (tag : String) : Bool :=
  if tag = Tag.array.name then v.isArray else v.tag.name == tag

end Value

namespace Schema

def checkRequired (s : Schema) (supplied : Payload) : Except Failure Unit := do
  let missing := s.required.filter fun name => !supplied.contains name
  if !missing.isEmpty then
    let label ← s.name.display
    let names ← quotedNames missing
    throw (.violation s.name
      ("Required argument(s) for " ++ label ++ " " ++ names ++ " missing. " ++
        "Alternatively, you may have passed them as positional arguments?")
      (.missing missing))

/-- Ends with the mismatch of a value, `text` being what was expected and what was found. -/
def mismatch {α : Type} (s : Schema) (name : Value) (text : Except Failure String)
    (expected : String) (value : Value) : Except Failure α := do
  let label ← s.name.display
  let shownName ← name.display
  let text ← text
  throw (.violation s.name
    ("Type mismatch in " ++ label ++ ": \"" ++ shownName ++ "\". Expected " ++ text)
    (.mismatch name (.str expected) value))

/-- What a mismatch says of a value in place of a mapping. -/
def mappingText (value : Value) : Except Failure String :=
  return "destructured mapping but got " ++ (← value.literal) ++ " instead"

/-- Checks one value that is there and not null. Without `checkBags` every value passes for a
destructured mapping. -/
def checkValue (s : Schema) (name : Value) (expected : Expected) (value : Value)
    (checkBags : Bool) : Except Failure Unit :=
  match expected with
  | .wildcard => .ok ()
  | .bag _ =>
    if checkBags && !value.isMapping then s.mismatch name (mappingText value) "mapping" value
    else .ok ()
  | .instanceOf c => do
    if !(← value.testInstance c) then
      let label ← s.name.display
      let shownName ← name.display
      throw (.violation s.name
        ("Expected instance of class " ++ c.name ++ " in " ++ label ++ " for \"" ++ shownName ++
          "\" but got " ++ value.typeName ++ " instead")
        (.mismatch name (.str (← expected.describe)) value))
  | .primitive tag =>
    if value.hasTag tag then .ok () else s.mismatch name (value.mismatchText tag) tag value
  | .other v => do
    refuse ("Unknown expected type " ++ (← v.literal) ++ " for " ++ (← name.display) ++ " in " ++
      (← s.name.display))

/-- Checks the value supplied for one declared parameter, if there is one. -/
def checkParam (s : Schema) (supplied : Payload) (checkUndefined checkBags : Bool) (name : Value) :
    Except Failure Unit :=
  match supplied.get? name with
  | none | some .null => .ok ()
  | some .undefined => do
    if checkUndefined then
      throw (.violation s.name
        ("UNDEFINED was passed to " ++ (← s.name.display) ++ " for \"" ++ (← name.display) ++ "\"")
        (.undefinedValue name))
  | some value => do s.checkValue name (← s.expected name) value checkBags

def checkTypes (s : Schema) (supplied : Payload) (checkUndefined checkBags : Bool) :
    Except Failure Unit :=
  s.params.forM (s.checkParam supplied checkUndefined checkBags)

def checkExtra (s : Schema) (supplied : Payload) : Except Failure Unit := do
  let extras := supplied.keys.filter fun key => !s.isDeclared key
  if !extras.isEmpty then
    let label ← s.name.display
    let names ← quotedNames extras
    throw (.violation s.name ("Unknown parameter(s) passed to " ++ label ++ ": " ++ names)
      (.unexpected extras))

def checkArity (s : Schema) (received : Int) : Except Failure Unit := do
  if s.arity < received then
    throw (.violation s.name
      ("Too many arguments to " ++ (← s.name.display) ++ ". Received " ++ toString received ++
        " but expected " ++ toString s.arity)
      (.tooMany (.int received) (.int s.arity)))

/-- Checks the types of a payload and then, if asked to, that all its names are declared. -/
def typecheck (s : Schema) (supplied : Payload) (checkUndefined checkExtraParams checkBags : Bool) :
    Except Failure Unit := do
  s.checkTypes supplied checkUndefined checkBags
  if checkExtraParams then s.checkExtra supplied

end Schema

end CallContract
