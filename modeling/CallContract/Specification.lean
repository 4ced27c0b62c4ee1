import CallContract.Schema.Basic

/-!
# Specifications

A specification is a mapping from parameter names to declarations. A declaration is a tag, whose
parameter is required if a `!` stands in front of it; a class; or a mapping, which declares that the
argument is a mapping destructured along a specification of its own. Inside such a mapping a further
mapping only declares an object.
-/

namespace CallContract

namespace Specification

def requiredMarker : Char := '!'

/-- The tag that a text declares, in letters of any case, and whether it marks the parameter
required. -/
def readTag? (s : String) : Option (Tag × Bool) :=
  match s.toList with
  | c :: cs =>
    if c = requiredMarker then (Tag.ofName? (String.ofList (cs.map Char.toLower))).map (·, true)
    else (Tag.ofName? (String.ofList ((c :: cs).map Char.toLower))).map (·, false)
  | [] => none

def expectedOfTag (t : Tag) : Expected := if t = .any then .wildcard else .primitive t.name

/-- The label of the schema nested at position `index` of the schema labelled `label`. -/
def nestedLabel (label : Value) (index : Nat) : Except Failure String :=
  return (← label.display) ++ " destructured arg #" ++ toString index

/-- Ends with what is wrong with the declaration of `name`. -/
def refuseDeclaration {α : Type} (label name : Value) (message : String) : Except Failure α :=
  .error (.configuration message [("label", label), ("parameter", name)])

def unknownTag {α : Type} (label name : Value) (s : String) : Except Failure α := do
  let tags ← Value.listLiteral (Tag.all.map fun t => .str t.name)
  refuseDeclaration label name ("Unknown type \"" ++ s ++ "\" for parameter \"" ++
    (← name.display) ++ "\" in " ++ (← label.display) ++ "; expected one of " ++ tags)

def unknownDeclaration {α : Type} (label name declared : Value) : Except Failure α := do
  let shown ← declared.literal
  refuseDeclaration label name
    ("Must use strings, classes, or mappings to describe parameters, passed \"" ++ shown ++
      "\" of type \"" ++ declared.typeName ++ "\" for \"" ++ (← name.display) ++ "\" in " ++
      (← label.display) ++ " instead")

/-- Reads a declaration; `nested` says what a mapping declares. -/
def readDeclaration (label name declared : Value)
    (nested : List (Value × Value) → Except Failure Expected) : Except Failure (Expected × Bool) :=
  match declared with
  | .mapping _ entries => return (← nested entries, false)
  | .str s | .text s =>
    match readTag? s with
    | some (t, required) => .ok (expectedOfTag t, required)
    | none => unknownTag label name s
  | .cls c => .ok (.instanceOf c, false)
  | _ => unknownDeclaration label name declared

def readParameter (label : Value) (nested : Nat → List (Value × Value) → Except Failure Expected)
    (entry : (Value × Value) × Nat) : Except Failure Parameter := do
  let ((name, declared), index) := entry
  if name.text?.isNone then
    throw (.configuration ("Parameter names in " ++ (← label.display) ++ " must be strings, got " ++
      (← name.literal)) [("label", label), ("position", .int index)])
  let (expected, required) ← readDeclaration label name declared (nested index)
  return { name, position := index, expected, required }

/-- Compiles the entries of a specification, which number the parameters from 0 on. -/
def compileEntries (label : Value) (nested : Nat → List (Value × Value) → Except Failure Expected)
    (entries : List (Value × Value)) : Except Failure Schema := do
  Schema.ofParameters label (← entries.zipIdx.mapM (readParameter label nested))

/-- Compiles entries in which a mapping only declares an object. -/
def compileFlat (label : Value) (entries : List (Value × Value)) : Except Failure Schema :=
  compileEntries label (fun _ _ => .ok (.primitive Tag.object.name)) entries

/-- Compiles entries in which a mapping declares a destructured argument. -/
def compileDeep (label : Value) (entries : List (Value × Value)) : Except Failure Schema :=
  compileEntries label
    (fun index nested => do
      return .bag (← compileFlat (.str (← nestedLabel label index)) nested))
    entries

/-- Compiles a specification as it is given, without a look at the label. -/
def compile (spec label : Value) (destructure : Bool) : Except Failure Schema :=
  match spec.entries? with
  | some entries => if destructure then compileDeep label entries else compileFlat label entries
  | none => do
    throw (.configuration ((← label.display) ++ " parameters must be described by a mapping, got " ++
      spec.typeName) [("label", label)])

end Specification

end CallContract
