import CallContract.EnvFile.Binding
import CallContract.Environment

/-!
# References of environment files

A value can refer to a variable in braces behind a dollar sign, and name what stands in its place if
it is not set. A reference means the environment's variable, or one that the file binds further up.
-/

namespace CallContract

namespace EnvFile

structure Reference where
  name : String
  default : String

/-- The reference at the start of `cs`, and what follows it. -/
def readReference? (cs : List Char) : Option (Reference × List Char) :=
  match cs with
  | '$' :: '\x7b' :: cs =>
    let (name, rest) := cs.span fun c => c != '\x7d' && c != ':'
    match rest with
    | '\x7d' :: rest => some ({ name := String.ofList name, default := "" }, rest)
    | ':' :: '-' :: rest =>
      let (default, rest) := rest.span fun c => c != '\x7d'
      match rest with
      | '\x7d' :: rest =>
        some ({ name := String.ofList name, default := String.ofList default }, rest)
      | _ => none
    | _ => none
  | _ => none

/-- `cs` with up to `bound` characters and references resolved by `value?`. -/
def expandTo (value? : String → Option String) : (bound : Nat) → List Char → List Char
  | 0, cs => cs
  | bound + 1, cs =>
    match readReference? cs, cs with
    | some (r, rest), _ => ((value? r.name).getD r.default).toList ++ expandTo value? bound rest
    | none, c :: cs => c :: expandTo value? bound cs
    | none, [] => []

/-- A text with its references resolved by `value?`. -/
def expand (value? : String → Option String) (text : String) : String :=
  String.ofList (expandTo value? text.length text.toList)

/-- The value of a variable for a reference: the environment's, or the one that the file has bound
to it so far. A name that the file binds to nothing stands for the empty text. -/
def lookUp (environment : Environment) (bound : Table String (Option String))
    (name : String) : Option String :=
  environment.get? name <|> (bound.get? name).map (·.getD "")

/-- Binds a name to its value with the references resolved. -/
def bind (environment : Environment) (bound : Table String (Option String)) (b : Binding) :
    Table String (Option String) :=
  bound.insert b.name (b.value?.map (expand (lookUp environment bound)))

/-- What a file binds, by name; of two bindings of one name the later one counts. -/
def bindings (environment : Environment) (content : String) :
    Table String (Option String) :=
  (read content).foldl (bind environment) .empty

/-- The variables that a file sets: those that are not set yet and are bound to a value. -/
def newVariables (environment : Environment) (content : String) : List (String × String) :=
  (bindings environment content).entries.filterMap fun (name, value?) =>
    if environment.contains name then none else value?.map fun value => (name, value)

end EnvFile

end CallContract
