import CallContract.Table

/-!
# The environment

The variables that settings are read from. What holds a null character is no text of the
environment, and a name is neither empty nor holds the equals sign that ends it.
-/

namespace CallContract

abbrev Environment := Table String String

/-- The variables that loading an environment file sets, in their order: the file that is named, or
the one that is found when none is. -/
abbrev FileLoader := Environment → Option String → List (String × String)

/-- Why a variable cannot be set. -/
inductive VariableDefect where
  /-- The name or the value holds a null character. -/
  | nullCharacter
  /-- The name holds an equals sign. -/
  | equalsSign
  /-- The name is empty. -/
  | nameless
deriving DecidableEq

namespace VariableDefect

def message : VariableDefect → String
  | nullCharacter => "embedded null byte"
  | equalsSign => "illegal environment variable name"
  | nameless => "a variable needs a name"

end VariableDefect

namespace Environment

/-- What keeps a variable from being set to a value. -/
def defect? (name value : String) : Option VariableDefect :=
  if name.contains '\x00' || value.contains '\x00' then some .nullCharacter
  else if name.contains '=' then some .equalsSign
  else if name.isEmpty then some .nameless
  else none

end Environment

end CallContract
