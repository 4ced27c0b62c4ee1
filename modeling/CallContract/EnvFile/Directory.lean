import CallContract.EnvFile.Reference

/-!
# Environment files of a directory

The files of one directory, by their names, and what loading one of them sets. A file that is not
there sets nothing, and no other directory is searched for it.
-/

namespace CallContract

namespace EnvFile

/-- The file that is loaded unless another one is named. -/
def standardFile : String := ".env"

/-- The name of the file at a path in the directory. Single dots and doubled separators in the path
mean nothing, and a path that leaves the directory or ends as one of a directory names no file. -/
def fileName? (path : String) : Option String :=
  let parts := path.splitOn "/"
  if parts.head? = some "" ∨ parts.contains ".." ∨ ["", "."].contains (parts.getLastD "") then none
  else some (String.intercalate "/" (parts.filter fun part => part != "" && part != "."))

/-- The files after one has been written, or removed. -/
def write (files : Table String String) (path : String) (content? : Option String) :
    Table String String :=
  match fileName? path, content? with
  | none, _ => files
  | some name, some content => files.insert name content
  | some name, none => files.erase name

def loader (files : Table String String) : FileLoader := fun environment path? =>
  match (fileName? (path?.getD standardFile)).bind files.get? with
  | some content => newVariables environment content
  | none => []

end EnvFile

end CallContract
