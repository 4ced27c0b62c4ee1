import CallContract.Value.Basic

/-!
# What a value is

The class of a value, the other classes that it is an instance of, and the tag under which
specifications speak of it.
-/

namespace CallContract

/-- The tags of a specification. -/
inductive Tag where
  | string
  | number
  | boolean
  | object
  | array
  | function
  | any
deriving DecidableEq

namespace Tag

/-- The tags in the order of their names. -/
def all : List Tag := [.any, .array, .boolean, .function, .number, .object, .string]

theorem mem_all (t : Tag) : t ∈ all := by cases t <;> decide

def name : Tag → String
  | .string => "string"
  | .number => "number"
  | .boolean => "boolean"
  | .object => "object"
  | .array => "array"
  | .function => "function"
  | .any => "any"

def ofName? (s : String) : Option Tag := all.find? fun t => t.name == s

theorem ofName?_name (t : Tag) : ofName? t.name = some t := by cases t <;> rfl

end Tag

namespace MappingKind

/-- The class of a mapping of this kind. -/
def className : MappingKind → ClassName
  | .dict => .dict
  | .ordered => .orderedDict
  | .proxy => .mappingProxy
  | .env => .env
  | .bag => .bag

def classes : MappingKind → List ClassName
  | .dict => [.dict, .mapping, .iterable]
  | .ordered => [.dict, .orderedDict, .mapping, .iterable]
  | .proxy => [.mappingProxy, .mapping, .iterable]
  | .env => [.mapping, .iterable, .env]
  | .bag => [.dict, .mapping, .iterable, .bag]

end MappingKind

namespace Species

def className : Species → ClassName
  | .animal => .animal
  | .dog => .dog
  | .caller => .caller
  | .looper => .looper
  | .hollow => .hollow
  | .mute => .mute

def classes : Species → List ClassName
  | .animal => [.animal]
  | .dog => [.animal, .dog]
  | .caller => [.callable, .animal, .caller]
  | .looper => [.iterable, .animal, .looper]
  | .hollow => [.animal, .hollow]
  | .mute => [.animal, .mute]

end Species

/-- The classes that a class is itself an instance of. -/
def ClassName.classes : ClassName → List ClassName
  | .lenient => [.type, .callable, .metaType]
  | .convention => [.type, .iterable, .callable]
  | _ => [.type, .callable]

namespace Value

/-- The name of the class of a value, as messages show it. -/
def typeName : Value → String
  | .null => "NoneType"
  | .undefined => "_Undefined"
  | .bool _ => "bool"
  | .int _ => "int"
  | .count _ => "Count"
  | .float _ _ => "float"
  | .complex _ _ => "complex"
  | .decimal _ _ => "Decimal"
  | .fraction _ => "Fraction"
  | .str _ => "str"
  | .text _ => "Text"
  | .bytes _ => "bytes"
  | .bytearray _ => "bytearray"
  | .list _ => "list"
  | .stack _ => "Stack"
  | .tuple _ => "tuple"
  | .point _ _ => "Point"
  | .set _ => "set"
  | .frozenset _ => "frozenset"
  | .range _ _ _ => "range"
  | .generator _ _ _ => "generator"
  | .mapping kind _ => kind.className.name
  | .datetime _ => "datetime"
  | .date _ => "date"
  | .cls c => c.metaName
  | .builtin _ => "builtin_function_or_method"
  | .function _ _ => "function"
  | .creature _ species _ => species.className.name
  | .convention _ => "Convention"

/-- The name of the class of a value where an operation on the value itself is refused. -/
def fullTypeName : Value → String
  | .decimal _ _ => ClassName.decimal.fullName
  | .datetime _ => ClassName.datetime.fullName
  | .date _ => ClassName.date.fullName
  | .mapping kind _ => kind.className.fullName
  | v => v.typeName

/-- The classes that a value is an instance of, besides `object`. -/
def classes : Value → List ClassName
  | .null => [.noneType]
  | .undefined => []
  | .bool _ => [.int, .bool, .number, .real, .integral, .lenient]
  | .int _ => [.int, .number, .real, .integral, .lenient]
  | .count _ => [.int, .number, .real, .integral, .lenient, .count]
  | .float _ _ => [.float, .number, .real]
  | .complex _ _ => [.complex, .number]
  | .decimal _ _ => [.decimal, .number]
  | .fraction _ => [.fraction, .number, .real]
  | .str _ => [.str, .sequence, .iterable, .lenient]
  | .text _ => [.str, .sequence, .iterable, .lenient, .text]
  | .bytes _ => [.bytes, .sequence, .iterable]
  | .bytearray _ => [.bytearray, .sequence, .iterable]
  | .list _ => [.list, .sequence, .iterable]
  | .stack _ => [.list, .sequence, .iterable, .stack]
  | .tuple _ => [.tuple, .sequence, .iterable]
  | .point _ _ => [.tuple, .sequence, .iterable, .point]
  | .set _ => [.set, .iterable]
  | .frozenset _ => [.frozenset, .iterable]
  | .range _ _ _ => [.range, .sequence, .iterable]
  | .generator _ _ _ => [.generator, .iterable]
  | .mapping kind _ => kind.classes
  | .datetime _ => [.datetime, .date]
  | .date _ => [.date]
  | .cls c => c.classes
  | .builtin _ => [.callable]
  | .function _ _ => [.function, .callable]
  | .creature _ species _ => species.classes
  | .convention _ => [.convention]

def isInstance (v : Value) (c : ClassName) : Bool :=
  c = .object || v.classes.contains c

/-- The entries of a mapping of any kind. -/
def entries? : Value → Option (List (Value × Value))
  | .mapping _ entries => some entries
  | _ => none

def isMapping (v : Value) : Bool := v.isInstance .mapping

theorem isMapping_eq (v : Value) : v.isMapping = v.entries?.isSome := by
  cases v with
  | mapping kind _ => cases kind <;> rfl
  | cls c => cases c <;> rfl
  | creature _ species _ => cases species <;> rfl
  | _ => rfl

/-- The content of a text of either class. -/
def text? : Value → Option String
  | .str s | .text s => some s
  | _ => none

/-- Arrays are the lists and the tuples, of any class. -/
def isArray (v : Value) : Bool := v.isInstance .list || v.isInstance .tuple

/-- The tag under which a value is counted. Arrays count as objects, and nothing counts as `any`. -/
def tag (v : Value) : Tag :=
  if v.isInstance .bool then .boolean
  else if v.isInstance .number then .number
  else if v.isInstance .str then .string
  else if v.isInstance .callable then .function
  else .object

end Value

end CallContract
