/-!
# Classes

The classes that a parameter can be declared with. A class is known by its name. The list is closed,
which is an idealisation: of the classes that programs add to those of the language it holds examples
only, most of which differ from one another in what their instances can do.
-/

namespace CallContract

inductive ClassName where
  | object | type
  | int | float | complex | str | bytes | bytearray | bool
  | list | tuple | dict | set | frozenset | range | noneType
  | datetime | date | decimal | fraction | orderedDict | mappingProxy | function | generator
  | mapping | sequence | iterable | callable | number | real | integral
  | convention | any
  | animal | dog | caller | looper | hollow | mute
  | metaType | lenient | text | count | stack | bag | point | env
deriving DecidableEq

namespace ClassName

def all : List ClassName :=
  [.object, .type, .int, .float, .complex, .str, .bytes, .bytearray, .bool, .list, .tuple, .dict,
    .set, .frozenset, .range, .noneType, .datetime, .date, .decimal, .fraction, .orderedDict,
    .mappingProxy, .function, .generator, .mapping, .sequence, .iterable, .callable, .number,
    .real, .integral, .convention, .any, .animal, .dog, .caller, .looper, .hollow, .mute,
    .metaType, .lenient, .text, .count, .stack, .bag, .point, .env]

theorem mem_all (c : ClassName) : c ∈ all := by cases c <;> decide

def name : ClassName → String
  | .object => "object" | .type => "type"
  | .int => "int" | .float => "float" | .complex => "complex" | .str => "str"
  | .bytes => "bytes" | .bytearray => "bytearray" | .bool => "bool"
  | .list => "list" | .tuple => "tuple" | .dict => "dict" | .set => "set"
  | .frozenset => "frozenset" | .range => "range" | .noneType => "NoneType"
  | .datetime => "datetime" | .date => "date" | .decimal => "Decimal" | .fraction => "Fraction"
  | .orderedDict => "OrderedDict" | .mappingProxy => "mappingproxy" | .function => "function"
  | .generator => "generator"
  | .mapping => "Mapping" | .sequence => "Sequence" | .iterable => "Iterable"
  | .callable => "Callable" | .number => "Number" | .real => "Real" | .integral => "Integral"
  | .convention => "Convention" | .any => "Any"
  | .animal => "Animal" | .dog => "Dog" | .caller => "Caller" | .looper => "Looper"
  | .hollow => "Hollow" | .mute => "Mute"
  | .metaType => "Meta" | .lenient => "Lenient" | .text => "Text" | .count => "Count"
  | .stack => "Stack" | .bag => "Bag" | .point => "Point" | .env => "Env"

def ofName? (s : String) : Option ClassName := all.find? fun c => c.name == s

/-- The path in front of the name where the class is shown in full. -/
def path : ClassName → String
  | .datetime | .date => "datetime."
  | .decimal => "decimal."
  | .fraction => "fractions."
  | .orderedDict => "collections."
  | .mapping | .sequence | .iterable | .callable => "collections.abc."
  | .number | .real | .integral => "numbers."
  | .any => "typing."
  | .animal | .dog | .caller | .looper | .hollow | .mute | .metaType | .lenient | .text | .count
  | .stack | .bag | .point | .env => "zoo."
  | _ => ""

/-- The name of the class where an operation on it or on an instance is refused. The dates, the
decimal and the ordered mapping are then named with their paths. -/
def fullName : ClassName → String
  | c@.datetime | c@.date | c@.decimal | c@.orderedDict => c.path ++ c.name
  | c => c.name

/-- The literal form of the class. -/
def literal : ClassName → String
  | .convention => "<enum 'Convention'>"
  | .any => "typing.Any"
  | c => "<class '" ++ c.path ++ c.name ++ "'>"

/-- The name of the class's own class. -/
def metaName : ClassName → String
  | .fraction | .mapping | .sequence | .iterable | .callable | .number | .real | .integral
  | .env => "ABCMeta"
  | .convention => "EnumType"
  | .any => "_AnyMeta"
  | .lenient => "Meta"
  | _ => "type"

end ClassName

end CallContract
