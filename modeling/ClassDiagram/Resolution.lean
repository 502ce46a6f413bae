import ClassDiagram.TypeTable

/-!
# Resolution of types

A type reference is *resolved* to the user-defined types it leads to and to the way
it holds them. Containers are looked through: `List<Room>` holds many rooms,
`Optional<Room>` at most one, and a map whatever stands on its two sides. A type that
leads to no user-defined type is foreign.

`Scope.resolve` is the plain definition, by recursion on the type and without any
state. It fails only in a strict scope, with the leftmost name that is neither known
nor foreign.
-/

namespace ClassDiagram

open ClassDiagram.Dotted ClassDiagram.Text

/-- The outcome of resolving a type. -/
inductive Resolution where
  /-- A primitive or library type; it never gives rise to a relationship. -/
  | foreign
  | scalar (target : String)
  | optional (target : String)
  | list (target : String)
  | set (target : String)
  /-- The targets on each side. At least one side has a target. -/
  | map (key value : List String)
  deriving DecidableEq, Inhabited, Repr

namespace Resolution

/-- The word for the way a resolved type holds its targets; none if it is foreign. -/
def arity? : Resolution → Option String
  | .foreign => none
  | .scalar _ => some "scalar"
  | .optional _ => some "optional"
  | .list _ => some "list"
  | .set _ => some "set"
  | .map _ _ => some "map"

/-- Whether many targets are held. -/
def isCollection : Resolution → Bool
  | .list _ | .set _ | .map _ _ => true
  | _ => false

/-- The user-defined targets, those of a map's key before those of its value. -/
def targets : Resolution → List String
  | .foreign => []
  | .scalar t | .optional t | .list t | .set t => [t]
  | .map key value => key ++ value

/-- A map with the given targets on its sides; foreign if it has none at all. -/
def ofSides (key value : List String) : Resolution :=
  if key.isEmpty && value.isEmpty then .foreign else .map key value

end Resolution

/-- The containers that hold their element under a single target. -/
inductive Wrapper where
  | list
  | set
  | optional
  deriving DecidableEq, Inhabited, Repr

namespace Wrapper

/-- A container of this kind around one target. -/
def around : Wrapper → String → Resolution
  | .list, t => .list t
  | .set, t => .set t
  | .optional, t => .optional t

/-- A container of this kind around a resolved element. Foreign elements and maps show
through; a list or set shows through if the container is `transparent`. -/
def apply (w : Wrapper) (transparent : Bool) : Resolution → Resolution
  | .foreign => .foreign
  | .map key value => .map key value
  | .list t => if transparent then .list t else w.around t
  | .set t => if transparent then .set t else w.around t
  | .scalar t | .optional t => w.around t

end Wrapper

/-- What a type's name alone says about it. -/
inductive NameRole where
  /-- The name settles the type, whatever its arguments are. -/
  | leaf (outcome : Except String Resolution)
  /-- A map: it takes two arguments. -/
  | mapLike
  /-- A container of its last argument. -/
  | wrapper (w : Wrapper) (transparent : Bool)

/-- Names that stand for no class at all. -/
def primitiveTypes : List String :=
  ["byte", "short", "int", "long", "float", "double", "boolean", "char", "void", "var"]

/-- Library types that are foreign without any setting. -/
def builtinForeign : List String :=
  ["String", "Object", "Integer", "Long", "Short", "Byte", "Double", "Float", "Boolean",
   "Character", "Number", "Void", "CharSequence", "StringBuilder", "StringBuffer",
   "BigDecimal", "BigInteger", "Class", "Enum", "Record", "Throwable", "Exception",
   "RuntimeException", "Error", "Thread", "Runnable", "Callable", "Comparable", "Comparator",
   "Iterator", "Serializable", "Cloneable", "AutoCloseable", "Closeable", "Date", "Instant",
   "Duration", "LocalDate", "LocalTime", "LocalDateTime", "ZonedDateTime", "UUID", "Path",
   "File", "Pattern", "Stream", "Function", "BiFunction", "Supplier", "Consumer",
   "BiConsumer", "Predicate", "Future", "CompletableFuture", "Random", "Scanner", "Math",
   "System", "Objects", "Arrays", "Collections"]

/-- Library types that hold a list of elements. -/
def builtinLists : List String :=
  ["List", "ArrayList", "LinkedList", "Collection", "Iterable", "Queue", "Deque",
   "ArrayDeque", "PriorityQueue", "Stack", "Vector", "CopyOnWriteArrayList",
   "BlockingQueue", "LinkedBlockingQueue"]

/-- Library types that hold a set of elements. -/
def builtinSets : List String :=
  ["Set", "HashSet", "TreeSet", "LinkedHashSet", "SortedSet", "NavigableSet", "EnumSet",
   "CopyOnWriteArraySet"]

/-- Library types that map keys to values. -/
def builtinMaps : List String :=
  ["Map", "HashMap", "TreeMap", "LinkedHashMap", "SortedMap", "NavigableMap",
   "ConcurrentMap", "ConcurrentHashMap", "Hashtable", "EnumMap", "WeakHashMap",
   "IdentityHashMap"]

/-- Library types that hold at most one element. -/
def builtinOptionals : List String :=
  ["Optional"]

/-- Everything that decides how a type is resolved. -/
structure Scope where
  table : TypeTable
  settings : ResolverSettings

namespace Scope

/-- Whether the simple name `simple` is a map. -/
def isMap (s : Scope) (simple : String) : Bool :=
  builtinMaps.contains simple || s.settings.mapTypes.contains simple

/-- Whether the simple name `simple` is a list. -/
def isList (s : Scope) (simple : String) : Bool :=
  builtinLists.contains simple || s.settings.listTypes.contains simple

/-- Whether the simple name `simple` is a set. -/
def isSet (s : Scope) (simple : String) : Bool :=
  builtinSets.contains simple || s.settings.setTypes.contains simple

/-- Whether the simple name `simple` is an optional. -/
def isOptional (s : Scope) (simple : String) : Bool :=
  builtinOptionals.contains simple || s.settings.optionalTypes.contains simple

/-- Whether the simple name `simple` is a container of any kind. -/
def isContainer (s : Scope) (simple : String) : Bool :=
  s.isList simple || s.isSet simple || s.isMap simple || s.isOptional simple

/-- Whether a name taken by itself is foreign: listed, imported from a foreign package,
under a foreign beginning, or a type parameter, which is a single ASCII capital. -/
def isForeignName (s : Scope) (name : String) : Bool :=
  builtinForeign.contains name || s.settings.foreignTypes.contains name
    || s.table.isForeignImport name
    || s.settings.foreignPrefixes.any (beginsWith name)
    || (match name.toList with | [c] => c.isUpper | _ => false)

/-- Whether a name is foreign: by itself, or nested in an outermost type that is foreign
or a container. -/
def isForeign (s : Scope) (name : String) : Bool :=
  (match outermost? name with
    | some outer => s.isContainer outer || s.isForeignName outer
    | none => false)
  || s.isForeignName name

/-- What is made of a name that nothing is known about. -/
def unknownOutcome (s : Scope) (name : String) : Except String Resolution :=
  if s.settings.strict then .error name
  else match s.settings.unknownTypes with
    | .foreign => .ok .foreign
    | .external => .ok (.scalar name)

/-- What a type's name says. Primitive names come first, then the names of the table;
containers are known by their simple names, maps before lists, sets and optionals. -/
def role (s : Scope) (name : String) : NameRole :=
  let simple := simpleName name
  if primitiveTypes.contains name then .leaf (.ok .foreign)
  else match s.table.lookup name with
    | some known => .leaf (.ok (.scalar known))
    | none =>
      if s.isMap simple then .mapLike
      else if s.isList simple then .wrapper .list (s.isOptional simple)
      else if s.isSet simple then .wrapper .set (s.isOptional simple)
      else if s.isOptional simple then .wrapper .optional true
      else if s.isForeign name then .leaf (.ok .foreign)
      else .leaf (s.unknownOutcome name)

mutual

/-- The resolution of a type, or the name that cannot be resolved. -/
def resolve (s : Scope) : TypeRef → Except String Resolution
  | .array element => (s.resolve element).map (Wrapper.list.apply false)
  | .named name args =>
    match s.role name with
    | .leaf outcome => outcome
    | .mapLike => s.resolveSides args
    | .wrapper w transparent => s.resolveElement w transparent args

/-- The resolution of a map over its arguments; foreign unless there are two. -/
def resolveSides (s : Scope) : List TypeRef → Except String Resolution
  | [key, value] =>
    match s.resolve key with
    | .error name => .error name
    | .ok k =>
      match s.resolve value with
      | .error name => .error name
      | .ok v => .ok (.ofSides k.targets v.targets)
  | _ => .ok .foreign

/-- The resolution of a container over its last argument; foreign if there is none. -/
def resolveElement (s : Scope) (w : Wrapper) (transparent : Bool) :
    List TypeRef → Except String Resolution
  | [] => .ok .foreign
  | [element] => (s.resolve element).map (w.apply transparent)
  | _ :: next :: rest => s.resolveElement w transparent (next :: rest)

end

end Scope

end ClassDiagram
