import Stencil.Builtin.Data
import Stencil.Scope

/-!
# Operations

An operation is what a name in a template calls. Most operations are methods, which are given
evaluated arguments. The others are given their arguments as they are written and decide what is
evaluated, and when: conditions, loops, blocks with a context of their own, calls and definitions of
templates, upward reads, and reads of the place in a loop.

## Main definitions

* `Operation`: the operations.
* `Operations.builtin`: the names that every engine starts with.
-/

namespace Stencil

/-- The operations that evaluate their positional arguments one after the other, as far as they
need. -/
inductive Form where
  /-- Joins the texts of all arguments. -/
  | concat
  /-- The argument after the first truthy condition, or the last argument when it has none. -/
  | choose
  /-- The second argument when the first is not truthy, and the third otherwise. -/
  | unless
  /-- The first argument that is not `null`. -/
  | default
  /-- The first argument that is not truthy, or the last one. -/
  | all
  /-- The first argument that is truthy, or the last one. -/
  | any
  deriving DecidableEq, Repr

/-- The two kinds of loops. -/
inductive LoopKind where
  /-- Runs over whatever has items. -/
  | each
  /-- Runs over sequences, and takes any other truthy value as a context or a condition. -/
  | section
  deriving DecidableEq, Repr

/-- The name of a kind of loops in messages. -/
def LoopKind.name : LoopKind → String
  | .each => "each"
  | .section => "section"

/-- What can be read of the place in a loop. -/
inductive PositionRead where
  | index
  | first
  | last
  deriving DecidableEq, Repr

/-- Reads the place in a loop; outside of loops there is nothing to read. -/
def PositionRead.read (r : PositionRead) : Option Position → Value
  | none => .null
  | some p =>
    match r with
    | .index => p.index
    | .first => .bool p.isFirst
    | .last => .bool p.isLast

/-- What a name in a template calls. -/
inductive Operation where
  | form (form : Form)
  | loop (kind : LoopKind)
  /-- Evaluates its body in a context of its own. -/
  | context
  /-- Calls a template by its name. -/
  | template
  /-- Gives its body a name, unless the name is taken. -/
  | define
  /-- Reads an upward path. -/
  | lookup
  | position (read : PositionRead)
  | method (method : Method)

namespace Operation

/-- Whether the operation never has to be awaited when its arguments do not. -/
def isSync : Operation → Bool
  | .method m => !m.isAsync
  | .template => false
  | _ => true

/-- Whether the operation can be tried without awaiting it. -/
def supportsSync : Operation → Bool
  | .method m => !m.isAsync
  | _ => true

/-- Whether the operation may read the frames around it. -/
def capturesScope : Operation → Bool
  | .lookup | .template => true
  | _ => false

end Operation

/-- The operations that an engine knows, by name. -/
abbrev Operations := Keyed Operation

namespace Operations

/-- The operation of a name. -/
def get (operations : Operations) (name : String) : Except Error Operation :=
  match Keyed.find? name operations with
  | some operation => .ok operation
  | none => .error (.unknownOperation name)

/-- An operation is got exactly when it is found. -/
theorem get_eq_ok {operations : Operations} {name : String} {op : Operation} :
    operations.get name = .ok op ↔ Keyed.find? name operations = some op := by
  unfold get
  cases Keyed.find? name operations <;> simp

/-- An operation that is not found is unknown. -/
theorem get_of_find?_none {operations : Operations} {name : String}
    (h : Keyed.find? name operations = none) :
    operations.get name = .error (.unknownOperation name) := by
  rw [get, h]

/-- A deterministic method that never fails, under each of its names. -/
def pure (names : List String) (f : Arguments → Value) : Operations :=
  names.map fun name =>
    (name, .method { name, deterministic := true, run := fun args => .ok (f args) })

/-- A deterministic method that may fail. -/
def partialMethod (name : String) (run : Arguments → Answer) : Operations :=
  [(name, .method { name, deterministic := true, run })]

/-- The operations that decide what is evaluated. -/
def control : Operations :=
  [("cat", .form .concat), ("if", .form .choose), ("unless", .form .unless),
   ("default", .form .default), ("and", .form .all), ("or", .form .any),
   ("each", .loop .each), ("section", .loop .section), ("with", .context),
   ("partial", .template), ("inline", .define), ("rvar", .lookup),
   ("@index", .position .index), ("@key", .position .index), ("@first", .position .first),
   ("@last", .position .last)]

/-- The methods on texts and containers. -/
def data : Operations :=
  pure ["escape"] Builtin.escape ++
  pure ["min"] (Builtin.extreme .lt) ++
  pure ["max"] (Builtin.extreme .gt) ++
  partialMethod "lowercase" Builtin.lowercase ++
  partialMethod "uppercase" Builtin.uppercase ++
  pure ["json"] Builtin.dataText ++
  partialMethod "truncate" Builtin.truncate ++
  pure ["arr", "array"] Builtin.sequence ++
  pure ["obj", "object"] Builtin.record ++
  pure ["merge"] Builtin.merge ++
  pure ["get", "lookup"] Builtin.get ++
  pure ["match"] Builtin.choose ++
  pure ["not", "!"] Builtin.negate ++
  pure ["isArray"] Builtin.isSequence ++
  pure ["type"] Builtin.kind ++
  [("log", .method { name := "log", run := Builtin.log })]

/-- The methods of arithmetic and comparison. -/
def arithmetic : Operations :=
  pure ["lt", "<"] (Builtin.ordered (· == .lt)) ++
  pure ["lte", "<="] (Builtin.ordered (· != .gt)) ++
  pure ["gt", ">"] (Builtin.ordered (· == .gt)) ++
  pure ["gte", ">="] (Builtin.ordered (· != .lt)) ++
  pure ["eq", "=="] Builtin.equal ++
  pure ["ne", "!="] Builtin.notEqual ++
  pure ["add", "+"] Builtin.add ++
  pure ["subtract", "-"] Builtin.subtract ++
  pure ["multiply", "*"] Builtin.multiply ++
  pure ["divide", "/"] Builtin.divide ++
  pure ["mod", "%"] Builtin.modulo

/-- The operations that every engine starts with. -/
def builtin : Operations :=
  control ++ data ++ arithmetic

/-! ### Properties of methods -/

/-- Every method among the operations has a property. -/
def Methods (P : Method → Prop) (operations : Operations) : Prop :=
  ∀ entry ∈ operations, ∀ m, entry.2 = .method m → P m

variable {P : Method → Prop} {operations more : Operations}

/-- Families of methods after each other are one family. -/
theorem Methods.append (h : operations.Methods P) (hmore : more.Methods P) :
    (operations ++ more).Methods P :=
  List.forall_mem_append.mpr ⟨h, hmore⟩

/-- Under each of its names a method is the same but for its name. -/
theorem methods_pure {f : Arguments → Value}
    (h : ∀ name, P { name, deterministic := true, run := fun args => .ok (f args) })
    (names : List String) : (pure names f).Methods P := by
  intro entry hentry m hm
  obtain ⟨name, -, rfl⟩ := List.mem_map.mp hentry
  cases hm
  exact h name

/-- A family of one method. -/
theorem methods_singleton {name : String} {m : Method} (h : P m) :
    Methods P [(name, .method m)] := by
  intro entry hentry m' hm
  obtain rfl := List.mem_singleton.mp hentry
  cases hm
  exact h

/-- The operations that decide what is evaluated are no methods. -/
theorem methods_control : control.Methods P := by
  have hnone : ∀ entry ∈ control, ∀ m, entry.2 ≠ .method m := by simp [control]
  exact fun entry hentry m hm => absurd hm (hnone entry hentry m)

end Operations

end Stencil
