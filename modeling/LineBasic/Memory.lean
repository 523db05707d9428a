import Std.Data.ExtTreeMap
import LineBasic.Value.Basic

/-!
# Memory

The memory holds variables by name. A variable has a kind, which follows from
its name, and a fixed number of slots, each with or without a value. A variable
with one slot springs into existence when its slot 0 is written; all others are
made by `Memory.dim`.

* `Memory.read`, `Memory.write`: the slots of variables.
* `Memory.dim`, `Memory.storeLines`: new variables.

There is as much memory as is asked for, but no block of it is larger than can
be addressed. A variable whose slots would not fit in one block ends the
process.
-/

namespace LineBasic

/-- The kinds of variables. -/
inductive VariableKind where
  | numeric
  | text
  deriving DecidableEq, Repr

namespace VariableKind

/-- What messages call a kind of variables. -/
def label : VariableKind → String
  | numeric => "NUMERIC"
  | text => "STRING"

/-- A variable whose name ends in `$` holds texts, any other one numbers. -/
def ofName (name : String) : VariableKind :=
  if name.toList.getLast? = some '$' then text else numeric

/-- Whether a variable of the kind can hold the value. -/
def accepts : VariableKind → Value → Bool
  | numeric, v => v.isNumeric
  | text, v => !v.isNumeric

end VariableKind

/-- A variable. -/
structure Variable where
  name : String
  kind : VariableKind
  slots : Array (Option Value)
  deriving Repr

namespace Variable

/-- A variable without values. -/
def blank (name : String) (kind : VariableKind) (size : Nat) : Variable :=
  ⟨name, kind, Array.replicate size none⟩

/-- The most slots that a variable can have. A slot takes 24 bytes, and a block
of memory has at most 9223372036854775807 of them. -/
def largest : Nat := 9223372036854775807 / 24

/-- The number of slots. -/
def size (v : Variable) : Nat := v.slots.size

/-- The slot that an index means. -/
def slot (v : Variable) (index : Int64) : Except Error (Fin v.slots.size) :=
  if h : 0 ≤ index.toInt ∧ index.toInt.toNat < v.slots.size then .ok ⟨index.toInt.toNat, h.2⟩
  else .error (.subscript v.name index v.size)

/-- The variable, which must be of the kind. -/
def ofKind (v : Variable) (kind : VariableKind) : Except Error Variable :=
  if v.kind = kind then .ok v else .error (.otherKind v.name kind.label)

/-- The value of a slot. -/
def read (v : Variable) (index : Int64) : Except Error Value :=
  match v.slot index with
  | .error e => .error e
  | .ok i =>
    match v.slots[i] with
    | some x => .ok x
    | none => .error (.unassignedVariable v.name)

/-- The variable with a new value in a slot. -/
def write (v : Variable) (index : Int64) (x : Value) : Except Error Variable :=
  match v.slot index with
  | .error e => .error e
  | .ok i =>
    if v.kind.accepts x then .ok { v with slots := v.slots.set i (some x) i.isLt }
    else .error (.valueRefused v.name x.kind.label)

end Variable

/-- The variables of a program. -/
structure Memory where
  entries : Std.ExtTreeMap String Variable := ∅

namespace Memory

/-- The memory without variables. -/
def empty : Memory := {}

/-- The largest number of variables that still leaves room for a new one. -/
def capacity : Nat := 65535

/-- The number of variables. -/
def count (m : Memory) : Nat := m.entries.size

/-- The variable of a name, if there is one. -/
def find? (m : Memory) (name : String) : Option Variable := m.entries[name]?

/-- The variable of a name. -/
def find (m : Memory) (name : String) : Except Error Variable :=
  match m.find? name with
  | some v => .ok v
  | none => .error (.undefinedVariable name)

/-- The memory with a variable, in place of any other one of its name. -/
def put (m : Memory) (v : Variable) : Memory := ⟨m.entries.insert v.name v⟩

/-- Why no variable can be made, if so. The kind must be that of the name. -/
def refusal? (m : Memory) (name : String) (size : Int64) (kind : VariableKind) : Option Error :=
  if VariableKind.ofName name ≠ kind then some (.nameRefused name kind.label)
  else if size.toInt < 0 then some (.negativeSize name size)
  else if capacity < m.count then some .memoryFull
  else none

/-- Makes a variable without values, in place of any other one of its name. Its
slots are known to fit. -/
def make (m : Memory) (name : String) (size : Int64) (kind : VariableKind) : Except Error Memory :=
  match m.refusal? name size kind with
  | some e => .error e
  | none => .ok (m.put (.blank name kind size.toInt.toNat))

/-- Makes a variable of any size. The kind may be given. If nothing else is
wrong with a variable, its slots may still not fit in one block. -/
def dim (m : Memory) (name : String) (size : Int64) (kind : Option VariableKind) : Except Halt Memory :=
  let kind := kind.getD (.ofName name)
  match m.refusal? name size kind with
  | some e => .error (.failed e)
  | none =>
    if Variable.largest < size.toInt.toNat then .error .aborted
    else .ok (m.put (.blank name kind size.toInt.toNat))

/-- The memory with a variable of the name in it. If it is missing, it is made
with one slot, unless it must exist. -/
def provide (m : Memory) (name : String) (kind : VariableKind) (mustExist : Bool) : Except Error Memory :=
  if (m.find? name).isSome then .ok m
  else if mustExist then .error (.undefinedVariable name)
  else m.make name 1 kind

/-- The memory with the variable of a name in it, and that variable, which must
be of the kind. -/
def ensure (m : Memory) (name : String) (kind : VariableKind) (mustExist : Bool) :
    Except Error (Variable × Memory) := do
  let m ← m.provide name kind mustExist
  match m.find? name with
  | some v => return (← v.ofKind kind, m)
  | none => throw .variableVanished

/-- The value of a slot. -/
def read (m : Memory) (name : String) (index : Int64) : Except Error Value := do
  (← m.find name).read index

/-- The value of a slot of a variable of the kind. -/
def readKind (m : Memory) (kind : VariableKind) (name : String) (index : Int64) : Except Error Value := do
  (← (← m.find name).ofKind kind).read index

/-- The number of a slot. -/
def readNumber (m : Memory) : String → Int64 → Except Error Value := m.readKind .numeric

/-- The text of a slot. -/
def readText (m : Memory) (name : String) (index : Int64) : Except Error String := do
  (← m.readKind .text name index).toText

/-- Writes a slot of a variable that exists already. -/
def writeSlot (m : Memory) (v : Variable) (index : Int64) (x : Value) : Except Error Unit × Memory :=
  match v.write index x with
  | .ok v => (.ok (), m.put v)
  | .error e => (.error e, m)

/-- Writes a slot. Slot 0 of a missing variable makes it, and it stays even if
the value is refused. -/
def write (m : Memory) (kind : VariableKind) (name : String) (index : Int64) (x : Value) :
    Except Error Unit × Memory :=
  match m.ensure name kind (index ≠ 0) with
  | .ok (v, m) => m.writeSlot v index x
  | .error e => (.error e, m)

/-- Makes a variable that holds some texts. The list of the texts takes a block
as large as its slots do, so they fit. -/
def storeLines (m : Memory) (name : String) (texts : List String) : Except Error Memory := do
  let m ← m.make name (Int64.ofNat texts.length) .text
  return m.put ⟨name, .text, (texts.map fun s => some (.text s)).toArray⟩

end Memory

end LineBasic
