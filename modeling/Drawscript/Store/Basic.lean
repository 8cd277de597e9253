import Drawscript.Error
import Drawscript.Store.Methods
import Drawscript.Store.Scopes

/-!
# The store

All that a running program can change beside its drawing: variables, arrays and methods. Arrays have
a fixed size and one kind of elements and are the same in every scope.
-/

set_option autoImplicit false

namespace Drawscript

/-- The largest number of elements of an array. -/
def maxArraySize : Nat := 1048576

/-- The elements of an array. -/
structure Cells where
  kind : ElementKind
  values : Array Value

namespace Cells

/-- The number of elements. -/
def size (cells : Cells) : Nat :=
  cells.values.size

/-- Elements that are all zero. -/
def zeros (kind : ElementKind) (size : Nat) : Cells :=
  ⟨kind, Array.replicate size kind.zero⟩

/-- The position of the element with the given index. -/
def position? (cells : Cells) (index : Int64) : Option Nat :=
  if 0 ≤ index.toInt ∧ index.toInt < cells.size then some index.toInt.toNat else none

/-- The elements with one replaced. -/
def set (cells : Cells) (position : Nat) (value : Value) : Cells :=
  { cells with values := cells.values.setIfInBounds position value }

end Cells

/-- Variables, arrays and methods. -/
structure Store where
  scopes : Scopes
  arrays : Table Cells := {}
  methods : Methods := []

namespace Store

/-- A store without variables, arrays and methods. -/
def empty (mode : ScopeMode) : Store :=
  { scopes := { mode := mode } }

/-- Forget all variables, arrays and methods. -/
def reset (store : Store) : Store :=
  { scopes := store.scopes.reset }

/-- The active variables. -/
def scope (store : Store) : Scope :=
  store.scopes.active

/-- The value of a variable. -/
def get? (store : Store) (name : String) : Option Value :=
  store.scopes.get? name

/-- Give a variable a value. -/
def set (store : Store) (name : String) (value : Value) : Store :=
  { store with scopes := store.scopes.set name value }

/-- Forget a variable. -/
def remove (store : Store) (name : String) : Store :=
  { store with scopes := store.scopes.remove name }

/-- Make a scope the active one. -/
def enter (store : Store) (scope : Scope) : Store :=
  { store with scopes := store.scopes.enter scope }

/-- Leave the active scope. -/
def leave (store : Store) : Option Scope × Store :=
  match store.scopes.leave with
  | (left, scopes) => (left, { store with scopes := scopes })

/-- Declare an array, all zero. An array of the same name is lost. -/
def declareArray (store : Store) (name kind : String) (size : Int64) :
    Except ParseError (Cells × Store) :=
  match ElementKind.ofName? kind with
  | none => .error (.invalidKind kind)
  | some kind =>
    if size.toInt ≤ 0 then .error (.invalidSize size)
    else if (maxArraySize : Int) < size.toInt then .error (.arrayTooLarge size maxArraySize)
    else
      let cells := Cells.zeros kind size.toInt.toNat
      .ok (cells, { store with arrays := store.arrays.insert name cells })

/-- The array with the given name, with the position of the element with the given index. -/
def locate (store : Store) (name : String) (index : Int64) : Except Cause (Cells × Nat) :=
  match store.arrays.get? name with
  | none => .error (.resolution (.unknownArray name))
  | some cells =>
    match cells.position? index with
    | none => .error (.bounds (.indexOutOfRange name index cells.size))
    | some position => .ok (cells, position)

/-- The position in an array at which a value is to be stored, and the element of its kind that the
value becomes. -/
def element (store : Store) (name : String) (index : Int64) (value : Value) :
    Except Cause (Nat × Value) :=
  match store.locate name index with
  | .error cause => .error cause
  | .ok (cells, position) =>
    match cells.kind.coerce? value with
    | none => .error (.evaluation (.notNumeric value.display))
    | some element => .ok (position, element)

/-- Put an element at a position of an array. -/
def write (store : Store) (name : String) (position : Nat) (element : Value) : Store :=
  { store with arrays := store.arrays.modify name (·.set position element) }

/-- Store a value in an array as an element of its kind, and give the element. -/
def poke (store : Store) (name : String) (index : Int64) (value : Value) :
    Except Cause (Value × Store) :=
  match store.element name index value with
  | .error cause => .error cause
  | .ok (position, element) => .ok (element, store.write name position element)

/-- The element of an array with the given index. -/
def peek (store : Store) (name : String) (index : Int64) : Except Cause Value :=
  match store.locate name index with
  | .error cause => .error cause
  | .ok (cells, position) => .ok (cells.values.getD position cells.kind.zero)

/-- Register a method. -/
def register (store : Store) (method : Method) : Store :=
  { store with methods := store.methods.register method }

/-- The method that a call by the given name runs. -/
def method? (store : Store) (name : String) : Option Method :=
  store.methods.find? name

end Store

end Drawscript
