import Drawscript.Proofs.Exec.Plan
import Drawscript.Proofs.Store.Methods
import Drawscript.Proofs.Store.Scopes

/-!
# Typed stores

A variable never holds a text, an array has between one and `maxArraySize` elements, all of its own
kind, and no two methods have the same name. A store with these properties is `Typed`. Each
operation on the store keeps it so; for the operations that put something in, the condition on what
is put in is stated with the lemma.
-/

set_option autoImplicit false

namespace Drawscript

/-! ## Arrays -/

/-- The value can be an element of an array of the kind. -/
def ElementKind.admits : ElementKind → Value → Bool
  | int, .int _ => true
  | real, .real _ => true
  | _, _ => false

namespace ElementKind

theorem admits_zero (kind : ElementKind) : kind.admits kind.zero = true := by
  cases kind <;> rfl

/-- What an array accepts, perhaps converted, is of its kind. -/
theorem admits_of_coerce? {kind : ElementKind} {value element : Value}
    (h : kind.coerce? value = some element) : kind.admits element = true := by
  obtain ⟨x, -, rfl⟩ := Option.map_eq_some_iff.1 h
  cases kind <;> rfl

/-- No array holds texts. -/
theorem isNumber_of_admits {kind : ElementKind} {value : Value} (h : kind.admits value = true) :
    value.isNumber = true := by
  cases value with
  | int n => rfl
  | real x => rfl
  | text s => cases kind <;> cases h

end ElementKind

namespace Cells

/-- The number of elements is in the range for arrays, and they are all of the kind of the array. -/
structure Typed (cells : Cells) : Prop where
  nonempty : 1 ≤ cells.size
  bounded : cells.size ≤ maxArraySize
  values : ∀ value ∈ cells.values, cells.kind.admits value = true

/-- An array that was declared is neither empty nor too large, and all in it is of its kind. -/
theorem typed_of_declared {kind : String} {count : Int64} {cells : Cells}
    (h : declared kind count = .ok cells) : cells.Typed := by
  unfold declared at h
  cases hkind : ElementKind.ofName? kind with
  | none =>
    rw [hkind] at h
    cases h
  | some kind' =>
    rw [hkind] at h
    simp only at h
    by_cases hpositive : count.toInt ≤ 0
    · rw [if_pos hpositive] at h
      cases h
    by_cases hlarge : (maxArraySize : Int) < count.toInt
    · rw [if_neg hpositive, if_pos hlarge] at h
      cases h
    rw [if_neg hpositive, if_neg hlarge] at h
    cases h
    have hsize : (zeros kind' count.toInt.toNat).size = count.toInt.toNat := Array.size_replicate
    refine ⟨?_, ?_, fun value hvalue => ?_⟩
    · omega
    · omega
    · rw [Array.eq_of_mem_replicate hvalue]
      exact kind'.admits_zero

theorem Typed.set {cells : Cells} (h : cells.Typed) (position : Nat) {element : Value}
    (helement : cells.kind.admits element = true) : (cells.set position element).Typed := by
  have hsize : (cells.set position element).size = cells.size := Array.size_setIfInBounds
  refine ⟨hsize ▸ h.nonempty, hsize ▸ h.bounded, fun value hvalue => ?_⟩
  rcases Array.mem_or_eq_of_mem_setIfInBounds hvalue with hold | rfl
  · exact h.values value hold
  · exact helement

/-- What is read from an array is a number, wherever it is read. -/
theorem Typed.isNumber_getD {cells : Cells} (h : cells.Typed) (position : Nat) :
    (cells.values.getD position cells.kind.zero).isNumber = true := by
  have hadmits : cells.kind.admits (cells.values.getD position cells.kind.zero) = true := by
    rw [Array.getD_eq_getD_getElem?]
    cases hvalue : cells.values[position]? with
    | none => exact cells.kind.admits_zero
    | some value => exact h.values value (Array.mem_of_getElem? hvalue)
  exact ElementKind.isNumber_of_admits hadmits

end Cells

/-! ## The store -/

/-- All variables of a scope are numbers. -/
def Scope.Numeric (scope : Scope) : Prop :=
  Table.All (fun _ value => value.isNumber = true) scope

namespace Store

/-- In no scope does a variable hold a text, the arrays are within their bounds and of one kind
each, and the names of the methods are distinct. -/
structure Typed (store : Store) : Prop where
  scopes : store.scopes.All Scope.Numeric
  arrays : store.arrays.All fun _ cells => cells.Typed
  methods : (store.methods.map Method.name).Nodup

theorem typed_empty (mode : ScopeMode) : (empty mode).Typed where
  scopes := List.forall_mem_singleton.2 Table.all_empty
  arrays := Table.all_empty
  methods := List.nodup_nil

/-- An element is located in the array that has the name. -/
theorem get?_of_locate {store : Store} {name : String} {index : Int64} {cells : Cells}
    {position : Nat} (h : store.locate name index = .ok (cells, position)) :
    store.arrays.get? name = some cells := by
  rw [locate] at h
  cases hcells : store.arrays.get? name with
  | none =>
    rw [hcells] at h
    cases h
  | some cells' =>
    rw [hcells] at h
    cases hposition : cells'.position? index with
    | none =>
      simp only [hposition] at h
      cases h
    | some position' =>
      simp only [hposition] at h
      cases h
      rfl

/-- The array that an element is stored in is there, and the element is of its kind. -/
theorem admits_of_element {store : Store} {name : String} {index : Int64} {value element : Value}
    {position : Nat} (h : store.element name index value = .ok (position, element)) :
    ∃ cells, store.arrays.get? name = some cells ∧ cells.kind.admits element = true := by
  rw [Store.element] at h
  cases hlocate : store.locate name index with
  | error cause =>
    rw [hlocate] at h
    cases h
  | ok found =>
    obtain ⟨cells, position'⟩ := found
    rw [hlocate] at h
    cases helement : cells.kind.coerce? value with
    | none =>
      simp only [helement] at h
      cases h
    | some element' =>
      simp only [helement] at h
      cases h
      exact ⟨cells, get?_of_locate hlocate, ElementKind.admits_of_coerce? helement⟩

namespace Typed

variable {store : Store}

/-- Elements of arrays are numbers. -/
theorem isNumber_of_peek (h : store.Typed) {name : String} {index : Int64} {value : Value}
    (hpeek : store.peek name index = .ok value) : value.isNumber = true := by
  rw [Store.peek] at hpeek
  cases hlocate : store.locate name index with
  | error cause =>
    rw [hlocate] at hpeek
    cases hpeek
  | ok found =>
    obtain ⟨cells, position⟩ := found
    rw [hlocate] at hpeek
    cases hpeek
    have hcells : cells.Typed := h.arrays.get? (get?_of_locate hlocate)
    exact hcells.isNumber_getD position

/-- A variable may be given any number. -/
theorem set (h : store.Typed) (name : String) {value : Value} (hvalue : value.isNumber = true) :
    (store.set name value).Typed where
  scopes := h.scopes.activate (Table.All.insert h.scopes.active hvalue)
  arrays := h.arrays
  methods := h.methods

theorem remove (h : store.Typed) (name : String) : (store.remove name).Typed where
  scopes := h.scopes.activate (Table.All.erase h.scopes.active name)
  arrays := h.arrays
  methods := h.methods

/-- A call may be entered with any numbers for its parameters. -/
theorem enter (h : store.Typed) {scope : Scope} (hscope : scope.Numeric) :
    (store.enter scope).Typed where
  scopes := h.scopes.enter hscope
  arrays := h.arrays
  methods := h.methods

theorem leave (h : store.Typed) : store.leave.2.Typed where
  scopes := h.scopes.leave
  arrays := h.arrays
  methods := h.methods

/-- What a call returns from the scope that is left is a number. -/
theorem isNumber_left (h : store.Typed) (name : String) :
    ((store.leave.1.bind fun scope => scope.get? name).getD (.int 0)).isNumber = true := by
  cases hvalue : store.leave.1.bind fun scope => scope.get? name with
  | none => rfl
  | some value =>
    obtain ⟨scope, hleft, hget⟩ := Option.bind_eq_some_iff.1 hvalue
    have hscope : scope.Numeric := h.scopes.left hleft
    exact Table.All.get? hscope hget

/-- Registering a method replaces the one of the same name, so that the names stay distinct. -/
theorem register (h : store.Typed) (method : Method) : (store.register method).Typed where
  scopes := h.scopes
  arrays := h.arrays
  methods := Methods.nodup_register h.methods method

theorem setArrays (h : store.Typed) {arrays : Table Cells}
    (harrays : arrays.All fun _ cells => cells.Typed) :
    Typed { store with arrays := arrays } where
  scopes := h.scopes
  arrays := harrays
  methods := h.methods

end Typed

end Store

end Drawscript
