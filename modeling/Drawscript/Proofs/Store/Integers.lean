import Drawscript.Proofs.Number.Whole
import Drawscript.Proofs.Store.Memory

/-!
# Integers in arrays

A value that is stored in an array passes through a double, whatever the kind of the array. An
integer that is a double itself comes out of an array of integers as it went in, and so does the
largest integer, because a double that is too large is clamped. Every other integer is replaced by
the integer nearest to the double nearest to it (`Store.poke_int_eq_iff`). All integers up to
`2 ^ 53` are doubles, and the first one that is lost is the next one (`Store.poke_int_lost`).
-/

set_option autoImplicit false

namespace Drawscript.Store

open Number

section

variable {store : Store} {name : String} {cells : Cells} {index : Int64}
  (hcells : store.arrays.get? name = some cells)
  (hindex : 0 ≤ index.toInt ∧ index.toInt < cells.size)

include hcells hindex

/-- What a value becomes as an element is stored and found again. -/
theorem poke_peek {value element : Value} (helement : cells.kind.coerce? value = some element) :
    ∃ after, store.poke name index value = .ok (element, after) ∧
      after.peek name index = .ok element := by
  refine ⟨store.write name index.toInt.toNat element, ?_, ?_⟩
  · rw [poke, Store.element, locate, hcells]
    simp only [Cells.position?, if_pos hindex, helement]
  · have hafter : (store.write name index.toInt.toNat element).arrays.get? name =
        some (cells.set index.toInt.toNat element) := by
      rw [get?_write, if_pos rfl, hcells, Option.map_some]
    have hposition : index.toInt.toNat < cells.size := by omega
    rw [peek_of_cells hafter, Cells.size_set, if_pos hindex, Cells.getD_set_self hposition]

/-- **An integer that is stored in an array of integers is found again exactly if it is a double or
the largest integer.** In any case the array holds an integer, and the integers up to `2 ^ 53` are
never lost. -/
theorem poke_int_eq_iff (hkind : cells.kind = .int) (n : Int64) :
    ∃ stored after, store.poke name index (.int n) = .ok (.int stored, after) ∧
      after.peek name index = .ok (.int stored) ∧
      (stored = n ↔ IsDouble n.toInt ∨ n = Int64.maxValue) ∧
      (n.toInt.natAbs ≤ 2 ^ 53 → stored = n) := by
  have helement : cells.kind.coerce? (.int n) = some (.int (clampedEven (ofInt64 n))) := by
    rw [hkind]
    rfl
  obtain ⟨after, hpoke, hpeek⟩ := poke_peek hcells hindex helement
  have hback := clampedEven_ofInt64_iff n
  refine ⟨clampedEven (ofInt64 n), after, hpoke, hpeek, hback, ?_⟩
  intro hsmall
  exact hback.2 (Or.inl (isDouble_of_natAbs_le hsmall))

end

/-- A store with an array of one integer. -/
def oneInteger : Store :=
  (Store.empty .stack).apply (.declareArray "a" "int" 1)

theorem get?_oneInteger : oneInteger.arrays.get? "a" = some (Cells.zeros .int 1) := rfl

/-- The least integer is a double, and survives. -/
theorem poke_int_eq_iff_least :
    oneInteger.arrays.get? "a" = some (Cells.zeros .int 1) ∧
      (0 ≤ (0 : Int64).toInt ∧ (0 : Int64).toInt < (Cells.zeros .int 1).size) ∧
      (Cells.zeros .int 1).kind = .int ∧
      ∃ stored after, oneInteger.poke "a" 0 (.int Int64.minValue) = .ok (.int stored, after) ∧
        after.peek "a" 0 = .ok (.int stored) ∧
        (stored = Int64.minValue ↔
          IsDouble Int64.minValue.toInt ∨ Int64.minValue = Int64.maxValue) ∧
        (Int64.minValue.toInt.natAbs ≤ 2 ^ 53 → stored = Int64.minValue) :=
  ⟨rfl, by decide, rfl, poke_int_eq_iff get?_oneInteger (by decide) rfl Int64.minValue⟩

/-- The least positive integer that is not a double is lost: the array holds its neighbour. -/
theorem poke_int_lost :
    ∃ after, oneInteger.poke "a" 0 (.int 9007199254740993) = .ok (.int 9007199254740992, after) ∧
      after.peek "a" 0 = .ok (.int 9007199254740992) := by
  have hrounded : clampedEven (ofInt64 9007199254740993) = 9007199254740992 := by
    decide +kernel
  have helement : (Cells.zeros .int 1).kind.coerce? (.int 9007199254740993) =
      some (.int 9007199254740992) := by
    rw [← hrounded]
    rfl
  exact poke_peek get?_oneInteger (by decide) helement

end Drawscript.Store
