import Drawscript.Table
import Mathlib.Tactic

/-!
# Looking up entries

What the operations on a table do to `get?`, and what they keep true of all entries (`Table.All`).
-/

set_option autoImplicit false

namespace Drawscript.Table

variable {α : Type}

theorem lookup_cons (name : String) (entry : α) (rest : List (String × α)) (key : String) :
    ((name, entry) :: rest).lookup key = if key = name then some entry else rest.lookup key := by
  rw [List.lookup_cons]
  by_cases hkey : key = name
  · subst hkey
    rw [beq_self_eq_true, if_pos rfl]
  · rw [beq_false_of_ne hkey, if_neg hkey]

theorem lookup_insertEntry (name : String) (entry : α) (entries : List (String × α))
    (key : String) :
    (insertEntry name entry entries).lookup key =
      if key = name then some entry else entries.lookup key := by
  induction entries with
  | nil => exact lookup_cons name entry [] key
  | cons pair rest ih =>
    obtain ⟨other, old⟩ := pair
    by_cases hother : other = name
    · subst hother
      rw [insertEntry, if_pos rfl, lookup_cons, lookup_cons]
      by_cases hkey : key = other
      · rw [if_pos hkey, if_pos hkey]
      · rw [if_neg hkey, if_neg hkey, if_neg hkey]
    · rw [insertEntry, if_neg hother, lookup_cons, lookup_cons, ih]
      by_cases hkey : key = other
      · rw [if_pos hkey, if_pos hkey, if_neg (hkey ▸ hother)]
      · rw [if_neg hkey, if_neg hkey]

/-- What is under each name after an insertion. The two cases below follow from it. -/
theorem get?_insert (table : Table α) (name : String) (entry : α) (key : String) :
    (table.insert name entry).get? key = if key = name then some entry else table.get? key :=
  lookup_insertEntry name entry table.entries key

theorem get?_insert_self (table : Table α) (name : String) (entry : α) :
    (table.insert name entry).get? name = some entry := by
  rw [get?_insert, if_pos rfl]

theorem get?_insert_of_ne (table : Table α) {name key : String} (entry : α) (h : key ≠ name) :
    (table.insert name entry).get? key = table.get? key := by
  rw [get?_insert, if_neg h]

/-- A name that was erased has no entry left, since the first and all later entries go. -/
theorem get?_erase_self (table : Table α) (name : String) :
    (table.erase name).get? name = none := by
  rw [get?, List.lookup_eq_none_iff]
  intro pair hpair
  obtain ⟨-, hne⟩ := List.mem_filter.1 hpair
  rw [bne_iff_ne] at hne
  exact bne_iff_ne.2 hne.symm

theorem lookup_modifyEntry (name : String) (change : α → α) (entries : List (String × α))
    (key : String) :
    (modifyEntry name change entries).lookup key =
      if key = name then (entries.lookup name).map change else entries.lookup key := by
  induction entries with
  | nil => exact (ite_self none).symm
  | cons pair rest ih =>
    obtain ⟨other, old⟩ := pair
    rw [modifyEntry]
    by_cases hother : other = name
    · subst hother
      rw [if_pos rfl, lookup_cons, lookup_cons, lookup_cons, if_pos rfl]
      by_cases hkey : key = other
      · rw [if_pos hkey, if_pos hkey, Option.map_some]
      · rw [if_neg hkey, if_neg hkey, if_neg hkey]
    · rw [if_neg hother, lookup_cons, lookup_cons, lookup_cons, ih, if_neg (Ne.symm hother)]
      by_cases hkey : key = other
      · rw [if_pos hkey, if_pos hkey, if_neg (hkey ▸ hother)]
      · rw [if_neg hkey, if_neg hkey]

/-- A change reaches the entry under its name, if there is one, and no other. -/
theorem get?_modify (table : Table α) (name : String) (change : α → α) (key : String) :
    (table.modify name change).get? key =
      if key = name then (table.get? name).map change else table.get? key :=
  lookup_modifyEntry name change table.entries key

/-- What is found in a table is one of its entries. -/
theorem mem_of_get? {table : Table α} {name : String} {entry : α}
    (h : table.get? name = some entry) : (name, entry) ∈ table.entries := by
  obtain ⟨before, after, hentries, -⟩ := List.lookup_eq_some_iff.1 h
  rw [hentries]
  exact List.mem_append_right before List.mem_cons_self

/-! ## All entries -/

/-- A property of all entries of a table, which may depend on their names. -/
def All (P : String → α → Prop) (table : Table α) : Prop :=
  ∀ pair ∈ table.entries, P pair.1 pair.2

variable {P : String → α → Prop}

theorem all_empty : All P {} :=
  List.forall_mem_nil _

/-- What holds of all entries holds of the one that is found. -/
theorem All.get? {table : Table α} (h : table.All P) {name : String} {entry : α}
    (hget : table.get? name = some entry) : P name entry :=
  h (name, entry) (mem_of_get? hget)

/-- An insertion brings in no entry but its own. -/
theorem mem_insertEntry {name : String} {entry : α} {entries : List (String × α)}
    {pair : String × α} (h : pair ∈ insertEntry name entry entries) :
    pair = (name, entry) ∨ pair ∈ entries := by
  induction entries with
  | nil => exact Or.inl (List.mem_singleton.1 h)
  | cons first rest ih =>
    obtain ⟨other, old⟩ := first
    rw [insertEntry] at h
    by_cases hother : other = name
    · rw [if_pos hother] at h
      exact (List.mem_cons.1 h).imp_right (List.mem_cons_of_mem _)
    · rw [if_neg hother] at h
      rcases List.mem_cons.1 h with rfl | hrest
      · exact Or.inr List.mem_cons_self
      · exact (ih hrest).imp_right (List.mem_cons_of_mem _)

/-- What holds of all entries still does if it holds of the one inserted. -/
theorem All.insert {table : Table α} (h : table.All P) {name : String} {entry : α}
    (hentry : P name entry) : (table.insert name entry).All P := by
  intro pair hpair
  rcases mem_insertEntry hpair with rfl | hold
  · exact hentry
  · exact h pair hold

theorem All.erase {table : Table α} (h : table.All P) (name : String) :
    (table.erase name).All P :=
  fun pair hpair => h pair (List.mem_of_mem_filter hpair)

/-- Only the entry that `get?` finds is changed. -/
theorem mem_modifyEntry {name : String} {change : α → α} {entries : List (String × α)}
    {pair : String × α} (h : pair ∈ modifyEntry name change entries) :
    (∃ old, entries.lookup name = some old ∧ pair = (name, change old)) ∨ pair ∈ entries := by
  induction entries with
  | nil => exact Or.inr h
  | cons first rest ih =>
    obtain ⟨other, old⟩ := first
    rw [modifyEntry] at h
    rw [lookup_cons]
    by_cases hother : other = name
    · subst hother
      rw [if_pos rfl] at h
      rw [if_pos rfl]
      rcases List.mem_cons.1 h with rfl | hrest
      · exact Or.inl ⟨old, rfl, rfl⟩
      · exact Or.inr (List.mem_cons_of_mem _ hrest)
    · rw [if_neg hother] at h
      rw [if_neg (Ne.symm hother)]
      rcases List.mem_cons.1 h with rfl | hrest
      · exact Or.inr List.mem_cons_self
      · exact (ih hrest).imp_right (List.mem_cons_of_mem _)

/-- A change has to keep the property only for the entry that it reaches. -/
theorem All.modify {table : Table α} (h : table.All P) {name : String} {change : α → α}
    (hchange : ∀ old, table.get? name = some old → P name (change old)) :
    (table.modify name change).All P := by
  intro pair hpair
  rcases mem_modifyEntry hpair with ⟨old, hold, rfl⟩ | hkept
  · exact hchange old hold
  · exact h pair hkept

end Drawscript.Table
