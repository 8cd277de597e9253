import Drawscript.Proofs.Exec.Plan
import Drawscript.Proofs.Store.Slots

/-!
# Arrays as memory

What `peek` finds in a store can be told from the history of the store alone. An array exists from
its latest declaration on, until everything is reset, and an element holds what was last stored in
it since that declaration, as an element of the kind of the array, or zero. Of the history only the
operations that were not refused count, and of these only those on the array (`Recalls`).
`peek_eq_iff_recalls` says so for every history of a store, in both modes of keeping scopes.

The proof follows the entry of one name through the history (`Records`): one step for each
operation, and then an induction over the operations, from the last one back.
-/

set_option autoImplicit false

namespace Drawscript

namespace Store

/-! ## Histories -/

/-- What can be done to a store, and what can be asked of it. -/
inductive Act where
  | change (op : Op)
  | get (name : String)
  | peek (name : String) (index : Int64)
  | lookup (name : String)

/-- The store after an act. A question changes nothing. -/
def act (store : Store) : Act → Store
  | .change op => store.apply op
  | .get _ => store
  | .peek _ _ => store
  | .lookup _ => store

/-- The store after acts, one after the other. -/
def actAll (store : Store) (acts : List Act) : Store :=
  acts.foldl act store

/-- The store does not refuse the operation. -/
def accepts (store : Store) : Op → Bool
  | .declareArray name kind size => (store.declareArray name kind size).isOk
  | .poke name index value => (store.poke name index value).isOk
  | _ => true

/-- The operation of an act, if it is one that the store does not refuse. -/
def accepted? (store : Store) : Act → Option Op
  | .change op => if store.accepts op then some op else none
  | .get _ => none
  | .peek _ _ => none
  | .lookup _ => none

/-- The operations of a history that were not refused, in order. -/
def done (store : Store) : List Act → List Op
  | [] => []
  | act :: rest => (store.accepted? act).toList ++ (store.act act).done rest

theorem actAll_concat (store : Store) (acts : List Act) (act : Act) :
    store.actAll (acts ++ [act]) = (store.actAll acts).act act :=
  List.foldl_concat _ _ _ _

theorem done_concat (store : Store) (acts : List Act) (act : Act) :
    store.done (acts ++ [act]) =
      store.done acts ++ ((store.actAll acts).accepted? act).toList := by
  induction acts generalizing store with
  | nil => rw [List.nil_append, done, done, done, List.append_nil, List.nil_append]; rfl
  | cons first rest ih =>
    rw [List.cons_append, done, done, ih, List.append_assoc]
    rfl

/-- An operation that is refused changes nothing. -/
theorem apply_of_refused {store : Store} {op : Op} (h : store.accepts op = false) :
    store.apply op = store := by
  cases op with
  | declareArray name kind size =>
    rw [accepts] at h
    rw [apply]
    cases hdeclared : store.declareArray name kind size with
    | error e => rfl
    | ok result =>
      rw [hdeclared] at h
      cases h
  | poke name index value =>
    rw [accepts] at h
    rw [apply]
    cases hpoked : store.poke name index value with
    | error cause => rfl
    | ok result =>
      rw [hpoked] at h
      cases h
  | _ => cases h

/-! ## What a history says about an element -/

/-- The array was last declared with the kind and the size, and everything was not reset since. -/
structure LastDeclared (done : List Op) (name : String) (kind : ElementKind) (size : Int64)
    (since : List Op) : Prop where
  declared : ∃ before keyword, done = before ++ .declareArray name keyword size :: since ∧
    ElementKind.ofName? keyword = some kind
  reset : .reset ∉ since
  last : ∀ keyword size', .declareArray name keyword size' ∉ since

/-- The value was the last that was stored in the element. -/
def LastPoked (since : List Op) (name : String) (index : Int64) (value : Value) : Prop :=
  ∃ before after, since = before ++ .poke name index value :: after ∧
    ∀ value', .poke name index value' ∉ after

/-- What an element of an array holds, after what was done since its declaration: what the value
stored last became as an element, or zero if none was stored. -/
inductive Stored (since : List Op) (name : String) (kind : ElementKind) (index : Int64) :
    Value → Prop
  | written {value element : Value} (hpoked : LastPoked since name index value)
      (helement : kind.coerce? value = some element) : Stored since name kind index element
  | fresh (hnone : ∀ value, .poke name index value ∉ since) :
      Stored since name kind index kind.zero

/-- Every declaration of the array was followed by a reset. -/
def Undeclared (done : List Op) (name : String) : Prop :=
  ∀ before keyword size since, done = before ++ .declareArray name keyword size :: since →
    .reset ∈ since

/-- What a history says about the element of an array with an index. -/
inductive Recalls (done : List Op) (name : String) (index : Int64) : Except Cause Value → Prop
  | unknown (hnone : Undeclared done name) :
      Recalls done name index (.error (.resolution (.unknownArray name)))
  | outside {kind : ElementKind} {size : Int64} {since : List Op}
      (hdeclared : LastDeclared done name kind size since)
      (hindex : ¬ (0 ≤ index.toInt ∧ index.toInt < size.toInt)) :
      Recalls done name index (.error (.bounds (.indexOutOfRange name index size.toInt.toNat)))
  | found {kind : ElementKind} {size : Int64} {since : List Op} {element : Value}
      (hdeclared : LastDeclared done name kind size since)
      (hindex : 0 ≤ index.toInt ∧ index.toInt < size.toInt)
      (hstored : Stored since name kind index element) : Recalls done name index (.ok element)

/-! ## A history says one thing only -/

/-- The last element of a list with a property, and what comes after it, are determined. -/
theorem eq_of_last {α : Type} {P : α → Prop} {before before' after after' : List α} {x x' : α}
    (h : before ++ x :: after = before' ++ x' :: after') (hx : P x) (hx' : P x')
    (hafter : ∀ y ∈ after, ¬ P y) (hafter' : ∀ y ∈ after', ¬ P y) : x = x' ∧ after = after' := by
  have hlater {before : List α} {x x' : α} {after after' : List α}
      (hsplit : x :: after = before ++ x' :: after') (hx' : P x')
      (hafter : ∀ y ∈ after, ¬ P y) : x = x' ∧ after = after' := by
    cases before with
    | nil => exact List.cons.inj hsplit
    | cons y before =>
      obtain ⟨-, hafter'⟩ := List.cons.inj hsplit
      exact absurd hx' (hafter x' (hafter' ▸ List.mem_append_right before List.mem_cons_self))
  rcases List.append_eq_append_iff.1 h with ⟨between, -, hsplit⟩ | ⟨between, -, hsplit⟩
  · exact hlater hsplit hx' hafter
  · obtain ⟨hxx, haa⟩ := hlater hsplit hx hafter'
    exact ⟨hxx.symm, haa.symm⟩

/-- A history has at most one last declaration of an array. -/
theorem LastDeclared.unique {done since since' : List Op} {name : String} {kind kind' : ElementKind}
    {size size' : Int64} (h : LastDeclared done name kind size since)
    (h' : LastDeclared done name kind' size' since') :
    kind = kind' ∧ size = size' ∧ since = since' := by
  obtain ⟨before, keyword, hdone, hkind⟩ := h.declared
  obtain ⟨before', keyword', hdone', hkind'⟩ := h'.declared
  have hlast := eq_of_last (P := fun op => ∃ keyword size, op = .declareArray name keyword size)
    (hdone.symm.trans hdone') ⟨_, _, rfl⟩ ⟨_, _, rfl⟩
    (fun op hop ⟨keyword, size, heq⟩ => h.last keyword size (heq ▸ hop))
    (fun op hop ⟨keyword, size, heq⟩ => h'.last keyword size (heq ▸ hop))
  obtain ⟨hop, rfl⟩ := hlast
  cases hop
  exact ⟨Option.some.inj (hkind.symm.trans hkind'), rfl, rfl⟩

/-- A history has at most one last value set at an index. -/
theorem LastPoked.unique {since : List Op} {name : String} {index : Int64} {value value' : Value}
    (h : LastPoked since name index value) (h' : LastPoked since name index value') :
    value = value' := by
  obtain ⟨before, after, hsince, hlast⟩ := h
  obtain ⟨before', after', hsince', hlast'⟩ := h'
  have hop := (eq_of_last (P := fun op => ∃ value, op = .poke name index value)
    (hsince.symm.trans hsince') ⟨_, rfl⟩ ⟨_, rfl⟩
    (fun op hop ⟨value, heq⟩ => hlast value (heq ▸ hop))
    (fun op hop ⟨value, heq⟩ => hlast' value (heq ▸ hop))).1
  cases hop
  rfl

theorem LastPoked.mem {since : List Op} {name : String} {index : Int64} {value : Value}
    (h : LastPoked since name index value) : .poke name index value ∈ since := by
  obtain ⟨before, after, rfl, -⟩ := h
  exact List.mem_append_right before List.mem_cons_self

theorem Stored.unique {since : List Op} {name : String} {kind : ElementKind} {index : Int64}
    {element element' : Value} (h : Stored since name kind index element)
    (h' : Stored since name kind index element') : element = element' := by
  cases h with
  | @written value element hpoked helement =>
    cases h' with
    | @written value' element' hpoked' helement' =>
      rw [hpoked.unique hpoked'] at helement
      exact Option.some.inj (helement.symm.trans helement')
    | fresh hnone => exact absurd hpoked.mem (hnone value)
  | fresh hnone =>
    cases h' with
    | @written value' element' hpoked' helement' => exact absurd hpoked'.mem (hnone value')
    | fresh hnone' => rfl

theorem LastDeclared.not_undeclared {done since : List Op} {name : String} {kind : ElementKind}
    {size : Int64} (h : LastDeclared done name kind size since) : ¬ Undeclared done name := by
  intro hnone
  obtain ⟨before, keyword, hdone, -⟩ := h.declared
  exact h.reset (hnone before keyword size since hdone)

/-- A history gives at most one answer for an element. -/
theorem Recalls.unique {done : List Op} {name : String} {index : Int64}
    {answer answer' : Except Cause Value} (h : Recalls done name index answer)
    (h' : Recalls done name index answer') : answer = answer' := by
  cases h with
  | unknown hnone =>
    cases h' with
    | unknown hnone' => rfl
    | outside hdeclared hindex => exact absurd hnone hdeclared.not_undeclared
    | found hdeclared hindex hstored => exact absurd hnone hdeclared.not_undeclared
  | outside hdeclared hindex =>
    cases h' with
    | unknown hnone => exact absurd hnone hdeclared.not_undeclared
    | outside hdeclared' hindex' =>
      obtain ⟨-, rfl, -⟩ := hdeclared.unique hdeclared'
      rfl
    | found hdeclared' hindex' hstored =>
      obtain ⟨-, rfl, -⟩ := hdeclared.unique hdeclared'
      exact absurd hindex' hindex
  | found hdeclared hindex hstored =>
    cases h' with
    | unknown hnone => exact absurd hnone hdeclared.not_undeclared
    | outside hdeclared' hindex' =>
      obtain ⟨-, rfl, -⟩ := hdeclared.unique hdeclared'
      exact absurd hindex hindex'
    | found hdeclared' hindex' hstored' =>
      obtain ⟨rfl, rfl, rfl⟩ := hdeclared.unique hdeclared'
      rw [hstored.unique hstored']

/-! ## What an operation does to an array -/

/-- The operation is one on the array, or forgets it with everything else. -/
def Op.mentions (name : String) : Op → Bool
  | .declareArray other _ _ => other == name
  | .poke other _ _ => other == name
  | .reset => true
  | _ => false

/-- The operation can change what the element of the array holds. -/
def Op.concerns (name : String) (index : Int64) : Op → Bool
  | .declareArray other _ _ => other == name
  | .poke other position _ => other == name && position == index
  | .reset => true
  | _ => false

/-- A declaration that is not refused puts an array of zeros in place. -/
theorem apply_declareArray {store : Store} {name keyword : String} {size : Int64}
    (h : store.accepts (.declareArray name keyword size) = true) :
    ∃ kind, ElementKind.ofName? keyword = some kind ∧ 0 < size.toInt ∧
      store.apply (.declareArray name keyword size) =
        { store with
          arrays := store.arrays.insert name (Cells.zeros kind size.toInt.toNat) } := by
  rw [accepts, declareArray] at h
  rw [apply, declareArray]
  cases hkind : ElementKind.ofName? keyword with
  | none =>
    rw [hkind] at h
    cases h
  | some kind =>
    simp only [hkind] at h ⊢
    by_cases hpositive : size.toInt ≤ 0
    · rw [if_pos hpositive] at h
      cases h
    by_cases hlarge : (maxArraySize : Int) < size.toInt
    · rw [if_neg hpositive, if_pos hlarge] at h
      cases h
    rw [if_neg hpositive, if_neg hlarge]
    exact ⟨kind, rfl, Int.not_le.1 hpositive, rfl⟩

/-- A value that is stored and not refused goes into an array that is there, as an element of its
kind. -/
theorem apply_poke {store : Store} {name : String} {index : Int64} {value : Value}
    (h : store.accepts (.poke name index value) = true) :
    ∃ cells element, store.arrays.get? name = some cells ∧
      (0 ≤ index.toInt ∧ index.toInt < cells.size) ∧ cells.kind.coerce? value = some element ∧
      store.apply (.poke name index value) = store.write name index.toInt.toNat element := by
  rw [accepts, poke, Store.element, locate] at h
  rw [apply, poke, Store.element, locate]
  cases hcells : store.arrays.get? name with
  | none =>
    rw [hcells] at h
    cases h
  | some cells =>
    by_cases hindex : 0 ≤ index.toInt ∧ index.toInt < cells.size
    · cases helement : cells.kind.coerce? value with
      | none =>
        simp only [hcells, Cells.position?, if_pos hindex, helement] at h
        cases h
      | some element =>
        simp only [Cells.position?, if_pos hindex, helement]
        exact ⟨cells, element, rfl, hindex, helement, rfl⟩
    · simp only [hcells, Cells.position?, if_neg hindex] at h
      cases h

theorem peek_of_unknown {store : Store} {name : String} (h : store.arrays.get? name = none)
    (index : Int64) : store.peek name index = .error (.resolution (.unknownArray name)) := by
  rw [peek, locate, h]

/-- What is read from an array that there is: an element, or that the index is out of range. -/
theorem peek_of_cells {store : Store} {name : String} {cells : Cells}
    (h : store.arrays.get? name = some cells) (index : Int64) :
    store.peek name index =
      if 0 ≤ index.toInt ∧ index.toInt < cells.size then
        .ok (cells.values.getD index.toInt.toNat cells.kind.zero)
      else .error (.bounds (.indexOutOfRange name index cells.size)) := by
  rw [peek, locate, h]
  simp only [Cells.position?]
  by_cases hindex : 0 ≤ index.toInt ∧ index.toInt < cells.size
  · simp only [if_pos hindex]
  · simp only [if_neg hindex]

/-- What is read under a name depends on the array of that name alone. -/
theorem peek_congr {store store' : Store} {name : String}
    (h : store.arrays.get? name = store'.arrays.get? name) (index : Int64) :
    store.peek name index = store'.peek name index := by
  rw [peek, peek, locate, locate, h]

theorem get?_write (store : Store) (name : String) (position : Nat) (element : Value)
    (other : String) :
    (store.write name position element).arrays.get? other =
      if other = name then (store.arrays.get? name).map (·.set position element)
      else store.arrays.get? other :=
  Table.get?_modify _ _ _ _

/-- An operation that does not mention an array leaves it alone. -/
theorem get?_apply {store : Store} {op : Op} {name : String} (h : op.mentions name = false) :
    (store.apply op).arrays.get? name = store.arrays.get? name := by
  by_cases haccepted : store.accepts op = true
  · cases op with
    | declareArray other keyword size =>
      obtain ⟨kind, -, -, hafter⟩ := apply_declareArray haccepted
      rw [hafter]
      exact Table.get?_insert_of_ne _ _ (Ne.symm (beq_eq_false_iff_ne.1 h))
    | poke other index value =>
      obtain ⟨cells, element, -, -, -, hafter⟩ := apply_poke haccepted
      rw [hafter, get?_write]
      exact if_neg (Ne.symm (beq_eq_false_iff_ne.1 h))
    | reset => cases h
    | set other value => rfl
    | remove other => rfl
    | enter scope => rfl
    | leave => rfl
    | register method => rfl
  · rw [apply_of_refused (Bool.eq_false_iff.2 haccepted)]

end Store

namespace Cells

theorem getD_set_self {cells : Cells} {position : Nat} (h : position < cells.size)
    (element zero : Value) : (cells.set position element).values.getD position zero = element := by
  rw [Cells.set, Array.getD_eq_getD_getElem?, Array.getElem?_setIfInBounds_self_of_lt h,
    Option.getD_some]

theorem getD_set_of_ne (cells : Cells) {position other : Nat} (h : other ≠ position)
    (element zero : Value) :
    (cells.set position element).values.getD other zero = cells.values.getD other zero := by
  rw [Cells.set, Array.getD_eq_getD_getElem?, Array.getElem?_setIfInBounds_ne h.symm,
    ← Array.getD_eq_getD_getElem?]

theorem size_set (cells : Cells) (position : Nat) (element : Value) :
    (cells.set position element).size = cells.size :=
  Array.size_setIfInBounds

theorem getD_zeros (kind : ElementKind) (size position : Nat) :
    (zeros kind size).values.getD position kind.zero = kind.zero := by
  rw [zeros, Array.getD_eq_getD_getElem?, Array.getElem?_replicate]
  split_ifs with h
  · rfl
  · rfl

end Cells

/-- Indices of elements are told apart by their positions. -/
theorem position_ne {index other : Int64} (h : index ≠ other) (hindex : 0 ≤ index.toInt)
    (hother : 0 ≤ other.toInt) : index.toInt.toNat ≠ other.toInt.toNat := by
  intro hsame
  exact h (Int64.toInt_inj.1 (by omega))

namespace Store

/-! ## The entry of a name -/

/-- What a history says about the entry of a name: there is none, or an array of the size and kind
of its last declaration, each element of which holds what was stored there. -/
inductive Records (done : List Op) (name : String) : Option Cells → Prop
  | unknown (hnone : Undeclared done name) : Records done name none
  | array {cells : Cells} {size : Int64} {since : List Op}
      (hdeclared : LastDeclared done name cells.kind size since)
      (hsize : (cells.size : Int) = size.toInt)
      (hvalues : ∀ index : Int64, 0 ≤ index.toInt ∧ index.toInt < size.toInt →
        Stored since name cells.kind index
          (cells.values.getD index.toInt.toNat cells.kind.zero)) :
      Records done name (some cells)

/-- What `peek` finds is what the history says. -/
theorem Records.recalls {done : List Op} {store : Store} {name : String}
    (h : Records done name (store.arrays.get? name)) (index : Int64) :
    Recalls done name index (store.peek name index) := by
  cases hcells : store.arrays.get? name with
  | none =>
    rw [hcells] at h
    cases h with
    | unknown hnone =>
      rw [peek_of_unknown hcells]
      exact .unknown hnone
  | some cells =>
    rw [hcells] at h
    cases h with
    | @array _ size since hdeclared hsize hvalues =>
      rw [peek_of_cells hcells, hsize]
      by_cases hindex : 0 ≤ index.toInt ∧ index.toInt < size.toInt
      · rw [if_pos hindex]
        exact .found hdeclared hindex (hvalues index hindex)
      · have hsize' : cells.size = size.toInt.toNat := by omega
        rw [if_neg hindex, hsize']
        exact .outside hdeclared hindex

/-! ## One operation more -/

section

variable {done since : List Op} {name : String} {op : Op}

theorem not_mem_concat {other : Op} (h : other ∉ since) (hop : op ≠ other) :
    other ∉ since ++ [op] := by
  rw [List.mem_append, List.mem_singleton]
  rintro (hbefore | rfl)
  · exact h hbefore
  · exact hop rfl

theorem Undeclared.later (h : Undeclared done name)
    (hop : ∀ keyword size, op ≠ .declareArray name keyword size) :
    Undeclared (done ++ [op]) name := by
  intro before keyword size since hsplit
  rcases List.eq_nil_or_concat' since with rfl | ⟨since', last, rfl⟩
  · have hlast := (List.append_inj' hsplit rfl).2
    cases hlast
    exact absurd rfl (hop keyword size)
  · rw [← List.cons_append, ← List.append_assoc] at hsplit
    have hdone := (List.append_inj' hsplit rfl).1
    exact List.mem_append_left _ (h before keyword size since' hdone)

theorem LastDeclared.later {kind : ElementKind} {size : Int64}
    (h : LastDeclared done name kind size since) (hreset : op ≠ .reset)
    (hop : ∀ keyword size, op ≠ .declareArray name keyword size) :
    LastDeclared (done ++ [op]) name kind size (since ++ [op]) := by
  obtain ⟨before, keyword, hdone, hkind⟩ := h.declared
  refine ⟨⟨before, keyword, ?_, hkind⟩, not_mem_concat h.reset hreset,
    fun keyword' size' => not_mem_concat (h.last keyword' size') (hop keyword' size')⟩
  rw [hdone, List.append_assoc, List.cons_append]

theorem Stored.later {kind : ElementKind} {index : Int64} {element : Value}
    (h : Stored since name kind index element) (hop : ∀ value, op ≠ .poke name index value) :
    Stored (since ++ [op]) name kind index element := by
  cases h with
  | @written value element hpoked helement =>
    obtain ⟨before, after, hsince, hlast⟩ := hpoked
    refine .written ⟨before, after ++ [op], ?_, fun value' => ?_⟩ helement
    · rw [hsince, List.append_assoc, List.cons_append]
    · exact not_mem_concat (hlast value') (hop value')
  | fresh hnone => exact .fresh fun value => not_mem_concat (hnone value) (hop value)

/-- An operation that does not mention an array leaves what is recorded of it. -/
theorem Records.later {entry : Option Cells} (h : Records done name entry)
    (hop : op.mentions name = false) : Records (done ++ [op]) name entry := by
  have hreset : op ≠ .reset := by
    rintro rfl
    cases hop
  have hdeclare (keyword : String) (size : Int64) : op ≠ .declareArray name keyword size := by
    rintro rfl
    exact beq_eq_false_iff_ne.1 hop rfl
  have hpoke (index : Int64) (value : Value) : op ≠ .poke name index value := by
    rintro rfl
    exact beq_eq_false_iff_ne.1 hop rfl
  cases h with
  | unknown hnone => exact .unknown (hnone.later hdeclare)
  | array hdeclared hsize hvalues =>
    exact .array (hdeclared.later hreset hdeclare) hsize
      fun index hindex => (hvalues index hindex).later (hpoke index)

/-- After a reset no array is declared. -/
theorem undeclared_reset (done : List Op) (name : String) :
    Undeclared (done ++ [.reset]) name := by
  intro before keyword size since hsplit
  rcases List.eq_nil_or_concat' since with rfl | ⟨since', last, rfl⟩
  · cases (List.append_inj' hsplit rfl).2
  · rw [← List.cons_append, ← List.append_assoc] at hsplit
    obtain rfl : Op.reset = last := (List.cons.inj (List.append_inj' hsplit rfl).2).1
    exact List.mem_append_right _ List.mem_cons_self

/-- After its declaration an array is recorded as full of zeros, whatever came before. -/
theorem records_zeros (done : List Op) (name : String) {keyword : String} {kind : ElementKind}
    (hkind : ElementKind.ofName? keyword = some kind) {size : Int64} (hsize : 0 < size.toInt) :
    Records (done ++ [.declareArray name keyword size]) name
      (some (Cells.zeros kind size.toInt.toNat)) := by
  have hzeros : (Cells.zeros kind size.toInt.toNat).size = size.toInt.toNat := Array.size_replicate
  have hdeclared : LastDeclared (done ++ [.declareArray name keyword size]) name kind size [] :=
    ⟨⟨done, keyword, rfl, hkind⟩, List.not_mem_nil, fun _ _ => List.not_mem_nil⟩
  refine .array hdeclared (by omega) fun index _ => ?_
  show Stored [] name kind index ((Cells.zeros kind _).values.getD _ kind.zero)
  rw [Cells.getD_zeros]
  exact .fresh fun _ => List.not_mem_nil

/-- The element that a value is stored in holds it, and the others hold what they did. -/
theorem Records.write {cells : Cells} (h : Records done name (some cells)) {index : Int64}
    (hindex : 0 ≤ index.toInt ∧ index.toInt < cells.size) {value element : Value}
    (helement : cells.kind.coerce? value = some element) :
    Records (done ++ [.poke name index value]) name
      (some (cells.set index.toInt.toNat element)) := by
  cases h with
  | @array _ size since hdeclared hsize hvalues =>
    have hkept : LastDeclared (done ++ [.poke name index value]) name cells.kind size
        (since ++ [.poke name index value]) :=
      hdeclared.later Op.noConfusion fun _ _ => Op.noConfusion
    refine .array hkept (by rw [Cells.size_set, hsize]) fun other hother => ?_
    by_cases hsame : other = index
    · subst hsame
      rw [Cells.getD_set_self (by omega)]
      exact .written ⟨since, [], rfl, fun _ => List.not_mem_nil⟩ helement
    · rw [Cells.getD_set_of_ne cells (position_ne hsame hother.1 hindex.1)]
      refine (hvalues other hother).later fun value' hpoke => hsame ?_
      cases hpoke
      rfl

/-- An operation that is not refused adds to the history what it does to the entry. -/
theorem Records.step {store : Store} (h : Records done name (store.arrays.get? name))
    (haccepted : store.accepts op = true) :
    Records (done ++ [op]) name ((store.apply op).arrays.get? name) := by
  by_cases hop : op.mentions name = true
  · cases op with
    | declareArray other keyword size =>
      obtain rfl : other = name := beq_iff_eq.1 hop
      obtain ⟨kind, hkind, hsize, hafter⟩ := apply_declareArray haccepted
      rw [hafter, Table.get?_insert_self]
      exact records_zeros done other hkind hsize
    | poke other index value =>
      obtain rfl : other = name := beq_iff_eq.1 hop
      obtain ⟨cells, element, hcells, hindex, helement, hafter⟩ := apply_poke haccepted
      rw [hcells] at h
      rw [hafter, get?_write, if_pos rfl, hcells, Option.map_some]
      exact h.write hindex helement
    | reset => exact .unknown (undeclared_reset done name)
    | _ => cases hop
  · have hother := Bool.eq_false_iff.2 hop
    rw [get?_apply hother]
    exact h.later hother

end

/-- After every history, each name has the entry that the history says it has. -/
theorem records_actAll (mode : ScopeMode) (acts : List Act) (name : String) :
    Records ((empty mode).done acts) name (((empty mode).actAll acts).arrays.get? name) := by
  induction acts using List.reverseRecOn with
  | nil => exact .unknown fun before keyword size since hsplit => by cases before <;> cases hsplit
  | append_singleton acts act ih =>
    rw [actAll_concat, done_concat]
    generalize (empty mode).actAll acts = store at ih
    cases act with
    | change op =>
      rw [accepted?, act]
      by_cases haccepted : store.accepts op = true
      · rw [if_pos haccepted]
        exact ih.step haccepted
      · rw [if_neg haccepted, apply_of_refused (Bool.eq_false_iff.2 haccepted)]
        exact (List.append_nil _).symm ▸ ih
    | get other => exact (List.append_nil _).symm ▸ ih
    | peek other index => exact (List.append_nil _).symm ▸ ih
    | lookup other => exact (List.append_nil _).symm ▸ ih

/-- An operation that is refused, or that does not concern an element, does not change what `peek`
finds there. -/
theorem peek_apply {store : Store} {op : Op} {name : String} {index : Int64}
    (h : store.accepts op = false ∨ op.concerns name index = false) :
    (store.apply op).peek name index = store.peek name index := by
  by_cases haccepted : store.accepts op = true
  · have hconcerns := h.resolve_left fun hrefused =>
      Bool.false_ne_true (hrefused.symm.trans haccepted)
    by_cases hop : op.mentions name = true
    · cases op with
      | declareArray other keyword size => cases hop.symm.trans hconcerns
      | reset => cases hconcerns
      | poke other position value =>
        -- another element of the same array
        obtain rfl : other = name := beq_iff_eq.1 hop
        have hposition : index ≠ position := by
          rintro rfl
          rw [Op.concerns, beq_self_eq_true, beq_self_eq_true] at hconcerns
          cases hconcerns
        obtain ⟨cells, element, hcells, hrange, -, hafter⟩ := apply_poke haccepted
        have hcells' : (store.apply (.poke other position value)).arrays.get? other =
            some (cells.set position.toInt.toNat element) := by
          rw [hafter, get?_write, if_pos rfl, hcells, Option.map_some]
        rw [peek_of_cells hcells', peek_of_cells hcells, Cells.size_set]
        by_cases hindex : 0 ≤ index.toInt ∧ index.toInt < cells.size
        · rw [if_pos hindex, if_pos hindex,
            Cells.getD_set_of_ne cells (position_ne hposition hindex.1 hrange.1)]
          rfl
        · rw [if_neg hindex, if_neg hindex]
      | _ => cases hop
    · exact peek_congr (get?_apply (Bool.eq_false_iff.2 hop)) index
  · rw [apply_of_refused (Bool.eq_false_iff.2 haccepted)]

/-- After every history of a store, `peek` finds what the history says: no array if it was not
declared since the last reset; an index out of range if it is not in that of the last declaration;
and otherwise what the value last stored in the element since then became, or zero. An operation
that is refused, one on another array or another element, or one that has to do with variables,
scopes or methods, does not change what is found. -/
theorem peek_eq_iff_recalls (mode : ScopeMode) (acts : List Act) (name : String) (index : Int64) :
    (∀ answer, ((empty mode).actAll acts).peek name index = answer ↔
      Recalls ((empty mode).done acts) name index answer) ∧
    ∀ op, ((empty mode).actAll acts).accepts op = false ∨ op.concerns name index = false →
      ((empty mode).actAll (acts ++ [.change op])).peek name index =
        ((empty mode).actAll acts).peek name index := by
  have hrecalls := (records_actAll mode acts name).recalls index
  refine ⟨fun answer => ⟨fun h => h ▸ hrecalls, hrecalls.unique⟩, fun op hop => ?_⟩
  rw [actAll_concat]
  exact peek_apply hop

/-- An array that is declared anew and stored in, with operations between that are refused or have
to do with something else. -/
def overwriting : List Act :=
  [.change (.declareArray "a" "int" 1), .change (.poke "a" 0 (.int 7)),
    .change (.declareArray "a" "real" 2), .change (.poke "a" 1 (.real 8)),
    .change (.poke "a" 1 (.real 2.5)), .change (.poke "a" 2 (.real 9)), .change (.enter {}),
    .change (.declareArray "a" "real" 0), .peek "a" 0]

/-- The element holds what was last stored in it, and a `poke` beyond the end of the array, which is
refused, leaves it as it is. -/
theorem peek_overwriting :
    Recalls ((empty .singleSlot).done overwriting) "a" 1 (.ok (.real 2.5)) ∧
      ((empty .singleSlot).actAll overwriting).accepts (.poke "a" (-1) (.real 3)) = false ∧
      ((empty .singleSlot).actAll
        (overwriting ++ [.change (.poke "a" (-1) (.real 3))])).peek "a" 1 = .ok (.real 2.5) := by
  have hpeek : ((empty .singleSlot).actAll overwriting).peek "a" 1 = .ok (.real 2.5) := by rfl
  have hrefused : ((empty .singleSlot).actAll overwriting).accepts (.poke "a" (-1) (.real 3)) =
      false := by rfl
  have hmemory := peek_eq_iff_recalls .singleSlot overwriting "a" 1
  exact ⟨(hmemory.1 _).1 hpeek, hrefused, (hmemory.2 _ (Or.inl hrefused)).trans hpeek⟩

end Store

end Drawscript
