import Drawscript.Proofs.Store.Memory
import Drawscript.Proofs.Store.Methods

/-!
# Which method a call finds

The method table can be told from the history of a store: it lists the methods that were registered
since the last reset, each name once and in the order in which the names first came in, with the
latest method of the name (`Lists`). A call finds the latest method with exactly its name; if there
is none, the first in the table whose name differs in the case of ASCII letters alone; and if there
is none either, the first whose name has the same key (`Resolves`). `method?_eq_iff_resolves` says
so for every history of a store and every name at a call.

A name that fits in one of these ways has the same key, so that a call finds something exactly if
some method was registered under a name with its key.
-/

set_option autoImplicit false

namespace Drawscript

open Text

/-! ## What a table lists -/

namespace Methods

/-- The method is the last of its name among methods in the order of their registration. -/
def IsLatest (registered : List Method) (method : Method) : Prop :=
  ∃ before after, registered = before ++ method :: after ∧
    ∀ other ∈ after, other.name ≠ method.name

/-- The table holds what was registered: each name once, in order of the first registration, with
the latest method of the name. -/
structure Lists (registered : List Method) (table : Methods) : Prop where
  distinct : (table.map Method.name).Nodup
  names : table.map Method.name = (registered.map Method.name).eraseDups
  latest : ∀ method ∈ table, IsLatest registered method

variable {registered : List Method} {table : Methods} {method other : Method}

theorem IsLatest.mem (h : IsLatest registered method) : method ∈ registered := by
  obtain ⟨before, after, rfl, -⟩ := h
  exact List.mem_append_right before List.mem_cons_self

theorem IsLatest.unique (h : IsLatest registered method) (h' : IsLatest registered other)
    (hname : method.name = other.name) : method = other := by
  obtain ⟨before, after, hregistered, hlast⟩ := h
  obtain ⟨before', after', hregistered', hlast'⟩ := h'
  exact (Store.eq_of_last (P := fun m : Method => m.name = method.name)
    (hregistered.symm.trans hregistered') rfl hname.symm hlast
    fun m hm => hname ▸ hlast' m hm).1

/-- A method stays the latest of its name until another of this name is registered. -/
theorem IsLatest.later (h : IsLatest registered method) (hname : other.name ≠ method.name) :
    IsLatest (registered ++ [other]) method := by
  obtain ⟨before, after, rfl, hlast⟩ := h
  refine ⟨before, after ++ [other], by simp, ?_⟩
  intro m hm
  rw [List.mem_append, List.mem_singleton] at hm
  rcases hm with hm | rfl
  · exact hlast m hm
  · exact hname

theorem isLatest_concat (registered : List Method) (method : Method) :
    IsLatest (registered ++ [method]) method :=
  ⟨registered, [], rfl, nofun⟩

/-- What stays of a table of distinct names when a method is registered: the other names. -/
theorem name_ne_of_mem_register (hdistinct : (table.map Method.name).Nodup)
    (h : other ∈ table.register method) :
    other = method ∨ other ∈ table ∧ method.name ≠ other.name := by
  induction table with
  | nil => exact Or.inl (List.mem_singleton.1 h)
  | cons first rest ih =>
    rw [List.map_cons, List.nodup_cons] at hdistinct
    obtain ⟨hfirst, hrest⟩ := hdistinct
    rw [register] at h
    by_cases hname : first.name = method.name
    · rw [if_pos hname, List.mem_cons] at h
      refine h.imp_right fun hmem => ⟨List.mem_cons_of_mem first hmem, ?_⟩
      intro heq
      apply hfirst
      rw [hname, heq]
      exact List.mem_map_of_mem hmem
    · rw [if_neg hname, List.mem_cons] at h
      rcases h with rfl | hmem
      · exact Or.inr ⟨List.mem_cons_self, Ne.symm hname⟩
      · exact (ih hrest hmem).imp_right fun hkept =>
          ⟨List.mem_cons_of_mem first hkept.1, hkept.2⟩

namespace Lists

theorem nil : Lists [] [] :=
  ⟨List.nodup_nil, rfl, nofun⟩

theorem mem_names (h : Lists registered table) {name : String} :
    name ∈ table.map Method.name ↔ name ∈ registered.map Method.name := by
  rw [h.names, List.mem_eraseDups]

/-- One more registration. -/
theorem register (h : Lists registered table) (method : Method) :
    Lists (registered ++ [method]) (table.register method) := by
  refine ⟨nodup_register h.distinct method, ?_, ?_⟩
  · rw [names_register, List.map_append, List.eraseDups_append, ← h.names, List.map_singleton,
      List.cons_removeAll]
    by_cases hmem : method.name ∈ registered.map Method.name
    · rw [if_pos (h.mem_names.2 hmem), if_neg (by simpa using hmem)]
      exact (List.append_nil _).symm
    · rw [if_neg (mt h.mem_names.1 hmem), if_pos (by simpa using hmem)]
      rfl
  · intro other hother
    rcases name_ne_of_mem_register h.distinct hother with rfl | ⟨hmem, hname⟩
    · exact isLatest_concat registered other
    · exact (h.latest other hmem).later hname

/-- No method of a table has a name that fits if none was registered under such a name. -/
theorem find?_eq_none_iff (h : Lists registered table) (fits : String → Bool) :
    List.find? (fun m => fits m.name) table = none ↔
      ∀ other ∈ registered, fits other.name = false := by
  have hnames (methods : List Method) :
      (∀ m ∈ methods, fits m.name = false) ↔
        ∀ name ∈ methods.map Method.name, fits name = false :=
    (List.forall_mem_map (P := fun name => fits name = false)).symm
  rw [List.find?_eq_none, hnames registered]
  simp only [Bool.not_eq_true, hnames table, h.mem_names]

end Lists

/-! ## Finding a method -/

/-- The method is the first of a table whose name fits. -/
def IsFirst (table : Methods) (fits : String → Bool) (method : Method) : Prop :=
  fits method.name = true ∧ ∃ before after, table = before ++ method :: after ∧
    ∀ other ∈ before, fits other.name = false

/-- The names are equal up to the case of ASCII letters. -/
def sameName (name other : String) : Bool :=
  sameLetters other.toList name.toList

/-- The names have the same key. -/
def sameKey (name other : String) : Bool :=
  methodKey other.toList == methodKey name.toList

/-- What a call by a name finds, after methods were registered and listed in a table. -/
inductive Resolves (registered : List Method) (table : Methods) (name : String) :
    Option Method → Prop
  | exact {method : Method} (hlatest : IsLatest registered method) (hname : method.name = name) :
      Resolves registered table name (some method)
  | folded {method : Method} (hexact : ∀ other ∈ registered, other.name ≠ name)
      (hfirst : IsFirst table (sameName name) method) :
      Resolves registered table name (some method)
  | keyed {method : Method} (hfolded : ∀ other ∈ registered, sameName name other.name = false)
      (hfirst : IsFirst table (sameKey name) method) :
      Resolves registered table name (some method)
  | unknown (hkeyed : ∀ other ∈ registered, sameKey name other.name = false) :
      Resolves registered table name none

variable {name : String}

theorem isFirst_iff {fits : String → Bool} :
    IsFirst table fits method ↔ List.find? (fun m => fits m.name) table = some method := by
  rw [IsFirst, List.find?_eq_some_iff_append]
  simp only [Bool.not_eq_true']

theorem ne_of_sameName {other : String} (h : sameName name other = false) : other ≠ name := by
  rintro rfl
  rw [sameName, sameLetters, beq_self_eq_true] at h
  cases h

/-- Names with different keys differ in more than the case of ASCII letters. -/
theorem sameName_of_sameKey {other : String} (h : sameKey name other = false) :
    sameName name other = false := by
  by_contra hname
  have hkey : methodKey other.toList = methodKey name.toList :=
    methodKey_of_sameLetters (Bool.eq_true_of_not_eq_false hname)
  rw [sameKey, hkey, beq_self_eq_true] at h
  cases h

theorem find?_eq (table : Methods) (name : String) :
    table.find? name =
      (List.find? (fun m => m.name == name) table).or
        ((List.find? (fun m => sameName name m.name) table).or
          (List.find? (fun m => sameKey name m.name) table)) :=
  rfl

namespace Lists

theorem find?_name_eq_none_iff (h : Lists registered table) :
    List.find? (fun m => m.name == name) table = none ↔
      ∀ other ∈ registered, other.name ≠ name := by
  rw [h.find?_eq_none_iff (· == name)]
  simp only [beq_eq_false_iff_ne]

theorem resolves_find? (h : Lists registered table) (name : String) :
    Resolves registered table name (table.find? name) := by
  rw [find?_eq]
  cases hexact : List.find? (fun m => m.name == name) table with
  | some method =>
    have hname := List.find?_some hexact
    exact .exact (h.latest method (List.mem_of_find?_eq_some hexact)) (beq_iff_eq.1 hname)
  | none =>
    rw [Option.none_or]
    cases hfolded : List.find? (fun m => sameName name m.name) table with
    | some method => exact .folded (h.find?_name_eq_none_iff.1 hexact) (isFirst_iff.2 hfolded)
    | none =>
      rw [Option.none_or]
      cases hkeyed : List.find? (fun m => sameKey name m.name) table with
      | some method =>
        exact .keyed ((h.find?_eq_none_iff (sameName name)).1 hfolded) (isFirst_iff.2 hkeyed)
      | none => exact .unknown ((h.find?_eq_none_iff (sameKey name)).1 hkeyed)

/-- The method of exactly the name that a table lists is the latest one. -/
theorem find?_name (h : Lists registered table) (hlatest : IsLatest registered method) :
    List.find? (fun m => m.name == method.name) table = some method := by
  cases hfind : List.find? (fun m => m.name == method.name) table with
  | none => exact absurd rfl (h.find?_name_eq_none_iff.1 hfind method hlatest.mem)
  | some found =>
    have hname := List.find?_some hfind
    have hfound := h.latest found (List.mem_of_find?_eq_some hfind)
    rw [hfound.unique hlatest (beq_iff_eq.1 hname)]

theorem find?_of_resolves (h : Lists registered table) {answer : Option Method}
    (hanswer : Resolves registered table name answer) : table.find? name = answer := by
  rw [find?_eq]
  -- a name that fits in none of the weaker ways fits in none of the stronger ways
  cases hanswer with
  | exact hlatest hname => rw [← hname, h.find?_name hlatest, Option.some_or]
  | folded hexact hfirst =>
    rw [h.find?_name_eq_none_iff.2 hexact, isFirst_iff.1 hfirst]
    rfl
  | keyed hfolded hfirst =>
    have hexact : ∀ other ∈ registered, other.name ≠ name :=
      fun other hother => ne_of_sameName (hfolded other hother)
    rw [h.find?_name_eq_none_iff.2 hexact, (h.find?_eq_none_iff (sameName name)).2 hfolded,
      isFirst_iff.1 hfirst]
    rfl
  | unknown hkeyed =>
    have hfolded : ∀ other ∈ registered, sameName name other.name = false :=
      fun other hother => sameName_of_sameKey (hkeyed other hother)
    have hexact : ∀ other ∈ registered, other.name ≠ name :=
      fun other hother => ne_of_sameName (hfolded other hother)
    rw [h.find?_name_eq_none_iff.2 hexact, (h.find?_eq_none_iff (sameName name)).2 hfolded,
      (h.find?_eq_none_iff (sameKey name)).2 hkeyed]
    rfl

/-- A call finds something if a method was registered under a name with the same key. -/
theorem isSome_find?_iff (h : Lists registered table) (name : String) :
    (table.find? name).isSome = true ↔
      ∃ method ∈ registered, methodKey method.name.toList = methodKey name.toList := by
  constructor
  · intro hsome
    obtain ⟨method, hfind⟩ := Option.isSome_iff_exists.1 hsome
    exact ⟨method, (h.latest method (mem_of_find? hfind)).mem, methodKey_of_find? hfind⟩
  · rintro ⟨method, hmethod, hkey⟩
    by_contra hnone
    rw [Bool.not_eq_true, Option.isSome_eq_false_iff, Option.isNone_iff_eq_none] at hnone
    have hresolves := h.resolves_find? name
    rw [hnone] at hresolves
    cases hresolves with
    | unknown hkeyed =>
      have hother := hkeyed method hmethod
      rw [sameKey, hkey, beq_self_eq_true] at hother
      cases hother

end Lists

end Methods

/-! ## Histories -/

namespace Store

/-- The operation forgets everything. -/
def Op.isReset : Op → Bool
  | .reset => true
  | _ => false

/-- The method that an operation registers. -/
def Op.method? : Op → Option Method
  | .register method => some method
  | _ => none

/-- The methods registered since the last reset, in order. -/
def registered (ops : List Op) : List Method :=
  (ops.rtakeWhile fun op => !op.isReset).filterMap Op.method?

theorem registered_concat (ops : List Op) (op : Op) :
    registered (ops ++ [op]) =
      if op.isReset then [] else registered ops ++ op.method?.toList := by
  rw [registered, List.rtakeWhile_concat]
  cases hreset : op.isReset with
  | true => rfl
  | false =>
    simp only [Bool.not_false, if_true, Bool.false_eq_true, if_false, List.filterMap_append,
      registered]
    cases hmethod : op.method? with
    | none => rw [List.filterMap_cons_none hmethod]; rfl
    | some method => rw [List.filterMap_cons_some hmethod]; rfl

/-- An operation that neither resets the store nor registers a method keeps the table. -/
theorem methods_apply_of_other (store : Store) {op : Op} (hreset : op.isReset = false)
    (hmethod : op.method? = none) : (store.apply op).methods = store.methods := by
  cases op with
  | declareArray name kind size =>
    cases haccepts : store.accepts (.declareArray name kind size) with
    | false => rw [apply_of_refused haccepts]
    | true =>
      obtain ⟨_, -, -, happly⟩ := apply_declareArray haccepts
      rw [happly]
  | poke name index value =>
    cases haccepts : store.accepts (.poke name index value) with
    | false => rw [apply_of_refused haccepts]
    | true =>
      obtain ⟨_, _, -, -, -, happly⟩ := apply_poke haccepts
      rw [happly]
      rfl
  | register method => cases hmethod
  | reset => cases hreset
  | _ => rfl

/-- One more operation. -/
theorem lists_apply {ops : List Op} {store : Store}
    (h : Methods.Lists (registered ops) store.methods) (op : Op) :
    Methods.Lists (registered (ops ++ [op])) (store.apply op).methods := by
  rw [registered_concat]
  cases hreset : op.isReset with
  | true =>
    cases op with
    | reset => exact .nil
    | _ => cases hreset
  | false =>
    rw [if_neg Bool.false_ne_true]
    cases hmethod : op.method? with
    | none =>
      rw [methods_apply_of_other store hreset hmethod, Option.toList_none, List.append_nil]
      exact h
    | some method =>
      cases op with
      | register other =>
        cases hmethod
        exact h.register method
      | _ => cases hmethod

/-- After any operations the table of a store lists what was registered since the last reset. -/
theorem lists_applyAll (mode : ScopeMode) (ops : List Op) :
    Methods.Lists (registered ops) ((Store.empty mode).applyAll ops).methods := by
  induction ops using List.reverseRecOn with
  | nil => exact .nil
  | append_singleton ops op ih =>
    rw [applyAll, List.foldl_concat]
    exact lists_apply ih op

/-- **Which method a call finds.** After any operations on a new store the table of methods lists
what was registered since the last reset: each name once, in order of first registration, with its
latest method. A name at a call finds a method if and only if some name that was registered has the
same key. It finds the latest method of exactly this name, or else the first in the table with the
name in another case, or else the first in the table with the same key. -/
theorem method?_eq_iff_resolves (mode : ScopeMode) (ops : List Op) :
    Methods.Lists (registered ops) ((Store.empty mode).applyAll ops).methods ∧
      ∀ name : String,
        ((((Store.empty mode).applyAll ops).method? name).isSome = true ↔
          ∃ method ∈ registered ops, methodKey method.name.toList = methodKey name.toList) ∧
        ∀ answer, ((Store.empty mode).applyAll ops).method? name = answer ↔
          Methods.Resolves (registered ops) ((Store.empty mode).applyAll ops).methods name
            answer := by
  have hlists := lists_applyAll mode ops
  refine ⟨hlists, fun name => ⟨hlists.isSome_find?_iff name, fun answer => ⟨?_, ?_⟩⟩⟩
  · rintro rfl
    exact hlists.resolves_find? name
  · exact hlists.find?_of_resolves

end Store

end Drawscript
