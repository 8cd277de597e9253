import Drawscript.Proofs.Text.LowerCase
import Drawscript.Store.Methods

/-!
# Methods and their names

What the method table holds after a registration, and which names find a method in it. A call finds
only methods with the key of its name (`methodKey_of_find?`). Method names are identifiers, and the
names that can stand for an identifier in a call are identifiers too, but for one character: the
Kelvin sign does for the letter `k` (`isIdentifier_of_methodKey`).
-/

set_option autoImplicit false

namespace Drawscript

open Text

/-! ## Keys -/

theorem mem_collapse {c : Char} (text : List Char) : c ∈ collapse text ↔ c ∈ text := by
  induction text using collapse.induct with
  | case1 => rw [collapse]
  | case2 d => rw [collapse]
  | case3 d rest ih =>
    rw [collapse, if_pos rfl, ih]
    simp
  | case4 d e rest hne ih =>
    rw [collapse, if_neg hne, List.mem_cons, ih, List.mem_cons (a := c) (b := d)]

theorem head?_collapse (text : List Char) : (collapse text).head? = text.head? := by
  induction text using collapse.induct with
  | case1 => rw [collapse]
  | case2 d => rw [collapse]
  | case3 d rest ih =>
    rw [collapse, if_pos rfl, ih]
    rfl
  | case4 d e rest hne ih =>
    rw [collapse, if_neg hne]
    rfl

theorem head?_methodKey (c : Char) (rest : List Char) :
    (methodKey (c :: rest)).head? = (lowerCase c).head? := by
  rw [methodKey, head?_collapse, List.flatMap_cons,
    List.head?_append_of_ne_nil _ (lowerCase_ne_nil c)]

/-- Names that differ in the case of ASCII letters alone have the same key. -/
theorem methodKey_of_sameLetters {name other : List Char} (h : sameLetters name other = true) :
    methodKey name = methodKey other := by
  have hlower (text : List Char) :
      (text.map Char.toLower).flatMap lowerCase = text.flatMap lowerCase := by
    rw [List.flatMap_map]
    exact congrArg (List.flatMap · text) (funext lowerCase_toLower)
  rw [methodKey, methodKey, ← hlower name, ← hlower other, beq_iff_eq.1 h]

/-- The Kelvin sign read as the letter that it is in lower case. -/
def plainLetter (c : Char) : Char :=
  if c = kelvinSign then 'k' else c

/-- A text with the key of an identifier is made of word characters and Kelvin signs. -/
theorem isWordChar_of_methodKey {name other : List Char} (hname : isIdentifier name = true)
    (h : methodKey name = methodKey other) {c : Char} (hc : c ∈ other) :
    isWordChar c = true ∨ c = kelvinSign := by
  refine isWordChar_of_lowerCase fun d hd => ?_
  have hkey : d ∈ methodKey name := by
    rw [h, methodKey, mem_collapse]
    exact List.mem_flatMap_of_mem hc hd
  obtain ⟨e, he, hd⟩ := List.mem_flatMap.1 ((mem_collapse _).1 hkey)
  have hword := (wordChars_of_isIdentifier hname).2 e he
  rw [lowerCase_of_isWordChar hword, List.mem_singleton] at hd
  rw [hd, isWordChar_toLower, hword]

/-- What has the key of an identifier is an identifier, once Kelvin signs are read as letters. -/
theorem isIdentifier_of_methodKey {name other : List Char} (hname : isIdentifier name = true)
    (h : methodKey name = methodKey other) : isIdentifier (other.map plainLetter) = true := by
  have hchars {c : Char} (hc : c ∈ other) := isWordChar_of_methodKey hname h hc
  obtain ⟨hne, hword, hdigit⟩ := isIdentifier_iff.1 hname
  obtain ⟨c, rest, rfl⟩ := List.exists_cons_of_ne_nil hne
  have hfirst := congrArg List.head? h
  rw [head?_methodKey, lowerCase_of_isWordChar (hword c List.mem_cons_self)] at hfirst
  cases other with
  | nil => cases hfirst
  | cons d others =>
    refine isIdentifier_iff.2 ⟨List.cons_ne_nil _ _, List.forall_mem_map.2 fun e he => ?_, ?_⟩
    · rcases hchars he with hletter | rfl
      · rw [plainLetter]
        split
        · rfl
        · exact hletter
      · rfl
    · rintro - ⟨⟩
      rcases hchars List.mem_cons_self with hletter | rfl
      · -- a digit in front would stand in front of the key, and so of the name
        rw [head?_methodKey, lowerCase_of_isWordChar hletter] at hfirst
        have hsame : d.isDigit = c.isDigit := by
          rw [← isDigit_toLower d, ← isDigit_toLower c, Option.some.inj hfirst]
        rw [plainLetter]
        split
        · rfl
        · rw [hsame, hdigit c rfl]
      · rfl

/-! ## The table -/

namespace Methods

theorem mem_register {method other : Method} {methods : Methods}
    (h : other ∈ methods.register method) : other = method ∨ other ∈ methods := by
  induction methods with
  | nil => exact Or.inl (List.mem_singleton.1 h)
  | cons first rest ih =>
    rw [register] at h
    by_cases hname : first.name = method.name
    · rw [if_pos hname] at h
      exact (List.mem_cons.1 h).imp_right (List.mem_cons_of_mem first)
    · rw [if_neg hname] at h
      rcases List.mem_cons.1 h with rfl | hrest
      · exact Or.inr List.mem_cons_self
      · exact (ih hrest).imp_right (List.mem_cons_of_mem first)

/-- A method takes the place of the one with its name, or comes last. -/
theorem names_register (methods : Methods) (method : Method) :
    (methods.register method).map Method.name =
      if method.name ∈ methods.map Method.name then methods.map Method.name
      else methods.map Method.name ++ [method.name] := by
  induction methods with
  | nil => rfl
  | cons other rest ih =>
    rw [register]
    by_cases hname : other.name = method.name
    · simp [hname]
    · have hmem : method.name ∈ (other :: rest).map Method.name ↔
          method.name ∈ rest.map Method.name := by
        simp [Ne.symm hname]
      rw [if_neg hname, List.map_cons, ih]
      by_cases hrest : method.name ∈ rest.map Method.name
      · rw [if_pos hrest, if_pos (hmem.2 hrest), List.map_cons]
      · rw [if_neg hrest, if_neg (mt hmem.1 hrest), List.map_cons, List.cons_append]

theorem nodup_register {methods : Methods} (h : (methods.map Method.name).Nodup)
    (method : Method) : ((methods.register method).map Method.name).Nodup := by
  rw [names_register]
  by_cases hmem : method.name ∈ methods.map Method.name
  · rw [if_pos hmem]
    exact h
  · rw [if_neg hmem, ← List.concat_eq_append]
    exact h.concat hmem

theorem mem_of_find? {methods : Methods} {name : String} {method : Method}
    (h : methods.find? name = some method) : method ∈ methods := by
  rw [find?, Option.or_eq_some_iff, Option.or_eq_some_iff] at h
  rcases h with hexact | ⟨-, hcase | ⟨-, hkey⟩⟩
  · exact List.mem_of_find?_eq_some hexact
  · exact List.mem_of_find?_eq_some hcase
  · exact List.mem_of_find?_eq_some hkey

/-- A call finds only methods with the key of its name. -/
theorem methodKey_of_find? {methods : Methods} {name : String} {method : Method}
    (h : methods.find? name = some method) :
    methodKey method.name.toList = methodKey name.toList := by
  rw [find?, Option.or_eq_some_iff, Option.or_eq_some_iff] at h
  rcases h with hexact | ⟨-, hcase | ⟨-, hkey⟩⟩
  · have hsame := List.find?_some hexact
    rw [beq_iff_eq.1 hsame]
  · have hsame := List.find?_some hcase
    exact methodKey_of_sameLetters hsame
  · have hsame := List.find?_some hkey
    exact beq_iff_eq.1 hsame

end Methods

end Drawscript
