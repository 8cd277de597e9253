import Drawscript.Proofs.Store.Methods
import Mathlib.Data.List.Destutter

/-!
# Keys of names

The key of a name is a normal form. It has no two equal characters side by side, and it is its own
key; writing a character of a name twice, or in another case, does not change the key
(`methodKey_normalizes`). The character has to be one with a single lower-case character: where
lower case makes two characters of one, writing it twice gives a longer key.

Shortening the runs of a text is `List.destutter` for `≠` (`collapse_eq_destutter`), and the
characters of a key are in lower case, so that lower case has nothing left to change.
-/

set_option autoImplicit false

namespace Drawscript

open Text

/-! ## Runs of one character -/

/-- Collapsing is the removal of stutters, for which the library has the lemmas. -/
theorem collapse_eq_destutter (text : List Char) : collapse text = text.destutter (· ≠ ·) := by
  induction text using collapse.induct with
  | case1 => rw [collapse, List.destutter_nil]
  | case2 c => rw [collapse, List.destutter_singleton]
  | case3 c rest ih =>
    rw [collapse, if_pos rfl, ih, List.destutter_cons_cons, if_neg (not_not_intro rfl),
      List.destutter_cons']
  | case4 c d rest hne ih =>
    rw [collapse, if_neg hne, ih, List.destutter_cons_cons, if_pos hne, List.destutter_cons']

theorem collapse_of_isChain {text : List Char} (h : text.IsChain (· ≠ ·)) :
    collapse text = text := by
  rw [collapse_eq_destutter]
  exact List.destutter_of_isChain _ text h

/-- After collapsing no two neighbours are the same. -/
theorem isChain_collapse (text : List Char) : (collapse text).IsChain (· ≠ ·) := by
  rw [collapse_eq_destutter]
  exact List.isChain_destutter _ text

theorem collapse_cons_cons (c d : Char) (rest : List Char) :
    collapse (c :: d :: rest) =
      if c = d then collapse (d :: rest) else c :: collapse (d :: rest) := by
  rw [collapse]

/-- A character written twice is shortened to itself, wherever it stands. -/
theorem collapse_double (before : List Char) (c : Char) (after : List Char) :
    collapse (before ++ c :: c :: after) = collapse (before ++ c :: after) := by
  induction before with
  | nil => rw [List.nil_append, List.nil_append, collapse_cons_cons, if_pos rfl]
  | cons d before ih =>
    -- what is done with `d` depends on the character after it, which may be `c`
    cases before with
    | nil =>
      simp only [List.nil_append, List.cons_append] at ih ⊢
      rw [collapse_cons_cons d c (c :: after), collapse_cons_cons d c after, ih]
    | cons e before =>
      simp only [List.cons_append] at ih ⊢
      rw [collapse_cons_cons d e, collapse_cons_cons d e, ih]

/-! ## Normal forms -/

theorem isChain_methodKey (name : List Char) : (methodKey name).IsChain (· ≠ ·) :=
  isChain_collapse _

/-- The characters of a key are in lower case, so that a key is its own key. -/
theorem lowerCase_of_mem_methodKey {name : List Char} {c : Char} (h : c ∈ methodKey name) :
    lowerCase c = [c] := by
  rw [methodKey, mem_collapse, List.mem_flatMap] at h
  obtain ⟨d, -, hc⟩ := h
  exact lowerCase_of_mem_lowerCase hc

/-- A key is its own key. -/
theorem methodKey_methodKey (name : List Char) : methodKey (methodKey name) = methodKey name := by
  have hlower : (methodKey name).flatMap lowerCase = methodKey name := by
    rw [List.flatMap_congr fun c hc => lowerCase_of_mem_methodKey hc]
    exact List.flatMap_singleton' _
  conv_lhs => rw [methodKey, hlower]
  exact collapse_of_isChain (isChain_methodKey name)

theorem flatMap_lowerCase_cons (before : List Char) (c : Char) (after : List Char) :
    (before ++ c :: after).flatMap lowerCase =
      before.flatMap lowerCase ++ (lowerCase c ++ after.flatMap lowerCase) := by
  rw [List.flatMap_append, List.flatMap_cons]

/-- Doubling a letter does not change the key. -/
theorem methodKey_double {c : Char} (h : (lowerCase c).length = 1) (before after : List Char) :
    methodKey (before ++ c :: c :: after) = methodKey (before ++ c :: after) := by
  obtain ⟨d, hd⟩ := List.length_eq_one_iff.1 h
  rw [methodKey, methodKey, flatMap_lowerCase_cons, flatMap_lowerCase_cons, List.flatMap_cons, hd]
  exact collapse_double _ d _

/-- Nor does replacing a letter by one with the same lower case. -/
theorem methodKey_replace {c d : Char} (h : lowerCase d = lowerCase c) (before after : List Char) :
    methodKey (before ++ d :: after) = methodKey (before ++ c :: after) := by
  rw [methodKey, methodKey, flatMap_lowerCase_cons, flatMap_lowerCase_cons, h]

/-- **Keys are normal forms.** A key is its own key and has no two equal characters side by side. If
a character of the name has a single lower-case character, the key stays the same when the
character is written twice, and when any character with the same lower-case form takes its place. -/
theorem methodKey_normalizes (name : List Char) :
    methodKey (methodKey name) = methodKey name ∧ (methodKey name).IsChain (· ≠ ·) ∧
      ∀ (before : List Char) (c : Char) (after : List Char),
        name = before ++ [c] ++ after → (lowerCase c).length = 1 →
          methodKey (before ++ [c, c] ++ after) = methodKey name ∧
            ∀ d, lowerCase d = lowerCase c →
              methodKey (before ++ [d] ++ after) = methodKey name := by
  refine ⟨methodKey_methodKey name, isChain_methodKey name, ?_⟩
  rintro before c after rfl hsingle
  simp only [List.append_assoc, List.cons_append, List.nil_append]
  exact ⟨methodKey_double hsingle before after, fun d hd => methodKey_replace hd before after⟩

/-- The letter `k` of a name can be written twice, and as the Kelvin sign. -/
theorem methodKey_normalizes_kelvin :
    (lowerCase 'k').length = 1 ∧ lowerCase kelvinSign = lowerCase 'k' ∧
      methodKey ("Boo".toList ++ ['k', 'k'] ++ "ing".toList) = methodKey "Booking".toList ∧
      methodKey ("Boo".toList ++ [kelvinSign] ++ "ing".toList) = methodKey "Booking".toList := by
  have hsingle : (lowerCase 'k').length = 1 := by decide +kernel
  have hkelvin : lowerCase kelvinSign = lowerCase 'k' := by decide +kernel
  obtain ⟨-, -, hlaws⟩ := methodKey_normalizes "Booking".toList
  obtain ⟨hdouble, hreplace⟩ := hlaws "Boo".toList 'k' "ing".toList rfl hsingle
  exact ⟨hsingle, hkelvin, hdouble, hreplace kelvinSign hkelvin⟩

-- The dotted capital has two characters in lower case, and cannot be written twice.
example : methodKey [Char.ofNat 0x130, Char.ofNat 0x130] ≠ methodKey [Char.ofNat 0x130] := by
  decide +kernel

end Drawscript
