import Drawscript.Proofs.Text.Match
import Drawscript.Text.LowerCase

/-!
# Lower case and word characters

On ASCII characters the lower-case form is the usual one (`lowerCase_of_ascii`). Of all other
characters only the Kelvin sign has a lower-case form that is made of word characters, namely the
letter `k` (`isWordChar_of_lowerCase`). A lower-case form does not change in lower case once more
(`lowerCase_of_mem_lowerCase`): no small letter of a run of capitals is itself a capital.
-/

set_option autoImplicit false

namespace Drawscript.Text

variable {c d : Char}

/-- The Kelvin sign, a capital letter that looks like `K`. -/
def kelvinSign : Char :=
  Char.ofNat 0x212A

theorem lowerCase_ne_nil (c : Char) : lowerCase c ≠ [] := by
  rw [lowerCase]
  split
  · exact List.cons_ne_nil _ _
  · split
    · exact List.cons_ne_nil _ _
    · exact List.cons_ne_nil _ _

/-- On ASCII characters lower case is that of the library. -/
theorem lowerCase_of_ascii (h : c.toNat < 128) : lowerCase c = [c.toLower] := by
  have hall : ∀ code < 128, lowerCase (Char.ofNat code) = [(Char.ofNat code).toLower] := by
    decide +kernel
  rw [← Char.ofNat_toNat c]
  exact hall _ h

theorem lowerCase_of_isWordChar (h : isWordChar c = true) : lowerCase c = [c.toLower] := by
  have hcode := isWordChar_iff.1 h
  exact lowerCase_of_ascii (by omega)

/-- Changing ASCII capitals to small letters first makes no difference. -/
theorem lowerCase_toLower (c : Char) : lowerCase c.toLower = lowerCase c := by
  have hcode := toNat_toLower c
  by_cases hupper : 65 ≤ c.toNat ∧ c.toNat ≤ 90
  · rw [if_pos hupper] at hcode
    have hlower : c.toLower.toLower = c.toLower := by
      rw [← Char.toNat_inj, toNat_toLower, if_neg (by omega)]
    rw [lowerCase_of_ascii (by omega), lowerCase_of_ascii (by omega), hlower]
  · rw [if_neg hupper, Char.toNat_inj] at hcode
    rw [hcode]

/-- Two runs of capital letters have small letters in ASCII: the ASCII capitals, and the Kelvin
sign. -/
theorem run_of_small {run : CapitalRun} (hrun : run ∈ capitalRuns) (hsmall : run.small < 128) :
    (run.first = 0x41 ∧ run.last = 0x5A) ∨ (run.first = 0x212A ∧ run.last = 0x212A) := by
  revert run
  decide +kernel

/-- The Kelvin sign is the only character outside of words whose lower case is in them. -/
theorem isWordChar_of_lowerCase (h : ∀ d ∈ lowerCase c, isWordChar d = true) :
    isWordChar c = true ∨ c = kelvinSign := by
  rw [lowerCase] at h
  by_cases hdotted : c.toNat = 0x130
  · -- the combining dot of its lower-case form is no word character
    rw [if_pos hdotted] at h
    have hdot : isWordChar (Char.ofNat 0x307) = true :=
      h _ (List.mem_cons_of_mem _ List.mem_cons_self)
    exact absurd hdot (by decide)
  rw [if_neg hdotted] at h
  cases hfind : capitalRuns.find? (·.covers c.toNat) with
  | none =>
    rw [hfind] at h
    exact Or.inl (h c List.mem_cons_self)
  | some run =>
    rw [hfind] at h
    have hcode := isWordChar_iff.1 (h _ List.mem_cons_self)
    rw [Char.toNat_ofNat] at hcode
    have hcovers := List.find?_some hfind
    simp only [CapitalRun.covers, Bool.and_eq_true, decide_eq_true_eq] at hcovers
    have hsmall : run.small < 128 := by
      split at hcode <;> omega
    rcases run_of_small (List.mem_of_find?_eq_some hfind) hsmall with
      ⟨hfirst, hlast⟩ | ⟨hfirst, hlast⟩
    · exact Or.inl (isWordChar_iff.2 (by omega))
    · have hkelvin : c.toNat = 0x212A := by omega
      refine Or.inr ?_
      rw [← Char.ofNat_toNat c, hkelvin]
      rfl

/-! ## Small letters -/

/-- No small letter of the one run is a capital letter of the other: they lie in different ranges,
or one is of even code where the other is of odd code. -/
def CapitalRun.apart (run other : CapitalRun) : Bool :=
  Nat.blt (run.small + (run.last - run.first)) other.first || Nat.blt other.last run.small ||
    ((run.first == run.last || run.step == 2) && other.step == 2 &&
      (run.small + other.first) % 2 == 1)

theorem apart_of_mem {run other : CapitalRun} (hrun : run ∈ capitalRuns)
    (hother : other ∈ capitalRuns) : run.apart other = true := by
  have hall : capitalRuns.all (fun run => capitalRuns.all run.apart) = true := by
    decide +kernel
  exact List.all_eq_true.1 (List.all_eq_true.1 hall run hrun) other hother

/-- Runs that are apart do not lead from one to the other. -/
theorem covers_of_apart {run other : CapitalRun} (h : run.apart other = true) {code : Nat}
    (hcode : run.covers code = true) :
    other.covers (run.small + (code - run.first)) = false := by
  simp only [CapitalRun.covers, Bool.and_eq_true, decide_eq_true_eq, beq_iff_eq] at hcode
  simp only [CapitalRun.covers, Bool.and_eq_false_iff, decide_eq_false_iff_not,
    beq_eq_false_iff_ne]
  simp only [CapitalRun.apart, Bool.or_eq_true, Bool.and_eq_true, Nat.blt_eq, beq_iff_eq] at h
  obtain ⟨hlow, hstep⟩ := hcode
  rcases h with (hbelow | habove) | ⟨⟨hstride, hother⟩, hparity⟩
  · omega
  · omega
  · rw [hother]
    rcases hstride with hsingle | hstride
    · omega
    · rw [hstride] at hstep
      omega

/-- The codes of small letters are codes of characters, and none is that of the dotted capital. -/
theorem small_of_mem {run : CapitalRun} (hrun : run ∈ capitalRuns) :
    (run.small + (run.last - run.first) < 0x130 ∨ 0x130 < run.small) ∧
      (run.small + (run.last - run.first) < 0xD800 ∨
        0xDFFF < run.small ∧ run.small + (run.last - run.first) < 0x110000) := by
  revert run
  decide +kernel

/-- The characters of a lower-case form are in lower case. -/
theorem lowerCase_of_mem_lowerCase (h : d ∈ lowerCase c) : lowerCase d = [d] := by
  rw [lowerCase] at h
  by_cases hdotted : c.toNat = 0x130
  · rw [if_pos hdotted, List.mem_pair] at h
    rcases h with rfl | rfl <;> decide +kernel
  rw [if_neg hdotted] at h
  cases hfind : capitalRuns.find? (·.covers c.toNat) with
  | none =>
    rw [hfind, List.mem_singleton] at h
    rw [h, lowerCase, if_neg hdotted, hfind]
  | some run =>
    rw [hfind, List.mem_singleton] at h
    have hrun := List.mem_of_find?_eq_some hfind
    have hcovers := List.find?_some hfind
    have hrange := hcovers
    simp only [CapitalRun.covers, Bool.and_eq_true, decide_eq_true_eq] at hrange
    obtain ⟨hplain, hvalid⟩ := small_of_mem hrun
    have hcode : d.toNat = run.small + (c.toNat - run.first) := by
      rw [h, Char.toNat_ofNat, if_pos]
      rw [Nat.isValidChar]
      omega
    have hnone : capitalRuns.find? (·.covers d.toNat) = none := by
      rw [List.find?_eq_none, hcode]
      intro other hother
      rw [covers_of_apart (apart_of_mem hrun hother) hcovers]
      exact Bool.false_ne_true
    rw [lowerCase, if_neg (by omega), hnone]

end Drawscript.Text
