import Drawscript.Proofs.Source.Block
import Mathlib.Order.Bounds.Basic

/-!
# The extent of a block

Which line closes a block can be said without a scan. A loop or a method is closed by the first line
after its header that closes its kind. A conditional block is closed by the first `end if` up to
which the conditional blocks between are complete, that is, the headers and the terminators of
conditional blocks between pair up (`PairedAt`). `extract_finds_terminator` says that `extract`
finds this line and no other, that the lines between are all handed on, in order, and that the first
`else` outside of all inner conditional blocks divides them. Skippable lines count for nothing.

A scan keeps the number of open conditional blocks, and each line takes that number to another one
(`Line.Passes`). One induction over the lines follows the scan and the pairing together.
-/

set_option autoImplicit false

namespace Drawscript

open Text

/-! ## Roles of lines -/

/-- The first word of a header is its keyword, also if there are blanks after it. -/
theorem firstWord_of_ofHeader? {text : List Char} {kind : BlockKind}
    (h : BlockKind.ofHeader? text = some kind) : (firstWord text).1 = kind.keyword.toList := by
  rw [BlockKind.ofHeader?] at h
  have hafter := List.find?_some h
  rw [afterKeyword?] at hafter
  cases hstarts : kind.keyword.toList.isPrefixOf? text with
  | none =>
    rw [hstarts] at hafter
    cases hafter
  | some rest =>
    have hsplit := List.isPrefixOf?_eq_some_iff_append_eq.1 hstarts
    have hblank : ∀ c ∈ rest.head?, isBlank c = true := by
      intro c hc
      cases rest with
      | nil => cases hc
      | cons first rest =>
        cases hc
        by_contra hne
        rw [hstarts] at hafter
        simp only [if_neg hne, Option.isSome_none, Bool.false_eq_true] at hafter
    rw [← hsplit, firstWord_append kind.isWord_keyword hblank]

namespace Line

/-- The line is not skipped, and it opens a conditional block. -/
def opensConditional (line : Line) : Bool :=
  !line.isSkippable && decide (BlockKind.ofHeader? line.text.toList = some .conditional)

/-- The line is not skipped, and it closes a block of the kind. -/
def ends (kind : BlockKind) (line : Line) : Bool :=
  !line.isSkippable && kind.closes line.text.toList

/-- The line is not skipped, and it is a bare `else`. -/
def divides (line : Line) : Bool :=
  !line.isSkippable && isElse line.text.toList

variable {line : Line} {kind : BlockKind}

theorem opensConditional_iff : line.opensConditional = true ↔
    line.isSkippable = false ∧ BlockKind.ofHeader? line.text.toList = some .conditional := by
  rw [opensConditional, Bool.and_eq_true, Bool.not_eq_true', decide_eq_true_eq]

theorem ends_iff : line.ends kind = true ↔
    line.isSkippable = false ∧ kind.closes line.text.toList = true := by
  rw [ends, Bool.and_eq_true, Bool.not_eq_true']

theorem divides_iff : line.divides = true ↔
    line.isSkippable = false ∧ Drawscript.isElse line.text.toList = true := by
  rw [divides, Bool.and_eq_true, Bool.not_eq_true']

theorem header_ne (hskip : line.isSkippable = false) (h : line.opensConditional = false) :
    BlockKind.ofHeader? line.text.toList ≠ some .conditional := by
  intro hheader
  rw [opensConditional_iff.2 ⟨hskip, hheader⟩] at h
  cases h

theorem closes_eq_false (hskip : line.isSkippable = false) (h : line.ends kind = false) :
    kind.closes line.text.toList = false := by
  rw [ends, hskip] at h
  exact h

/-- A header neither closes nor divides a block. -/
theorem isMark_of_opensConditional (h : line.opensConditional = true) :
    isMark (firstWord line.text.toList).1 = false := by
  rw [firstWord_of_ofHeader? (opensConditional_iff.1 h).2]
  exact isMark_keyword .conditional

theorem opensConditional_of_isMark (h : isMark (firstWord line.text.toList).1 = true) :
    line.opensConditional = false := by
  by_contra hopens
  have hmark := isMark_of_opensConditional (Bool.not_eq_false _ ▸ hopens)
  exact Bool.false_ne_true (hmark.symm.trans h)

/-- No line both opens a conditional block and closes a block. -/
theorem opensConditional_of_ends (h : line.ends kind = true) : line.opensConditional = false :=
  opensConditional_of_isMark (isMark_of_closes (ends_iff.1 h).2)

theorem opensConditional_of_divides (h : line.divides = true) : line.opensConditional = false :=
  opensConditional_of_isMark (isMark_of_isElse (divides_iff.1 h).2)

theorem ends_of_divides (h : line.divides = true) : line.ends kind = false := by
  by_contra hends
  have helse := isElse_of_closes (ends_iff.1 (Bool.not_eq_false _ ▸ hends)).2
  exact Bool.false_ne_true (helse.symm.trans (divides_iff.1 h).2)

/-- The line takes the number of open conditional blocks to another. -/
inductive Passes (line : Line) : Nat → Nat → Prop
  | opens {depth : Nat} (hopens : line.opensConditional = true) : Passes line depth (depth + 1)
  | ends {depth : Nat} (hends : line.ends .conditional = true) : Passes line (depth + 1) depth
  | other {depth : Nat} (hopens : line.opensConditional = false)
      (hends : line.ends .conditional = false) : Passes line depth depth

/-- An `else` does not change the depth. -/
theorem passes_of_divides (h : line.divides = true) (depth : Nat) : line.Passes depth depth :=
  .other (opensConditional_of_divides h) (ends_of_divides h)

/-- A line does so, unless it closes a block when none is open. -/
theorem passes_or_ends (line : Line) (depth : Nat) :
    (∃ depth', line.Passes depth depth') ∨ (depth = 0 ∧ line.ends .conditional = true) := by
  by_cases hends : line.ends .conditional = true
  · cases depth with
    | zero => exact Or.inr ⟨rfl, hends⟩
    | succ depth => exact Or.inl ⟨depth, .ends hends⟩
  · by_cases hopens : line.opensConditional = true
    · exact Or.inl ⟨depth + 1, .opens hopens⟩
    · exact Or.inl ⟨depth, .other (Bool.eq_false_iff.2 hopens) (Bool.eq_false_iff.2 hends)⟩

end Line

namespace Block

/-! ## Headers and terminators that pair up -/

/-- With some conditional blocks open before the lines, the lines close these and all that they
open: they have as many terminators more than headers as blocks are open, and no first part of them
has more than that. -/
structure PairedAt (depth : Nat) (lines : List Line) : Prop where
  total : lines.countP (Line.ends .conditional) = lines.countP Line.opensConditional + depth
  initial : ∀ n, (lines.take n).countP (Line.ends .conditional) ≤
    (lines.take n).countP Line.opensConditional + depth

theorem pairedAt_nil {depth : Nat} : PairedAt depth [] ↔ depth = 0 := by
  constructor
  · intro h
    have htotal := h.total
    simp only [List.countP_nil] at htotal
    omega
  · rintro rfl
    exact ⟨rfl, fun n => by rw [List.take_nil]; exact Nat.le_refl _⟩

end Block

namespace Line.Passes

open Block

variable {line : Line} {depth depth' : Nat}

/-- The first line takes the number of open blocks to that before the others. -/
theorem pairedAt_cons (h : line.Passes depth depth') (lines : List Line) :
    PairedAt depth (line :: lines) ↔ PairedAt depth' lines := by
  -- the line shifts both counts of every first part that it belongs to by the same amounts
  have hshift (part : List Line) :
      (line :: part).countP (Line.ends .conditional) + depth' +
          part.countP Line.opensConditional =
        part.countP (Line.ends .conditional) + depth +
          (line :: part).countP Line.opensConditional := by
    cases h with
    | opens hopens =>
      have hends : line.ends .conditional = false := by
        by_contra hends
        rw [opensConditional_of_ends (Bool.not_eq_false _ ▸ hends)] at hopens
        cases hopens
      simp only [List.countP_cons, hopens, hends, if_true, Bool.false_eq_true, if_false]
      omega
    | ends hends =>
      simp only [List.countP_cons, opensConditional_of_ends hends, hends, if_true,
        Bool.false_eq_true, if_false]
      omega
    | other hopens hends =>
      simp only [List.countP_cons, hopens, hends, Bool.false_eq_true, if_false]
      omega
  constructor
  · rintro ⟨htotal, hinitial⟩
    have hlines := hshift lines
    refine ⟨by omega, fun n => ?_⟩
    have hpart := hshift (lines.take n)
    have hfirst := hinitial (n + 1)
    rw [List.take_succ_cons] at hfirst
    omega
  · rintro ⟨htotal, hinitial⟩
    have hlines := hshift lines
    refine ⟨by omega, fun n => ?_⟩
    cases n with
    | zero => exact Nat.zero_le _
    | succ n =>
      have hpart := hshift (lines.take n)
      have hfirst := hinitial n
      rw [List.take_succ_cons]
      omega

end Line.Passes

namespace Block

variable {line : Line} {depth depth' : Nat} {inElse : Bool}

/-- A line that closes a block when none is open pairs with nothing before it. -/
theorem not_pairedAt_of_ends (h : line.ends .conditional = true) (lines : List Line) :
    ¬ PairedAt 0 (line :: lines) := by
  intro hpaired
  have hfirst := hpaired.initial 1
  rw [List.take_succ_cons, List.take_zero, List.countP_singleton, List.countP_singleton, if_pos h,
    Line.opensConditional_of_ends h] at hfirst
  cases hfirst

/-! ## The lines between header and terminator -/

/-- The lines that are not skipped. -/
def kept (lines : List Line) : List Line :=
  lines.filter fun line => !line.isSkippable

theorem kept_cons (line : Line) (lines : List Line) :
    kept (line :: lines) = kept [line] ++ kept lines :=
  List.filter_append [line] lines

theorem kept_append (first second : List Line) :
    kept (first ++ second) = kept first ++ kept second :=
  List.filter_append first second

theorem kept_of_isSkippable (h : line.isSkippable = true) : kept [line] = [] := by
  rw [kept, List.filter_singleton, h]
  rfl

theorem kept_of_not_isSkippable (h : line.isSkippable = false) : kept [line] = [line] := by
  rw [kept, List.filter_singleton, h]
  rfl

/-- With some conditional blocks open before the lines, the line with the given index is an `else`
outside of all blocks. -/
def DividesAt (depth : Nat) (lines : List Line) (i : Nat) : Prop :=
  ∃ line, lines[i]? = some line ∧ line.divides = true ∧ PairedAt depth (lines.take i)

theorem dividesAt_zero {lines : List Line} :
    DividesAt depth (line :: lines) 0 ↔ line.divides = true ∧ depth = 0 := by
  constructor
  · rintro ⟨line', hline, hdivides, hpaired⟩
    obtain rfl : line = line' := Option.some.inj hline
    exact ⟨hdivides, pairedAt_nil.1 hpaired⟩
  · rintro ⟨hdivides, hdepth⟩
    exact ⟨line, rfl, hdivides, pairedAt_nil.2 hdepth⟩

/-- Whether a later line divides the block is seen from the depth behind the first. -/
theorem dividesAt_succ (h : line.Passes depth depth') {lines : List Line} {i : Nat} :
    DividesAt depth (line :: lines) (i + 1) ↔ DividesAt depth' lines i := by
  rw [DividesAt, DividesAt, List.getElem?_cons_succ, List.take_succ_cons]
  exact exists_congr fun line' => and_congr_right' (and_congr_right' (h.pairedAt_cons _))

/-- The lines of a block make up the parts of a conditional block: its first part ends at the first
`else` outside of all inner blocks, if there is one, and the second part comes after it. -/
inductive Parted (depth : Nat) (lines : List Line) : Block → Prop
  | whole (rest : List Line) (hwhole : ∀ i, ¬ DividesAt depth lines i) :
      Parted depth lines ⟨kept lines, none, rest⟩
  | divided {before after : List Line} {middle : Line} (rest : List Line)
      (hlines : lines = before ++ middle :: after)
      (hmiddle : DividesAt depth lines before.length)
      (hfirst : ∀ i < before.length, ¬ DividesAt depth lines i) :
      Parted depth lines ⟨kept before, some (kept after), rest⟩

theorem Parted.cons (h : line.Passes depth depth') (hline : ¬ (line.divides = true ∧ depth = 0))
    {lines : List Line} {block : Block} (hparted : Parted depth' lines block) :
    Parted depth (line :: lines) (prepend (kept [line]) block) := by
  cases hparted with
  | whole rest hwhole =>
    rw [prepend, ← kept_cons]
    refine .whole rest fun i => ?_
    cases i with
    | zero => exact mt dividesAt_zero.1 hline
    | succ i => exact mt (dividesAt_succ h).1 (hwhole i)
  | @divided before after middle rest hlines hmiddle hfirst =>
    rw [prepend, ← kept_cons]
    refine .divided rest (congrArg (List.cons line) hlines) ((dividesAt_succ h).2 hmiddle) ?_
    intro i hi
    cases i with
    | zero => exact mt dividesAt_zero.1 hline
    | succ i => exact mt (dividesAt_succ h).1 (hfirst i (Nat.lt_of_succ_lt_succ hi))

/-! ## What a scan does with one line -/

/-- A scan of a conditional block goes on behind a line that passes, at the depth that the line
leads to. -/
theorem scanConditional?_of_passes (h : line.Passes depth depth')
    (hline : ¬ (line.divides = true ∧ depth = 0 ∧ inElse = false)) (rest : List Line) :
    scanConditional? depth inElse (line :: rest) =
      (scanConditional? depth' inElse rest).map (prepend (kept [line])) := by
  cases h with
  | opens hopens =>
    obtain ⟨hskip, hheader⟩ := Line.opensConditional_iff.1 hopens
    rw [scanConditional?.eq_def, kept_of_not_isSkippable hskip]
    dsimp only
    rw [hskip, if_neg Bool.false_ne_true, if_pos hheader]
    rfl
  | ends hends =>
    obtain ⟨hskip, hcloses⟩ := Line.ends_iff.1 hends
    have hheader := Line.header_ne hskip (Line.opensConditional_of_ends hends)
    rw [scanConditional?, kept_of_not_isSkippable hskip, hskip, if_neg Bool.false_ne_true,
      if_neg hheader, hcloses]
    rfl
  | other hopens hends =>
    rw [scanConditional?.eq_def]
    dsimp only
    cases hskip : line.isSkippable with
    | true =>
      rw [if_pos rfl, kept_of_isSkippable hskip, prepend_nil, Option.map_id]
      rfl
    | false =>
      have hcloses := Line.closes_eq_false hskip hends
      have helse : ¬ (depth = 0 ∧ inElse = false ∧ isElse line.text.toList = true) := by
        rintro ⟨hdepth, hpart, helse⟩
        exact hline ⟨Line.divides_iff.2 ⟨hskip, helse⟩, hdepth, hpart⟩
      rw [if_neg Bool.false_ne_true, if_neg (Line.header_ne hskip hopens), hcloses,
        if_neg Bool.false_ne_true, if_neg helse, kept_of_not_isSkippable hskip]
      rfl

theorem scanConditional?_of_ends (h : line.ends .conditional = true) (rest : List Line) :
    scanConditional? 0 inElse (line :: rest) = some ⟨[], none, rest⟩ := by
  obtain ⟨hskip, hcloses⟩ := Line.ends_iff.1 h
  have hheader := Line.header_ne hskip (Line.opensConditional_of_ends h)
  rw [scanConditional?, hskip, if_neg Bool.false_ne_true, if_neg hheader, hcloses]
  rfl

theorem scanConditional?_of_divides (h : line.divides = true) (rest : List Line) :
    scanConditional? 0 false (line :: rest) =
      (scanConditional? 0 true rest).map fun block => ⟨[], some block.body, block.rest⟩ := by
  obtain ⟨hskip, helse⟩ := Line.divides_iff.1 h
  have hheader := Line.header_ne hskip (Line.opensConditional_of_divides h)
  have hcloses : BlockKind.conditional.closes line.text.toList = false :=
    Line.closes_eq_false hskip (Line.ends_of_divides h)
  rw [scanConditional?, hskip, if_neg Bool.false_ne_true, if_neg hheader, hcloses,
    if_neg Bool.false_ne_true, helse, if_pos ⟨rfl, rfl, rfl⟩]

/-! ## What a scan finds -/

/-- A scan from some depth finds a terminator up to which the lines pair up. In the second part of a
block all lines are kept, and otherwise the first `else` of the block divides them. -/
theorem scanConditional?_finds {lines : List Line} {block : Block}
    (h : scanConditional? depth inElse lines = some block) :
    ∃ inner last, lines = inner ++ last :: block.rest ∧ last.ends .conditional = true ∧
      PairedAt depth inner ∧
      (inElse = true → block.body = kept inner ∧ block.elseBody = none) ∧
      (inElse = false → Parted depth inner block) := by
  induction lines generalizing depth inElse block with
  | nil => cases h
  | cons line lines ih =>
    rcases line.passes_or_ends depth with ⟨depth', hpasses⟩ | ⟨rfl, hends⟩
    · by_cases hline : line.divides = true ∧ depth = 0 ∧ inElse = false
      · obtain ⟨hdivides, rfl, rfl⟩ := hline
        rw [scanConditional?_of_divides hdivides] at h
        obtain ⟨found, hfound, rfl⟩ := Option.map_eq_some_iff.1 h
        obtain ⟨inner, last, hlines, hends, hpaired, hpart, -⟩ := ih hfound
        refine ⟨line :: inner, last, congrArg (List.cons line) hlines, hends,
          ((Line.passes_of_divides hdivides 0).pairedAt_cons inner).2 hpaired, nofun,
          fun _ => ?_⟩
        -- nothing stands before the `else`, and after it the scan keeps all lines
        have hparted : Parted 0 (line :: inner) ⟨kept [], some (kept inner), found.rest⟩ :=
          .divided found.rest rfl (dividesAt_zero.2 ⟨hdivides, rfl⟩) fun i hi => by cases hi
        rw [(hpart rfl).1]
        exact hparted
      · rw [scanConditional?_of_passes hpasses hline] at h
        obtain ⟨found, hfound, rfl⟩ := Option.map_eq_some_iff.1 h
        obtain ⟨inner, last, hlines, hends, hpaired, hsecond, hfirst⟩ := ih hfound
        refine ⟨line :: inner, last, congrArg (List.cons line) hlines, hends,
          (hpasses.pairedAt_cons inner).2 hpaired, fun hpart => ?_, fun hpart => ?_⟩
        · obtain ⟨hbody, helse⟩ := hsecond hpart
          exact ⟨(congrArg (kept [line] ++ ·) hbody).trans (kept_cons line inner).symm, helse⟩
        · exact (hfirst hpart).cons hpasses fun ⟨hdivides, hdepth⟩ =>
            hline ⟨hdivides, hdepth, hpart⟩
    · rw [scanConditional?_of_ends hends] at h
      cases h
      exact ⟨[], line, rfl, hends, pairedAt_nil.2 rfl, fun _ => ⟨rfl, rfl⟩,
        fun _ => .whole lines fun i ⟨_, hline, _⟩ => by cases hline⟩

/-- A scan does find a terminator up to which the lines pair up. -/
theorem scanConditional?_isSome {inner : List Line} {last : Line} (hpaired : PairedAt depth inner)
    (hlast : last.ends .conditional = true) (rest : List Line) :
    (scanConditional? depth inElse (inner ++ last :: rest)).isSome = true := by
  induction inner generalizing depth inElse with
  | nil =>
    obtain rfl := pairedAt_nil.1 hpaired
    rw [List.nil_append, scanConditional?_of_ends hlast]
    rfl
  | cons line inner ih =>
    rcases line.passes_or_ends depth with ⟨depth', hpasses⟩ | ⟨rfl, hends⟩
    · rw [List.cons_append]
      by_cases hline : line.divides = true ∧ depth = 0 ∧ inElse = false
      · obtain ⟨hdivides, rfl, rfl⟩ := hline
        rw [scanConditional?_of_divides hdivides, Option.isSome_map]
        exact ih (((Line.passes_of_divides hdivides 0).pairedAt_cons inner).1 hpaired)
      · rw [scanConditional?_of_passes hpasses hline, Option.isSome_map]
        exact ih ((hpasses.pairedAt_cons inner).1 hpaired)
    · exact absurd hpaired (not_pairedAt_of_ends hends inner)

theorem scanPlain?_of_ends {kind : BlockKind} (h : line.ends kind = true) (rest : List Line) :
    scanPlain? kind (line :: rest) = some ⟨[], none, rest⟩ := by
  obtain ⟨hskip, hcloses⟩ := Line.ends_iff.1 h
  rw [scanPlain?, hskip, if_neg Bool.false_ne_true, if_pos hcloses]

theorem scanPlain?_of_not_ends {kind : BlockKind} (h : line.ends kind = false) (rest : List Line) :
    scanPlain? kind (line :: rest) = (scanPlain? kind rest).map (prepend (kept [line])) := by
  rw [scanPlain?]
  cases hskip : line.isSkippable with
  | true =>
    rw [if_pos rfl, kept_of_isSkippable hskip, prepend_nil, Option.map_id]
    rfl
  | false =>
    have hcloses := Line.closes_eq_false hskip h
    rw [if_neg Bool.false_ne_true, hcloses, if_neg Bool.false_ne_true,
      kept_of_not_isSkippable hskip]
    rfl

/-- A plain scan finds the first terminator, and keeps all lines before it. -/
theorem scanPlain?_finds {kind : BlockKind} {lines : List Line} {block : Block}
    (h : scanPlain? kind lines = some block) :
    ∃ inner last, lines = inner ++ last :: block.rest ∧ last.ends kind = true ∧
      (∀ line ∈ inner, line.ends kind = false) ∧ block.body = kept inner ∧
      block.elseBody = none := by
  induction lines generalizing block with
  | nil => cases h
  | cons line lines ih =>
    by_cases hends : line.ends kind = true
    · rw [scanPlain?_of_ends hends] at h
      cases h
      exact ⟨[], line, rfl, hends, List.forall_mem_nil _, rfl, rfl⟩
    · have hline := Bool.eq_false_iff.2 hends
      rw [scanPlain?_of_not_ends hline] at h
      obtain ⟨found, hfound, rfl⟩ := Option.map_eq_some_iff.1 h
      obtain ⟨inner, last, hlines, hlast, hinner, hbody, helse⟩ := ih hfound
      exact ⟨line :: inner, last, congrArg (List.cons line) hlines, hlast,
        List.forall_mem_cons.2 ⟨hline, hinner⟩,
        (congrArg (kept [line] ++ ·) hbody).trans (kept_cons line inner).symm, helse⟩

/-- A plain block is found if any line closes its kind. -/
theorem scanPlain?_isSome {kind : BlockKind} {lines : List Line}
    (h : ∃ line ∈ lines, line.ends kind = true) : (scanPlain? kind lines).isSome = true := by
  induction lines with
  | nil =>
    obtain ⟨line, hline, -⟩ := h
    cases hline
  | cons line lines ih =>
    by_cases hends : line.ends kind = true
    · rw [scanPlain?_of_ends hends]
      rfl
    · rw [scanPlain?_of_not_ends (Bool.eq_false_iff.2 hends), Option.isSome_map]
      obtain ⟨last, hlast, hlastends⟩ := h
      rcases List.mem_cons.1 hlast with rfl | hrest
      · exact absurd hlastends hends
      · exact ih ⟨last, hrest, hlastends⟩

/-! ## The extent of a block -/

/-- The lines between two indices. -/
def between (lines : List Line) (start stop : Nat) : List Line :=
  (lines.take stop).drop (start + 1)

/-- The line with index `i` closes the block whose header has index `start`: it comes after the
header and closes a block of the kind, and if that is a conditional block, then the conditional
blocks between are complete. -/
structure EndsAt (lines : List Line) (kind : BlockKind) (start i : Nat) : Prop where
  after : start < i
  line : ∃ line, lines[i]? = some line ∧ line.ends kind = true
  paired : kind = .conditional → PairedAt 0 (between lines start i)

/-- The lines between header and terminator make up the block: they are its body, unless it is a
conditional block with an `else` outside of all inner ones. The first such `else` then divides them,
and all other lines are in one of the two parts. -/
structure Fills (kind : BlockKind) (inner : List Line) (block : Block) : Prop where
  whole : (kind = .conditional → ∀ i, ¬ DividesAt 0 inner i) →
    block.body = kept inner ∧ block.elseBody = none
  divided : kind = .conditional → ∀ i, IsLeast {i | DividesAt 0 inner i} i →
    ∃ middle part, inner[i]? = some middle ∧ block.body = kept (inner.take i) ∧
      block.elseBody = some part ∧ kept inner = block.body ++ middle :: part

/-- A block is divided or it is not. -/
theorem divided_or_whole (kind : BlockKind) (inner : List Line) :
    (kind = .conditional ∧ ∃ i, IsLeast {i | DividesAt 0 inner i} i) ∨
      (kind = .conditional → ∀ i, ¬ DividesAt 0 inner i) := by
  classical
  by_cases hdivided : ∃ i, DividesAt 0 inner i
  · by_cases hkind : kind = .conditional
    · exact Or.inl ⟨hkind, Nat.find hdivided, Nat.find_spec hdivided,
        fun i hi => Nat.find_min' hdivided hi⟩
    · exact Or.inr fun h => absurd h hkind
  · exact Or.inr fun _ => not_exists.1 hdivided

/-- The lines between header and terminator decide what is in the block. -/
theorem Fills.unique {kind : BlockKind} {inner : List Line} {block block' : Block}
    (h : block.Fills kind inner) (h' : block'.Fills kind inner) (hrest : block.rest = block'.rest) :
    block = block' := by
  obtain ⟨body, elseBody, rest⟩ := block
  obtain ⟨body', elseBody', rest'⟩ := block'
  obtain rfl : rest = rest' := hrest
  rcases divided_or_whole kind inner with ⟨hkind, i, hi⟩ | hwhole
  · obtain ⟨middle, part, hmiddle, hbody, helse, hkept⟩ := h.divided hkind i hi
    obtain ⟨middle', part', hmiddle', hbody', helse', hkept'⟩ := h'.divided hkind i hi
    obtain rfl : body = body' := hbody.trans hbody'.symm
    obtain rfl : part = part' :=
      (List.cons.inj (List.append_cancel_left (hkept.symm.trans hkept'))).2
    obtain rfl : elseBody = elseBody' := helse.trans helse'.symm
    rfl
  · obtain ⟨hbody, helse⟩ := h.whole hwhole
    obtain ⟨hbody', helse'⟩ := h'.whole hwhole
    obtain rfl : body = body' := hbody.trans hbody'.symm
    obtain rfl : elseBody = elseBody' := helse.trans helse'.symm
    rfl

/-- What a scan parts at depth zero fills a conditional block. -/
theorem Parted.fills {inner : List Line} {block : Block} (h : Parted 0 inner block) :
    block.Fills .conditional inner := by
  cases h with
  | whole rest hwhole =>
    exact ⟨fun _ => ⟨rfl, rfl⟩, fun _ i hi => absurd hi.1 (hwhole i)⟩
  | @divided before after middle rest hlines hmiddle hfirst =>
    refine ⟨fun hwhole => absurd hmiddle (hwhole rfl _), fun _ i hi => ?_⟩
    -- the first `else` is the one before which there is none
    obtain rfl : i = before.length :=
      Nat.le_antisymm (hi.2 hmiddle) (Nat.le_of_not_lt fun hlt => hfirst i hlt hi.1)
    have hget : inner[before.length]? = some middle := by
      rw [hlines, List.getElem?_append_right (Nat.le_refl _), Nat.sub_self]
      rfl
    obtain ⟨line, hline, hdivides, -⟩ := hmiddle
    obtain rfl : middle = line := Option.some.inj (hget.symm.trans hline)
    refine ⟨middle, kept after, hget, ?_, rfl, ?_⟩
    · rw [hlines, List.take_left]
    · rw [hlines, kept_append, kept_cons, kept_of_not_isSkippable (Line.divides_iff.1 hdivides).1]
      rfl

/-- Lines that pair up do not pair up already before a terminator among them. -/
theorem PairedAt.not_ends {inner : List Line} (h : PairedAt depth inner) {i : Nat}
    (hline : inner[i]? = some line) (hends : line.ends .conditional = true) :
    ¬ PairedAt depth (inner.take i) := by
  intro hbefore
  have hfirst := h.initial (i + 1)
  rw [List.take_add_one, hline, Option.toList_some, List.countP_append, List.countP_append,
    List.countP_singleton, List.countP_singleton, if_pos hends,
    Line.opensConditional_of_ends hends, hbefore.total] at hfirst
  simp only [Bool.false_eq_true, if_false] at hfirst
  omega

/-- What a scan finds is the first line that closes the block, and what it hands on are the lines
before that. -/
theorem scan?_finds {kind : BlockKind} {lines : List Line} {block : Block}
    (h : scan? kind lines = some block) :
    ∃ inner last, lines = inner ++ last :: block.rest ∧ last.ends kind = true ∧
      (kind = .conditional → PairedAt 0 inner) ∧
      (∀ i line, inner[i]? = some line → line.ends kind = true →
        kind = .conditional ∧ ¬ PairedAt 0 (inner.take i)) ∧
      block.Fills kind inner := by
  rw [scan?] at h
  by_cases hkind : kind = .conditional
  · subst hkind
    rw [if_pos rfl] at h
    obtain ⟨inner, last, hlines, hends, hpaired, -, hparted⟩ := scanConditional?_finds h
    exact ⟨inner, last, hlines, hends, fun _ => hpaired,
      fun i line hline hline' => ⟨rfl, hpaired.not_ends hline hline'⟩, (hparted rfl).fills⟩
  · rw [if_neg hkind] at h
    obtain ⟨inner, last, hlines, hends, hfree, hbody, helse⟩ := scanPlain?_finds h
    refine ⟨inner, last, hlines, hends, fun h => absurd h hkind, fun i line hline hline' => ?_,
      fun _ => ⟨hbody, helse⟩, fun h => absurd h hkind⟩
    rw [hfree line (List.mem_of_getElem? hline)] at hline'
    cases hline'

/-- A block is found if a line closes it and the conditional blocks before that line pair up. -/
theorem scan?_isSome {kind : BlockKind} {inner : List Line} {last : Line}
    (hlast : last.ends kind = true) (hpaired : kind = .conditional → PairedAt 0 inner)
    (rest : List Line) : (scan? kind (inner ++ last :: rest)).isSome = true := by
  rw [scan?]
  by_cases hkind : kind = .conditional
  · subst hkind
    rw [if_pos rfl]
    exact scanConditional?_isSome (hpaired rfl) hlast rest
  · rw [if_neg hkind]
    exact scanPlain?_isSome ⟨last, List.mem_append_right inner List.mem_cons_self, hlast⟩

/-! ## Indices -/

theorem between_eq {lines inner rest : List Line} {start : Nat}
    (h : lines.drop (start + 1) = inner ++ rest) :
    between lines start (start + 1 + inner.length) = inner := by
  rw [between, List.drop_take, h, Nat.add_sub_cancel_left, List.take_left]

/-- The lines after a header, taken apart at the line with a later index. -/
theorem drop_eq_between {lines : List Line} {start i : Nat} (hi : start < i)
    (hline : lines[i]? = some line) :
    lines.drop (start + 1) = between lines start i ++ line :: lines.drop (i + 1) ∧
      i = start + 1 + (between lines start i).length := by
  obtain ⟨hlength, hget⟩ := List.getElem?_eq_some_iff.1 hline
  have hsplit : lines = lines.take i ++ line :: lines.drop (i + 1) := by
    rw [← hget, List.cons_getElem_drop_succ, List.take_append_drop]
  have hbefore : (lines.take i).length = i := List.length_take_of_le (Nat.le_of_lt hlength)
  constructor
  · conv_lhs => rw [hsplit]
    rw [between, List.drop_append_of_le_length (by omega)]
  · rw [between, List.length_drop, hbefore]
    omega

/-- Where a block ends, in terms of the lines after its header. -/
theorem endsAt_iff {lines : List Line} {kind : BlockKind} {start i : Nat} :
    EndsAt lines kind start i ↔ ∃ inner last rest, lines.drop (start + 1) = inner ++ last :: rest ∧
      i = start + 1 + inner.length ∧ last.ends kind = true ∧
      (kind = .conditional → PairedAt 0 inner) := by
  constructor
  · rintro ⟨hafter, ⟨line, hline, hends⟩, hpaired⟩
    obtain ⟨hdrop, hindex⟩ := drop_eq_between hafter hline
    exact ⟨_, line, _, hdrop, hindex, hends, hpaired⟩
  · rintro ⟨inner, last, rest, hdrop, rfl, hends, hpaired⟩
    refine ⟨by omega, ⟨last, ?_, hends⟩, ?_⟩
    · rw [← List.getElem?_drop, hdrop, List.getElem?_append_right (Nat.le_refl _), Nat.sub_self]
      rfl
    · rw [between_eq hdrop]
      exact hpaired

/-- The line that closes the block, and the lines after it, by their indices. -/
theorem index_of_drop {lines inner rest : List Line} {start : Nat}
    (h : lines.drop (start + 1) = inner ++ line :: rest) :
    lines.length - rest.length - 1 = start + 1 + inner.length ∧
      rest = lines.drop (start + 1 + inner.length + 1) := by
  have hlength : lines.length - (start + 1) = inner.length + (rest.length + 1) := by
    rw [← List.length_drop, h, List.length_append, List.length_cons]
  have hrest := congrArg (List.drop (inner.length + 1)) h
  rw [List.drop_drop, List.drop_append, List.drop_of_length_le (Nat.le_succ _), List.nil_append,
    Nat.add_sub_cancel_left, List.drop_succ_cons, List.drop_zero] at hrest
  exact ⟨by omega, hrest.symm⟩

/-- The block that is found ends at the first line that closes it. -/
theorem isLeast_of_extract {lines : List Line} {start stop : Nat} {kind : BlockKind} {block : Block}
    (h : extract lines start kind = .ok (block, stop)) :
    IsLeast {i | EndsAt lines kind start i} stop ∧ block.Fills kind (between lines start stop) ∧
      block.rest = lines.drop (stop + 1) := by
  rw [extract] at h
  cases hscan : scan? kind (lines.drop (start + 1)) with
  | none =>
    rw [hscan] at h
    cases h
  | some found =>
    rw [hscan] at h
    cases h
    obtain ⟨inner, last, hdrop, hends, hpaired, hfirst, hfills⟩ := scan?_finds hscan
    obtain ⟨hstop, hrest⟩ := index_of_drop hdrop
    rw [hstop, between_eq hdrop]
    refine ⟨⟨endsAt_iff.2 ⟨inner, last, _, hdrop, rfl, hends, hpaired⟩, fun i hi => ?_⟩, hfills,
      hrest⟩
    obtain ⟨inner', last', rest', hdrop', rfl, hends', hpaired'⟩ := endsAt_iff.1 hi
    by_contra hearlier
    have hlt : inner'.length < inner.length := by omega
    -- a line that closes the block earlier would be one of those that the scan has passed over
    have hsplit : inner ++ last :: block.rest = inner' ++ last' :: rest' := hdrop.symm.trans hdrop'
    have hline : inner[inner'.length]? = some last' := by
      rw [← List.getElem?_append_left hlt, hsplit, List.getElem?_append_right (Nat.le_refl _),
        Nat.sub_self]
      rfl
    have htake : inner.take inner'.length = inner' := by
      rw [← List.take_append_of_le_length (Nat.le_of_lt hlt), hsplit, List.take_left]
    obtain ⟨hkind, hunpaired⟩ := hfirst _ _ hline hends'
    exact hunpaired (htake.symm ▸ hpaired' hkind)

/-- An end of the block among the lines is enough for the block to be extracted. -/
theorem exists_extract {lines : List Line} {start i : Nat} {kind : BlockKind}
    (h : EndsAt lines kind start i) :
    ∃ block stop, extract lines start kind = .ok (block, stop) := by
  obtain ⟨inner, last, rest, hdrop, -, hends, hpaired⟩ := endsAt_iff.1 h
  have hsome := scan?_isSome hends hpaired rest
  rw [← hdrop] at hsome
  obtain ⟨block, hblock⟩ := Option.isSome_iff_exists.1 hsome
  exact ⟨block, _, by rw [extract, hblock]⟩

/-- The block that is found for a header ends at the first line after it that closes it. Up to there
every line that is not skipped is in the block, but for the first `else` of a conditional block. The
terminator is missing if and only if there is no line that closes the block. -/
theorem extract_finds_terminator (lines : List Line) (start : Nat) (kind : BlockKind) :
    (∀ block stop, extract lines start kind = .ok (block, stop) ↔
      IsLeast {i | EndsAt lines kind start i} stop ∧ block.Fills kind (between lines start stop) ∧
        block.rest = lines.drop (stop + 1)) ∧
    (extract lines start kind = .error (.missingTerminator kind) ↔
      ∀ i, ¬ EndsAt lines kind start i) := by
  refine ⟨fun block stop => ⟨isLeast_of_extract, ?_⟩, ?_, ?_⟩
  · rintro ⟨hleast, hfills, hrest⟩
    obtain ⟨found, stop', hfound⟩ := exists_extract hleast.1
    obtain ⟨hleast', hfills', hrest'⟩ := isLeast_of_extract hfound
    obtain rfl : stop = stop' := hleast.unique hleast'
    rw [hfound, hfills.unique hfills' (hrest.trans hrest'.symm)]
  · intro herror i hi
    obtain ⟨block, stop, hfound⟩ := exists_extract hi
    rw [hfound] at herror
    cases herror
  · intro hnone
    cases hscan : scan? kind (lines.drop (start + 1)) with
    | none => rw [extract, hscan]
    | some block =>
      have hfound : extract lines start kind =
          .ok (block, lines.length - block.rest.length - 1) := by
        rw [extract, hscan]
      exact absurd (isLeast_of_extract hfound).1.1 (hnone _)

end Block

end Drawscript
