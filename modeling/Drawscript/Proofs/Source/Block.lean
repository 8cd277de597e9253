import Drawscript.Proofs.Source.Keyword
import Drawscript.Source.Block

/-!
# Scans of blocks

What a scan returns is made of the lines it was given, in order and without one that carries a
statement left out (`scan?_thins`), and the body of a plain block holds no line that closes its kind
(`scanPlain?_free`). Conversely a plain block is found again around lines that
do not close it (`scanPlain?_append`), and a conditional one around lines in which conditional
blocks are complete (`Balanced.scan_ifThen`, `Balanced.scan_ifElse`): such lines are passed over by
a scan (`Balanced.scan_append`), whichever block it is looking for the end of.
-/

set_option autoImplicit false

namespace Drawscript

open Text

/-! ## Roles of lines -/

namespace Line

/-- The line has no blanks at its ends. -/
def Tidy (line : Line) : Prop :=
  trim line.text.toList = line.text.toList

/-- The first word of the line. -/
def lead (line : Line) : List Char :=
  (firstWord line.text.toList).1

/-- The line opens a block of the kind. -/
structure Opens (line : Line) (kind : BlockKind) : Prop where
  tidy : line.Tidy
  header : BlockKind.ofHeader? line.text.toList = some kind

/-- The line closes a block of the kind. -/
structure Closes (line : Line) (kind : BlockKind) : Prop where
  tidy : line.Tidy
  closes : kind.closes line.text.toList = true

/-- The line is a bare `else`. -/
structure Divides (line : Line) : Prop where
  tidy : line.Tidy
  isElse : isElse line.text.toList = true

/-- The line is a part of no conditional block. -/
structure Neutral (line : Line) : Prop where
  skippable : line.isSkippable = false
  header : BlockKind.ofHeader? line.text.toList ≠ some .conditional
  closes : BlockKind.conditional.closes line.text.toList = false
  isElse : isElse line.text.toList = false

/-- The line is there to carry a statement: it is not skipped, and it neither closes nor divides a
block. -/
def carriesStatement (line : Line) : Bool :=
  !line.isSkippable && !isTerminator line.text.toList && !Drawscript.isElse line.text.toList

variable {line : Line} {kind : BlockKind}

theorem carriesStatement_of_isSkippable (h : line.isSkippable = true) :
    line.carriesStatement = false := by
  rw [carriesStatement, h]
  rfl

theorem carriesStatement_of_closes (h : kind.closes line.text.toList = true) :
    line.carriesStatement = false := by
  have hterminator : isTerminator line.text.toList = true :=
    List.any_eq_true.2 ⟨kind, by cases kind <;> decide, h⟩
  rw [carriesStatement, hterminator, Bool.not_true, Bool.and_false, Bool.false_and]

theorem carriesStatement_of_isElse (h : Drawscript.isElse line.text.toList = true) :
    line.carriesStatement = false := by
  rw [carriesStatement, h, Bool.not_true, Bool.and_false]

/-- A line is read if it has a first word that does not start with a star. -/
theorem isSkippable_eq_false (htidy : line.Tidy) (hne : line.lead ≠ [])
    (hstar : line.lead.head? ≠ some '*') : line.isSkippable = false := by
  have htext : trim line.text.toList ≠ [] := by
    intro hempty
    rw [lead, firstWord, hempty] at hne
    exact hne rfl
  obtain ⟨hword, rest, hsplit, -, -⟩ := exists_eq_firstWord htext
  have hhead : line.text.toList.head? = line.lead.head? := by
    rw [← htidy, hsplit]
    exact List.head?_append_of_ne_nil _ hne
  have hempty : line.text.isEmpty = false := by
    rw [Bool.eq_false_iff]
    intro h
    rw [String.isEmpty_iff.1 h] at htext
    exact htext rfl
  rw [isSkippable, hempty, hhead, decide_eq_false hstar]
  rfl

/-- No line whose first word divides or closes blocks opens one. -/
theorem ofHeader?_of_isMark (htidy : line.Tidy) (hmark : isMark line.lead = true) :
    BlockKind.ofHeader? line.text.toList = none := by
  refine ofHeader?_eq_none htidy fun kind hlead => ?_
  rw [lead, hlead] at hmark
  revert hmark
  cases kind <;> decide

/-- No line whose first word divides or closes blocks is skipped. -/
theorem isSkippable_of_isMark (htidy : line.Tidy) (hmark : isMark line.lead = true) :
    line.isSkippable = false := by
  refine isSkippable_eq_false htidy (fun hnil => ?_) fun hstar => ?_
  · rw [hnil] at hmark
    revert hmark
    decide
  · obtain ⟨rest, hlead⟩ := List.head?_eq_some_iff.1 hstar
    rw [hlead] at hmark
    -- no mark starts with a star, which is its own lower case
    simp [isMark, lowered] at hmark

namespace Opens

/-- A line that opens a block starts with the keyword of its kind. -/
theorem lead_eq (h : line.Opens kind) : line.lead = kind.keyword.toList :=
  (ofHeader?_eq_some_iff h.tidy).1 h.header

theorem isMark_eq_false (h : line.Opens kind) : isMark line.lead = false := by
  rw [h.lead_eq]
  exact isMark_keyword kind

theorem skippable (h : line.Opens kind) : line.isSkippable = false := by
  refine isSkippable_eq_false h.tidy ?_ ?_ <;> rw [h.lead_eq] <;> cases kind <;> decide

theorem closes (h : line.Opens kind) (kind' : BlockKind) :
    kind'.closes line.text.toList = false :=
  closes_eq_false_of_isMark h.isMark_eq_false kind'

theorem isElse (h : line.Opens kind) : Drawscript.isElse line.text.toList = false := by
  by_contra helse
  have hmark := isMark_of_isElse (Bool.not_eq_false _ ▸ helse)
  exact Bool.false_ne_true (h.isMark_eq_false.symm.trans hmark)

/-- The header of a block counts as a line that carries a statement. -/
theorem carriesStatement (h : line.Opens kind) : line.carriesStatement = true := by
  have hterminator : isTerminator line.text.toList = false := by
    rw [isTerminator, List.any_eq_false]
    intro kind' _ hcloses
    rw [h.closes kind'] at hcloses
    cases hcloses
  rw [Line.carriesStatement, h.skippable, hterminator, h.isElse]
  rfl

/-- To a scan of a conditional block, the header of another kind of block is a line like any
other. -/
theorem neutral (h : line.Opens kind) (hkind : kind ≠ .conditional) : line.Neutral where
  skippable := h.skippable
  header := by
    rw [h.header]
    exact fun heq => hkind (Option.some.inj heq)
  closes := h.closes .conditional
  isElse := h.isElse

end Opens

theorem Closes.isMark (h : line.Closes kind) : isMark line.lead = true :=
  isMark_of_closes h.closes

theorem Closes.skippable (h : line.Closes kind) : line.isSkippable = false :=
  isSkippable_of_isMark h.tidy h.isMark

/-- No line both closes a block and opens one. -/
theorem Closes.header (h : line.Closes kind) : BlockKind.ofHeader? line.text.toList = none :=
  ofHeader?_of_isMark h.tidy h.isMark

/-- A line closes blocks of one kind only. -/
theorem Closes.closes_eq_false (h : line.Closes kind) {kind' : BlockKind} (hkind : kind ≠ kind') :
    kind'.closes line.text.toList = false := by
  by_contra hcloses
  exact hkind (closes_unique h.closes (Bool.not_eq_false _ ▸ hcloses))

/-- To a scan of a conditional block, the end of another kind of block is a line like any other. -/
theorem Closes.neutral (h : line.Closes kind) (hkind : kind ≠ .conditional) : line.Neutral where
  skippable := h.skippable
  header := by
    rw [h.header]
    exact nofun
  closes := h.closes_eq_false hkind
  isElse := isElse_of_closes h.closes

theorem Divides.isMark (h : line.Divides) : isMark line.lead = true :=
  isMark_of_isElse h.isElse

theorem Divides.skippable (h : line.Divides) : line.isSkippable = false :=
  isSkippable_of_isMark h.tidy h.isMark

theorem Divides.header (h : line.Divides) : BlockKind.ofHeader? line.text.toList = none :=
  ofHeader?_of_isMark h.tidy h.isMark

/-- A bare `else` closes no block. -/
theorem Divides.closes (h : line.Divides) (kind : BlockKind) :
    kind.closes line.text.toList = false := by
  by_contra hcloses
  have helse := isElse_of_closes (Bool.not_eq_false _ ▸ hcloses)
  exact Bool.false_ne_true (helse.symm.trans h.isElse)

end Line

namespace Block

/-! ## What a scan returns -/

/-- Some of the lines, in order, with all that carry a statement among them. -/
structure Thins (kept lines : List Line) : Prop where
  sublist : kept.Sublist lines
  carriers : kept.filter Line.carriesStatement = lines.filter Line.carriesStatement

theorem thins_refl (lines : List Line) : Thins lines lines :=
  ⟨List.Sublist.refl lines, rfl⟩

/-- Thinning the lines after one that is kept. -/
theorem Thins.cons {kept lines : List Line} (h : Thins kept lines) (line : Line) :
    Thins (line :: kept) (line :: lines) where
  sublist := h.sublist.cons_cons line
  carriers := by rw [List.filter_cons, List.filter_cons, h.carriers]

/-- A line may be left out if it carries no statement. -/
theorem Thins.drop {kept lines : List Line} (h : Thins kept lines) {line : Line}
    (hline : line.carriesStatement = false) : Thins kept (line :: lines) where
  sublist := h.sublist.cons line
  carriers := by
    rw [h.carriers, List.filter_cons_of_neg]
    rw [hline]
    exact Bool.false_ne_true

/-- The lines of a block and those after it, in order. -/
def lines (block : Block) : List Line :=
  block.body ++ block.elseBody.getD [] ++ block.rest

/-- In a plain block only skipped lines and the closing one are left out, none of which carries a
statement. -/
theorem scanPlain?_thins {kind : BlockKind} {lines : List Line} {block : Block}
    (h : scanPlain? kind lines = some block) : Thins block.lines lines := by
  induction lines generalizing block with
  | nil => cases h
  | cons line rest ih =>
    rw [scanPlain?] at h
    by_cases hskip : line.isSkippable = true
    · rw [if_pos hskip] at h
      exact (ih h).drop (Line.carriesStatement_of_isSkippable hskip)
    · rw [if_neg hskip] at h
      by_cases hcloses : kind.closes line.text.toList = true
      · rw [if_pos hcloses] at h
        cases h
        exact (thins_refl rest).drop (Line.carriesStatement_of_closes hcloses)
      · rw [if_neg hcloses] at h
        obtain ⟨inner, hinner, rfl⟩ := Option.map_eq_some_iff.1 h
        exact (ih hinner).cons line

/-- In a conditional block the `else` that divides it is left out as well. The second half carries
the induction: once in its second part, a block is not divided again. -/
theorem scanConditional?_thins {depth : Nat} {inElse : Bool} {lines : List Line} {block : Block}
    (h : scanConditional? depth inElse lines = some block) :
    Thins block.lines lines ∧ (inElse = true → block.elseBody = none) := by
  induction lines generalizing depth inElse block with
  | nil => cases h
  | cons line rest ih =>
    have hkeep {d : Nat}
        (hmap : (scanConditional? d inElse rest).map (fun b => { b with body := line :: b.body }) =
          some block) :
        Thins block.lines (line :: rest) ∧ (inElse = true → block.elseBody = none) := by
      obtain ⟨inner, hinner, rfl⟩ := Option.map_eq_some_iff.1 hmap
      obtain ⟨hthins, hpart⟩ := ih hinner
      exact ⟨hthins.cons line, hpart⟩
    simp only [scanConditional?] at h
    split at h
    · rename_i hskip
      obtain ⟨hthins, hpart⟩ := ih h
      exact ⟨hthins.drop (Line.carriesStatement_of_isSkippable hskip), hpart⟩
    · split at h
      · exact hkeep h
      · split at h
        · rename_i hcloses
          cases depth with
          | zero =>
            cases h
            exact ⟨(thins_refl rest).drop (Line.carriesStatement_of_closes hcloses), fun _ => rfl⟩
          | succ depth => exact hkeep h
        · split at h
          · rename_i helse
            obtain ⟨-, hfirst, helse⟩ := helse
            obtain ⟨inner, hinner, rfl⟩ := Option.map_eq_some_iff.1 h
            obtain ⟨hthins, hpart⟩ := ih hinner
            refine ⟨?_, fun hsecond => ?_⟩
            · -- what was found after the `else` has one part, which becomes the second
              have hlines : inner.lines = inner.body ++ inner.rest := by
                rw [Block.lines, hpart rfl, Option.getD_none, List.append_nil]
              rw [hlines] at hthins
              exact hthins.drop (Line.carriesStatement_of_isElse helse)
            · rw [hfirst] at hsecond
              cases hsecond
          · exact hkeep h

/-- A scan keeps the order of lines, and leaves out none that carries a statement. -/
theorem scan?_thins {kind : BlockKind} {lines : List Line} {block : Block}
    (h : scan? kind lines = some block) : Thins block.lines lines := by
  unfold scan? at h
  split at h
  · exact (scanConditional?_thins h).1
  · exact scanPlain?_thins h

/-- A plain block has one part, in which no line closes it, and some line does close it. -/
theorem scanPlain?_free {kind : BlockKind} {lines : List Line} {block : Block}
    (h : scanPlain? kind lines = some block) :
    block.elseBody = none ∧ (∀ line ∈ block.body, kind.closes line.text.toList = false) ∧
      ∃ last ∈ lines, kind.closes last.text.toList = true := by
  induction lines generalizing block with
  | nil => cases h
  | cons line rest ih =>
    rw [scanPlain?] at h
    by_cases hskip : line.isSkippable = true
    · rw [if_pos hskip] at h
      obtain ⟨hpart, hfree, last, hlast, hcloses⟩ := ih h
      exact ⟨hpart, hfree, last, List.mem_cons_of_mem _ hlast, hcloses⟩
    · rw [if_neg hskip] at h
      by_cases hcloses : kind.closes line.text.toList = true
      · rw [if_pos hcloses] at h
        cases h
        exact ⟨rfl, fun _ hmem => absurd hmem List.not_mem_nil, line, List.mem_cons_self, hcloses⟩
      · rw [if_neg hcloses] at h
        obtain ⟨inner, hinner, rfl⟩ := Option.map_eq_some_iff.1 h
        obtain ⟨hpart, hfree, last, hlast, hlastcloses⟩ := ih hinner
        exact ⟨hpart, List.forall_mem_cons.2 ⟨Bool.eq_false_iff.2 hcloses, hfree⟩, last,
          List.mem_cons_of_mem _ hlast, hlastcloses⟩

/-- The lines of a block found among some lines are all among them. -/
structure Within (block : Block) (lines : List Line) : Prop where
  body : block.body ⊆ lines
  elseBody : ∀ part ∈ block.elseBody, part ⊆ lines
  rest : block.rest ⊆ lines

/-- The lines of a block are in the order of those it was found among, hence among them. -/
theorem Thins.within {block : Block} {lines : List Line} (h : Thins block.lines lines) :
    block.Within lines where
  body := by
    intro line hline
    apply h.sublist.subset
    exact List.mem_append_left _ (List.mem_append_left _ hline)
  elseBody := by
    intro part hpart line hline
    apply h.sublist.subset
    rw [Block.lines, Option.mem_def.1 hpart, Option.getD_some]
    exact List.mem_append_left _ (List.mem_append_right _ hline)
  rest := by
    intro line hline
    apply h.sublist.subset
    exact List.mem_append_right _ hline

/-- A scan finds nothing that was not among the lines. -/
theorem scan?_within {kind : BlockKind} {lines : List Line} {block : Block}
    (h : scan? kind lines = some block) : block.Within lines :=
  (scan?_thins h).within

/-- The parts of a block, of which only a conditional one can have two. -/
def parts (block : Block) : List (List Line) :=
  block.body :: block.elseBody.toList

/-- What holds of the body, and of the second part if there is one, holds of all parts. -/
theorem forall_mem_parts {P : List Line → Prop} {block : Block} (hbody : P block.body)
    (helse : ∀ part ∈ block.elseBody, P part) : ∀ part ∈ block.parts, P part :=
  List.forall_mem_cons.2 ⟨hbody, fun part hpart => helse part (Option.mem_toList.1 hpart)⟩

theorem Within.parts {block : Block} {lines : List Line} (h : block.Within lines) :
    ∀ part ∈ block.parts, part ⊆ lines :=
  forall_mem_parts h.body h.elseBody

/-! ## Lines that a scan passes over -/

/-- The block with lines put in front of its body. -/
def prepend (lines : List Line) (block : Block) : Block :=
  { block with body := lines ++ block.body }

@[simp] theorem prepend_nil : prepend [] = id := rfl

theorem map_prepend_prepend (first second : List Line) (found : Option Block) :
    (found.map (prepend second)).map (prepend first) = found.map (prepend (first ++ second)) := by
  rw [Option.map_map]
  refine congrArg (fun f => found.map f) (funext fun block => ?_)
  exact congrArg (fun body => { block with body := body }) (List.append_assoc _ _ _).symm

/-- A plain block is found again: lines that are read and do not close it, up to the one that does,
are its body. -/
theorem scanPlain?_append {kind : BlockKind} {body : List Line}
    (hbody : ∀ line ∈ body, line.isSkippable = false ∧ kind.closes line.text.toList = false)
    {last : Line} (hlast : last.Closes kind) (rest : List Line) :
    scanPlain? kind (body ++ last :: rest) = some ⟨body, none, rest⟩ := by
  induction body with
  | nil =>
    rw [List.nil_append, scanPlain?, hlast.skippable, hlast.closes]
    rfl
  | cons line body ih =>
    obtain ⟨hline, hbody⟩ := List.forall_mem_cons.1 hbody
    rw [List.cons_append, scanPlain?, hline.1, hline.2, ih hbody]
    rfl

section

variable {line : Line} (depth : Nat) (inElse : Bool) (rest : List Line)

/-- A scan of a conditional block takes a neutral line into the body at any depth. -/
theorem scanConditional?_neutral (h : line.Neutral) :
    scanConditional? depth inElse (line :: rest) =
      (scanConditional? depth inElse rest).map (prepend [line]) := by
  rw [scanConditional?.eq_def]
  dsimp only
  rw [h.skippable, if_neg Bool.false_ne_true, if_neg h.header, h.closes,
    if_neg Bool.false_ne_true, h.isElse, if_neg fun hand => Bool.false_ne_true hand.2.2]
  rfl

/-- A conditional block inside another one is entered, one level deeper. -/
theorem scanConditional?_opens (h : line.Opens .conditional) :
    scanConditional? depth inElse (line :: rest) =
      (scanConditional? (depth + 1) inElse rest).map (prepend [line]) := by
  rw [scanConditional?.eq_def]
  dsimp only
  rw [h.skippable, if_neg Bool.false_ne_true, if_pos h.header]
  rfl

/-- At depth zero the terminator is that of the block itself. -/
theorem scanConditional?_closes_zero (h : line.Closes .conditional) :
    scanConditional? 0 inElse (line :: rest) = some ⟨[], none, rest⟩ := by
  rw [scanConditional?, h.skippable, if_neg Bool.false_ne_true, h.header,
    if_neg (Option.some_ne_none _).symm, h.closes]
  rfl

/-- Deeper inside, the terminator is that of an inner block, and the scan comes back up one
level. -/
theorem scanConditional?_closes_succ (h : line.Closes .conditional) :
    scanConditional? (depth + 1) inElse (line :: rest) =
      (scanConditional? depth inElse rest).map (prepend [line]) := by
  rw [scanConditional?, h.skippable, if_neg Bool.false_ne_true, h.header,
    if_neg (Option.some_ne_none _).symm, h.closes]
  rfl

/-- At depth zero the first `else` divides the block: what comes after it is the second part. -/
theorem scanConditional?_divides_zero (h : line.Divides) :
    scanConditional? 0 false (line :: rest) =
      (scanConditional? 0 true rest).map fun block => ⟨[], some block.body, block.rest⟩ := by
  rw [scanConditional?, h.skippable, if_neg Bool.false_ne_true, h.header,
    if_neg (Option.some_ne_none _).symm, h.closes .conditional, if_neg Bool.false_ne_true,
    h.isElse, if_pos ⟨rfl, rfl, rfl⟩]

/-- Deeper inside, an `else` belongs to an inner block and is a line of the body. -/
theorem scanConditional?_divides_succ (h : line.Divides) :
    scanConditional? (depth + 1) inElse (line :: rest) =
      (scanConditional? (depth + 1) inElse rest).map (prepend [line]) := by
  rw [scanConditional?, h.skippable, if_neg Bool.false_ne_true, h.header,
    if_neg (Option.some_ne_none _).symm, h.closes .conditional, if_neg Bool.false_ne_true,
    if_neg fun hand => Nat.succ_ne_zero depth hand.1]
  rfl

end

/-- Lines in which every conditional block is complete. -/
inductive Balanced : List Line → Prop
  | nil : Balanced []
  | line {line : Line} (hline : line.Neutral) : Balanced [line]
  | ifThen {first last : Line} {body : List Line} (hfirst : first.Opens .conditional)
    (hbody : Balanced body) (hlast : last.Closes .conditional) :
    Balanced (first :: (body ++ [last]))
  | ifElse {first middle last : Line} {body elseBody : List Line}
    (hfirst : first.Opens .conditional) (hbody : Balanced body) (hmiddle : middle.Divides)
    (helse : Balanced elseBody) (hlast : last.Closes .conditional) :
    Balanced (first :: (body ++ middle :: (elseBody ++ [last])))
  | append {first second : List Line} (hfirst : Balanced first) (hsecond : Balanced second) :
    Balanced (first ++ second)

/-- A scan passes over balanced lines. -/
theorem Balanced.scan_append {lines : List Line} (h : Balanced lines) (depth : Nat)
    (inElse : Bool) (rest : List Line) :
    scanConditional? depth inElse (lines ++ rest) =
      (scanConditional? depth inElse rest).map (prepend lines) := by
  induction h generalizing depth rest with
  | nil =>
    rw [prepend_nil, Option.map_id, List.nil_append]
    rfl
  | line hline => exact scanConditional?_neutral _ _ _ hline
  | ifThen hfirst _ hlast ih =>
    -- the header raises the depth, and the terminator lowers it again
    rw [List.cons_append, List.append_assoc, scanConditional?_opens _ _ _ hfirst, ih,
      List.singleton_append, scanConditional?_closes_succ _ _ _ hlast]
    simp only [map_prepend_prepend]
    rfl
  | ifElse hfirst _ hmiddle _ hlast ih ihelse =>
    -- between them, an `else` at a raised depth is a line like any other
    rw [List.cons_append, List.append_assoc, List.cons_append, List.append_assoc,
      scanConditional?_opens _ _ _ hfirst, ih, scanConditional?_divides_succ _ _ _ hmiddle, ihelse,
      List.singleton_append, scanConditional?_closes_succ _ _ _ hlast]
    simp only [map_prepend_prepend]
    rfl
  | append _ _ ih ih' => rw [List.append_assoc, ih, ih', map_prepend_prepend]

/-- A conditional block with one part is found again around balanced lines. -/
theorem Balanced.scan_ifThen {body : List Line} (h : Balanced body) {last : Line}
    (hlast : last.Closes .conditional) (rest : List Line) :
    scan? .conditional (body ++ last :: rest) = some ⟨body, none, rest⟩ := by
  rw [scan?, if_pos rfl, h.scan_append, scanConditional?_closes_zero _ _ hlast]
  simp only [Option.map_some, prepend, List.append_nil]

/-- A conditional block with two parts is found again around balanced lines. -/
theorem Balanced.scan_ifElse {body elseBody : List Line} (h : Balanced body)
    (helse : Balanced elseBody) {middle last : Line} (hmiddle : middle.Divides)
    (hlast : last.Closes .conditional) (rest : List Line) :
    scan? .conditional (body ++ middle :: (elseBody ++ last :: rest)) =
      some ⟨body, some elseBody, rest⟩ := by
  rw [scan?, if_pos rfl, h.scan_append, scanConditional?_divides_zero _ hmiddle, helse.scan_append,
    scanConditional?_closes_zero _ _ hlast]
  simp only [Option.map_some, prepend, List.append_nil]

end Block

end Drawscript
