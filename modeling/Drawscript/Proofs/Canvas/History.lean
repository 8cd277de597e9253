import Drawscript.Canvas.Basic
import Mathlib.Tactic

/-!
# The marks of a canvas are its history

A canvas keeps the position and the colour of its pen beside the marks. The marks alone would do:
each says what it does to the pen (`Mark.movePen`), and the pen is where the marks have left it. A
request that is granted makes one mark, or none if it is an empty text, and changes the canvas in no
other way (`Canvas.perform_does`); the request that belongs to the mark would have done the same
(`Mark.request`). So the canvas at hand is found again by performing the requests of its marks on a
fresh one (`Canvas.Recorded.replay`).
-/

set_option autoImplicit false

namespace Drawscript

/-! ## Marks -/

/-- Where a pen is, and its colour. -/
structure Pen where
  position : Point
  color : Color
deriving Repr, DecidableEq

/-- A pen that has not been used. -/
def Pen.fresh : Pen := ⟨Point.origin, Color.black⟩

namespace Mark

/-- The pen after a mark, from the pen before it. -/
def movePen (pen : Pen) : Mark → Pen
  | moveTo position => { pen with position := position }
  | line _ stop => { pen with position := stop }
  | circle _ _ => pen
  | rect _ _ _ => pen
  | Mark.pen color => { pen with color := color }
  | text _ _ => pen
  | clear => .fresh

/-- Where the pen was when the mark was made, if the mark says so. -/
def start? : Mark → Option Point
  | moveTo _ => none
  | line start _ => some start
  | circle center _ => some center
  | rect corner _ _ => some corner
  | pen _ => none
  | text position _ => some position
  | clear => none

/-- The request that makes the mark. -/
def request : Mark → Request
  | moveTo position => .moveTo position.x position.y
  | line _ stop => .drawTo stop.x stop.y
  | circle _ radius => .circle radius
  | rect _ width height => .rectangle width height
  | pen color => .penColor (.ofNat color.r.toNat) (.ofNat color.g.toNat) (.ofNat color.b.toNat)
  | text _ s => .text s
  | clear => .clear

end Mark

/-- The pen after marks, from a fresh one. -/
def Pen.after (marks : List Mark) : Pen :=
  marks.foldl Mark.movePen .fresh

theorem Pen.after_append_singleton (marks : List Mark) (mark : Mark) :
    Pen.after (marks ++ [mark]) = mark.movePen (Pen.after marks) := by
  rw [Pen.after, List.foldl_append]
  rfl

/-! ## Requests in a row -/

/-- Put requests to a surface, one after the other, whether they are refused or not. -/
def Surface.performAll {σ : Type} [Surface σ] : List Request → σ → List (Option CanvasError) × σ
  | [], surface => ([], surface)
  | request :: rest, surface =>
    let (refusal, next) := perform request surface
    let (refusals, last) := performAll rest next
    (refusal :: refusals, last)

theorem Surface.performAll_append_singleton {σ : Type} [Surface σ] (requests : List Request)
    (request : Request) (surface : σ) :
    performAll (requests ++ [request]) surface =
      ((performAll requests surface).1 ++ [(perform request (performAll requests surface).2).1],
        (perform request (performAll requests surface).2).2) := by
  induction requests generalizing surface with
  | nil => rfl
  | cons first rest ih =>
    simp only [List.cons_append, performAll, ih]

namespace Canvas

open Surface

/-! ## What a request does -/

/-- The pen of a canvas. -/
def currentPen (canvas : Canvas) : Pen :=
  ⟨canvas.position, canvas.pen⟩

/-- The canvas with a mark made on it. -/
def make (canvas : Canvas) (mark : Mark) : Canvas :=
  { canvas.record mark with
    position := (mark.movePen canvas.currentPen).position
    pen := (mark.movePen canvas.currentPen).color }

theorem currentPen_make (canvas : Canvas) (mark : Mark) :
    (canvas.make mark).currentPen = mark.movePen canvas.currentPen := rfl

theorem toList_marks_make (canvas : Canvas) (mark : Mark) :
    (canvas.make mark).marks.toList = canvas.marks.toList ++ [mark] :=
  Array.toList_push

theorem perform_of_ok {canvas after : Canvas} {request : Request}
    (h : canvas.draw request = .ok after) : perform request canvas = (none, after) := by
  simp only [perform, h]

/-- A request that is refused leaves the canvas as it is. -/
theorem perform_of_error {canvas : Canvas} {request : Request} {e : CanvasError}
    (h : canvas.draw request = .error e) : perform request canvas = (some e, canvas) := by
  simp only [perform, h]

/-- A point is on the canvas if both coordinates are at least zero and below the size. -/
theorem contains_iff {canvas : Canvas} {p : Point} :
    canvas.contains p = true ↔
      (0 ≤ p.x ∧ p.x < canvas.width) ∧ 0 ≤ p.y ∧ p.y < canvas.height := by
  simp only [contains, Bool.and_eq_true, decide_eq_true_eq, and_assoc]

/-- A canvas on which there is room at all has a corner. -/
theorem contains_origin {canvas : Canvas} {p : Point} (h : canvas.contains p = true) :
    canvas.contains Point.origin = true := by
  obtain ⟨⟨hx, hwidth⟩, hy, hheight⟩ := contains_iff.1 h
  exact contains_iff.2 ⟨⟨Int64.le_refl 0, Int64.lt_of_le_of_lt hx hwidth⟩,
    Int64.le_refl 0, Int64.lt_of_le_of_lt hy hheight⟩

/-- A part of a colour is given by its own number. -/
theorem ofNat_of_component? {n : Int64} {c : UInt8} (h : component? n = some c) :
    Int64.ofNat c.toNat = n := by
  rw [component?] at h
  split_ifs at h with hrange
  obtain rfl := Option.some.inj h
  have hlow : 0 ≤ n.toInt := Int64.le_iff_toInt_le.1 hrange.1
  have hhigh : n.toInt ≤ 255 := Int64.le_iff_toInt_le.1 hrange.2
  have hsmall : n.toInt.toNat < 2 ^ 8 := by omega
  rw [UInt8.toNat_ofNat_of_lt' hsmall, ← Int64.ofInt_eq_ofNat, Int.toNat_of_nonneg hlow,
    Int64.ofInt_toInt]

/-- What a request may do: nothing if it is refused or an empty text, and else make a mark. The
mark leaves the pen on the canvas, it is made where the pen is, and its own request makes it too. -/
inductive Does (canvas : Canvas) (request : Request) : Option CanvasError × Canvas → Prop
  | refused (e : CanvasError) : Does canvas request (some e, canvas)
  | silent (hrequest : request = .text "") : Does canvas request (none, canvas)
  | marked {mark : Mark}
      (hrequest : mark.request = request ∨ request = .reset ∧ mark = .moveTo Point.origin)
      (hstart : ∀ start ∈ mark.start?, start = canvas.position)
      (hinside : canvas.contains canvas.position = true →
        canvas.contains (canvas.make mark).position = true)
      (hagain : perform mark.request canvas = (none, canvas.make mark)) :
      Does canvas request (none, canvas.make mark)

theorem moveTo_does (canvas : Canvas) {request : Request} (p : Point)
    (hdraw : canvas.draw request = canvas.moveTo p)
    (hrequest : (Mark.moveTo p).request = request ∨
      request = .reset ∧ Mark.moveTo p = .moveTo Point.origin) :
    canvas.Does request (perform request canvas) := by
  by_cases hinside : canvas.contains p = true
  · have hmoved : canvas.moveTo p = .ok (canvas.make (.moveTo p)) := if_pos hinside
    rw [perform_of_ok (hdraw.trans hmoved)]
    exact .marked hrequest nofun (fun _ => hinside) (perform_of_ok hmoved)
  · rw [perform_of_error (hdraw.trans (if_neg hinside))]
    exact .refused _

/-- Every request is refused, passed over, or makes a mark. -/
theorem perform_does (canvas : Canvas) (request : Request) :
    canvas.Does request (perform request canvas) := by
  have hhere : ∀ start ∈ some canvas.position, start = canvas.position :=
    fun start hstart => (Option.mem_some_iff.1 hstart).symm
  have hmarked (mark : Mark) (hdraw : canvas.draw mark.request = .ok (canvas.make mark))
      (hstart : ∀ start ∈ mark.start?, start = canvas.position)
      (hinside : canvas.contains canvas.position = true →
        canvas.contains (canvas.make mark).position = true) :
      canvas.Does mark.request (perform mark.request canvas) := by
    rw [perform_of_ok hdraw]
    exact .marked (Or.inl rfl) hstart hinside (perform_of_ok hdraw)
  have hrefused {e : CanvasError} (hdraw : canvas.draw request = .error e) :
      canvas.Does request (perform request canvas) := by
    rw [perform_of_error hdraw]
    exact .refused e
  cases request with
  | moveTo x y => exact moveTo_does canvas ⟨x, y⟩ rfl (Or.inl rfl)
  | reset => exact moveTo_does canvas Point.origin rfl (Or.inr ⟨rfl, rfl⟩)
  | drawTo x y =>
    by_cases hinside : canvas.contains ⟨x, y⟩ = true
    · exact hmarked (.line canvas.position ⟨x, y⟩) (if_pos hinside) hhere fun _ => hinside
    · exact hrefused (if_neg hinside)
  | circle radius =>
    by_cases hradius : radius ≤ 0
    · exact hrefused (if_pos hradius)
    · exact hmarked (.circle canvas.position radius) (if_neg hradius) hhere id
  | rectangle width height =>
    by_cases hsize : width ≤ 0 ∨ height ≤ 0
    · exact hrefused (if_pos hsize)
    · exact hmarked (.rect canvas.position width height) (if_neg hsize) hhere id
  | penColor r g b =>
    -- the number of a part in range is that part, so the mark asks for the same colour
    cases hr : component? r with
    | none => exact hrefused (e := .invalidColor r g b) (by simp only [draw, hr])
    | some red =>
      cases hg : component? g with
      | none => exact hrefused (e := .invalidColor r g b) (by simp only [draw, hr, hg])
      | some green =>
        cases hb : component? b with
        | none => exact hrefused (e := .invalidColor r g b) (by simp only [draw, hr, hg, hb])
        | some blue =>
          have hrequest : (Mark.pen ⟨red, green, blue⟩).request = .penColor r g b := by
            simp only [Mark.request, ofNat_of_component? hr, ofNat_of_component? hg,
              ofNat_of_component? hb]
          have hdraw : canvas.draw (Mark.pen ⟨red, green, blue⟩).request =
              .ok (canvas.make (.pen ⟨red, green, blue⟩)) := by
            rw [hrequest]
            simp only [draw, hr, hg, hb]
            rfl
          rw [← hrequest]
          exact hmarked _ hdraw nofun id
  | text s =>
    by_cases hempty : s.isEmpty = true
    · have hdraw : canvas.draw (.text s) = .ok canvas := congrArg Except.ok (if_pos hempty)
      rw [perform_of_ok hdraw]
      exact .silent (congrArg Request.text (String.isEmpty_iff.1 hempty))
    · exact hmarked (.text canvas.position s) (congrArg Except.ok (if_neg hempty))
        hhere id
  | clear => exact hmarked .clear rfl nofun contains_origin

/-! ## What the marks tell -/

/-- The marks of a canvas tell all that has happened to it since it was fresh. -/
structure Recorded (fresh canvas : Canvas) : Prop where
  width : canvas.width = fresh.width
  height : canvas.height = fresh.height
  inside : canvas.contains canvas.position = true
  pen : Pen.after canvas.marks.toList = canvas.currentPen
  starts : ∀ before mark rest, canvas.marks.toList = before ++ mark :: rest →
    ∀ start ∈ mark.start?, start = (Pen.after before).position
  replay : performAll (canvas.marks.toList.map Mark.request) fresh =
    (canvas.marks.toList.map fun _ => none, canvas)

theorem recorded_fresh {fresh : Canvas} (hmarks : fresh.marks = #[])
    (hpen : fresh.currentPen = .fresh) (hinside : fresh.contains fresh.position = true) :
    Recorded fresh fresh where
  width := rfl
  height := rfl
  inside := hinside
  pen := by rw [hmarks, hpen]; rfl
  starts before mark rest hsplit := by
    rw [hmarks] at hsplit
    exact absurd hsplit.symm (List.append_ne_nil_of_right_ne_nil _ (List.cons_ne_nil _ _))
  replay := by rw [hmarks]; rfl

namespace Recorded

variable {fresh canvas : Canvas}

/-- One more mark is one more request to perform again. -/
theorem make (h : Recorded fresh canvas) {mark : Mark}
    (hstart : ∀ start ∈ mark.start?, start = canvas.position)
    (hinside : canvas.contains (canvas.make mark).position = true)
    (hagain : perform mark.request canvas = (none, canvas.make mark)) :
    Recorded fresh (canvas.make mark) where
  width := h.width
  height := h.height
  inside := hinside
  pen := by
    rw [toList_marks_make, Pen.after_append_singleton, h.pen, currentPen_make]
  starts before other rest hsplit := by
    rw [toList_marks_make] at hsplit
    rcases List.eq_nil_or_concat rest with rfl | ⟨rest, last, rfl⟩
    · -- the mark in question is the new one
      obtain ⟨rfl, hlast⟩ := List.append_inj' hsplit rfl
      obtain rfl := List.singleton_inj.1 hlast
      rw [h.pen]
      exact hstart
    · rw [List.concat_eq_append, ← List.cons_append, ← List.append_assoc] at hsplit
      exact h.starts before other rest (List.append_inj' hsplit rfl).1
  replay := by
    rw [toList_marks_make, List.map_append, List.map_append, List.map_singleton,
      List.map_singleton, performAll_append_singleton, h.replay, hagain]

/-- Every request keeps the record, whatever its answer is. -/
theorem perform (h : Recorded fresh canvas) (request : Request) :
    Recorded fresh (Surface.perform request canvas).2 := by
  have hdoes := canvas.perform_does request
  generalize Surface.perform request canvas = answer at hdoes
  cases hdoes with
  | refused e => exact h
  | silent hrequest => exact h
  | marked hrequest hstart hinside hagain => exact h.make hstart (hinside h.inside) hagain

/-- Whatever the requests, the marks record what became of the canvas. -/
theorem performAll (h : Recorded fresh canvas) (requests : List Request) :
    Recorded fresh (Surface.performAll requests canvas).2 := by
  induction requests generalizing canvas with
  | nil => exact h
  | cons request rest ih => exact ih (h.perform request)

end Recorded

/-- A canvas of a positive size can be made, and its empty list of marks records it. -/
theorem recorded_new {width height : Int64} (hwidth : 0 < width) (hheight : 0 < height) :
    ∃ fresh, new width height = .ok fresh ∧ fresh.width = width ∧ fresh.height = height ∧
      Recorded fresh fresh := by
  have hsize : ¬ (width ≤ 0 ∨ height ≤ 0) :=
    not_or.2 ⟨Int64.not_le.2 hwidth, Int64.not_le.2 hheight⟩
  refine ⟨_, if_neg hsize, rfl, rfl, recorded_fresh rfl rfl ?_⟩
  exact contains_iff.2 ⟨⟨Int64.le_refl 0, hwidth⟩, Int64.le_refl 0, hheight⟩

/-- Whatever requests are put to a new canvas of positive size, in the end
- the pen is on the canvas;
- a further request that is refused leaves the position, the pen and the marks as they are, and one
  that is granted adds a mark of its own, unless it is an empty text;
- the marks, one after the other from the corner and with black ink, lead to the position and the
  colour of the pen;
- each mark with a position was made where the marks before it have led to;
- the requests of the marks are all granted on a new canvas of the same size, and make the same
  canvas again. -/
theorem performAll_new (width height : Int64) (hwidth : 0 < width) (hheight : 0 < height) :
    ∃ fresh, new width height = .ok fresh ∧ ∀ requests : List Request,
      let canvas := (performAll requests fresh).2
      let marks := canvas.marks.toList
      ((0 ≤ canvas.position.x ∧ canvas.position.x < width) ∧
        0 ≤ canvas.position.y ∧ canvas.position.y < height) ∧
      (∀ request e after, perform request canvas = (some e, after) →
        after.position = canvas.position ∧ after.pen = canvas.pen ∧ after.marks = canvas.marks) ∧
      (∀ request after, perform request canvas = (none, after) →
        (request = .text "" ∧ after = canvas) ∨
          ∃ mark, (mark.request = request ∨ request = .reset ∧ mark = .moveTo Point.origin) ∧
            after.marks.toList = marks ++ [mark]) ∧
      Pen.after marks = ⟨canvas.position, canvas.pen⟩ ∧
      (∀ before mark rest, marks = before ++ mark :: rest →
        ∀ start ∈ mark.start?, start = (Pen.after before).position) ∧
      performAll (marks.map Mark.request) fresh = (marks.map fun _ => none, canvas) := by
  obtain ⟨fresh, hnew, rfl, rfl, hfresh⟩ := recorded_new hwidth hheight
  refine ⟨fresh, hnew, fun requests => ?_⟩
  have h := hfresh.performAll requests
  intro canvas marks
  have hinside := contains_iff.1 h.inside
  rw [h.width, h.height] at hinside
  refine ⟨hinside, fun request e after hanswer => ?_, fun request after hanswer => ?_, h.pen,
    h.starts, h.replay⟩
  · have hdoes := canvas.perform_does request
    rw [hanswer] at hdoes
    cases hdoes
    exact ⟨rfl, rfl, rfl⟩
  · have hdoes := canvas.perform_does request
    rw [hanswer] at hdoes
    cases hdoes with
    | silent hrequest => exact Or.inl ⟨hrequest, rfl⟩
    | marked hrequest hstart hinside hagain =>
      exact Or.inr ⟨_, hrequest, toList_marks_make canvas _⟩

/-- Requests some of which are refused or leave no mark. -/
def sketch : List Request :=
  [.penColor 255 128 0, .moveTo 10 20, .drawTo 30 40, .circle 0, .text "hi", .text "",
    .moveTo 640 0, .clear, .drawTo 5 7, .reset]

/-- The marks of these requests. -/
def sketchMarks : List Mark :=
  [.pen ⟨255, 128, 0⟩, .moveTo ⟨10, 20⟩, .line ⟨10, 20⟩ ⟨30, 40⟩, .text ⟨30, 40⟩ "hi", .clear,
    .line ⟨0, 0⟩ ⟨5, 7⟩, .moveTo ⟨0, 0⟩]

/-- The seven marks of a sketch make the same canvas again. -/
theorem performAll_new_sketch :
    (0 : Int64) < 640 ∧ (0 : Int64) < 480 ∧ ∃ fresh, new 640 480 = .ok fresh ∧
      (performAll sketch fresh).2.marks.toList = sketchMarks ∧
      performAll (sketchMarks.map Mark.request) fresh =
        (List.replicate 7 none, (performAll sketch fresh).2) := by
  refine ⟨by decide, by decide, ?_⟩
  obtain ⟨fresh, hnew, hall⟩ := performAll_new 640 480 (by decide) (by decide)
  have hfresh : fresh = { width := 640, height := 480 } := (Except.ok.inj hnew).symm
  have hmarks : (performAll sketch fresh).2.marks.toList = sketchMarks := by
    rw [hfresh]
    decide +kernel
  obtain ⟨-, -, -, -, -, hreplay⟩ := hall sketch
  rw [hmarks] at hreplay
  exact ⟨fresh, hnew, hmarks, hreplay⟩

end Canvas

end Drawscript
