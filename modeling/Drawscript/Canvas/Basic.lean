import Drawscript.Canvas.Surface
import Drawscript.Text.Quoted

/-!
# Canvases

A canvas is a bounded surface that records what is drawn on it. Its pen starts in the corner with
black ink. A request that would leave the bounds or makes no sense is refused and changes nothing.
-/

set_option autoImplicit false

namespace Drawscript

/-- A position on a surface. -/
structure Point where
  x : Int64
  y : Int64
deriving Repr, DecidableEq

/-- A colour by its red, green and blue parts. -/
structure Color where
  r : UInt8
  g : UInt8
  b : UInt8
deriving Repr, DecidableEq

/-- The position in the corner. -/
def Point.origin : Point := ⟨0, 0⟩

/-- The colour of a fresh pen. -/
def Color.black : Color := ⟨0, 0, 0⟩

/-- Something that was drawn or done on a canvas. -/
inductive Mark where
  | moveTo (position : Point)
  | line (start stop : Point)
  | circle (center : Point) (radius : Int64)
  | rect (corner : Point) (width height : Int64)
  | pen (color : Color)
  | text (position : Point) (s : String)
  | clear
deriving Repr, DecidableEq

/-- The coordinates with a comma between them. -/
def Point.display (p : Point) : String :=
  s!"{p.x},{p.y}"

/-- The mark on one line. -/
def Mark.display : Mark → String
  | moveTo position => "moveto " ++ position.display
  | line start stop => "line " ++ start.display ++ " -> " ++ stop.display
  | circle center radius => s!"circle r={radius} at " ++ center.display
  | rect corner width height => s!"rect {width}x{height} at " ++ corner.display
  | pen color => s!"pen {color.r},{color.g},{color.b}"
  | text position s => "text " ++ Text.quote s ++ " at " ++ position.display
  | clear => "clear"

/-- A bounded surface with a pen, and the marks made on it. -/
structure Canvas where
  width : Int64
  height : Int64
  position : Point := Point.origin
  pen : Color := Color.black
  marks : Array Mark := #[]

namespace Canvas

/-- A fresh canvas of the given size. -/
def new (width height : Int64) : Except CanvasError Canvas :=
  if width ≤ 0 ∨ height ≤ 0 then .error (.invalidSize width height)
  else .ok { width := width, height := height }

/-- The position lies on the canvas. -/
def contains (canvas : Canvas) (p : Point) : Bool :=
  0 ≤ p.x && p.x < canvas.width && 0 ≤ p.y && p.y < canvas.height

/-- The canvas with one more mark. -/
def record (canvas : Canvas) (mark : Mark) : Canvas :=
  { canvas with marks := canvas.marks.push mark }

/-- Move the pen without drawing. -/
def moveTo (canvas : Canvas) (p : Point) : Except CanvasError Canvas :=
  if canvas.contains p then .ok { canvas.record (.moveTo p) with position := p }
  else .error (.outOfBounds p.x p.y canvas.width canvas.height)

/-- A part of a colour. -/
def component? (n : Int64) : Option UInt8 :=
  if 0 ≤ n ∧ n ≤ 255 then some (UInt8.ofNat n.toInt.toNat) else none

/-- The canvas after a request, or why the request is refused. -/
def draw (canvas : Canvas) : Request → Except CanvasError Canvas
  | .moveTo x y => canvas.moveTo ⟨x, y⟩
  | .drawTo x y =>
    if canvas.contains ⟨x, y⟩ then
      .ok { canvas.record (.line canvas.position ⟨x, y⟩) with position := ⟨x, y⟩ }
    else .error (.outOfBounds x y canvas.width canvas.height)
  | .circle radius =>
    if radius ≤ 0 then .error (.invalidRadius radius)
    else .ok (canvas.record (.circle canvas.position radius))
  | .rectangle width height =>
    if width ≤ 0 ∨ height ≤ 0 then .error (.invalidDimensions width height)
    else .ok (canvas.record (.rect canvas.position width height))
  | .penColor r g b =>
    match component? r, component? g, component? b with
    | some red, some green, some blue =>
      .ok { canvas.record (.pen ⟨red, green, blue⟩) with pen := ⟨red, green, blue⟩ }
    | _, _, _ => .error (.invalidColor r g b)
  | .text s => .ok (if s.isEmpty then canvas else canvas.record (.text canvas.position s))
  | .clear => .ok { canvas.record .clear with position := Point.origin, pen := Color.black }
  | .reset => canvas.moveTo Point.origin

/-- A refused request leaves the canvas as it was. -/
instance : Surface Canvas where
  perform request canvas :=
    match canvas.draw request with
    | .ok canvas => (none, canvas)
    | .error e => (some e, canvas)

/-- The canvas without its marks. -/
def withoutMarks (canvas : Canvas) : Canvas :=
  { canvas with marks := #[] }

/-- The texts written, in order. -/
def written (canvas : Canvas) : List String :=
  canvas.marks.toList.filterMap fun
    | .text _ s => some s
    | _ => none

/-- The marks, one on a line. -/
def log (canvas : Canvas) : String :=
  "\n".intercalate (canvas.marks.toList.map Mark.display)

end Canvas

end Drawscript
