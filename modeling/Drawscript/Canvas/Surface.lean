/-!
# Drawing surfaces

What a program asks of the surface it draws on, and what a surface may refuse. The interpreter works
with any `Surface`; a refused request is the only thing that stops a run.
-/

set_option autoImplicit false

namespace Drawscript

/-- A drawing operation that a program asks for. -/
inductive Request where
  | moveTo (x y : Int64)
  | drawTo (x y : Int64)
  | circle (radius : Int64)
  | rectangle (width height : Int64)
  | penColor (r g b : Int64)
  | text (s : String)
  | clear
  | reset
deriving Repr, DecidableEq

/-- Why a surface refuses a request, or cannot be made. -/
inductive CanvasError where
  | outOfBounds (x y width height : Int64)
  | invalidRadius (radius : Int64)
  | invalidDimensions (width height : Int64)
  | invalidColor (r g b : Int64)
  | invalidSize (width height : Int64)
deriving Repr, DecidableEq

/-- The wording of a refusal. -/
def CanvasError.message : CanvasError → String
  | outOfBounds x y width height => s!"position ({x}, {y}) is outside the {width}x{height} canvas"
  | invalidRadius radius => s!"circle radius must be positive, got {radius}"
  | invalidDimensions width height =>
    s!"rectangle dimensions must be positive, got {width}x{height}"
  | invalidColor r g b => s!"colour components must be within 0..=255, got ({r}, {g}, {b})"
  | invalidSize width height => s!"canvas size must be positive, got {width}x{height}"

/-- A type of surfaces: each request is granted or refused, and changes the surface in some way. -/
class Surface (σ : Type) where
  perform : Request → σ → Option CanvasError × σ

end Drawscript
