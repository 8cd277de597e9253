import Drawscript.Mode

/-!
# Configuration

What a host decides for a run: the two modes, the limits on loops and nested calls, and the size of
the canvas.
-/

set_option autoImplicit false

namespace Drawscript

/-- The width and height of a canvas. -/
structure CanvasSize where
  width : Int64 := 640
  height : Int64 := 480
deriving Repr, DecidableEq

/-- The settings of a run. -/
structure Config where
  evalMode : EvalMode := .legacy
  scopeMode : ScopeMode := .stack
  /-- How often a loop may run its body. -/
  maxIterations : Nat := 1000
  /-- How many calls may be running at a time. -/
  maxCallDepth : Nat := 256
  canvas : CanvasSize := {}
deriving Repr, DecidableEq

end Drawscript
