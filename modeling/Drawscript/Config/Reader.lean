import Drawscript.Canvas.Surface
import Drawscript.Config
import Drawscript.Toml.Reader

/-!
# Reading a configuration

A configuration is a settings document with five settings, each of which may be left out. The canvas
is a table of its width and height, or an array of the two. A setting of another name, a value of the
wrong kind, a negative limit and a canvas without area are refused.
-/

set_option autoImplicit false

namespace Drawscript

/-- Why a configuration is refused. -/
inductive ConfigError where
  | malformed
  | badCanvas (size : CanvasSize)
deriving Repr, DecidableEq

/-- The wording of a refusal. -/
def ConfigError.message : ConfigError → String
  | malformed => "invalid config: malformed document or setting"
  | badCanvas size =>
    "invalid config: " ++ (CanvasError.invalidSize size.width size.height).message

namespace Config

/-- The name of a mode: a text, or a table with that name alone and nothing under it. -/
def modeName? : Toml → Option String
  | .string name => some name
  | .table [(name, .table [])] => some name
  | .table [(name, .array [])] => some name
  | _ => none

/-- A limit. -/
def limit? : Toml → Option Nat
  | .integer n => if 0 ≤ n then some n.toInt.toNat else none
  | _ => none

/-- A length. -/
def length? : Toml → Option Int64
  | .integer n => some n
  | _ => none

/-- The canvas size with the entries of a table. -/
def sizeOfEntries? : List (String × Toml) → CanvasSize → Option CanvasSize
  | [], size => some size
  | (name, value) :: rest, size =>
    match length? value with
    | none => none
    | some n =>
      if name = "width" then sizeOfEntries? rest { size with width := n }
      else if name = "height" then sizeOfEntries? rest { size with height := n }
      else none

/-- The canvas size that a setting stands for. -/
def size? : Toml → Option CanvasSize
  | .table entries => sizeOfEntries? entries {}
  | .array [] => some {}
  | .array [width] => (length? width).map fun w => { width := w }
  | .array (width :: height :: _) =>
    match length? width, length? height with
    | some w, some h => some ⟨w, h⟩
    | _, _ => none
  | _ => none

/-- The configuration with one setting. -/
def withSetting? (config : Config) (name : String) (value : Toml) : Option Config :=
  if name = "eval_mode" then
    match (modeName? value).map EvalMode.ofName with
    | some (.ok mode) => some { config with evalMode := mode }
    | _ => none
  else if name = "scope_mode" then
    match (modeName? value).map ScopeMode.ofName with
    | some (.ok mode) => some { config with scopeMode := mode }
    | _ => none
  else if name = "max_iterations" then
    (limit? value).map fun n => { config with maxIterations := n }
  else if name = "max_call_depth" then
    (limit? value).map fun n => { config with maxCallDepth := n }
  else if name = "canvas" then (size? value).map fun size => { config with canvas := size }
  else none

/-- The configuration with several settings. -/
def withSettings? : List (String × Toml) → Config → Option Config
  | [], config => some config
  | (name, value) :: rest, config =>
    match config.withSetting? name value with
    | some config => withSettings? rest config
    | none => none

/-- The configuration that a settings document describes. -/
def parse (source : String) : Except ConfigError Config :=
  match (Toml.parse? source).bind fun entries => withSettings? entries {} with
  | none => .error .malformed
  | some config =>
    if config.canvas.width ≤ 0 ∨ config.canvas.height ≤ 0 then .error (.badCanvas config.canvas)
    else .ok config

end Config

end Drawscript
