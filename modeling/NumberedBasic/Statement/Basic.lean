import NumberedBasic.Expr.Basic

set_option autoImplicit false

/-!
# Statements

A line holds one statement. Statements are written over a type `τ` of jump targets: the numbers as
they are read first, line numbers once they are checked.
-/
namespace NumberedBasic

inductive PrintItem where
  | text (s : String)
  | variable (name : String)
  deriving DecidableEq

inductive Statement (τ : Type) where
  /-- An assignment, with the word `LET` or without it. -/
  | assign (name : String) (value : Expr) (explicit : Bool)
  | print (item : PrintItem)
  | input (name : String)
  /-- A conditional jump, with a target for the other case or without one. -/
  | branch (condition : Condition) (target : τ) (otherwise : Option τ)
  | goto (target : τ)
  | loop (condition : Condition)
  | endLoop
  | stop
  | remark (text : String)
  deriving DecidableEq

namespace Statement

/-- A statement with each target replaced, `THEN` before `ELSE`, by the result of a check. -/
def mapTargets {σ τ ε : Type} (f : σ → Except ε τ) : Statement σ → Except ε (Statement τ)
  | assign name value explicit => .ok (assign name value explicit)
  | print item => .ok (print item)
  | input name => .ok (input name)
  | branch condition target none => do
    let target ← f target
    .ok (branch condition target none)
  | branch condition target (some otherwise) => do
    let target ← f target
    let otherwise ← f otherwise
    .ok (branch condition target (some otherwise))
  | goto target => do
    let target ← f target
    .ok (goto target)
  | loop condition => .ok (loop condition)
  | endLoop => .ok endLoop
  | stop => .ok stop
  | remark text => .ok (remark text)

end Statement

end NumberedBasic
