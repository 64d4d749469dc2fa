import NumberedBasic.Fault
import NumberedBasic.Store

set_option autoImplicit false

/-!
# Evaluation

Expressions are evaluated over a store, operands in the order in which they are written, each just
before its operator is applied. The first fault ends the evaluation.
-/
namespace NumberedBasic

/-- Both divisions refuse a divisor zero before they look at the dividend. -/
def Operator.apply (op : Operator) (x y : Float) : Except Fault Float :=
  match op with
  | add => .ok (x + y)
  | subtract => .ok (x - y)
  | multiply => .ok (x * y)
  | divide => if y == 0 then .error .divisionByZero else .ok (x / y)
  | modulo =>
    if y == 0 then .error .moduloByZero
    else
      match Double.remainder? x y with
      | some r => .ok r
      | none => .error .infiniteDividend
  | other symbol _ => .error (.unknownOperator symbol)

def Comparator.apply (c : Comparator) (x y : Float) : Except Fault Bool :=
  match c with
  | less => .ok (x < y)
  | lessEqual => .ok (x ≤ y)
  | greater => .ok (y < x)
  | greaterEqual => .ok (y ≤ x)
  | equal => .ok (x == y)
  | notEqual => .ok (x != y)
  | other symbol _ => .error (.unknownComparator symbol)

/-- How many negations and chains may stand inside one another. -/
def Expr.maxDepth : Nat := 990

mutual

def Expr.evalIn (store : Store) (room : Nat) : Expr → Except Fault Float
  | .number x => .ok x
  | .variable name =>
    match store.get? name with
    | some x => .ok x
    | none => .error (.undefinedVariable name)
  | .negate e =>
    match room with
    | 0 => .error .nesting
    | room + 1 => do
      let x ← e.evalIn store room
      .ok (-x)
  | .chain first links =>
    match room with
    | 0 => .error .nesting
    | room + 1 => do
      let x ← first.evalIn store room
      links.evalIn store room x

def Links.evalIn (store : Store) (room : Nat) (x : Float) : Links → Except Fault Float
  | .done => .ok x
  | .link op e rest => do
    let y ← e.evalIn store room
    let z ← op.apply x y
    rest.evalIn store room z

end

def Expr.eval (store : Store) (e : Expr) : Except Fault Float := e.evalIn store Expr.maxDepth

/-- Both sides are evaluated, the left one first, before they are compared. -/
def Condition.eval (store : Store) (c : Condition) : Except Fault Bool := do
  let x ← c.left.eval store
  let y ← c.right.eval store
  c.comparator.apply x y

end NumberedBasic
