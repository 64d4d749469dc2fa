set_option autoImplicit false

/-!
# Expressions and conditions

Arithmetic has one level of precedence: an expression is a first operand and a row of links, each an
operator with its operand, applied from left to right. Parentheses leave no node of their own.

Operators and comparators are named by what they do. A symbol that names none is kept as it is
spelled, and fails when it is applied. Each symbol belongs to one operator: `Operator.ofSymbol` and
`Operator.symbol` undo each other.
-/
namespace NumberedBasic

inductive Operator where
  | add | subtract | multiply | divide | modulo
  | other (symbol : String) (unknown : symbol ∉ ["+", "-", "*", "/", "%"])
  deriving DecidableEq

namespace Operator

def ofSymbol (s : String) : Operator :=
  if h₁ : s = "+" then add
  else if h₂ : s = "-" then subtract
  else if h₃ : s = "*" then multiply
  else if h₄ : s = "/" then divide
  else if h₅ : s = "%" then modulo
  else other s (by simp [h₁, h₂, h₃, h₄, h₅])

def symbol : Operator → String
  | add => "+"
  | subtract => "-"
  | multiply => "*"
  | divide => "/"
  | modulo => "%"
  | other s _ => s

@[simp] theorem symbol_ofSymbol (s : String) : (ofSymbol s).symbol = s := by
  unfold ofSymbol
  repeat' split
  all_goals simp_all [symbol]

@[simp] theorem ofSymbol_symbol (op : Operator) : ofSymbol op.symbol = op := by
  cases op with
  | other s h =>
    have hs := h
    simp only [List.mem_cons, List.not_mem_nil, or_false, not_or] at hs
    simp [ofSymbol, symbol, hs]
  | _ => rfl

end Operator

inductive Comparator where
  | less | lessEqual | greater | greaterEqual | equal | notEqual
  | other (symbol : String) (unknown : symbol ∉ ["<", "<=", ">", ">=", "=", "<>"])
  deriving DecidableEq

namespace Comparator

def ofSymbol (s : String) : Comparator :=
  if h₁ : s = "<" then less
  else if h₂ : s = "<=" then lessEqual
  else if h₃ : s = ">" then greater
  else if h₄ : s = ">=" then greaterEqual
  else if h₅ : s = "=" then equal
  else if h₆ : s = "<>" then notEqual
  else other s (by simp [h₁, h₂, h₃, h₄, h₅, h₆])

def symbol : Comparator → String
  | less => "<"
  | lessEqual => "<="
  | greater => ">"
  | greaterEqual => ">="
  | equal => "="
  | notEqual => "<>"
  | other s _ => s

@[simp] theorem symbol_ofSymbol (s : String) : (ofSymbol s).symbol = s := by
  unfold ofSymbol
  repeat' split
  all_goals simp_all [symbol]

@[simp] theorem ofSymbol_symbol (c : Comparator) : ofSymbol c.symbol = c := by
  cases c with
  | other s h =>
    have hs := h
    simp only [List.mem_cons, List.not_mem_nil, or_false, not_or] at hs
    simp [ofSymbol, symbol, hs]
  | _ => rfl

end Comparator

mutual

inductive Expr where
  | number (x : Float)
  | variable (name : String)
  | negate (operand : Expr)
  | chain (first : Expr) (links : Links)

/-- The operators and operands after the first operand of a chain. -/
inductive Links where
  | done
  | link (op : Operator) (operand : Expr) (rest : Links)

end

deriving instance DecidableEq for Expr, Links

def Links.ofList : List (Operator × Expr) → Links
  | [] => done
  | (op, e) :: rest => link op e (ofList rest)

structure Condition where
  comparator : Comparator
  left : Expr
  right : Expr
  deriving DecidableEq

end NumberedBasic
