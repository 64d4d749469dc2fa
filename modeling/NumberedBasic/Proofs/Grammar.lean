import NumberedBasic.Statement.Row

set_option autoImplicit false

/-!
# The grammar of statements

A derivation is a tree with tokens at its leaves and one node for each rule of the grammar. `tokens`
is the row of tokens that a tree derives, and `ast` is the statement or expression that it stands
for. Nothing here reads tokens; `Proofs.Parsing` relates the trees to the parser.
-/
namespace NumberedBasic.Grammar
open Statement

structure Leaf (kinds : List Token.Kind) where
  token : Token
  kind_mem : token.kind ∈ kinds

theorem Leaf.kind_eq {k : Token.Kind} (l : Leaf [k]) : l.token.kind = k :=
  List.mem_singleton.1 l.kind_mem

abbrev KeywordLeaf (k : Keyword) := Leaf [.keyword k]

abbrev EndLeaf := Leaf [.endOfLine]

def operators : List Token.Kind := [.plus, .minus, .times, .divide, .modulo]

def comparators : List Token.Kind :=
  [.equals, .less, .lessEqual, .greater, .greaterEqual, .notEqual]

theorem isOperator_iff (k : Token.Kind) : isOperator k = true ↔ k ∈ operators := by
  cases k <;> simp [isOperator, operators]

theorem isComparator_iff (k : Token.Kind) : isComparator k = true ↔ k ∈ comparators := by
  cases k <;> simp [isComparator, comparators]

theorem not_isOperator_of_comparator {k : Token.Kind} (h : isComparator k = true) :
    isOperator k = false := by
  cases k <;> simp_all [isComparator, isOperator]

mutual

inductive ExprTree where
  | expr (first : OperandTree) (rest : LinkTrees)

/-- The repeated part of an expression, with its last round split off. -/
inductive LinkTrees where
  | none
  | more (before : LinkTrees) (op : Leaf operators) (operand : OperandTree)

inductive OperandTree where
  | number (n : Leaf [.number])
  | name (n : Leaf [.identifier])
  | group (opening : Leaf [.leftParen]) (e : ExprTree) (closing : Leaf [.rightParen])
  | negate (sign : Leaf [.minus]) (operand : OperandTree)

end

mutual

def ExprTree.tokens : ExprTree → List Token
  | .expr first rest => first.tokens ++ rest.tokens

def LinkTrees.tokens : LinkTrees → List Token
  | .none => []
  | .more before op operand => before.tokens ++ op.token :: operand.tokens

def OperandTree.tokens : OperandTree → List Token
  | .number n => [n.token]
  | .name n => [n.token]
  | .group opening e closing => opening.token :: (e.tokens ++ [closing.token])
  | .negate sign operand => sign.token :: operand.tokens

end

mutual

/-- A chain is flat and in source order; a single operand is no chain. -/
def ExprTree.ast : ExprTree → Expr
  | .expr first rest =>
    match rest.links with
    | [] => first.ast
    | links => .chain first.ast (.ofList links)

def LinkTrees.links : LinkTrees → List (Operator × Expr)
  | .none => []
  | .more before op operand => before.links ++ [(.ofSymbol op.token.text, operand.ast)]

/-- Parentheses leave no node, and a minus binds the one operand after it. -/
def OperandTree.ast : OperandTree → Expr
  | .number n => .number (amount n.token)
  | .name n => .variable n.token.text
  | .group _ e _ => e.ast
  | .negate _ operand => .negate operand.ast

end

structure ConditionTree where
  left : ExprTree
  comparator : Leaf comparators
  right : ExprTree

namespace ConditionTree

def tokens (c : ConditionTree) : List Token := c.left.tokens ++ c.comparator.token :: c.right.tokens

def ast (c : ConditionTree) : Condition :=
  ⟨.ofSymbol c.comparator.token.text, c.left.ast, c.right.ast⟩

end ConditionTree

inductive StatementTree where
  | letName (head : KeywordLeaf .LET) (name : Leaf [.identifier]) (sign : Leaf [.equals])
      (value : ExprTree) (eol : EndLeaf)
  | assign (name : Leaf [.identifier]) (sign : Leaf [.equals]) (value : ExprTree) (eol : EndLeaf)
  | printText (head : KeywordLeaf .PRINT) (text : Leaf [.string]) (eol : EndLeaf)
  | printVariable (head : KeywordLeaf .PRINT) (name : Leaf [.identifier]) (eol : EndLeaf)
  | input (head : KeywordLeaf .INPUT) (name : Leaf [.identifier]) (eol : EndLeaf)
  | ifThen (head : KeywordLeaf .IF) (condition : ConditionTree) (word : KeywordLeaf .THEN)
      (target : Leaf [.number]) (eol : EndLeaf)
  | ifThenElse (head : KeywordLeaf .IF) (condition : ConditionTree) (word : KeywordLeaf .THEN)
      (target : Leaf [.number]) (other : KeywordLeaf .ELSE) (otherwise : Leaf [.number])
      (eol : EndLeaf)
  | goto (head : KeywordLeaf .GOTO) (target : Leaf [.number]) (eol : EndLeaf)
  | loop (head : KeywordLeaf .WHILE) (condition : ConditionTree) (eol : EndLeaf)
  | endLoop (head : KeywordLeaf .WEND) (eol : EndLeaf)
  | stop (head : KeywordLeaf .END) (eol : EndLeaf)
  | remark (head : KeywordLeaf .REM) (eol : EndLeaf)

namespace StatementTree

def front : StatementTree → List Token
  | letName head name sign value _ => head.token :: name.token :: sign.token :: value.tokens
  | assign name sign value _ => name.token :: sign.token :: value.tokens
  | printText head text _ => [head.token, text.token]
  | printVariable head name _ => [head.token, name.token]
  | input head name _ => [head.token, name.token]
  | ifThen head condition word target _ =>
    head.token :: (condition.tokens ++ [word.token, target.token])
  | ifThenElse head condition word target other otherwise _ =>
    head.token :: (condition.tokens ++ [word.token, target.token, other.token, otherwise.token])
  | goto head target _ => [head.token, target.token]
  | loop head condition _ => head.token :: condition.tokens
  | endLoop head _ => [head.token]
  | stop head _ => [head.token]
  | remark head _ => [head.token]

def eol : StatementTree → EndLeaf
  | letName _ _ _ _ e | assign _ _ _ e | printText _ _ e | printVariable _ _ e | input _ _ e => e
  | ifThen _ _ _ _ e | ifThenElse _ _ _ _ _ _ e | goto _ _ e | loop _ _ e => e
  | endLoop _ e | stop _ e | remark _ e => e

def tokens (t : StatementTree) : List Token := t.front ++ [t.eol.token]

def ast : StatementTree → Statement Float
  | letName _ name _ value _ => .assign name.token.text value.ast true
  | assign name _ value _ => .assign name.token.text value.ast false
  | printText _ text _ => .print (.text text.token.text)
  | printVariable _ name _ => .print (.variable name.token.text)
  | input _ name _ => .input name.token.text
  | ifThen _ condition _ target _ => .branch condition.ast (amount target.token) none
  | ifThenElse _ condition _ target _ otherwise _ =>
    .branch condition.ast (amount target.token) (some (amount otherwise.token))
  | goto _ target _ => .goto (amount target.token)
  | loop _ condition _ => .loop condition.ast
  | endLoop _ _ => .endLoop
  | stop _ _ => .stop
  | remark head _ => .remark head.token.text

end StatementTree

def termKinds : List Token.Kind :=
  [.number, .identifier, .leftParen, .rightParen] ++ operators ++ comparators

theorem Leaf.term_kind {kinds : List Token.Kind} (l : Leaf kinds)
    (h : ∀ k ∈ kinds, k ∈ termKinds) : l.token.kind ∈ termKinds := h _ l.kind_mem

mutual

theorem ExprTree.term_kinds (e : ExprTree) : ∀ t ∈ e.tokens, t.kind ∈ termKinds := by
  obtain ⟨first, rest⟩ := e
  intro t ht
  rcases List.mem_append.1 ht with ht | ht
  · exact first.term_kinds t ht
  · exact rest.term_kinds t ht

theorem LinkTrees.term_kinds (l : LinkTrees) : ∀ t ∈ l.tokens, t.kind ∈ termKinds := by
  cases l with
  | none => intro t ht; simp [LinkTrees.tokens] at ht
  | more before op operand =>
    intro t ht
    rcases List.mem_append.1 ht with ht | ht
    · exact before.term_kinds t ht
    rcases List.mem_cons.1 ht with rfl | ht
    · exact op.term_kind (by decide)
    · exact operand.term_kinds t ht

theorem OperandTree.term_kinds (o : OperandTree) : ∀ t ∈ o.tokens, t.kind ∈ termKinds := by
  cases o with
  | number n | name n =>
    intro t ht
    rw [List.mem_singleton.1 ht]
    exact n.term_kind (by decide)
  | group opening e closing =>
    intro t ht
    rcases List.mem_cons.1 ht with rfl | ht
    · exact opening.term_kind (by decide)
    rcases List.mem_append.1 ht with ht | ht
    · exact e.term_kinds t ht
    · rw [List.mem_singleton.1 ht]
      exact closing.term_kind (by decide)
  | negate sign operand =>
    intro t ht
    rcases List.mem_cons.1 ht with rfl | ht
    · exact sign.term_kind (by decide)
    · exact operand.term_kinds t ht

end

theorem ConditionTree.term_kinds (c : ConditionTree) : ∀ t ∈ c.tokens, t.kind ∈ termKinds := by
  intro t ht
  rcases List.mem_append.1 ht with ht | ht
  · exact c.left.term_kinds t ht
  rcases List.mem_cons.1 ht with rfl | ht
  · exact c.comparator.term_kind (by decide)
  · exact c.right.term_kinds t ht

theorem ne_end_of_term {k : Token.Kind} (h : k ∈ termKinds) : k ≠ .endOfLine := by
  rintro rfl
  exact absurd h (by decide)

theorem StatementTree.front_no_end (t : StatementTree) : ∀ u ∈ t.front, u.kind ≠ .endOfLine := by
  intro u hu
  cases t with
  | letName head name sign value _ =>
    have := fun h => ne_end_of_term (value.term_kinds u h)
    grind [front, Leaf.kind_eq]
  | assign name sign value _ =>
    have := fun h => ne_end_of_term (value.term_kinds u h)
    grind [front, Leaf.kind_eq]
  | ifThen head condition word target _ =>
    have := fun h => ne_end_of_term (condition.term_kinds u h)
    grind [front, Leaf.kind_eq]
  | ifThenElse head condition word target other otherwise _ =>
    have := fun h => ne_end_of_term (condition.term_kinds u h)
    grind [front, Leaf.kind_eq]
  | loop head condition _ =>
    have := fun h => ne_end_of_term (condition.term_kinds u h)
    grind [front, Leaf.kind_eq]
  | _ => grind [front, Leaf.kind_eq]

end NumberedBasic.Grammar
