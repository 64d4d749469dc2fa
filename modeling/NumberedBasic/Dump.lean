import NumberedBasic.Document
import NumberedBasic.Expr.Eval
import NumberedBasic.Program.Basic

set_option autoImplicit false

/-!
# Dumps

Expressions, conditions and statements as documents, and the dump of a whole program: the statement
of every line in ascending order, or the fault of the first line that has none.
-/
namespace NumberedBasic

def Document.node (type : String) (fields : List (String × Document)) : Document :=
  .object (("type", .text type) :: fields)

mutual

def Expr.toDocument : Expr → Document
  | .number x => .node "Number" [("value", .real x)]
  | .variable name => .node "Variable" [("name", .text name)]
  | .negate operand => .node "Negate" [("operand", operand.toDocument)]
  | .chain first links =>
    .node "Expr" [("first", first.toDocument), ("rest", .list links.toDocuments)]

def Links.toDocuments : Links → List Document
  | .done => []
  | .link op operand rest =>
    .object [("op", .text op.symbol), ("operand", operand.toDocument)] :: rest.toDocuments

end

def Condition.toDocument (c : Condition) : Document :=
  .node "Condition" [("op", .text c.comparator.symbol), ("left", c.left.toDocument),
    ("right", c.right.toDocument)]

def Document.ofTarget? : Option Int → Document
  | some n => .integer n
  | none => .null

def Document.ofText? : Option String → Document
  | some s => .text s
  | none => .null

/-- A text is printed or the value of a variable; there is a field for each. -/
def Document.ofPrint (text name : Option String) : Document :=
  .node "PrintStmt" [("text", .ofText? text), ("variable", .ofText? name)]

def Statement.toDocument : Statement Int → Document
  | .assign name value explicit =>
    .node "LetStmt" [("name", .text name), ("expr", value.toDocument), ("explicit", .truth explicit)]
  | .print (.text s) => .ofPrint (some s) none
  | .print (.variable name) => .ofPrint none (some name)
  | .input name => .node "InputStmt" [("name", .text name)]
  | .branch condition target otherwise =>
    .node "IfStmt" [("condition", condition.toDocument), ("target", .integer target),
      ("else_target", .ofTarget? otherwise)]
  | .goto target => .node "GotoStmt" [("target", .integer target)]
  | .loop condition => .node "WhileStmt" [("condition", condition.toDocument)]
  | .endLoop => .node "WendStmt" []
  | .stop => .node "EndStmt" []
  | .remark text => .node "RemStmt" [("text", .text text)]

mutual

/-- How deeply the dump of an expression is nested. The operand of a link is one deeper than the
first operand of its chain. -/
def Expr.depth : Expr → Nat
  | .number _ => 0
  | .variable _ => 0
  | .negate e => e.depth + 1
  | .chain first links => max first.depth links.depth + 1

def Links.depth : Links → Nat
  | .done => 0
  | .link _ e rest => max (e.depth + 1) rest.depth

end

def Statement.depth : Statement Int → Nat
  | .assign _ value _ => value.depth
  | .branch condition _ _ | .loop condition =>
    max condition.left.depth condition.right.depth + 1
  | _ => 0

def Statement.dumpable (text : String) : Except Fault (Statement Int) := do
  let statement ← Statement.ofLine text
  if Expr.maxDepth < statement.depth then .error .nesting else .ok statement

namespace Program

/-- The numbered statements of lines in their order, or the first fault with its line. -/
def statementsOf : List (Int × String) → Except (Int × Fault) (List (Int × Statement Int))
  | [] => .ok []
  | (n, text) :: rest =>
    match Statement.dumpable text with
    | .error fault => .error (n, fault)
    | .ok statement =>
      match statementsOf rest with
      | .error e => .error e
      | .ok statements => .ok ((n, statement) :: statements)

def statements (p : Program) : Except (Int × Fault) (List (Int × Statement Int)) :=
  statementsOf p.lines

def toDocument (p : Program) : Except (Int × Fault) Document := do
  let statements ← p.statements
  .ok (.list (statements.map fun (n, statement) =>
    .object [("line", .integer n), ("statement", statement.toDocument)]))

end Program

end NumberedBasic
