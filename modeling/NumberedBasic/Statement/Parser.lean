import NumberedBasic.Numeral
import NumberedBasic.Statement.Basic
import NumberedBasic.Token.Lexer

set_option autoImplicit false

/-!
# From tokens to statements

The parser takes the tokens of a line one by one. Its state says what has been read and so what may
come next; `State.next?` is its one step, and a token for which the step has no answer is the first
one that no statement could have there. Unfinished expressions lie on a stack of frames, so that
nesting costs no depth of recursion.
-/
namespace NumberedBasic.Statement

inductive ParseError where
  | emptyStatement
  | endOfLine
  | unexpected (lexeme : String) (column : Int)
  | lineNumber (value : Float)
  deriving DecidableEq

/-- The operands and operators of a chain read so far, the links in reverse. -/
structure Chain where
  first : Expr
  links : List (Operator × Expr)

namespace Chain

def expr (c : Chain) : Expr :=
  match c.links with
  | [] => c.first
  | links => .chain c.first (.ofList links.reverse)

end Chain

inductive Frame where
  | negate
  | group
  | link (chain : Chain) (op : Operator)

/-- The chain that an operand goes on with. Negations bind it first, then the chain that waits for
it takes it in; a group or the start of the expression opens a new chain. -/
def absorb (operand : Expr) : List Frame → Chain × List Frame
  | .negate :: frames => absorb (.negate operand) frames
  | .link chain op :: frames => (⟨chain.first, (op, operand) :: chain.links⟩, frames)
  | frames => (⟨operand, []⟩, frames)

inductive Head where
  | branch
  | loop

inductive Goal where
  | assign (name : String) (explicit : Bool)
  | left (head : Head)
  | right (head : Head) (comparator : Comparator) (left : Expr)

inductive State where
  | start
  | letName
  | assignSign (name : String) (explicit : Bool)
  | printItem
  | inputName
  | gotoTarget
  | operand (goal : Goal) (frames : List Frame)
  /-- An operand has come; the frames end in a group or there are none. -/
  | operator (goal : Goal) (chain : Chain) (frames : List Frame)
  | thenTarget (condition : Condition)
  | elseOrEnd (condition : Condition) (target : Float)
  | elseTarget (condition : Condition) (target : Float)
  | ending (statement : Statement Float)
  | finished (statement : Statement Float)

def isOperator : Token.Kind → Bool
  | .plus | .minus | .times | .divide | .modulo => true
  | _ => false

def isComparator : Token.Kind → Bool
  | .equals | .less | .lessEqual | .greater | .greaterEqual | .notEqual => true
  | _ => false

/-- The number a token stands for; for a token without one, its lexeme is read. -/
def amount (t : Token) : Float :=
  match t.value with
  | some (.number x) => x
  | _ => (Numeral.double? t.lexeme).getD 0

namespace State

def afterOperand (goal : Goal) (operand : Expr) (frames : List Frame) : State :=
  let (chain, frames) := absorb operand frames
  operator goal chain frames

def close? (goal : Goal) (value : Expr) (t : Token) : Option State :=
  match goal with
  | .assign name explicit =>
    if t.kind = .endOfLine then some (finished (.assign name value explicit)) else none
  | .left head =>
    if isComparator t.kind then some (operand (.right head (.ofSymbol t.text) value) []) else none
  | .right .branch comparator left =>
    if t.kind = .keyword .THEN then some (thenTarget ⟨comparator, left, value⟩) else none
  | .right .loop comparator left =>
    if t.kind = .endOfLine then some (finished (.loop ⟨comparator, left, value⟩)) else none

def open? (t : Token) : Option State :=
  match t.kind with
  | .identifier => some (assignSign t.text false)
  | .keyword .LET => some letName
  | .keyword .PRINT => some printItem
  | .keyword .INPUT => some inputName
  | .keyword .IF => some (operand (.left .branch) [])
  | .keyword .GOTO => some gotoTarget
  | .keyword .WHILE => some (operand (.left .loop) [])
  | .keyword .WEND => some (ending .endLoop)
  | .keyword .END => some (ending .stop)
  | .keyword .REM => some (ending (.remark t.text))
  | _ => none

def next? (s : State) (t : Token) : Option State :=
  match s with
  | start => open? t
  | letName => if t.kind = .identifier then some (assignSign t.text true) else none
  | assignSign name explicit =>
    if t.kind = .equals then some (operand (.assign name explicit) []) else none
  | printItem =>
    match t.kind with
    | .string => some (ending (.print (.text t.text)))
    | .identifier => some (ending (.print (.variable t.text)))
    | _ => none
  | inputName => if t.kind = .identifier then some (ending (.input t.text)) else none
  | gotoTarget => if t.kind = .number then some (ending (.goto (amount t))) else none
  | operand goal frames =>
    match t.kind with
    | .number => some (afterOperand goal (.number (amount t)) frames)
    | .identifier => some (afterOperand goal (.variable t.text) frames)
    | .leftParen => some (operand goal (.group :: frames))
    | .minus => some (operand goal (.negate :: frames))
    | _ => none
  | operator goal chain frames =>
    if isOperator t.kind then some (operand goal (.link chain (.ofSymbol t.text) :: frames))
    else
      match frames with
      | .group :: frames =>
        if t.kind = .rightParen then some (afterOperand goal chain.expr frames) else none
      | _ => close? goal chain.expr t
  | thenTarget condition =>
    if t.kind = .number then some (elseOrEnd condition (amount t)) else none
  | elseOrEnd condition target =>
    match t.kind with
    | .keyword .ELSE => some (elseTarget condition target)
    | .endOfLine => some (finished (.branch condition target none))
    | _ => none
  | elseTarget condition target =>
    if t.kind = .number then some (ending (.branch condition target (some (amount t)))) else none
  | ending statement => if t.kind = .endOfLine then some (finished statement) else none
  | finished _ => none

end State

def complaint (index : Nat) (t : Token) : ParseError :=
  if t.kind = .endOfLine then if index = 0 then .emptyStatement else .endOfLine
  else .unexpected t.lexeme t.position.column

/-- The statement of the tokens that are left, of which `index` came before and `last?` was the last.
Tokens that end too early are refused at the last one. -/
def parseFrom (s : State) (index : Nat) (last? : Option Token) :
    List Token → Except ParseError (Statement Float)
  | [] =>
    match s, last? with
    | .finished statement, _ => .ok statement
    | _, none => .error .endOfLine
    | _, some t => .error (complaint (index - 1) t)
  | t :: ts =>
    match s.next? t with
    | some s => parseFrom s (index + 1) (some t) ts
    | none => .error (complaint index t)

def lineNumber (x : Float) : Except ParseError Int :=
  match Double.integer? x with
  | some n => if 1 ≤ n then .ok n else .error (.lineNumber x)
  | none => .error (.lineNumber x)

def ofTokens (ts : List Token) : Except ParseError (Statement Int) := do
  let statement ← parseFrom .start 0 none ts
  statement.mapTargets lineNumber

end NumberedBasic.Statement
