import NumberedBasic.Fault

set_option autoImplicit false

/-!
# Rows of tokens from elsewhere

The tokens that are cut from a line carry the values of their numerals. In a row of tokens made
otherwise a numeral may lack its value, and its lexeme is read instead when the row has turned out
to be a statement. That serves for an operand. A jump target is compared with one, which a lexeme
cannot be, so a target without a value is always refused. Numerals are looked at from left to right.
-/
namespace NumberedBasic.Statement

inductive Role where
  | operand
  | goto
  | branch
  deriving DecidableEq

inductive RowError where
  | statement (e : ParseError)
  | target (lexeme : String)
  | unreadable (role : Role) (lexeme : String)
  /-- The lexeme of a target spells a whole number, but it is no value. -/
  | unvalued (role : Role)
  deriving DecidableEq

def Role.after : Option Token.Kind → Role
  | some (.keyword .GOTO) => .goto
  | some (.keyword .THEN) | some (.keyword .ELSE) => .branch
  | _ => .operand

def lexemeError? (role : Role) (lexeme : String) : Option RowError :=
  match Numeral.double? lexeme with
  | none => some (.unreadable role lexeme)
  | some x =>
    if role = .operand then none
    else if (Double.integer? x).isNone then some (.target lexeme)
    else some (.unvalued role)

def valueError? (role : Role) (x : Float) : Option RowError :=
  if role = .operand then none
  else
    match lineNumber x with
    | .ok _ => none
    | .error e => some (.statement e)

def numeralError? (role : Role) (t : Token) : Option RowError :=
  match t.value with
  | some (.number x) => valueError? role x
  | _ => lexemeError? role t.lexeme

/-- What is wrong with the first numeral that is refused, where `before` is the kind of the token
before the row. -/
def numeralsError? (before : Option Token.Kind) : List Token → Option RowError
  | [] => none
  | t :: ts =>
    let here := if t.kind = .number then numeralError? (.after before) t else none
    here.or (numeralsError? (some t.kind) ts)

def ofRow (ts : List Token) : Except RowError (Statement Int) :=
  match parseFrom .start 0 none ts with
  | .error e => .error (.statement e)
  | .ok _ =>
    match numeralsError? none ts with
    | some e => .error e
    | none =>
      match ofTokens ts with
      | .error e => .error (.statement e)
      | .ok statement => .ok statement

def Role.name : Role → String
  | operand => "number"
  | goto => "goto_stmt"
  | branch => "if_stmt"

namespace RowError

def kind? : RowError → Option Fault.Kind
  | statement _ | target _ => some .syntactic
  | unreadable _ _ | unvalued _ => none

def inRole (role : Role) (cause : String) : String :=
  "Error trying to process rule \"" ++ role.name ++ "\":\n\n" ++ cause

def message : RowError → String
  | statement e => e.message
  | target lexeme => "invalid line number " ++ Text.quoted lexeme
  | unreadable role lexeme =>
    inRole role ("could not convert string to float: " ++ Text.quoted lexeme)
  | unvalued role => inRole role "'<' not supported between instances of 'str' and 'int'"

end RowError

end NumberedBasic.Statement
