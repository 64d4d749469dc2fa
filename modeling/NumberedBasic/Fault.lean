import NumberedBasic.Double.Format
import NumberedBasic.Statement.Parser
import NumberedBasic.Text.Printable

set_option autoImplicit false

/-!
# Faults

Everything that can go wrong with a line, by cause. Most faults have a kind and end a run with a
report. Three have none and end it without one: the remainder of an infinite dividend, a line number
that the index has and the program lacks, and a number with too many digits to be written. The last
one takes the place of any fault whose message would name such a number.
-/
namespace NumberedBasic

inductive Fault where
  | lex (e : Token.LexError)
  | parse (e : Statement.ParseError)
  | nesting
  | unknownOperator (symbol : String)
  | unknownComparator (symbol : String)
  /-- A reply, here without its blanks, is no number. -/
  | badReply (reply : String)
  | undefinedVariable (name : String)
  | divisionByZero
  | moduloByZero
  | missingTarget (line : Int)
  | unopenedLoop (line : Int)
  | unclosedLoop (line : Int)
  | stepLimit (limit : Int)
  | infiniteDividend
  | missingLine (line : Int)
  | longNumber
  deriving DecidableEq

namespace Fault

inductive Kind where
  | lexical | syntactic | undefinedVariable | arithmetic | invalidJump | unmatchedLoop | stepLimit
  deriving DecidableEq

def Kind.name : Kind → String
  | lexical => "LexError"
  | syntactic => "SyntaxError"
  | undefinedVariable => "UndefinedVariableError"
  | arithmetic => "ArithmeticError"
  | invalidJump => "InvalidJumpError"
  | unmatchedLoop => "UnmatchedLoopError"
  | stepLimit => "StepLimitError"

def kind? : Fault → Option Kind
  | lex _ => some .lexical
  | parse _ | nesting | unknownOperator _ | unknownComparator _ | badReply _ => some .syntactic
  | undefinedVariable _ => some .undefinedVariable
  | divisionByZero | moduloByZero => some .arithmetic
  | missingTarget _ => some .invalidJump
  | unopenedLoop _ | unclosedLoop _ => some .unmatchedLoop
  | stepLimit _ => some .stepLimit
  | infiniteDividend | missingLine _ | longNumber => none

def number? : Fault → Option Int
  | missingTarget n | unopenedLoop n | unclosedLoop n | stepLimit n => some n
  | _ => none

/-- A fault whose message cannot be written gives way to the fault of its number. -/
def raised (cause : Fault) : Fault := if cause.number?.any Text.isLong then longNumber else cause

end Fault

def Position.text (p : Position) : String :=
  Text.numeral p.line ++ ":" ++ Text.numeral p.column

def Token.LexError.message : Token.LexError → String
  | unterminated p => "unterminated string literal at " ++ p.text
  | unexpected c p => "unexpected character " ++ Text.quoted (String.singleton c) ++ " at " ++ p.text

def Statement.ParseError.message : Statement.ParseError → String
  | emptyStatement => "empty statement"
  | endOfLine => "unexpected end of line"
  | unexpected lexeme column =>
    "unexpected " ++ Text.quoted lexeme ++ " at column " ++ Text.numeral column
  | lineNumber value => "invalid line number " ++ Double.text value

def Fault.message : Fault → String
  | lex e => e.message
  | parse e => e.message
  | nesting => "expression nested too deeply"
  | unknownOperator symbol => "unknown operator " ++ symbol
  | unknownComparator symbol => "unknown comparator " ++ symbol
  | badReply reply => "cannot parse number from " ++ Text.quoted reply
  | undefinedVariable name => "undefined variable " ++ name
  | divisionByZero => "division by zero"
  | moduloByZero => "modulo by zero"
  | missingTarget line => "GOTO target line " ++ Text.numeral line ++ " does not exist"
  | unopenedLoop line => "WEND at line " ++ Text.numeral line ++ " without matching WHILE"
  | unclosedLoop line => "WHILE at line " ++ Text.numeral line ++ " without matching WEND"
  | stepLimit limit => "more than " ++ Text.numeral limit ++ " lines executed"
  | infiniteDividend => "math domain error"
  | missingLine line => Text.numeral line
  | longNumber => Text.digitLimit ""

def Statement.ofLine (s : String) : Except Fault (Statement Int) :=
  match Token.scan s with
  | .error e => .error (.lex e)
  | .ok ts =>
    match Statement.ofTokens ts with
    | .error e => .error (.parse e)
    | .ok statement => .ok statement

end NumberedBasic
