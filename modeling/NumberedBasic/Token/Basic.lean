set_option autoImplicit false

/-!
# Tokens

A program line is a row of tokens. A token has a kind, the text it was cut from, a value where its
kind has one, and the position of its first character.
-/
namespace NumberedBasic

inductive Keyword where
  | LET | PRINT | INPUT | IF | THEN | ELSE | ENDIF | WHILE | WEND | END | REM | GOTO
  deriving DecidableEq

namespace Keyword

def spelling : Keyword → String
  | LET => "LET"
  | PRINT => "PRINT"
  | INPUT => "INPUT"
  | IF => "IF"
  | THEN => "THEN"
  | ELSE => "ELSE"
  | ENDIF => "ENDIF"
  | WHILE => "WHILE"
  | WEND => "WEND"
  | END => "END"
  | REM => "REM"
  | GOTO => "GOTO"

def all : List Keyword := [LET, PRINT, INPUT, IF, THEN, ELSE, ENDIF, WHILE, WEND, END, REM, GOTO]

def ofWord? (word : List Char) : Option Keyword :=
  all.find? fun k => k.spelling.toList == word.map Char.toUpper

end Keyword

/-- A line and a column. In a text both are counted from one; a token that is in no text may have
any. -/
structure Position where
  line : Int
  column : Int
  deriving DecidableEq

namespace Position

def start : Position := ⟨1, 1⟩

def next (p : Position) (c : Char) : Position :=
  if c == '\n' then ⟨p.line + 1, 1⟩ else ⟨p.line, p.column + 1⟩

def after (p : Position) (cs : List Char) : Position := cs.foldl next p

end Position

namespace Token

inductive Kind where
  | leftParen | rightParen
  | plus | minus | times | divide | modulo
  | equals | less | lessEqual | greater | greaterEqual | notEqual
  | identifier | string | number
  | keyword (k : Keyword)
  | endOfLine
  deriving DecidableEq

/-- What a token stands for beyond its kind: the number of a numeral, or the text of a name, a
string or a remark. -/
inductive Value where
  | number (x : Float)
  | text (s : String)
  deriving DecidableEq

end Token

structure Token where
  kind : Token.Kind
  lexeme : String
  value : Option Token.Value
  position : Position
  deriving DecidableEq

namespace Token

def text (t : Token) : String :=
  match t.value with
  | some (.text s) => s
  | _ => t.lexeme

/-- What a token leaves in a line. The end of the line leaves no trace, and a remark follows its
keyword. -/
def words (t : Token) : List String :=
  match t.kind with
  | .endOfLine => []
  | .keyword .REM =>
    match t.value with
    | some (.text remark) => if remark.isEmpty then [t.lexeme] else [t.lexeme, remark]
    | _ => [t.lexeme]
  | _ => [t.lexeme]

def spaced (ts : List Token) : String := " ".intercalate (ts.flatMap words)

end Token

end NumberedBasic
