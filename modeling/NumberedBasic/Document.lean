import NumberedBasic.Double.Format
import NumberedBasic.Text.Printable

set_option autoImplicit false

/-!
# Documents

A document is a tree of named and listed values, written as JSON. Fields stay in the order in which
they are given. Text keeps all characters but quotes, backslashes and controls as they are.
-/
namespace NumberedBasic

inductive Document where
  | null
  | truth (b : Bool)
  | integer (n : Int)
  | real (x : Float)
  | text (s : String)
  | list (items : List Document)
  | object (fields : List (String × Document))

namespace Document

def escape (c : Char) : List Char :=
  if c == '"' then ['\\', '"']
  else if c == '\\' then ['\\', '\\']
  else if c == '\n' then ['\\', 'n']
  else if c == '\r' then ['\\', 'r']
  else if c == '\t' then ['\\', 't']
  else if c.toNat = 8 then ['\\', 'b']
  else if c.toNat = 12 then ['\\', 'f']
  else if c.toNat < 32 then '\\' :: 'u' :: Text.hex 4 c.toNat
  else [c]

def quoted (s : String) : String := String.ofList ('"' :: s.toList.flatMap escape ++ ['"'])

def newline (depth : Nat) : String := String.ofList ('\n' :: List.replicate (2 * depth) ' ')

/-- Parts between brackets, each on a line of its own; nothing stands between the brackets of
none. -/
def block (opening closing : String) (depth : Nat) (parts : List String) : String :=
  if parts.isEmpty then opening ++ closing
  else
    opening ++ newline (depth + 1) ++ ("," ++ newline (depth + 1)).intercalate parts ++
      newline depth ++ closing

mutual

def write (depth : Nat) : Document → String
  | null => "null"
  | truth b => if b then "true" else "false"
  | integer n => Text.numeral n
  | real x => Double.Format.dump.write x
  | text s => quoted s
  | list items => block "[" "]" depth (writeItems (depth + 1) items)
  | object fields => block "\x7b" "\x7d" depth (writeFields (depth + 1) fields)

def writeItems (depth : Nat) : List Document → List String
  | [] => []
  | item :: rest => item.write depth :: writeItems depth rest

def writeFields (depth : Nat) : List (String × Document) → List String
  | [] => []
  | (name, value) :: rest => (quoted name ++ ": " ++ value.write depth) :: writeFields depth rest

end

end Document

end NumberedBasic
