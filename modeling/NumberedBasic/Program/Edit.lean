import NumberedBasic.Double.Format
import NumberedBasic.Program.Basic
import NumberedBasic.Text.Blank
import NumberedBasic.Text.LineBreak
import NumberedBasic.Text.Printable

set_option autoImplicit false

/-!
# Editing and listing programs

A line is entered by its number: its text is trimmed, and a blank text removes the line. A listing
is a program as plain text, one line each, the number first. Lines are asked for by keys, which may
be any plain value; a key finds the line whose number it equals.
-/
namespace NumberedBasic

inductive Key where
  | integer (n : Int)
  | real (x : Float)
  | truth (b : Bool)
  | text (s : String)
  | absent
  deriving DecidableEq

namespace Key

/-- The integer that a key equals; a truth value counts as zero or one. -/
def number? : Key → Option Int
  | integer n => some n
  | real x => Double.integer? x
  | truth b => some (if b then 1 else 0)
  | text _ => none
  | absent => none

def shown? : Key → Option String
  | integer n => Text.numeral? n
  | real x => some (Double.text x)
  | truth b => some (if b then "True" else "False")
  | text s => some (Text.quoted s)
  | absent => some "None"

end Key

namespace Program

inductive EditError where
  | number (shown : String)
  /-- A line of a listing, here without the blanks at its end, does not start with a number. -/
  | line (text : String)
  | digits (count : Nat)
  | longNumber
  deriving DecidableEq

def EditError.message : EditError → String
  | number shown => "line number must be a positive integer, got " ++ shown
  | line text => "invalid program line " ++ Text.quoted text ++ ": expected \"<number> <code>\""
  | digits count => Text.digitLimit (": value has " ++ Text.numeral count ++ " digits")
  | longNumber => Text.digitLimit ""

def EditError.ofKey (key : Key) : EditError := (key.shown?.map number).getD longNumber

/-- The program with a text entered at a line: stored without its outer blanks, or, if nothing is
left of it, the line removed. -/
def enter (p : Program) (n : Int) (text : String) : Program :=
  match Text.trim text.toList with
  | [] => p.erase n
  | cs => p.insert n (String.ofList cs)

def set (p : Program) (key : Key) (text : String) : Except EditError Program :=
  match key with
  | .integer n => if 1 ≤ n then .ok (p.enter n text) else .error (.ofKey key)
  | _ => .error (.ofKey key)

def delete (p : Program) (key : Key) : Program :=
  match key.number? with
  | some n => p.erase n
  | none => p

def get? (p : Program) (key : Key) : Option String := key.number?.bind p.text?

def ofEntries (entries : List (Key × String)) : Except EditError Program :=
  entries.foldlM (fun p entry => p.set entry.1 entry.2) empty

/-- The number and the code of a listing line: the number reaches to the first blank. -/
def listingLine (cs : List Char) : Except EditError (Int × String) :=
  let content := Text.trim cs
  let head := content.takeWhile (· != ' ')
  let code := (content.dropWhile (· != ' ')).drop 1
  let refusal := EditError.line (String.ofList (Text.trimRight cs))
  if head.isEmpty || !head.all Char.isDigit then .error refusal
  else if Text.maxDigits < head.length then .error (.digits head.length)
  else
    let n := Text.ofDigits head
    if n = 0 then .error refusal else .ok (n, String.ofList (Text.trim code))

def listingLines (s : String) : Except EditError (List (Int × String)) :=
  ((Text.lines s.toList).filter fun cs => !(Text.trim cs).isEmpty).mapM listingLine

/-- The program of a listing: a later line replaces an earlier one of the same number, and a number
alone removes it. -/
def ofListing (s : String) : Except EditError Program := do
  let lines ← listingLines s
  .ok (lines.foldl (fun p line => p.enter line.1 line.2) empty)

def listedLine (line : Int × String) : Except EditError String :=
  match Text.numeral? line.1 with
  | some number => .ok (number ++ " " ++ line.2 ++ "\n")
  | none => .error .longNumber

def listing (p : Program) : Except EditError String := do
  let rows ← p.lines.mapM listedLine
  .ok (String.join rows)

def summary (p : Program) : String := "Program(" ++ Text.numeral p.size ++ " lines)"

end Program

end NumberedBasic
