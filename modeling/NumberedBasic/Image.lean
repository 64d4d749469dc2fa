import NumberedBasic.Fault
import NumberedBasic.LineOrder
import NumberedBasic.Program.Edit

set_option autoImplicit false

/-!
# Program images and moves of the cursor

An image is a program made ready to run: its texts and the order of its line numbers. Every executed
statement ends with a move: on to the next line, to a line by its number, or nowhere, which ends the
run.

Loops are not marked in a program. The end of a loop is found by reading the first words of the
lines after its head, and a run keeps the heads of the loops it is in, the innermost first.
-/
namespace NumberedBasic

inductive Move where
  | next
  | goTo (line : Int)
  | halt
  deriving DecidableEq

namespace Move

def text : Move → String
  | next => "Advance()"
  | goTo line => "JumpTo(line=" ++ Text.numeral line ++ ")"
  | halt => "Terminate()"

def isLong : Move → Bool
  | goTo line => Text.isLong line
  | next | halt => false

def refusal? (offered : Key) : Option String := offered.shown?.map ("unknown directive " ++ ·)

end Move

def Program.order (p : Program) : LineOrder := ⟨p.numbers, p.numbers_ascending.imp Int.le_of_lt⟩

structure Image where
  program : Program
  order : LineOrder
  deriving DecidableEq

namespace Image

def ofProgram (p : Program) : Image := ⟨p, p.order⟩

/-- The line that a move leads to; none ends the run. A line that is not there ends it too. -/
def next? (image : Image) (line : Int) : Move → Option Int
  | .next => image.order.next? line
  | .goTo target => if image.order.contains target then some target else none
  | .halt => none

/-- The first loop end in a row of lines that has no head of its own there, where `depth` heads are
open already. -/
def closing? (p : Program) (depth : Nat) : List Int → Except Fault (Option Int)
  | [] => .ok none
  | n :: rest =>
    match p.text? n with
    | none => .error (.missingLine n)
    | some text =>
      match Token.headKeyword? text with
      | some .WHILE => closing? p (depth + 1) rest
      | some .WEND =>
        match depth with
        | 0 => .ok (some n)
        | depth + 1 => closing? p depth rest
      | _ => closing? p depth rest

def loopEnd (image : Image) (line : Int) : Except Fault Int :=
  match closing? image.program 0 (image.order.after line) with
  | .error fault => .error fault
  | .ok (some n) => .ok n
  | .ok none => .error (Fault.unclosedLoop line).raised

def leaveLoop (image : Image) (line : Int) : Except Fault Move :=
  match image.loopEnd line with
  | .error fault => .error fault
  | .ok n =>
    match image.order.next? n with
    | some behind => .ok (.goTo behind)
    | none => .ok .halt

/-- The open loops after a loop head: a true guard puts the head on top once, a false one takes it
away. -/
def loopsAfter (line : Int) (guard : Bool) (loops : List Int) : List Int :=
  if guard then
    if loops.head? = some line then loops else line :: loops
  else
    if loops.head? = some line then loops.tail else loops

/-- The move of a loop head. The open loops are those of `loopsAfter` even if it has none. -/
def headMove (image : Image) (line : Int) (guard : Bool) : Except Fault Move :=
  if guard then .ok .next else image.leaveLoop line

def tailMove (line : Int) : List Int → Except Fault Move
  | [] => .error (Fault.unopenedLoop line).raised
  | head :: _ => .ok (.goTo head)

end Image

end NumberedBasic
