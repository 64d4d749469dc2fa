import NumberedBasic.Image

set_option autoImplicit false

/-!
# The trace of a run

What a run tells about itself is a row of events. Each has a level; a run shows the events up to the
level it is asked for, and every level shows what the lower ones show. An event that names a number
with too many digits cannot be put into words.
-/
namespace NumberedBasic

def statusText (kind message : String) (line? : Option Int) : String :=
  match line? with
  | none => kind ++ ": " ++ message
  | some line => kind ++ " at line " ++ Text.numeral line ++ ": " ++ message

def statusText? (kind message : String) (line? : Option Int) : Option String :=
  if line?.any Text.isLong then none else some (statusText kind message line?)

structure Abort where
  /-- The kind of the fault; none for a run that was cancelled. -/
  kind? : Option Fault.Kind
  message : String
  line : Int
  deriving DecidableEq

namespace Abort

def ofFault (kind : Fault.Kind) (fault : Fault) (line : Int) : Abort :=
  ⟨some kind, fault.message, line⟩

def cancelled (line : Int) : Abort := ⟨none, "run cancelled", line⟩

def kindName (a : Abort) : String :=
  match a.kind? with
  | some kind => kind.name
  | none => "Cancelled"

def text (a : Abort) : String := statusText a.kindName a.message (some a.line)

end Abort

inductive Event where
  | started (size : Nat)
  | executing (line : Int) (text : String)
  | tokens (ts : List Token)
  | assigned (name : String) (value : Float)
  | decided (truth : Bool)
  | jumped (target : Int)
  | looped (line : Int) (guard : Bool) (move : Move)
  | aborted (abort : Abort)
  | completed
  deriving DecidableEq

namespace Event

def level : Event → Nat
  | started _ | executing _ _ | aborted _ | completed => 1
  | assigned _ _ | jumped _ | looped _ _ _ => 2
  | tokens _ | decided _ => 3

def truthText (b : Bool) : String := if b then "True" else "False"

def text : Event → String
  | started size => "run started: " ++ Text.numeral size ++ " lines"
  | executing line text => "Executing line " ++ Text.numeral line ++ ": " ++ text
  | tokens ts => "tokens: " ++ Token.spaced ts
  | assigned name value => "LET " ++ name ++ " = " ++ Double.display value
  | decided truth => "if condition -> " ++ truthText truth
  | jumped target => "GOTO " ++ Text.numeral target
  | looped line guard move =>
    "WHILE at " ++ Text.numeral line ++ ": guard " ++ truthText guard ++ " -> " ++ move.text
  | aborted abort => "run aborted: " ++ abort.text
  | completed => "run completed"

def isLong : Event → Bool
  | executing line _ => Text.isLong line
  | jumped target => Text.isLong target
  | looped line _ move => Text.isLong line || move.isLong
  | aborted abort => Text.isLong abort.line
  | _ => false

/-- Whether an event has to be put into words and cannot be. Those of the first level have to be
even if they are not shown. -/
def untold (level : Nat) (e : Event) : Bool := e.level ≤ max 1 level && e.isLong

end Event

def traceText (events : Array Event) : String :=
  String.join (events.toList.map fun e => e.text ++ "\n")

end NumberedBasic
