import NumberedBasic.Expr.Eval
import NumberedBasic.Numeral
import NumberedBasic.Trace

set_option autoImplicit false

/-!
# Executing lines

The workspace of a run holds its variables, its open loops, what it has printed and read, and the
statements it has parsed already. A line takes a workspace to a workspace and a move or a fault; a
line that fails hands its workspace back as well.
-/
namespace NumberedBasic

structure Workspace where
  store : Store := .empty
  /-- The heads of the open loops, the innermost first. -/
  loops : List Int := []
  output : Array String := #[]
  statements : List (Int × Statement Int) := []
  /-- The replies still to come; a missing one is the end of the input. -/
  replies : List (Option String) := []
  reads : Nat := 0
  trace : Array Event := #[]

namespace Workspace

def record (c : Workspace) (level : Nat) (e : Event) : Workspace :=
  if e.level ≤ level then { c with trace := c.trace.push e } else c

def note (c : Workspace) (level : Nat) (e : Event) : Except Fault Workspace :=
  if e.untold level then .error .longNumber else .ok (c.record level e)

def assign (c : Workspace) (name : String) (x : Float) : Workspace :=
  { c with store := c.store.set name x }

def print (c : Workspace) (line : String) : Workspace := { c with output := c.output.push line }

def reply (c : Workspace) : String := (c.replies.head?.getD none).getD ""

def afterReply (c : Workspace) : Workspace :=
  { c with replies := c.replies.tail, reads := c.reads + 1 }

end Workspace

/-- What `PRINT` writes. A variable that was never set is no fault. -/
def PrintItem.shown (store : Store) : PrintItem → String
  | .text s => s
  | .variable name =>
    match store.get? name with
    | some x => Double.display x
    | none => "Undefined variable: " ++ name

def branchMove (truth : Bool) (target : Int) (otherwise : Option Int) : Move :=
  if truth then .goTo target
  else
    match otherwise with
    | some target => .goTo target
    | none => .next

namespace Image

/-- Executes the statement of a line. A statement that does not fail may have something to tell. -/
def perform (image : Image) (line : Int) (statement : Statement Int) (c : Workspace) :
    Workspace × Except Fault (Move × Option Event) :=
  match statement with
  | .assign name value _ =>
    match value.eval c.store with
    | .error fault => (c, .error fault)
    | .ok x => (c.assign name x, .ok (.next, some (.assigned name x)))
  | .print item => (c.print (item.shown c.store), .ok (.next, none))
  | .input name =>
    match Reply.value? c.reply with
    | none => (c.afterReply, .error (.badReply (Text.trimmed c.reply)))
    | some x => (c.afterReply.assign name x, .ok (.next, none))
  | .branch condition target otherwise =>
    match condition.eval c.store with
    | .error fault => (c, .error fault)
    | .ok truth => (c, .ok (branchMove truth target otherwise, some (.decided truth)))
  | .goto target =>
    if image.order.contains target then (c, .ok (.goTo target, some (.jumped target)))
    else (c, .error (Fault.missingTarget target).raised)
  | .loop condition =>
    match condition.eval c.store with
    | .error fault => (c, .error fault)
    | .ok guard =>
      ({ c with loops := Image.loopsAfter line guard c.loops },
        (image.headMove line guard).map fun move => (move, some (.looped line guard move)))
  | .endLoop => (c, (Image.tailMove line c.loops).map fun move => (move, none))
  | .stop => (c, .ok (.halt, none))
  | .remark _ => (c, .ok (.next, none))

def told (level : Nat) : Workspace × Except Fault (Move × Option Event) → Workspace × Except Fault Move
  | (c, .error fault) => (c, .error fault)
  | (c, .ok (move, none)) => (c, .ok move)
  | (c, .ok (move, some event)) =>
    match c.note level event with
    | .error fault => (c, .error fault)
    | .ok c => (c, .ok move)

/-- Announces a line and gives its statement. The text is parsed when the line is reached for the
first time. -/
def fetch (image : Image) (level : Nat) (line : Int) (c : Workspace) :
    Workspace × Except Fault (Statement Int) :=
  match image.program.text? line with
  | none => (c, .error (.missingLine line))
  | some text =>
    match c.note level (.executing line text) with
    | .error fault => (c, .error fault)
    | .ok c =>
      match c.statements.lookup line with
      | some statement => (c, .ok statement)
      | none =>
        match Token.scan text with
        | .error e => (c, .error (.lex e))
        | .ok ts =>
          let c := c.record level (.tokens ts)
          match Statement.ofTokens ts with
          | .error e => (c, .error (.parse e))
          | .ok statement =>
            ({ c with statements := (line, statement) :: c.statements }, .ok statement)

def performLine (image : Image) (level : Nat) (line : Int) (c : Workspace) :
    Workspace × Except Fault Move :=
  match image.fetch level line c with
  | (c, .error fault) => (c, .error fault)
  | (c, .ok statement) => told level (image.perform line statement c)

end Image

end NumberedBasic
