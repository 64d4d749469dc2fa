import NumberedBasic.Workspace

set_option autoImplicit false

/-!
# Runs

A run executes line after line until the cursor finds no line, a line fails, the run is cancelled or
the limit of lines is reached. `step` is one round of it. A run may go on for ever, so `run` takes
the number of rounds it may use; more rounds than a run needs change nothing.
-/
namespace NumberedBasic

structure Options where
  level : Nat := 0
  maxSteps : Option Int := none
  /-- Whether the run is to be cancelled, asked before each line with the number of lines so far. -/
  cancel : Nat → Bool := fun _ => false

inductive Outcome where
  | completed
  | aborted (abort : Abort)
  /-- A fault of no kind leaves no status behind. -/
  | escaped (fault : Fault)
  deriving DecidableEq

structure RunState where
  cursor : Option Int
  steps : Nat
  workspace : Workspace

inductive Progress where
  | running (s : RunState)
  | ended (c : Workspace) (outcome : Outcome)

namespace Options

def overrun? (o : Options) (steps : Nat) : Option Int :=
  match o.maxSteps with
  | some limit => if limit < (steps : Int) + 1 then some limit else none
  | none => none

end Options

def report (o : Options) (abort : Abort) (c : Workspace) : Progress :=
  match c.note o.level (.aborted abort) with
  | .ok c => .ended c (.aborted abort)
  | .error fault => .ended c (.escaped fault)

def failure (o : Options) (line : Int) (fault : Fault) (c : Workspace) : Progress :=
  match fault.kind? with
  | some kind => report o (.ofFault kind fault line) c
  | none => .ended c (.escaped fault)

/-- One round: the cancellation is asked for first, then the limit, and then the line at the cursor
is executed. -/
def step (image : Image) (o : Options) (s : RunState) : Progress :=
  match s.cursor with
  | none => .ended (s.workspace.record o.level .completed) .completed
  | some line =>
    if o.cancel s.steps then report o (.cancelled line) s.workspace
    else
      match o.overrun? s.steps with
      | some limit => failure o line (Fault.stepLimit limit).raised s.workspace
      | none =>
        match image.performLine o.level line s.workspace with
        | (c, .ok move) => .running ⟨image.next? line move, s.steps + 1, c⟩
        | (c, .error fault) => failure o line fault c

/-- The end of a run that goes on from a state, if it needs no more than a number of rounds. -/
def runFrom (image : Image) (o : Options) : Nat → RunState → Option (Workspace × Outcome)
  | 0, _ => none
  | rounds + 1, s =>
    match step image o s with
    | .running s => runFrom image o rounds s
    | .ended c outcome => some (c, outcome)

def startState (image : Image) (o : Options) (replies : List (Option String)) : RunState :=
  ⟨image.order.first?, 0,
    ({ replies } : Workspace).record o.level (.started image.program.size)⟩

def run (rounds : Nat) (p : Program) (o : Options) (replies : List (Option String)) :
    Option (Workspace × Outcome) :=
  let image := Image.ofProgram p
  runFrom image o rounds (startState image o replies)

end NumberedBasic
