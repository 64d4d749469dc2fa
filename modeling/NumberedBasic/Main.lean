import NumberedBasic.Command.Session

set_option autoImplicit false

/-!
# The command

Runs a BASIC program from a file, or writes its dump. Replies are read from the standard input when
the program asks for them.
-/
namespace NumberedBasic.Command

def finish (r : Response) : IO UInt32 := do
  IO.print r.stdout
  IO.eprint r.stderr
  match r.ending with
  | .exit code => return code.toUInt32
  | ending =>
    IO.eprintln ending.message
    return 1

def fileText? (path : Path) : IO (Option String) := do
  try
    return some (← IO.FS.readFile path.text)
  catch _ =>
    return none

def readReply : IO (Option String) := do
  IO.print prompt
  (← IO.getStdout).flush
  let line ← (← IO.getStdin).getLine
  if line.isEmpty then return none
  return some (if line.endsWith "\n" then String.ofList line.toList.dropLast else line)

def appendTrace (events : Array Event) : IO Unit := do
  let handle ← IO.FS.Handle.mk traceFile .append
  handle.putStr (traceText events)

/-- Goes on with a run to its end. A round that asks for a reply is taken again once the reply is
there. -/
partial def goOn (image : Image) (o : Options) (s : RunState) : IO (Workspace × Outcome) := do
  let reads (p : Progress) : Nat :=
    match p with
    | .running next => next.workspace.reads
    | .ended c _ => c.reads
  let first := step image o s
  let progress ←
    if s.workspace.reads < reads first then
      let reply ← readReply
      pure (step image o { s with workspace := { s.workspace with replies := [reply] } })
    else pure first
  match progress with
  | .running next => goOn image o next
  | .ended c outcome => return (c, outcome)

def runFile (path : Path) (level : Nat) (limit : Limit) : IO UInt32 := do
  let some text ← fileText? path | finish (.notFound path)
  match load text with
  | .error response => finish response
  | .ok p =>
    let image := Image.ofProgram p
    let maxSteps :=
      match limit with
      | .lines n => some n
      | _ => none
    let o : Options := { level, maxSteps }
    let start := startState image o []
    if limit = .void && start.cursor.isSome then
      if 0 < level then appendTrace start.workspace.trace
      finish (.broken .voidLimit)
    else
      let (c, outcome) ← goOn image o start
      if 0 < level then appendTrace c.trace
      finish (.ofRun c outcome)

def dumpFile (path : Path) : IO UInt32 := do
  let some text ← fileText? path | finish (.notFound path)
  match load text with
  | .error response => finish response
  | .ok p =>
    match dumpText p with
    | .error response => finish response
    | .ok document =>
      let target := path.extend dumpSuffix
      IO.FS.writeFile target.text document
      finish ⟨target.text ++ "\n", "", .exit 0⟩

end NumberedBasic.Command

open NumberedBasic.Command in
def main (args : List String) : IO UInt32 := do
  match Request.ofArgs args with
  | .misuse => IO.eprint helpText; return 2
  | .help => IO.print helpText; return 0
  | .dump path => dumpFile (.ofString path)
  | .run path level limit => runFile (.ofString path) level limit
