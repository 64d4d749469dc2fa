import NumberedBasic.Command.Arguments
import NumberedBasic.Command.Folder
import NumberedBasic.Dump
import NumberedBasic.Program.Edit
import NumberedBasic.Run

set_option autoImplicit false

/-!
# Sessions

A session is a row of invocations of the command in one folder, with one input that all of them read
on. An invocation runs a program and prints its output when the run has ended, or writes its dump
beside it. With a trace level it also adds the trace to a file.
-/
namespace NumberedBasic.Command

def traceFile : String := "debug.txt"

def prompt : String := "? "

def helpText : String :=
  "usage: [-h] [-v] [--max-steps N] [--emit-ast PROGRAM_FILE] [program]\n"

inductive Ending where
  | exit (code : Nat)
  | escaped (fault : Fault)
  | isFolder (path : String)
  | tooLong (path : String)
  /-- The limit of lines is no number, and a line was about to be counted. -/
  | voidLimit
  deriving DecidableEq

def Ending.message : Ending → String
  | exit _ => ""
  | escaped fault => fault.message
  | isFolder path => "[Errno 21] Is a directory: " ++ Text.quoted path
  | tooLong path => "[Errno 36] File name too long: " ++ Text.quoted path
  | voidLimit => "'>' not supported between instances of 'int' and 'list'"

structure Response where
  stdout : String
  stderr : String
  ending : Ending
  deriving DecidableEq

namespace Response

def failed (message : String) : Response := ⟨"", message ++ "\n", .exit 1⟩

def misuse : Response := ⟨"", "", .exit 2⟩

def broken (ending : Ending) : Response := ⟨"", "", ending⟩

def notFound (path : Path) : Response := failed ("Error: file " ++ path.text ++ " not found")

def printed (c : Workspace) : String := String.join (c.output.toList.map (· ++ "\n"))

def ofRun (c : Workspace) : Outcome → Response
  | .completed => ⟨printed c, "", .exit 0⟩
  | .aborted abort => ⟨printed c, "Runtime error: " ++ abort.text ++ "\n", .exit 1⟩
  | .escaped fault => broken (.escaped fault)

def prompts (c : Workspace) : String := String.join (List.replicate c.reads prompt)

end Response

def load (text : String) : Except Response Program :=
  match Program.ofListing (String.ofList (Text.unifyBreaks text.toList)) with
  | .ok p => .ok p
  | .error e => .error (.failed ("Error: " ++ e.message))

def dumpText (p : Program) : Except Response String :=
  match p.toDocument with
  | .ok document => .ok (document.write 0)
  | .error (line, fault) =>
    let kind := (fault.kind?.map Fault.Kind.name).getD ""
    .error (.failed ("Runtime error: " ++ statusText kind fault.message (some line)))

def dumpSuffix : String := ".ast.json"

structure Session where
  folder : Folder
  input : List String

namespace Session

/-- The lines of an input; an end of line at its end opens no further one. -/
def inputLines (text : String) : List String :=
  let lines := (pieces '\n' text.toList).map String.ofList
  if lines.getLast? = some "" then lines.dropLast else lines

def addTrace (s : Session) (text : String) : Session :=
  { s with folder := s.folder.put traceFile ((s.folder.get? traceFile).getD "" ++ text) }

def dump (s : Session) (path : Path) : Session × Response :=
  match s.folder.place path with
  | .folder => (s, .broken (.isFolder path.text))
  | .tooLong => (s, .broken (.tooLong path.text))
  | .free _ | .nowhere => (s, .notFound path)
  | .file name text =>
    match load text with
    | .error response => (s, response)
    | .ok p =>
      match dumpText p with
      | .error response => (s, response)
      | .ok document =>
        let target := path.extend dumpSuffix
        match s.folder.place target with
        | .folder => (s, .broken (.isFolder target.text))
        | .tooLong => (s, .broken (.tooLong target.text))
        | _ =>
          ({ s with folder := s.folder.put (name ++ dumpSuffix) document },
            ⟨target.text ++ "\n", "", .exit 0⟩)

def afterRun (s : Session) (level : Nat) (c : Workspace) : Session :=
  let rest : Session := { s with input := s.input.drop c.reads }
  if 0 < level then rest.addTrace (traceText c.trace) else rest

/-- Runs a loaded program with at most a number of rounds. A limit that is no number ends the run
when the first line is to be counted. -/
def runProgram (s : Session) (rounds : Nat) (p : Program) (level : Nat) (limit : Limit) :
    Option (Session × Response) :=
  let finished (maxSteps : Option Int) : Option (Session × Response) :=
    (NumberedBasic.run rounds p { level, maxSteps } (s.input.map some)).map fun (c, outcome) =>
      let response := Response.ofRun c outcome
      (s.afterRun level c, { response with stdout := Response.prompts c ++ response.stdout })
  match limit with
  | .absent => finished none
  | .lines n => finished (some n)
  | .void =>
    let image := Image.ofProgram p
    if image.order.first?.isNone then finished none
    else some (s.afterRun level (startState image { level } []).workspace, .broken .voidLimit)

def run (s : Session) (rounds : Nat) (path : Path) (level : Nat) (limit : Limit) :
    Option (Session × Response) :=
  match s.folder.place path with
  | .folder => some (s, .broken (.isFolder path.text))
  | .tooLong => some (s, .broken (.tooLong path.text))
  | .free _ | .nowhere => some (s, .notFound path)
  | .file _ text =>
    match load text with
    | .error response => some (s, response)
    | .ok p =>
      if 0 < level && s.folder.hasFolder [traceFile] then
        some (s, .broken (.isFolder traceFile))
      else s.runProgram rounds p level limit

def invoke (s : Session) (rounds : Nat) (args : List String) : Option (Session × Response) :=
  match Request.ofArgs args with
  | .misuse => some (s, .misuse)
  | .help => some (s, ⟨helpText, "", .exit 0⟩)
  | .dump path => some (s.dump (.ofString path))
  | .run path level limit => s.run rounds (.ofString path) level limit

end Session

end NumberedBasic.Command
