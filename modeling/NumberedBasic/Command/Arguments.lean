import NumberedBasic.Numeral

set_option autoImplicit false

/-!
# Arguments of the command line

Options and the program path may come in any order. A long option may be shortened as long as only
one option starts that way, and has its value attached after an equals sign or in the next argument.
Short options may be joined, also with an equals sign after the first of them. After a divider, `--`,
everything is a path; so is what looks like a negative number or holds a blank and starts no option.
-/
namespace NumberedBasic.Command

inductive Limit where
  | absent
  | lines (n : Int)
  /-- A limit that was asked for and then left without a number. -/
  | void
  deriving DecidableEq

structure Arguments where
  level : Nat := 0
  limit : Limit := .absent
  dump : Option String := none
  program : Option String := none
  deriving DecidableEq

inductive Reading where
  | arguments (a : Arguments)
  | help
  | misuse
  deriving DecidableEq

inductive Flag where
  | help | verbose | maxSteps | dump
  deriving DecidableEq

namespace Flag

def takesValue : Flag → Bool
  | help | verbose => false
  | maxSteps | dump => true

def long : List (String × Flag) :=
  [("--help", help), ("--max-steps", maxSteps), ("--emit-ast", dump)]

def short? (c : Char) : Option Flag :=
  if c == 'h' then some help else if c == 'v' then some verbose else none

/-- The flags of joined short options. They take no values, so an equals sign after the first
one changes nothing if more of them follow. -/
def joined? : List Char → Option (List Flag)
  | c :: '=' :: d :: rest => (c :: d :: rest).mapM short?
  | cs => cs.mapM short?

end Flag

inductive Word where
  | plain (s : String)
  | divider
  | flags (fs : List Flag)
  | option (flag : Flag) (attached : Option String)
  | unknown
  | malformed
  deriving DecidableEq

def isDigit (c : Char) : Bool := (Text.digitValue? c).isSome

/-- A minus with digits, or with digits, a point and digits; the argument starts after the minus,
and one line feed may end it. -/
def isNegativeNumber (cs : List Char) : Bool :=
  let cs := if cs.getLast? = some '\n' then cs.dropLast else cs
  match cs.dropWhile isDigit with
  | [] => !cs.isEmpty
  | '.' :: rest => !rest.isEmpty && rest.all isDigit
  | _ => false

def unnamed (arg : List Char) : Word :=
  if isNegativeNumber (arg.drop 1) || arg.contains ' ' then .plain (String.ofList arg)
  else .unknown

def longWord? (arg : List Char) : Option Word :=
  let name := arg.takeWhile (· != '=')
  let attached :=
    match arg.dropWhile (· != '=') with
    | [] => none
    | _ :: value => some (String.ofList value)
  match Flag.long.filter fun entry => name.isPrefixOf entry.1.toList with
  | [] => some (unnamed arg)
  | [(_, flag)] => some (.option flag attached)
  | _ => none

def shortWord (c : Char) (rest : List Char) : Word :=
  if (Flag.short? c).isNone then unnamed ('-' :: c :: rest)
  else
    match Flag.joined? (c :: rest) with
    | some flags => .flags flags
    | none => .malformed

def word? (arg : String) : Option Word :=
  match arg.toList with
  | ['-', '-'] => some .divider
  | '-' :: '-' :: rest => longWord? ('-' :: '-' :: rest)
  | '-' :: c :: rest => some (shortWord c rest)
  | _ => some (.plain arg)

def words? : List String → Option (List Word)
  | [] => some []
  | arg :: rest =>
    match word? arg with
    | none => none
    | some .divider => some (.divider :: rest.map .plain)
    | some word => (words? rest).map (word :: ·)

namespace Arguments

def give? (a : Arguments) (flag : Flag) (value : String) : Option Arguments :=
  match flag with
  | .maxSteps => (Numeral.integer? value).map fun n => { a with limit := .lines n }
  | .dump => some { a with dump := some value }
  | .help | .verbose => none

/-- Gives an option the value attached to it. A divider in its place is no value, and leaves the
option with none. -/
def attach? (a : Arguments) (flag : Flag) (value : String) : Option Arguments :=
  if value = "--" then
    match flag with
    | .maxSteps => some { a with limit := .void }
    | .dump => some { a with dump := none }
    | .help | .verbose => none
  else a.give? flag value

/-- Reads the words from left to right. There is one path; `done` says that it has been read, and
`extra` that something was left over, which is misuse in the end. A divider goes with the path next
to it, never with the value of an option. -/
def read (a : Arguments) (done extra : Bool) : List Word → Reading
  | [] => if extra then .misuse else .arguments a
  | .unknown :: rest => a.read done true rest
  | .malformed :: _ => .misuse
  | .flags fs :: rest =>
    if fs.contains .help then .help
    else ({ a with level := a.level + fs.length } : Arguments).read done extra rest
  | .option flag (some value) :: rest =>
    match a.attach? flag value with
    | some a => a.read done extra rest
    | none => .misuse
  | .option flag none :: rest =>
    if flag.takesValue then
      match rest with
      | .plain value :: rest =>
        match a.give? flag value with
        | some a => a.read done extra rest
        | none => .misuse
      | _ => .misuse
    else .help
  | .plain path :: .divider :: rest =>
    if done then a.read done true rest
    else ({ a with program := some path } : Arguments).read true extra rest
  | .plain path :: rest =>
    if done then a.read done true rest
    else ({ a with program := some path } : Arguments).read true extra rest
  | .divider :: .plain path :: rest =>
    if done then a.read done true rest
    else ({ a with program := some path } : Arguments).read true extra rest
  | .divider :: rest => a.read true (extra || done) rest

end Arguments

inductive Request where
  | run (path : String) (level : Nat) (limit : Limit)
  | dump (path : String)
  | help
  | misuse
  deriving DecidableEq

/-- An empty path counts as none, and a dump goes before a run. -/
def Arguments.request (a : Arguments) : Request :=
  match a.dump.filter (!·.isEmpty), a.program.filter (!·.isEmpty) with
  | some path, _ => .dump path
  | none, some path => .run path a.level a.limit
  | none, none => .misuse

def Request.ofArgs (args : List String) : Request :=
  match words? args with
  | none => .misuse
  | some words =>
    match ({} : Arguments).read false false words with
    | .arguments a => a.request
    | .help => .help
    | .misuse => .misuse

end NumberedBasic.Command
