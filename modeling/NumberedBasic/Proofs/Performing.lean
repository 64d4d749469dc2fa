import NumberedBasic.Run

set_option autoImplicit false

/-!
# What a statement does

`Performs` says once, for every kind of statement, what its execution makes of the workspace and what
it ends with: a fault, or a move and an event to be told. `Fetches` does the same for the way to a
statement from its line. Every other result about the execution of lines is derived from them. A
statement sees the variables, the open loops and the next reply, and nothing else: `Performs.frame`
carries its execution over to any workspace with the same ones.

The event is told at last. `toldMove` is what telling it leaves of the move: nothing, if the event
names a number with too many digits and the level asks for its words.
-/
namespace NumberedBasic

theorem Fault.raised_of_long {cause : Fault} {n : Int} (hn : cause.number? = some n)
    (h : Text.isLong n = true) : cause.raised = .longNumber := by
  simp [raised, hn, h]

theorem Fault.raised_of_short {cause : Fault} {n : Int} (hn : cause.number? = some n)
    (h : Text.isLong n = false) : cause.raised = cause := by
  simp [raised, hn, h]

theorem Fault.raised_cases (cause : Fault) : cause.raised = cause ∨ cause.raised = .longNumber := by
  unfold Fault.raised
  split
  · exact .inr rfl
  · exact .inl rfl

namespace Event

theorem untold_iff {level : Nat} {e : Event} :
    e.untold level = true ↔ e.level ≤ max 1 level ∧ e.isLong = true := by
  simp [untold]

@[simp] theorem untold_executing (level : Nat) (line : Int) (text : String) :
    (executing line text).untold level = Text.isLong line := by
  change (decide (1 ≤ max 1 level) && Text.isLong line) = _
  rw [decide_eq_true (Nat.le_max_left 1 level), Bool.true_and]

@[simp] theorem untold_aborted (level : Nat) (abort : Abort) :
    (aborted abort).untold level = Text.isLong abort.line := by
  change (decide (1 ≤ max 1 level) && Text.isLong abort.line) = _
  rw [decide_eq_true (Nat.le_max_left 1 level), Bool.true_and]

end Event

@[simp] theorem Workspace.statements_record (c : Workspace) (level : Nat) (e : Event) :
    (c.record level e).statements = c.statements := by
  unfold record
  split <;> rfl

namespace Image

/-- How a line comes to its statement: it is announced, and parsed unless it was reached before. -/
inductive Fetches (image : Image) (level : Nat) (line : Int) (c : Workspace) :
    Workspace → Except Fault (Statement Int) → Prop where
  | missing (ht : image.program.text? line = none) :
      Fetches image level line c c (.error (.missingLine line))
  | long {text : String} (ht : image.program.text? line = some text)
      (hlong : Text.isLong line = true) : Fetches image level line c c (.error .longNumber)
  | remembered {text : String} {statement : Statement Int}
      (ht : image.program.text? line = some text) (hshort : Text.isLong line = false)
      (hl : c.statements.lookup line = some statement) :
      Fetches image level line c (c.record level (.executing line text)) (.ok statement)
  | lexFails {text : String} {e : Token.LexError} (ht : image.program.text? line = some text)
      (hshort : Text.isLong line = false) (hl : c.statements.lookup line = none)
      (hts : Token.scan text = .error e) :
      Fetches image level line c (c.record level (.executing line text)) (.error (.lex e))
  | parseFails {text : String} {ts : List Token} {e : Statement.ParseError}
      (ht : image.program.text? line = some text) (hshort : Text.isLong line = false)
      (hl : c.statements.lookup line = none) (hts : Token.scan text = .ok ts)
      (hs : Statement.ofTokens ts = .error e) :
      Fetches image level line c
        ((c.record level (.executing line text)).record level (.tokens ts)) (.error (.parse e))
  | parsed {text : String} {ts : List Token} {statement : Statement Int}
      (ht : image.program.text? line = some text) (hshort : Text.isLong line = false)
      (hl : c.statements.lookup line = none) (hts : Token.scan text = .ok ts)
      (hs : Statement.ofTokens ts = .ok statement) :
      Fetches image level line c
        { (c.record level (.executing line text)).record level (.tokens ts) with
          statements := (line, statement) :: c.statements } (.ok statement)

theorem fetch_fetches (image : Image) (level : Nat) (line : Int) (c : Workspace) :
    image.Fetches level line c (image.fetch level line c).1 (image.fetch level line c).2 := by
  cases ht : image.program.text? line with
  | none => simpa [fetch, ht] using Fetches.missing ht
  | some text =>
    cases hlong : Text.isLong line with
    | true => simpa [fetch, ht, Workspace.note, hlong] using Fetches.long ht hlong
    | false =>
      cases hl : c.statements.lookup line with
      | some statement =>
        simpa [fetch, ht, Workspace.note, hlong, hl] using Fetches.remembered ht hlong hl
      | none =>
        cases hts : Token.scan text with
        | error e =>
          simpa [fetch, ht, Workspace.note, hlong, hl, hts] using Fetches.lexFails ht hlong hl hts
        | ok ts =>
          cases hs : Statement.ofTokens ts with
          | error e =>
            simpa [fetch, ht, Workspace.note, hlong, hl, hts, hs]
              using Fetches.parseFails ht hlong hl hts hs
          | ok statement =>
            simpa [fetch, ht, Workspace.note, hlong, hl, hts, hs]
              using Fetches.parsed ht hlong hl hts hs

theorem Fetches.fetch_eq {image : Image} {level : Nat} {line : Int} {c d : Workspace}
    {r : Except Fault (Statement Int)} (h : image.Fetches level line c d r) :
    image.fetch level line c = (d, r) := by
  cases h with
  | missing ht => simp [fetch, ht]
  | long ht hlong => simp [fetch, ht, Workspace.note, hlong]
  | remembered ht hshort hl => simp [fetch, ht, Workspace.note, hshort, hl]
  | lexFails ht hshort hl hts => simp [fetch, ht, Workspace.note, hshort, hl, hts]
  | parseFails ht hshort hl hts hs | parsed ht hshort hl hts hs =>
    simp [fetch, ht, Workspace.note, hshort, hl, hts, hs]

theorem Fetches.short {image : Image} {level : Nat} {line : Int} {c d : Workspace}
    {statement : Statement Int} (h : image.Fetches level line c d (.ok statement)) :
    Text.isLong line = false := by
  cases h with
  | remembered _ hshort _ | parsed _ hshort _ _ _ => exact hshort

inductive Performs (image : Image) (line : Int) (c : Workspace) :
    Statement Int → Workspace → Except Fault (Move × Option Event) → Prop where
  | assign {name : String} {value : Expr} {explicit : Bool} {x : Float}
      (h : value.eval c.store = .ok x) :
      Performs image line c (.assign name value explicit) (c.assign name x)
        (.ok (.next, some (.assigned name x)))
  | assignFails {name : String} {value : Expr} {explicit : Bool} {fault : Fault}
      (h : value.eval c.store = .error fault) :
      Performs image line c (.assign name value explicit) c (.error fault)
  | print (item : PrintItem) :
      Performs image line c (.print item) (c.print (item.shown c.store)) (.ok (.next, none))
  | input {name : String} {x : Float} (h : Reply.value? c.reply = some x) :
      Performs image line c (.input name) (c.afterReply.assign name x) (.ok (.next, none))
  | inputFails {name : String} (h : Reply.value? c.reply = none) :
      Performs image line c (.input name) c.afterReply (.error (.badReply (Text.trimmed c.reply)))
  | branch {condition : Condition} {target : Int} {otherwise : Option Int} {truth : Bool}
      (h : condition.eval c.store = .ok truth) :
      Performs image line c (.branch condition target otherwise) c
        (.ok (branchMove truth target otherwise, some (.decided truth)))
  | branchFails {condition : Condition} {target : Int} {otherwise : Option Int} {fault : Fault}
      (h : condition.eval c.store = .error fault) :
      Performs image line c (.branch condition target otherwise) c (.error fault)
  | goto {target : Int} (h : target ∈ image.order.numbers) :
      Performs image line c (.goto target) c (.ok (.goTo target, some (.jumped target)))
  | gotoFails {target : Int} (h : target ∉ image.order.numbers) :
      Performs image line c (.goto target) c (.error (Fault.missingTarget target).raised)
  | guardFails {condition : Condition} {fault : Fault} (h : condition.eval c.store = .error fault) :
      Performs image line c (.loop condition) c (.error fault)
  | enter {condition : Condition} (h : condition.eval c.store = .ok true) :
      Performs image line c (.loop condition) { c with loops := loopsAfter line true c.loops }
        (.ok (.next, some (.looped line true .next)))
  | leave {condition : Condition} {move : Move} (h : condition.eval c.store = .ok false)
      (hmove : image.leaveLoop line = .ok move) :
      Performs image line c (.loop condition) { c with loops := loopsAfter line false c.loops }
        (.ok (move, some (.looped line false move)))
  | leaveFails {condition : Condition} {fault : Fault} (h : condition.eval c.store = .ok false)
      (hmove : image.leaveLoop line = .error fault) :
      Performs image line c (.loop condition) { c with loops := loopsAfter line false c.loops }
        (.error fault)
  | back {head : Int} {outer : List Int} (h : c.loops = head :: outer) :
      Performs image line c .endLoop c (.ok (.goTo head, none))
  | backFails (h : c.loops = []) :
      Performs image line c .endLoop c (.error (Fault.unopenedLoop line).raised)
  | stop : Performs image line c .stop c (.ok (.halt, none))
  | remark (text : String) : Performs image line c (.remark text) c (.ok (.next, none))

section Statements

variable {image : Image} {line : Int} {statement : Statement Int} {c d : Workspace}
  {r : Except Fault (Move × Option Event)}

theorem perform_performs (image : Image) (line : Int) (statement : Statement Int) (c : Workspace) :
    image.Performs line c statement (image.perform line statement c).1
      (image.perform line statement c).2 := by
  cases statement with
  | assign name value explicit =>
    cases hv : value.eval c.store with
    | error fault => simpa [perform, hv] using Performs.assignFails hv
    | ok x => simpa [perform, hv] using Performs.assign hv
  | input name =>
    cases hv : Reply.value? c.reply with
    | none => simpa [perform, hv] using Performs.inputFails hv
    | some x => simpa [perform, hv] using Performs.input hv
  | branch condition target otherwise =>
    cases hv : condition.eval c.store with
    | error fault => simpa [perform, hv] using Performs.branchFails hv
    | ok truth => simpa [perform, hv] using Performs.branch hv
  | goto target =>
    by_cases ht : target ∈ image.order.numbers
    · simpa [perform, ht] using Performs.goto ht
    · simpa [perform, ht] using Performs.gotoFails ht
  | loop condition =>
    cases hv : condition.eval c.store with
    | error fault => simpa [perform, hv] using Performs.guardFails hv
    | ok truth =>
      cases truth with
      | true => simpa [perform, hv, headMove, Except.map] using Performs.enter hv
      | false =>
        cases hm : image.leaveLoop line with
        | error fault => simpa [perform, hv, headMove, hm, Except.map] using Performs.leaveFails hv hm
        | ok move => simpa [perform, hv, headMove, hm, Except.map] using Performs.leave hv hm
  | endLoop =>
    cases hl : c.loops with
    | nil => simpa [perform, hl, tailMove, Except.map] using Performs.backFails hl
    | cons head outer => simpa [perform, hl, tailMove, Except.map] using Performs.back hl
  | print item => exact .print item
  | stop => exact .stop
  | remark text => exact .remark text

theorem Performs.perform_eq (h : image.Performs line c statement d r) :
    image.perform line statement c = (d, r) := by
  cases h with
  | assign h | assignFails h | input h | inputFails h | branch h | branchFails h | guardFails h =>
    simp [perform, h]
  | goto h | gotoFails h => simp [perform, h]
  | enter h => simp [perform, h, headMove, Except.map]
  | leave h hmove | leaveFails h hmove => simp [perform, h, headMove, hmove, Except.map]
  | back h | backFails h => simp [perform, h, tailMove, Except.map]
  | print _ | stop | remark _ => rfl

theorem Performs.statements (h : image.Performs line c statement d r) :
    d.statements = c.statements := by
  cases h <;> rfl

theorem Performs.reads (h : image.Performs line c statement d r) : c.reads ≤ d.reads := by
  cases h with
  | input _ | inputFails _ => exact Nat.le_succ _
  | _ => exact Nat.le_refl _

end Statements

end Image

/-- A change of the workspace that statements do not see. What they do can be done before it or
after it. -/
structure Workspace.Frame (f : Workspace → Workspace) : Prop where
  store : ∀ c, (f c).store = c.store
  loops : ∀ c, (f c).loops = c.loops
  assign : ∀ c name x, f (c.assign name x) = (f c).assign name x
  print : ∀ c text, f (c.print text) = (f c).print text
  afterReply : ∀ c, f c.afterReply = (f c).afterReply
  withLoops : ∀ c loops, f { c with loops } = { f c with loops }

structure Workspace.FetchFrame (level level' : Nat) (f : Workspace → Workspace) : Prop where
  statements : ∀ c, (f c).statements = c.statements
  record : ∀ c e, f (c.record level e) = (f c).record level' e
  withStatements : ∀ c statements, f { c with statements } = { f c with statements }

namespace Image

theorem Fetches.frame {image : Image} {level level' : Nat} {line : Int} {c d : Workspace}
    {r : Except Fault (Statement Int)} {f : Workspace → Workspace}
    (hf : Workspace.FetchFrame level level' f) (h : image.Fetches level line c d r) :
    image.Fetches level' line (f c) (f d) r := by
  have hmemory := hf.statements c
  cases h with
  | missing ht => exact .missing ht
  | long ht hlong => exact .long ht hlong
  | remembered ht hshort hl =>
    rw [hf.record]
    exact .remembered ht hshort (hmemory ▸ hl)
  | lexFails ht hshort hl hts =>
    rw [hf.record]
    exact .lexFails ht hshort (hmemory ▸ hl) hts
  | parseFails ht hshort hl hts hs =>
    rw [hf.record, hf.record]
    exact .parseFails ht hshort (hmemory ▸ hl) hts hs
  | @parsed text ts statement ht hshort hl hts hs =>
    rw [hf.withStatements _ ((line, statement) :: c.statements), hf.record, hf.record, ← hmemory]
    exact .parsed ht hshort (hmemory ▸ hl) hts hs

theorem fetch_frame {image : Image} {level level' : Nat} {f : Workspace → Workspace}
    (hf : Workspace.FetchFrame level level' f) (line : Int) (c : Workspace) :
    image.fetch level' line (f c) =
      (f (image.fetch level line c).1, (image.fetch level line c).2) :=
  ((image.fetch_fetches level line c).frame hf).fetch_eq

/-- The next reply counts without its blanks, and only if it is read. -/
theorem Performs.frame {image : Image} {line : Int} {statement : Statement Int} {c d : Workspace}
    {r : Except Fault (Move × Option Event)} {f : Workspace → Workspace} (hf : Workspace.Frame f)
    (h : image.Performs line c statement d r)
    (hreply : c.reads < d.reads → Text.trim (f c).reply.toList = Text.trim c.reply.toList) :
    image.Performs line (f c) statement (f d) r := by
  have hstore := hf.store c
  have hloops := hf.loops c
  -- a reply is looked at in two ways, and both see it trimmed
  have hread (hlt : c.reads < d.reads) : Reply.value? (f c).reply = Reply.value? c.reply ∧
      Text.trimmed (f c).reply = Text.trimmed c.reply := by
    rw [Reply.value?, Reply.value?, Text.trimmed, Text.trimmed, hreply hlt]
    exact ⟨rfl, rfl⟩
  cases h with
  | assign h =>
    rw [hf.assign]
    exact .assign (hstore ▸ h)
  | assignFails h => exact .assignFails (hstore ▸ h)
  | print item =>
    rw [hf.print, ← hstore]
    exact .print item
  | input h =>
    rw [hf.assign, hf.afterReply]
    exact .input ((hread (Nat.lt_succ_self _)).1.trans h)
  | inputFails h =>
    obtain ⟨hvalue, htrimmed⟩ := hread (Nat.lt_succ_self _)
    rw [hf.afterReply, ← htrimmed]
    exact .inputFails (hvalue.trans h)
  | branch h => exact .branch (hstore ▸ h)
  | branchFails h => exact .branchFails (hstore ▸ h)
  | goto h => exact .goto h
  | gotoFails h => exact .gotoFails h
  | guardFails h => exact .guardFails (hstore ▸ h)
  | enter h =>
    rw [hf.withLoops c (loopsAfter line true c.loops), ← hloops]
    exact .enter (hstore ▸ h)
  | leave h hmove =>
    rw [hf.withLoops c (loopsAfter line false c.loops), ← hloops]
    exact .leave (hstore ▸ h) hmove
  | leaveFails h hmove =>
    rw [hf.withLoops c (loopsAfter line false c.loops), ← hloops]
    exact .leaveFails (hstore ▸ h) hmove
  | back h => exact .back (hloops.trans h)
  | backFails h => exact .backFails (hloops.trans h)
  | stop => exact .stop
  | remark text => exact .remark text

theorem perform_frame {image : Image} {line : Int} {statement : Statement Int} {c : Workspace}
    {f : Workspace → Workspace} (hf : Workspace.Frame f)
    (hreply : c.reads < (image.perform line statement c).1.reads →
      Text.trim (f c).reply.toList = Text.trim c.reply.toList) :
    image.perform line statement (f c) =
      (f (image.perform line statement c).1, (image.perform line statement c).2) :=
  ((image.perform_performs line statement c).frame hf hreply).perform_eq

/-- What is left of a move when its event has been told. -/
def toldMove (level : Nat) : Except Fault (Move × Option Event) → Except Fault Move
  | .error fault => .error fault
  | .ok (move, event?) => if event?.any (Event.untold level) then .error .longNumber else .ok move

section Telling

variable {level : Nat} {r : Except Fault (Move × Option Event)} {fault : Fault} {move : Move}

theorem toldMove_of_short (level : Nat) {event : Event} (h : event.isLong = false) :
    toldMove level (.ok (move, some event)) = .ok move := by
  simp [toldMove, Event.untold, h]

theorem toldMove_eq_ok_iff : toldMove level r = .ok move ↔
    ∃ event?, r = .ok (move, event?) ∧ event?.any (Event.untold level) = false := by
  obtain fault | ⟨other, event?⟩ := r
  · simp [toldMove]
  · by_cases h : event?.any (Event.untold level) = true
    · simp [toldMove, h]
    · rw [toldMove, if_neg h]
      constructor
      · rintro ⟨⟩
        exact ⟨event?, rfl, by simpa using h⟩
      · rintro ⟨_, ⟨⟩, _⟩
        rfl

theorem toldMove_eq_error_iff : toldMove level r = .error fault ↔ r = .error fault ∨
    fault = .longNumber ∧ ∃ move event, r = .ok (move, some event) ∧ event.untold level = true := by
  obtain other | ⟨move, _ | event⟩ := r
  · simp [toldMove]
  · simp [toldMove]
  · by_cases h : event.untold level = true
    · simp only [toldMove, Option.any_some, h, if_true, Except.error.injEq, reduceCtorEq, false_or]
      exact ⟨fun e => ⟨e.symm, move, event, rfl, h⟩, fun e => e.1.symm⟩
    · simp [toldMove, h]

end Telling

end Image

end NumberedBasic
