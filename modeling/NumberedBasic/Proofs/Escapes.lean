import NumberedBasic.Proofs.Failures

set_option autoImplicit false

/-!
# Runs that escape

A run ends with a status, unless a fault without a kind escapes it. The cursor of a run is always at
a line of the program, so no line is looked up in vain. If neither a line number nor the limit of
lines has too many digits, one fault is left: the remainder of an infinite dividend. A run escapes
with it exactly if a line that it executes takes such a remainder.
-/
namespace NumberedBasic

theorem Image.next?_mem {image : Image} {line n : Int} {move : Move}
    (h : image.next? line move = some n) : n ∈ image.order.numbers := by
  cases move with
  | next => exact (LineOrder.next?_eq_some_iff.1 h).1
  | goTo target =>
    simp only [Image.next?, Option.ite_none_right_eq_some] at h
    obtain ⟨hin, hn⟩ := h
    cases hn
    exact LineOrder.contains_iff.1 hin
  | halt => cases h

theorem Image.fails_infiniteDividend_iff {p : Program} {level : Nat} {line : Int} {c : Workspace}
    {statement : Statement Int} : (ofProgram p).Fails level line c statement .infiniteDividend ↔
      ∃ x y, statement.Applies c.store .modulo x y ∧ Double.LacksRemainder x y := by
  have hraised {cause : Fault} (h : cause.raised = .infiniteDividend) : cause = .infiniteDividend := by
    rcases cause.raised_cases with hr | hr
    · exact hr.symm.trans h
    · cases hr.symm.trans h
  constructor
  · rintro ⟨d, result, h, hr⟩
    rcases toldMove_eq_error_iff.1 hr with rfl | ⟨hlong, -⟩
    · generalize hfault : Fault.infiniteDividend = fault at h
      cases h with
      | assignFails h => exact Expr.eval_eq_infiniteDividend_iff.1 (hfault ▸ h)
      | branchFails h | guardFails h => exact Condition.eval_eq_infiniteDividend_iff.1 (hfault ▸ h)
      | leaveFails _ h => cases hraised (hfault.trans (Program.leaveLoop_eq_error_iff.1 h).2).symm
      | gotoFails _ | backFails _ => cases hraised hfault.symm
      | inputFails _ => cases hfault
    · cases hlong
  · intro h
    cases statement with
    | assign name value explicit =>
      exact ⟨c, _, .assignFails (Expr.eval_eq_infiniteDividend_iff.2 h), rfl⟩
    | branch condition target otherwise =>
      exact ⟨c, _, .branchFails (Condition.eval_eq_infiniteDividend_iff.2 h), rfl⟩
    | loop condition => exact ⟨c, _, .guardFails (Condition.eval_eq_infiniteDividend_iff.2 h), rfl⟩
    | _ =>
      obtain ⟨x, y, happlies, -⟩ := h
      exact happlies.elim

theorem Fault.eq_of_ofLine {fault : Fault} (h : fault.ofLine = true) (hk : fault.kind? = none) :
    fault = .infiniteDividend ∨ fault = .longNumber := by
  cases fault <;> simp_all [Fault.ofLine, Fault.kind?]

namespace Program.Writable

variable {p : Program} {line : Int} {c d : Workspace} {statement : Statement Int} {fault : Fault}

theorem performs_ne_longNumber (hp : p.Writable)
    (hs : (Image.ofProgram p).statementAt line = .ok statement)
    (h : (Image.ofProgram p).Performs line c statement d (.error fault)) : fault ≠ .longNumber := by
  have hline := hp line (mem_numbers_of_statementAt hs)
  have heval (he : fault.ofEvaluation = true) : fault ≠ .longNumber := by
    rintro rfl
    cases he
  cases h with
  | assignFails h => exact heval (Expr.eval_fault h)
  | branchFails h | guardFails h => exact heval (Condition.eval_fault h)
  | leaveFails _ h =>
    rw [(leaveLoop_eq_error_iff.1 h).2, Fault.raised_of_short rfl hline]
    exact nofun
  | gotoFails _ =>
    rw [Fault.raised_of_short rfl (Image.statementAt_targets hs List.mem_cons_self)]
    exact nofun
  | backFails _ =>
    rw [Fault.raised_of_short rfl hline]
    exact nofun
  | inputFails _ => exact nofun

theorem performLine_ne_longNumber (hp : p.Writable) (hc : Cached (.ofProgram p) c)
    (hl : line ∈ p.numbers) (level : Nat) :
    ((Image.ofProgram p).performLine level line c).2 ≠ .error .longNumber := by
  intro h
  rcases (Image.performLine_error_iff hc level line .longNumber).1 h with
    hread | ⟨statement, hread, d, result, hperforms, hresult⟩
  · have hlong := ((readAt_ofLine hread hl).2 rfl).2
    rw [hp line hl] at hlong
    cases hlong
  · rw [hp.toldMove_eq hl hperforms] at hresult
    obtain fault | ⟨move, event?⟩ := result
    · cases hresult
      exact hp.performs_ne_longNumber (Image.readAt_eq_ok_iff.1 hread).1 hperforms rfl
    · cases hresult

end Program.Writable

theorem Options.maxSteps_of_overrun? {o : Options} {steps : Nat} {limit : Int}
    (h : o.overrun? steps = some limit) : o.maxSteps = some limit := by
  unfold Options.overrun? at h
  split at h
  · rename_i hsome
    split at h <;> cases h
    exact hsome
  · cases h

section Reachable

variable {p : Program} {o : Options} {replies : List (Option String)} {s : RunState} {line : Int}

theorem Reachable.cursor_mem (h : Reachable p o replies s) (hc : s.cursor = some line) :
    line ∈ p.numbers := by
  have hrun := h.invariant (fun s => ∀ n, s.cursor = some n → n ∈ p.numbers) ?_ ?_
  · exact hrun line hc
  · intro n hn
    rw [← Image.ofProgram_numbers]
    exact List.mem_of_head? hn
  · intro s u _ _ hu n hn
    obtain ⟨m, move, -, -, hcursor, -⟩ := step_running hu
    rw [hcursor] at hn
    rw [← Image.ofProgram_numbers]
    exact Image.next?_mem hn

/-- The run has come to a line that can be announced, and executes it next. -/
structure Executing (p : Program) (o : Options) (replies : List (Option String)) (s : RunState)
    (line : Int) : Prop where
  reachable : Reachable p o replies s
  cursor : s.cursor = some line
  uncancelled : o.cancel s.steps = false
  allowed : o.overrun? s.steps = none
  short : Text.isLong line = false

theorem Reachable.executing (h : Reachable p o replies s) {u : RunState}
    (hu : NumberedBasic.step (.ofProgram p) o s = .running u) : ∃ line, Executing p o replies s line := by
  obtain ⟨line, move, hcursor, hp, -, -, hcancel, hlimit⟩ := step_running hu
  obtain ⟨statement, event?, hread, -⟩ := Image.performLine_ok h.cached hp
  exact ⟨line, h, hcursor, hcancel, hlimit, (Image.readAt_eq_ok_iff.1 hread).2⟩

theorem Executing.performs (h : Executing p o replies s line) {u : RunState}
    (hu : step (.ofProgram p) o s = .running u) :
    ∃ statement move event?, (Image.ofProgram p).statementAt line = .ok statement ∧
      (Image.ofProgram p).Performs line s.workspace.bare statement u.workspace.bare
        (.ok (move, event?)) ∧
      u.cursor = (Image.ofProgram p).next? line move := by
  obtain ⟨n, move, hcursor, hp, hnext, -⟩ := step_running hu
  cases h.cursor.symm.trans hcursor
  obtain ⟨statement, event?, hs, hperforms⟩ := Image.performLine_ok h.reachable.cached hp
  exact ⟨statement, move, event?, (Image.readAt_eq_ok_iff.1 hs).1, hperforms, hnext⟩

theorem Executing.step_eq (h : Executing p o replies s line) {c : Workspace} {move : Move}
    (hp : (Image.ofProgram p).performLine o.level line s.workspace = (c, .ok move)) :
    step (.ofProgram p) o s =
      .running ⟨(Image.ofProgram p).next? line move, s.steps + 1, c⟩ := by
  simp [step, h.cursor, h.uncancelled, h.allowed, hp]

theorem Executing.fails_iff (h : Executing p o replies s line) :
    ((Image.ofProgram p).performLine o.level line s.workspace).2 = .error .infiniteDividend ↔
      ∃ statement x y, (Image.ofProgram p).statementAt line = .ok statement ∧
        statement.Applies s.workspace.store .modulo x y ∧ Double.LacksRemainder x y := by
  rw [Image.performLine_error_iff h.reachable.cached, (Image.ofProgram p).readAt_of_short h.short]
  constructor
  · rintro (hs | ⟨statement, hs, hfails⟩)
    -- a line that is there and has no statement fails with a kind
    · rw [← (Image.ofProgram p).readAt_of_short h.short] at hs
      cases ((Program.readAt_ofLine hs (h.reachable.cursor_mem h.cursor)).2 rfl).1
    · obtain ⟨x, y, happlies, hlacks⟩ := Image.fails_infiniteDividend_iff.1 hfails
      exact ⟨statement, x, y, hs, happlies, hlacks⟩
  · rintro ⟨statement, x, y, hs, happlies, hlacks⟩
    exact .inr ⟨statement, hs, Image.fails_infiniteDividend_iff.2 ⟨x, y, happlies, hlacks⟩⟩

/-- A round that ends a run by an escape comes to a number with too many digits, or executes a line
and has the fault from it. -/
theorem Reachable.escape_cases (h : Reachable p o replies s) {c : Workspace} {fault : Fault}
    (hend : NumberedBasic.step (.ofProgram p) o s = .ended c (.escaped fault)) :
    fault = .longNumber ∨ fault = .infiniteDividend ∧ ∃ line, Executing p o replies s line ∧
      ((Image.ofProgram p).performLine o.level line s.workspace).2 = .error fault := by
  generalize hout : Outcome.escaped fault = outcome at hend
  cases step_stopped hend with
  | done _ => cases hout
  | cancelled _ _ =>
    unfold Abort.outcome at hout
    split at hout <;> cases hout
    exact .inl rfl
  | @overrun line limit _ _ _ =>
    rcases Fault.of_outcome_escaped hout.symm with ⟨rfl, hkind⟩ | ⟨rfl, -⟩
    · rcases Fault.raised_cases (.stepLimit limit) with hr | hr
      · rw [hr] at hkind
        cases hkind
      · exact .inl hr
    · exact .inl rfl
  | @failed line d other hcursor hcancel hlimit hp =>
    rcases Fault.of_outcome_escaped hout.symm with ⟨rfl, hkind⟩ | ⟨rfl, -⟩
    · have hperform := congrArg Prod.snd hp
      have hmem := h.cursor_mem hcursor
      rcases Fault.eq_of_ofLine (Program.performLine_ofLine h.cached hmem hperform) hkind with rfl | rfl
      -- the line was announced, or its number would have been the fault
      · have hshort : Text.isLong line = false := by
          rw [← Bool.not_eq_true]
          intro hlong
          rw [Image.performLine_of_long hlong (Program.mem_numbers_iff.1 hmem)] at hp
          cases hp
        exact .inr ⟨rfl, line, ⟨h, hcursor, hcancel, hlimit, hshort⟩, hperform⟩
      · exact .inl rfl
    · exact .inl rfl

theorem Reachable.step_ne_longNumber (h : Reachable p o replies s) (hp : p.Writable)
    (hlimit : ∀ limit, o.maxSteps = some limit → Text.isLong limit = false) (c : Workspace) :
    NumberedBasic.step (.ofProgram p) o s ≠ .ended c (.escaped .longNumber) := by
  intro hend
  generalize hout : Outcome.escaped .longNumber = outcome at hend
  cases step_stopped hend with
  | done _ => cases hout
  | @cancelled line hcursor _ =>
    simp [Abort.outcome, Abort.cancelled, hp line (h.cursor_mem hcursor)] at hout
  | @overrun line limit hcursor _ hover =>
    have hshort : Text.isLong limit = false := hlimit limit (Options.maxSteps_of_overrun? hover)
    rw [Fault.raised_of_short rfl hshort,
      Fault.outcome_of_kind rfl (hp line (h.cursor_mem hcursor))] at hout
    cases hout
  | @failed line d other hcursor _ _ hperform =>
    have hmem := h.cursor_mem hcursor
    rcases Fault.of_outcome_escaped hout.symm with ⟨rfl, -⟩ | ⟨-, hlong, -⟩
    · exact hp.performLine_ne_longNumber h.cached hmem o.level (congrArg Prod.snd hperform)
    · rw [hp line hmem] at hlong
      cases hlong

theorem Executing.run_eq (h : Executing p o replies s line) {c : Workspace} {fault : Fault}
    (hp : (Image.ofProgram p).performLine o.level line s.workspace = (c, .error fault)) :
    ∃ rounds, run rounds p o replies = some (fault.noted o line c, fault.outcome line) := by
  obtain ⟨n, hruns⟩ := h.reachable
  refine ⟨n + 1, ?_⟩
  rw [run, hruns.runFrom, runFrom, (Stopped.failed h.cursor h.uncancelled h.allowed hp).step_eq]

end Reachable

def Abort.kindNames : List String :=
  ["LexError", "SyntaxError", "UndefinedVariableError", "ArithmeticError", "InvalidJumpError",
    "UnmatchedLoopError", "StepLimitError", "Cancelled"]

theorem Abort.kindName_mem (abort : Abort) : abort.kindName ∈ Abort.kindNames := by
  unfold Abort.kindName
  cases abort.kind? with
  | none => decide
  | some kind => cases kind <;> decide

/-- Only the remainder of an infinite dividend escapes a run; every other end has a status. -/
theorem run_escapes_iff_infinite_dividend (p : Program) (o : Options)
    (replies : List (Option String)) (hp : p.Writable)
    (hlimit : ∀ limit, o.maxSteps = some limit → Text.isLong limit = false) :
    (∀ rounds c outcome, run rounds p o replies = some (c, outcome) →
      outcome = .completed ∨
      (∃ abort, outcome = .aborted abort ∧ abort.line ∈ p.numbers ∧
        abort.kindName ∈ Abort.kindNames) ∨
      outcome = .escaped .infiniteDividend) ∧
    Fault.message .infiniteDividend = "math domain error" ∧
    ((∃ rounds c, run rounds p o replies = some (c, .escaped .infiniteDividend)) ↔
      ∃ s line statement x y, Executing p o replies s line ∧
        (Image.ofProgram p).statementAt line = .ok statement ∧
        statement.Applies s.workspace.store .modulo x y ∧
        x.isInf = true ∧ (y == 0) = false ∧ y.isNaN = false) ∧
    (∀ s line, Reachable p o replies s → s.cursor = some line → line ∈ p.numbers ∧
      ∀ fault, ((Image.ofProgram p).performLine o.level line s.workspace).2 = .error fault →
        (∀ n, fault ≠ .missingLine n) ∧ (∀ name, fault ≠ .unknownOperator name) ∧
          ∀ name, fault ≠ .unknownComparator name) := by
  refine ⟨?_, rfl, ⟨?_, ?_⟩, ?_⟩
  · intro rounds c outcome hrun
    obtain ⟨n, s, hruns, hend⟩ := ended_of_runFrom hrun
    have hs : Reachable p o replies s := ⟨n, hruns⟩
    cases outcome with
    | completed => exact .inl rfl
    | aborted abort =>
      have hline : abort.line ∈ p.numbers := hs.cursor_mem (step_stopped hend).abort_line.1
      exact .inr (.inl ⟨abort, rfl, hline, abort.kindName_mem⟩)
    | escaped fault =>
      rcases hs.escape_cases hend with rfl | ⟨rfl, -⟩
      · exact absurd hend (hs.step_ne_longNumber hp hlimit c)
      · exact .inr (.inr rfl)
  · rintro ⟨rounds, c, hrun⟩
    obtain ⟨n, s, hruns, hend⟩ := ended_of_runFrom hrun
    rcases Reachable.escape_cases ⟨n, hruns⟩ hend with hlong | ⟨-, line, hexec, hfault⟩
    · cases hlong
    · obtain ⟨statement, x, y, hs, happlies, hlacks⟩ := hexec.fails_iff.1 hfault
      exact ⟨s, line, statement, x, y, hexec, hs, happlies, hlacks⟩
  · rintro ⟨s, line, statement, x, y, hexec, hs, happlies, hlacks⟩
    have hfault := hexec.fails_iff.2 ⟨statement, x, y, hs, happlies, hlacks⟩
    obtain ⟨rounds, hrun⟩ := hexec.run_eq (Prod.ext rfl hfault)
    exact ⟨rounds, _, hrun⟩
  · intro s line hs hcursor
    refine ⟨hs.cursor_mem hcursor, fun fault hfault => ?_⟩
    have hline := Program.performLine_ofLine hs.cached (hs.cursor_mem hcursor) hfault
    refine ⟨?_, ?_, ?_⟩ <;> rintro name rfl <;> cases hline

def overflowing : Program := .ofLines
  [(10, "A = 10"), (20, "WHILE A < A * A"), (30, "A = A * A"), (40, "WEND"), (50, "B = A % 7")]

theorem overflowing_escapes : (∃ rounds c,
      run rounds overflowing {} [] = some (c, .escaped .infiniteDividend)) ∧
    ∃ s line statement x y, Executing overflowing {} [] s line ∧
      (Image.ofProgram overflowing).statementAt line = .ok statement ∧
      statement.Applies s.workspace.store .modulo x y ∧
      x.isInf = true ∧ (y == 0) = false ∧ y.isNaN = false := by
  have hrun : (run 30 overflowing {} []).map Prod.snd = some (.escaped .infiniteDividend) := by
    decide +kernel
  obtain ⟨⟨c, outcome⟩, hrun, houtcome⟩ := Option.map_eq_some_iff.1 hrun
  cases houtcome
  have hescape : ∃ rounds c, run rounds overflowing {} [] = some (c, .escaped .infiniteDividend) :=
    ⟨30, c, hrun⟩
  have hwritable : overflowing.Writable := by
    unfold Program.Writable
    decide +kernel
  have hescapes := run_escapes_iff_infinite_dividend overflowing {} [] hwritable nofun
  exact ⟨hescape, hescapes.2.2.1.1 hescape⟩

/-- No run gets past a line whose number has too many digits. -/
theorem Reachable.escapes {p : Program} {o : Options} {replies : List (Option String)} {s : RunState}
    {line : Int} (h : Reachable p o replies s) (hcursor : s.cursor = some line)
    (hlong : Text.isLong line = true) :
    ∃ rounds, run rounds p o replies = some (s.workspace, .escaped .longNumber) := by
  have hstep : NumberedBasic.step (.ofProgram p) o s = _ :=
    step_long hcursor hlong (Program.mem_numbers_iff.1 (h.cursor_mem hcursor))
  obtain ⟨n, hruns⟩ := h
  exact ⟨n + 1, (hruns.runFrom 1).trans (runFrom_ended hstep 0)⟩

def longLine : Program := .ofLines [(Text.leastLong, "PRINT \"A\"")]

theorem run_longLine : ∃ rounds c, run rounds longLine {} [] = some (c, .escaped .longNumber) := by
  have hstart : Reachable longLine {} [] (startState (.ofProgram longLine) {} []) := ⟨0, .refl _⟩
  have hcursor : (startState (.ofProgram longLine) {} []).cursor = some Text.leastLong := by
    decide +kernel
  obtain ⟨rounds, hrun⟩ := hstart.escapes hcursor Text.isLong_leastLong
  exact ⟨rounds, _, hrun⟩

theorem run_overrun_long {p : Program} {line limit : Int} (hline : p.numbers.head? = some line)
    (hneg : limit ≤ 0) (hlong : Text.isLong limit = true) (replies : List (Option String)) :
    ∃ c, run 1 p { maxSteps := some limit } replies = some (c, .escaped .longNumber) := by
  have hcursor : (startState (.ofProgram p) { maxSteps := some limit } replies).cursor = some line :=
    hline
  have hover : Options.overrun? { maxSteps := some limit } 0 = some limit :=
    if_pos (by omega)
  have hstop : Stopped (.ofProgram p) { maxSteps := some limit } _ _ _ := .overrun hcursor rfl hover
  rw [Fault.raised_of_long rfl hlong, Fault.outcome_of_none rfl] at hstop
  exact ⟨_, runFrom_ended hstop.step_eq 0⟩

def printing : Program := .ofLines [(10, "PRINT \"A\"")]

theorem negative_limit_escapes : Fault.message .longNumber ≠ "math domain error" ∧
    ∃ c, run 1 printing { maxSteps := some (-Text.leastLong) } [] = some (c, .escaped .longNumber) := by
  have hfirst : printing.numbers.head? = some 10 := by decide +kernel
  have hpos := Text.leastLong_pos
  refine ⟨by decide +kernel, run_overrun_long hfirst (by omega) ?_ []⟩
  rw [Text.isLong_neg]
  exact Text.isLong_leastLong

end NumberedBasic
