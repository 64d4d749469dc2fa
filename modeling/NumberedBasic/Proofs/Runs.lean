import NumberedBasic.Proofs.LineKeyword
import NumberedBasic.Proofs.Outcomes
import NumberedBasic.Proofs.Performing

set_option autoImplicit false

/-!
# Segments of runs

`Runs` is a finite number of rounds that do not end a run. The statements that a workspace remembers
and its trace have no influence on what a line does: `performLine_bare` takes both away, so that a
line can be read as `execute`, which parses it afresh and records nothing.
-/
namespace NumberedBasic

inductive Runs (image : Image) (o : Options) : RunState → Nat → RunState → Prop where
  | refl (s : RunState) : Runs image o s 0 s
  | next {s u v : RunState} {n : Nat} (h : step image o s = .running u)
      (tail : Runs image o u n v) : Runs image o s (n + 1) v

theorem runFrom_running {image : Image} {o : Options} {s u : RunState}
    (h : step image o s = .running u) (rounds : Nat) :
    runFrom image o (rounds + 1) s = runFrom image o rounds u := by
  rw [runFrom, h]

theorem runFrom_ended {image : Image} {o : Options} {s : RunState} {c : Workspace}
    {outcome : Outcome} (h : step image o s = .ended c outcome) (rounds : Nat) :
    runFrom image o (rounds + 1) s = some (c, outcome) := by
  rw [runFrom, h]

theorem Runs.single {image : Image} {o : Options} {s u : RunState}
    (h : step image o s = .running u) : Runs image o s 1 u :=
  .next h (.refl u)

theorem Runs.trans {image : Image} {o : Options} {m n : Nat} {s u v : RunState}
    (h : Runs image o s m u) (h' : Runs image o u n v) : Runs image o s (m + n) v := by
  induction h with
  | refl _ => simpa using h'
  | next hs _ ih => rw [Nat.add_right_comm]; exact .next hs (ih h')

theorem Runs.invariant {image : Image} {o : Options} {n : Nat} {s v : RunState}
    (I : RunState → Prop) (h : Runs image o s n v) (hs : I s)
    (hp : ∀ s u, I s → step image o s = .running u → I u) : I v := by
  induction h with
  | refl _ => exact hs
  | next h _ ih => exact ih (hp _ _ hs h)

theorem Runs.runFrom {image : Image} {o : Options} {n : Nat} {s v : RunState}
    (h : Runs image o s n v) (rounds : Nat) :
    runFrom image o (n + rounds) s = runFrom image o rounds v := by
  induction h with
  | refl _ => rw [Nat.zero_add]
  | next hs _ ih =>
    rw [Nat.add_right_comm, runFrom_running hs]
    exact ih

theorem Runs.rest {image : Image} {o : Options} {n rounds : Nat} {s v : RunState}
    {x : Workspace × Outcome} (h : Runs image o s n v)
    (hx : NumberedBasic.runFrom image o rounds s = some x) :
    ∃ m, rounds = n + m ∧ NumberedBasic.runFrom image o m v = some x := by
  induction h generalizing rounds with
  | refl _ => exact ⟨rounds, (Nat.zero_add rounds).symm, hx⟩
  | next hs _ ih =>
    cases rounds with
    | zero => cases hx
    | succ rounds =>
      rw [runFrom_running hs] at hx
      obtain ⟨m, hm, hrest⟩ := ih hx
      exact ⟨m, by omega, hrest⟩

/-- More rounds than a run needs change nothing. -/
theorem runFrom_unique {image : Image} {o : Options} {m n : Nat} {s : RunState}
    {x y : Workspace × Outcome} (hx : runFrom image o m s = some x)
    (hy : runFrom image o n s = some y) : x = y := by
  induction m generalizing n s with
  | zero => cases hx
  | succ m ih =>
    cases n with
    | zero => cases hy
    | succ n =>
      rw [runFrom] at hx hy
      cases hs : step image o s with
      | running u =>
        rw [hs] at hx hy
        exact ih hx hy
      | ended c outcome =>
        rw [hs] at hx hy
        exact Option.some.inj (hx.symm.trans hy)

theorem ended_of_runFrom {image : Image} {o : Options} {rounds : Nat} {s : RunState}
    {c : Workspace} {outcome : Outcome} (h : runFrom image o rounds s = some (c, outcome)) :
    ∃ (n : Nat) (u : RunState), Runs image o s n u ∧ step image o u = .ended c outcome := by
  induction rounds generalizing s with
  | zero => cases h
  | succ rounds ih =>
    rw [runFrom] at h
    cases hs : step image o s with
    | running v =>
      rw [hs] at h
      obtain ⟨n, u, hruns, hend⟩ := ih h
      exact ⟨n + 1, u, .next hs hruns, hend⟩
    | ended d other =>
      rw [hs] at h
      cases h
      exact ⟨0, s, .refl s, hs⟩

def Reachable (p : Program) (o : Options) (replies : List (Option String)) (s : RunState) : Prop :=
  ∃ n, Runs (.ofProgram p) o (startState (.ofProgram p) o replies) n s

theorem Reachable.step {p : Program} {o : Options} {replies : List (Option String)} {s u : RunState}
    (h : Reachable p o replies s) (hs : step (.ofProgram p) o s = .running u) :
    Reachable p o replies u := by
  obtain ⟨n, h⟩ := h
  exact ⟨n + 1, h.trans (.single hs)⟩

theorem Reachable.invariant {p : Program} {o : Options} {replies : List (Option String)}
    {s : RunState} (I : RunState → Prop) (h : Reachable p o replies s)
    (hs : I (startState (.ofProgram p) o replies))
    (hp : ∀ s u, Reachable p o replies s → I s → NumberedBasic.step (.ofProgram p) o s = .running u →
      I u) : I s := by
  obtain ⟨n, h⟩ := h
  have hboth := h.invariant (fun s => Reachable p o replies s ∧ I s) ⟨⟨0, .refl _⟩, hs⟩
    fun s u hs hu => ⟨hs.1.step hu, hp s u hs.1 hs.2 hu⟩
  exact hboth.2

namespace Abort

/-- How a run ends that is stopped: the line is part of the status. -/
def outcome (abort : Abort) : Outcome :=
  if Text.isLong abort.line then .escaped .longNumber else .aborted abort

def noted (abort : Abort) (o : Options) (c : Workspace) : Workspace :=
  if Text.isLong abort.line then c else c.record o.level (.aborted abort)

theorem of_outcome_aborted {abort other : Abort} (h : abort.outcome = .aborted other) :
    Text.isLong other.line = false ∧ other = abort := by
  unfold outcome at h
  split at h
  · cases h
  · rename_i hshort
    cases h
    exact ⟨by simpa using hshort, rfl⟩

theorem outcome_ne_completed (abort : Abort) : abort.outcome ≠ .completed := by
  unfold outcome
  split <;> exact nofun

end Abort

theorem report_eq (o : Options) (abort : Abort) (c : Workspace) :
    report o abort c = .ended (abort.noted o c) abort.outcome := by
  unfold report Workspace.note Abort.noted Abort.outcome
  rw [Event.untold_aborted]
  by_cases h : Text.isLong abort.line = true
  · simp only [h, if_true]
  · simp only [h, Bool.false_eq_true, if_false]

namespace Fault

def outcome (fault : Fault) (line : Int) : Outcome :=
  match fault.kind? with
  | some kind => (Abort.ofFault kind fault line).outcome
  | none => .escaped fault

theorem of_outcome_aborted {fault : Fault} {line : Int} {abort : Abort}
    (h : fault.outcome line = .aborted abort) : Text.isLong line = false ∧
      ∃ kind, fault.kind? = some kind ∧ abort = .ofFault kind fault line := by
  unfold outcome at h
  split at h
  · rename_i kind hkind
    obtain ⟨hshort, rfl⟩ := Abort.of_outcome_aborted h
    exact ⟨hshort, kind, hkind, rfl⟩
  · cases h

theorem kind?_of_outcome {fault : Fault} {line : Int} {abort : Abort} {kind : Fault.Kind}
    (h : fault.outcome line = .aborted abort) (hk : abort.kind? = some kind) :
    fault.kind? = some kind := by
  obtain ⟨-, other, hkind, rfl⟩ := of_outcome_aborted h
  exact hkind.trans hk

theorem outcome_of_kind {fault : Fault} {line : Int} {kind : Fault.Kind}
    (hk : fault.kind? = some kind) (h : Text.isLong line = false) :
    fault.outcome line = .aborted (.ofFault kind fault line) := by
  simp [outcome, hk, Abort.outcome, Abort.ofFault, h]

theorem outcome_of_none {fault : Fault} {line : Int} (hk : fault.kind? = none) :
    fault.outcome line = .escaped fault := by
  simp [outcome, hk]

theorem of_outcome_escaped {fault other : Fault} {line : Int}
    (h : fault.outcome line = .escaped other) : fault = other ∧ fault.kind? = none ∨
      other = .longNumber ∧ Text.isLong line = true ∧ fault.kind? ≠ none := by
  unfold outcome Abort.outcome at h
  split at h
  · rename_i kind hkind
    split at h
    · rename_i hlong
      cases h
      exact .inr ⟨rfl, hlong, by simp [hkind]⟩
    · cases h
  · rename_i hkind
    cases h
    exact .inl ⟨rfl, hkind⟩

theorem outcome_ne_completed (fault : Fault) (line : Int) : fault.outcome line ≠ .completed := by
  unfold outcome
  split
  · exact Abort.outcome_ne_completed _
  · exact nofun

def noted (fault : Fault) (o : Options) (line : Int) (c : Workspace) : Workspace :=
  match fault.kind? with
  | some kind => (Abort.ofFault kind fault line).noted o c
  | none => c

theorem noted_of_long (fault : Fault) (o : Options) {line : Int} (h : Text.isLong line = true)
    (c : Workspace) : fault.noted o line c = c := by
  unfold noted Abort.noted
  split
  · exact if_pos h
  · rfl

theorem raised_stepLimit (limit : Int) (h : (stepLimit limit).raised.kind? = none) :
    (stepLimit limit).raised = .longNumber := by
  rcases raised_cases (.stepLimit limit) with hr | hr
  · rw [hr] at h
    cases h
  · exact hr

theorem outcome_of_long {fault : Fault} {line : Int} (h : Text.isLong line = true)
    (hfault : fault.kind? = none → fault = .longNumber) :
    fault.outcome line = .escaped .longNumber := by
  unfold outcome Abort.outcome
  split
  · exact if_pos h
  · rename_i hkind
    rw [hfault hkind]

end Fault

theorem failure_eq (o : Options) (line : Int) (fault : Fault) (c : Workspace) :
    failure o line fault c = .ended (fault.noted o line c) (fault.outcome line) := by
  unfold failure Fault.noted Fault.outcome
  cases fault.kind? with
  | none => rfl
  | some kind => exact report_eq o _ c

theorem step_running {image : Image} {o : Options} {s u : RunState}
    (h : step image o s = .running u) : ∃ (line : Int) (move : Move), s.cursor = some line ∧
      image.performLine o.level line s.workspace = (u.workspace, .ok move) ∧
      u.cursor = image.next? line move ∧ u.steps = s.steps + 1 ∧
      o.cancel s.steps = false ∧ o.overrun? s.steps = none := by
  unfold step at h
  split at h
  · cases h
  rename_i line hline
  split at h
  · rw [report_eq] at h
    cases h
  rename_i hcancel
  split at h
  · rw [failure_eq] at h
    cases h
  rename_i hlimit
  split at h
  · rename_i c move hp
    cases h
    exact ⟨line, move, hline, hp, rfl, rfl, Bool.not_eq_true _ ▸ hcancel, hlimit⟩
  · rw [failure_eq] at h
    cases h

/-- How a round ends a run: no line is left, it is cancelled, too many lines, or a line fails. -/
inductive Stopped (image : Image) (o : Options) (s : RunState) : Workspace → Outcome → Prop where
  | done (hc : s.cursor = none) :
      Stopped image o s (s.workspace.record o.level .completed) .completed
  | cancelled {line : Int} (hc : s.cursor = some line) (h : o.cancel s.steps = true) :
      Stopped image o s ((Abort.cancelled line).noted o s.workspace) (Abort.cancelled line).outcome
  | overrun {line limit : Int} (hc : s.cursor = some line) (hcancel : o.cancel s.steps = false)
      (h : o.overrun? s.steps = some limit) :
      Stopped image o s ((Fault.stepLimit limit).raised.noted o line s.workspace)
        ((Fault.stepLimit limit).raised.outcome line)
  | failed {line : Int} {c : Workspace} {fault : Fault} (hc : s.cursor = some line)
      (hcancel : o.cancel s.steps = false) (hlimit : o.overrun? s.steps = none)
      (h : image.performLine o.level line s.workspace = (c, .error fault)) :
      Stopped image o s (fault.noted o line c) (fault.outcome line)

theorem step_stopped {image : Image} {o : Options} {s : RunState} {c : Workspace} {outcome : Outcome}
    (h : step image o s = .ended c outcome) : Stopped image o s c outcome := by
  unfold step at h
  split at h
  · rename_i hc
    cases h
    exact .done hc
  rename_i line hc
  split at h
  · rename_i hcancel
    rw [report_eq] at h
    cases h
    exact .cancelled hc hcancel
  rename_i hcancel
  split at h
  · rename_i limit hlimit
    rw [failure_eq] at h
    cases h
    exact .overrun hc (Bool.not_eq_true _ ▸ hcancel) hlimit
  rename_i hlimit
  split at h
  · cases h
  · rename_i d fault hp
    rw [failure_eq] at h
    cases h
    exact .failed hc (Bool.not_eq_true _ ▸ hcancel) hlimit hp

theorem Stopped.step_eq {image : Image} {o : Options} {s : RunState} {c : Workspace}
    {outcome : Outcome} (h : Stopped image o s c outcome) : step image o s = .ended c outcome := by
  cases h with
  | done hc => simp [step, hc]
  | cancelled hc h => simp [step, hc, h, report_eq]
  | overrun hc hcancel h => simp [step, hc, hcancel, h, failure_eq]
  | failed hc hcancel hlimit h => simp [step, hc, hcancel, hlimit, h, failure_eq]

theorem Stopped.abort_line {image : Image} {o : Options} {s : RunState} {c : Workspace}
    {abort : Abort} (h : Stopped image o s c (.aborted abort)) :
    s.cursor = some abort.line ∧ Text.isLong abort.line = false := by
  generalize hout : Outcome.aborted abort = outcome at h
  cases h with
  | done _ => cases hout
  | cancelled hcursor _ =>
    obtain ⟨hshort, rfl⟩ := Abort.of_outcome_aborted hout.symm
    exact ⟨hcursor, hshort⟩
  | overrun hcursor _ _ | failed hcursor _ _ _ =>
    obtain ⟨hshort, kind, -, rfl⟩ := Fault.of_outcome_aborted hout.symm
    exact ⟨hcursor, hshort⟩

namespace Image

def statementAt (image : Image) (line : Int) : Except Fault (Statement Int) :=
  match image.program.text? line with
  | none => .error (.missingLine line)
  | some text => Statement.ofLine text

def readAt (image : Image) (line : Int) : Except Fault (Statement Int) :=
  match image.program.text? line with
  | none => .error (.missingLine line)
  | some text => if Text.isLong line then .error .longNumber else Statement.ofLine text

theorem readAt_eq_ok_iff {image : Image} {line : Int} {statement : Statement Int} :
    image.readAt line = .ok statement ↔
      image.statementAt line = .ok statement ∧ Text.isLong line = false := by
  cases ht : image.program.text? line with
  | none => simp [readAt, statementAt, ht]
  | some text => by_cases hl : Text.isLong line = true <;> simp [readAt, statementAt, ht, hl]

theorem readAt_of_short (image : Image) {line : Int} (h : Text.isLong line = false) :
    image.readAt line = image.statementAt line := by
  cases ht : image.program.text? line <;> simp [readAt, statementAt, ht, h]

theorem readAt_of_long {image : Image} {line : Int} (h : Text.isLong line = true)
    (ht : (image.program.text? line).isSome) : image.readAt line = .error .longNumber := by
  obtain ⟨text, ht⟩ := Option.isSome_iff_exists.1 ht
  simp [readAt, ht, h]

def execute (image : Image) (level : Nat) (line : Int) (c : Workspace) :
    Workspace × Except Fault Move :=
  match image.readAt line with
  | .error fault => (c, .error fault)
  | .ok statement =>
    ((image.perform line statement c).1, toldMove level (image.perform line statement c).2)

end Image

def Cached (image : Image) (c : Workspace) : Prop :=
  ∀ (line : Int) (statement : Statement Int), c.statements.lookup line = some statement →
    image.statementAt line = .ok statement

namespace Workspace

def bare (c : Workspace) : Workspace := { c with statements := [], trace := #[] }

@[simp] theorem bare_store (c : Workspace) : c.bare.store = c.store := rfl

@[simp] theorem bare_loops (c : Workspace) : c.bare.loops = c.loops := rfl

theorem frame_bare : Frame bare :=
  ⟨fun _ => rfl, fun _ => rfl, fun _ _ _ => rfl, fun _ _ => rfl, fun _ => rfl, fun _ _ => rfl⟩

@[simp] theorem bare_record (c : Workspace) (level : Nat) (e : Event) :
    (c.record level e).bare = c.bare := by
  unfold record
  split <;> rfl

@[simp] theorem loops_record (c : Workspace) (level : Nat) (e : Event) :
    (c.record level e).loops = c.loops := by
  unfold record
  split <;> rfl

end Workspace

section Noting

variable {o o' : Options} {f : Workspace → Workspace}

theorem Abort.noted_comm (hf : ∀ c e, f (c.record o.level e) = (f c).record o'.level e)
    (abort : Abort) (c : Workspace) : f (abort.noted o c) = abort.noted o' (f c) := by
  unfold Abort.noted
  split
  · rfl
  · exact hf _ _

theorem Fault.noted_comm (hf : ∀ c e, f (c.record o.level e) = (f c).record o'.level e)
    (fault : Fault) (line : Int) (c : Workspace) :
    f (fault.noted o line c) = fault.noted o' line (f c) := by
  unfold Fault.noted
  split
  · exact Abort.noted_comm hf _ _
  · rfl

end Noting

theorem Abort.bare_noted (abort : Abort) (o : Options) (c : Workspace) :
    (abort.noted o c).bare = c.bare := by
  unfold Abort.noted
  split
  · rfl
  · exact Workspace.bare_record _ _ _

theorem Fault.bare_noted (fault : Fault) (o : Options) (line : Int) (c : Workspace) :
    (fault.noted o line c).bare = c.bare := by
  unfold Fault.noted
  split
  · exact Abort.bare_noted _ _ _
  · rfl

namespace Image

theorem perform_bare (image : Image) (line : Int) (statement : Statement Int) (c : Workspace) :
    image.perform line statement c.bare =
      ((image.perform line statement c).1.bare, (image.perform line statement c).2) :=
  perform_frame Workspace.frame_bare fun _ => rfl

theorem told_eq (level : Nat) (c : Workspace) (r : Except Fault (Move × Option Event)) :
    told level (c, r) = (c, toldMove level r) ∨
      ∃ e, told level (c, r) = (c.record level e, toldMove level r) := by
  obtain fault | ⟨move, _ | event⟩ := r
  · exact .inl rfl
  · exact .inl rfl
  · by_cases h : event.untold level = true
    · exact .inl (by simp [told, toldMove, Workspace.note, h])
    · exact .inr ⟨event, by simp [told, toldMove, Workspace.note, h]⟩

theorem told_bare (level : Nat) (x : Workspace × Except Fault (Move × Option Event)) :
    ((told level x).1.bare, (told level x).2) = (x.1.bare, toldMove level x.2) := by
  rcases told_eq level x.1 x.2 with h | ⟨e, h⟩
  · rw [h]
  · rw [h, Workspace.bare_record]

theorem told_statements (level : Nat) (x : Workspace × Except Fault (Move × Option Event)) :
    (told level x).1.statements = x.1.statements := by
  rcases told_eq level x.1 x.2 with h | ⟨e, h⟩
  · rw [h]
  · rw [h, Workspace.statements_record]

theorem Fetches.bare {image : Image} {level : Nat} {line : Int} {c d : Workspace}
    {r : Except Fault (Statement Int)} (h : image.Fetches level line c d r) : d.bare = c.bare := by
  have hmemory (d : Workspace) (memory : List (Int × Statement Int)) :
      { d with statements := memory }.bare = d.bare := rfl
  cases h with
  | missing _ | long _ _ => rfl
  | remembered _ _ _ | lexFails _ _ _ _ => exact Workspace.bare_record _ _ _
  | parseFails _ _ _ _ _ => rw [Workspace.bare_record, Workspace.bare_record]
  | parsed _ _ _ _ _ => rw [hmemory, Workspace.bare_record, Workspace.bare_record]

theorem Fetches.readAt_eq {image : Image} {level : Nat} {line : Int} {c d : Workspace}
    {r : Except Fault (Statement Int)} (hc : Cached image c) (h : image.Fetches level line c d r) :
    image.readAt line = r := by
  cases h with
  | missing ht => simp [readAt, ht]
  | long ht hlong => simp [readAt, ht, hlong]
  | remembered _ hshort hl => exact readAt_eq_ok_iff.2 ⟨hc line _ hl, hshort⟩
  | lexFails ht hshort _ hts => simp [readAt, ht, hshort, Statement.ofLine, hts]
  | parseFails ht hshort _ hts hs | parsed ht hshort _ hts hs =>
    simp [readAt, ht, hshort, Statement.ofLine, hts, hs]

theorem performLine_bare {image : Image} {c : Workspace} (hc : Cached image c) (level : Nat)
    (line : Int) :
    ((image.performLine level line c).1.bare, (image.performLine level line c).2) =
      image.execute level line c.bare := by
  have hfetch := image.fetch_fetches level line c
  rcases hf : image.fetch level line c with ⟨d, fault | statement⟩
  · rw [hf] at hfetch
    simp only [performLine, execute, hf, hfetch.readAt_eq hc, hfetch.bare]
  · rw [hf] at hfetch
    simp only [performLine, execute, hf, hfetch.readAt_eq hc, ← hfetch.bare, told_bare, perform_bare]

theorem Fetches.statements {image : Image} {level : Nat} {line : Int} {c d : Workspace}
    {r : Except Fault (Statement Int)} (h : image.Fetches level line c d r) :
    d.statements = c.statements ∨
      ∃ statement, c.statements.lookup line = none ∧ image.statementAt line = .ok statement ∧
        d.statements = (line, statement) :: c.statements := by
  cases h with
  | missing _ | long _ _ => exact .inl rfl
  | remembered _ _ _ | lexFails _ _ _ _ | parseFails _ _ _ _ _ => exact .inl (by simp)
  | @parsed text ts statement ht _ hl hts hs =>
    have hat : image.statementAt line = .ok statement := by
      simp [statementAt, Statement.ofLine, ht, hts, hs]
    exact .inr ⟨statement, hl, hat, rfl⟩

theorem performLine_statements (image : Image) (level : Nat) (line : Int) (c : Workspace) :
    (image.performLine level line c).1.statements = c.statements ∨
      ∃ statement, c.statements.lookup line = none ∧ image.statementAt line = .ok statement ∧
        (image.performLine level line c).1.statements = (line, statement) :: c.statements := by
  have hsame : (image.performLine level line c).1.statements =
      (image.fetch level line c).1.statements := by
    rcases hf : image.fetch level line c with ⟨d, fault | statement⟩
    · simp only [performLine, hf]
    · simp only [performLine, hf, told_statements, (image.perform_performs line statement d).statements]
  rw [hsame]
  exact (image.fetch_fetches level line c).statements

theorem performLine_cached {image : Image} {c : Workspace} (hc : Cached image c) (level : Nat)
    (line : Int) : Cached image (image.performLine level line c).1 := by
  intro k other hk
  rcases image.performLine_statements level line c with hsame | ⟨statement, -, hat, hgain⟩
  · exact hc k other (hsame ▸ hk)
  · rw [hgain, List.lookup_cons] at hk
    split at hk
    · rename_i heq
      cases hk
      rw [beq_iff_eq.1 heq]
      exact hat
    · exact hc k other hk

theorem performLine_of_long {image : Image} {line : Int} (h : Text.isLong line = true)
    (ht : (image.program.text? line).isSome) (level : Nat) (c : Workspace) :
    image.performLine level line c = (c, .error .longNumber) := by
  obtain ⟨text, ht⟩ := Option.isSome_iff_exists.1 ht
  rw [performLine, (Fetches.long ht h).fetch_eq]

end Image

/-- At a line whose number has too many digits a run ends, whatever the round was about to do. -/
theorem step_long {image : Image} {o : Options} {s : RunState} {line : Int}
    (hcursor : s.cursor = some line) (h : Text.isLong line = true)
    (ht : (image.program.text? line).isSome) :
    step image o s = .ended s.workspace (.escaped .longNumber) := by
  cases hcancel : o.cancel s.steps with
  | true => simp [step, hcursor, hcancel, report_eq, Abort.noted, Abort.outcome, Abort.cancelled, h]
  | false =>
    cases hlimit : o.overrun? s.steps with
    | some limit =>
      simp only [step, hcursor, hcancel, hlimit, Bool.false_eq_true, if_false]
      rw [failure_eq, Fault.noted_of_long _ o h, Fault.outcome_of_long h (Fault.raised_stepLimit limit)]
    | none => simp [step, hcursor, hcancel, hlimit, Image.performLine_of_long h ht, failure, Fault.kind?]

theorem step_cached {image : Image} {o : Options} {s u : RunState}
    (hc : Cached image s.workspace) (h : step image o s = .running u) : Cached image u.workspace := by
  obtain ⟨line, move, -, hp, -, -⟩ := step_running h
  have hcached := image.performLine_cached hc o.level line
  rw [hp] at hcached
  exact hcached

theorem start_cached (image : Image) (o : Options) (replies : List (Option String)) :
    Cached image (startState image o replies).workspace := by
  intro line statement h
  simp [startState] at h

theorem Runs.cached {image : Image} {o : Options} {n : Nat} {s u : RunState}
    (h : Runs image o s n u) (hc : Cached image s.workspace) : Cached image u.workspace :=
  h.invariant (fun s => Cached image s.workspace) hc fun _ _ => step_cached

theorem Reachable.cached {p : Program} {o : Options} {replies : List (Option String)} {s : RunState}
    (h : Reachable p o replies s) : Cached (.ofProgram p) s.workspace := by
  obtain ⟨n, hruns⟩ := h
  exact hruns.cached (start_cached _ o replies)

section Unlimited

variable {image : Image} (level : Nat) {s : RunState} {n : Int} {c : Workspace}

theorem step_of_execute_ok {move : Move} (hc : Cached image s.workspace)
    (hcursor : s.cursor = some n) (hx : image.execute level n s.workspace.bare = (c, .ok move)) :
    ∃ u, step image { level } s = .running u ∧ u.cursor = image.next? n move ∧
      u.workspace.bare = c ∧ Cached image u.workspace := by
  have hb := Image.performLine_bare hc level n
  have hcached := Image.performLine_cached hc level n
  rw [hx] at hb
  obtain ⟨hbare, hmove⟩ := Prod.mk.inj hb
  rcases hp : image.performLine level n s.workspace with ⟨c', r⟩
  rw [hp] at hbare hmove hcached
  cases hmove
  exact ⟨⟨image.next? n move, s.steps + 1, c'⟩, by simp [step, hcursor, Options.overrun?, hp], rfl,
    hbare, hcached⟩

theorem step_of_execute_error {fault : Fault} (hc : Cached image s.workspace)
    (hcursor : s.cursor = some n) (hx : image.execute level n s.workspace.bare = (c, .error fault)) :
    ∃ c', step image { level } s = .ended c' (fault.outcome n) ∧ c'.bare = c := by
  have hb := Image.performLine_bare hc level n
  rw [hx] at hb
  obtain ⟨hbare, hmove⟩ := Prod.mk.inj hb
  rcases hp : image.performLine level n s.workspace with ⟨c', r⟩
  rw [hp] at hbare hmove
  cases hmove
  have hstep : step image { level } s = failure { level } n fault c' := by
    simp [step, hcursor, Options.overrun?, hp]
  rw [hstep, failure_eq]
  exact ⟨_, rfl, (Fault.bare_noted _ _ _ _).trans hbare⟩

end Unlimited

def stateAfter (image : Image) (o : Options) : Nat → RunState → Option RunState
  | 0, s => some s
  | n + 1, s =>
    match step image o s with
    | .running u => stateAfter image o n u
    | .ended _ _ => none

theorem runs_of_stateAfter {image : Image} {o : Options} {n : Nat} {s u : RunState}
    (h : stateAfter image o n s = some u) : Runs image o s n u := by
  induction n generalizing s with
  | zero =>
    cases h
    exact .refl _
  | succ n ih =>
    simp only [stateAfter] at h
    split at h
    · rename_i v hv
      exact .next hv (ih h)
    · cases h

end NumberedBasic
