import NumberedBasic.Proofs.Runs

set_option autoImplicit false

/-!
# Runs without memory

A run remembers the statements of the lines it has been at. `runAfresh` is the driver without this
memory: it cuts and parses the text of a line each time the line is reached. Both drivers go through
the same rounds. Their workspaces differ in the memory, and in the trace, because a line that is cut
again is traced again.
-/
namespace NumberedBasic

/-- Announces a line and gives its statement. The text is parsed each time, and the statement is
forgotten. -/
def Image.fetchAfresh (image : Image) (level : Nat) (line : Int) (c : Workspace) :
    Workspace × Except Fault (Statement Int) :=
  match image.program.text? line with
  | none => (c, .error (.missingLine line))
  | some text =>
    match c.note level (.executing line text) with
    | .error fault => (c, .error fault)
    | .ok c =>
      match Token.scan text with
      | .error e => (c, .error (.lex e))
      | .ok ts =>
        let c := c.record level (.tokens ts)
        match Statement.ofTokens ts with
        | .error e => (c, .error (.parse e))
        | .ok statement => (c, .ok statement)

def Image.performLineAfresh (image : Image) (level : Nat) (line : Int) (c : Workspace) :
    Workspace × Except Fault Move :=
  match image.fetchAfresh level line c with
  | (c, .error fault) => (c, .error fault)
  | (c, .ok statement) => told level (image.perform line statement c)

/-- One round of a driver that executes lines by `perform`. -/
def stepWith (perform : Int → Workspace → Workspace × Except Fault Move) (image : Image)
    (o : Options) (s : RunState) : Progress :=
  match s.cursor with
  | none => .ended (s.workspace.record o.level .completed) .completed
  | some line =>
    if o.cancel s.steps then report o (.cancelled line) s.workspace
    else
      match o.overrun? s.steps with
      | some limit => failure o line (Fault.stepLimit limit).raised s.workspace
      | none =>
        match perform line s.workspace with
        | (c, .ok move) => .running ⟨image.next? line move, s.steps + 1, c⟩
        | (c, .error fault) => failure o line fault c

def runFromWith (perform : Int → Workspace → Workspace × Except Fault Move) (image : Image)
    (o : Options) : Nat → RunState → Option (Workspace × Outcome)
  | 0, _ => none
  | rounds + 1, s =>
    match stepWith perform image o s with
    | .running s => runFromWith perform image o rounds s
    | .ended c outcome => some (c, outcome)

def runAfresh (rounds : Nat) (p : Program) (o : Options) (replies : List (Option String)) :
    Option (Workspace × Outcome) :=
  let image := Image.ofProgram p
  runFromWith (image.performLineAfresh o.level) image o rounds (startState image o replies)

theorem stepWith_performLine (image : Image) (o : Options) (s : RunState) :
    stepWith (image.performLine o.level) image o s = step image o s := rfl

theorem Image.fetchAfresh_bare (image : Image) (level : Nat) (line : Int) (c : Workspace) :
    ((image.fetchAfresh level line c).1.bare, (image.fetchAfresh level line c).2) =
      (c.bare, image.readAt line) := by
  cases ht : image.program.text? line with
  | none => simp [fetchAfresh, readAt, ht]
  | some text =>
    by_cases hlong : Text.isLong line = true
    · simp [fetchAfresh, readAt, ht, Workspace.note, hlong]
    cases hts : Token.scan text with
    | error e => simp [fetchAfresh, readAt, ht, Workspace.note, hlong, hts, Statement.ofLine]
    | ok ts =>
      cases hs : Statement.ofTokens ts with
      | error e | ok statement =>
        simp [fetchAfresh, readAt, ht, Workspace.note, hlong, hts, hs, Statement.ofLine]

theorem Image.performLineAfresh_bare (image : Image) (level : Nat) (line : Int) (c : Workspace) :
    ((image.performLineAfresh level line c).1.bare, (image.performLineAfresh level line c).2) =
      image.execute level line c.bare := by
  have hfetch := image.fetchAfresh_bare level line c
  rcases hf : image.fetchAfresh level line c with ⟨d, fault | statement⟩
  · rw [hf] at hfetch
    obtain ⟨hd, hread⟩ := Prod.mk.inj hfetch
    simp only [performLineAfresh, execute, hf, ← hread, hd]
  · rw [hf] at hfetch
    obtain ⟨hd, hread⟩ := Prod.mk.inj hfetch
    simp only [performLineAfresh, execute, hf, ← hread, ← hd, told_bare, perform_bare]

structure RunState.Alike (s u : RunState) : Prop where
  cursor : s.cursor = u.cursor
  steps : s.steps = u.steps
  workspace : s.workspace.bare = u.workspace.bare

inductive Progress.Alike : Progress → Progress → Prop where
  | running {s u : RunState} (h : s.Alike u) : Alike (.running s) (.running u)
  | ended {c d : Workspace} (outcome : Outcome) (h : c.bare = d.bare) :
      Alike (.ended c outcome) (.ended d outcome)

section Rounds

variable {image : Image} {o : Options} {s u : RunState}
  {perform other : Int → Workspace → Workspace × Except Fault Move}

theorem failure_alike {c d : Workspace} (h : c.bare = d.bare) (line : Int) (fault : Fault) :
    (failure o line fault c).Alike (failure o line fault d) := by
  rw [failure_eq, failure_eq]
  exact .ended _ (by rw [Fault.bare_noted, Fault.bare_noted, h])

theorem stepWith_alike (hs : s.Alike u)
    (h : ∀ line, ((perform line s.workspace).1.bare, (perform line s.workspace).2) =
      ((other line u.workspace).1.bare, (other line u.workspace).2)) :
    (stepWith perform image o s).Alike (stepWith other image o u) := by
  unfold stepWith
  rw [hs.cursor, hs.steps]
  cases u.cursor with
  | none => exact .ended _ (by rw [Workspace.bare_record, Workspace.bare_record, hs.workspace])
  | some line =>
    dsimp only
    split
    · rw [report_eq, report_eq]
      exact .ended _ (by rw [Abort.bare_noted, Abort.bare_noted, hs.workspace])
    split
    · exact failure_alike hs.workspace _ _
    obtain ⟨hbare, hresult⟩ := Prod.mk.inj (h line)
    generalize perform line s.workspace = x at hbare hresult ⊢
    generalize other line u.workspace = y at hbare hresult ⊢
    obtain ⟨c, r⟩ := x
    obtain ⟨d, r'⟩ := y
    cases hresult
    cases r with
    | ok move => exact .running ⟨rfl, rfl, hbare⟩
    | error fault => exact failure_alike hbare _ _

theorem step_alike_afresh (hc : Cached image s.workspace) (hs : s.Alike u) :
    (step image o s).Alike (stepWith (image.performLineAfresh o.level) image o u) := by
  rw [← stepWith_performLine]
  apply stepWith_alike hs
  intro line
  rw [Image.performLine_bare hc, Image.performLineAfresh_bare, hs.workspace]

theorem runFrom_afresh (hc : Cached image s.workspace) (hs : s.Alike u) (rounds : Nat) :
    (runFrom image o rounds s).map (fun x => (x.1.bare, x.2)) =
      (runFromWith (image.performLineAfresh o.level) image o rounds u).map
        fun x => (x.1.bare, x.2) := by
  induction rounds generalizing s u with
  | zero => rfl
  | succ rounds ih =>
    have hround := step_alike_afresh (o := o) hc hs
    rw [runFrom, runFromWith]
    cases hstep : step image o s with
    | running v =>
      rw [hstep] at hround
      generalize stepWith _ _ _ _ = afresh at hround ⊢
      cases hround with
      | running hv => exact ih (step_cached hc hstep) hv
    | ended c outcome =>
      rw [hstep] at hround
      generalize stepWith _ _ _ _ = afresh at hround ⊢
      cases hround with
      | ended _ hbare => simp [hbare]

end Rounds

/-- A run ends as the run without memory does, and what it remembers is what parsing gives. -/
theorem memory_is_invisible (p : Program) (o : Options) (replies : List (Option String)) :
    (∀ rounds, (run rounds p o replies).map
        (fun x => (x.1.output, x.2, x.1.store, x.1.reads)) =
      (runAfresh rounds p o replies).map fun x => (x.1.output, x.2, x.1.store, x.1.reads)) ∧
    ∀ s line statement, Reachable p o replies s →
      s.workspace.statements.lookup line = some statement →
      ∃ text, p.text? line = some text ∧ Statement.ofLine text = .ok statement := by
  refine ⟨?_, ?_⟩
  · intro rounds
    let start := startState (.ofProgram p) o replies
    have hstart : start.Alike start := ⟨rfl, rfl, rfl⟩
    have hbare := runFrom_afresh (o := o) (start_cached _ o replies) hstart rounds
    have hview := congrArg (Option.map fun (x : Workspace × Outcome) =>
      (x.1.output, x.2, x.1.store, x.1.reads)) hbare
    rw [Option.map_map, Option.map_map] at hview
    exact hview
  · intro s line statement hs hline
    have hat := hs.cached line statement hline
    unfold Image.statementAt at hat
    split at hat
    · cases hat
    · rename_i text ht
      exact ⟨text, ht, hat⟩

def repeating : Program := .ofLines
  [(10, "A = 0"), (20, "A = A + 1"), (30, "IF A < 3 THEN 20"), (40, "PRINT A")]

theorem repeating_remembers : (∃ s statement, Reachable repeating {} [] s ∧ s.cursor = some 20 ∧
      s.workspace.statements.lookup 20 = some statement ∧
      Statement.ofLine "A = A + 1" = .ok statement) ∧
    (runAfresh 9 repeating {} []).map (fun x => (x.1.output, x.2)) = some (#["3"], .completed) := by
  have hrun : (run 9 repeating {} []).map (fun x => (x.1.output, x.2)) =
      some (#["3"], .completed) := by decide +kernel
  have hstate : ((stateAfter (.ofProgram repeating) {} 3
      (startState (.ofProgram repeating) {} [])).map fun s =>
        (s.cursor, (s.workspace.statements.lookup 20).isSome)) = some (some 20, true) := by
    decide +kernel
  obtain ⟨s, hs, hpair⟩ := Option.map_eq_some_iff.1 hstate
  obtain ⟨hcursor, hsome⟩ := Prod.mk.inj hpair
  obtain ⟨statement, hlookup⟩ := Option.isSome_iff_exists.1 hsome
  have hreach : Reachable repeating {} [] s := ⟨3, runs_of_stateAfter hs⟩
  obtain ⟨hsame, hmemory⟩ := memory_is_invisible repeating {} []
  obtain ⟨text, htext, hline⟩ := hmemory s 20 statement hreach hlookup
  have hcut : repeating.text? 20 = some "A = A + 1" := by decide +kernel
  cases hcut.symm.trans htext
  refine ⟨⟨s, statement, hreach, hcursor, hlookup, hline⟩, ?_⟩
  have hafresh := congrArg (Option.map fun x => (x.1, x.2.1)) (hsame 9)
  rw [Option.map_map, Option.map_map] at hafresh
  exact hafresh.symm.trans hrun

end NumberedBasic
