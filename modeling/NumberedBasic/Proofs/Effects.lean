import NumberedBasic.Proofs.Failures

set_option autoImplicit false

/-!
# What a line changes

`Statement.Changes` says what a line that succeeds makes of its workspace, and `Image.FailsTo` what a
line that fails leaves of it. A failed line keeps the variables and the output. It keeps the open
loops too, with one exception: a loop head looks for its end after it has left its loop.
-/
namespace NumberedBasic

structure SetsOnly (name : String) (x : Float) (c d : Workspace) : Prop where
  value : ∀ key, d.store.get? key = if key = name then some x else c.store.get? key
  rest : d.bare = { c.bare with store := c.store.set name x }

theorem SetsOnly.of_bare {name : String} {x : Float} {c d : Workspace}
    (h : d.bare = { c.bare with store := c.store.set name x }) : SetsOnly name x c d := by
  have hstore : d.store = c.store.set name x := congrArg Workspace.store h
  refine ⟨fun key => ?_, h⟩
  rw [hstore, Store.get?_set]

/-- What a loop head does to the open loops: its own line is put on top or taken from there. -/
inductive OwnEntry (line : Int) : Bool → List Int → List Int → Prop where
  | again (outer : List Int) : OwnEntry line true (line :: outer) (line :: outer)
  | enter {loops : List Int} (h : loops.head? ≠ some line) : OwnEntry line true loops (line :: loops)
  | leave (outer : List Int) : OwnEntry line false (line :: outer) outer
  | pass {loops : List Int} (h : loops.head? ≠ some line) : OwnEntry line false loops loops

theorem ownEntry_loopsAfter (line : Int) (truth : Bool) (loops : List Int) :
    OwnEntry line truth loops (Image.loopsAfter line truth loops) := by
  by_cases h : loops.head? = some line
  · obtain ⟨outer, rfl⟩ := List.head?_eq_some_iff.1 h
    cases truth with
    | true => simpa [Image.loopsAfter] using OwnEntry.again outer
    | false => simpa [Image.loopsAfter] using OwnEntry.leave outer
  · cases truth with
    | true => simpa [Image.loopsAfter, h] using OwnEntry.enter h
    | false => simpa [Image.loopsAfter, h] using OwnEntry.pass h

def Statement.Changes (line : Int) (c d : Workspace) : Statement Int → Prop
  | .assign name value _ => ∃ x, value.eval c.store = .ok x ∧ SetsOnly name x c d
  | .input name => ∃ x, Reply.value? c.reply = some x ∧ SetsOnly name x c.afterReply d
  | .print item => d.bare = c.bare.print (item.shown c.store)
  | .loop guard => ∃ truth, guard.eval c.store = .ok truth ∧ OwnEntry line truth c.loops d.loops ∧
      d.bare = { c.bare with loops := d.loops }
  | .branch _ _ _ | .goto _ | .endLoop | .stop | .remark _ => d.bare = c.bare

theorem Statement.Changes.of_bare {line : Int} {c d : Workspace} {statement : Statement Int}
    (h : statement.Changes line c.bare d.bare) : statement.Changes line c d := by
  cases statement with
  | assign name value explicit | input name =>
    obtain ⟨x, hx, hsets⟩ := h
    exact ⟨x, hx, .of_bare hsets.rest⟩
  | _ => exact h

theorem Statement.Changes.entries {line : Int} {c d : Workspace} {statement : Statement Int}
    (h : statement.Changes line c d) :
    (d.output = c.output ∨ ∃ text, d.output = c.output.push text) ∧
      (d.loops = c.loops ∨ ∃ truth, OwnEntry line truth c.loops d.loops) := by
  cases statement with
  | assign name value explicit | input name =>
    obtain ⟨x, -, hsets⟩ := h
    have houtput := congrArg Workspace.output hsets.rest
    have hloops := congrArg Workspace.loops hsets.rest
    exact ⟨.inl houtput, .inl hloops⟩
  | print item =>
    have houtput := congrArg Workspace.output h
    have hloops := congrArg Workspace.loops h
    exact ⟨.inr ⟨_, houtput⟩, .inl hloops⟩
  | loop guard =>
    obtain ⟨truth, -, hentry, hrest⟩ := h
    have houtput := congrArg Workspace.output hrest
    exact ⟨.inl houtput, .inr ⟨truth, hentry⟩⟩
  | branch _ _ _ | goto _ | endLoop | stop | remark _ =>
    have houtput := congrArg Workspace.output h
    have hloops := congrArg Workspace.loops h
    exact ⟨.inl houtput, .inl hloops⟩

theorem Statement.Changes.output_grows {line : Int} {c d : Workspace} {statement : Statement Int}
    (h : statement.Changes line c d) : c.output.toList <+: d.output.toList := by
  rcases h.entries.1 with hsame | ⟨text, hpush⟩
  · simp [hsame]
  · rw [hpush, Array.toList_push]
    exact List.prefix_append _ _

namespace Image

theorem Performs.changes {image : Image} {line : Int} {statement : Statement Int} {c d : Workspace}
    {move : Move} {event? : Option Event}
    (h : image.Performs line c statement d (.ok (move, event?))) : statement.Changes line c d := by
  cases h with
  | @assign _ _ _ x hx => exact ⟨x, hx, .of_bare rfl⟩
  | @input _ x hx => exact ⟨x, hx, .of_bare rfl⟩
  | enter htruth => exact ⟨true, htruth, ownEntry_loopsAfter line true c.loops, rfl⟩
  | leave htruth _ => exact ⟨false, htruth, ownEntry_loopsAfter line false c.loops, rfl⟩
  | print _ | branch _ | goto _ | back _ | stop | remark _ => rfl

/-- The trace shows the moves of loop heads, and cannot show where this one leads. -/
def Overshoots (image : Image) (level : Nat) (line : Int) : Prop :=
  1 < level ∧ ∃ behind, image.leaveLoop line = .ok (.goTo behind) ∧ Text.isLong behind = true

inductive FailsTo (image : Image) (level : Nat) (line : Int) (c : Workspace) : Workspace → Prop where
  | same (h : Text.isLong line = false → ∀ guard, image.statementAt line = .ok (.loop guard) →
      guard.eval c.store ≠ .ok false) : FailsTo image level line c c
  | reply {name : String} (hs : image.statementAt line = .ok (.input name)) :
      FailsTo image level line c c.afterReply
  | leave {guard : Condition} (hs : image.readAt line = .ok (.loop guard))
      (hguard : guard.eval c.store = .ok false)
      (h : (∃ fault, image.leaveLoop line = .error fault) ∨ image.Overshoots level line) :
      FailsTo image level line c { c with loops := loopsAfter line false c.loops }

theorem Performs.failsTo {image : Image} {level : Nat} {line : Int} {statement : Statement Int}
    {c d : Workspace} {result : Except Fault (Move × Option Event)} {fault : Fault}
    (h : image.Performs line c statement d result) (hr : toldMove level result = .error fault)
    (hs : image.readAt line = .ok statement) : image.FailsTo level line c d := by
  obtain ⟨hstatement, hshort⟩ := readAt_eq_ok_iff.1 hs
  rcases toldMove_eq_error_iff.1 hr with rfl | ⟨rfl, move, event, rfl, huntold⟩
  · cases h with
    | inputFails _ => exact .reply hstatement
    | leaveFails hguard hmove => exact .leave hs hguard (.inl ⟨fault, hmove⟩)
    | guardFails he => exact .same (by simp [hstatement, he])
    | assignFails _ | branchFails _ | gotoFails _ | backFails _ => exact .same (by simp [hstatement])
  · cases h with
    | goto _ => exact .same (by simp [hstatement])
    | leave hguard hmove =>
      cases move with
      | goTo behind =>
        obtain ⟨hlevel, hlong⟩ := Event.untold_iff.1 huntold
        simp only [Event.level, Event.isLong, Move.isLong, hshort, Bool.false_or] at hlevel hlong
        exact .leave hs hguard (.inr ⟨by omega, behind, hmove, hlong⟩)
      | next | halt => simp [Event.untold, Event.isLong, Move.isLong, hshort] at huntold
    | enter _ => simp [Event.untold, Event.isLong, Move.isLong, hshort] at huntold
    | assign _ | branch _ => simp [Event.untold, Event.isLong] at huntold

theorem FailsTo.kept {image : Image} {level : Nat} {line : Int} {c d : Workspace}
    (h : image.FailsTo level line c d) : d.store = c.store ∧ d.output = c.output := by
  cases h <;> exact ⟨rfl, rfl⟩

section Line

variable {image : Image} {level : Nat} {line : Int} {c d : Workspace}

theorem performLine_changes {move : Move} (hc : Cached image c)
    (h : image.performLine level line c = (d, .ok move)) :
    ∃ statement, image.statementAt line = .ok statement ∧ statement.Changes line c d := by
  obtain ⟨statement, event?, hs, hperforms⟩ := performLine_ok hc h
  exact ⟨statement, (readAt_eq_ok_iff.1 hs).1, .of_bare hperforms.changes⟩

theorem performLine_failsTo {fault : Fault} (hc : Cached image c)
    (h : image.performLine level line c = (d, .error fault)) :
    image.FailsTo level line c.bare d.bare := by
  cases hs : image.readAt line with
  | error e =>
    have hline := performLine_bare hc level line
    simp only [h, execute, hs, Prod.mk.injEq] at hline
    rw [hline.1]
    refine .same fun hshort guard hloop => ?_
    cases hs.symm.trans (readAt_eq_ok_iff.2 ⟨hloop, hshort⟩)
  | ok statement =>
    obtain ⟨result, hperforms, hresult⟩ := performLine_performs hc h hs
    exact hperforms.failsTo hresult hs

end Line

end Image

namespace Program

def Exits (p : Program) (line : Int) (c : Workspace) : Prop :=
  c.loops.head? = some line ∧ Text.isLong line = false ∧
    ∃ guard, (Image.ofProgram p).statementAt line = .ok (.loop guard) ∧
      guard.eval c.store = .ok false

def Abandons (p : Program) (line : Int) (c : Workspace) : Prop :=
  p.Exits line c ∧ p.loopEnd? line = none

theorem loops_of_failsTo {p : Program} {level : Nat} {line : Int} {c d : Workspace}
    (h : (Image.ofProgram p).FailsTo level line c d) :
    (p.Abandons line c → d.loops = c.loops.tail) ∧
    (p.Exits line c → (Image.ofProgram p).Overshoots level line → d.loops = c.loops.tail) ∧
    (¬ p.Abandons line c → ¬ (p.Exits line c ∧ (Image.ofProgram p).Overshoots level line) →
      d.loops = c.loops) := by
  have hexits (hd : p.Exits line c → d.loops = c.loops.tail) (hn : ¬ p.Exits line c → d.loops = c.loops)
      (hx : p.Exits line c → p.loopEnd? line = none ∨ (Image.ofProgram p).Overshoots level line) :
      (p.Abandons line c → d.loops = c.loops.tail) ∧
      (p.Exits line c → (Image.ofProgram p).Overshoots level line → d.loops = c.loops.tail) ∧
      (¬ p.Abandons line c → ¬ (p.Exits line c ∧ (Image.ofProgram p).Overshoots level line) →
        d.loops = c.loops) := by
    refine ⟨fun h => hd h.1, fun h _ => hd h, fun hend hover => hn fun h => ?_⟩
    exact (hx h).elim (fun he => hend ⟨h, he⟩) fun ho => hover ⟨h, ho⟩
  cases h with
  | same h =>
    have hnot : ¬ p.Exits line c := fun ⟨_, hshort, guard, hs, hguard⟩ => h hshort guard hs hguard
    exact hexits (fun h => absurd h hnot) (fun _ => rfl) fun h => absurd h hnot
  | reply hs =>
    have hnot : ¬ p.Exits line c := by
      rintro ⟨-, -, guard, hloop, -⟩
      cases hs.symm.trans hloop
    exact hexits (fun h => absurd h hnot) (fun _ => rfl) fun h => absurd h hnot
  | @leave guard hs hguard h =>
    -- the loop is left before its end is looked for, so the entry is gone if it was on top
    obtain ⟨hs, hshort⟩ := Image.readAt_eq_ok_iff.1 hs
    refine hexits (fun hx => by simp [Image.loopsAfter, hx.1]) (fun hn => ?_) fun _ => ?_
    · have htop : c.loops.head? ≠ some line := fun htop => hn ⟨htop, hshort, guard, hs, hguard⟩
      simp [Image.loopsAfter, htop]
    · exact h.imp_left fun ⟨fault, hfault⟩ => (leaveLoop_eq_error_iff.1 hfault).1

end Program

section Output

variable {image : Image} {o : Options} {s u : RunState} {c : Workspace}

theorem step_output_grows (hc : Cached image s.workspace) (h : step image o s = .running u) :
    s.workspace.output.toList <+: u.workspace.output.toList := by
  obtain ⟨line, move, -, hp, -⟩ := step_running h
  obtain ⟨statement, -, hchanges⟩ := Image.performLine_changes hc hp
  exact hchanges.output_grows

theorem Runs.output_grows {n : Nat} (h : Runs image o s n u) (hc : Cached image s.workspace) :
    s.workspace.output.toList <+: u.workspace.output.toList := by
  induction h with
  | refl _ => exact List.prefix_rfl
  | next hs _ ih => exact (step_output_grows hc hs).trans (ih (step_cached hc hs))

theorem Workspace.kept_of_bare {c d : Workspace} (h : c.bare = d.bare) :
    c.store = d.store ∧ c.output = d.output := by
  have hstore := congrArg Workspace.store h
  have houtput := congrArg Workspace.output h
  exact ⟨hstore, houtput⟩

theorem Stopped.kept {outcome : Outcome} (h : Stopped image o s c outcome)
    (hc : Cached image s.workspace) :
    c.store = s.workspace.store ∧ c.output = s.workspace.output := by
  cases h with
  | done _ => exact Workspace.kept_of_bare (Workspace.bare_record _ _ _)
  | cancelled _ _ => exact Workspace.kept_of_bare (Abort.bare_noted _ _ _)
  | overrun _ _ _ => exact Workspace.kept_of_bare (Fault.bare_noted _ _ _ _)
  | @failed line d fault _ _ _ hp =>
    obtain ⟨hstore, houtput⟩ := Workspace.kept_of_bare (fault.bare_noted o line d)
    obtain ⟨hstore', houtput'⟩ := (Image.performLine_failsTo hc hp).kept
    exact ⟨hstore.trans hstore', houtput.trans houtput'⟩

end Output

/-- A line that fails has no effect, and one that succeeds has its own and no other. A loop head that
fails has left its loop already: it has no end, or the trace cannot show the number behind it. -/
theorem line_changes_only_its_own (p : Program) (o : Options) (replies : List (Option String)) :
    (∀ (s : RunState) (next : List (Option String)) (level : Nat) (line : Int) (c d : Workspace)
        (r : Except Fault Move), Reachable p o replies s → c = { s.workspace with replies := next } →
      (Image.ofProgram p).performLine level line c = (d, r) →
      (d.statements = c.statements ∨
        ∃ statement, c.statements.lookup line = none ∧
          (Image.ofProgram p).statementAt line = .ok statement ∧
          d.statements = (line, statement) :: c.statements) ∧
      (∀ fault, r = .error fault → d.store = c.store ∧ d.output = c.output ∧
        (p.Abandons line c → d.loops = c.loops.tail) ∧
        (p.Exits line c → (Image.ofProgram p).Overshoots level line → d.loops = c.loops.tail) ∧
        (¬ p.Abandons line c → ¬ (p.Exits line c ∧ (Image.ofProgram p).Overshoots level line) →
          d.loops = c.loops)) ∧
      (∀ move, r = .ok move → ∃ statement,
        (Image.ofProgram p).statementAt line = .ok statement ∧ statement.Changes line c d)) ∧
    (∀ rounds c abort, run rounds p o replies = some (c, .aborted abort) →
      ∃ s, Reachable p o replies s ∧ s.cursor = some abort.line ∧
        step (.ofProgram p) o s = .ended c (.aborted abort) ∧
        c.store = s.workspace.store ∧ c.output = s.workspace.output) := by
  refine ⟨?_, ?_⟩
  · intro s next level line c d r hs hc hp
    have hcached : Cached (.ofProgram p) c := by
      rw [hc]
      exact hs.cached
    refine ⟨?_, ?_, ?_⟩
    · have hmemory := (Image.ofProgram p).performLine_statements level line c
      rw [hp] at hmemory
      exact hmemory
    · rintro fault rfl
      have hfails := Image.performLine_failsTo hcached hp
      have hloops := Program.loops_of_failsTo hfails
      exact ⟨hfails.kept.1, hfails.kept.2, hloops⟩
    · rintro move rfl
      exact Image.performLine_changes hcached hp
  · intro rounds c abort hrun
    obtain ⟨n, s, hruns, hend⟩ := ended_of_runFrom hrun
    have hs : Reachable p o replies s := ⟨n, hruns⟩
    have hstopped := step_stopped hend
    exact ⟨s, hs, hstopped.abort_line.1, hend, hstopped.kept hs.cached⟩

def endlessHead : Program := .ofLines
  [(10, "A = 2"), (20, "WHILE A > 1"), (30, "A = 0"), (40, "GOTO 20")]

theorem endlessHead_pops : ∃ s d, Reachable endlessHead {} [] s ∧ s.workspace.loops = [20] ∧
    (Image.ofProgram endlessHead).performLine 0 20 s.workspace = (d, .error (.unclosedLoop 20)) ∧
    d.store = s.workspace.store ∧ d.output = s.workspace.output ∧ d.loops = [] := by
  let guard : Condition := ⟨.greater, .variable "A", .number 1⟩
  have hloop : ((Image.ofProgram endlessHead).statementAt 20).toOption = some (.loop guard) := by
    decide +kernel
  have hend : endlessHead.loopEnd? 20 = none := by decide +kernel
  have hstate : ((stateAfter (.ofProgram endlessHead) {} 4
      (startState (.ofProgram endlessHead) {} [])).map fun s =>
        (s.workspace.loops, (guard.eval s.workspace.store).toOption)) = some ([20], some false) := by
    decide +kernel
  obtain ⟨s, hs, hpair⟩ := Option.map_eq_some_iff.1 hstate
  obtain ⟨hloops, hguard⟩ := Prod.mk.inj hpair
  have hreach : Reachable endlessHead {} [] s := ⟨4, runs_of_stateAfter hs⟩
  have hloop := eq_ok_of_toOption hloop
  have habandons : endlessHead.Abandons 20 s.workspace :=
    ⟨⟨by rw [hloops]; rfl, rfl, guard, hloop, eq_ok_of_toOption hguard⟩, hend⟩
  have hfails : (Image.ofProgram endlessHead).Fails 0 20 s.workspace (.loop guard)
      (.unclosedLoop 20) :=
    ⟨_, _, .leaveFails (eq_ok_of_toOption hguard) (Program.leaveLoop_eq_error_iff.2 ⟨hend, rfl⟩), rfl⟩
  have hfault := (Image.performLine_error_iff hreach.cached 0 20 (.unclosedLoop 20)).2
    (.inr ⟨_, Image.readAt_eq_ok_iff.2 ⟨hloop, rfl⟩, hfails⟩)
  have hline := (line_changes_only_its_own endlessHead {} []).1 s s.workspace.replies 0 20 s.workspace
    _ _ hreach rfl rfl
  obtain ⟨hstore, houtput, hpopped, -⟩ := hline.2.1 _ hfault
  exact ⟨s, _, hreach, hloops, Prod.ext rfl hfault, hstore, houtput,
    (hpopped habandons).trans (by rw [hloops]; rfl)⟩

end NumberedBasic
