import NumberedBasic.Proofs.Effects
import NumberedBasic.Proofs.Escapes
import NumberedBasic.Proofs.OpenLoops

set_option autoImplicit false

/-!
# How runs complete

A move to a line that is not there ends a run as if it were done. `NoneFollows` lists the statements
after which no line follows. Jumps and loop ends are not among them: a jump looks at its target
first, and what a loop end goes back to is on the stack of open loops, which holds heads only.
-/
namespace NumberedBasic

def Statement.Advances (store : Store) : Statement Int → Prop
  | .assign _ _ _ | .print _ | .input _ | .remark _ => True
  | .branch condition _ none => condition.eval store = .ok false
  | .loop guard => guard.eval store = .ok true
  | .branch _ _ (some _) | .goto _ | .endLoop | .stop => False

/-- No line follows the statement of a line when it is executed over a store. -/
inductive Program.NoneFollows (p : Program) (line : Int) (store : Store) : Statement Int → Prop where
  | stop : NoneFollows p line store .stop
  | thenMissing {condition : Condition} {target : Int} {otherwise : Option Int}
      (h : condition.eval store = .ok true) (hmissing : target ∉ p.numbers) :
      NoneFollows p line store (.branch condition target otherwise)
  | elseMissing {condition : Condition} {target other : Int} (h : condition.eval store = .ok false)
      (hmissing : other ∉ p.numbers) :
      NoneFollows p line store (.branch condition target (some other))
  | leave {guard : Condition} {n : Int} (h : guard.eval store = .ok false)
      (hend : p.loopEnd? line = some n) (hlast : ∀ m ∈ p.numbers, m ≤ n) :
      NoneFollows p line store (.loop guard)
  | advance {statement : Statement Int} (h : statement.Advances store)
      (hlast : ∀ m ∈ p.numbers, m ≤ line) : NoneFollows p line store statement

namespace Program

variable {p : Program} {line : Int} {store : Store}

theorem noneFollows_of_advances {statement : Statement Int} (h : statement.Advances store) :
    (Image.ofProgram p).next? line .next = none ↔ p.NoneFollows line store statement := by
  rw [Image.next?, LineOrder.next?_eq_none_iff, Image.ofProgram_numbers]
  refine ⟨.advance h, fun hnone => ?_⟩
  cases hnone with
  | stop => exact h.elim
  | @thenMissing condition target otherwise htrue _ =>
    cases otherwise with
    | none => cases htrue.symm.trans h
    | some other => exact h.elim
  | elseMissing _ _ => exact h.elim
  | leave hfalse _ _ => cases hfalse.symm.trans h
  | advance _ hlast => exact hlast

theorem next?_goTo_eq_none_iff {target : Int} :
    (Image.ofProgram p).next? line (.goTo target) = none ↔ target ∉ p.numbers := by
  simp [Image.next?]

theorem next?_leaveLoop {move : Move} (h : (Image.ofProgram p).leaveLoop line = .ok move) :
    ∃ n, p.loopEnd? line = some n ∧ ∀ c,
      (Image.ofProgram p).next? c move = (Image.ofProgram p).order.next? n := by
  cases hend : p.loopEnd? line with
  | none =>
    have hfails := leaveLoop_eq_error_iff.2 ⟨hend, rfl⟩
    cases h.symm.trans hfails
  | some n =>
    obtain ⟨other, hother, hnext⟩ := leaveLoop_eq_ok hend
    cases h.symm.trans hother
    exact ⟨n, rfl, hnext⟩

/-- Only a conditional jump may go to a line that is not there. -/
theorem target_mem {statement : Statement Int} {c d : Workspace} {target : Int}
    {event? : Option Event}
    (h : (Image.ofProgram p).Performs line c statement d (.ok (.goTo target, event?)))
    (hif : statement.keyword? ≠ some .IF) (hloops : ∀ n ∈ c.loops, n ∈ p.numbers) :
    target ∈ p.numbers := by
  generalize hr : (Except.ok (.goTo target, event?) : Except Fault (Move × Option Event)) = r at h
  cases h with
  | branch _ => exact absurd rfl hif
  | goto hin =>
    cases hr
    rwa [Image.ofProgram_numbers] at hin
  | leave _ hmove =>
    cases hr
    exact leaveLoop_target_mem hmove
  | @back head outer htop =>
    cases hr
    exact hloops target (htop ▸ List.mem_cons_self)
  | _ => cases hr

theorem noneFollows_iff {statement : Statement Int} {c d : Workspace} {move : Move}
    {event? : Option Event}
    (h : (Image.ofProgram p).Performs line c statement d (.ok (move, event?)))
    (hloops : ∀ n ∈ c.loops, n ∈ p.numbers) :
    (Image.ofProgram p).next? line move = none ↔ p.NoneFollows line c.store statement := by
  generalize hr : (Except.ok (move, event?) : Except Fault (Move × Option Event)) = r at h
  cases h with
  | assign _ | print _ | input _ | remark _ =>
    cases hr
    apply noneFollows_of_advances
    exact trivial
  | @branch condition target otherwise truth hv =>
    cases hr
    cases truth with
    | true =>
      refine next?_goTo_eq_none_iff.trans ⟨.thenMissing hv, ?_⟩
      rintro (_ | ⟨_, hmissing⟩ | ⟨hfalse, _⟩ | _ | ⟨hadvances, _⟩)
      · exact hmissing
      · cases hv.symm.trans hfalse
      · cases otherwise with
        | none => cases hv.symm.trans hadvances
        | some other => exact hadvances.elim
    | false =>
      cases otherwise with
      | none =>
        apply noneFollows_of_advances
        exact hv
      | some other =>
        refine next?_goTo_eq_none_iff.trans ⟨.elseMissing hv, ?_⟩
        rintro (_ | ⟨htrue, _⟩ | ⟨_, hmissing⟩ | _ | ⟨hadvances, _⟩)
        · cases hv.symm.trans htrue
        · exact hmissing
        · exact hadvances.elim
  | goto hin =>
    -- a jump that does not fail has looked for its line
    cases hr
    rw [Image.ofProgram_numbers] at hin
    rw [next?_goTo_eq_none_iff]
    refine iff_of_false (not_not_intro hin) ?_
    rintro (_ | _ | _ | _ | ⟨hadvances, _⟩)
    exact hadvances
  | enter hv =>
    cases hr
    apply noneFollows_of_advances
    exact hv
  | leave hv hmove =>
    cases hr
    obtain ⟨n, hend, hnext⟩ := next?_leaveLoop hmove
    rw [hnext, LineOrder.next?_eq_none_iff, Image.ofProgram_numbers]
    refine ⟨.leave hv hend, ?_⟩
    rintro (_ | _ | _ | ⟨_, hother, hlast⟩ | ⟨hadvances, _⟩)
    · cases hend.symm.trans hother
      exact hlast
    · cases hv.symm.trans hadvances
  | @back head outer htop =>
    -- the heads of open loops are lines, so there is always one to go back to
    cases hr
    rw [next?_goTo_eq_none_iff]
    refine iff_of_false (not_not_intro (hloops head (htop ▸ List.mem_cons_self))) ?_
    rintro (_ | _ | _ | _ | ⟨hadvances, _⟩)
    exact hadvances
  | stop =>
    cases hr
    exact iff_of_true rfl .stop
  | _ => cases hr

end Program

theorem OwnEntry.distinct {line : Int} {truth : Bool} {loops loops' : List Int}
    (h : OwnEntry line truth loops loops') (hloops : loops.IsChain (· ≠ ·)) :
    loops'.IsChain (· ≠ ·) := by
  cases h with
  | again _ | pass _ => exact hloops
  | leave _ => exact hloops.tail
  | enter htop =>
    refine List.isChain_cons.2 ⟨?_, hloops⟩
    rintro n hn rfl
    exact htop hn

section Reachable

variable {p : Program} {o : Options} {replies : List (Option String)} {s u : RunState} {line : Int}

theorem Reachable.loops_distinct (h : Reachable p o replies s) :
    s.workspace.loops.IsChain (· ≠ ·) := by
  apply h.invariant (fun s => s.workspace.loops.IsChain (· ≠ ·))
  · simp [startState]
  · intro s u hs ih hu
    obtain ⟨line, move, -, hp, -⟩ := step_running hu
    obtain ⟨statement, -, hchanges⟩ := Image.performLine_changes hs.cached hp
    rcases hchanges.entries.2 with hsame | ⟨truth, hentry⟩
    · rw [hsame]
      exact ih
    · exact hentry.distinct ih

theorem Executing.cursor_eq_none_iff (h : Executing p o replies s line)
    {statement : Statement Int} (hs : (Image.ofProgram p).statementAt line = .ok statement)
    (hu : step (.ofProgram p) o s = .running u) :
    u.cursor = none ↔ p.NoneFollows line s.workspace.store statement := by
  obtain ⟨other, move, event?, hother, hperforms, hnext⟩ := h.performs hu
  cases hs.symm.trans hother
  have hnone := Program.noneFollows_iff hperforms h.reachable.loops_mem
  rw [hnext]
  exact hnone

theorem Stopped.cursor_of_completed {image : Image} {c : Workspace}
    (h : Stopped image o s c .completed) : s.cursor = none := by
  generalize hout : Outcome.completed = outcome at h
  cases h with
  | done hc => exact hc
  | cancelled _ _ => exact absurd hout.symm (Abort.outcome_ne_completed _)
  | overrun _ _ _ | failed _ _ _ _ => exact absurd hout.symm (Fault.outcome_ne_completed _ _)

theorem Runs.last {image : Image} {n : Nat} (h : Runs image o s (n + 1) u) :
    ∃ v, Runs image o s n v ∧ step image o v = .running u := by
  induction n generalizing s with
  | zero =>
    obtain _ | ⟨hs, tail⟩ := h
    cases tail
    exact ⟨s, .refl s, hs⟩
  | succ n ih =>
    obtain _ | ⟨hs, tail⟩ := h
    obtain ⟨v, hruns, hv⟩ := ih tail
    exact ⟨v, .next hs hruns, hv⟩

theorem last_line_of_completed {rounds : Nat} {c : Workspace}
    (h : run rounds p o replies = some (c, .completed)) :
    p.numbers = [] ∨ ∃ s u line, Executing p o replies s line ∧
      step (.ofProgram p) o s = .running u ∧ step (.ofProgram p) o u = .ended c .completed ∧
      u.cursor = none := by
  obtain ⟨n, u, hruns, hend⟩ := ended_of_runFrom h
  have hnone : u.cursor = none := (step_stopped hend).cursor_of_completed
  cases n with
  | zero =>
    cases hruns
    rw [← Image.ofProgram_numbers]
    exact .inl (List.head?_eq_none_iff.1 hnone)
  | succ n =>
    obtain ⟨s, hs, hu⟩ := hruns.last
    obtain ⟨line, hexec⟩ := Reachable.executing ⟨n, hs⟩ hu
    exact .inr ⟨s, u, line, hexec, hu, hend, hnone⟩

end Reachable

/-- A run completes after one of a few statements only; a jump or a loop end is not one of them. -/
theorem run_completes_after (p : Program) (o : Options) (replies : List (Option String)) :
    (∀ s, Reachable p o replies s →
      (∀ n ∈ s.workspace.loops, n ∈ (Image.ofProgram p).order.numbers ∧
        ∃ guard, (Image.ofProgram p).statementAt n = .ok (.loop guard)) ∧
      s.workspace.loops.IsChain (· ≠ ·)) ∧
    (∀ s line statement c target, Executing p o replies s line →
      (Image.ofProgram p).statementAt line = .ok statement → statement.keyword? ≠ some .IF →
      (Image.ofProgram p).performLine o.level line s.workspace = (c, .ok (.goTo target)) →
      target ∈ p.numbers ∧ (Image.ofProgram p).next? line (.goTo target) = some target) ∧
    (∀ s u line statement, Executing p o replies s line →
      (Image.ofProgram p).statementAt line = .ok statement →
      step (.ofProgram p) o s = .running u →
      (u.cursor = none ↔ p.NoneFollows line s.workspace.store statement) ∧
      ((∃ target, statement = .goto target) ∨ statement = .endLoop → u.cursor ≠ none)) ∧
    (∀ rounds c, run rounds p o replies = some (c, .completed) →
      p.numbers = [] ∨ ∃ s u line statement, Executing p o replies s line ∧
        (Image.ofProgram p).statementAt line = .ok statement ∧
        step (.ofProgram p) o s = .running u ∧ step (.ofProgram p) o u = .ended c .completed ∧
        p.NoneFollows line s.workspace.store statement) := by
  refine ⟨?_, ?_, ?_, ?_⟩
  · intro s hs
    refine ⟨fun n hn => ⟨?_, hs.loop_heads hn⟩, hs.loops_distinct⟩
    rw [Image.ofProgram_numbers]
    exact hs.loops_mem n hn
  · intro s line statement c target hexec hs hif hp
    obtain ⟨other, event?, hother, hperforms⟩ := Image.performLine_ok hexec.reachable.cached hp
    cases hs.symm.trans (Image.readAt_eq_ok_iff.1 hother).1
    have hin : target ∈ p.numbers := Program.target_mem hperforms hif hexec.reachable.loops_mem
    exact ⟨hin, by simp [Image.next?, hin]⟩
  · intro s u line statement hexec hs hu
    have hiff := hexec.cursor_eq_none_iff hs hu
    refine ⟨hiff, ?_⟩
    rintro (⟨target, rfl⟩ | rfl) hnone
    · obtain _ | _ | _ | _ | ⟨hadvances, _⟩ := hiff.1 hnone
      exact hadvances
    · obtain _ | _ | _ | _ | ⟨hadvances, _⟩ := hiff.1 hnone
      exact hadvances
  · intro rounds c hrun
    refine (last_line_of_completed hrun).imp_right ?_
    rintro ⟨s, u, line, hexec, hu, hend, hnone⟩
    obtain ⟨statement, -, -, hs, -, -⟩ := hexec.performs hu
    exact ⟨s, u, line, statement, hexec, hs, hu, hend, (hexec.cursor_eq_none_iff hs hu).1 hnone⟩

def leadingAstray : Program := .ofLines
  [(10, "A = 1"), (20, "WHILE A > 0"), (30, "A = A - 1"), (40, "WEND"), (50, "IF A = 0 THEN 900"),
    (60, "END")]

theorem leadingAstray_completes :
    (∃ s guard, Reachable leadingAstray {} [] s ∧ s.workspace.loops = [20] ∧
      (Image.ofProgram leadingAstray).statementAt 20 = .ok (.loop guard)) ∧
    ∃ c s u line statement, run 9 leadingAstray {} [] = some (c, .completed) ∧
      Executing leadingAstray {} [] s line ∧
      (Image.ofProgram leadingAstray).statementAt line = .ok statement ∧
      step (.ofProgram leadingAstray) {} s = .running u ∧
      step (.ofProgram leadingAstray) {} u = .ended c .completed ∧
      leadingAstray.NoneFollows line s.workspace.store statement := by
  have hstate : ((stateAfter (.ofProgram leadingAstray) {} 2
      (startState (.ofProgram leadingAstray) {} [])).map fun s => s.workspace.loops) = some [20] := by
    decide +kernel
  have hrun : (run 9 leadingAstray {} []).map Prod.snd = some .completed := by decide +kernel
  obtain ⟨s, hs, hloops⟩ := Option.map_eq_some_iff.1 hstate
  obtain ⟨⟨c, outcome⟩, hc, houtcome⟩ := Option.map_eq_some_iff.1 hrun
  cases houtcome
  have hreach : Reachable leadingAstray {} [] s := ⟨2, runs_of_stateAfter hs⟩
  obtain ⟨hheads, -, -, hends⟩ := run_completes_after leadingAstray {} []
  obtain ⟨-, guard, hguard⟩ := (hheads s hreach).1 20 (by simp [hloops])
  refine ⟨⟨s, guard, hreach, hloops, hguard⟩, ?_⟩
  rcases hends 9 c hc with hempty | ⟨s, u, line, statement, hlast⟩
  · exact absurd hempty (by decide +kernel)
  · exact ⟨c, s, u, line, statement, hc, hlast⟩

end NumberedBasic
