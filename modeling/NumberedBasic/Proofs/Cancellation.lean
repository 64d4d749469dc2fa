import NumberedBasic.Proofs.StepLimit

set_option autoImplicit false

/-!
# Cancelled runs

A run is asked before each line whether it is to be cancelled, and after that the line is counted
against the limit. A run that is cancelled after some number of lines and a run that is limited to
that number take the same rounds up to it. In the round after these both stop at the same line, and
only what they report is not the same. A limit with too many digits cannot be reported.
-/
namespace NumberedBasic

namespace Options

def cancelledAfter (level k : Nat) : Options := { level, cancel := fun polls => k ≤ polls }

def limitedTo (level k : Nat) : Options := { level, maxSteps := some (k : Int) }

variable {level k steps : Nat}

theorem cancel_cancelledAfter : (cancelledAfter level k).cancel steps = true ↔ k ≤ steps :=
  decide_eq_true_iff

theorem overrun?_limitedTo_of_lt (h : steps < k) : (limitedTo level k).overrun? steps = none :=
  (overrun?_eq_none_iff (o := { level })).2 (by omega)

theorem overrun?_limitedTo_self : (limitedTo level k).overrun? k = some (k : Int) :=
  if_pos (by omega)

end Options

/-- Two ends that are the same, or the report of a cancelled run and that of a limited one. Only a
limit that cannot be told has no report. -/
inductive Outcome.StopsAlike (k : Nat) : Outcome → Outcome → Prop where
  | same {x : Outcome}
      (h : ∀ a, x = .aborted a → a.kindName ≠ "Cancelled" ∧ a.kindName ≠ "StepLimitError") :
      StopsAlike k x x
  | stopped {a b : Abort} (hk : Text.isLong k = false)
      (ha : a.kindName = "Cancelled" ∧ a.message = "run cancelled")
      (hb : b.kindName = "StepLimitError" ∧
        b.message = "more than " ++ Text.numeral k ++ " lines executed")
      (hline : a.line = b.line) : StopsAlike k (.aborted a) (.aborted b)
  | untold {a : Abort} (hk : Text.isLong k = true)
      (ha : a.kindName = "Cancelled" ∧ a.message = "run cancelled") :
      StopsAlike k (.aborted a) (.escaped .longNumber)

theorem Fault.Kind.name_of_ne {kind : Fault.Kind} (h : kind ≠ .stepLimit) :
    kind.name ≠ "Cancelled" ∧ kind.name ≠ "StepLimitError" := by
  cases kind with
  | stepLimit => exact absurd rfl h
  | _ => decide

section Rounds

variable {p : Program} {level k : Nat} {replies : List (Option String)} {s : RunState}

theorem step_cancelledAfter {image : Image} (h : s.steps < k) :
    step image (.cancelledAfter level k) s = step image (.limitedTo level k) s := by
  have hcancel : (Options.cancelledAfter level k).cancel s.steps = false := by
    rw [← Bool.not_eq_true, Options.cancel_cancelledAfter]
    omega
  have hlimit : (Options.limitedTo level k).overrun? s.steps = none :=
    Options.overrun?_limitedTo_of_lt h
  unfold step
  rw [hcancel, hlimit]
  rfl

theorem Reachable.own_report {o : Options} {c : Workspace} {x : Outcome}
    (h : Reachable p o replies s)
    (hend : NumberedBasic.step (.ofProgram p) o s = .ended c x)
    (hcancel : o.cancel s.steps = false) (hlimit : o.overrun? s.steps = none) :
    ∀ a, x = .aborted a → a.kindName ≠ "Cancelled" ∧ a.kindName ≠ "StepLimitError" := by
  rintro a rfl
  have hstopped := step_stopped hend
  have hkind : a.kind? ≠ some .stepLimit := fun hk => h.overrun hstopped hk hlimit
  generalize hout : Outcome.aborted a = outcome at hstopped
  cases hstopped with
  | done _ => cases hout
  | cancelled _ hyes => cases hcancel.symm.trans hyes
  | overrun _ _ hover => cases hlimit.symm.trans hover
  | failed _ _ _ _ =>
    obtain ⟨-, kind, -, rfl⟩ := Fault.of_outcome_aborted hout.symm
    exact Fault.Kind.name_of_ne fun heq => hkind (congrArg some heq)

theorem stopsAlike_at (k : Nat) (line : Int) :
    (Abort.cancelled line).outcome.StopsAlike k ((Fault.stepLimit k).raised.outcome line) := by
  cases hline : Text.isLong line with
  | true =>
    have hcancelled : (Abort.cancelled line).outcome = .escaped .longNumber := if_pos hline
    rw [hcancelled, Fault.outcome_of_long hline (Fault.raised_stepLimit k)]
    exact .same nofun
  | false =>
    have hcancelled : (Abort.cancelled line).outcome = .aborted (.cancelled line) :=
      if_neg (by simpa [Abort.cancelled] using hline)
    rw [hcancelled]
    cases hk : Text.isLong k with
    | true =>
      rw [Fault.raised_of_long rfl hk, Fault.outcome_of_none rfl]
      exact .untold hk ⟨rfl, rfl⟩
    | false =>
      rw [Fault.raised_of_short rfl hk, Fault.outcome_of_kind rfl hline]
      exact .stopped hk ⟨rfl, rfl⟩ ⟨rfl, rfl⟩ rfl

theorem stops_at_limit (image : Image) (h : s.steps = k) :
    ∃ c d x y, step image (.cancelledAfter level k) s = .ended c x ∧
      step image (.limitedTo level k) s = .ended d y ∧ c.bare = d.bare ∧ x.StopsAlike k y := by
  have hyes : (Options.cancelledAfter level k).cancel s.steps = true :=
    Options.cancel_cancelledAfter.2 h.ge
  have hover : (Options.limitedTo level k).overrun? s.steps = some (k : Int) :=
    h ▸ Options.overrun?_limitedTo_self
  cases hcursor : s.cursor with
  | none =>
    refine ⟨_, _, _, _, Stopped.step_eq (.done hcursor), Stopped.step_eq (.done hcursor), rfl, ?_⟩
    exact .same (by intro a ha; cases ha)
  | some line =>
    refine ⟨_, _, _, _, Stopped.step_eq (.cancelled hcursor hyes),
      Stopped.step_eq (.overrun hcursor rfl hover), ?_, stopsAlike_at k line⟩
    rw [Abort.bare_noted, Fault.bare_noted]

theorem runFrom_stopsAlike {rounds : Nat} (hs : Reachable p (.limitedTo level k) replies s)
    (h : s.steps + rounds = k) :
    ∃ c d x y, runFrom (.ofProgram p) (.cancelledAfter level k) (rounds + 1) s = some (c, x) ∧
      runFrom (.ofProgram p) (.limitedTo level k) (rounds + 1) s = some (d, y) ∧
      c.bare = d.bare ∧ x.StopsAlike k y := by
  induction rounds generalizing s with
  | zero =>
    obtain ⟨c, d, x, y, hc, hd, hbare, hxy⟩ := stops_at_limit (.ofProgram p) h
    exact ⟨c, d, x, y, runFrom_ended hc 0, runFrom_ended hd 0, hbare, hxy⟩
  | succ rounds ih =>
    have hlt : s.steps < k := by omega
    -- before the limit the two runs take the same round
    rw [runFrom, runFrom, step_cancelledAfter hlt]
    cases hstep : step (.ofProgram p) (.limitedTo level k) s with
    | running u =>
      have hsteps := step_steps hstep
      exact ih (hs.step hstep) (by omega)
    | ended c x =>
      have hown := hs.own_report hstep rfl (Options.overrun?_limitedTo_of_lt hlt)
      exact ⟨c, c, x, x, rfl, rfl, rfl, .same hown⟩

end Rounds

example : (run 7 ticking (.cancelledAfter 0 6) []).map (·.2) = some (.aborted (.cancelled 40)) ∧
    (run 7 ticking (.limitedTo 0 6) []).map (fun x => x.2) =
      some (.aborted ⟨some .stepLimit, "more than 6 lines executed", 40⟩) := by
  decide +kernel

end NumberedBasic
