import NumberedBasic.Proofs.Effects
import NumberedBasic.Proofs.Escapes

set_option autoImplicit false

/-!
# The limit of lines

Two runs that differ in their limits go through the same states as long as the smaller limit allows.
A round of the smaller limit is a round of the other one, or it reports the limit. No line reports
the limit by itself, so the report comes after exactly as many lines as the limit allows.
-/
namespace NumberedBasic

def Options.withLimit (o : Options) (limit? : Option Int) : Options := { o with maxSteps := limit? }

theorem Options.overrun?_eq_none_iff {o : Options} {m : Int} {steps : Nat} :
    (o.withLimit (some m)).overrun? steps = none ↔ (steps : Int) + 1 ≤ m := by
  change (if m < (steps : Int) + 1 then some m else none) = none ↔ _
  rw [ite_eq_right_iff]
  simp

theorem Options.overrun?_mono {o : Options} {m : Int} {limit? : Option Int} {steps : Nat}
    (hm : ∀ n ∈ limit?, m < n) (h : (o.withLimit (some m)).overrun? steps = none) :
    (o.withLimit limit?).overrun? steps = none := by
  cases limit? with
  | none => rfl
  | some n =>
    have hn : m < n := hm n rfl
    rw [overrun?_eq_none_iff] at h ⊢
    omega

section Limits

variable {image : Image} {o : Options} {m : Int} {limit? : Option Int} {s u : RunState} {n : Nat}

theorem step_withLimit (hm : ∀ n ∈ limit?, m < n) (hs : (s.steps : Int) + 1 ≤ m) :
    step image (o.withLimit limit?) s = step image (o.withLimit (some m)) s := by
  have hover : (o.withLimit (some m)).overrun? s.steps = none := Options.overrun?_eq_none_iff.2 hs
  have hover' := Options.overrun?_mono hm hover
  unfold step
  rw [hover, hover']
  rfl

theorem step_allowed (h : step image (o.withLimit (some m)) s = .running u) :
    (s.steps : Int) + 1 ≤ m := by
  obtain ⟨line, move, -, -, -, -, -, hlimit⟩ := step_running h
  exact Options.overrun?_eq_none_iff.1 hlimit

theorem step_steps (h : step image o s = .running u) : u.steps = s.steps + 1 := by
  obtain ⟨line, move, -, -, -, hsteps, -⟩ := step_running h
  exact hsteps

theorem Runs.steps (h : Runs image o s n u) : u.steps = s.steps + n := by
  induction h with
  | refl _ => rfl
  | next hs _ ih =>
    have hsteps := step_steps hs
    omega

theorem runs_withLimit_iff (hm : ∀ n ∈ limit?, m < n) (hs : s.steps + n ≤ m.toNat) :
    Runs image (o.withLimit (some m)) s n u ↔ Runs image (o.withLimit limit?) s n u := by
  induction n generalizing s with
  | zero =>
    constructor <;> intro h <;> cases h <;> exact .refl _
  | succ n ih =>
    have hstep : step image (o.withLimit limit?) s = step image (o.withLimit (some m)) s :=
      step_withLimit hm (by omega)
    constructor
    · rintro (_ | ⟨h, tail⟩)
      have hsteps := step_steps h
      exact .next (hstep.trans h) ((ih (by omega)).1 tail)
    · rintro (_ | ⟨h, tail⟩)
      have hsteps := step_steps h
      exact .next (hstep.symm.trans h) ((ih (by omega)).2 tail)

theorem runs_limited_le (h : Runs image (o.withLimit (some m)) s n u) (hs : s.steps ≤ m.toNat) :
    u.steps ≤ m.toNat := by
  apply h.invariant (fun s => s.steps ≤ m.toNat) hs
  intro s u _ hu
  have hallowed := step_allowed hu
  have hsteps := step_steps hu
  omega

theorem limited_ends (h : s.steps + n = m.toNat) :
    ∃ x, runFrom image (o.withLimit (some m)) (n + 1) s = some x := by
  induction n generalizing s with
  | zero =>
    cases hs : step image (o.withLimit (some m)) s with
    | running u =>
      have hallowed := step_allowed hs
      omega
    | ended c outcome => exact ⟨(c, outcome), runFrom_ended hs _⟩
  | succ n ih =>
    cases hs : step image (o.withLimit (some m)) s with
    | running u =>
      have hsteps := step_steps hs
      obtain ⟨x, hx⟩ := ih (s := u) (by omega)
      exact ⟨x, (runFrom_running hs _).trans hx⟩
    | ended c outcome => exact ⟨(c, outcome), runFrom_ended hs _⟩

end Limits

/-- No line reports the limit: a report of it comes from the count of the lines. -/
theorem Reachable.overrun {p : Program} {o : Options} {replies : List (Option String)}
    {s : RunState} {c : Workspace} {abort : Abort} (h : Reachable p o replies s)
    (hend : Stopped (.ofProgram p) o s c (.aborted abort)) (hk : abort.kind? = some .stepLimit) :
    o.overrun? s.steps ≠ none := by
  generalize hout : Outcome.aborted abort = outcome at hend
  cases hend with
  | done _ => cases hout
  | cancelled _ _ =>
    obtain ⟨-, rfl⟩ := Abort.of_outcome_aborted hout.symm
    cases hk
  | overrun _ _ hlimit =>
    rw [hlimit]
    exact nofun
  | @failed line d fault hcursor _ _ hp =>
    have hkind : fault.kind? = some .stepLimit := Fault.kind?_of_outcome hout.symm hk
    have hline : fault.ofLine = true :=
      Program.performLine_ofLine h.cached (h.cursor_mem hcursor) (congrArg Prod.snd hp)
    cases fault <;> simp_all [Fault.kind?, Fault.ofLine]

/-- An end under the smaller limit is an end under the other, unless it is the report of the limit. -/
theorem Reachable.ends_withLimit {p : Program} {o : Options} {replies : List (Option String)}
    {m : Int} {limit? : Option Int} {s : RunState} {c : Workspace} {outcome : Outcome}
    (h : Reachable p (o.withLimit (some m)) replies s) (hm : ∀ n ∈ limit?, m < n)
    (hshort : Text.isLong m = false)
    (hend : NumberedBasic.step (.ofProgram p) (o.withLimit (some m)) s = .ended c outcome)
    (hk : ∀ abort, outcome = .aborted abort → abort.kind? ≠ some .stepLimit) :
    NumberedBasic.step (.ofProgram p) (o.withLimit limit?) s = .ended c outcome := by
  cases step_stopped hend with
  | done hc => exact Stopped.step_eq (.done hc)
  | cancelled hc hcancel => exact Stopped.step_eq (.cancelled hc hcancel)
  | failed hc hcancel hlimit hp =>
    exact Stopped.step_eq (.failed hc hcancel (Options.overrun?_mono hm hlimit) hp)
  | @overrun line limit hc _ hover =>
    obtain rfl : m = limit := Option.some.inj (Options.maxSteps_of_overrun? hover)
    -- the limit can be told, so the number of the line cannot, and under no limit
    have hlong : Text.isLong line = true := by
      by_contra hline
      refine hk (.ofFault .stepLimit (.stepLimit m) line) ?_ rfl
      rw [Fault.raised_of_short rfl hshort, Fault.outcome_of_kind rfl (by simpa using hline)]
    have hstep (o : Options) : NumberedBasic.step (.ofProgram p) o s = _ :=
      step_long hc hlong (Program.mem_numbers_iff.1 (h.cursor_mem hc))
    exact (hstep _).trans ((hstep _).symm.trans hend)

theorem limit_reached {p : Program} {o : Options} {replies : List (Option String)} {m : Int} {n : Nat}
    {s : RunState} {c : Workspace} {abort : Abort}
    (hruns : Runs (.ofProgram p) (o.withLimit (some m))
      (startState (.ofProgram p) (o.withLimit (some m)) replies) n s)
    (hend : Stopped (.ofProgram p) (o.withLimit (some m)) s c (.aborted abort))
    (hk : abort.kind? = some .stepLimit) : n = m.toNat := by
  have hsteps : s.steps = 0 + n := hruns.steps
  -- the rounds before were allowed, and this one is not
  have hle : s.steps ≤ m.toNat := runs_limited_le hruns (Nat.zero_le _)
  have hover : ¬ (s.steps : Int) + 1 ≤ m := by
    rw [← Options.overrun?_eq_none_iff]
    exact Reachable.overrun ⟨n, hruns⟩ hend hk
  omega

theorem runFrom_output_grows {image : Image} {o : Options} {rounds : Nat} {s : RunState}
    {c : Workspace} {outcome : Outcome} (hc : Cached image s.workspace)
    (h : runFrom image o rounds s = some (c, outcome)) :
    s.workspace.output.toList <+: c.output.toList := by
  obtain ⟨n, u, hruns, hend⟩ := ended_of_runFrom h
  rw [((step_stopped hend).kept (hruns.cached hc)).2]
  exact hruns.output_grows hc

/-- A limit of lines cuts a run short and does nothing else. The limit itself has to be one that can
be told. -/
theorem step_limit_truncates (p : Program) (o : Options) (replies : List (Option String)) (m : Int)
    (limit? : Option Int) (hm : ∀ n ∈ limit?, m < n) (hshort : Text.isLong m = false) :
    (∃ rounds x, run rounds p (o.withLimit (some m)) replies = some x) ∧
    ∀ rounds c outcome, run rounds p (o.withLimit (some m)) replies = some (c, outcome) →
      ((∀ abort, outcome = .aborted abort → abort.kind? ≠ some .stepLimit) →
        ∃ rounds, run rounds p (o.withLimit limit?) replies = some (c, outcome)) ∧
      (∀ abort, outcome = .aborted abort → abort.kind? = some .stepLimit →
        let image := Image.ofProgram p
        let start := startState image o replies
        ∃ s, Runs image (o.withLimit limit?) start m.toNat s ∧ s.cursor = some abort.line ∧
          step image (o.withLimit (some m)) s = .ended c outcome ∧
          c.store = s.workspace.store ∧ c.output = s.workspace.output ∧
          (∀ n u, n ≤ m.toNat → (Runs image (o.withLimit (some m)) start n u ↔
            Runs image (o.withLimit limit?) start n u)) ∧
          (∀ n u, Runs image (o.withLimit limit?) s n u →
            c.output.toList <+: u.workspace.output.toList) ∧
          (∀ rounds d other, run rounds p (o.withLimit limit?) replies = some (d, other) →
            c.output.toList <+: d.output.toList)) := by
  refine ⟨⟨m.toNat + 1, limited_ends (Nat.zero_add _)⟩, ?_⟩
  intro rounds c outcome hrun
  obtain ⟨n, s, hruns, hend⟩ := ended_of_runFrom hrun
  have hstopped := step_stopped hend
  have hn : n ≤ m.toNat := by
    have hle := runs_limited_le hruns (Nat.zero_le _)
    have hsteps : s.steps = 0 + n := hruns.steps
    omega
  have hruns' := (runs_withLimit_iff hm (by simpa [startState] using hn)).1 hruns
  refine ⟨?_, ?_⟩
  · intro hk
    refine ⟨n + 1, ?_⟩
    have hend' := Reachable.ends_withLimit ⟨n, hruns⟩ hm hshort hend hk
    exact (hruns'.runFrom 1).trans (runFrom_ended hend' 0)
  · rintro abort rfl hk
    -- the first state does not depend on the limit, so it is one state for both runs
    have hcached := hruns'.cached (start_cached _ o replies)
    obtain ⟨hstore, houtput⟩ := hstopped.kept hcached
    obtain rfl := limit_reached hruns hstopped hk
    refine ⟨s, hruns', hstopped.abort_line.1, hend, hstore, houtput, ?_, ?_, ?_⟩
    · intro n u hn
      exact runs_withLimit_iff hm (by simpa [startState] using hn)
    · intro n u hu
      rw [houtput]
      exact hu.output_grows hcached
    · intro rounds d other hother
      obtain ⟨k, -, hrest⟩ := hruns'.rest hother
      rw [houtput]
      exact runFrom_output_grows hcached hrest

def ticking : Program := .ofLines
  [(10, "I = 0"), (20, "I = I + 1"), (30, "PRINT I"), (40, "GOTO 20")]

theorem ticking_truncated : ∃ c d abort other,
    run 7 ticking (({} : Options).withLimit (some 6)) [] = some (c, .aborted abort) ∧
    abort.kind? = some .stepLimit ∧ abort.line = 40 ∧
    run 10 ticking (({} : Options).withLimit (some 9)) [] = some (d, other) ∧
    c.output.size = 2 ∧ d.output.size = 3 ∧ c.output.toList <+: d.output.toList := by
  have hshort : (run 7 ticking (({} : Options).withLimit (some 6)) []).map
      (fun x => (x.1.output.size, x.2)) =
        some (2, .aborted (.ofFault .stepLimit (.stepLimit 6) 40)) := by decide +kernel
  have hlong : (run 10 ticking (({} : Options).withLimit (some 9)) []).map
      (fun x => x.1.output.size) = some 3 := by decide +kernel
  obtain ⟨⟨c, outcome⟩, hc, hpair⟩ := Option.map_eq_some_iff.1 hshort
  obtain ⟨⟨d, other⟩, hd, hsize⟩ := Option.map_eq_some_iff.1 hlong
  obtain ⟨hsize', rfl⟩ := Prod.mk.inj hpair
  have hcut := (step_limit_truncates ticking {} [] 6 (some 9) (by simp) (by decide)).2 7 c _ hc
  obtain ⟨s, -, -, -, -, -, -, -, hgrows⟩ := hcut.2 _ rfl rfl
  exact ⟨c, d, _, other, hc, rfl, rfl, hd, hsize', hsize, hgrows 10 d other hd⟩

/-- The smaller of two limits, both reached before the first line, cannot be told: its run does not
report the limit and does not end as the other one does. -/
theorem untold_limit_does_not_truncate : -Text.leastLong < 0 ∧
    (∃ c, run 1 printing (({} : Options).withLimit (some (-Text.leastLong))) [] =
      some (c, .escaped .longNumber)) ∧
    ∀ rounds c outcome, run rounds printing (({} : Options).withLimit (some 0)) [] = some (c, outcome) →
      outcome = .aborted (.ofFault .stepLimit (.stepLimit 0) 10) := by
  have hlong : Text.isLong (-Text.leastLong) = true := by
    rw [Text.isLong_neg]
    exact Text.isLong_leastLong
  have hneg : -Text.leastLong < 0 := Int.neg_neg_of_pos Text.leastLong_pos
  have hfirst : printing.numbers.head? = some 10 := by decide +kernel
  refine ⟨hneg, run_overrun_long hfirst (Int.le_of_lt hneg) hlong [], ?_⟩
  intro rounds c outcome hrun
  have hzero : (run 1 printing (({} : Options).withLimit (some 0)) []).map (·.2) =
      some (.aborted (.ofFault .stepLimit (.stepLimit 0) 10)) := by decide +kernel
  obtain ⟨x, hx, houtcome⟩ := Option.map_eq_some_iff.1 hzero
  rw [← houtcome, ← runFrom_unique hrun hx]

end NumberedBasic
