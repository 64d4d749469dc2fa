import NumberedBasic.Proofs.Failures

set_option autoImplicit false

/-!
# Levels of the trace

A run at a lower level is the run at a higher one with the events above its level struck out of the
trace. `Workspace.shownAt` strikes them out. Recording, executing a line, a round and a whole run each
commute with it, so nothing but the trace depends on the level.

One thing depends on it in passing. A jump to a line whose number has too many digits cannot be told,
which ends a run at a level that tells it. At a level that does not, the next round comes to that line
and ends the run there in the same way.
-/
namespace NumberedBasic

/-- Levels below zero show what zero shows, which is nothing. -/
def Options.atLevel (o : Options) (level : Int) : Options := { o with level := level.toNat }

namespace Workspace

def shownAt (c : Workspace) (level : Nat) : Workspace :=
  { c with trace := c.trace.filter (·.level ≤ level) }

def messages (c : Workspace) : List String := c.trace.toList.map Event.text

theorem shownAt_record {d e : Nat} (h : d ≤ e) (c : Workspace) (event : Event) :
    (c.record e event).shownAt d = (c.shownAt d).record d event := by
  by_cases hd : event.level ≤ d
  · have he : event.level ≤ e := hd.trans h
    simp [record, shownAt, hd, he]
  · by_cases he : event.level ≤ e
    · simp [record, shownAt, hd, he]
    · simp [record, shownAt, hd, he]

theorem frame_shownAt (d : Nat) : Frame (shownAt · d) :=
  ⟨fun _ => rfl, fun _ => rfl, fun _ _ _ => rfl, fun _ _ => rfl, fun _ => rfl, fun _ _ => rfl⟩

theorem fetchFrame_shownAt {d e : Nat} (h : d ≤ e) : FetchFrame e d (shownAt · d) :=
  ⟨fun _ => rfl, shownAt_record h, fun _ _ => rfl⟩

theorem messages_shownAt (c : Workspace) (d : Nat) : (c.shownAt d).messages.Sublist c.messages := by
  have hfilter : (c.shownAt d).trace.toList = c.trace.toList.filter (·.level ≤ d) :=
    Array.toList_filter
  rw [messages, messages, hfilter]
  exact List.filter_sublist.map Event.text

end Workspace

namespace RunState

def shownAt (s : RunState) (level : Nat) : RunState :=
  { s with workspace := s.workspace.shownAt level }

@[simp] theorem shownAt_cursor (s : RunState) (d : Nat) : (s.shownAt d).cursor = s.cursor := rfl

@[simp] theorem shownAt_steps (s : RunState) (d : Nat) : (s.shownAt d).steps = s.steps := rfl

@[simp] theorem shownAt_workspace (s : RunState) (d : Nat) :
    (s.shownAt d).workspace = s.workspace.shownAt d := rfl

end RunState

def Progress.shownAt (level : Nat) : Progress → Progress
  | .running s => .running (s.shownAt level)
  | .ended c outcome => .ended (c.shownAt level) outcome

section Levels

variable {d e : Nat} {p : Program} {o : Options}

theorem Event.untold_mono (h : d ≤ e) {event : Event} (hd : event.untold d = true) :
    event.untold e = true := by
  obtain ⟨hlevel, hlong⟩ := untold_iff.1 hd
  exact untold_iff.2 ⟨by omega, hlong⟩

namespace Image

theorem told_shownAt (h : d ≤ e) (c : Workspace) (r : Except Fault (Move × Option Event)) :
    told d (c.shownAt d, r) = ((told e (c, r)).1.shownAt d, (told e (c, r)).2) ∨
    ∃ move event, r = .ok (move, some event) ∧ event.isLong = true ∧
      told e (c, r) = (c, .error .longNumber) ∧ told d (c.shownAt d, r) = (c.shownAt d, .ok move) := by
  obtain fault | ⟨move, _ | event⟩ := r
  · exact .inl rfl
  · exact .inl rfl
  by_cases he : event.untold e = true
  · by_cases hd : event.untold d = true
    · exact .inl (by simp [told, Workspace.note, he, hd])
    · have hlong := (Event.untold_iff.1 he).2
      have hlevel : ¬ event.level ≤ d := by
        intro hlevel
        exact hd (Event.untold_iff.2 ⟨by omega, hlong⟩)
      exact .inr ⟨move, event, rfl, hlong, by simp [told, Workspace.note, he],
        by simp [told, Workspace.note, hd, Workspace.record, hlevel]⟩
  · have hd : ¬ event.untold d = true := fun hd => he (Event.untold_mono h hd)
    exact .inl (by simp [told, Workspace.note, he, hd, Workspace.shownAt_record h])

theorem performLine_shownAt (h : d ≤ e) (p : Program) (line : Int) (c : Workspace) :
    let image := Image.ofProgram p
    image.performLine d line (c.shownAt d) =
      ((image.performLine e line c).1.shownAt d, (image.performLine e line c).2) ∨
    ∃ c' target, target ∈ p.numbers ∧ Text.isLong target = true ∧
      image.performLine e line c = (c', .error .longNumber) ∧
      image.performLine d line (c.shownAt d) = (c'.shownAt d, .ok (.goTo target)) := by
  intro image
  have hfetches := image.fetch_fetches e line c
  have hlower := image.fetch_frame (Workspace.fetchFrame_shownAt h) line c
  rcases hf : image.fetch e line c with ⟨c', fault | statement⟩
  · rw [hf] at hlower
    exact .inl (by simp only [performLine, hlower, hf])
  rw [hf] at hlower hfetches
  have hperform : image.perform line statement (c'.shownAt d) = _ :=
    perform_frame (Workspace.frame_shownAt d) fun _ => rfl
  have hperforms := image.perform_performs line statement c'
  simp only [performLine, hlower, hf, hperform]
  rcases hp : image.perform line statement c' with ⟨c'', r⟩
  rw [hp] at hperforms
  rcases told_shownAt h c'' r with hsame | ⟨move, event, rfl, hlong, hhigh, hlow⟩
  · exact .inl hsame
  · obtain ⟨target, ht, rfl, htarget⟩ := Program.long_event hperforms hfetches.short hlong
    exact .inr ⟨c'', target, ht, htarget, hhigh, hlow⟩

end Image

theorem failure_shownAt (h : d ≤ e) (o : Options) (line : Int) (fault : Fault) (c : Workspace) :
    failure { o with level := d } line fault (c.shownAt d) =
      (failure { o with level := e } line fault c).shownAt d := by
  have hnoted : (fault.noted { o with level := e } line c).shownAt d =
      fault.noted { o with level := d } line (c.shownAt d) :=
    Fault.noted_comm (f := fun c => c.shownAt d) (Workspace.shownAt_record h) fault line c
  rw [failure_eq, failure_eq, Progress.shownAt, hnoted]

theorem report_shownAt (h : d ≤ e) (o : Options) (abort : Abort) (c : Workspace) :
    report { o with level := d } abort (c.shownAt d) =
      (report { o with level := e } abort c).shownAt d := by
  have hnoted : (abort.noted { o with level := e } c).shownAt d =
      abort.noted { o with level := d } (c.shownAt d) :=
    Abort.noted_comm (f := fun c => c.shownAt d) (Workspace.shownAt_record h) abort c
  rw [report_eq, report_eq, Progress.shownAt, hnoted]

/-- One round at both levels. The higher level may have to tell what the lower one sees a round
later. -/
inductive StepsAlike (p : Program) (o : Options) (d e : Nat) (s : RunState) : Prop where
  | same (h : step (.ofProgram p) { o with level := d } (s.shownAt d) =
      (step (.ofProgram p) { o with level := e } s).shownAt d)
  | early {c : Workspace} {u : RunState}
      (hhigh : step (.ofProgram p) { o with level := e } s = .ended c (.escaped .longNumber))
      (hlow : step (.ofProgram p) { o with level := d } (s.shownAt d) = .running u)
      (hu : u.workspace = c.shownAt d)
      (hend : step (.ofProgram p) { o with level := d } u =
        .ended (c.shownAt d) (.escaped .longNumber))

theorem step_shownAt (h : d ≤ e) (p : Program) (o : Options) (s : RunState) :
    StepsAlike p o d e s := by
  cases hcursor : s.cursor with
  | none =>
    exact .same (by simp [step, hcursor, Progress.shownAt, Workspace.shownAt_record h])
  | some line =>
    by_cases hcancel : o.cancel s.steps = true
    · exact .same (by simp [step, hcursor, hcancel, report_shownAt h])
    have hover (level : Nat) :
        Options.overrun? { o with level := level } s.steps = o.overrun? s.steps := rfl
    cases hlimit : o.overrun? s.steps with
    | some limit => exact .same (by simp [step, hcursor, hcancel, hover, hlimit, failure_shownAt h])
    | none =>
      rcases Image.performLine_shownAt h p line s.workspace with
        hline | ⟨c, target, ht, hlong, hhigh, hlow⟩
      · apply StepsAlike.same
        rcases hp : (Image.ofProgram p).performLine e line s.workspace with ⟨c, fault | move⟩
        · rw [hp] at hline
          simp [step, hcursor, hcancel, hover, hlimit, hline, hp, failure_shownAt h]
        · rw [hp] at hline
          simp [step, hcursor, hcancel, hover, hlimit, hline, hp, Progress.shownAt, RunState.shownAt]
      -- the lower level has not told the jump and is at a line that cannot be announced
      · have hnext : (Image.ofProgram p).next? line (.goTo target) = some target :=
          if_pos (LineOrder.contains_iff.2 ht)
        refine .early (c := c) (u := ⟨some target, s.steps + 1, c.shownAt d⟩) ?_ ?_ rfl ?_
        · simp [step, hcursor, hcancel, hover, hlimit, hhigh, failure, Fault.kind?]
        · simp [step, hcursor, hcancel, hover, hlimit, hlow, hnext]
        · exact step_long rfl hlong (Program.mem_numbers_iff.1 ht)

theorem runFrom_shownAt (h : d ≤ e) (p : Program) (o : Options) (rounds : Nat) (s : RunState) :
    let low (rounds : Nat) := runFrom (.ofProgram p) { o with level := d } rounds (s.shownAt d)
    let high := runFrom (.ofProgram p) { o with level := e } rounds s
    low rounds = high.map (fun x => (x.1.shownAt d, x.2)) ∨
    ∃ c, low rounds = none ∧ high = some (c, .escaped .longNumber) ∧
      low (rounds + 1) = some (c.shownAt d, .escaped .longNumber) := by
  intro low high
  induction rounds generalizing s with
  | zero => exact .inl rfl
  | succ rounds ih =>
    cases step_shownAt h p o s with
    | same hsame =>
      cases hstep : step (.ofProgram p) { o with level := e } s with
      | running u =>
        rw [hstep] at hsame
        simp only [low, high, runFrom_running hstep, runFrom_running hsame]
        exact ih u
      | ended c outcome =>
        rw [hstep] at hsame
        simp only [low, high, runFrom_ended hstep, runFrom_ended hsame]
        exact .inl rfl
    | early hhigh hlow _ hend =>
      simp only [low, high, runFrom_ended hhigh, runFrom_running hlow]
      cases rounds with
      | zero => exact .inr ⟨_, rfl, rfl, runFrom_ended hend 0⟩
      | succ rounds => exact .inl (runFrom_ended hend rounds)

theorem Runs.shownAt (h : d ≤ e) {n : Nat} {s u : RunState}
    (hruns : Runs (.ofProgram p) { o with level := e } s n u) :
    Runs (.ofProgram p) { o with level := d } (s.shownAt d) n (u.shownAt d) := by
  induction hruns with
  | refl s => exact .refl _
  | @next s u _ _ hs _ ih =>
    cases step_shownAt h p o s with
    | same hsame => exact .next (by rw [hsame, hs]; rfl) ih
    | early hhigh _ _ _ => cases hs.symm.trans hhigh

theorem Runs.of_shownAt (h : d ≤ e) {n : Nat} {s v : RunState}
    (hruns : Runs (.ofProgram p) { o with level := d } (s.shownAt d) n v) :
    (∃ u, Runs (.ofProgram p) { o with level := e } s n u ∧ v = u.shownAt d) ∨
    ∃ c, NumberedBasic.runFrom (.ofProgram p) { o with level := e } n s = some (c, .escaped .longNumber) ∧
      v.workspace = c.shownAt d ∧
      step (.ofProgram p) { o with level := d } v = .ended v.workspace (.escaped .longNumber) := by
  induction n generalizing s with
  | zero =>
    cases hruns
    exact .inl ⟨s, .refl s, rfl⟩
  | succ n ih =>
    obtain _ | ⟨hs, tail⟩ := hruns
    cases step_shownAt h p o s with
    | same hsame =>
      rw [hs] at hsame
      cases hstep : step (.ofProgram p) { o with level := e } s with
      | running w =>
        rw [hstep] at hsame
        cases hsame
        rcases ih tail with ⟨u, hu, hv⟩ | ⟨c, hrun, hv, hend⟩
        · exact .inl ⟨u, .next hstep hu, hv⟩
        · exact .inr ⟨c, (runFrom_running hstep n).trans hrun, hv, hend⟩
      | ended c outcome =>
        rw [hstep] at hsame
        cases hsame
    | early hhigh hlow hu hend =>
      -- the lower level has no second round after it
      cases hs.symm.trans hlow
      cases tail with
      | refl _ => exact .inr ⟨_, runFrom_ended hhigh 0, hu, hu ▸ hend⟩
      | next hnext _ => cases hend.symm.trans hnext


theorem startState_shownAt (h : d ≤ e) (image : Image) (o : Options)
    (replies : List (Option String)) : startState image { o with level := d } replies =
      (startState image { o with level := e } replies).shownAt d := by
  have hblank : ({ replies } : Workspace).shownAt d = { replies } := rfl
  simp [startState, RunState.shownAt, Workspace.shownAt_record h, hblank]

end Levels

structure Workspace.TracesLess (c c' : Workspace) : Prop where
  output : c.output = c'.output
  store : c.store = c'.store
  reads : c.reads = c'.reads
  messages : c.messages.Sublist c'.messages

theorem Workspace.tracesLess_shownAt (c : Workspace) (d : Nat) : (c.shownAt d).TracesLess c :=
  ⟨rfl, rfl, rfl, c.messages_shownAt d⟩

/-- The level of the trace changes nothing in a run, and a higher level only adds messages. A run
that goes on for ever is compared after each number of rounds. A run that escapes from a number with
too many digits may do so a round earlier at the higher level. -/
theorem tracing_never_interferes (p : Program) (o : Options) (replies : List (Option String))
    (d e : Int) (h : d ≤ e) :
    (∀ rounds,
      (run rounds p (o.atLevel d) replies = none ∧ run rounds p (o.atLevel e) replies = none) ∨
      (∃ c c' outcome, run rounds p (o.atLevel d) replies = some (c, outcome) ∧
        run rounds p (o.atLevel e) replies = some (c', outcome) ∧ c.TracesLess c') ∨
      ∃ c c', run rounds p (o.atLevel d) replies = none ∧
        run (rounds + 1) p (o.atLevel d) replies = some (c, .escaped .longNumber) ∧
        run rounds p (o.atLevel e) replies = some (c', .escaped .longNumber) ∧ c.TracesLess c') ∧
    let image := Image.ofProgram p
    ∀ n, (∀ s, Runs image (o.atLevel d) (startState image (o.atLevel d) replies) n s →
        (∃ u, Runs image (o.atLevel e) (startState image (o.atLevel e) replies) n u ∧
          s.cursor = u.cursor ∧ s.workspace.TracesLess u.workspace) ∨
        ∃ c', run n p (o.atLevel e) replies = some (c', .escaped .longNumber) ∧
          step image (o.atLevel d) s = .ended s.workspace (.escaped .longNumber) ∧
          s.workspace.TracesLess c') ∧
      (∀ u, Runs image (o.atLevel e) (startState image (o.atLevel e) replies) n u →
        ∃ s, Runs image (o.atLevel d) (startState image (o.atLevel d) replies) n s ∧
          s.cursor = u.cursor ∧ s.workspace.TracesLess u.workspace) := by
  have hlevels : d.toNat ≤ e.toNat := Int.toNat_le_toNat h
  have hstart : startState (.ofProgram p) (o.atLevel d) replies =
      (startState (.ofProgram p) (o.atLevel e) replies).shownAt d.toNat :=
    startState_shownAt hlevels (.ofProgram p) o replies
  refine ⟨?_, fun n => ⟨?_, ?_⟩⟩
  · intro rounds
    have hrun := runFrom_shownAt hlevels p o rounds (startState (.ofProgram p) (o.atLevel e) replies)
    rw [← hstart] at hrun
    rcases hrun with hsame | ⟨c, hnone, hhigh, hlow⟩
    · change run rounds p (o.atLevel d) replies =
        (run rounds p (o.atLevel e) replies).map _ at hsame
      rw [hsame]
      cases run rounds p (o.atLevel e) replies with
      | none => exact .inl ⟨rfl, rfl⟩
      | some x => exact .inr (.inl ⟨_, x.1, x.2, rfl, rfl, x.1.tracesLess_shownAt _⟩)
    · exact .inr (.inr ⟨_, c, hnone, hlow, hhigh, c.tracesLess_shownAt _⟩)
  · intro s hs
    rw [hstart] at hs
    rcases Runs.of_shownAt hlevels hs with ⟨u, hu, rfl⟩ | ⟨c, hhigh, hc, hend⟩
    · exact .inl ⟨u, hu, rfl, u.workspace.tracesLess_shownAt _⟩
    · exact .inr ⟨c, hhigh, hend, hc ▸ c.tracesLess_shownAt _⟩
  · intro u hu
    rw [hstart]
    exact ⟨_, Runs.shownAt hlevels hu, rfl, u.workspace.tracesLess_shownAt _⟩

def talkative : Program := .ofLines
  [(10, "A = 2"), (20, "WHILE A > 1"), (30, "A = A - 1"), (40, "WEND"), (50, "IF A = 1 THEN 70"),
    (60, "PRINT A"), (70, "GOTO 90")]

theorem talkative_traced : ∃ c c' outcome,
    run 9 talkative (({} : Options).atLevel 1) [] = some (c, outcome) ∧
    run 9 talkative (({} : Options).atLevel 3) [] = some (c', outcome) ∧
    c.messages.length = 9 ∧ c'.messages.length = 20 ∧ c.messages.Sublist c'.messages := by
  have hlow : (run 9 talkative (({} : Options).atLevel 1) []).map (fun x => x.1.messages.length) =
      some 9 := by decide +kernel
  have hhigh : (run 9 talkative (({} : Options).atLevel 3) []).map (fun x => x.1.messages.length) =
      some 20 := by decide +kernel
  rcases (tracing_never_interferes talkative {} [] 1 3 (by decide)).1 9 with
    ⟨hnone, -⟩ | ⟨c, c', outcome, hc, hc', hless⟩ | ⟨-, -, hnone, -⟩
  · rw [hnone] at hlow
    cases hlow
  · rw [hc] at hlow
    rw [hc'] at hhigh
    exact ⟨c, c', outcome, hc, hc', Option.some.inj hlow, Option.some.inj hhigh, hless.messages⟩
  · rw [hnone] at hlow
    cases hlow

end NumberedBasic
