import NumberedBasic.Proofs.Flow

set_option autoImplicit false

/-!
# Loop ends of any program

Jumps leave the open loops alone, so in a program that jumps into loops and out of them the innermost
open loop need not be around the cursor. A loop end looks at nothing but that loop: it goes to a head
that was entered and not left by its guard since, whether or not the end belongs to it.
-/
namespace NumberedBasic

theorem Image.Flows.suffix_or_push {image : Image} {line : Int} {store : Store}
    {loops loops' : List Int} {statement : Statement Int} {move : Move}
    (h : image.Flows line store loops statement move loops') :
    loops' <:+ loops ∨ ∃ guard, statement = .loop guard ∧ guard.eval store = .ok true ∧
      loops' = line :: loops := by
  cases h with
  | plain _ _ | jump _ | back _ | stop => exact .inl (List.suffix_refl loops)
  | @enter guard hguard =>
    by_cases htop : loops.head? = some line
    · exact .inl (by simp [loopsAfter, htop])
    · exact .inr ⟨guard, rfl, hguard, by simp [loopsAfter, htop]⟩
  | leave _ _ =>
    by_cases htop : loops.head? = some line
    · exact .inl (by simpa [loopsAfter, htop] using List.tail_suffix loops)
    · exact .inl (by simp [loopsAfter, htop])

/-- The run has been at the head `w` with a true guard, inside the loops `outer`, and neither this
loop nor one of those has been left by its guard since then. -/
inductive OpenSince (p : Program) (o : Options) (replies : List (Option String)) (w : Int)
    (outer : List Int) : RunState → Prop where
  | enter {s u : RunState} {guard : Condition} (hs : Reachable p o replies s)
      (hc : s.cursor = some w) (hhead : (Image.ofProgram p).statementAt w = .ok (.loop guard))
      (hguard : guard.eval s.workspace.store = .ok true)
      (hu : step (.ofProgram p) o s = .running u) (hloops : u.workspace.loops = w :: outer) :
      OpenSince p o replies w outer u
  | keep {s u : RunState} (h : OpenSince p o replies w outer s)
      (hu : step (.ofProgram p) o s = .running u) (hloops : w :: outer <:+ u.workspace.loops) :
      OpenSince p o replies w outer u

theorem OpenSince.statementAt {p : Program} {o : Options} {replies : List (Option String)} {w : Int}
    {outer : List Int} {s : RunState} (h : OpenSince p o replies w outer s) :
    ∃ guard, (Image.ofProgram p).statementAt w = .ok (.loop guard) := by
  induction h with
  | @enter _ _ guard _ _ hhead _ _ _ => exact ⟨guard, hhead⟩
  | keep _ _ _ ih => exact ih

theorem OpenSince.keywordAt {p : Program} {o : Options} {replies : List (Option String)} {w : Int}
    {outer : List Int} {s : RunState} (h : OpenSince p o replies w outer s) :
    p.keywordAt w = some .WHILE := by
  obtain ⟨guard, hhead⟩ := h.statementAt
  exact Program.keywordAt_of_statementAt hhead

theorem openSince_of_suffix {p : Program} {o : Options} {replies : List (Option String)}
    {s : RunState} (h : Reachable p o replies s) {w : Int} {outer : List Int}
    (hloops : w :: outer <:+ s.workspace.loops) : OpenSince p o replies w outer s := by
  have hrun := h.invariant (fun s => ∀ (w : Int) (outer : List Int),
    w :: outer <:+ s.workspace.loops → OpenSince p o replies w outer s) ?_ ?_
  · exact hrun w outer hloops
  · intro w outer hstart
    simp [startState] at hstart
  · intro s u hs ih hu w outer hsuffix
    obtain ⟨line, statement, move, hline, hst, hflows, -⟩ := step_flows hs.cached hu
    rcases hflows.suffix_or_push with hshrink | ⟨guard, rfl, hguard, hpush⟩
    · exact .keep (ih w outer (hsuffix.trans hshrink)) hu hsuffix
    · rw [hpush] at hsuffix
      rcases List.suffix_cons_iff.1 hsuffix with heq | hold
      · cases heq
        exact .enter hs hline hst hguard hu hpush
      · exact .keep (ih w outer hold) hu (hpush ▸ hsuffix)

theorem Reachable.loop_heads {p : Program} {o : Options} {replies : List (Option String)}
    {s : RunState} (h : Reachable p o replies s) {n : Int} (hn : n ∈ s.workspace.loops) :
    ∃ guard, (Image.ofProgram p).statementAt n = .ok (.loop guard) := by
  obtain ⟨inner, outer, hloops⟩ := List.append_of_mem hn
  exact (openSince_of_suffix h ⟨inner, hloops.symm⟩).statementAt

theorem Reachable.loops_mem {p : Program} {o : Options} {replies : List (Option String)}
    {s : RunState} (h : Reachable p o replies s) : ∀ n ∈ s.workspace.loops, n ∈ p.numbers := by
  intro n hn
  obtain ⟨guard, hhead⟩ := h.loop_heads hn
  exact Program.mem_numbers_of_statementAt hhead

/-- A loop end that can be announced fails just if no loop is open. If it does not, it goes to the
head of the innermost open loop, and this is the right head just if the loop has this end. -/
theorem loop_end_returns_to_innermost (p : Program) (o : Options) (replies : List (Option String))
    (s : RunState) (c : Int) (hs : Reachable p o replies s) (hc : s.cursor = some c)
    (hend : (Image.ofProgram p).statementAt c = .ok .endLoop) :
    (∀ fault, ((Image.ofProgram p).performLine o.level c s.workspace).2 = .error fault ↔
      if Text.isLong c then fault = .longNumber
      else fault = .unopenedLoop c ∧ s.workspace.loops = []) ∧
      ∀ u, step (.ofProgram p) o s = .running u →
        ∃ (w : Int) (outer : List Int), u.cursor = some w ∧ p.keywordAt w = some .WHILE ∧
          s.workspace.loops = w :: outer ∧ u.workspace.loops = w :: outer ∧
          OpenSince p o replies w outer s ∧
          ((∃ v, u.cursor = some v ∧ p.keywordAt v = some .WHILE ∧ p.loopEnd? v = some c) ↔
            p.loopEnd? w = some c) := by
  constructor
  · intro fault
    rw [Image.performLine_endLoop hs.cached hend]
    by_cases hlong : Text.isLong c = true
    · rw [if_pos hlong, if_pos hlong, Except.error.injEq, eq_comm]
    · rw [if_neg hlong, if_neg hlong]
      cases s.workspace.loops with
      | nil =>
        rw [Image.tailMove, Fault.raised_of_short rfl (Bool.not_eq_true _ ▸ hlong)]
        simp [eq_comm]
      | cons w outer => simp [Image.tailMove]
  · intro u hu
    obtain ⟨w, outer, hloops, hkeep, hcursor⟩ := step_endLoop hs.cached hc hend hu
    have hopen : OpenSince p o replies w outer s :=
      openSince_of_suffix hs (hloops ▸ List.suffix_refl _)
    have hw := hopen.keywordAt
    have hin : u.cursor = some w := by
      rw [hcursor]
      simpa [Image.next?] using Program.mem_numbers_of_keywordAt hw
    refine ⟨w, outer, hin, hw, hloops, hkeep.trans hloops, hopen, ?_, fun h => ⟨w, hin, hw, h⟩⟩
    rintro ⟨v, hv, -, he⟩
    cases hin.symm.trans hv
    exact he

def strayEnd : Program := .ofLines
  [(10, "WHILE 1 = 1"), (20, "GOTO 40"), (30, "WEND"), (40, "WEND")]

theorem strayEnd_state : ∃ s u, Reachable strayEnd {} [] s ∧ s.cursor = some 40 ∧
    (Image.ofProgram strayEnd).statementAt 40 = .ok .endLoop ∧
    step (.ofProgram strayEnd) {} s = .running u ∧ u.cursor = some 10 := by
  have hend : ((Image.ofProgram strayEnd).statementAt 40).toOption = some .endLoop := by
    decide +kernel
  have hstate : ((stateAfter (.ofProgram strayEnd) {} 2
      (startState (.ofProgram strayEnd) {} [])).bind fun s =>
        (stateAfter (.ofProgram strayEnd) {} 1 s).map fun u => (s.cursor, u.cursor)) =
      some (some 40, some 10) := by decide +kernel
  obtain ⟨s, hs, hnext⟩ := Option.bind_eq_some_iff.1 hstate
  obtain ⟨u, hu, hpair⟩ := Option.map_eq_some_iff.1 hnext
  obtain ⟨hcursor, hback⟩ := Prod.mk.inj hpair
  have hstep : step (.ofProgram strayEnd) {} s = .running u := by
    cases runs_of_stateAfter hu with
    | next h tail =>
      cases tail
      exact h
  exact ⟨s, u, ⟨2, runs_of_stateAfter hs⟩, hcursor, eq_ok_of_toOption hend, hstep, hback⟩

theorem strayEnd_returns : ∃ s u, Reachable strayEnd {} [] s ∧ s.cursor = some 40 ∧
    step (.ofProgram strayEnd) {} s = .running u ∧ u.cursor = some 10 ∧
    ∃ outer, OpenSince strayEnd {} [] 10 outer s := by
  obtain ⟨s, u, hs, hcursor, hend, hu, hback⟩ := strayEnd_state
  obtain ⟨w, outer, hw, -, -, -, hopen, -⟩ :=
    (loop_end_returns_to_innermost strayEnd {} [] s 40 hs hcursor hend).2 u hu
  cases hw.symm.trans hback
  exact ⟨s, u, hs, hcursor, hu, hback, outer, hopen⟩

/-- A loop end that belongs to no loop need not fail. -/
theorem strayEnd_belongs_to_no_loop : (∃ s u, Reachable strayEnd {} [] s ∧ s.cursor = some 40 ∧
      (Image.ofProgram strayEnd).statementAt 40 = .ok .endLoop ∧
      step (.ofProgram strayEnd) {} s = .running u) ∧
    ∀ w, strayEnd.keywordAt w = some .WHILE → strayEnd.loopEnd? w ≠ some 40 := by
  have hnone : ∀ w ∈ strayEnd.numbers, strayEnd.keywordAt w = some .WHILE →
      strayEnd.loopEnd? w ≠ some 40 := by decide +kernel
  obtain ⟨s, u, hs, hcursor, hend, hu, -⟩ := strayEnd_state
  exact ⟨⟨s, u, hs, hcursor, hend, hu⟩, fun w hw => hnone w (Program.mem_numbers_of_keywordAt hw) hw⟩

end NumberedBasic
