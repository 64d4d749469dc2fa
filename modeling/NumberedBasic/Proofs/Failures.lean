import NumberedBasic.Proofs.LoopEnds
import NumberedBasic.Proofs.Symbols

set_option autoImplicit false

/-!
# What a line does, and where it fails

`performLine_performs` says of a line what `Performs` says of its statement. A line fails because its
statement cannot be had, because the statement fails, or because what it did cannot be told:
`performLine_error_iff`. The faults of a line of a program are those of `Fault.ofLine`.

A program is writable if none of its line numbers has too many digits. All that its lines do can be
told.
-/
namespace NumberedBasic

theorem Statement.ofLine_error {text : String} {fault : Fault}
    (h : Statement.ofLine text = .error fault) :
    (∃ e, fault = .lex e) ∨ ∃ e, fault = .parse e := by
  unfold Statement.ofLine at h
  split at h
  · rename_i e _
    cases h
    exact .inl ⟨e, rfl⟩
  split at h
  · rename_i e _
    cases h
    exact .inr ⟨e, rfl⟩
  · cases h

theorem Statement.isLong_of_mem_whole {s : Statement Float} {t : Int} (h : t ∈ s.whole.targets) :
    Text.isLong t = false := by
  cases s with
  | branch condition target otherwise =>
    cases otherwise with
    | none =>
      rw [List.mem_singleton.1 h]
      exact Double.isLong_integer? target
    | some other =>
      rcases List.mem_pair.1 h with rfl | rfl
      · exact Double.isLong_integer? target
      · exact Double.isLong_integer? other
  | goto target =>
    rw [List.mem_singleton.1 h]
    exact Double.isLong_integer? target
  | _ => cases h

/-- A target is read as a double, and the digits of doubles are few. -/
theorem Statement.isLong_of_mem_targets {text : String} {s : Statement Int} {t : Int}
    (h : Statement.ofLine text = .ok s) (ht : t ∈ s.targets) : Text.isLong t = false := by
  obtain ⟨ts, -, hs⟩ := (ofLine_eq_ok_iff text s).1 h
  obtain ⟨tree, -, -, rfl⟩ := (ofTokens_eq_ok_iff ts s).1 hs
  exact isLong_of_mem_whole ht

theorem Fault.kind?_of_raised {cause : Fault} {kind : Fault.Kind}
    (h : cause.raised.kind? = some kind) : cause.kind? = some kind := by
  rcases cause.raised_cases with hr | hr
  · rwa [hr] at h
  · rw [hr] at h
    cases h

theorem Fault.ofLine_raised {cause : Fault} (h : cause.ofLine = true) : cause.raised.ofLine = true := by
  rcases cause.raised_cases with hr | hr
  · rw [hr, h]
  · rw [hr]
    rfl

namespace Image

theorem Performs.branch_eq {image : Image} {line : Int} {c d : Workspace}
    {r : Except Fault (Move × Option Event)} {condition : Condition} {target : Int}
    {otherwise : Option Int} {truth : Bool}
    (hp : image.Performs line c (.branch condition target otherwise) d r)
    (h : condition.eval c.store = .ok truth) :
    r = .ok (branchMove truth target otherwise, some (.decided truth)) := by
  cases hp with
  | branch h' =>
    cases h.symm.trans h'
    rfl
  | branchFails h' => cases h.symm.trans h'

theorem performLine_performs {image : Image} {level : Nat} {line : Int} {c d : Workspace}
    {r : Except Fault Move} (hc : Cached image c) (h : image.performLine level line c = (d, r))
    {statement : Statement Int} (hs : image.readAt line = .ok statement) :
    ∃ result, image.Performs line c.bare statement d.bare result ∧ toldMove level result = r := by
  have hline := performLine_bare hc level line
  simp only [h, execute, hs, Prod.mk.injEq] at hline
  obtain ⟨hd, hr⟩ := hline
  have hperforms := image.perform_performs line statement c.bare
  rw [← hd] at hperforms
  exact ⟨_, hperforms, hr.symm⟩

/-- The statement fails, or what it did cannot be told. -/
def Fails (image : Image) (level : Nat) (line : Int) (c : Workspace) (statement : Statement Int)
    (fault : Fault) : Prop :=
  ∃ d result, image.Performs line c statement d result ∧ toldMove level result = .error fault

theorem statementAt_targets {image : Image} {line : Int} {statement : Statement Int} {t : Int}
    (h : image.statementAt line = .ok statement) (ht : t ∈ statement.targets) :
    Text.isLong t = false := by
  unfold statementAt at h
  split at h
  · cases h
  · exact Statement.isLong_of_mem_targets h ht

theorem readAt_kind {image : Image} {line : Int} {fault : Fault}
    (h : image.readAt line = .error fault) : fault.kind? ≠ some .unmatchedLoop := by
  unfold readAt at h
  split at h
  · cases h
    exact nofun
  split at h
  · cases h
    exact nofun
  · rcases Statement.ofLine_error h with ⟨e, rfl⟩ | ⟨e, rfl⟩ <;> exact nofun

theorem performLine_error_iff {image : Image} {c : Workspace} (hc : Cached image c) (level : Nat)
    (line : Int) (fault : Fault) : (image.performLine level line c).2 = .error fault ↔
      image.readAt line = .error fault ∨
        ∃ statement, image.readAt line = .ok statement ∧ image.Fails level line c statement fault := by
  have hline := congrArg Prod.snd (performLine_bare hc level line)
  simp only at hline
  rw [hline, execute]
  cases hs : image.readAt line with
  | error e => simp
  | ok statement =>
    simp only [perform_bare, reduceCtorEq, false_or, Except.ok.injEq, exists_eq_left']
    constructor
    · exact fun h => ⟨_, _, image.perform_performs line statement c, h⟩
    · rintro ⟨d, result, hperforms, h⟩
      rw [hperforms.perform_eq]
      exact h

theorem performLine_ok {image : Image} {level : Nat} {line : Int} {c d : Workspace} {move : Move}
    (hc : Cached image c) (h : image.performLine level line c = (d, .ok move)) :
    ∃ statement event?, image.readAt line = .ok statement ∧
      image.Performs line c.bare statement d.bare (.ok (move, event?)) := by
  cases hs : image.readAt line with
  | error fault =>
    have hfault := (performLine_error_iff hc level line fault).2 (.inl hs)
    rw [h] at hfault
    cases hfault
  | ok statement =>
    obtain ⟨result, hperforms, hresult⟩ := performLine_performs hc h hs
    obtain ⟨event?, rfl, -⟩ := toldMove_eq_ok_iff.1 hresult
    exact ⟨statement, event?, rfl, hperforms⟩

/-- Only a loop head without an end and an end outside of all loops are unmatched. -/
theorem performLine_unmatched {image : Image} {level : Nat} {line : Int} {c : Workspace}
    {fault : Fault} (hc : Cached image c) (h : (image.performLine level line c).2 = .error fault)
    (hk : fault.kind? = some .unmatchedLoop) :
    (image.statementAt line = .ok .endLoop ∧ c.loops = []) ∨
      ∃ guard, image.statementAt line = .ok (.loop guard) ∧
        image.leaveLoop line = .error fault := by
  rcases (performLine_error_iff hc level line fault).1 h with hs | ⟨statement, hs, d, result, hp, hr⟩
  · exact absurd hk (readAt_kind hs)
  have hs := (readAt_eq_ok_iff.1 hs).1
  rcases toldMove_eq_error_iff.1 hr with rfl | ⟨rfl, -⟩
  · cases hp with
    | assignFails he => exact absurd hk (Fault.kind?_ofEvaluation (Expr.eval_fault he))
    | branchFails he | guardFails he =>
      exact absurd hk (Fault.kind?_ofEvaluation (Condition.eval_fault he))
    | leaveFails _ hleave => exact .inr ⟨_, hs, hleave⟩
    | backFails hloops => exact .inl ⟨hs, hloops⟩
    | inputFails _ => cases hk
    | gotoFails _ => cases Fault.kind?_of_raised hk
  · cases hk

end Image

namespace Program

variable {p : Program} {line : Int} {fault : Fault}

theorem readAt_ofLine (h : (Image.ofProgram p).readAt line = .error fault) (hl : line ∈ p.numbers) :
    fault.ofLine = true ∧ (fault.kind? = none → fault = .longNumber ∧ Text.isLong line = true) := by
  obtain ⟨text, ht⟩ := Option.isSome_iff_exists.1 (mem_numbers_iff.1 hl)
  change (Image.ofProgram p).program.text? line = some text at ht
  simp only [Image.readAt, ht] at h
  split at h
  · rename_i hlong
    cases h
    exact ⟨rfl, fun _ => ⟨rfl, hlong⟩⟩
  · rcases Statement.ofLine_error h with ⟨e, rfl⟩ | ⟨e, rfl⟩
    · refine ⟨rfl, fun hk => ?_⟩
      cases hk
    · refine ⟨rfl, fun hk => ?_⟩
      cases hk

theorem leaveLoop_eq_error_iff : (Image.ofProgram p).leaveLoop line = .error fault ↔
    p.loopEnd? line = none ∧ fault = (Fault.unclosedLoop line).raised := by
  rw [Image.leaveLoop, loopEnd_eq, ← loopEnd?_eq]
  cases p.loopEnd? line with
  | none => simp [eq_comm]
  | some n =>
    simp only [Option.elim_some]
    split <;> simp

theorem fails_ofLine {level : Nat} {statement : Statement Int} {c : Workspace}
    (h : (Image.ofProgram p).Fails level line c statement fault)
    (hs : (Image.ofProgram p).statementAt line = .ok statement) : fault.ofLine = true := by
  have hk : statement.known = true := by
    unfold Image.statementAt at hs
    split at hs
    · cases hs
    · exact Statement.ofLine_known hs
  obtain ⟨d, result, h, hr⟩ := h
  rcases Image.toldMove_eq_error_iff.1 hr with rfl | ⟨rfl, -⟩
  · cases h with
    | assignFails h => exact Expr.eval_ofLine h hk
    | branchFails h | guardFails h => exact Condition.eval_ofLine h hk
    | leaveFails _ h =>
      rw [(leaveLoop_eq_error_iff.1 h).2]
      exact Fault.ofLine_raised rfl
    | inputFails _ => rfl
    | gotoFails _ | backFails _ => exact Fault.ofLine_raised rfl
  · rfl

theorem performLine_ofLine {level : Nat} {c : Workspace} (hc : Cached (.ofProgram p) c)
    (hl : line ∈ p.numbers)
    (h : ((Image.ofProgram p).performLine level line c).2 = .error fault) : fault.ofLine = true := by
  rcases (Image.performLine_error_iff hc level line fault).1 h with h | ⟨statement, hs, h⟩
  · exact (readAt_ofLine h hl).1
  · exact fails_ofLine h (Image.readAt_eq_ok_iff.1 hs).1

def Writable (p : Program) : Prop := ∀ n ∈ p.numbers, Text.isLong n = false

theorem leaveLoop_target_mem {target : Int}
    (h : (Image.ofProgram p).leaveLoop line = .ok (.goTo target)) : target ∈ p.numbers := by
  unfold Image.leaveLoop at h
  split at h
  · cases h
  split at h
  · rename_i hnext
    cases h
    rw [← Image.ofProgram_numbers]
    exact (LineOrder.next?_eq_some_iff.1 hnext).1
  · cases h

/-- An event that cannot be told is the jump to a line whose number cannot be told either. -/
theorem long_event {c d : Workspace} {statement : Statement Int} {move : Move} {event : Event}
    (h : (Image.ofProgram p).Performs line c statement d (.ok (move, some event)))
    (hline : Text.isLong line = false) (hlong : event.isLong = true) :
    ∃ target ∈ p.numbers, move = .goTo target ∧ Text.isLong target = true := by
  cases h with
  | assign _ | branch _ => cases hlong
  | @goto target ht => exact ⟨target, ht, rfl, hlong⟩
  | enter _ => simp [Event.isLong, Move.isLong, hline] at hlong
  | leave _ hmove =>
    cases move with
    | next | halt => simp [Event.isLong, Move.isLong, hline] at hlong
    | goTo target =>
      simp only [Event.isLong, Move.isLong, hline, Bool.false_or] at hlong
      exact ⟨target, leaveLoop_target_mem hmove, rfl, hlong⟩

theorem Writable.event_short (hp : p.Writable) (hline : line ∈ p.numbers) {c d : Workspace}
    {statement : Statement Int} {move : Move} {event : Event}
    (h : (Image.ofProgram p).Performs line c statement d (.ok (move, some event))) :
    event.isLong = false := by
  by_contra hlong
  obtain ⟨target, ht, -, htarget⟩ := long_event h (hp line hline) (by simpa using hlong)
  rw [hp target ht] at htarget
  cases htarget

theorem Writable.toldMove_eq (hp : p.Writable) (hline : line ∈ p.numbers) {c d : Workspace}
    {statement : Statement Int} {result : Except Fault (Move × Option Event)}
    (h : (Image.ofProgram p).Performs line c statement d result) (level : Nat) :
    Image.toldMove level result = result.map Prod.fst := by
  obtain fault | ⟨move, _ | event⟩ := result
  · rfl
  · rfl
  · exact Image.toldMove_of_short level (hp.event_short hline h)

end Program

end NumberedBasic
