import NumberedBasic.Proofs.Failures

set_option autoImplicit false

/-!
# Where a line leads

`Flows` says once, for every kind of statement, which move a line makes and which loops are open
after it. What holds of the cursor and the open loops along a run is derived from `step_flows`.
-/
namespace NumberedBasic

namespace Image

/-- The move of a statement that does not fail, and the loops that are open after it. -/
inductive Flows (image : Image) (line : Int) (store : Store) (loops : List Int) :
    Statement Int → Move → List Int → Prop where
  | plain {statement : Statement Int} (hw : statement.keyword? ≠ some .WHILE)
      (he : statement.keyword? ≠ some .WEND) : Flows image line store loops statement .next loops
  | jump {statement : Statement Int} {target : Int} (h : target ∈ statement.targets) :
      Flows image line store loops statement (.goTo target) loops
  | enter {guard : Condition} (h : guard.eval store = .ok true) :
      Flows image line store loops (.loop guard) .next (loopsAfter line true loops)
  | leave {guard : Condition} {move : Move} (h : guard.eval store = .ok false)
      (hmove : image.leaveLoop line = .ok move) :
      Flows image line store loops (.loop guard) move (loopsAfter line false loops)
  | back {head : Int} {outer : List Int} (h : loops = head :: outer) :
      Flows image line store loops .endLoop (.goTo head) loops
  | stop : Flows image line store loops .stop .halt loops

theorem Performs.flows {image : Image} {line : Int} {statement : Statement Int} {c d : Workspace}
    {move : Move} {event? : Option Event}
    (h : image.Performs line c statement d (.ok (move, event?))) :
    image.Flows line c.store c.loops statement move d.loops := by
  cases h with
  | @assign _ _ explicit _ _ =>
    cases explicit <;> exact .plain (by simp [Statement.keyword?]) (by simp [Statement.keyword?])
  | print _ | input _ | remark _ =>
    exact .plain (by simp [Statement.keyword?]) (by simp [Statement.keyword?])
  | @branch _ target otherwise truth _ =>
    cases truth with
    | true => cases otherwise <;> exact .jump (by simp [Statement.targets])
    | false =>
      cases otherwise with
      | none => exact .plain (by simp [Statement.keyword?]) (by simp [Statement.keyword?])
      | some other => exact .jump (by simp [Statement.targets])
  | goto _ => exact .jump (by simp [Statement.targets])
  | enter htruth => exact .enter htruth
  | leave htruth hmove => exact .leave htruth hmove
  | back hloops => exact .back hloops
  | stop => exact .stop

theorem performLine_endLoop {image : Image} {level : Nat} {line : Int} {c : Workspace}
    (hc : Cached image c) (hs : image.statementAt line = .ok .endLoop) :
    (image.performLine level line c).2 =
      if Text.isLong line then .error .longNumber else tailMove line c.loops := by
  have h := congrArg Prod.snd (performLine_bare hc level line)
  simp only at h
  by_cases hlong : Text.isLong line = true
  · have htext : (image.program.text? line).isSome := by
      unfold statementAt at hs
      split at hs
      · cases hs
      · rename_i text ht
        simp [ht]
    rw [performLine_of_long hlong htext, if_pos hlong]
  · rw [h, execute, image.readAt_of_short (Bool.not_eq_true _ ▸ hlong), hs, if_neg hlong]
    cases hl : c.loops <;> simp [perform, hl, tailMove, Except.map, toldMove]

end Image

theorem Program.leaveLoop_eq_ok {p : Program} {w e : Int} (he : p.loopEnd? w = some e) :
    ∃ move, (Image.ofProgram p).leaveLoop w = .ok move ∧
      ∀ c, (Image.ofProgram p).next? c move = (Image.ofProgram p).order.next? e := by
  cases hn : (Image.ofProgram p).order.next? e with
  | none => exact ⟨.halt, by simp [Image.leaveLoop, loopEnd_of_some he, hn], fun _ => rfl⟩
  | some behind =>
    have hin : behind ∈ (Image.ofProgram p).order.numbers := (LineOrder.next?_eq_some_iff.1 hn).1
    exact ⟨.goTo behind, by simp [Image.leaveLoop, loopEnd_of_some he, hn],
      fun _ => if_pos (LineOrder.contains_iff.2 hin)⟩

theorem step_flows {image : Image} {o : Options} {s u : RunState} (hc : Cached image s.workspace)
    (h : step image o s = .running u) : ∃ (line : Int) (statement : Statement Int) (move : Move),
      s.cursor = some line ∧ image.statementAt line = .ok statement ∧
      image.Flows line s.workspace.store s.workspace.loops statement move u.workspace.loops ∧
      u.cursor = image.next? line move := by
  obtain ⟨line, move, hline, hp, hcursor, -⟩ := step_running h
  obtain ⟨statement, event?, hs, hperforms⟩ := Image.performLine_ok hc hp
  have hflows := hperforms.flows
  rw [Workspace.bare_store, Workspace.bare_loops, Workspace.bare_loops] at hflows
  exact ⟨line, statement, move, hline, (Image.readAt_eq_ok_iff.1 hs).1, hflows, hcursor⟩

theorem step_endLoop {image : Image} {o : Options} {s u : RunState} {c : Int}
    (hc : Cached image s.workspace) (hcursor : s.cursor = some c)
    (hs : image.statementAt c = .ok .endLoop) (h : step image o s = .running u) :
    ∃ (w : Int) (outer : List Int), s.workspace.loops = w :: outer ∧
      u.workspace.loops = s.workspace.loops ∧ u.cursor = image.next? c (.goTo w) := by
  obtain ⟨line, statement, move, hline, hst, hflows, hnext⟩ := step_flows hc h
  cases hline.symm.trans hcursor
  cases hst.symm.trans hs
  generalize hloops' : u.workspace.loops = loops' at hflows ⊢
  cases hflows with
  | plain _ he => exact absurd rfl he
  | jump ht => cases ht
  | @back head outer hloops => exact ⟨head, outer, hloops, rfl, hnext⟩

end NumberedBasic
