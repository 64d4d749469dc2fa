import Mathlib.Data.List.Sort
import NumberedBasic.Proofs.Completion
import NumberedBasic.Proofs.Lexemes

set_option autoImplicit false

/-!
# Remarks in runs

A program with a remark more does what it did without. The remark may be the line that a line goes
on to, the first line, or the line behind a loop. A run that comes to it there spends one round on
it, and is then where the other run is already. So the two runs are aligned before each of their
lines: the cursors are the same, or the one is at the remark and the other behind it (`Beside`). Where
the trace cannot show the line behind a loop, the remark puts off the end of the run by two rounds.
-/
namespace NumberedBasic

namespace Statement

theorem ofLine_remark {text : String} {tail : List Char}
    (htext : text.toList = "REM".toList ++ tail)
    (htail : Token.Stops (fun c => Token.IsLetter c ∨ Token.IsDigit c) tail) :
    ofLine text = .ok (.remark (String.ofList (Text.trim tail))) := by
  have hchars : "REM".toList.all Token.isWordChar = true := rfl
  have hword : Token.IsWord "REM".toList tail := by
    refine ⟨⟨'R', ['E', 'M'], rfl, (Token.isWordStart_iff 'R').1 rfl⟩, fun c hc => ?_, htail⟩
    exact (Token.isWordChar_iff c).1 (List.all_eq_true.1 hchars c hc)
  have hlexeme : Token.Lexeme "REM".toList tail (.keyword .REM) none := .keyword hword rfl
  rw [ofLine, Token.scan, htext, hlexeme.tokensFrom, if_pos rfl]
  rfl

end Statement

/-- The cursors of two runs, where the second run may have a remark still to pass. -/
def Beside (q : Program) (r : Int) (x y : Option Int) : Prop :=
  y = x ∨ (y = some r ∧ x = (Image.ofProgram q).order.next? r)

inductive Spliced (r : Int) (behind : List Int) : List Int → List Int → Prop where
  | same (ns : List Int) : Spliced r behind ns ns
  | more (front : List Int) : Spliced r behind (front ++ behind) (front ++ r :: behind)

theorem Spliced.head? {r : Int} {behind xs ys : List Int} (h : Spliced r behind xs ys) :
    ys.head? = xs.head? ∨ (ys.head? = some r ∧ xs.head? = behind.head?) := by
  cases h with
  | same => exact .inl rfl
  | more front =>
    cases front with
    | nil => exact .inr ⟨rfl, rfl⟩
    | cons n front => exact .inl rfl

/-- Both lines fail in the same way, or both go on and come to places beside each other. A line may
also go on to the remark where without it the number behind had too many digits to be told. -/
inductive ResultBeside (p q : Program) (r n : Int) :
    Except Fault Move → Except Fault Move → Prop where
  | ok {a b : Move}
      (h : Beside q r ((Image.ofProgram p).next? n a) ((Image.ofProgram q).next? n b)) :
      ResultBeside p q r n (.ok a) (.ok b)
  | error (fault : Fault) : ResultBeside p q r n (.error fault) (.error fault)
  | late {b : Move} (h : (Image.ofProgram q).next? n b = some r)
      (hlong : ((Image.ofProgram q).order.next? r).any Text.isLong = true) :
      ResultBeside p q r n (.error .longNumber) (.ok b)

/-- The program `q` is `p` with one more line, a remark that no jump of `p` leads to. -/
structure Remarked (p q : Program) (r : Int) : Prop where
  short : Text.isLong r = false
  fresh : r ∉ p.numbers
  untargeted : ∀ n a, (Image.ofProgram p).statementAt n = .ok a → r ∉ a.targets
  remark : ∃ text, (Image.ofProgram q).statementAt r = .ok (.remark text)
  others : ∀ n, n ≠ r → q.text? n = p.text? n

namespace Remarked

variable {p q : Program} {r n : Int}

section Order

theorem mem_iff (h : Remarked p q r) : n ∈ q.numbers ↔ n = r ∨ n ∈ p.numbers := by
  by_cases hn : n = r
  · obtain ⟨text, hremark⟩ := h.remark
    subst hn
    exact iff_of_true (Program.mem_numbers_of_statementAt hremark) (.inl rfl)
  · simp [Program.mem_numbers_iff, h.others n hn, hn]

theorem ne_of_mem (h : Remarked p q r) (hn : n ∈ p.numbers) : n ≠ r := by
  rintro rfl
  exact h.fresh hn

theorem numbers (h : Remarked p q r) : ∃ front behind,
    p.numbers = front ++ behind ∧ q.numbers = front ++ r :: behind := by
  obtain ⟨front, behind, hq⟩ := List.append_of_mem (h.mem_iff.2 (.inl rfl))
  have hasc := q.numbers_ascending
  rw [hq, List.pairwise_append, List.pairwise_cons] at hasc
  obtain ⟨hfront, ⟨hr, hbehind⟩, hsides⟩ := hasc
  refine ⟨front, behind, ?_, hq⟩
  apply p.numbers_ascending.eq_of_mem_iff
  · refine List.pairwise_append.2 ⟨hfront, hbehind, fun m hm k hk => ?_⟩
    exact hsides m hm k (.tail _ hk)
  · intro k
    have hk := h.mem_iff (n := k)
    rw [hq, List.mem_append, List.mem_cons] at hk
    rw [List.mem_append]
    by_cases hkr : k = r
    · subst hkr
      refine iff_of_false h.fresh ?_
      rintro (hmem | hmem)
      · exact absurd (hsides k hmem k (.head _)) (Int.lt_irrefl k)
      · exact absurd (hr k hmem) (Int.lt_irrefl k)
    · simpa [hkr] using hk.symm

theorem spliced (h : Remarked p q r) {P : Int → Bool}
    (hP : P r = true → ∀ k, r < k → P k = true) :
    Spliced r (q.numbers.filter (r < ·)) (p.numbers.filter P) (q.numbers.filter P) := by
  obtain ⟨front, behind, hp, hq⟩ := h.numbers
  have hasc := q.numbers_ascending
  rw [hq, List.pairwise_append, List.pairwise_cons] at hasc
  rw [Program.filter_after hq, hp, hq, List.filter_append, List.filter_append]
  by_cases hr : P r = true
  · have hall : behind.filter P = behind :=
      List.filter_eq_self.2 fun k hk => hP hr k (hasc.2.1.1 k hk)
    rw [List.filter_cons_of_pos hr, hall]
    exact .more _
  · rw [List.filter_cons_of_neg hr]
    exact .same _

theorem after (h : Remarked p q r) (n : Int) : Spliced r (q.numbers.filter (r < ·))
    (p.numbers.filter (n < ·)) (q.numbers.filter (n < ·)) := by
  apply h.spliced
  intro hn k hk
  rw [decide_eq_true_eq] at hn ⊢
  omega

theorem next? (h : Remarked p q r) (n : Int) :
    Beside q r ((Image.ofProgram p).order.next? n) ((Image.ofProgram q).order.next? n) := by
  simp only [Beside, LineOrder.next?, LineOrder.after_eq_filter, Image.ofProgram_numbers]
  exact (h.after n).head?

theorem first? (h : Remarked p q r) :
    Beside q r (Image.ofProgram p).order.first? (Image.ofProgram q).order.first? := by
  have hall := h.spliced (P := fun _ => true) (fun _ _ _ => rfl)
  rw [List.filter_true, List.filter_true] at hall
  simp only [Beside, LineOrder.first?, LineOrder.next?, LineOrder.after_eq_filter,
    Image.ofProgram_numbers]
  exact hall.head?

theorem next?_goTo (h : Remarked p q r) {target : Int} (ht : target ≠ r) :
    (Image.ofProgram q).next? n (.goTo target) = (Image.ofProgram p).next? n (.goTo target) := by
  simp [Image.next?, h.mem_iff, ht]

end Order

section Loops

theorem loopEnd? (h : Remarked p q r) (n : Int) : q.loopEnd? n = p.loopEnd? n := by
  obtain ⟨text, hremark⟩ := h.remark
  have hkey : q.keywordAt r = some .REM := Program.keywordAt_of_statementAt hremark
  have hafter := h.after n
  have hkeys : ∀ m ∈ p.numbers.filter (n < ·), q.keywordAt m = p.keywordAt m := by
    intro m hm
    have hne := h.ne_of_mem (List.mem_filter.1 hm).1
    rw [Program.keywordAt, Program.keywordAt, h.others m hne]
  have hsame := Program.closer?_map (f := id) hkeys 0
  rw [List.map_id, Option.map_id_fun, id] at hsame
  rw [Program.loopEnd?_eq, Program.loopEnd?_eq, ← hsame]
  generalize p.numbers.filter (n < ·) = xs at hafter ⊢
  generalize q.numbers.filter (n < ·) = ys at hafter ⊢
  cases hafter with
  | same => rfl
  | more front =>
    exact Program.closer?_insert_plain (by simp [hkey]) (by simp [hkey]) 0 front _

end Loops

section Lines

theorem goTo (h : Remarked p q r) {target : Int} (ht : target ≠ r) :
    Beside q r ((Image.ofProgram p).next? n (.goTo target))
      ((Image.ofProgram q).next? n (.goTo target)) :=
  .inl (h.next?_goTo ht)

theorem told {a b : Move}
    (h : Beside q r ((Image.ofProgram p).next? n a) ((Image.ofProgram q).next? n b)) (e : Event)
    (level : Nat) : ResultBeside p q r n (Image.toldMove level (.ok (a, some e)))
      (Image.toldMove level (.ok (b, some e))) := by
  by_cases hu : e.untold level = true
  · simp only [Image.toldMove, Option.any_some, hu, if_true]
    exact .error _
  · simp only [Image.toldMove, Option.any_some, hu]
    exact .ok h

theorem isLong_of_leaveLoop {a : Move} (h : (Image.ofProgram p).leaveLoop n = .ok a) :
    a.isLong = ((Image.ofProgram p).next? n a).any Text.isLong := by
  cases a with
  | goTo target =>
    have hin := Program.leaveLoop_target_mem h
    simp [Move.isLong, Image.next?, hin]
  | halt => rfl
  | next =>
    unfold Image.leaveLoop at h
    split at h
    · cases h
    · split at h <;> cases h

theorem leaveLoop (h : Remarked p q r) (n : Int) :
    (∃ fault, (Image.ofProgram p).leaveLoop n = .error fault ∧
      (Image.ofProgram q).leaveLoop n = .error fault) ∨
    ∃ a b, (Image.ofProgram p).leaveLoop n = .ok a ∧ (Image.ofProgram q).leaveLoop n = .ok b ∧
      Beside q r ((Image.ofProgram p).next? n a) ((Image.ofProgram q).next? n b) := by
  have hend := h.loopEnd? n
  cases he : p.loopEnd? n with
  | none =>
    rw [he] at hend
    exact .inl ⟨_, Program.leaveLoop_eq_error_iff.2 ⟨he, rfl⟩,
      Program.leaveLoop_eq_error_iff.2 ⟨hend, rfl⟩⟩
  | some e =>
    obtain ⟨a, ha, hnext⟩ := Program.leaveLoop_eq_ok he
    obtain ⟨b, hb, hnext'⟩ := Program.leaveLoop_eq_ok (hend.trans he)
    refine .inr ⟨a, b, ha, hb, ?_⟩
    rw [hnext, hnext']
    exact h.next? e

theorem told_leave (h : Remarked p q r) (hn : Text.isLong n = false) {a b : Move}
    (ha : (Image.ofProgram p).leaveLoop n = .ok a) (hb : (Image.ofProgram q).leaveLoop n = .ok b)
    (hbeside : Beside q r ((Image.ofProgram p).next? n a) ((Image.ofProgram q).next? n b))
    (level : Nat) : ResultBeside p q r n
      (Image.toldMove level (.ok (a, some (.looped n false a))))
      (Image.toldMove level (.ok (b, some (.looped n false b)))) := by
  have hlong {m : Move} : (Event.looped n false m).isLong = m.isLong := by
    rw [Event.isLong, hn, Bool.false_or]
  rcases hbeside with hsame | ⟨hremark, hbehind⟩
  · have huntold : (Event.looped n false b).untold level = (Event.looped n false a).untold level := by
      simp only [Event.untold, hlong, isLong_of_leaveLoop ha, isLong_of_leaveLoop hb, hsame]
      rfl
    by_cases hu : (Event.looped n false a).untold level = true
    · simp only [Image.toldMove, Option.any_some, huntold, hu, if_true]
      exact .error _
    · simp only [Image.toldMove, Option.any_some, huntold, hu]
      exact .ok (.inl hsame)
  · have hb' : (Event.looped n false b).isLong = false := by
      rw [hlong, isLong_of_leaveLoop hb, hremark, Option.any_some, h.short]
    rw [Image.toldMove_of_short level hb']
    by_cases hu : (Event.looped n false a).untold level = true
    · simp only [Image.toldMove, Option.any_some, hu, if_true]
      refine .late hremark ?_
      rw [← hbehind, ← isLong_of_leaveLoop ha, ← hlong]
      exact (Event.untold_iff.1 hu).2
    · simp only [Image.toldMove, Option.any_some, hu]
      exact .ok (.inr ⟨hremark, hbehind⟩)

theorem performs (h : Remarked p q r) (hn : Text.isLong n = false) {statement : Statement Int}
    {c d : Workspace} {a : Except Fault (Move × Option Event)} (htargets : r ∉ statement.targets)
    (hloops : ∀ m ∈ c.loops, m ≠ r) (hp : (Image.ofProgram p).Performs n c statement d a) :
    ∃ b, (Image.ofProgram q).Performs n c statement d b ∧
      ∀ level, ResultBeside p q r n (Image.toldMove level a) (Image.toldMove level b) := by
  have hon : Beside q r ((Image.ofProgram p).next? n .next) ((Image.ofProgram q).next? n .next) :=
    h.next? n
  cases hp with
  | assign hv => exact ⟨_, .assign hv, told hon _⟩
  | assignFails hv => exact ⟨_, .assignFails hv, fun _ => .error _⟩
  | print item => exact ⟨_, .print item, fun _ => .ok hon⟩
  | input hv => exact ⟨_, .input hv, fun _ => .ok hon⟩
  | inputFails hv => exact ⟨_, .inputFails hv, fun _ => .error _⟩
  | @branch condition target otherwise truth hv =>
    -- a branch may lead to no line at all, but not to the remark
    refine ⟨_, .branch hv, told ?_ _⟩
    cases otherwise with
    | none =>
      have ht : target ≠ r := by simpa [Statement.targets, eq_comm] using htargets
      cases truth with
      | true => exact h.goTo ht
      | false => exact hon
    | some other =>
      obtain ⟨ht, ho⟩ : target ≠ r ∧ other ≠ r := by
        simpa [Statement.targets, eq_comm] using htargets
      cases truth with
      | true => exact h.goTo ht
      | false => exact h.goTo ho
  | branchFails hv => exact ⟨_, .branchFails hv, fun _ => .error _⟩
  | @goto target hin =>
    rw [Image.ofProgram_numbers] at hin
    have hin' : target ∈ (Image.ofProgram q).order.numbers := by
      rw [Image.ofProgram_numbers]
      exact h.mem_iff.2 (.inr hin)
    exact ⟨_, .goto hin', told (h.goTo (h.ne_of_mem hin)) _⟩
  | @gotoFails target hout =>
    have ht : target ≠ r := by simpa [Statement.targets, eq_comm] using htargets
    have hout' : target ∉ (Image.ofProgram q).order.numbers := by
      rw [Image.ofProgram_numbers] at hout ⊢
      simpa [h.mem_iff, ht] using hout
    exact ⟨_, .gotoFails hout', fun _ => .error _⟩
  | guardFails hv => exact ⟨_, .guardFails hv, fun _ => .error _⟩
  | enter hv => exact ⟨_, .enter hv, told hon _⟩
  | leave hv hmove =>
    -- the one move that the remark may change: it can be the first line behind the loop
    rcases h.leaveLoop n with ⟨fault, hfault, -⟩ | ⟨a, b, ha, hb, hbeside⟩
    · cases hfault.symm.trans hmove
    · cases ha.symm.trans hmove
      exact ⟨_, .leave hv hb, h.told_leave hn ha hb hbeside⟩
  | leaveFails hv hmove =>
    rcases h.leaveLoop n with ⟨fault, hfault, hfault'⟩ | ⟨a, b, ha, -, -⟩
    · cases hfault.symm.trans hmove
      exact ⟨_, .leaveFails hv hfault', fun _ => .error _⟩
    · cases ha.symm.trans hmove
  | @back head outer hopen =>
    exact ⟨_, .back hopen, fun _ => .ok (h.goTo (hloops head (hopen ▸ List.mem_cons_self)))⟩
  | backFails hopen => exact ⟨_, .backFails hopen, fun _ => .error _⟩
  | stop => exact ⟨_, .stop, fun _ => .ok (.inl rfl)⟩
  | remark text => exact ⟨_, .remark text, fun _ => .ok hon⟩

theorem readAt (h : Remarked p q r) (hn : n ≠ r) :
    (Image.ofProgram q).readAt n = (Image.ofProgram p).readAt n := by
  have htext : (Image.ofProgram q).program.text? n = (Image.ofProgram p).program.text? n :=
    h.others n hn
  rw [Image.readAt, Image.readAt, htext]

theorem execute (h : Remarked p q r) (hn : n ∈ p.numbers) {c : Workspace}
    (hloops : ∀ m ∈ c.loops, m ∈ p.numbers) (level : Nat) : ∃ d a b,
      (Image.ofProgram p).execute level n c = (d, a) ∧
      (Image.ofProgram q).execute level n c = (d, b) ∧ ResultBeside p q r n a b := by
  have hsame := h.readAt (h.ne_of_mem hn)
  cases hs : (Image.ofProgram p).readAt n with
  | error fault =>
    rw [hs] at hsame
    exact ⟨c, _, _, by simp [Image.execute, hs], by simp [Image.execute, hsame], .error fault⟩
  | ok statement =>
    rw [hs] at hsame
    obtain ⟨hstatement, hshort⟩ := Image.readAt_eq_ok_iff.1 hs
    have hperform := (Image.ofProgram p).perform_performs n statement c
    obtain ⟨b, hb, hbeside⟩ := h.performs hshort (h.untargeted n statement hstatement)
      (fun m hm => h.ne_of_mem (hloops m hm)) hperform
    refine ⟨((Image.ofProgram p).perform n statement c).1, _, _, ?_, ?_, hbeside level⟩
    · simp only [Image.execute, hs]
    · simp only [Image.execute, hsame, hb.perform_eq]

theorem execute_remark (h : Remarked p q r) (level : Nat) (c : Workspace) :
    (Image.ofProgram q).execute level r c = (c, .ok .next) := by
  obtain ⟨text, hremark⟩ := h.remark
  rw [Image.execute, Image.readAt_eq_ok_iff.2 ⟨hremark, h.short⟩]
  rfl

end Lines

end Remarked

structure InStep (p q : Program) (r : Int) (level : Nat) (replies : List (Option String))
    (s t : RunState) : Prop where
  left : Reachable p { level } replies s
  right : Reachable q { level } replies t
  cursor : Beside q r s.cursor t.cursor
  workspace : t.workspace.bare = s.workspace.bare

inductive ProgressInStep (p q : Program) (r : Int) (level : Nat) (replies : List (Option String)) :
    Progress → Progress → Prop where
  | running {s t : RunState} (h : InStep p q r level replies s t) :
      ProgressInStep p q r level replies (.running s) (.running t)
  | ended {c d : Workspace} (outcome : Outcome) (h : d.bare = c.bare) :
      ProgressInStep p q r level replies (.ended c outcome) (.ended d outcome)
  | late {c d : Workspace} {t u : RunState} {m : Nat} (hruns : Runs (.ofProgram q) { level } t m u)
      (hend : step (.ofProgram q) { level } u = .ended d (.escaped .longNumber))
      (h : d.bare = c.bare) :
      ProgressInStep p q r level replies (.ended c (.escaped .longNumber)) (.running t)

namespace Remarked

variable {p q : Program} {r : Int} {level : Nat} {replies : List (Option String)} {s t : RunState}

theorem start (h : Remarked p q r) (level : Nat) (replies : List (Option String)) :
    InStep p q r level replies (startState (.ofProgram p) { level } replies)
      (startState (.ofProgram q) { level } replies) where
  left := ⟨0, .refl _⟩
  right := ⟨0, .refl _⟩
  cursor := h.first?
  workspace := by simp only [startState, Workspace.bare_record]

/-- One round more at most, and the cursors are the same. -/
theorem align (h : Remarked p q r) (hst : InStep p q r level replies s t) :
    ∃ m u, Runs (.ofProgram q) { level } t m u ∧ InStep p q r level replies s u ∧
      u.cursor = s.cursor := by
  rcases hst.cursor with hsame | ⟨hremark, hbehind⟩
  · exact ⟨0, t, .refl t, hst, hsame⟩
  · obtain ⟨u, hu, hcursor, hbare, -⟩ := step_of_execute_ok level hst.right.cached hremark
      (h.execute_remark level _)
    have hcursor' : u.cursor = s.cursor := hcursor.trans hbehind.symm
    have hsu : InStep p q r level replies s u :=
      ⟨hst.left, hst.right.step hu, .inl hcursor', hbare.trans hst.workspace⟩
    exact ⟨1, u, .single hu, hsu, hcursor'⟩

/-- From the remark on, a run soon comes to the number that could not be told. -/
theorem late (h : Remarked p q r) {v : RunState} (hv : Reachable q { level } replies v)
    (hcursor : v.cursor = some r)
    (hlong : ((Image.ofProgram q).order.next? r).any Text.isLong = true) :
    ∃ w, Runs (.ofProgram q) { level } v 1 w ∧ w.workspace.bare = v.workspace.bare ∧
      NumberedBasic.step (.ofProgram q) { level } w = .ended w.workspace (.escaped .longNumber) := by
  obtain ⟨w, hw, hwcursor, hwbare, -⟩ :=
    step_of_execute_ok level hv.cached hcursor (h.execute_remark level _)
  change w.cursor = (Image.ofProgram q).order.next? r at hwcursor
  rw [← hwcursor] at hlong
  cases hbehind : w.cursor with
  | none => simp [hbehind] at hlong
  | some behind =>
    rw [hbehind] at hlong
    have hmem := Program.mem_numbers_iff.1 ((hv.step hw).cursor_mem hbehind)
    exact ⟨w, .single hw, hwbare, step_long hbehind hlong hmem⟩

theorem step (h : Remarked p q r) (hst : InStep p q r level replies s t)
    (hcursor : t.cursor = s.cursor) :
    ProgressInStep p q r level replies (NumberedBasic.step (.ofProgram p) { level } s)
      (NumberedBasic.step (.ofProgram q) { level } t) := by
  cases hc : s.cursor with
  | none =>
    rw [Stopped.step_eq (.done hc), Stopped.step_eq (.done (hcursor.trans hc))]
    refine .ended _ ?_
    rw [Workspace.bare_record, Workspace.bare_record, hst.workspace]
  | some n =>
    obtain ⟨d, a, b, ha, hb, hbeside⟩ :=
      h.execute (hst.left.cursor_mem hc) (c := s.workspace.bare) hst.left.loops_mem level
    rw [← hst.workspace] at hb
    have hc' := hcursor.trans hc
    cases hbeside with
    | ok hnext =>
      obtain ⟨u, hu, hucursor, hubare, -⟩ := step_of_execute_ok level hst.left.cached hc ha
      obtain ⟨v, hv, hvcursor, hvbare, -⟩ :=
        step_of_execute_ok level hst.right.cached hc' hb
      rw [hu, hv]
      refine .running ⟨hst.left.step hu, hst.right.step hv, ?_, hvbare.trans hubare.symm⟩
      rw [hucursor, hvcursor]
      exact hnext
    | error fault =>
      obtain ⟨c, hu, hubare⟩ := step_of_execute_error level hst.left.cached hc ha
      obtain ⟨d, hv, hvbare⟩ := step_of_execute_error level hst.right.cached hc' hb
      rw [hu, hv]
      exact .ended _ (hvbare.trans hubare.symm)
    | late hnext hlong =>
      obtain ⟨c, hu, hubare⟩ := step_of_execute_error level hst.left.cached hc ha
      obtain ⟨v, hv, hvcursor, hvbare, -⟩ := step_of_execute_ok level hst.right.cached hc' hb
      obtain ⟨w, hruns, hwbare, hend⟩ :=
        h.late (hst.right.step hv) (hvcursor.trans hnext) hlong
      rw [hu, hv]
      exact .late hruns hend (hwbare.trans (hvbare.trans hubare.symm))

theorem forth (h : Remarked p q r) (hst : InStep p q r level replies s t) {rounds : Nat}
    {c : Workspace} {x : Outcome} (hp : runFrom (.ofProgram p) { level } rounds s = some (c, x)) :
    ∃ rounds d, runFrom (.ofProgram q) { level } rounds t = some (d, x) ∧ d.bare = c.bare := by
  induction rounds generalizing s t with
  | zero => cases hp
  | succ rounds ih =>
    obtain ⟨m, u, hruns, hsu, hcursor⟩ := h.align hst
    have hstep := h.step hsu hcursor
    rw [runFrom] at hp
    generalize hleft : NumberedBasic.step (.ofProgram p) { level } s = left at hstep hp
    generalize hright : NumberedBasic.step (.ofProgram q) { level } u = right at hstep
    cases hstep with
    | running hnext =>
      obtain ⟨rounds', d, hq, hbare⟩ := ih hnext hp
      refine ⟨m + (rounds' + 1), d, ?_, hbare⟩
      rw [hruns.runFrom, runFrom, hright]
      exact hq
    | ended outcome hbare =>
      cases hp
      exact ⟨m + 1, _, (hruns.runFrom 1).trans (runFrom_ended hright 0), hbare⟩
    | @late _ _ _ _ k hmore hend hbare =>
      cases hp
      refine ⟨m + (1 + (k + 1)), _, ?_, hbare⟩
      rw [hruns.runFrom, (Runs.single hright).runFrom, hmore.runFrom, runFrom, hend]

/-- The induction goes over the rounds of the longer run, of which one line may take two. -/
theorem back (h : Remarked p q r) (hst : InStep p q r level replies s t) {rounds : Nat}
    {d : Workspace} {x : Outcome} (hq : runFrom (.ofProgram q) { level } rounds t = some (d, x)) :
    ∃ rounds c, runFrom (.ofProgram p) { level } rounds s = some (c, x) := by
  induction rounds using Nat.strong_induction_on generalizing s t with
  | _ rounds ih =>
    obtain ⟨m, u, hruns, hsu, hcursor⟩ := h.align hst
    obtain ⟨rest, hrounds, hrest⟩ := hruns.rest hq
    cases rest with
    | zero => cases hrest
    | succ rest =>
      have hstep := h.step hsu hcursor
      rw [runFrom] at hrest
      generalize hleft : NumberedBasic.step (.ofProgram p) { level } s = left at hstep
      generalize hright : NumberedBasic.step (.ofProgram q) { level } u = right at hstep hrest
      cases hstep with
      | running hnext =>
        obtain ⟨rounds', c, hp⟩ := ih rest (by omega) hnext hrest
        exact ⟨rounds' + 1, c, (runFrom_running hleft rounds').trans hp⟩
      | @ended c d outcome hbare =>
        cases hrest
        exact ⟨1, c, runFrom_ended hleft 0⟩
      | @late c d v _ k hmore hend hbare =>
        -- the longer run has passed the remark and comes to the same fault
        have hescapes : runFrom (.ofProgram q) { level } (k + 1) v = some (d, .escaped .longNumber) :=
          (hmore.runFrom 1).trans (runFrom_ended hend 0)
        cases runFrom_unique hescapes hrest
        exact ⟨1, c, runFrom_ended hleft 0⟩

end Remarked

section Entering

variable {p : Program} {r : Int}

theorem statementAt_insert_remark {text : String} {tail remark : List Char}
    (htext : text.toList = "REM".toList ++ tail) (htail : tail <+: ' ' :: remark) :
    (Image.ofProgram (p.insert r text)).statementAt r =
      .ok (.remark (String.ofList (Text.trim tail))) := by
  have hstops : Token.Stops (fun c => Token.IsLetter c ∨ Token.IsDigit c) tail := by
    intro c hc
    obtain ⟨more, hmore⟩ := htail
    cases tail with
    | nil => cases hc
    | cons d tail =>
      obtain rfl : d = c := Option.some.inj hc
      rw [List.head_eq_of_cons_eq hmore]
      exact mt (Token.isWordChar_iff _).2 (by decide)
  have hline : (Image.ofProgram (p.insert r text)).program.text? r = some text := by
    have hinsert := p.text?_insert r r text
    rwa [if_pos rfl] at hinsert
  rw [Image.statementAt, hline]
  exact Statement.ofLine_remark htext hstops

theorem toList_remark (remark : String) :
    ("REM " ++ remark).toList = "REM".toList ++ ' ' :: remark.toList := by
  rw [String.toList_append]
  rfl

theorem enter_remark (p : Program) (r : Int) (remark : String) :
    p.enter r ("REM " ++ remark) =
      p.insert r (String.ofList ("REM".toList ++ Text.trimRight (' ' :: remark.toList))) := by
  have htrim : Text.trim ("REM " ++ remark).toList =
      "REM".toList ++ Text.trimRight (' ' :: remark.toList) := by
    have hhead : ∀ c ∈ ("REM".toList ++ ' ' :: remark.toList).head?, Text.isBlank c = false := by
      intro c hc
      obtain rfl : 'R' = c := Option.some.inj hc
      decide
    rw [toList_remark, Text.trim, Text.trimLeft_eq_self hhead]
    exact Text.trimRight_append rfl (by decide) _
  rw [Program.enter, htrim]
  rfl

end Entering

theorem Remarked.of_insert {p q : Program} {r : Int} {remark : String}
    (hq : q = p.insert r ("REM " ++ remark) ∨ q = p.enter r ("REM " ++ remark))
    (hshort : Text.isLong r = false) (hr : r ∉ p.numbers)
    (htarget : ∀ n a, (Image.ofProgram p).statementAt n = .ok a → r ∉ a.targets) :
    Remarked p q r := by
  obtain ⟨text, tail, rfl, htext, htail⟩ : ∃ text tail, q = p.insert r text ∧
      text.toList = "REM".toList ++ tail ∧ tail <+: ' ' :: remark.toList := by
    rcases hq with rfl | rfl
    · exact ⟨_, ' ' :: remark.toList, rfl, toList_remark remark, List.prefix_rfl⟩
    · exact ⟨_, _, enter_remark p r remark, String.toList_ofList, Text.trimRight_prefix_self _⟩
  refine ⟨hshort, hr, htarget, ⟨_, statementAt_insert_remark htext htail⟩, fun n hn => ?_⟩
  rw [Program.text?_insert, if_neg hn]

/-- A line with a remark may be put anywhere, and a program ends as it did before. A number that the
program jumps to though it has no such line is not free, nor is one with too many digits. -/
theorem remarks_are_inert (p q : Program) (r : Int) (remark : String)
    (hq : q = p.insert r ("REM " ++ remark) ∨ q = p.enter r ("REM " ++ remark))
    (hshort : Text.isLong r = false) (hr : r ∉ p.numbers)
    (htarget : ∀ n a, (Image.ofProgram p).statementAt n = .ok a → r ∉ a.targets)
    (level : Nat) (replies : List (Option String)) :
    ((∃ rounds x, run rounds p { level } replies = some x) ↔
      ∃ rounds x, run rounds q { level } replies = some x) ∧
    ∀ m n c d x y, run m p { level } replies = some (c, x) →
      run n q { level } replies = some (d, y) →
      c.output = d.output ∧ c.store = d.store ∧ c.reads = d.reads ∧ x = y := by
  have h := Remarked.of_insert hq hshort hr htarget
  have hstart := h.start level replies
  refine ⟨⟨?_, ?_⟩, ?_⟩
  · rintro ⟨rounds, ⟨c, x⟩, hp⟩
    obtain ⟨rounds', d, hq, -⟩ := h.forth hstart hp
    exact ⟨rounds', (d, x), hq⟩
  · rintro ⟨rounds, ⟨d, x⟩, hq⟩
    obtain ⟨rounds', c, hp⟩ := h.back hstart hq
    exact ⟨rounds', (c, x), hp⟩
  · intro m n c d x y hp hq
    obtain ⟨rounds, d', hq', hbare⟩ := h.forth hstart hp
    cases runFrom_unique hq' hq
    obtain ⟨hstore, houtput⟩ := Workspace.kept_of_bare hbare
    have hreads := congrArg Workspace.reads hbare
    exact ⟨houtput.symm, hstore.symm, hreads.symm, rfl⟩

def closing : Program := .ofLines
  [(10, "A = 2"), (20, "WHILE A > 0"), (30, "PRINT A"), (40, "A = A - 1"), (50, "WEND")]

theorem closing_remarked : 60 ∉ closing.numbers ∧
    (∀ n a, (Image.ofProgram closing).statementAt n = .ok a → 60 ∉ a.targets) ∧
    ∃ rounds d, run rounds (closing.enter 60 "REM WEND of 20") {} [] = some (d, .completed) ∧
      d.output = #["2", "1"] := by
  have hrun : (run 12 closing {} []).map (fun x => (x.1.output, x.2)) =
      some (#["2", "1"], .completed) := by decide +kernel
  have hfresh : 60 ∉ closing.numbers := by decide +kernel
  have hlines : ∀ n ∈ closing.numbers,
      ((Image.ofProgram closing).statementAt n).toOption.all (60 ∉ ·.targets) = true := by
    decide +kernel
  have htargets : ∀ n a, (Image.ofProgram closing).statementAt n = .ok a → 60 ∉ a.targets := by
    intro n a ha
    have hline := hlines n (Program.mem_numbers_of_statementAt ha)
    rw [ha] at hline
    exact of_decide_eq_true hline
  have hinert := remarks_are_inert closing _ 60 "WEND of 20" (.inr rfl) rfl hfresh htargets 0 []
  obtain ⟨⟨c, x⟩, hc, hx⟩ := Option.map_eq_some_iff.1 hrun
  obtain ⟨houtput, rfl⟩ := Prod.mk.inj hx
  obtain ⟨rounds, ⟨d, y⟩, hd⟩ := hinert.1.1 ⟨12, _, hc⟩
  obtain ⟨hsame, -, -, rfl⟩ := hinert.2 12 rounds c d _ y hc hd
  exact ⟨hfresh, htargets, rounds, d, hd, hsame ▸ houtput⟩

theorem printing_remarked_escapes : Text.leastLong ∉ printing.numbers ∧
    (∀ n a, (Image.ofProgram printing).statementAt n = .ok a → Text.leastLong ∉ a.targets) ∧
    (∃ c, run 2 printing {} [] = some (c, .completed)) ∧
    ∃ rounds c, run rounds (printing.insert Text.leastLong "REM A") {} [] =
      some (c, .escaped .longNumber) := by
  have hrun : (run 2 printing {} []).map (fun x => x.2) = some .completed := by decide +kernel
  obtain ⟨⟨c, x⟩, hc, rfl⟩ := Option.map_eq_some_iff.1 hrun
  have hstate : ((stateAfter (.ofProgram (printing.insert Text.leastLong "REM A")) {} 1
      (startState (.ofProgram (printing.insert Text.leastLong "REM A")) {} [])).map fun s =>
        s.cursor) = some (some Text.leastLong) := by decide +kernel
  obtain ⟨s, hs, hcursor⟩ := Option.map_eq_some_iff.1 hstate
  have hreach : Reachable (printing.insert Text.leastLong "REM A") {} [] s :=
    ⟨1, runs_of_stateAfter hs⟩
  refine ⟨by decide +kernel, fun n a ha ht => ?_, ⟨c, hc⟩, ?_⟩
  · have hshort := Image.statementAt_targets ha ht
    rw [Text.isLong_leastLong] at hshort
    cases hshort
  · obtain ⟨rounds, hescapes⟩ := hreach.escapes hcursor Text.isLong_leastLong
    exact ⟨rounds, _, hescapes⟩

end NumberedBasic
