import Mathlib.Data.List.Sort
import NumberedBasic.Proofs.Effects
import NumberedBasic.Proofs.Escapes
import NumberedBasic.Proofs.OpenLoops

set_option autoImplicit false

/-!
# Renumbered programs

A renumbering changes the numbers of the lines and keeps their order; a jump target that is a line
changes with its line, and any other one stays no line. The runs of the two programs go in lock-step.
A line number is a cursor, a jump target, an open loop, a key of the memory and the place where the
search for a loop end starts. Each of these uses has its lemma here: it depends on no more than the
order of the lines. The numbers are told, too, so none may get too many digits, or get rid of them.
-/
namespace NumberedBasic

inductive Statement.Retargets (T : Int → Int → Prop) : Statement Int → Statement Int → Prop where
  | same {statement : Statement Int} (h : statement.targets = []) : Retargets T statement statement
  | branch {t t' : Int} (condition : Condition) (h : T t t') :
      Retargets T (.branch condition t none) (.branch condition t' none)
  | branchElse {t t' e e' : Int} (condition : Condition) (h : T t t') (he : T e e') :
      Retargets T (.branch condition t (some e)) (.branch condition t' (some e'))
  | goto {t t' : Int} (h : T t t') : Retargets T (.goto t) (.goto t')

theorem Statement.Retargets.keyword? {T : Int → Int → Prop} {a b : Statement Int}
    (h : Statement.Retargets T a b) : b.keyword? = a.keyword? := by
  cases h <;> rfl

/-- A target that is a line goes along with it; any other one still names no line. -/
def TargetMatches (f : Int → Int) (p q : Program) (t t' : Int) : Prop :=
  (t ∈ p.numbers → t' = f t) ∧ (t ∉ p.numbers → t' ∉ q.numbers)

structure Renumbering (f : Int → Int) (p q : Program) : Prop where
  increasing : ∀ m ∈ p.numbers, ∀ n ∈ p.numbers, m < n → f m < f n
  onto : ∀ m, m ∈ q.numbers ↔ ∃ n ∈ p.numbers, f n = m
  lines : ∀ n ∈ p.numbers,
    (∃ text fault, p.text? n = some text ∧ q.text? (f n) = some text ∧
      Statement.ofLine text = .error fault) ∨
    ∃ a b, (Image.ofProgram p).statementAt n = .ok a ∧
      (Image.ofProgram q).statementAt (f n) = .ok b ∧ a.Retargets (TargetMatches f p q) b

structure SteadyRenumbering (f : Int → Int) (p q : Program) : Prop extends Renumbering f p q where
  steady : ∀ n ∈ p.numbers, Text.isLong (f n) = Text.isLong n

inductive MoveMatches (f : Int → Int) (p q : Program) : Move → Move → Prop where
  | next : MoveMatches f p q .next .next
  | goTo {t t' : Int} (h : TargetMatches f p q t t') : MoveMatches f p q (.goTo t) (.goTo t')
  | halt : MoveMatches f p q .halt .halt

/-- Two faults that end a run in the same way. A fault that escapes has to be the same. -/
def Fault.Alike (a b : Fault) : Prop := b.kind? = a.kind? ∧ (a.kind? = none → b = a)

inductive ResultMatches (f : Int → Int) (p q : Program) :
    Except Fault Move → Except Fault Move → Prop where
  | ok {a b : Move} (h : MoveMatches f p q a b) : ResultMatches f p q (.ok a) (.ok b)
  | error {a b : Fault} (h : Fault.Alike a b) : ResultMatches f p q (.error a) (.error b)

theorem Fault.Alike.refl (fault : Fault) : Fault.Alike fault fault := ⟨rfl, fun _ => rfl⟩

theorem Fault.Alike.of_kind {a b : Fault} {kind : Fault.Kind} (ha : a.kind? = some kind)
    (hb : b.kind? = some kind) : Fault.Alike a b := by
  refine ⟨hb.trans ha.symm, ?_⟩
  intro hnone
  rw [ha] at hnone
  cases hnone

theorem Fault.Alike.raised {a b : Fault} {kind : Fault.Kind} {m n : Int} (ha : a.kind? = some kind)
    (hb : b.kind? = some kind) (hm : a.number? = some m) (hn : b.number? = some n)
    (hlong : Text.isLong n = Text.isLong m) : Fault.Alike a.raised b.raised := by
  cases hl : Text.isLong m with
  | true =>
    rw [Fault.raised_of_long hm hl, Fault.raised_of_long hn (hlong.trans hl)]
    exact .refl _
  | false =>
    rw [Fault.raised_of_short hm hl, Fault.raised_of_short hn (hlong.trans hl)]
    exact .of_kind ha hb

def Workspace.renumbered (f : Int → Int) (c : Workspace) : Workspace :=
  { c.bare with loops := c.loops.map f }

structure LineMatches (f : Int → Int) (p q : Program) (x y : Workspace × Except Fault Move) :
    Prop where
  workspace : y.1 = x.1.renumbered f
  result : ResultMatches f p q x.2 y.2

namespace Renumbering

variable {f : Int → Int} {p q : Program} {m n : Int}

section Order

theorem lt_iff (h : Renumbering f p q) (hm : m ∈ p.numbers) (hn : n ∈ p.numbers) :
    f m < f n ↔ m < n := by
  constructor
  · intro hlt
    rcases Int.lt_trichotomy m n with hmn | rfl | hnm
    · exact hmn
    · exact absurd hlt (Int.lt_irrefl _)
    · have hback := h.increasing n hn m hm hnm
      omega
  · exact h.increasing m hm n hn

theorem eq_iff (h : Renumbering f p q) (hm : m ∈ p.numbers) (hn : n ∈ p.numbers) :
    f m = f n ↔ m = n := by
  have hlt := h.lt_iff hm hn
  have hgt := h.lt_iff hn hm
  omega

theorem mem (h : Renumbering f p q) (hn : n ∈ p.numbers) : f n ∈ q.numbers :=
  (h.onto (f n)).2 ⟨n, hn, rfl⟩

theorem numbers (h : Renumbering f p q) : q.numbers = p.numbers.map f := by
  have hmap : (p.numbers.map f).Pairwise (· < ·) := by
    rw [List.pairwise_map]
    refine p.numbers_ascending.imp_of_mem ?_
    intro a b ha hb hab
    exact h.increasing a ha b hb hab
  apply q.numbers_ascending.eq_of_mem_iff hmap
  intro k
  rw [h.onto k, List.mem_map]

theorem after (h : Renumbering f p q) (hn : n ∈ p.numbers) :
    q.numbers.filter (f n < ·) = (p.numbers.filter (n < ·)).map f := by
  rw [h.numbers, List.filter_map]
  congr 1
  apply List.filter_congr
  intro k hk
  simp [h.lt_iff hn hk]

theorem next? (h : Renumbering f p q) (hn : n ∈ p.numbers) :
    (Image.ofProgram q).order.next? (f n) = ((Image.ofProgram p).order.next? n).map f := by
  rw [LineOrder.next?, LineOrder.next?, LineOrder.after_eq_filter, LineOrder.after_eq_filter,
    Image.ofProgram_numbers, Image.ofProgram_numbers, h.after hn, List.head?_map]

theorem first? (h : Renumbering f p q) :
    (Image.ofProgram q).order.first? = (Image.ofProgram p).order.first?.map f := by
  rw [LineOrder.first?, LineOrder.first?, Image.ofProgram_numbers, Image.ofProgram_numbers, h.numbers,
    List.head?_map]

end Order

section Loops

theorem keywordAt (h : Renumbering f p q) (hn : n ∈ p.numbers) :
    q.keywordAt (f n) = p.keywordAt n := by
  rcases h.lines n hn with ⟨text, fault, hp, hq, -⟩ | ⟨a, b, ha, hb, hab⟩
  · rw [Program.keywordAt, Program.keywordAt, hp, hq]
  · rw [Program.keywordAt_of_statementAt ha, Program.keywordAt_of_statementAt hb, hab.keyword?]

theorem loopEnd? (h : Renumbering f p q) (hn : n ∈ p.numbers) :
    q.loopEnd? (f n) = (p.loopEnd? n).map f := by
  rw [Program.loopEnd?_eq, Program.loopEnd?_eq, h.after hn]
  exact Program.closer?_map (fun m hm => h.keywordAt (List.mem_filter.1 hm).1) 0

theorem loopsAfter (h : Renumbering f p q) (hn : n ∈ p.numbers) (truth : Bool) {loops : List Int}
    (hloops : ∀ m ∈ loops, m ∈ p.numbers) :
    Image.loopsAfter (f n) truth (loops.map f) = (Image.loopsAfter n truth loops).map f := by
  -- only lines of the program are open, and on these the map is injective
  have htop : (loops.map f).head? = some (f n) ↔ loops.head? = some n := by
    cases loops with
    | nil => simp
    | cons m outer => simp [h.eq_iff (hloops m List.mem_cons_self) hn]
  by_cases hhead : loops.head? = some n
  · cases truth <;> simp [Image.loopsAfter, htop.2 hhead, hhead]
  · have hhead' : ¬ (loops.map f).head? = some (f n) := fun hf => hhead (htop.1 hf)
    cases truth <;> simp only [Image.loopsAfter, hhead, hhead'] <;> rfl

end Loops

section Lines

theorem target (hn : n ∈ p.numbers) : TargetMatches f p q n (f n) :=
  ⟨fun _ => rfl, fun hnot => absurd hn hnot⟩

theorem target_mem_iff (h : Renumbering f p q) {t t' : Int} (ht : TargetMatches f p q t t') :
    t' ∈ q.numbers ↔ t ∈ p.numbers := by
  by_cases hin : t ∈ p.numbers
  · rw [ht.1 hin]
    exact iff_of_true (h.mem hin) hin
  · exact iff_of_false (ht.2 hin) hin

theorem next?_move (h : Renumbering f p q) (hn : n ∈ p.numbers) {a b : Move}
    (hab : MoveMatches f p q a b) :
    (Image.ofProgram q).next? (f n) b = ((Image.ofProgram p).next? n a).map f := by
  cases hab with
  | next => exact h.next? hn
  | @goTo t t' ht =>
    by_cases hin : t ∈ p.numbers
    · simp [Image.next?, hin, ht.1 hin, h.mem hin]
    · simp [Image.next?, hin, ht.2 hin]
  | halt => rfl

theorem toldMove {a b : Move} {e e' : Event} (hab : MoveMatches f p q a b)
    (hlevel : e'.level = e.level) (hlong : e'.isLong = e.isLong) (level : Nat) :
    ResultMatches f p q (Image.toldMove level (.ok (a, some e)))
      (Image.toldMove level (.ok (b, some e'))) := by
  have huntold : e'.untold level = e.untold level := by simp [Event.untold, hlevel, hlong]
  by_cases hu : e.untold level = true
  · simp only [Image.toldMove, Option.any_some, huntold, hu, if_true]
    exact .error (.refl _)
  · simp only [Image.toldMove, Option.any_some, huntold, hu]
    exact .ok hab

end Lines

end Renumbering

namespace SteadyRenumbering

variable {f : Int → Int} {p q : Program} {n : Int}

theorem leaveLoop (h : SteadyRenumbering f p q) (hn : n ∈ p.numbers) :
    ResultMatches f p q ((Image.ofProgram p).leaveLoop n) ((Image.ofProgram q).leaveLoop (f n)) := by
  unfold Image.leaveLoop
  rw [Program.loopEnd_eq, Program.loopEnd_eq, ← Program.loopEnd?_eq, ← Program.loopEnd?_eq,
    h.loopEnd? hn]
  cases he : p.loopEnd? n with
  | none => exact .error (.raised rfl rfl rfl rfl (h.steady n hn))
  | some e =>
    simp only [Option.map_some, Option.elim_some]
    rw [h.next? (Program.loopEnd?_spec he).1]
    cases hb : (Image.ofProgram p).order.next? e with
    | none => exact .ok .halt
    | some behind =>
      have hin := (LineOrder.next?_eq_some_iff.1 hb).1
      rw [Image.ofProgram_numbers] at hin
      exact .ok (.goTo (Renumbering.target hin))

theorem renumbered_loopsAfter (h : SteadyRenumbering f p q) (hn : n ∈ p.numbers) (truth : Bool)
    {c : Workspace} (hloops : ∀ m ∈ c.loops, m ∈ p.numbers) :
    { c with loops := Image.loopsAfter n truth c.loops }.renumbered f =
      { c.renumbered f with loops := Image.loopsAfter (f n) truth (c.renumbered f).loops } := by
  have hafter : Image.loopsAfter (f n) truth (c.renumbered f).loops =
      (Image.loopsAfter n truth c.loops).map f := h.loopsAfter hn truth hloops
  rw [hafter]
  rfl

theorem performs_same (h : SteadyRenumbering f p q) (hn : n ∈ p.numbers) {a : Statement Int}
    (ha : a.targets = []) {c d : Workspace} (hloops : ∀ m ∈ c.loops, m ∈ p.numbers)
    {r : Except Fault (Move × Option Event)} (hp : (Image.ofProgram p).Performs n c a d r) :
    ∃ r', (Image.ofProgram q).Performs (f n) (c.renumbered f) a (d.renumbered f) r' ∧
      ∀ level, ResultMatches f p q (Image.toldMove level r) (Image.toldMove level r') := by
  have hlooped (guard : Bool) {a b : Move} (hab : b.isLong = a.isLong) :
      (Event.looped (f n) guard b).isLong = (Event.looped n guard a).isLong := by
    rw [Event.isLong, Event.isLong, h.steady n hn, hab]
  cases hp with
  | assign hx => exact ⟨_, .assign hx, Renumbering.toldMove .next rfl rfl⟩
  | assignFails hx => exact ⟨_, .assignFails hx, fun _ => .error (.refl _)⟩
  | print item => exact ⟨_, .print item, fun _ => .ok .next⟩
  | input hx => exact ⟨_, .input hx, fun _ => .ok .next⟩
  | inputFails hx => exact ⟨_, .inputFails hx, fun _ => .error (.refl _)⟩
  | guardFails hx => exact ⟨_, .guardFails hx, fun _ => .error (.refl _)⟩
  | enter hx =>
    rw [h.renumbered_loopsAfter hn true hloops]
    exact ⟨_, .enter hx, Renumbering.toldMove .next rfl (hlooped true rfl)⟩
  | @leave _ move hx hmove =>
    have hleave := h.leaveLoop hn
    rw [hmove] at hleave
    rw [h.renumbered_loopsAfter hn false hloops]
    generalize hmove' : (Image.ofProgram q).leaveLoop (f n) = r' at hleave
    cases hleave with
    | @ok _ move' hmatch =>
      refine ⟨_, .leave hx hmove', Renumbering.toldMove hmatch rfl (hlooped false ?_)⟩
      cases hmatch with
      | next | halt => rfl
      | @goTo t t' ht =>
        -- the line behind the loop is a line of `p`, so its number keeps to its side of the limit
        have hin := Program.leaveLoop_target_mem hmove
        rw [Move.isLong, Move.isLong, ht.1 hin, h.steady t hin]
  | leaveFails hx hmove =>
    have hleave := h.leaveLoop hn
    rw [hmove] at hleave
    rw [h.renumbered_loopsAfter hn false hloops]
    generalize hmove' : (Image.ofProgram q).leaveLoop (f n) = r' at hleave
    cases hleave with
    | error halike => exact ⟨_, .leaveFails hx hmove', fun _ => .error halike⟩
  | @back head outer htop =>
    have htop' : (c.renumbered f).loops = f head :: outer.map f := congrArg (List.map f) htop
    have hin : head ∈ p.numbers := hloops head (htop ▸ List.mem_cons_self)
    exact ⟨_, .back htop', fun _ => .ok (.goTo (Renumbering.target hin))⟩
  | backFails hnone =>
    have hnone' : (c.renumbered f).loops = [] := congrArg (List.map f) hnone
    exact ⟨_, .backFails hnone', fun _ => .error (.raised rfl rfl rfl rfl (h.steady n hn))⟩
  | stop => exact ⟨_, .stop, fun _ => .ok .halt⟩
  | remark text => exact ⟨_, .remark text, fun _ => .ok .next⟩
  | @branch _ _ otherwise _ _ | @branchFails _ _ otherwise _ _ => cases otherwise <;> cases ha
  | goto _ | gotoFails _ => cases ha

theorem performs_branch {condition : Condition} {t t' : Int} {otherwise otherwise' : Option Int}
    (hmove : ∀ truth, MoveMatches f p q (branchMove truth t otherwise)
      (branchMove truth t' otherwise')) {c d : Workspace} {r : Except Fault (Move × Option Event)}
    (hp : (Image.ofProgram p).Performs n c (.branch condition t otherwise) d r) :
    ∃ r', (Image.ofProgram q).Performs (f n) (c.renumbered f) (.branch condition t' otherwise')
        (d.renumbered f) r' ∧
      ∀ level, ResultMatches f p q (Image.toldMove level r) (Image.toldMove level r') := by
  cases hp with
  | @branch _ _ _ truth hx => exact ⟨_, .branch hx, Renumbering.toldMove (hmove truth) rfl rfl⟩
  | branchFails hx => exact ⟨_, .branchFails hx, fun _ => .error (.refl _)⟩

theorem performs (h : SteadyRenumbering f p q) (hn : n ∈ p.numbers) {a b : Statement Int}
    (ha : (Image.ofProgram p).statementAt n = .ok a)
    (hb : (Image.ofProgram q).statementAt (f n) = .ok b)
    (hab : a.Retargets (TargetMatches f p q) b) {c d : Workspace}
    (hloops : ∀ m ∈ c.loops, m ∈ p.numbers) {r : Except Fault (Move × Option Event)}
    (hp : (Image.ofProgram p).Performs n c a d r) :
    ∃ r', (Image.ofProgram q).Performs (f n) (c.renumbered f) b (d.renumbered f) r' ∧
      ∀ level, ResultMatches f p q (Image.toldMove level r) (Image.toldMove level r') := by
  cases hab with
  | same htargets => exact h.performs_same hn htargets hloops hp
  | branch condition ht =>
    refine performs_branch (fun truth => ?_) hp
    cases truth with
    | true => exact .goTo ht
    | false => exact .next
  | branchElse condition ht he =>
    refine performs_branch (fun truth => ?_) hp
    cases truth with
    | true => exact .goTo ht
    | false => exact .goTo he
  | @goto t t' ht =>
    have hmem := h.target_mem_iff ht
    -- both targets are read from a text, and so they are short
    have hshort : Text.isLong t' = Text.isLong t :=
      (Image.statementAt_targets hb List.mem_cons_self).trans
        (Image.statementAt_targets ha List.mem_cons_self).symm
    cases hp with
    | goto hin => exact ⟨_, .goto (hmem.2 hin), Renumbering.toldMove (.goTo ht) rfl hshort⟩
    | gotoFails hout =>
      exact ⟨_, .gotoFails (mt hmem.1 hout), fun _ => .error (.raised rfl rfl rfl rfl hshort)⟩

theorem execute (h : SteadyRenumbering f p q) (hn : n ∈ p.numbers) {c : Workspace}
    (hloops : ∀ m ∈ c.loops, m ∈ p.numbers) (level : Nat) :
    LineMatches f p q ((Image.ofProgram p).execute level n c)
      ((Image.ofProgram q).execute level (f n) (c.renumbered f)) := by
  cases hlong : Text.isLong n with
  | true =>
    have hlong' : Text.isLong (f n) = true := (h.steady n hn).trans hlong
    have hread : (Image.ofProgram p).readAt n = .error .longNumber :=
      Image.readAt_of_long hlong (Program.mem_numbers_iff.1 hn)
    have hread' : (Image.ofProgram q).readAt (f n) = .error .longNumber :=
      Image.readAt_of_long hlong' (Program.mem_numbers_iff.1 (h.mem hn))
    simp only [Image.execute, hread, hread']
    exact ⟨rfl, .error (.refl _)⟩
  | false =>
    have hshort' : Text.isLong (f n) = false := (h.steady n hn).trans hlong
    rw [Image.execute, Image.execute, (Image.ofProgram p).readAt_of_short hlong,
      (Image.ofProgram q).readAt_of_short hshort']
    rcases h.lines n hn with ⟨text, fault, hp, hq, htext⟩ | ⟨a, b, ha, hb, hab⟩
    · have hp' : (Image.ofProgram p).statementAt n = .error fault := by
        change (Image.ofProgram p).program.text? n = some text at hp
        simp only [Image.statementAt, hp, htext]
      have hq' : (Image.ofProgram q).statementAt (f n) = .error fault := by
        change (Image.ofProgram q).program.text? (f n) = some text at hq
        simp only [Image.statementAt, hq, htext]
      simp only [hp', hq']
      exact ⟨rfl, .error (.refl fault)⟩
    · obtain ⟨r', hperforms, hresult⟩ :=
        h.performs hn ha hb hab hloops ((Image.ofProgram p).perform_performs n a c)
      simp only [ha, hb, hperforms.perform_eq]
      exact ⟨rfl, hresult level⟩

end SteadyRenumbering

structure RunMatches (f : Int → Int) (p q : Program) (o : Options) (replies : List (Option String))
    (s t : RunState) : Prop where
  left : Reachable p o replies s
  right : Reachable q o replies t
  cursor : t.cursor = s.cursor.map f
  steps : t.steps = s.steps
  workspace : t.workspace.bare = s.workspace.renumbered f

/-- Two runs that have ended in the same way. The line of a report is renumbered. -/
inductive Outcome.Renumbers (f : Int → Int) : Outcome → Outcome → Prop where
  | completed : Renumbers f .completed .completed
  | aborted {a b : Abort} (hkind : b.kind? = a.kind?) (hline : b.line = f a.line) :
      Renumbers f (.aborted a) (.aborted b)
  | escaped (fault : Fault) : Renumbers f (.escaped fault) (.escaped fault)

inductive ProgressMatches (f : Int → Int) (p q : Program) (o : Options)
    (replies : List (Option String)) : Progress → Progress → Prop where
  | running {s t : RunState} (h : RunMatches f p q o replies s t) :
      ProgressMatches f p q o replies (.running s) (.running t)
  | ended {c d : Workspace} {x y : Outcome} (h : d.bare = c.renumbered f)
      (houtcome : x.Renumbers f y) : ProgressMatches f p q o replies (.ended c x) (.ended d y)

theorem Abort.outcome_renumbers {f : Int → Int} {a b : Abort} (hkind : b.kind? = a.kind?)
    (hline : b.line = f a.line) (hlong : Text.isLong (f a.line) = Text.isLong a.line) :
    a.outcome.Renumbers f b.outcome := by
  unfold Abort.outcome
  rw [hline, hlong]
  split
  · exact .escaped _
  · exact .aborted hkind hline

theorem Fault.Alike.outcome {a b : Fault} (h : Fault.Alike a b) {f : Int → Int} {n : Int}
    (hlong : Text.isLong (f n) = Text.isLong n) : (a.outcome n).Renumbers f (b.outcome (f n)) := by
  unfold Fault.outcome
  rw [h.1]
  cases hk : a.kind? with
  | none =>
    rw [h.2 hk]
    exact .escaped a
  | some kind => exact Abort.outcome_renumbers rfl rfl hlong

theorem Workspace.renumbered_of_bare {f : Int → Int} {c d : Workspace} (h : c.bare = d.bare) :
    c.renumbered f = d.renumbered f := by
  have hboth := congrArg (Workspace.renumbered f) h
  exact hboth

namespace SteadyRenumbering

variable {f : Int → Int} {p q : Program} {o : Options} {replies : List (Option String)}
  {s t : RunState}

theorem performLine (h : SteadyRenumbering f p q) (hst : RunMatches f p q o replies s t) {n : Int}
    (hcursor : s.cursor = some n) {c : Workspace} {r : Except Fault Move}
    (hp : (Image.ofProgram p).performLine o.level n s.workspace = (c, r)) :
    ∃ d r', (Image.ofProgram q).performLine o.level (f n) t.workspace = (d, r') ∧
      d.bare = c.renumbered f ∧ ResultMatches f p q r r' := by
  have hline := h.execute (hst.left.cursor_mem hcursor) (c := s.workspace.bare) hst.left.loops_mem
    o.level
  have hbare := Image.performLine_bare hst.left.cached o.level n
  have hbare' := Image.performLine_bare hst.right.cached o.level (f n)
  have hrenumbered : s.workspace.bare.renumbered f = s.workspace.renumbered f := rfl
  rw [hst.workspace, ← hrenumbered] at hbare'
  rw [← hbare, ← hbare', hp] at hline
  exact ⟨_, _, rfl, hline.workspace, hline.result⟩

theorem start (h : SteadyRenumbering f p q) (o : Options) (replies : List (Option String)) :
    RunMatches f p q o replies (startState (.ofProgram p) o replies)
      (startState (.ofProgram q) o replies) where
  left := ⟨0, .refl _⟩
  right := ⟨0, .refl _⟩
  cursor := h.first?
  steps := rfl
  workspace := by
    have hrecord := Workspace.renumbered_of_bare (f := f)
      (({ replies } : Workspace).bare_record o.level (.started (Image.ofProgram p).program.size))
    simp only [startState, Workspace.bare_record, hrecord]
    rfl

theorem step_running (h : SteadyRenumbering f p q) (hst : RunMatches f p q o replies s t) {u : RunState}
    (hu : step (.ofProgram p) o s = .running u) :
    ∃ v, step (.ofProgram q) o t = .running v ∧ RunMatches f p q o replies u v := by
  obtain ⟨n, move, hcursor, hp, hnext, hsteps, hcancel, hlimit⟩ := NumberedBasic.step_running hu
  obtain ⟨d, r', hq, hbare, hresult⟩ := h.performLine hst hcursor hp
  cases hresult with
  | @ok _ move' hmove =>
    have hcursor' : t.cursor = some (f n) := by rw [hst.cursor, hcursor, Option.map_some]
    have hv : step (.ofProgram q) o t =
        .running ⟨(Image.ofProgram q).next? (f n) move', t.steps + 1, d⟩ := by
      simp [step, hcursor', hst.steps, hcancel, hlimit, hq]
    refine ⟨_, hv, hst.left.step hu, hst.right.step hv, ?_, ?_, hbare⟩
    · rw [hnext]
      exact h.next?_move (hst.left.cursor_mem hcursor) hmove
    · rw [hsteps, hst.steps]

theorem step_ended (h : SteadyRenumbering f p q) (hst : RunMatches f p q o replies s t) {c : Workspace}
    {x : Outcome} (hx : Stopped (.ofProgram p) o s c x) :
    ∃ d y, Stopped (.ofProgram q) o t d y ∧ d.bare = c.renumbered f ∧ x.Renumbers f y := by
  have hcursor {n : Int} (hc : s.cursor = some n) : t.cursor = some (f n) := by
    rw [hst.cursor, hc, Option.map_some]
  have hbare {c d : Workspace} (hc : c.bare = s.workspace.bare) (hd : d.bare = t.workspace.bare) :
      d.bare = c.renumbered f := by
    rw [hd, Workspace.renumbered_of_bare hc]
    exact hst.workspace
  have hsteady {n : Int} (hc : s.cursor = some n) : Text.isLong (f n) = Text.isLong n :=
    h.steady n (hst.left.cursor_mem hc)
  cases hx with
  | done hc =>
    have hc' : t.cursor = none := by rw [hst.cursor, hc, Option.map_none]
    exact ⟨_, _, .done hc', hbare (Workspace.bare_record _ _ _) (Workspace.bare_record _ _ _),
      .completed⟩
  | cancelled hc hcancel =>
    rw [← hst.steps] at hcancel
    exact ⟨_, _, .cancelled (hcursor hc) hcancel,
      hbare (Abort.bare_noted _ _ _) (Abort.bare_noted _ _ _),
      Abort.outcome_renumbers rfl rfl (hsteady hc)⟩
  | overrun hc hcancel hlimit =>
    -- both runs have counted as many lines
    rw [← hst.steps] at hcancel hlimit
    exact ⟨_, _, .overrun (hcursor hc) hcancel hlimit,
      hbare (Fault.bare_noted _ _ _ _) (Fault.bare_noted _ _ _ _),
      (Fault.Alike.refl _).outcome (hsteady hc)⟩
  | @failed n c fault hc hcancel hlimit hp =>
    obtain ⟨d, r', hq, hline, hresult⟩ := h.performLine hst hc hp
    cases hresult with
    | @error _ fault' hfault =>
      rw [← hst.steps] at hcancel hlimit
      refine ⟨_, _, .failed (hcursor hc) hcancel hlimit hq, ?_, hfault.outcome (hsteady hc)⟩
      rw [Fault.bare_noted, Workspace.renumbered_of_bare (Fault.bare_noted _ _ _ _)]
      exact hline

theorem step (h : SteadyRenumbering f p q) (hst : RunMatches f p q o replies s t) :
    ProgressMatches f p q o replies (NumberedBasic.step (.ofProgram p) o s)
      (NumberedBasic.step (.ofProgram q) o t) := by
  cases hs : NumberedBasic.step (.ofProgram p) o s with
  | running u =>
    obtain ⟨v, hv, huv⟩ := h.step_running hst hs
    rw [hv]
    exact .running huv
  | ended c x =>
    obtain ⟨d, y, hy, hbare, hxy⟩ := h.step_ended hst (step_stopped hs)
    rw [hy.step_eq]
    exact .ended hbare hxy

theorem runFrom (h : SteadyRenumbering f p q) (hst : RunMatches f p q o replies s t) (rounds : Nat) :
    (runFrom (.ofProgram p) o rounds s = none ∧
      NumberedBasic.runFrom (.ofProgram q) o rounds t = none) ∨
    ∃ c x d y, NumberedBasic.runFrom (.ofProgram p) o rounds s = some (c, x) ∧
      NumberedBasic.runFrom (.ofProgram q) o rounds t = some (d, y) ∧
      d.bare = c.renumbered f ∧ x.Renumbers f y := by
  -- both runs spend a round on each line, so one count of rounds serves for both
  induction rounds generalizing s t with
  | zero => exact .inl ⟨rfl, rfl⟩
  | succ rounds ih =>
    have hstep := h.step hst
    rw [NumberedBasic.runFrom, NumberedBasic.runFrom]
    generalize NumberedBasic.step (.ofProgram p) o s = x at hstep ⊢
    generalize NumberedBasic.step (.ofProgram q) o t = y at hstep ⊢
    cases hstep with
    | running hnext => exact ih hnext
    | @ended c d x y hbare hxy => exact .inr ⟨c, x, d, y, rfl, rfl, hbare, hxy⟩

end SteadyRenumbering

/-- A renumbered program does what the program does, in as many rounds. -/
theorem renumbering_preserves_runs (f : Int → Int) (p q : Program) (h : Renumbering f p q)
    (hlong : ∀ n ∈ p.numbers, Text.isLong (f n) = Text.isLong n) (o : Options)
    (replies : List (Option String)) :
    (∀ rounds, (run rounds p o replies).isSome ↔ (run rounds q o replies).isSome) ∧
    ∀ m n c x d y, run m p o replies = some (c, x) → run n q o replies = some (d, y) →
      d.output = c.output ∧ d.store = c.store ∧ d.reads = c.reads ∧ x.Renumbers f y := by
  have h : SteadyRenumbering f p q := ⟨h, hlong⟩
  have hrun (rounds : Nat) := h.runFrom (h.start o replies) rounds
  refine ⟨?_, ?_⟩
  · intro rounds
    rcases hrun rounds with ⟨hp, hq⟩ | ⟨c, x, d, y, hp, hq, -, -⟩
    · simp only [run, hp, hq]
    · simp only [run, hp, hq, Option.isSome_some]
  · intro m n c x d y hp hq
    rcases hrun m with ⟨hp', -⟩ | ⟨c', x', d', y', hp', hq', hbare, hxy⟩
    · cases hp'.symm.trans hp
    · cases hp'.symm.trans hp
      cases runFrom_unique hq' hq
      have houtput := congrArg Workspace.output hbare
      have hstore := congrArg Workspace.store hbare
      have hreads := congrArg Workspace.reads hbare
      exact ⟨houtput, hstore, hreads, hxy⟩

def sparse : Program := .ofLines
  [(10, "INPUT A"), (20, "IF A > 0 THEN 40 ELSE 7"), (30, "PRINT ("), (40, "GOTO 30")]

def respaced : Program := .ofLines
  [(31, "INPUT A"), (61, "IF A > 0 THEN 121 ELSE 8"), (91, "PRINT ("), (121, "GOTO 91")]

theorem sparse_renumbered : Renumbering (fun n => 3 * n + 1) sparse respaced := by
  have hp : sparse.numbers = [10, 20, 30, 40] := by decide +kernel
  have hq : respaced.numbers = [31, 61, 91, 121] := by decide +kernel
  have hinput : ((Image.ofProgram sparse).statementAt 10).toOption = some (.input "A") ∧
      ((Image.ofProgram respaced).statementAt 31).toOption = some (.input "A") := by decide +kernel
  have hbranch : ((Image.ofProgram sparse).statementAt 20).toOption =
        some (.branch ⟨.greater, .variable "A", .number 0⟩ 40 (some 7)) ∧
      ((Image.ofProgram respaced).statementAt 61).toOption =
        some (.branch ⟨.greater, .variable "A", .number 0⟩ 121 (some 8)) := by decide +kernel
  have hbad : sparse.text? 30 = some "PRINT (" ∧ respaced.text? 91 = some "PRINT (" ∧
      (Statement.ofLine "PRINT (").toOption = none := by decide +kernel
  have hgoto : ((Image.ofProgram sparse).statementAt 40).toOption = some (.goto 30) ∧
      ((Image.ofProgram respaced).statementAt 121).toOption = some (.goto 91) := by decide +kernel
  have hmissing : TargetMatches (fun n => 3 * n + 1) sparse respaced 7 8 := by
    simp [TargetMatches, hp, hq]
  refine ⟨fun m _ n _ hlt => by omega, fun m => by simp [hp, hq, eq_comm], ?_⟩
  intro n hn
  simp only [hp, List.mem_cons, List.not_mem_nil, or_false] at hn
  rcases hn with rfl | rfl | rfl | rfl
  · exact .inr ⟨_, _, eq_ok_of_toOption hinput.1, eq_ok_of_toOption hinput.2, .same rfl⟩
  · exact .inr ⟨_, _, eq_ok_of_toOption hbranch.1, eq_ok_of_toOption hbranch.2,
      .branchElse _ (Renumbering.target (n := 40) (by simp [hp])) hmissing⟩
  · obtain ⟨fault, hfault⟩ := eq_error_of_toOption hbad.2.2
    exact .inl ⟨_, fault, hbad.1, hbad.2.1, hfault⟩
  · exact .inr ⟨_, _, eq_ok_of_toOption hgoto.1, eq_ok_of_toOption hgoto.2,
      .goto (Renumbering.target (n := 30) (by simp [hp]))⟩

theorem sparse_runs_as_respaced : Renumbering (fun n => 3 * n + 1) sparse respaced ∧
    ∃ c d a b, run 4 sparse {} [some "1"] = some (c, .aborted a) ∧
      run 4 respaced {} [some "1"] = some (d, .aborted b) ∧
      a.line = 30 ∧ b.line = 91 ∧ b.kind? = a.kind? ∧ d.store = c.store ∧ d.reads = c.reads := by
  have hrun : (run 4 sparse {} [some "1"]).map (fun x => x.2) =
      some (.aborted ⟨some .syntactic, "unexpected '(' at column 7", 30⟩) := by decide +kernel
  obtain ⟨⟨c, x⟩, hc, hx⟩ := Option.map_eq_some_iff.1 hrun
  cases hx
  have hlong : ∀ n ∈ sparse.numbers, Text.isLong (3 * n + 1) = Text.isLong n := by decide +kernel
  have hboth := renumbering_preserves_runs _ _ _ sparse_renumbered hlong {} [some "1"]
  obtain ⟨⟨d, y⟩, hd⟩ := Option.isSome_iff_exists.1 ((hboth.1 4).1 (by rw [hc]; rfl))
  obtain ⟨-, hstore, hreads, hxy⟩ := hboth.2 4 4 c _ d y hc hd
  cases hxy with
  | @aborted _ b hkind hline =>
    exact ⟨sparse_renumbered, c, d, _, b, hc, hd, rfl, hline, hkind, hstore, hreads⟩

theorem printing_renumbered_escapes :
    Renumbering (fun n => n - 10 + Text.leastLong) printing longLine ∧
    (∃ c, run 2 printing {} [] = some (c, .completed)) ∧
    ∃ rounds c, run rounds longLine {} [] = some (c, .escaped .longNumber) := by
  have hp : printing.numbers = [10] := by decide +kernel
  have hq : longLine.numbers = [Text.leastLong] := by decide +kernel
  have hline : ((Image.ofProgram printing).statementAt 10).toOption = some (.print (.text "A")) ∧
      ((Image.ofProgram longLine).statementAt Text.leastLong).toOption =
        some (.print (.text "A")) := by decide +kernel
  have hrun : (run 2 printing {} []).map (fun x => x.2) = some .completed := by decide +kernel
  obtain ⟨⟨c, x⟩, hc, rfl⟩ := Option.map_eq_some_iff.1 hrun
  refine ⟨⟨fun m _ n _ hlt => by omega, fun m => by simp [hp, hq, eq_comm], ?_⟩, ⟨c, hc⟩,
    run_longLine⟩
  intro n hn
  obtain rfl : n = 10 := by simpa [hp] using hn
  refine .inr ⟨_, _, eq_ok_of_toOption hline.1, ?_, .same rfl⟩
  rw [Int.sub_self, Int.zero_add]
  exact eq_ok_of_toOption hline.2

end NumberedBasic
