import Mathlib.Data.List.Sort
import NumberedBasic.Proofs.Failures
import NumberedBasic.Proofs.Flow

set_option autoImplicit false

/-!
# The open loops of disciplined programs

A program is disciplined if its loop heads and ends pair up and its jumps do not cross the borders of
loops, but for jumps back to the head of the loop they are in. The open loops of a run of such a
program can be read off its cursor: they are the loops around it.
-/
namespace NumberedBasic

namespace Program

/-- The loop with head `w` is around line `c`. Its end is inside, its head is not. -/
def Encloses (p : Program) (w c : Int) : Prop :=
  p.keywordAt w = some .WHILE ∧ w < c ∧ ∃ e ∈ p.loopEnd? w, c ≤ e

instance (p : Program) (w c : Int) : Decidable (p.Encloses w c) :=
  inferInstanceAs (Decidable (_ ∧ _ ∧ _))

def enclosing (p : Program) (c : Int) : List Int := p.numbers.filter (p.Encloses · c)

def targetsAt (p : Program) (n : Int) : List Int :=
  match (Image.ofProgram p).statementAt n with
  | .ok statement => statement.targets
  | .error _ => []

structure Disciplined (p : Program) : Prop where
  closed : ∀ n ∈ p.numbers, p.keywordAt n = some .WHILE → (p.loopEnd? n).isSome
  opened : ∀ n ∈ p.numbers, p.keywordAt n = some .WEND →
    ∃ w ∈ p.numbers, p.keywordAt w = some .WHILE ∧ p.loopEnd? w = some n
  jumps : ∀ n ∈ p.numbers, ∀ t ∈ p.targetsAt n, t ∈ p.numbers →
    p.enclosing t = p.enclosing n ∨ (p.enclosing n).getLast? = some t

instance (p : Program) : Decidable p.Disciplined :=
  decidable_of_iff (_ ∧ _ ∧ _) ⟨fun ⟨h, h', h''⟩ => ⟨h, h', h''⟩, fun ⟨h, h', h''⟩ => ⟨h, h', h''⟩⟩

@[simp] theorem mem_enclosing {p : Program} {w c : Int} : w ∈ p.enclosing c ↔ p.Encloses w c := by
  have hmem (h : p.Encloses w c) : w ∈ p.numbers := mem_numbers_of_keywordAt h.1
  simpa [enclosing] using hmem

theorem enclosing_ascending (p : Program) (c : Int) : (p.enclosing c).Pairwise (· < ·) :=
  p.numbers_ascending.filter _

theorem enclosing_lt {p : Program} {w c : Int} (h : w ∈ p.enclosing c) : w < c :=
  (mem_enclosing.1 h).2.1

theorem enclosing_eq {p : Program} {a b : Int} (h : ∀ w, p.Encloses w a ↔ p.Encloses w b) :
    p.enclosing a = p.enclosing b :=
  List.filter_congr fun w _ => decide_eq_decide.2 (h w)

theorem enclosing_eq_append {p : Program} {a b : Int}
    (h : ∀ w, p.Encloses w a ↔ p.Encloses w b ∨ w = b) : p.enclosing a = p.enclosing b ++ [b] := by
  have hb : (p.enclosing b ++ [b]).Pairwise (· < ·) := by
    refine List.pairwise_append.2 ⟨p.enclosing_ascending b, List.pairwise_singleton _ _, ?_⟩
    intro w hw v hv
    rw [List.mem_singleton.1 hv]
    exact enclosing_lt hw
  refine (p.enclosing_ascending a).eq_of_mem_iff hb fun w => ?_
  rw [mem_enclosing, List.mem_append, mem_enclosing, List.mem_singleton]
  exact h w

theorem Encloses.end_le {p : Program} {w c e : Int} (h : p.Encloses w c)
    (he : p.loopEnd? w = some e) : c ≤ e := by
  obtain ⟨-, -, e', he', hle⟩ := h
  cases he.symm.trans he'
  exact hle

theorem Encloses.lt_end {p : Program} {w c e : Int} (h : p.Encloses w c)
    (he : p.loopEnd? w = some e) (hc : p.keywordAt c ≠ some .WEND) : c < e := by
  refine lt_of_le_of_ne (h.end_le he) fun heq => hc ?_
  rw [heq]
  exact (loopEnd?_spec he).2.2

theorem Encloses.end_lt {p : Program} {v w e : Int} (h : p.Encloses v w)
    (hw : p.keywordAt w = some .WHILE) (he : p.loopEnd? w = some e) :
    ∃ e', p.loopEnd? v = some e' ∧ e < e' := by
  obtain ⟨e', he', -⟩ := h.2.2
  obtain ⟨k, hk, hlt⟩ := loopEnd?_nested he' hw h.2.1 (h.lt_end he' (by simp [hw]))
  cases he.symm.trans hk
  exact ⟨e', he', hlt⟩

theorem next?_spec {p : Program} {c m : Int} (h : (Image.ofProgram p).order.next? c = some m) :
    m ∈ p.numbers ∧ c < m ∧ ∀ k ∈ p.numbers, c < k → m ≤ k := by
  simpa [LineOrder.next?_eq_some_iff] using h

/-- Going on to the next line leaves no loop but at its end, and enters one only at its head. -/
theorem encloses_next {p : Program} {c m : Int} (h : (Image.ofProgram p).order.next? c = some m)
    (hc : p.keywordAt c ≠ some .WEND) (w : Int) : p.Encloses w m ↔
      p.Encloses w c ∨ w = c ∧ p.keywordAt c = some .WHILE ∧ (p.loopEnd? c).isSome := by
  obtain ⟨-, hcm, hleast⟩ := next?_spec h
  constructor
  · rintro ⟨hk, hwm, e, he, hme⟩
    have hwc : ¬ c < w := fun hcw =>
      Int.not_lt.2 (hleast w (mem_numbers_of_keywordAt hk) hcw) hwm
    rcases Int.lt_or_eq_of_le (Int.not_lt.1 hwc) with hlt | rfl
    · exact .inl ⟨hk, hlt, e, he, by omega⟩
    · exact .inr ⟨rfl, hk, Option.isSome_of_mem he⟩
  · rintro (hin | ⟨rfl, hk, hsome⟩)
    · obtain ⟨e, he, -⟩ := hin.2.2
      have hlt : c < e := hin.lt_end he hc
      exact ⟨hin.1, Int.lt_trans hin.2.1 hcm, e, he, hleast e (loopEnd?_spec he).1 hlt⟩
    · obtain ⟨e, he⟩ := Option.isSome_iff_exists.1 hsome
      obtain ⟨hmem, hlt, -⟩ := loopEnd?_spec he
      exact ⟨hk, hcm, e, he, hleast e hmem hlt⟩

theorem enclosing_next {p : Program} {c m : Int} (h : (Image.ofProgram p).order.next? c = some m)
    (hw : p.keywordAt c ≠ some .WHILE) (he : p.keywordAt c ≠ some .WEND) :
    p.enclosing m = p.enclosing c := by
  refine enclosing_eq fun w => ?_
  rw [encloses_next h he]
  exact ⟨fun h => h.resolve_right fun h => hw h.2.1, .inl⟩

theorem enclosing_enter {p : Program} {c m : Int} (h : (Image.ofProgram p).order.next? c = some m)
    (hw : p.keywordAt c = some .WHILE) (hsome : (p.loopEnd? c).isSome) :
    p.enclosing m = p.enclosing c ++ [c] := by
  refine enclosing_eq_append fun w => ?_
  rw [encloses_next h (by simp [hw])]
  simp [hw, hsome]

theorem encloses_end {p : Program} {w e : Int} (hw : p.keywordAt w = some .WHILE)
    (he : p.loopEnd? w = some e) (v : Int) : p.Encloses v e ↔ p.Encloses v w ∨ v = w := by
  have hwe : w < e := (loopEnd?_spec he).2.1
  constructor
  · rintro ⟨hk, hve, e', he', hle⟩
    rcases Int.lt_trichotomy v w with hlt | heq | hlt
    · exact .inl ⟨hk, hlt, e', he', by omega⟩
    · exact .inr heq
    · -- a loop that starts in between ends before `e`
      obtain ⟨k, hk', hlt'⟩ := loopEnd?_nested he hk hlt hve
      cases he'.symm.trans hk'
      omega
  · rintro (hin | rfl)
    · obtain ⟨e', he', hlt⟩ := hin.end_lt hw he
      exact ⟨hin.1, Int.lt_trans hin.2.1 hwe, e', he', Int.le_of_lt hlt⟩
    · exact ⟨hw, hwe, e, he, Int.le_refl e⟩

theorem enclosing_end {p : Program} {w e : Int} (hw : p.keywordAt w = some .WHILE)
    (he : p.loopEnd? w = some e) : p.enclosing e = p.enclosing w ++ [w] :=
  enclosing_eq_append (encloses_end hw he)

theorem enclosing_behind {p : Program} {w e m : Int} (hw : p.keywordAt w = some .WHILE)
    (he : p.loopEnd? w = some e) (h : (Image.ofProgram p).order.next? e = some m) :
    p.enclosing m = p.enclosing w := by
  obtain ⟨-, hem, hleast⟩ := next?_spec h
  obtain ⟨-, hwe, hend⟩ := loopEnd?_spec he
  refine enclosing_eq fun v => ⟨?_, fun hin => ?_⟩
  · rintro ⟨hk, hvm, e', he', hle⟩
    have hve : v < e := by
      refine lt_of_le_of_ne (Int.not_lt.1 fun hev => ?_) fun heq => ?_
      · exact Int.not_lt.2 (hleast v (mem_numbers_of_keywordAt hk) hev) hvm
      · rw [heq, hend] at hk
        cases hk
    have hin : p.Encloses v e := ⟨hk, hve, e', he', by omega⟩
    refine ((encloses_end hw he v).1 hin).resolve_right fun heq => ?_
    rw [heq, he] at he'
    cases he'
    omega
  · obtain ⟨e', he', hlt⟩ := hin.end_lt hw he
    have hvw := hin.2.1
    exact ⟨hin.1, by omega, e', he', hleast e' (loopEnd?_spec he').1 hlt⟩

theorem enclosing_innermost {p : Program} {c t : Int} (h : (p.enclosing c).getLast? = some t) :
    p.keywordAt t = some .WHILE ∧ p.enclosing c = p.enclosing t ++ [t] := by
  obtain ⟨outer, hrow⟩ := List.getLast?_eq_some_iff.1 h
  have hasc := p.enclosing_ascending c
  rw [hrow] at hasc
  have hle (w : Int) (hw : w ∈ p.enclosing c) : w < t ∨ w = t := by
    rw [hrow] at hw
    rcases List.mem_append.1 hw with hw | hw
    · exact .inl ((List.pairwise_append.1 hasc).2.2 w hw t List.mem_cons_self)
    · exact .inr (List.mem_singleton.1 hw)
  have ht : p.Encloses t c := mem_enclosing.1 (hrow ▸ by simp)
  have htc : t < c := ht.2.1
  have hk : p.keywordAt t = some .WHILE := ht.1
  obtain ⟨k, hk', hck⟩ := ht.2.2
  refine ⟨hk, enclosing_eq_append fun w => ⟨fun hw => ?_, ?_⟩⟩
  · rcases hle w (mem_enclosing.2 hw) with hlt | heq
    · obtain ⟨hkw, -, e, he, hce⟩ := hw
      exact .inl ⟨hkw, hlt, e, he, by omega⟩
    · exact .inr heq
  · rintro (hin | rfl)
    · obtain ⟨e, he, hlt⟩ := hin.end_lt hk hk'
      exact ⟨hin.1, Int.lt_trans hin.2.1 htc, e, he, by omega⟩
    · exact ht

/-- The open loops at a line are those around it. At a head that was reached from inside its loop,
that loop is open too. -/
def StackAt (p : Program) (c : Int) (loops : List Int) : Prop :=
  loops.reverse = p.enclosing c ∨
    p.keywordAt c = some .WHILE ∧ loops.reverse = p.enclosing c ++ [c]

theorem StackAt.eq_enclosing {p : Program} {c : Int} {loops : List Int} (h : p.StackAt c loops)
    (hc : p.keywordAt c ≠ some .WHILE) : loops.reverse = p.enclosing c :=
  h.resolve_right fun h => hc h.1

/-- A head pushes its loop and pops it again, whether it is reached from outside or from inside. -/
theorem StackAt.loopsAfter {p : Program} {c : Int} {loops : List Int} (h : p.StackAt c loops) :
    (Image.loopsAfter c true loops).reverse = p.enclosing c ++ [c] ∧
      (Image.loopsAfter c false loops).reverse = p.enclosing c := by
  rcases h with h | ⟨-, h⟩
  · have htop : loops.head? ≠ some c := by
      intro hhead
      have hmem : c ∈ loops.reverse := List.mem_reverse.2 (List.mem_of_head? hhead)
      rw [h] at hmem
      exact Int.lt_irrefl c (enclosing_lt hmem)
    simp [Image.loopsAfter, htop, h]
  · have hloops : loops = c :: (p.enclosing c).reverse := by
      rw [← List.reverse_reverse loops, h, List.reverse_append]
      rfl
    simp [Image.loopsAfter, hloops]

theorem Disciplined.stackAt_end {p : Program} (hp : p.Disciplined) {c : Int} {loops : List Int}
    (hc : p.keywordAt c = some .WEND) (h : p.StackAt c loops) :
    ∃ (w : Int) (outer : List Int), loops = w :: outer ∧ p.keywordAt w = some .WHILE ∧
      p.loopEnd? w = some c ∧ outer.reverse = p.enclosing w := by
  obtain ⟨w, -, hw, he⟩ := hp.opened c (mem_numbers_of_keywordAt hc) hc
  have hrow : loops.reverse = p.enclosing w ++ [w] := by
    rw [h.eq_enclosing (by simp [hc]), enclosing_end hw he]
  have hloops : loops = w :: (p.enclosing w).reverse := by
    rw [← List.reverse_reverse loops, hrow, List.reverse_append]
    rfl
  exact ⟨w, _, hloops, hw, he, List.reverse_reverse _⟩

theorem next?_goTo {p : Program} {c t m : Int}
    (h : (Image.ofProgram p).next? c (.goTo t) = some m) : t ∈ p.numbers ∧ m = t := by
  simp only [Image.next?, LineOrder.contains_iff, Image.ofProgram_numbers] at h
  split at h
  · rename_i hin
    exact ⟨hin, (Option.some.inj h).symm⟩
  · cases h

theorem Disciplined.flows_stackAt {p : Program} (hp : p.Disciplined) {c m : Int} {store : Store}
    {statement : Statement Int} {move : Move} {loops loops' : List Int}
    (hs : (Image.ofProgram p).statementAt c = .ok statement) (h : p.StackAt c loops)
    (hflows : (Image.ofProgram p).Flows c store loops statement move loops')
    (hm : (Image.ofProgram p).next? c move = some m) : p.StackAt m loops' := by
  have hkey := keywordAt_of_statementAt hs
  cases hflows with
  | plain hw he =>
    rw [← hkey] at hw he
    exact .inl ((h.eq_enclosing hw).trans (enclosing_next hm hw he).symm)
  | @jump _ target ht =>
    obtain ⟨hin, rfl⟩ := next?_goTo hm
    have hw : p.keywordAt c ≠ some .WHILE := by
      rw [hkey]
      cases statement <;> simp_all [Statement.targets, Statement.keyword?]
    have htarget : m ∈ p.targetsAt c := by
      rw [targetsAt, hs]
      exact ht
    -- a jump stays between the same loops, or it goes to the head of the innermost one
    rcases hp.jumps c (mem_numbers_of_statementAt hs) m htarget hin with heq | hlast
    · exact .inl ((h.eq_enclosing hw).trans heq.symm)
    · obtain ⟨hk, hrow⟩ := enclosing_innermost hlast
      exact .inr ⟨hk, (h.eq_enclosing hw).trans hrow⟩
  | enter _ =>
    have hsome := hp.closed c (mem_numbers_of_statementAt hs) hkey
    exact .inl (h.loopsAfter.1.trans (enclosing_enter hm hkey hsome).symm)
  | leave _ hmove =>
    obtain ⟨e, he⟩ := Option.isSome_iff_exists.1 (hp.closed c (mem_numbers_of_statementAt hs) hkey)
    obtain ⟨move', hmove', hnext⟩ := leaveLoop_eq_ok he
    cases hmove.symm.trans hmove'
    exact .inl (h.loopsAfter.2.trans (enclosing_behind hkey he (hnext c ▸ hm)).symm)
  | back hloops =>
    -- the head is reached from inside, with its loop still open
    obtain ⟨-, rfl⟩ := next?_goTo hm
    obtain ⟨w, outer, hloops', hw, -, houter⟩ := hp.stackAt_end hkey h
    cases hloops.symm.trans hloops'
    exact .inr ⟨hw, by rw [hloops', List.reverse_cons, houter]⟩
  | stop => cases hm

theorem Disciplined.reachable_stackAt {p : Program} (hp : p.Disciplined) {o : Options}
    {replies : List (Option String)} {s : RunState} (h : Reachable p o replies s) {c : Int}
    (hc : s.cursor = some c) : p.StackAt c s.workspace.loops := by
  have hrun := h.invariant (fun s => ∀ c, s.cursor = some c → p.StackAt c s.workspace.loops) ?_ ?_
  · exact hrun c hc
  · intro c hc
    have hfirst : (Image.ofProgram p).order.first? = some c := hc
    rw [LineOrder.first?, Image.ofProgram_numbers, List.head?_eq_some_iff] at hfirst
    obtain ⟨rest, hrow⟩ := hfirst
    have hnone : p.enclosing c = [] := by
      refine List.eq_nil_iff_forall_not_mem.2 fun w hw => ?_
      have hasc := p.numbers_ascending
      have hmem := mem_numbers_of_keywordAt (mem_enclosing.1 hw).1
      rw [hrow] at hasc hmem
      have hlt := enclosing_lt hw
      rcases List.mem_cons.1 hmem with rfl | hmem
      · exact Int.lt_irrefl w hlt
      · exact Int.lt_asymm hlt ((List.pairwise_cons.1 hasc).1 w hmem)
    exact .inl (by simp [startState, hnone])
  · intro s u hs ih hu m hm
    obtain ⟨line, statement, move, hline, hst, hflows, hcursor⟩ := step_flows hs.cached hu
    exact hp.flows_stackAt hst (ih line hline) hflows (hcursor ▸ hm)

theorem Disciplined.abort_kind {p : Program} (hp : p.Disciplined) {o : Options}
    {replies : List (Option String)} {s : RunState} (h : Reachable p o replies s) {c : Workspace}
    {abort : Abort} (hend : step (.ofProgram p) o s = .ended c (.aborted abort)) :
    abort.kind? ≠ some .unmatchedLoop := by
  intro hkind
  generalize hout : Outcome.aborted abort = outcome at hend
  cases step_stopped hend with
  | done _ => cases hout
  | cancelled _ _ =>
    obtain ⟨-, rfl⟩ := Abort.of_outcome_aborted hout.symm
    cases hkind
  | overrun _ _ _ =>
    cases Fault.kind?_of_raised (Fault.kind?_of_outcome hout.symm hkind)
  | @failed line d fault hline _ _ hp' =>
    have hk : fault.kind? = some .unmatchedLoop := Fault.kind?_of_outcome hout.symm hkind
    have hstack := hp.reachable_stackAt h hline
    rcases Image.performLine_unmatched h.cached (congrArg Prod.snd hp') hk with
      ⟨hs, hloops⟩ | ⟨guard, hs, hleave⟩
    · obtain ⟨w, outer, hloops', -⟩ := hp.stackAt_end (keywordAt_of_statementAt hs) hstack
      rw [hloops'] at hloops
      cases hloops
    · have hsome := hp.closed line (mem_numbers_of_statementAt hs) (keywordAt_of_statementAt hs)
      obtain ⟨e, he⟩ := Option.isSome_iff_exists.1 hsome
      obtain ⟨move, hmove, -⟩ := leaveLoop_eq_ok he
      rw [hmove] at hleave
      cases hleave

end Program

/-- In a disciplined program the open loops are the loops around the cursor, no run ends by a loop
without an end or an end without a loop, and every end that can be announced goes back to the head it
belongs to. -/
theorem disciplined_loops_enclose (p : Program) (hp : p.Disciplined) (o : Options)
    (replies : List (Option String)) :
    (∀ (s : RunState) (c : Int), Reachable p o replies s → s.cursor = some c →
      p.StackAt c s.workspace.loops ∧
        ((Image.ofProgram p).statementAt c = .ok .endLoop →
          ∃ w, p.keywordAt w = some .WHILE ∧ p.loopEnd? w = some c ∧
            ((Image.ofProgram p).performLine o.level c s.workspace).2 =
              (if Text.isLong c then .error .longNumber else .ok (.goTo w)) ∧
            ∀ u, step (.ofProgram p) o s = .running u → u.cursor = some w)) ∧
      ∀ (rounds : Nat) (c : Workspace) (abort : Abort),
        run rounds p o replies = some (c, .aborted abort) →
          abort.kind? ≠ some .unmatchedLoop := by
  refine ⟨fun s c hs hc => ?_, fun rounds c abort hrun => ?_⟩
  · have hstack := hp.reachable_stackAt hs hc
    refine ⟨hstack, fun hend => ?_⟩
    obtain ⟨w, outer, hloops, hw, he, -⟩ :=
      hp.stackAt_end (Program.keywordAt_of_statementAt hend) hstack
    refine ⟨w, hw, he, ?_, fun u hu => ?_⟩
    · rw [Image.performLine_endLoop hs.cached hend, hloops, Image.tailMove]
    · obtain ⟨w', outer', hloops', -, hcursor⟩ := step_endLoop hs.cached hc hend hu
      cases hloops.symm.trans hloops'
      rw [hcursor]
      simpa [Image.next?] using Program.mem_numbers_of_keywordAt hw
  · obtain ⟨n, u, hruns, hend⟩ := ended_of_runFrom hrun
    exact hp.abort_kind ⟨n, hruns⟩ hend

def nestedLoops : Program := .ofLines
  [(10, "I = 0"), (20, "WHILE I < 2"), (30, "J = 0"), (40, "WHILE J < 2"), (50, "J = J + 1"),
    (60, "IF J = 1 THEN 40 ELSE 70"), (70, "WEND"), (80, "I = I + 1"), (90, "IF I = 1 THEN 20"),
    (100, "WEND"), (110, "PRINT I")]

theorem nestedLoops_enclose : nestedLoops.Disciplined ∧
    ∃ s, Reachable nestedLoops {} [] s ∧ s.cursor = some 70 ∧ s.workspace.loops = [40, 20] ∧
      nestedLoops.StackAt 70 [40, 20] ∧
      ∃ w, nestedLoops.keywordAt w = some .WHILE ∧ nestedLoops.loopEnd? w = some 70 ∧
        ((Image.ofProgram nestedLoops).performLine 0 70 s.workspace).2 = .ok (.goTo w) := by
  have hp : nestedLoops.Disciplined := by decide +kernel
  have hstate : ((stateAfter (.ofProgram nestedLoops) {} 9
      (startState (.ofProgram nestedLoops) {} [])).map fun s => (s.cursor, s.workspace.loops)) =
        some (some 70, [40, 20]) := by decide +kernel
  have hend : ((Image.ofProgram nestedLoops).statementAt 70).toOption = some .endLoop := by
    decide +kernel
  obtain ⟨s, hs, hpair⟩ := Option.map_eq_some_iff.1 hstate
  obtain ⟨hcursor, hloops⟩ := Prod.mk.inj hpair
  have hreach : Reachable nestedLoops {} [] s := ⟨9, runs_of_stateAfter hs⟩
  obtain ⟨hstack, hback⟩ := (disciplined_loops_enclose nestedLoops hp {} []).1 s 70 hreach hcursor
  obtain ⟨w, hw, he, hmove, -⟩ := hback (eq_ok_of_toOption hend)
  exact ⟨hp, s, hreach, hcursor, hloops, hloops ▸ hstack, w, hw, he, hmove⟩

end NumberedBasic
