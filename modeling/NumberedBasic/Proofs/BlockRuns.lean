import NumberedBasic.Proofs.Blocks
import NumberedBasic.Proofs.Escapes

set_option autoImplicit false

/-!
# Runs of block structured programs

A run has a cursor and a stack of loops where a block has its tree. `At` ties them together: the
cursor is at the first of the rows still to come, and on the stack are the heads of the loops around
them. A block that ends is followed by the run line by line (`Block.Ends.arrives`), and a run that
ends has come from a block that ends (`At.ends`), by induction on the rounds of the run.
-/
namespace NumberedBasic

def Workspace.data (c : Workspace) : Data := ⟨c.store, c.output, c.replies, c.reads⟩

def Data.workspace (d : Data) (loops : List Int) : Workspace :=
  { store := d.store, loops, output := d.output, replies := d.replies, reads := d.reads }

theorem Workspace.data_of_bare {c : Workspace} {d : Data} {loops : List Int}
    (h : c.bare = d.workspace loops) : c.data = d :=
  congrArg data h

def Ending.move : Ending → Except Fault Move
  | through => .ok .next
  | stopped => .ok .halt
  | failed _ fault => .error fault

theorem Image.performs_simple (image : Image) (line : Int) (s : Simple) (d : Data)
    (loops : List Int) : ∃ result, image.Performs line (d.workspace loops) s.statement
        ((s.exec line d).1.workspace loops) result ∧
      result.map Prod.fst = (s.exec line d).2.move := by
  cases s with
  | assign name value explicit =>
    cases hv : value.eval d.store with
    | error fault =>
      simp only [Simple.exec, hv]
      exact ⟨_, .assignFails hv, rfl⟩
    | ok x =>
      simp only [Simple.exec, hv]
      exact ⟨_, .assign hv, rfl⟩
  | input name =>
    cases hv : Reply.value? d.reply with
    | none =>
      simp only [Simple.exec, hv]
      exact ⟨_, .inputFails hv, rfl⟩
    | some x =>
      simp only [Simple.exec, hv]
      exact ⟨_, .input hv, rfl⟩
  | print item => exact ⟨_, .print item, rfl⟩
  | remark text => exact ⟨_, .remark text, rfl⟩
  | stop => exact ⟨_, .stop, rfl⟩

structure At (p : Program) (rows : List (Int × Statement Int)) (loops : List Int) (d : Data)
    (s : RunState) : Prop where
  cursor : s.cursor = rows.head?.map (·.1)
  bare : s.workspace.bare = d.workspace loops
  cached : Cached (.ofProgram p) s.workspace

def Finishes (p : Program) (level : Nat) (s : RunState) (d : Data) (outcome : Outcome) : Prop :=
  ∃ rounds c, runFrom (.ofProgram p) { level } rounds s = some (c, outcome) ∧ c.data = d

theorem Finishes.of_runs {p : Program} {level n : Nat} {s u : RunState} {d : Data}
    {outcome : Outcome} (h : Finishes p level u d outcome)
    (hruns : Runs (.ofProgram p) { level } s n u) : Finishes p level s d outcome := by
  obtain ⟨rounds, c, hc, hd⟩ := h
  exact ⟨n + rounds, c, (hruns.runFrom rounds).trans hc, hd⟩

theorem Finishes.of_step {p : Program} {level : Nat} {s : RunState} {c : Workspace} {d : Data}
    {outcome : Outcome} {loops : List Int}
    (h : step (.ofProgram p) { level } s = .ended c outcome) (hc : c.bare = d.workspace loops) :
    Finishes p level s d outcome :=
  ⟨1, c, runFrom_ended h 0, Workspace.data_of_bare hc⟩

theorem Finishes.of_cursor {p : Program} {level : Nat} {s : RunState} {d : Data} {loops : List Int}
    (h : s.cursor = none) (hs : s.workspace.bare = d.workspace loops) :
    Finishes p level s d .completed := by
  have hend : step (.ofProgram p) { level } s =
      .ended (s.workspace.record level .completed) .completed := by simp [step, h]
  exact .of_step hend ((Workspace.bare_record _ _ _).trans hs)

namespace At

variable {p : Program} {rows rest : List (Int × Statement Int)} {l : Int × Statement Int}
  {loops loops' : List Int} {d d' : Data} {s : RunState}

theorem execute {e : Workspace} {result : Except Fault (Move × Option Event)} (level : Nat)
    (h : At p (l :: rest) loops d s) (hp : Laid p rows) (hw : p.Writable) (hl : l :: rest <:+ rows)
    (hx : (Image.ofProgram p).Performs l.1 (d.workspace loops) l.2 e result) :
    (Image.ofProgram p).execute level l.1 s.workspace.bare = (e, result.map Prod.fst) := by
  have hs := hp.statements l (hl.subset List.mem_cons_self)
  have hmem := Program.mem_numbers_of_statementAt hs
  rw [Image.execute, (Image.ofProgram p).readAt_of_short (hw _ hmem), hs, h.bare]
  simp only [hx.perform_eq, hw.toldMove_eq hmem hx]

theorem fails {level : Nat} {result : Except Fault (Move × Option Event)} {fault : Fault}
    (h : At p (l :: rest) loops d s) (hp : Laid p rows) (hw : p.Writable) (hl : l :: rest <:+ rows)
    (hx : (Image.ofProgram p).Performs l.1 (d.workspace loops) l.2 (d'.workspace loops') result)
    (hr : result.map Prod.fst = .error fault) :
    Finishes p level s d' (Ending.failed l.1 fault).outcome := by
  have hmem := Program.mem_numbers_of_statementAt (hp.statements l (hl.subset List.mem_cons_self))
  have hexecute := h.execute level hp hw hl hx
  rw [hr] at hexecute
  obtain ⟨c, hc, hbare⟩ := step_of_execute_error level h.cached h.cursor hexecute
  rw [Ending.outcome_failed (hw _ hmem)]
  exact .of_step hc hbare

theorem goes_on {level : Nat} {result : Except Fault (Move × Option Event)} {move : Move}
    (h : At p (l :: rest) loops d s) (hp : Laid p rows) (hw : p.Writable) (hl : l :: rest <:+ rows)
    (hx : (Image.ofProgram p).Performs l.1 (d.workspace loops) l.2 (d'.workspace loops') result)
    (hr : result.map Prod.fst = .ok move) (more : List (Int × Statement Int))
    (hmore : (Image.ofProgram p).next? l.1 move = more.head?.map (·.1)) :
    ∃ u, step (.ofProgram p) { level } s = .running u ∧ At p more loops' d' u := by
  have hexecute := h.execute level hp hw hl hx
  rw [hr] at hexecute
  obtain ⟨u, hu, hcursor, hbare, hcached⟩ := step_of_execute_ok level h.cached h.cursor hexecute
  exact ⟨u, hu, hcursor.trans hmore, hbare, hcached⟩

end At

namespace Block

theorem lines_loop_append (head tail : Int) (guard : Condition) (body rest : Block)
    (more : List (Int × Statement Int)) : (loop head guard body tail rest).lines ++ more =
      (head, .loop guard) :: (body.lines ++ (tail, .endLoop) :: (rest.lines ++ more)) := by
  simp [lines]

/-- The loops that may be open where a block begins: those around it, and at a loop that was gone
through before also this loop. -/
def Opens (ks : List Int) : Block → List Int → Prop
  | loop head _ _ _ _, loops => loops = ks ∨ loops = head :: ks
  | _, loops => loops = ks

theorem opens_self (ks : List Int) (b : Block) : b.Opens ks ks := by
  cases b with
  | done | simple _ _ _ => rfl
  | loop _ _ _ _ _ => exact .inl rfl

end Block

/-- The run is where a block begins, inside the loops `ks`, with the rows `more` behind it. -/
structure Enters (p : Program) (rows : List (Int × Statement Int)) (b : Block)
    (more : List (Int × Statement Int)) (ks : List Int) (d : Data) (s : RunState) : Prop where
  laid : Laid p rows
  writable : p.Writable
  suffix : b.lines ++ more <:+ rows
  fresh : ∀ l ∈ b.lines, ks.head? ≠ some l.1
  place : ∃ loops, b.Opens ks loops ∧ At p (b.lines ++ more) loops d s

namespace Enters

variable {p : Program} {rows more : List (Int × Statement Int)} {ks : List Int} {d d' : Data}
  {s u : RunState} {level : Nat} {line head tail : Int} {t : Simple} {guard : Condition}
  {body rest : Block}

theorem done (h : Enters p rows .done more ks d s) : At p more ks d s := by
  obtain ⟨loops, rfl, hat⟩ := h.place
  exact hat

theorem simple_through (h : Enters p rows (.simple line t rest) more ks d s)
    (hx : t.exec line d = (d', .through)) :
    ∃ u, step (.ofProgram p) { level } s = .running u ∧ Enters p rows rest more ks d' u := by
  obtain ⟨loops, rfl, hat⟩ := h.place
  obtain ⟨result, hperforms, hresult⟩ := (Image.ofProgram p).performs_simple line t d loops
  rw [hx] at hperforms hresult
  obtain ⟨u, hu, hat'⟩ :=
    hat.goes_on h.laid h.writable h.suffix hperforms hresult _ (h.laid.next? h.suffix)
  exact ⟨u, hu, h.laid, h.writable, (List.suffix_cons _ _).trans h.suffix,
    fun l hl => h.fresh l (List.mem_cons_of_mem _ hl), loops, Block.opens_self _ _, hat'⟩

theorem simple_halt {e : Ending} (h : Enters p rows (.simple line t rest) more ks d s)
    (hx : t.exec line d = (d', e)) (he : e ≠ .through) : Finishes p level s d' e.outcome := by
  obtain ⟨loops, rfl, hat⟩ := h.place
  obtain ⟨result, hperforms, hresult⟩ := (Image.ofProgram p).performs_simple line t d loops
  rw [hx] at hperforms hresult
  cases e with
  | through => exact absurd rfl he
  | stopped =>
    obtain ⟨u, hu, hat'⟩ := hat.goes_on h.laid h.writable h.suffix hperforms hresult [] rfl
    exact (Finishes.of_cursor hat'.cursor hat'.bare).of_runs (.single hu)
  | failed n fault =>
    obtain ⟨rfl, -⟩ := Simple.exec_failed hx
    exact hat.fails h.laid h.writable h.suffix hperforms hresult

theorem loopsAfter (h : Enters p rows (.loop head guard body tail rest) more ks d s)
    {loops : List Int} (hopens : (Block.loop head guard body tail rest).Opens ks loops) :
    Image.loopsAfter head true loops = head :: ks ∧ Image.loopsAfter head false loops = ks := by
  have hfresh : ks.head? ≠ some head := h.fresh _ List.mem_cons_self
  rcases hopens with rfl | rfl
  · simp [Image.loopsAfter, hfresh]
  · simp [Image.loopsAfter]

theorem guard_fails {fault : Fault} (h : Enters p rows (.loop head guard body tail rest) more ks d s)
    (hg : guard.eval d.store = .error fault) :
    Finishes p level s d (Ending.failed head fault).outcome := by
  obtain ⟨loops, -, hat⟩ := h.place
  exact hat.fails h.laid h.writable h.suffix (.guardFails hg) rfl

theorem guard_false (h : Enters p rows (.loop head guard body tail rest) more ks d s)
    (hg : guard.eval d.store = .ok false) :
    ∃ u, step (.ofProgram p) { level } s = .running u ∧ Enters p rows rest more ks d u := by
  obtain ⟨loops, hopens, hat⟩ := h.place
  have hsuffix := h.suffix
  rw [Block.lines_loop_append] at hat hsuffix
  have htail : (tail, Statement.endLoop) :: (rest.lines ++ more) <:+ rows :=
    ((List.suffix_append _ _).trans (List.suffix_cons _ _)).trans hsuffix
  obtain ⟨move, hmove, hnext⟩ := Program.leaveLoop_eq_ok (h.laid.loopEnd? hsuffix)
  have hperforms : (Image.ofProgram p).Performs head (d.workspace loops) (.loop guard)
      (d.workspace (Image.loopsAfter head false loops)) _ := .leave hg hmove
  rw [(h.loopsAfter hopens).2] at hperforms
  obtain ⟨u, hu, hat'⟩ := hat.goes_on h.laid h.writable hsuffix hperforms rfl _
    ((hnext head).trans (h.laid.next? htail))
  exact ⟨u, hu, h.laid, h.writable, (List.suffix_cons _ _).trans htail,
    fun l hl => h.fresh l (by simp [Block.lines, hl]), ks, Block.opens_self _ _, hat'⟩

theorem guard_true (h : Enters p rows (.loop head guard body tail rest) more ks d s)
    (hg : guard.eval d.store = .ok true) :
    ∃ u, step (.ofProgram p) { level } s = .running u ∧
      Enters p rows body ((tail, .endLoop) :: (rest.lines ++ more)) (head :: ks) d u := by
  obtain ⟨loops, hopens, hat⟩ := h.place
  have hsuffix := h.suffix
  rw [Block.lines_loop_append] at hat hsuffix
  have hperforms : (Image.ofProgram p).Performs head (d.workspace loops) (.loop guard)
      (d.workspace (Image.loopsAfter head true loops)) _ := .enter hg
  rw [(h.loopsAfter hopens).1] at hperforms
  obtain ⟨u, hu, hat'⟩ :=
    hat.goes_on h.laid h.writable hsuffix hperforms rfl _ (h.laid.next? hsuffix)
  refine ⟨u, hu, h.laid, h.writable, (List.suffix_cons _ _).trans hsuffix, fun l hl heq => ?_, head :: ks,
    Block.opens_self _ _, hat'⟩
  -- the lines of the body come after the head
  have hlt := h.laid.lt_of_suffix hsuffix (List.mem_append_left _ hl)
  cases heq
  exact Int.lt_irrefl _ hlt

theorem back (h : Enters p rows (.loop head guard body tail rest) more ks d s)
    (hat : At p ((tail, .endLoop) :: (rest.lines ++ more)) (head :: ks) d' u) :
    ∃ v, step (.ofProgram p) { level } u = .running v ∧
      Enters p rows (.loop head guard body tail rest) more ks d' v := by
  have hsuffix := h.suffix
  rw [Block.lines_loop_append] at hsuffix
  have htail : (tail, Statement.endLoop) :: (rest.lines ++ more) <:+ rows :=
    ((List.suffix_append _ _).trans (List.suffix_cons _ _)).trans hsuffix
  have hhead : head ∈ p.numbers := Program.mem_numbers_of_statementAt
    (h.laid.statements _ (hsuffix.subset List.mem_cons_self))
  have hnext : (Image.ofProgram p).next? tail (.goTo head) = some head := by
    simpa [Image.next?] using hhead
  obtain ⟨v, hv, hat'⟩ := hat.goes_on h.laid h.writable htail (.back rfl) rfl
    ((Block.loop head guard body tail rest).lines ++ more) hnext
  exact ⟨v, hv, h.laid, h.writable, h.suffix, h.fresh, head :: ks, .inr rfl, hat'⟩

end Enters

/-- Where a run that enters a block gets: behind it if the block ends through, or to its end. -/
def Arrives (p : Program) (level : Nat) (more : List (Int × Statement Int)) (ks : List Int)
    (s : RunState) (d : Data) : Ending → Prop
  | .through => ∃ n u, Runs (.ofProgram p) { level } s n u ∧ At p more ks d u
  | e => Finishes p level s d e.outcome

namespace Arrives

variable {p : Program} {level : Nat} {more : List (Int × Statement Int)} {ks : List Int}
  {s u : RunState} {d : Data} {e : Ending}

theorem of_finishes (h : Finishes p level s d e.outcome) (he : e ≠ .through) :
    Arrives p level more ks s d e := by
  cases e with
  | through => exact absurd rfl he
  | stopped | failed _ _ => exact h

theorem finishes (h : Arrives p level more ks s d e) (he : e ≠ .through) :
    Finishes p level s d e.outcome := by
  cases e with
  | through => exact absurd rfl he
  | stopped | failed _ _ => exact h

theorem of_runs {n : Nat} (h : Arrives p level more ks u d e)
    (hruns : Runs (.ofProgram p) { level } s n u) : Arrives p level more ks s d e := by
  cases e with
  | through =>
    obtain ⟨m, v, hv, hat⟩ := h
    exact ⟨n + m, v, hruns.trans hv, hat⟩
  | stopped | failed _ _ => exact Finishes.of_runs h hruns

end Arrives

theorem Block.Ends.arrives {b : Block} {d d' : Data} {e : Ending} (h : b.Ends d d' e)
    {p : Program} {rows more : List (Int × Statement Int)} {ks : List Int} {s : RunState}
    (level : Nat) (hs : Enters p rows b more ks d s) : Arrives p level more ks s d' e := by
  induction h generalizing more ks s with
  | done d => exact ⟨0, s, .refl s, hs.done⟩
  | simple hx _ ih =>
    obtain ⟨u, hu, hrest⟩ := hs.simple_through hx
    exact (ih hrest).of_runs (.single hu)
  | halt hx he => exact .of_finishes (hs.simple_halt hx he) he
  | fails hg => exact hs.guard_fails hg
  | leave hg _ ih =>
    obtain ⟨u, hu, hrest⟩ := hs.guard_false hg
    exact (ih hrest).of_runs (.single hu)
  | again hg _ _ ihbody ihagain =>
    obtain ⟨u, hu, hbody⟩ := hs.guard_true hg
    obtain ⟨n, v, hv, hat⟩ := ihbody hbody
    obtain ⟨w, hw, hloop⟩ := hs.back hat
    exact (ihagain hloop).of_runs ((Runs.single hu).trans (hv.trans (.single hw)))
  | cut hg _ he ihbody =>
    obtain ⟨u, hu, hbody⟩ := hs.guard_true hg
    exact .of_finishes (((ihbody hbody).finishes he).of_runs (.single hu)) he

theorem Enters.ends {p : Program} {rows more : List (Int × Statement Int)} {b : Block}
    {ks : List Int} {d : Data} {s : RunState} {level rounds : Nat} {x : Workspace × Outcome}
    (hs : Enters p rows b more ks d s)
    (hx : runFrom (.ofProgram p) { level } rounds s = some x) : ∃ d' e, b.Ends d d' e := by
  -- every line takes a round, so the rest of the run is shorter, also for the same loop again
  induction rounds using Nat.strong_induction_on generalizing b more ks d s with
  | _ rounds ih =>
    have hnext {u : RunState} {b' : Block} {more' : List (Int × Statement Int)} {ks' : List Int}
        {d' : Data} {n : Nat} (hruns : Runs (.ofProgram p) { level } s (n + 1) u)
        (hu : Enters p rows b' more' ks' d' u) : ∃ d'' e, b'.Ends d' d'' e := by
      obtain ⟨m, hm, hrest⟩ := hruns.rest hx
      exact ih m (by omega) hu hrest
    cases b with
    | done => exact ⟨d, .through, .done d⟩
    | simple line t rest =>
      rcases hexec : t.exec line d with ⟨d', e⟩
      by_cases he : e = .through
      · subst he
        obtain ⟨u, hu, hrest⟩ := hs.simple_through hexec
        obtain ⟨d'', e, hends⟩ := hnext (.single hu) hrest
        exact ⟨d'', e, .simple hexec hends⟩
      · exact ⟨d', e, .halt hexec he⟩
    | loop head guard body tail rest =>
      cases hg : guard.eval d.store with
      | error fault => exact ⟨d, .failed head fault, .fails hg⟩
      | ok truth =>
        cases truth with
        | false =>
          obtain ⟨u, hu, hrest⟩ := hs.guard_false hg
          obtain ⟨d', e, hends⟩ := hnext (.single hu) hrest
          exact ⟨d', e, .leave hg hends⟩
        | true =>
          obtain ⟨u, hu, hbody⟩ := hs.guard_true hg
          obtain ⟨d', e, hends⟩ := hnext (.single hu) hbody
          by_cases he : e = .through
          · subst he
            obtain ⟨n, v, hv, hat⟩ := hends.arrives level hbody
            obtain ⟨w, hw, hloop⟩ := hs.back hat
            obtain ⟨d'', e, hagain⟩ := hnext (.next hu (hv.trans (.single hw))) hloop
            exact ⟨d'', e, .again hg hends hagain⟩
          · exact ⟨d', e, .cut hg hends he⟩

theorem enters_start {p : Program} {b : Block} (h : Laid p b.lines) (hw : p.Writable) (level : Nat)
    (replies : List (Option String)) :
    Enters p b.lines b [] [] { replies } (startState (.ofProgram p) { level } replies) := by
  refine ⟨h, hw, by simp, nofun, [], b.opens_self [], ?_, ?_, start_cached _ _ replies⟩
  · rw [List.append_nil, ← List.head?_map, ← h.numbers, ← Image.ofProgram_numbers]
    rfl
  · exact Workspace.bare_record _ _ _

theorem Block.Ends.finishes {p : Program} {b : Block} (h : Laid p b.lines) (hw : p.Writable)
    {level : Nat} {replies : List (Option String)} {d : Data} {e : Ending} (hends : b.Ends { replies } d e) :
    Finishes p level (startState (.ofProgram p) { level } replies) d e.outcome := by
  have harrives := hends.arrives level (enters_start h hw level replies)
  by_cases he : e = .through
  · subst he
    obtain ⟨n, u, hruns, hat⟩ := harrives
    exact (Finishes.of_cursor hat.cursor hat.bare).of_runs hruns
  · exact harrives.finishes he

/-- The runs of a program that is laid out as a block do what the block does: they end if it ends,
with the same data, and completed or with the same report. A run escapes by an infinite dividend
only. The line numbers have to be short, for a run announces every line. -/
theorem run_iff_block_ends (p : Program) (b : Block) (h : Laid p b.lines) (hw : p.Writable)
    (level : Nat) (replies : List (Option String)) :
    (∀ (d : Data) (outcome : Outcome),
      (∃ rounds c, run rounds p { level } replies = some (c, outcome) ∧ c.data = d) ↔
        ∃ e, b.Ends { replies } d e ∧ e.outcome = outcome) ∧
      ∀ (d : Data) (line : Int) (fault : Fault), b.Ends { replies } d (.failed line fault) →
        fault.kind? = none → fault = .infiniteDividend := by
  refine ⟨fun d outcome => ⟨?_, ?_⟩, fun d line fault hends => hends.fault⟩
  · rintro ⟨rounds, c, hrun, rfl⟩
    obtain ⟨d, e, hends⟩ := (enters_start h hw level replies).ends hrun
    obtain ⟨rounds', c', hrun', rfl⟩ := hends.finishes h hw
    cases runFrom_unique hrun hrun'
    exact ⟨e, hends, rfl⟩
  · rintro ⟨e, hends, rfl⟩
    exact hends.finishes h hw

def countdown : Program := .ofLines
  [(10, "INPUT N"), (20, "WHILE N > 0"), (30, "LET M = 0"), (40, "WHILE M < N"), (50, "M = M + 1"),
    (60, "WEND"), (70, "WHILE N > 5"), (80, "WEND"), (90, "PRINT M"), (100, "N = N - 1"),
    (110, "WEND"), (120, "END")]

def countdownBlock : Block :=
  let n : Expr := .variable "N"
  let m : Expr := .variable "M"
  let step (op : Operator) (e : Expr) : Expr := .chain e (.link op (.number 1) .done)
  .simple 10 (.input "N") <|
  .loop 20 ⟨.greater, n, .number 0⟩
    (.simple 30 (.assign "M" (.number 0) true) <|
    .loop 40 ⟨.less, m, n⟩
      (.simple 50 (.assign "M" (step .add m) false) .done) 60 <|
    .loop 70 ⟨.greater, n, .number 5⟩ .done 80 <|
    .simple 90 (.print (.variable "M")) <|
    .simple 100 (.assign "N" (step .subtract n) false) .done) 110 <|
  .simple 120 .stop .done

theorem countdown_ends : Laid countdown countdownBlock.lines ∧ countdown.Writable ∧
    ∃ d e, countdownBlock.Ends { replies := [some "2"] } d e ∧ e.outcome = .completed ∧
      d.output = #["2", "1"] := by
  have hlaid : Laid countdown countdownBlock.lines := by decide +kernel
  have hwritable : countdown.Writable := by
    unfold Program.Writable
    decide +kernel
  have hrun : ((run 30 countdown { level := 0 } [some "2"]).map fun x => (x.1.output, x.2)) =
      some (#["2", "1"], .completed) := by decide +kernel
  obtain ⟨⟨c, outcome⟩, hc, hpair⟩ := Option.map_eq_some_iff.1 hrun
  obtain ⟨houtput, rfl⟩ := Prod.mk.inj hpair
  obtain ⟨e, hends, he⟩ := ((run_iff_block_ends countdown countdownBlock hlaid hwritable 0
    [some "2"]).1 c.data .completed).1 ⟨30, c, hc, rfl⟩
  exact ⟨hlaid, hwritable, c.data, e, hends, he, houtput⟩

def longLineBlock : Block := .simple Text.leastLong (.print (.text "A")) .done

theorem longLine_escapes : Laid longLine longLineBlock.lines ∧
    longLineBlock.Ends {} { output := #["A"] } .through ∧
    ∃ rounds c, run rounds longLine {} [] = some (c, .escaped .longNumber) := by
  exact ⟨by decide +kernel, .simple rfl (.done _), run_longLine⟩

end NumberedBasic
