import NumberedBasic.Proofs.Flow

set_option autoImplicit false

/-!
# Block structured programs

A block is a row of simple statements and loops, each with the numbers of its lines. `Block.Ends` is
what a block does: there is no cursor in it and no stack of loops, for the loops are in the tree. A
program is laid out as a block if its lines are those of the block; `Proofs.BlockRuns` relates its
runs to `Block.Ends`.
-/
namespace NumberedBasic

inductive Simple where
  | assign (name : String) (value : Expr) (explicit : Bool)
  | print (item : PrintItem)
  | input (name : String)
  | remark (text : String)
  | stop
  deriving DecidableEq

inductive Block where
  | done
  | simple (line : Int) (s : Simple) (rest : Block)
  | loop (head : Int) (guard : Condition) (body : Block) (tail : Int) (rest : Block)

structure Data where
  store : Store := .empty
  output : Array String := #[]
  replies : List (Option String) := []
  reads : Nat := 0
  deriving DecidableEq

/-- How a block ends. If it is neither stopped nor fails, what follows it goes on. -/
inductive Ending where
  | through
  | stopped
  | failed (line : Int) (fault : Fault)
  deriving DecidableEq

namespace Ending

def outcome : Ending → Outcome
  | through | stopped => .completed
  | failed line fault =>
    match fault.kind? with
    | some kind => .aborted (.ofFault kind fault line)
    | none => .escaped fault

theorem outcome_failed {line : Int} (h : Text.isLong line = false) (fault : Fault) :
    (failed line fault).outcome = fault.outcome line := by
  cases hk : fault.kind? with
  | none => simp [outcome, hk, Fault.outcome_of_none hk]
  | some kind => simp [outcome, hk, Fault.outcome_of_kind hk h]

end Ending

namespace Data

def reply (d : Data) : String := (d.replies.head?.getD none).getD ""

def assign (d : Data) (name : String) (x : Float) : Data := { d with store := d.store.set name x }

def afterReply (d : Data) : Data := { d with replies := d.replies.tail, reads := d.reads + 1 }

end Data

namespace Simple

def statement : Simple → Statement Int
  | assign name value explicit => .assign name value explicit
  | print item => .print item
  | input name => .input name
  | remark text => .remark text
  | stop => .stop

def exec (line : Int) (d : Data) : Simple → Data × Ending
  | assign name value _ =>
    match value.eval d.store with
    | .error fault => (d, .failed line fault)
    | .ok x => (d.assign name x, .through)
  | print item => ({ d with output := d.output.push (item.shown d.store) }, .through)
  | input name =>
    match Reply.value? d.reply with
    | none => (d.afterReply, .failed line (.badReply (Text.trimmed d.reply)))
    | some x => (d.afterReply.assign name x, .through)
  | remark _ => (d, .through)
  | stop => (d, .stopped)

theorem exec_failed {s : Simple} {line n : Int} {d d' : Data} {fault : Fault}
    (h : s.exec line d = (d', .failed n fault)) :
    n = line ∧ (fault.kind? = none → fault = .infiniteDividend) := by
  cases s with
  | assign name value explicit =>
    simp only [exec] at h
    split at h <;> cases h
    rename_i he
    exact ⟨rfl, Fault.eq_infiniteDividend (Expr.eval_fault he)⟩
  | input name =>
    simp only [exec] at h
    split at h <;> cases h
    exact ⟨rfl, nofun⟩
  | print item | remark text | stop => cases h

end Simple

namespace Block

/-- The lines of a block: a loop is the line of its head, its body and the line of its end. -/
def lines : Block → List (Int × Statement Int)
  | done => []
  | simple line s rest => (line, s.statement) :: rest.lines
  | loop head guard body tail rest =>
    (head, .loop guard) :: (body.lines ++ (tail, .endLoop) :: rest.lines)

inductive Ends : Block → Data → Data → Ending → Prop where
  | done (d : Data) : Ends .done d d .through
  | simple {line : Int} {s : Simple} {rest : Block} {d d' d'' : Data} {e : Ending}
      (h : s.exec line d = (d', .through)) (hrest : Ends rest d' d'' e) :
      Ends (.simple line s rest) d d'' e
  | halt {line : Int} {s : Simple} {rest : Block} {d d' : Data} {e : Ending}
      (h : s.exec line d = (d', e)) (he : e ≠ .through) : Ends (.simple line s rest) d d' e
  | fails {head tail : Int} {guard : Condition} {body rest : Block} {d : Data} {fault : Fault}
      (h : guard.eval d.store = .error fault) :
      Ends (.loop head guard body tail rest) d d (.failed head fault)
  | leave {head tail : Int} {guard : Condition} {body rest : Block} {d d' : Data} {e : Ending}
      (h : guard.eval d.store = .ok false) (hrest : Ends rest d d' e) :
      Ends (.loop head guard body tail rest) d d' e
  | again {head tail : Int} {guard : Condition} {body rest : Block} {d d' d'' : Data} {e : Ending}
      (h : guard.eval d.store = .ok true) (hbody : Ends body d d' .through)
      (hagain : Ends (.loop head guard body tail rest) d' d'' e) :
      Ends (.loop head guard body tail rest) d d'' e
  | cut {head tail : Int} {guard : Condition} {body rest : Block} {d d' : Data} {e : Ending}
      (h : guard.eval d.store = .ok true) (hbody : Ends body d d' e) (he : e ≠ .through) :
      Ends (.loop head guard body tail rest) d d' e

theorem Ends.fault {b : Block} {d d' : Data} {line : Int} {fault : Fault}
    (h : b.Ends d d' (.failed line fault)) (hk : fault.kind? = none) :
    fault = .infiniteDividend := by
  generalize he : Ending.failed line fault = e at h
  induction h with
  | done _ => cases he
  | simple _ _ ih | leave _ _ ih => exact ih he
  | again _ _ _ _ ih => exact ih he
  | cut _ _ _ ih => exact ih he
  | halt h _ =>
    subst he
    exact (Simple.exec_failed h).2 hk
  | fails h =>
    cases he
    exact Fault.eq_infiniteDividend (Condition.eval_fault h) hk

end Block

structure Laid (p : Program) (rows : List (Int × Statement Int)) : Prop where
  numbers : p.numbers = rows.map (·.1)
  statements : ∀ l ∈ rows, (Image.ofProgram p).statementAt l.1 = .ok l.2

instance (p : Program) (rows : List (Int × Statement Int)) : Decidable (Laid p rows) :=
  decidable_of_iff (p.numbers = rows.map (·.1) ∧
      ∀ l ∈ rows, ((Image.ofProgram p).statementAt l.1).toOption = some l.2)
    ⟨fun h => ⟨h.1, fun l hl => eq_ok_of_toOption (h.2 l hl)⟩,
      fun h => ⟨h.numbers, fun l hl => by rw [h.statements l hl]; rfl⟩⟩

namespace Laid

variable {p : Program} {rows : List (Int × Statement Int)}

theorem keywordAt (h : Laid p rows) {l : Int × Statement Int} (hl : l ∈ rows) :
    p.keywordAt l.1 = l.2.keyword? :=
  Program.keywordAt_of_statementAt (h.statements l hl)

theorem after (h : Laid p rows) {l : Int × Statement Int} {rest : List (Int × Statement Int)}
    (hl : l :: rest <:+ rows) : p.numbers.filter (l.1 < ·) = rest.map (·.1) := by
  obtain ⟨front, rfl⟩ := hl
  have hrow : p.numbers = front.map (·.1) ++ l.1 :: rest.map (·.1) := by simp [h.numbers]
  exact Program.filter_after hrow

theorem lt_of_suffix (h : Laid p rows) {l m : Int × Statement Int}
    {rest : List (Int × Statement Int)} (hl : l :: rest <:+ rows) (hm : m ∈ rest) : l.1 < m.1 := by
  have hin : m.1 ∈ p.numbers.filter (l.1 < ·) := by
    rw [h.after hl]
    exact List.mem_map_of_mem hm
  exact of_decide_eq_true (List.mem_filter.1 hin).2

theorem next? (h : Laid p rows) {l : Int × Statement Int} {rest : List (Int × Statement Int)}
    (hl : l :: rest <:+ rows) : (Image.ofProgram p).order.next? l.1 = rest.head?.map (·.1) := by
  rw [LineOrder.next?, LineOrder.after_eq_filter, Image.ofProgram_numbers, h.after hl, List.head?_map]

/-- In a block every head has its end, so that a count over its lines goes through. -/
theorem closer?_block (h : Laid p rows) (b : Block) (hb : ∀ l ∈ b.lines, l ∈ rows) (depth : Nat)
    (ns : List Int) : p.closer? depth (b.lines.map (·.1) ++ ns) = p.closer? depth ns := by
  induction b generalizing depth ns with
  | done => rfl
  | simple line s rest ih =>
    have hkey : p.keywordAt line = s.statement.keyword? := h.keywordAt (hb _ List.mem_cons_self)
    have hrest := ih fun l hl => hb l (List.mem_cons_of_mem _ hl)
    rw [Block.lines, List.map_cons, List.cons_append, Program.closer?_plain, hrest]
    · rw [hkey]
      rcases s with ⟨_, _, _ | _⟩ | _ | _ | _ | _ <;> exact nofun
    · rw [hkey]
      rcases s with ⟨_, _, _ | _⟩ | _ | _ | _ | _ <;> exact nofun
  | loop head guard body tail rest ihbody ihrest =>
    have hhead : p.keywordAt head = some .WHILE := h.keywordAt (hb _ List.mem_cons_self)
    have htail : p.keywordAt tail = some .WEND :=
      h.keywordAt (l := (tail, .endLoop)) (hb _ (by simp [Block.lines]))
    have hbody := ihbody fun l hl => hb l (by simp [Block.lines, hl])
    have hrest := ihrest fun l hl => hb l (by simp [Block.lines, hl])
    simp only [Block.lines, List.map_cons, List.map_append, List.cons_append, List.append_assoc]
    rw [Program.closer?_head hhead, hbody, Program.closer?_end_succ htail, hrest]

theorem loopEnd? (h : Laid p rows) {head tail : Int} {guard : Condition} {body : Block}
    {rest : List (Int × Statement Int)}
    (hl : (head, .loop guard) :: (body.lines ++ (tail, .endLoop) :: rest) <:+ rows) :
    p.loopEnd? head = some tail := by
  have hin : ∀ l ∈ body.lines, l ∈ rows := fun l hm => hl.subset (by simp [hm])
  have htail : p.keywordAt tail = some .WEND :=
    h.keywordAt (l := (tail, .endLoop)) (hl.subset (by simp))
  rw [Program.loopEnd?_eq, h.after hl, List.map_append, h.closer?_block body hin]
  exact Program.closer?_end_zero htail _

end Laid

end NumberedBasic
