import NumberedBasic.Proofs.Rows

set_option autoImplicit false

/-!
# Beginnings of statements

Kinds of tokens are viable if some sentence of the grammar starts with them. The parser stops at the
first token that makes them not viable: every state it comes to can still be finished (`completes`),
and whether tokens are derived depends on nothing but their kinds (`StatementTree.of_kinds`).
-/
namespace NumberedBasic

namespace Grammar

def Derivable (ts : List Token) : Prop := ∃ tree : StatementTree, tree.tokens = ts

/-- Some sentence starts with these kinds. -/
def Viable (kinds : List Token.Kind) : Prop :=
  ∃ tree : StatementTree, kinds <+: tree.tokens.map (·.kind)

def Leaf.withToken {kinds : List Token.Kind} (l : Leaf kinds) (t : Token)
    (h : t.kind = l.token.kind) : Leaf kinds :=
  ⟨t, h ▸ l.kind_mem⟩

mutual

theorem ExprTree.of_kinds (e : ExprTree) {ts : List Token}
    (h : ts.map (·.kind) = e.tokens.map (·.kind)) : ∃ e' : ExprTree, e'.tokens = ts := by
  obtain ⟨first, rest⟩ := e
  rw [ExprTree.tokens, List.map_append] at h
  obtain ⟨us, vs, rfl, hus, hvs⟩ := List.map_eq_append_iff.1 h
  obtain ⟨first', rfl⟩ := first.of_kinds hus
  obtain ⟨rest', rfl⟩ := rest.of_kinds hvs
  exact ⟨.expr first' rest', rfl⟩

theorem LinkTrees.of_kinds (l : LinkTrees) {ts : List Token}
    (h : ts.map (·.kind) = l.tokens.map (·.kind)) : ∃ l' : LinkTrees, l'.tokens = ts := by
  cases l with
  | none =>
    obtain rfl := List.map_eq_nil_iff.1 h
    exact ⟨.none, rfl⟩
  | more before op operand =>
    rw [LinkTrees.tokens, List.map_append, List.map_cons] at h
    obtain ⟨us, vs, rfl, hus, hvs⟩ := List.map_eq_append_iff.1 h
    obtain ⟨t, vs, rfl, ht, hvs⟩ := List.map_eq_cons_iff.1 hvs
    obtain ⟨before', rfl⟩ := before.of_kinds hus
    obtain ⟨operand', rfl⟩ := operand.of_kinds hvs
    exact ⟨.more before' (op.withToken t ht) operand', rfl⟩

theorem OperandTree.of_kinds (o : OperandTree) {ts : List Token}
    (h : ts.map (·.kind) = o.tokens.map (·.kind)) : ∃ o' : OperandTree, o'.tokens = ts := by
  cases o with
  | number n =>
    obtain ⟨t, rfl, ht⟩ := List.map_eq_singleton_iff.1 h
    exact ⟨.number (n.withToken t ht), rfl⟩
  | name n =>
    obtain ⟨t, rfl, ht⟩ := List.map_eq_singleton_iff.1 h
    exact ⟨.name (n.withToken t ht), rfl⟩
  | group opening e closing =>
    rw [OperandTree.tokens, List.map_cons, List.map_append] at h
    obtain ⟨t, us, rfl, ht, hus⟩ := List.map_eq_cons_iff.1 h
    obtain ⟨vs, ws, rfl, hvs, hws⟩ := List.map_eq_append_iff.1 hus
    obtain ⟨e', rfl⟩ := e.of_kinds hvs
    obtain ⟨u, rfl, hu⟩ := List.map_eq_singleton_iff.1 hws
    exact ⟨.group (opening.withToken t ht) e' (closing.withToken u hu), rfl⟩
  | negate sign operand =>
    obtain ⟨t, us, rfl, ht, hus⟩ := List.map_eq_cons_iff.1 h
    obtain ⟨operand', rfl⟩ := operand.of_kinds hus
    exact ⟨.negate (sign.withToken t ht) operand', rfl⟩

end

theorem ConditionTree.of_kinds (c : ConditionTree) {ts : List Token}
    (h : ts.map (·.kind) = c.tokens.map (·.kind)) : ∃ c' : ConditionTree, c'.tokens = ts := by
  rw [ConditionTree.tokens, List.map_append, List.map_cons] at h
  obtain ⟨us, vs, rfl, hus, hvs⟩ := List.map_eq_append_iff.1 h
  obtain ⟨t, vs, rfl, ht, hvs⟩ := List.map_eq_cons_iff.1 hvs
  obtain ⟨left', rfl⟩ := c.left.of_kinds hus
  obtain ⟨right', rfl⟩ := c.right.of_kinds hvs
  exact ⟨⟨left', c.comparator.withToken t ht, right'⟩, rfl⟩

theorem row_of_pair {ts : List Token} {k l : Token.Kind} (h : ts.map (·.kind) = [k, l]) :
    ∃ t u, ts = [t, u] ∧ t.kind = k ∧ u.kind = l := by
  obtain ⟨t, us, rfl, ht, hus⟩ := List.map_eq_cons_iff.1 h
  obtain ⟨u, rfl, hu⟩ := List.map_eq_singleton_iff.1 hus
  exact ⟨t, u, rfl, ht, hu⟩

theorem StatementTree.of_kinds (tree : StatementTree) {ts : List Token}
    (h : ts.map (·.kind) = tree.tokens.map (·.kind)) : Derivable ts := by
  rw [StatementTree.tokens, List.map_append] at h
  obtain ⟨fs, es, rfl, hfs, hes⟩ := List.map_eq_append_iff.1 h
  obtain ⟨e, rfl, he⟩ := List.map_eq_singleton_iff.1 hes
  let eol : EndLeaf := tree.eol.withToken e he
  -- each token takes the place of the one of its kind
  cases tree with
  | letName head name sign value _ =>
    obtain ⟨a, fs, rfl, ha, hfs⟩ := List.map_eq_cons_iff.1 hfs
    obtain ⟨b, fs, rfl, hb, hfs⟩ := List.map_eq_cons_iff.1 hfs
    obtain ⟨c, fs, rfl, hc, hfs⟩ := List.map_eq_cons_iff.1 hfs
    obtain ⟨value', rfl⟩ := value.of_kinds hfs
    exact ⟨.letName (head.withToken a ha) (name.withToken b hb) (sign.withToken c hc) value' eol,
      rfl⟩
  | assign name sign value _ =>
    obtain ⟨b, fs, rfl, hb, hfs⟩ := List.map_eq_cons_iff.1 hfs
    obtain ⟨c, fs, rfl, hc, hfs⟩ := List.map_eq_cons_iff.1 hfs
    obtain ⟨value', rfl⟩ := value.of_kinds hfs
    exact ⟨.assign (name.withToken b hb) (sign.withToken c hc) value' eol, rfl⟩
  | printText head item _ =>
    obtain ⟨a, b, rfl, ha, hb⟩ := row_of_pair hfs
    exact ⟨.printText (head.withToken a ha) (item.withToken b hb) eol, rfl⟩
  | printVariable head item _ =>
    obtain ⟨a, b, rfl, ha, hb⟩ := row_of_pair hfs
    exact ⟨.printVariable (head.withToken a ha) (item.withToken b hb) eol, rfl⟩
  | input head item _ =>
    obtain ⟨a, b, rfl, ha, hb⟩ := row_of_pair hfs
    exact ⟨.input (head.withToken a ha) (item.withToken b hb) eol, rfl⟩
  | goto head item _ =>
    obtain ⟨a, b, rfl, ha, hb⟩ := row_of_pair hfs
    exact ⟨.goto (head.withToken a ha) (item.withToken b hb) eol, rfl⟩
  | ifThen head condition word target _ =>
    obtain ⟨a, fs, rfl, ha, hfs⟩ := List.map_eq_cons_iff.1 hfs
    rw [List.map_append] at hfs
    obtain ⟨cs, ws, rfl, hcs, hws⟩ := List.map_eq_append_iff.1 hfs
    obtain ⟨condition', rfl⟩ := condition.of_kinds hcs
    obtain ⟨w, n, rfl, hw, hn⟩ := row_of_pair hws
    exact ⟨.ifThen (head.withToken a ha) condition' (word.withToken w hw)
      (target.withToken n hn) eol, rfl⟩
  | ifThenElse head condition word target other otherwise _ =>
    obtain ⟨a, fs, rfl, ha, hfs⟩ := List.map_eq_cons_iff.1 hfs
    rw [List.map_append] at hfs
    obtain ⟨cs, ws, rfl, hcs, hws⟩ := List.map_eq_append_iff.1 hfs
    obtain ⟨condition', rfl⟩ := condition.of_kinds hcs
    obtain ⟨w, ws, rfl, hw, hws⟩ := List.map_eq_cons_iff.1 hws
    obtain ⟨n, ws, rfl, hn, hws⟩ := List.map_eq_cons_iff.1 hws
    obtain ⟨o, m, rfl, ho, hm⟩ := row_of_pair hws
    exact ⟨.ifThenElse (head.withToken a ha) condition' (word.withToken w hw)
      (target.withToken n hn) (other.withToken o ho) (otherwise.withToken m hm) eol, rfl⟩
  | loop head condition _ =>
    obtain ⟨a, fs, rfl, ha, hfs⟩ := List.map_eq_cons_iff.1 hfs
    obtain ⟨condition', rfl⟩ := condition.of_kinds hfs
    exact ⟨.loop (head.withToken a ha) condition' eol, rfl⟩
  | endLoop head _ =>
    obtain ⟨a, rfl, ha⟩ := List.map_eq_singleton_iff.1 hfs
    exact ⟨.endLoop (head.withToken a ha) eol, rfl⟩
  | stop head _ =>
    obtain ⟨a, rfl, ha⟩ := List.map_eq_singleton_iff.1 hfs
    exact ⟨.stop (head.withToken a ha) eol, rfl⟩
  | remark head _ =>
    obtain ⟨a, rfl, ha⟩ := List.map_eq_singleton_iff.1 hfs
    exact ⟨.remark (head.withToken a ha) eol, rfl⟩

end Grammar

namespace Statement
open Grammar

namespace State

def Completes (s : State) : Prop := ∃ us st, s.after? us = some (.finished st)

def sample (kind : Token.Kind) : Token := ⟨kind, "", none, .start⟩

theorem Completes.of_next {s u : State} (kind : Token.Kind) (h : s.next? (sample kind) = some u)
    (hu : u.Completes) : s.Completes := by
  obtain ⟨us, st, hus⟩ := hu
  exact ⟨sample kind :: us, st, after?_cons_eq_some.2 ⟨u, h, hus⟩⟩

theorem finished_completes (st : Statement Float) : (finished st).Completes := ⟨[], st, rfl⟩

theorem ending_completes (st : Statement Float) : (ending st).Completes :=
  .of_next .endOfLine rfl (finished_completes st)

theorem elseOrEnd_completes (c : Condition) (x : Float) : (elseOrEnd c x).Completes :=
  .of_next .endOfLine rfl (finished_completes _)

theorem thenTarget_completes (c : Condition) : (thenTarget c).Completes :=
  .of_next .number rfl (elseOrEnd_completes c _)

/-- A goal can be closed: some token after its expression leads on. -/
def Closes (goal : Goal) : Prop :=
  ∀ value, ∃ kind u, isOperator kind = false ∧ close? goal value (sample kind) = some u ∧
    u.Completes

theorem absorb_length (operand : Expr) (frames : List Frame) :
    (absorb operand frames).2.length ≤ frames.length := by
  fun_induction absorb operand frames with
  | case1 operand frames ih => exact Nat.le_succ_of_le ih
  | case2 => simp
  | case3 => exact Nat.le_refl _

-- The open groups are closed one by one; each takes at least its own frame away.
theorem operator_completes {goal : Goal} (hgoal : Closes goal) (chain : Chain)
    (frames : List Frame) : (operator goal chain frames).Completes := by
  induction hn : frames.length using Nat.strongRecOn generalizing chain frames with
  | ind n ih =>
    obtain ⟨kind, u, hkind, hu, hcompletes⟩ := hgoal chain.expr
    cases frames with
    | nil =>
      refine .of_next kind ?_ hcompletes
      simpa [next?, sample, hkind] using hu
    | cons frame frames =>
      cases frame with
      | group =>
        refine .of_next .rightParen rfl (ih _ ?_ _ _ rfl)
        have := absorb_length chain.expr frames
        simp only [List.length_cons] at hn
        omega
      | negate | link =>
        refine .of_next kind ?_ hcompletes
        simpa [next?, sample, hkind] using hu

theorem operand_completes {goal : Goal} (hgoal : Closes goal) (frames : List Frame) :
    (operand goal frames).Completes :=
  .of_next .number rfl (operator_completes hgoal _ _)

theorem closes (goal : Goal) : Closes goal := by
  have hright (head : Head) (comparator : Comparator) (left : Expr) :
      Closes (.right head comparator left) := by
    intro value
    cases head with
    | branch => exact ⟨.keyword .THEN, _, rfl, rfl, thenTarget_completes _⟩
    | loop => exact ⟨.endOfLine, _, rfl, rfl, finished_completes _⟩
  intro value
  cases goal with
  | assign name explicit => exact ⟨.endOfLine, _, rfl, rfl, finished_completes _⟩
  | left head => exact ⟨.equals, _, rfl, rfl, operand_completes (hright head _ _) _⟩
  | right head comparator left => exact hright head comparator left value

theorem completes (s : State) : s.Completes := by
  have hoperand (goal : Goal) (frames : List Frame) : (operand goal frames).Completes :=
    operand_completes (closes goal) frames
  have hassign (name : String) (explicit : Bool) : (assignSign name explicit).Completes :=
    .of_next .equals rfl (hoperand _ _)
  cases s with
  | start => exact .of_next .identifier rfl (hassign _ _)
  | letName => exact .of_next .identifier rfl (hassign _ _)
  | assignSign name explicit => exact hassign name explicit
  | printItem => exact .of_next .string rfl (ending_completes _)
  | inputName => exact .of_next .identifier rfl (ending_completes _)
  | gotoTarget => exact .of_next .number rfl (ending_completes _)
  | operand goal frames => exact hoperand goal frames
  | operator goal chain frames => exact operator_completes (closes goal) chain frames
  | thenTarget c => exact thenTarget_completes c
  | elseOrEnd c x => exact elseOrEnd_completes c x
  | elseTarget c x => exact .of_next .number rfl (ending_completes _)
  | ending st => exact ending_completes st
  | finished st => exact finished_completes st

end State

/-- The parser gets through exactly the rows with which some sentence starts. -/
theorem viable_iff_after? (ts : List Token) :
    Viable (ts.map (·.kind)) ↔ ∃ s, State.start.after? ts = some s := by
  constructor
  · rintro ⟨tree, kinds, hkinds⟩
    obtain ⟨us, vs, -, hus, hvs⟩ := List.map_eq_append_iff.1 hkinds.symm
    have hrow : (ts ++ vs).map (·.kind) = tree.tokens.map (·.kind) := by
      rw [List.map_append, hvs, hkinds]
    obtain ⟨tree', htree'⟩ := tree.of_kinds hrow
    have hafter := after_tokens tree'
    rw [htree', State.after?_append] at hafter
    obtain ⟨s, hs, -⟩ := Option.bind_eq_some_iff.1 hafter
    exact ⟨s, hs⟩
  · rintro ⟨s, hs⟩
    obtain ⟨us, st, hus⟩ := s.completes
    obtain ⟨tree, htree, -⟩ := tree_of_finished (State.after?_trans hs hus)
    exact ⟨tree, us.map (·.kind), by rw [htree, List.map_append]⟩

end Statement

end NumberedBasic
