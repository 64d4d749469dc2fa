import NumberedBasic.Proofs.Grammar

set_option autoImplicit false

/-!
# The parser accepts its grammar

`after_tokens` runs the parser along a derivation, and `tree_of_finished` reads a
derivation off a run of the parser that has finished. Together they say that the parser finishes on
exactly the rows of tokens that the grammar derives, with the statement of the derivation.
-/
namespace NumberedBasic.Statement
open Grammar

namespace State

def after? (s : State) : List Token → Option State
  | [] => some s
  | t :: ts => (s.next? t).bind fun u => u.after? ts

theorem after?_append (s : State) (ts us : List Token) :
    s.after? (ts ++ us) = (s.after? ts).bind fun u => u.after? us := by
  induction ts generalizing s with
  | nil => rfl
  | cons t ts ih =>
    simp only [List.cons_append, after?]
    cases s.next? t with
    | none => rfl
    | some u => exact ih u

theorem after?_cons_eq_some {s f : State} {t : Token} {ts : List Token} :
    s.after? (t :: ts) = some f ↔ ∃ u, s.next? t = some u ∧ u.after? ts = some f :=
  Option.bind_eq_some_iff

theorem after?_concat {s u f : State} {ts : List Token} {t : Token} (h : s.after? ts = some u)
    (ht : u.next? t = some f) : s.after? (ts ++ [t]) = some f := by
  rw [after?_append, h]
  simp [after?, ht]

theorem after?_trans {s u f : State} {ts us : List Token} (h : s.after? ts = some u)
    (hu : u.after? us = some f) : s.after? (ts ++ us) = some f := by
  rw [after?_append, h]
  exact hu

theorem cons_of_after? {s f : State} {ts : List Token} (h : s.after? ts = some f) (hne : s ≠ f) :
    ∃ (t : Token) (rest : List Token) (u : State),
      ts = t :: rest ∧ s.next? t = some u ∧ u.after? rest = some f := by
  cases ts with
  | nil => exact absurd (Option.some.inj h) hne
  | cons t rest =>
    obtain ⟨u, hu, hrest⟩ := after?_cons_eq_some.1 h
    exact ⟨t, rest, u, rfl, hu, hrest⟩

theorem finished_after? {st : Statement Float} {ts : List Token} {f : State}
    (h : (finished st).after? ts = some f) : ts = [] ∧ f = finished st := by
  cases ts with
  | nil => exact ⟨rfl, (Option.some.inj h).symm⟩
  | cons t ts => simp [after?, next?] at h

end State

theorem parseFrom_eq_ok_iff (s : State) (index : Nat) (last? : Option Token) (ts : List Token)
    (st : Statement Float) :
    parseFrom s index last? ts = .ok st ↔ s.after? ts = some (.finished st) := by
  induction ts generalizing s index last? with
  | nil =>
    cases s with
    | finished st' => simp [parseFrom, State.after?]
    | _ => cases last? <;> simp [parseFrom, State.after?]
  | cons t ts ih =>
    simp only [parseFrom, State.after?]
    cases s.next? t with
    | none => simp
    | some u => exact ih u (index + 1) (some t)

/-- The frames that an operand leaves as they are: none, or a group that is still open. -/
def Settled : List Frame → Prop
  | [] | .group :: _ => True
  | _ => False

theorem absorb_settled {frames : List Frame} (h : Settled frames) (operand : Expr) :
    absorb operand frames = (⟨operand, []⟩, frames) := by
  cases frames with
  | nil => rfl
  | cons frame frames =>
    cases frame with
    | group => rfl
    | negate | link => exact absurd h id

theorem Chain.expr_links (first : OperandTree) (rest : LinkTrees) :
    Chain.expr ⟨first.ast, rest.links.reverse⟩ = (ExprTree.expr first rest).ast := by
  rw [ExprTree.ast]
  cases hl : rest.links.reverse with
  | nil => simp [Chain.expr, List.reverse_eq_nil_iff.1 hl]
  | cons l ls =>
    have hne : rest.links = (l :: ls).reverse := by rw [← hl, List.reverse_reverse]
    rw [hne]
    simp only [Chain.expr]
    split
    · rename_i h
      simp at h
    · rfl

mutual

theorem operand_after_tokens (o : OperandTree) (goal : Goal) (frames : List Frame) :
    (State.operand goal frames).after? o.tokens = some (.afterOperand goal o.ast frames) := by
  cases o with
  | number n => simp [OperandTree.tokens, OperandTree.ast, State.after?, State.next?, n.kind_eq]
  | name n => simp [OperandTree.tokens, OperandTree.ast, State.after?, State.next?, n.kind_eq]
  | negate sign operand =>
    have hs : (State.operand goal frames).next? sign.token =
        some (.operand goal (.negate :: frames)) := by
      simp [State.next?, sign.kind_eq]
    have ho := operand_after_tokens operand goal (.negate :: frames)
    exact State.after?_cons_eq_some.2 ⟨_, hs, ho⟩
  | group opening e closing =>
    have hopen : (State.operand goal frames).next? opening.token =
        some (.operand goal (.group :: frames)) := by
      simp [State.next?, opening.kind_eq]
    obtain ⟨chain, hchain, he⟩ := expr_after_tokens e goal (.group :: frames) trivial
    have hclose : (State.operator goal chain (.group :: frames)).next? closing.token =
        some (.afterOperand goal e.ast frames) := by
      simp [State.next?, closing.kind_eq, isOperator, hchain]
    exact State.after?_cons_eq_some.2 ⟨_, hopen, State.after?_concat he hclose⟩

theorem links_after_tokens (l : LinkTrees) (goal : Goal) (first : Expr) (frames : List Frame) :
    (State.operator goal ⟨first, []⟩ frames).after? l.tokens =
      some (.operator goal ⟨first, l.links.reverse⟩ frames) := by
  cases l with
  | none => rfl
  | more before op operand =>
    have hb := links_after_tokens before goal first frames
    have hop : (State.operator goal ⟨first, before.links.reverse⟩ frames).next? op.token =
        some (.operand goal
          (.link ⟨first, before.links.reverse⟩ (.ofSymbol op.token.text) :: frames)) := by
      simp [State.next?, (isOperator_iff op.token.kind).2 op.kind_mem]
    have ho := operand_after_tokens operand goal
      (.link ⟨first, before.links.reverse⟩ (.ofSymbol op.token.text) :: frames)
    rw [LinkTrees.tokens, State.after?_append, hb]
    refine State.after?_cons_eq_some.2 ⟨_, hop, ?_⟩
    rw [ho]
    simp [State.afterOperand, absorb, LinkTrees.links]

theorem expr_after_tokens (e : ExprTree) (goal : Goal) (frames : List Frame)
    (hf : Settled frames) : ∃ chain : Chain, chain.expr = e.ast ∧
      (State.operand goal frames).after? e.tokens = some (.operator goal chain frames) := by
  obtain ⟨first, rest⟩ := e
  refine ⟨⟨first.ast, rest.links.reverse⟩, Chain.expr_links first rest, ?_⟩
  have ho := operand_after_tokens first goal frames
  rw [State.afterOperand, absorb_settled hf] at ho
  exact State.after?_trans ho (links_after_tokens rest goal first.ast frames)

end

theorem condition_after_tokens (c : ConditionTree) (head : Head) : ∃ chain : Chain,
    chain.expr = c.right.ast ∧ (State.operand (.left head) []).after? c.tokens =
      some (.operator (.right head (.ofSymbol c.comparator.token.text) c.left.ast) chain []) := by
  obtain ⟨left, hleft, hl⟩ := expr_after_tokens c.left (.left head) [] trivial
  have hc : (State.operator (.left head) left []).next? c.comparator.token =
      some (.operand (.right head (.ofSymbol c.comparator.token.text) c.left.ast) []) := by
    have hk := (isComparator_iff c.comparator.token.kind).2 c.comparator.kind_mem
    simp [State.next?, State.close?, hk, not_isOperator_of_comparator hk, hleft]
  obtain ⟨right, hright, hr⟩ := expr_after_tokens c.right
    (.right head (.ofSymbol c.comparator.token.text) c.left.ast) [] trivial
  refine ⟨right, hright, State.after?_trans hl ?_⟩
  exact State.after?_cons_eq_some.2 ⟨_, hc, hr⟩

theorem assign_after_tokens (name : String) (explicit : Bool) (sign : Leaf [.equals])
    (value : ExprTree) (eol : EndLeaf) :
    (State.assignSign name explicit).after? (sign.token :: (value.tokens ++ [eol.token])) =
      some (.finished (.assign name value.ast explicit)) := by
  have hs : (State.assignSign name explicit).next? sign.token =
      some (.operand (.assign name explicit) []) := by
    simp [State.next?, sign.kind_eq]
  obtain ⟨chain, hchain, he⟩ := expr_after_tokens value (.assign name explicit) [] trivial
  refine State.after?_cons_eq_some.2 ⟨_, hs, State.after?_concat he ?_⟩
  simp [State.next?, State.close?, eol.kind_eq, isOperator, hchain]

theorem branch_after_tokens (c : ConditionTree) (word : KeywordLeaf .THEN) (target : Leaf [.number]) :
    (State.operand (.left .branch) []).after? (c.tokens ++ [word.token, target.token]) =
      some (.elseOrEnd c.ast (amount target.token)) := by
  obtain ⟨chain, hchain, hc⟩ := condition_after_tokens c .branch
  refine State.after?_trans hc ?_
  simp [State.after?, State.next?, State.close?, word.kind_eq, target.kind_eq, isOperator, hchain,
    ConditionTree.ast]

theorem after_tokens (tree : StatementTree) :
    State.start.after? tree.tokens = some (.finished tree.ast) := by
  cases tree with
  | letName head name sign value eol =>
    have hh : State.start.after? [head.token, name.token] =
        some (.assignSign name.token.text true) := by
      simp [State.after?, State.next?, State.open?, head.kind_eq, name.kind_eq]
    have ha := State.after?_trans hh (assign_after_tokens name.token.text true sign value eol)
    exact ha
  | assign name sign value eol =>
    have hn : State.start.after? [name.token] = some (.assignSign name.token.text false) := by
      simp [State.after?, State.next?, State.open?, name.kind_eq]
    have ha := State.after?_trans hn (assign_after_tokens name.token.text false sign value eol)
    exact ha
  | ifThen head condition word target eol =>
    have hh : State.start.after? [head.token] = some (.operand (.left .branch) []) := by
      simp [State.after?, State.next?, State.open?, head.kind_eq]
    refine State.after?_concat (State.after?_trans hh (branch_after_tokens condition word target)) ?_
    simp [State.next?, StatementTree.eol, eol.kind_eq, StatementTree.ast]
  | ifThenElse head condition word target other otherwise eol =>
    have hh : State.start.after? [head.token] = some (.operand (.left .branch) []) := by
      simp [State.after?, State.next?, State.open?, head.kind_eq]
    have hb := State.after?_trans hh (branch_after_tokens condition word target)
    have he : (State.elseOrEnd condition.ast (amount target.token)).after?
        [other.token, otherwise.token, eol.token] =
          some (.finished (.branch condition.ast (amount target.token)
            (some (amount otherwise.token)))) := by
      simp [State.after?, State.next?, other.kind_eq, otherwise.kind_eq, eol.kind_eq]
    simpa [StatementTree.tokens, StatementTree.front, StatementTree.eol, StatementTree.ast] using
      State.after?_trans hb he
  | loop head condition eol =>
    have hh : State.start.after? [head.token] = some (.operand (.left .loop) []) := by
      simp [State.after?, State.next?, State.open?, head.kind_eq]
    obtain ⟨chain, hchain, hc⟩ := condition_after_tokens condition .loop
    refine State.after?_concat (State.after?_trans hh hc) ?_
    simp [State.next?, State.close?, StatementTree.eol, eol.kind_eq, isOperator, hchain,
      StatementTree.ast, ConditionTree.ast]
  | printText head item eol | printVariable head item eol | input head item eol
  | goto head item eol =>
    simp [StatementTree.tokens, StatementTree.front, StatementTree.eol, StatementTree.ast,
      State.after?, State.next?, State.open?, head.kind_eq, item.kind_eq, eol.kind_eq]
  | endLoop head eol | stop head eol | remark head eol =>
    simp [StatementTree.tokens, StatementTree.front, StatementTree.eol, StatementTree.ast,
      State.after?, State.next?, State.open?, head.kind_eq, eol.kind_eq]

/-- Where the parser waits for an operand and finishes on at most `n` tokens, they start with one. -/
def ReadsOperands (n : Nat) : Prop :=
  ∀ (goal : Goal) (frames : List Frame) (ts : List Token) (st : Statement Float), ts.length ≤ n →
    (State.operand goal frames).after? ts = some (.finished st) →
      ∃ (o : OperandTree) (rest : List Token), ts = o.tokens ++ rest ∧
        (State.afterOperand goal o.ast frames).after? rest = some (.finished st)

-- The links read so far are carried along as a tree, since a round is added at its end.
theorem links_of_finished {n : Nat} (hn : ReadsOperands n) (goal : Goal) (first : Expr)
    (frames : List Frame) (st : Statement Float) (before : LinkTrees) (ts : List Token)
    (hlen : ts.length ≤ n) (h : (State.operator goal ⟨first, before.links.reverse⟩ frames).after? ts =
      some (.finished st)) :
    ∃ (all : LinkTrees) (rest : List Token), before.tokens ++ ts = all.tokens ++ rest ∧
      (State.operator goal ⟨first, all.links.reverse⟩ frames).after? rest = some (.finished st) ∧
      ∀ t ∈ rest.head?, isOperator t.kind = false := by
  -- the links read so far are an argument, so the induction is on the tokens that are left
  induction hk : ts.length using Nat.strongRecOn generalizing before ts with
  | ind k ih =>
    cases ts with
    | nil => simp [State.after?] at h
    | cons t ts =>
      by_cases hop : isOperator t.kind = true
      · obtain ⟨u, hu, hts⟩ := State.after?_cons_eq_some.1 h
        simp only [State.next?, hop, if_true, Option.some.injEq] at hu
        subst hu
        simp only [List.length_cons] at hlen hk
        obtain ⟨o, rest, rfl, hrest⟩ := hn _ _ ts st (by omega) hts
        let op : Leaf operators := ⟨t, (isOperator_iff t.kind).1 hop⟩
        have hstate : State.afterOperand goal o.ast
            (.link ⟨first, before.links.reverse⟩ (.ofSymbol t.text) :: frames) =
              .operator goal ⟨first, (LinkTrees.more before op o).links.reverse⟩ frames := by
          simp [State.afterOperand, absorb, LinkTrees.links, op]
        rw [hstate] at hrest
        rw [List.length_append] at hlen hk
        obtain ⟨all, rest', hall, hfin, hhead⟩ :=
          ih rest.length (by omega) (.more before op o) rest (by omega) hrest rfl
        refine ⟨all, rest', ?_, hfin, hhead⟩
        rw [← hall]
        simp [LinkTrees.tokens, op]
      · refine ⟨before, t :: ts, rfl, h, ?_⟩
        intro t' ht'
        obtain rfl := Option.some.inj ht'
        simpa using hop

theorem expr_of_finished {n : Nat} (hn : ReadsOperands n) {goal : Goal} {frames : List Frame}
    (hf : Settled frames) {ts : List Token} {st : Statement Float} (hlen : ts.length ≤ n)
    (h : (State.operand goal frames).after? ts = some (.finished st)) :
    ∃ (e : ExprTree) (chain : Chain) (t : Token) (rest : List Token),
      ts = e.tokens ++ t :: rest ∧ chain.expr = e.ast ∧ isOperator t.kind = false ∧
      (State.operator goal chain frames).after? (t :: rest) = some (.finished st) := by
  obtain ⟨o, rest, rfl, hrest⟩ := hn goal frames ts st hlen h
  rw [State.afterOperand, absorb_settled hf] at hrest
  simp only [List.length_append] at hlen
  obtain ⟨all, rest', hall, hfin, hhead⟩ :=
    links_of_finished hn goal o.ast frames st .none rest (by omega) hrest
  cases rest' with
  | nil => simp [State.after?] at hfin
  | cons t rest' =>
    refine ⟨.expr o all, ⟨o.ast, all.links.reverse⟩, t, rest', ?_, Chain.expr_links o all,
      hhead t rfl, hfin⟩
    rw [ExprTree.tokens, List.append_assoc, ← hall]
    rfl

theorem readsOperands (n : Nat) : ReadsOperands n := by
  induction n with
  | zero =>
    intro goal frames ts st hlen h
    obtain rfl := List.length_eq_zero_iff.1 (Nat.le_zero.1 hlen)
    simp [State.after?] at h
  | succ n ih =>
    intro goal frames ts st hlen h
    cases ts with
    | nil => simp [State.after?] at h
    | cons t ts =>
      simp only [List.length_cons, Nat.add_le_add_iff_right] at hlen
      obtain ⟨u, hu, hts⟩ := State.after?_cons_eq_some.1 h
      simp only [State.next?] at hu
      split at hu <;> simp only [Option.some.injEq, reduceCtorEq] at hu
      · rename_i hk
        exact ⟨.number ⟨t, by simp [hk]⟩, ts, rfl, by rw [← hu] at hts; exact hts⟩
      · rename_i hk
        exact ⟨.name ⟨t, by simp [hk]⟩, ts, rfl, by rw [← hu] at hts; exact hts⟩
      · rename_i hk
        rw [← hu] at hts
        -- the group has fewer tokens than the operand, and what ends it is no operator
        have hg : Settled (.group :: frames) := trivial
        obtain ⟨e, chain, r, rest, rfl, hchain, hr, hfin⟩ := expr_of_finished ih hg hlen hts
        obtain ⟨v, hv, hrest⟩ := State.after?_cons_eq_some.1 hfin
        simp only [State.next?, hr, Bool.false_eq_true, if_false] at hv
        split at hv <;> simp only [Option.some.injEq, reduceCtorEq] at hv
        rename_i hk'
        subst hv
        rw [hchain] at hrest
        exact ⟨.group ⟨t, by simp [hk]⟩ e ⟨r, by simp [hk']⟩, rest, by simp [OperandTree.tokens],
          hrest⟩
      · rename_i hk
        rw [← hu] at hts
        obtain ⟨o, rest, rfl, hrest⟩ := ih _ _ ts st hlen hts
        exact ⟨.negate ⟨t, by simp [hk]⟩ o, rest, rfl, hrest⟩

theorem expr_of_goal {goal : Goal} {ts : List Token} {st : Statement Float}
    (h : (State.operand goal []).after? ts = some (.finished st)) :
    ∃ (e : ExprTree) (t : Token) (rest : List Token) (u : State), ts = e.tokens ++ t :: rest ∧
      State.close? goal e.ast t = some u ∧ u.after? rest = some (.finished st) := by
  have hs : Settled [] := trivial
  obtain ⟨e, chain, t, rest, hts, hchain, ht, hfin⟩ :=
    expr_of_finished (readsOperands ts.length) hs (Nat.le_refl _) h
  obtain ⟨u, hu, hrest⟩ := State.after?_cons_eq_some.1 hfin
  simp only [State.next?, ht, Bool.false_eq_true, if_false, hchain] at hu
  exact ⟨e, t, rest, u, hts, hu, hrest⟩

theorem condition_of_finished {head : Head} {ts : List Token} {st : Statement Float}
    (h : (State.operand (.left head) []).after? ts = some (.finished st)) :
    ∃ (c : ConditionTree) (t : Token) (rest : List Token) (u : State),
      ts = c.tokens ++ t :: rest ∧
      State.close? (.right head c.ast.comparator c.ast.left) c.ast.right t = some u ∧
      u.after? rest = some (.finished st) := by
  obtain ⟨left, t, rest, u, rfl, hu, hrest⟩ := expr_of_goal h
  simp only [State.close?, Option.ite_none_right_eq_some, Option.some.injEq] at hu
  obtain ⟨hc, rfl⟩ := hu
  obtain ⟨right, t', rest', u', rfl, hu', hrest'⟩ := expr_of_goal hrest
  refine ⟨⟨left, ⟨t, (isComparator_iff t.kind).1 hc⟩, right⟩, t', rest', u', ?_, hu', hrest'⟩
  simp [ConditionTree.tokens]

theorem ending_of_finished {st st' : Statement Float} {ts : List Token}
    (h : (State.ending st').after? ts = some (.finished st)) :
    ∃ eol : EndLeaf, ts = [eol.token] ∧ st = st' := by
  obtain ⟨t, rest, u, rfl, hu, hrest⟩ := State.cons_of_after? h nofun
  simp only [State.next?, Option.ite_none_right_eq_some, Option.some.injEq] at hu
  obtain ⟨hk, rfl⟩ := hu
  obtain ⟨rfl, hst⟩ := State.finished_after? hrest
  exact ⟨⟨t, by simp [hk]⟩, rfl, State.finished.inj hst⟩

theorem assign_of_finished {name : String} {explicit : Bool} {st : Statement Float}
    {ts : List Token} (h : (State.assignSign name explicit).after? ts = some (.finished st)) :
    ∃ (sign : Leaf [.equals]) (value : ExprTree) (eol : EndLeaf),
      ts = sign.token :: (value.tokens ++ [eol.token]) ∧ st = .assign name value.ast explicit := by
  obtain ⟨t, ts, u, rfl, hu, hts⟩ := State.cons_of_after? h nofun
  simp only [State.next?, Option.ite_none_right_eq_some, Option.some.injEq] at hu
  obtain ⟨hk, rfl⟩ := hu
  obtain ⟨value, e, rest, v, rfl, hv, hrest⟩ := expr_of_goal hts
  simp only [State.close?, Option.ite_none_right_eq_some, Option.some.injEq] at hv
  obtain ⟨he, rfl⟩ := hv
  obtain ⟨rfl, hst⟩ := State.finished_after? hrest
  exact ⟨⟨t, by simp [hk]⟩, value, ⟨e, by simp [he]⟩, rfl, State.finished.inj hst⟩

theorem branch_of_finished (head : KeywordLeaf .IF) {st : Statement Float} {ts : List Token}
    (h : (State.operand (.left .branch) []).after? ts = some (.finished st)) :
    ∃ tree : StatementTree, tree.tokens = head.token :: ts ∧ tree.ast = st := by
  obtain ⟨c, t, rest, u, rfl, hu, hrest⟩ := condition_of_finished h
  simp only [State.close?, Option.ite_none_right_eq_some, Option.some.injEq] at hu
  obtain ⟨ht, rfl⟩ := hu
  obtain ⟨n, rest, u, rfl, hu, hrest⟩ := State.cons_of_after? hrest nofun
  simp only [State.next?, Option.ite_none_right_eq_some, Option.some.injEq] at hu
  obtain ⟨hn, rfl⟩ := hu
  obtain ⟨e, rest, u, rfl, hu, hrest⟩ := State.cons_of_after? hrest nofun
  simp only [State.next?] at hu
  split at hu <;> simp only [Option.some.injEq, reduceCtorEq] at hu
  · rename_i he
    subst hu
    obtain ⟨m, rest, u, rfl, hu, hrest⟩ := State.cons_of_after? hrest nofun
    simp only [State.next?, Option.ite_none_right_eq_some, Option.some.injEq] at hu
    obtain ⟨hm, rfl⟩ := hu
    obtain ⟨eol, rfl, rfl⟩ := ending_of_finished hrest
    refine ⟨.ifThenElse head c ⟨t, by simp [ht]⟩ ⟨n, by simp [hn]⟩ ⟨e, by simp [he]⟩
      ⟨m, by simp [hm]⟩ eol, ?_, rfl⟩
    simp [StatementTree.tokens, StatementTree.front, StatementTree.eol]
  · rename_i he
    subst hu
    obtain ⟨rfl, hst⟩ := State.finished_after? hrest
    refine ⟨.ifThen head c ⟨t, by simp [ht]⟩ ⟨n, by simp [hn]⟩ ⟨e, by simp [he]⟩, ?_,
      (State.finished.inj hst).symm⟩
    simp [StatementTree.tokens, StatementTree.front, StatementTree.eol]

theorem loop_of_finished (head : KeywordLeaf .WHILE) {st : Statement Float} {ts : List Token}
    (h : (State.operand (.left .loop) []).after? ts = some (.finished st)) :
    ∃ tree : StatementTree, tree.tokens = head.token :: ts ∧ tree.ast = st := by
  obtain ⟨c, t, rest, u, rfl, hu, hrest⟩ := condition_of_finished h
  simp only [State.close?, Option.ite_none_right_eq_some, Option.some.injEq] at hu
  obtain ⟨ht, rfl⟩ := hu
  obtain ⟨rfl, hst⟩ := State.finished_after? hrest
  exact ⟨.loop head c ⟨t, by simp [ht]⟩, rfl, (State.finished.inj hst).symm⟩

/-- Where the parser finishes there is a derivation of the tokens with the statement it gives. -/
theorem tree_of_finished {ts : List Token} {st : Statement Float}
    (h : State.start.after? ts = some (.finished st)) :
    ∃ tree : StatementTree, tree.tokens = ts ∧ tree.ast = st := by
  obtain ⟨t, ts, u, rfl, hu, hts⟩ := State.cons_of_after? h nofun
  simp only [State.next?, State.open?] at hu
  split at hu <;> simp only [Option.some.injEq, reduceCtorEq] at hu <;> subst hu <;> rename_i hk
  · obtain ⟨sign, value, eol, rfl, rfl⟩ := assign_of_finished hts
    exact ⟨.assign ⟨t, by simp [hk]⟩ sign value eol, rfl, rfl⟩
  · obtain ⟨n, ts, u, rfl, hu, hts⟩ := State.cons_of_after? hts nofun
    simp only [State.next?, Option.ite_none_right_eq_some, Option.some.injEq] at hu
    obtain ⟨hn, rfl⟩ := hu
    obtain ⟨sign, value, eol, rfl, rfl⟩ := assign_of_finished hts
    exact ⟨.letName ⟨t, by simp [hk]⟩ ⟨n, by simp [hn]⟩ sign value eol, rfl, rfl⟩
  · obtain ⟨item, ts, u, rfl, hu, hts⟩ := State.cons_of_after? hts nofun
    simp only [State.next?] at hu
    split at hu <;> simp only [Option.some.injEq, reduceCtorEq] at hu <;> subst hu <;>
      rename_i hi <;> obtain ⟨eol, rfl, rfl⟩ := ending_of_finished hts
    · exact ⟨.printText ⟨t, by simp [hk]⟩ ⟨item, by simp [hi]⟩ eol, rfl, rfl⟩
    · exact ⟨.printVariable ⟨t, by simp [hk]⟩ ⟨item, by simp [hi]⟩ eol, rfl, rfl⟩
  · obtain ⟨n, ts, u, rfl, hu, hts⟩ := State.cons_of_after? hts nofun
    simp only [State.next?, Option.ite_none_right_eq_some, Option.some.injEq] at hu
    obtain ⟨hn, rfl⟩ := hu
    obtain ⟨eol, rfl, rfl⟩ := ending_of_finished hts
    exact ⟨.input ⟨t, by simp [hk]⟩ ⟨n, by simp [hn]⟩ eol, rfl, rfl⟩
  · exact branch_of_finished ⟨t, by simp [hk]⟩ hts
  · obtain ⟨n, ts, u, rfl, hu, hts⟩ := State.cons_of_after? hts nofun
    simp only [State.next?, Option.ite_none_right_eq_some, Option.some.injEq] at hu
    obtain ⟨hn, rfl⟩ := hu
    obtain ⟨eol, rfl, rfl⟩ := ending_of_finished hts
    exact ⟨.goto ⟨t, by simp [hk]⟩ ⟨n, by simp [hn]⟩ eol, rfl, rfl⟩
  · exact loop_of_finished ⟨t, by simp [hk]⟩ hts
  · obtain ⟨eol, rfl, rfl⟩ := ending_of_finished hts
    exact ⟨.endLoop ⟨t, by simp [hk]⟩ eol, rfl, rfl⟩
  · obtain ⟨eol, rfl, rfl⟩ := ending_of_finished hts
    exact ⟨.stop ⟨t, by simp [hk]⟩ eol, rfl, rfl⟩
  · obtain ⟨eol, rfl, rfl⟩ := ending_of_finished hts
    exact ⟨.remark ⟨t, by simp [hk]⟩ eol, rfl, rfl⟩

end NumberedBasic.Statement
