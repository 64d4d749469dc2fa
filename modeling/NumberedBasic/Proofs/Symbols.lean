import NumberedBasic.Proofs.Evaluation
import NumberedBasic.Proofs.Lexemes

set_option autoImplicit false

/-!
# The symbols of statements

A symbol that names no operator or comparator fails when it is applied. The tokens that are cut from
a line are spelled by their kinds, so no statement of a line has such a symbol, and evaluating its
expressions never comes to one: `Expr.eval_ofLine` and `Condition.eval_ofLine`.
-/
namespace NumberedBasic

def Operator.known : Operator → Bool
  | other _ _ => false
  | _ => true

def Comparator.known : Comparator → Bool
  | other _ _ => false
  | _ => true

mutual

def Expr.known : Expr → Bool
  | .number _ => true
  | .variable _ => true
  | .negate e => e.known
  | .chain first links => first.known && links.known

def Links.known : Links → Bool
  | .done => true
  | .link op e rest => op.known && e.known && rest.known

end

def Condition.known (c : Condition) : Bool := c.comparator.known && c.left.known && c.right.known

def Statement.known {τ : Type} : Statement τ → Bool
  | .assign _ value _ => value.known
  | .branch condition _ _ => condition.known
  | .loop condition => condition.known
  | _ => true

theorem Links.ofList_known {ls : List (Operator × Expr)}
    (h : ∀ l ∈ ls, l.1.known = true ∧ l.2.known = true) : (Links.ofList ls).known = true := by
  induction ls with
  | nil => rfl
  | cons l ls ih =>
    have hl := h l List.mem_cons_self
    have hrest := ih fun l hl => h l (List.mem_cons_of_mem _ hl)
    simp [Links.ofList, Links.known, hl, hrest]

namespace Token

/-- A text that stands for an operator or a comparator is the symbol of one. -/
def Spells (kind : Kind) (s : String) : Prop :=
  (Statement.isOperator kind = true → (Operator.ofSymbol s).known = true) ∧
    (Statement.isComparator kind = true → (Comparator.ofSymbol s).known = true)

instance (kind : Kind) (s : String) : Decidable (Spells kind s) := inferInstanceAs (Decidable (_ ∧ _))

def Spelled (t : Token) : Prop := Spells t.kind t.text

theorem spells_of_plain {kind : Kind} (ho : Statement.isOperator kind = false)
    (hc : Statement.isComparator kind = false) (s : String) : Spells kind s := by
  constructor
  · intro h
    rw [ho] at h
    cases h
  · intro h
    rw [hc] at h
    cases h

theorem Lexeme.spells {text rest : List Char} {kind : Kind} {value : Option Value}
    (h : Lexeme text rest kind value) : Spells kind (String.ofList text) := by
  cases h with
  | operator hop _ =>
    have hall : ∀ o ∈ operators, Spells o.2 (String.ofList o.1) := by decide
    exact hall _ hop
  | _ => exact spells_of_plain rfl rfl _

theorem ofCut_spelled {cut : Cut} (h : Spells cut.kind (String.ofList cut.lexeme)) (p : Position) :
    (ofCut cut p).Spelled := by
  obtain ⟨kind, lexeme, rest⟩ := cut
  cases kind with
  | string => exact spells_of_plain rfl rfl _
  | _ => exact h

/-- What holds of every token that is cut off, and of the end of the line, holds of all tokens. The
word of a remark is a token that is cut off, with the text of the remark as its value. -/
theorem tokensFrom_forall {P : Token → Prop} (hend : ∀ q, P (endAt q))
    (hfirst : ∀ {c rest cut}, first? c rest = some cut → ∀ q, P (ofCut cut q))
    (hremark : ∀ {t : Token}, t.kind = .keyword .REM → P t)
    (p : Position) (cs : List Char) : ∀ ts, tokensFrom p cs = .ok ts → ∀ t ∈ ts, P t := by
  fun_induction tokensFrom p cs with
  | case1 p =>
    intro ts h t ht
    cases h
    rw [List.mem_singleton.1 ht]
    exact hend p
  | case2 p c cs hgap ih => exact ih
  | case3 =>
    intro ts h
    cases h
  | case4 p c cs hgap cut hcut after hrem remark =>
    intro ts h t ht
    cases h
    rcases List.mem_pair.1 ht with rfl | rfl
    · exact hremark hrem
    · exact hend after
  | case5 p c cs hgap cut hcut after hrem rest hrest ih =>
    intro ts h t ht
    cases h
    rcases List.mem_cons.1 ht with rfl | ht
    · exact hfirst hcut p
    · exact ih rest hrest t ht
  | case6 =>
    intro ts h
    cases h

theorem tokensFrom_spelled (p : Position) (cs : List Char) :
    ∀ ts, tokensFrom p cs = .ok ts → ∀ t ∈ ts, t.Spelled := by
  refine tokensFrom_forall (fun q => ?_) (fun hcut q => ?_) (fun hrem => ?_) p cs
  · exact spells_of_plain rfl rfl _
  · exact ofCut_spelled (lexeme_of_first? hcut).spells q
  · exact spells_of_plain (by rw [hrem]; rfl) (by rw [hrem]; rfl) _

end Token

namespace Grammar

mutual

theorem ExprTree.ast_known (e : ExprTree) (h : ∀ t ∈ e.tokens, t.Spelled) : e.ast.known = true := by
  obtain ⟨first, rest⟩ := e
  have hfirst := first.ast_known fun t ht => h t (List.mem_append_left _ ht)
  have hrest := rest.links_known fun t ht => h t (List.mem_append_right _ ht)
  rw [ExprTree.ast]
  split
  · exact hfirst
  · simp [Expr.known, hfirst, Links.ofList_known hrest]

theorem LinkTrees.links_known (l : LinkTrees) (h : ∀ t ∈ l.tokens, t.Spelled) :
    ∀ link ∈ l.links, link.1.known = true ∧ link.2.known = true := by
  cases l with
  | none => intro link hl; simp [LinkTrees.links] at hl
  | more before op operand =>
    have hbefore := before.links_known fun t ht => h t (List.mem_append_left _ ht)
    have hop := h op.token (List.mem_append_right _ List.mem_cons_self)
    have hoperand := operand.ast_known fun t ht =>
      h t (List.mem_append_right _ (List.mem_cons_of_mem _ ht))
    intro link hl
    rcases List.mem_append.1 hl with hl | hl
    · exact hbefore link hl
    · rw [List.mem_singleton.1 hl]
      exact ⟨hop.1 ((isOperator_iff _).2 op.kind_mem), hoperand⟩

theorem OperandTree.ast_known (o : OperandTree) (h : ∀ t ∈ o.tokens, t.Spelled) :
    o.ast.known = true := by
  cases o with
  | number n | name n => rfl
  | group opening e closing =>
    exact e.ast_known fun t ht => h t (List.mem_cons_of_mem _ (List.mem_append_left _ ht))
  | negate sign operand =>
    exact operand.ast_known fun t ht => h t (List.mem_cons_of_mem _ ht)

end

theorem ConditionTree.ast_known (c : ConditionTree) (h : ∀ t ∈ c.tokens, t.Spelled) :
    c.ast.known = true := by
  have hleft := c.left.ast_known fun t ht => h t (List.mem_append_left _ ht)
  have hop := h c.comparator.token (List.mem_append_right _ List.mem_cons_self)
  have hright := c.right.ast_known fun t ht =>
    h t (List.mem_append_right _ (List.mem_cons_of_mem _ ht))
  have hcomparator := hop.2 ((isComparator_iff _).2 c.comparator.kind_mem)
  simp [ConditionTree.ast, Condition.known, hleft, hright, hcomparator]

theorem StatementTree.ast_known (s : StatementTree) (h : ∀ t ∈ s.tokens, t.Spelled) :
    s.ast.known = true := by
  have hfront : ∀ t ∈ s.front, t.Spelled := fun t ht => h t (List.mem_append_left _ ht)
  cases s with
  | letName head name sign value _ => exact value.ast_known fun t ht => hfront t (by simp [front, ht])
  | assign name sign value _ => exact value.ast_known fun t ht => hfront t (by simp [front, ht])
  | ifThen head condition word target _ =>
    exact condition.ast_known fun t ht => hfront t (by simp [front, ht])
  | ifThenElse head condition word target other otherwise _ =>
    exact condition.ast_known fun t ht => hfront t (by simp [front, ht])
  | loop head condition _ => exact condition.ast_known fun t ht => hfront t (by simp [front, ht])
  | _ => rfl

end Grammar

namespace Statement

theorem whole_known (s : Statement Float) : s.whole.known = s.known := by
  cases s <;> rfl

theorem ofLine_known {text : String} {s : Statement Int} (h : ofLine text = .ok s) :
    s.known = true := by
  obtain ⟨ts, hts, hs⟩ := (ofLine_eq_ok_iff text s).1 h
  obtain ⟨tree, rfl, -, rfl⟩ := (ofTokens_eq_ok_iff ts s).1 hs
  rw [whole_known]
  exact tree.ast_known (Token.tokensFrom_spelled _ _ _ hts)

end Statement

section Applied

variable {store : Store} {op : Operator} {x y : Float}

mutual

theorem Expr.Applies.known {room : Nat} {e : Expr} (h : e.Applies store op x y room)
    (hk : e.known = true) : op.known = true := by
  cases h with
  | negate h =>
    rw [Expr.known] at hk
    exact h.known hk
  | first h =>
    rw [Expr.known, Bool.and_eq_true] at hk
    exact h.known hk.1
  | links hv h =>
    rw [Expr.known, Bool.and_eq_true] at hk
    exact h.known hk.2

theorem Links.Applies.known {room : Nat} {v : Float} {l : Links} (h : l.Applies store op x y room v)
    (hk : l.known = true) : op.known = true := by
  cases h with
  | operand h =>
    rw [Links.known, Bool.and_eq_true, Bool.and_eq_true] at hk
    exact h.known hk.1.2
  | here hy =>
    rw [Links.known, Bool.and_eq_true, Bool.and_eq_true] at hk
    exact hk.1.1
  | rest hw hz h =>
    rw [Links.known, Bool.and_eq_true, Bool.and_eq_true] at hk
    exact h.known hk.2

end

theorem Condition.Applies.known {c : Condition} (h : c.Applies store op x y) (hk : c.known = true) :
    op.known = true := by
  rw [Condition.known, Bool.and_eq_true, Bool.and_eq_true] at hk
  rcases h with h | ⟨v, -, h⟩
  · exact h.known hk.1.2
  · exact h.known hk.2

end Applied

def Fault.ofLine : Fault → Bool
  | unknownOperator _ | unknownComparator _ | missingLine _ | stepLimit _ => false
  | _ => true

theorem Operator.apply_ofLine {op : Operator} {x y : Float} {fault : Fault}
    (h : op.apply x y = .error fault) (hk : op.known = true) : fault.ofLine = true := by
  cases op with
  | add | subtract | multiply => cases h
  | divide =>
    simp only [apply] at h
    split at h <;> cases h
    rfl
  | modulo =>
    simp only [apply] at h
    split at h
    · cases h
      rfl
    split at h <;> cases h
    rfl
  | other _ _ => cases hk

theorem Comparator.apply_eq_ok {c : Comparator} (hk : c.known = true) (x y : Float) :
    ∃ truth, c.apply x y = .ok truth := by
  cases c with
  | other _ _ => cases hk
  | _ => exact ⟨_, rfl⟩

theorem Stops.ofLine {store : Store} {Applies : Operator → Float → Float → Prop} {fault : Fault}
    (h : Stops store Applies fault) (hk : ∀ op x y, Applies op x y → op.known = true) :
    fault.ofLine = true := by
  cases h with
  | nesting | undefinedVariable _ => rfl
  | operator happlies hfault => exact Operator.apply_ofLine hfault (hk _ _ _ happlies)

theorem Expr.eval_ofLine {store : Store} {e : Expr} {fault : Fault}
    (h : e.eval store = .error fault) (hk : e.known = true) : fault.ofLine = true :=
  (Expr.evalIn_stops e h).ofLine fun _ _ _ happlies => happlies.known hk

theorem Condition.eval_ofLine {store : Store} {c : Condition} {fault : Fault}
    (h : c.eval store = .error fault) (hk : c.known = true) : fault.ofLine = true := by
  rcases Condition.eval_stops h with hstops | ⟨v, w, hcompare⟩
  · exact hstops.ofLine fun _ _ _ happlies => happlies.known hk
  · rw [Condition.known, Bool.and_eq_true, Bool.and_eq_true] at hk
    obtain ⟨truth, htruth⟩ := Comparator.apply_eq_ok hk.1.1 v w
    rw [hcompare] at htruth
    cases htruth

end NumberedBasic
