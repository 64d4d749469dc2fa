import NumberedBasic.Expr.Eval
import NumberedBasic.Proofs.Doubles
import NumberedBasic.Proofs.Outcomes

set_option autoImplicit false

/-!
# How an evaluation fails

An evaluation applies operators one after another until it has a value or one of them fails.
`Expr.Applies` says which operators it gets to apply and to which numbers. An evaluation that fails
has met a name without a value or too deep a nesting, or has applied an operator that fails. All
these faults have a kind that a report names, but for the remainder of an infinite dividend.
-/
namespace NumberedBasic

def Fault.ofEvaluation : Fault → Bool
  | nesting | unknownOperator _ | unknownComparator _ | undefinedVariable _ => true
  | divisionByZero | moduloByZero | infiniteDividend => true
  | _ => false

theorem Fault.eq_infiniteDividend {fault : Fault} (h : fault.ofEvaluation = true)
    (hk : fault.kind? = none) : fault = .infiniteDividend := by
  cases fault <;> simp_all [Fault.ofEvaluation, Fault.kind?]

theorem Fault.kind?_ofEvaluation {fault : Fault} (h : fault.ofEvaluation = true) :
    fault.kind? ≠ some .unmatchedLoop := by
  cases fault <;> simp_all [Fault.ofEvaluation, Fault.kind?]

theorem Operator.apply_fault {op : Operator} {x y : Float} {fault : Fault}
    (h : op.apply x y = .error fault) : fault.ofEvaluation = true := by
  cases op with
  | add | subtract | multiply => cases h
  | divide =>
    simp only [apply] at h
    split at h <;> cases h
    rfl
  | modulo =>
    simp only [apply] at h
    split at h
    · cases h
      rfl
    split at h <;> cases h
    rfl
  | other symbol unknown =>
    cases h
    rfl

theorem Comparator.apply_fault {c : Comparator} {x y : Float} {fault : Fault}
    (h : c.apply x y = .error fault) : fault.ofEvaluation = true := by
  cases c with
  | less | lessEqual | greater | greaterEqual | equal | notEqual => cases h
  | other symbol unknown =>
    cases h
    rfl

mutual

/-- The evaluation of an expression, with room for `room` levels of nesting, gets to apply the
operator to these two numbers. -/
inductive Expr.Applies (store : Store) (op : Operator) (x y : Float) : Nat → Expr → Prop where
  | negate {room : Nat} {e : Expr} (h : Expr.Applies store op x y room e) :
      Expr.Applies store op x y (room + 1) (.negate e)
  | first {room : Nat} {first : Expr} {links : Links} (h : Expr.Applies store op x y room first) :
      Expr.Applies store op x y (room + 1) (.chain first links)
  | links {room : Nat} {first : Expr} {links : Links} {v : Float}
      (hv : first.evalIn store room = .ok v) (h : Links.Applies store op x y room v links) :
      Expr.Applies store op x y (room + 1) (.chain first links)

inductive Links.Applies (store : Store) (op : Operator) (x y : Float) :
    Nat → Float → Links → Prop where
  | operand {room : Nat} {v : Float} {other : Operator} {e : Expr} {rest : Links}
      (h : Expr.Applies store op x y room e) : Links.Applies store op x y room v (.link other e rest)
  | here {room : Nat} {e : Expr} {rest : Links} (hy : e.evalIn store room = .ok y) :
      Links.Applies store op x y room x (.link op e rest)
  | rest {room : Nat} {v w z : Float} {other : Operator} {e : Expr} {rest : Links}
      (hw : e.evalIn store room = .ok w) (hz : other.apply v w = .ok z)
      (h : Links.Applies store op x y room z rest) :
      Links.Applies store op x y room v (.link other e rest)

end

/-- How an evaluation over a store stops that applies these operators. -/
inductive Stops (store : Store) (Applies : Operator → Float → Float → Prop) : Fault → Prop where
  | nesting : Stops store Applies .nesting
  | undefinedVariable {name : String} (h : store.get? name = none) :
      Stops store Applies (.undefinedVariable name)
  | operator {op : Operator} {x y : Float} {fault : Fault} (h : Applies op x y)
      (hfault : op.apply x y = .error fault) : Stops store Applies fault

theorem Stops.mono {store : Store} {P Q : Operator → Float → Float → Prop} {fault : Fault}
    (h : Stops store P fault) (hpq : ∀ op x y, P op x y → Q op x y) : Stops store Q fault := by
  cases h with
  | nesting => exact .nesting
  | undefinedVariable hname => exact .undefinedVariable hname
  | operator happlies hfault => exact .operator (hpq _ _ _ happlies) hfault

section Evaluation

variable {store : Store} {op : Operator} {x y : Float} {fault : Fault}

mutual

theorem Expr.Applies.evalIn_eq_error {room : Nat} {e : Expr} (h : e.Applies store op x y room)
    (hfault : op.apply x y = .error fault) : e.evalIn store room = .error fault := by
  cases h with
  | negate h =>
    rw [Expr.evalIn, h.evalIn_eq_error hfault]
    rfl
  | first h =>
    rw [Expr.evalIn, h.evalIn_eq_error hfault]
    rfl
  | links hv h =>
    rw [Expr.evalIn, hv]
    exact h.evalIn_eq_error hfault

theorem Links.Applies.evalIn_eq_error {room : Nat} {v : Float} {l : Links}
    (h : l.Applies store op x y room v) (hfault : op.apply x y = .error fault) :
    l.evalIn store room v = .error fault := by
  cases h with
  | operand h =>
    rw [Links.evalIn, h.evalIn_eq_error hfault]
    rfl
  | here hy =>
    simp only [Links.evalIn, hy, bind, Except.bind, hfault]
  | rest hw hz h =>
    simp only [Links.evalIn, hw, bind, Except.bind, hz]
    exact h.evalIn_eq_error hfault

end

mutual

theorem Expr.evalIn_stops {room : Nat} (e : Expr) (h : e.evalIn store room = .error fault) :
    Stops store (fun op x y => e.Applies store op x y room) fault := by
  cases e with
  | number x => simp [Expr.evalIn] at h
  | «variable» name =>
    simp only [Expr.evalIn] at h
    split at h <;> cases h
    rename_i hname
    exact .undefinedVariable hname
  | negate operand =>
    cases room with
    | zero =>
      simp only [Expr.evalIn] at h
      cases h
      exact .nesting
    | succ room =>
      simp only [Expr.evalIn] at h
      rcases bind_eq_error h with h | ⟨v, -, h⟩
      · exact (Expr.evalIn_stops operand h).mono fun _ _ _ => .negate
      · cases h
  | chain first links =>
    cases room with
    | zero =>
      simp only [Expr.evalIn] at h
      cases h
      exact .nesting
    | succ room =>
      simp only [Expr.evalIn] at h
      rcases bind_eq_error h with h | ⟨v, hv, h⟩
      · exact (Expr.evalIn_stops first h).mono fun _ _ _ => .first
      · exact (Links.evalIn_stops links h).mono fun _ _ _ => .links hv

theorem Links.evalIn_stops {room : Nat} {v : Float} (l : Links)
    (h : l.evalIn store room v = .error fault) :
    Stops store (fun op x y => l.Applies store op x y room v) fault := by
  cases l with
  | done => simp [Links.evalIn] at h
  | link other operand rest =>
    simp only [Links.evalIn] at h
    rcases bind_eq_error h with h | ⟨w, hw, h⟩
    · exact (Expr.evalIn_stops operand h).mono fun _ _ _ => .operand
    rcases bind_eq_error h with h | ⟨z, hz, h⟩
    · exact .operator (.here hw) h
    · exact (Links.evalIn_stops rest h).mono fun _ _ _ => .rest hw hz

end

end Evaluation

theorem Stops.ofEvaluation {store : Store} {Applies : Operator → Float → Float → Prop} {fault : Fault}
    (h : Stops store Applies fault) : fault.ofEvaluation = true := by
  cases h with
  | nesting | undefinedVariable _ => rfl
  | operator _ hfault => exact Operator.apply_fault hfault

theorem Expr.eval_fault {store : Store} {e : Expr} {fault : Fault}
    (h : e.eval store = .error fault) : fault.ofEvaluation = true :=
  (Expr.evalIn_stops e h).ofEvaluation

/-- Both sides of a condition are evaluated, the right one if the left one has a value. -/
def Condition.Applies (store : Store) (c : Condition) (op : Operator) (x y : Float) : Prop :=
  c.left.Applies store op x y Expr.maxDepth ∨
    ∃ v, c.left.eval store = .ok v ∧ c.right.Applies store op x y Expr.maxDepth

def Statement.Applies {τ : Type} (store : Store) (op : Operator) (x y : Float) : Statement τ → Prop
  | .assign _ value _ => value.Applies store op x y Expr.maxDepth
  | .branch condition _ _ | .loop condition => condition.Applies store op x y
  | _ => False

theorem Condition.Applies.eval_eq_error {store : Store} {c : Condition} {op : Operator} {x y : Float}
    {fault : Fault} (h : c.Applies store op x y) (hfault : op.apply x y = .error fault) :
    c.eval store = .error fault := by
  rcases h with h | ⟨v, hv, h⟩
  · have hleft : c.left.eval store = .error fault := h.evalIn_eq_error hfault
    rw [Condition.eval, hleft]
    rfl
  · have hright : c.right.eval store = .error fault := h.evalIn_eq_error hfault
    simp only [Condition.eval, hv, hright, bind, Except.bind]

theorem Condition.eval_stops {store : Store} {c : Condition} {fault : Fault}
    (h : c.eval store = .error fault) : Stops store (c.Applies store) fault ∨
      ∃ v w, c.comparator.apply v w = .error fault := by
  rcases bind_eq_error h with h | ⟨v, hv, h⟩
  · exact .inl ((Expr.evalIn_stops _ h).mono fun _ _ _ => .inl)
  rcases bind_eq_error h with h | ⟨w, hw, h⟩
  · exact .inl ((Expr.evalIn_stops _ h).mono fun _ _ _ ha => .inr ⟨v, hv, ha⟩)
  · exact .inr ⟨v, w, h⟩

theorem Condition.eval_fault {store : Store} {c : Condition} {fault : Fault}
    (h : c.eval store = .error fault) : fault.ofEvaluation = true := by
  rcases Condition.eval_stops h with hstops | ⟨v, w, hcompare⟩
  · exact hstops.ofEvaluation
  · exact Comparator.apply_fault hcompare

theorem Operator.apply_eq_infiniteDividend_iff {op : Operator} {x y : Float} :
    op.apply x y = .error .infiniteDividend ↔ op = .modulo ∧ Double.LacksRemainder x y := by
  unfold Double.LacksRemainder
  cases op with
  | add | subtract | multiply | other _ _ => simp [apply]
  | divide =>
    simp only [apply]
    split <;> simp
  | modulo =>
    cases hy : y == 0 with
    | true => simp [apply, hy]
    | false =>
      have hr := Double.remainder?_eq_none_iff (x := x) hy
      cases hx : Double.remainder? x y with
      | some r =>
        rw [hx] at hr
        simpa [apply, hy, hx] using hr
      | none => simpa [apply, hy, hx] using hr.1 hx

theorem Stops.infiniteDividend {store : Store} {Applies : Operator → Float → Float → Prop}
    (h : Stops store Applies .infiniteDividend) :
    ∃ x y, Applies .modulo x y ∧ Double.LacksRemainder x y := by
  cases h with
  | @operator op x y _ happlies hfault =>
    obtain ⟨rfl, hlacks⟩ := Operator.apply_eq_infiniteDividend_iff.1 hfault
    exact ⟨x, y, happlies, hlacks⟩

theorem Expr.eval_eq_infiniteDividend_iff {store : Store} {e : Expr} :
    e.eval store = .error .infiniteDividend ↔
      ∃ x y, e.Applies store .modulo x y Expr.maxDepth ∧ Double.LacksRemainder x y := by
  constructor
  · intro h
    exact (Expr.evalIn_stops e h).infiniteDividend
  · rintro ⟨x, y, happlies, hlacks⟩
    exact happlies.evalIn_eq_error (Operator.apply_eq_infiniteDividend_iff.2 ⟨rfl, hlacks⟩)

theorem Condition.eval_eq_infiniteDividend_iff {store : Store} {c : Condition} :
    c.eval store = .error .infiniteDividend ↔
      ∃ x y, c.Applies store .modulo x y ∧ Double.LacksRemainder x y := by
  constructor
  · intro h
    rcases Condition.eval_stops h with hstops | ⟨v, w, hcompare⟩
    · exact hstops.infiniteDividend
    · cases hc : c.comparator <;> simp [hc, Comparator.apply] at hcompare
  · rintro ⟨x, y, happlies, hlacks⟩
    exact happlies.eval_eq_error (Operator.apply_eq_infiniteDividend_iff.2 ⟨rfl, hlacks⟩)

end NumberedBasic
