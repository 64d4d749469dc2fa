import NumberedBasic.Proofs.Viability

set_option autoImplicit false

/-!
# Refused rows of tokens

A row that the grammar does not derive is refused at its first impossible token, the first one at
which the row is no beginning of a sentence. A derived row can be refused for a numeral in it only,
and its jump targets are looked at in the order in which they stand.
-/
namespace NumberedBasic

namespace Statement
open Grammar

theorem State.after?_eq_none {s : State} {ts : List Token} (h : s.after? ts = none) :
    ∃ front t back u, ts = front ++ t :: back ∧ s.after? front = some u ∧ u.next? t = none := by
  induction ts generalizing s with
  | nil => cases h
  | cons t ts ih =>
    cases ht : s.next? t with
    | none => exact ⟨[], t, ts, s, rfl, rfl, ht⟩
    | some v =>
      simp only [State.after?, ht, Option.bind_some] at h
      obtain ⟨front, r, back, u, rfl, hfront, hr⟩ := ih h
      exact ⟨t :: front, r, back, u, rfl, State.after?_cons_eq_some.2 ⟨v, ht, hfront⟩, hr⟩

theorem parseFrom_refused {s u : State} {front : List Token} {t : Token}
    (hfront : s.after? front = some u) (ht : u.next? t = none) (back : List Token) (index : Nat)
    (last? : Option Token) :
    parseFrom s index last? (front ++ t :: back) = .error (complaint (index + front.length) t) := by
  induction front generalizing s index last? with
  | nil =>
    cases hfront
    simp [parseFrom, ht]
  | cons f front ih =>
    obtain ⟨v, hv, hfront⟩ := State.after?_cons_eq_some.1 hfront
    have hindex : index + 1 + front.length = index + (front.length + 1) := by omega
    simp only [List.cons_append, parseFrom, hv, ih hfront, List.length_cons, hindex]

theorem State.close?_endOfLine {goal : Goal} {value : Expr} {u : State} {t : Token}
    (h : State.close? goal value t = some u) (ht : t.kind = .endOfLine) :
    ∃ st, u = .finished st := by
  cases goal with
  | assign name explicit =>
    simp only [State.close?, ht, if_true, Option.some.injEq] at h
    exact ⟨_, h.symm⟩
  | left head => simp [State.close?, ht, isComparator] at h
  | right head comparator left =>
    cases head with
    | branch => simp [State.close?, ht] at h
    | loop =>
      simp only [State.close?, ht, if_true, Option.some.injEq] at h
      exact ⟨_, h.symm⟩

theorem State.next?_endOfLine {s u : State} {t : Token} (h : s.next? t = some u)
    (ht : t.kind = .endOfLine) : ∃ st, u = .finished st := by
  cases s with
  | operator goal chain frames =>
    simp only [State.next?, ht, isOperator, Bool.false_eq_true, if_false] at h
    split at h
    · simp at h
    · exact State.close?_endOfLine h ht
  | elseOrEnd condition target =>
    simp only [State.next?, ht, Option.some.injEq] at h
    exact ⟨_, h.symm⟩
  | ending st =>
    simp only [State.next?, ht, if_true, Option.some.injEq] at h
    exact ⟨_, h.symm⟩
  | _ => simp [State.next?, State.open?, ht] at h

theorem derivable_of_after? {front : List Token} {eol : Token} {u : State}
    (h : State.start.after? (front ++ [eol]) = some u) (heol : eol.kind = .endOfLine) :
    Derivable (front ++ [eol]) := by
  have hrow := h
  rw [State.after?_append] at h
  obtain ⟨v, -, hv⟩ := Option.bind_eq_some_iff.1 h
  obtain ⟨w, hw, hu⟩ := State.after?_cons_eq_some.1 hv
  obtain ⟨st, rfl⟩ := State.next?_endOfLine hw heol
  obtain rfl := Option.some.inj hu
  obtain ⟨tree, htree, -⟩ := tree_of_finished hrow
  exact ⟨tree, htree⟩

/-- No sentence starts with the tokens up to index `i`, and some sentence with any fewer of them. -/
def FirstImpossible (ts : List Token) (i : Nat) : Prop :=
  ¬ Viable ((ts.take (i + 1)).map (·.kind)) ∧ ∀ j < i, Viable ((ts.take (j + 1)).map (·.kind))

theorem firstImpossible_of_refused {front : List Token} {t : Token} {u : State}
    (hfront : State.start.after? front = some u) (ht : u.next? t = none) (back : List Token) :
    FirstImpossible (front ++ t :: back) front.length := by
  constructor
  · rw [List.take_length_add_append, List.take_succ_cons, List.take_zero, viable_iff_after?,
      State.after?_append, hfront]
    simp [State.after?, ht]
  · intro j hj
    rw [List.take_append_of_le_length hj, viable_iff_after?]
    rw [← List.take_append_drop (j + 1) front, State.after?_append] at hfront
    obtain ⟨s, hs, -⟩ := Option.bind_eq_some_iff.1 hfront
    exact ⟨s, hs⟩

theorem complaint_message (i : Nat) (t : Token) : (complaint i t).message =
    if t.kind = .endOfLine then if i = 0 then "empty statement" else "unexpected end of line"
    else "unexpected " ++ Text.quoted t.lexeme ++ " at column " ++
      Text.numeral t.position.column := by
  unfold complaint
  split
  · split <;> rfl
  · rfl

theorem refused_at_first_impossible {front : List Token} {eol : Token}
    (heol : eol.kind = .endOfLine) (h : ¬ Derivable (front ++ [eol])) :
    ∃ i t, (front ++ [eol])[i]? = some t ∧ FirstImpossible (front ++ [eol]) i ∧
      parseFrom .start 0 none (front ++ [eol]) = .error (complaint i t) := by
  cases hafter : State.start.after? (front ++ [eol]) with
  | some u => exact absurd (derivable_of_after? hafter heol) h
  | none =>
    obtain ⟨before, t, back, u, hrow, hbefore, ht⟩ := State.after?_eq_none hafter
    rw [hrow]
    refine ⟨before.length, t, by simp, firstImpossible_of_refused hbefore ht back, ?_⟩
    rw [parseFrom_refused hbefore ht, Nat.zero_add]

def RowError.namesTarget : RowError → Bool
  | .statement (.lineNumber _) | .target _ => true
  | _ => false

theorem parseFrom_error {s : State} {index : Nat} {last? : Option Token} {ts : List Token}
    {e : ParseError} (h : parseFrom s index last? ts = .error e) :
    (RowError.statement e).namesTarget = false := by
  have hcomplaint (i : Nat) (t : Token) :
      (RowError.statement (complaint i t)).namesTarget = false := by
    unfold complaint
    split
    · split <;> rfl
    · rfl
  induction ts generalizing s index last? with
  | nil =>
    simp only [parseFrom] at h
    split at h <;> cases h
    · rfl
    · exact hcomplaint _ _
  | cons t ts ih =>
    simp only [parseFrom] at h
    split at h
    · exact ih h
    · cases h
      exact hcomplaint _ _

def Serves (t : Token) : Prop := ∃ x, t.value = some (.number x) ∧ IsTarget x

/-- What is said of a token that serves as no jump target, since its number, or the number that its
lexeme spells, is no line number. -/
inductive Misleads (t : Token) : RowError → Prop where
  | value {x : Float} (hvalue : t.value = some (.number x)) (hx : ¬ IsTarget x) :
      Misleads t (.statement (.lineNumber x))
  | lexeme {x : Float} (hvalue : ∀ y, t.value ≠ some (.number y))
      (hx : Numeral.double? t.lexeme = some x) (hwhole : Double.integer? x = none) :
      Misleads t (.target t.lexeme)

section Targets

variable {role : Role} {t : Token} {e : RowError}

theorem lineNumber_eq_error {x : Float} {e : ParseError} (h : lineNumber x = .error e) :
    e = .lineNumber x := by
  unfold lineNumber at h
  split at h
  · split at h <;> cases h
    rfl
  · cases h
    rfl

theorem numeralError?_operand (h : numeralError? .operand t = some e) : e.namesTarget = false := by
  unfold numeralError? at h
  split at h
  · cases h
  · unfold lexemeError? at h
    split at h
    · cases h
      rfl
    · cases h

theorem numeralError?_eq_none_iff (hrole : role ≠ .operand) :
    numeralError? role t = none ↔ Serves t := by
  unfold numeralError? Serves
  split
  · rename_i x hx
    simp [valueError?_eq_none_iff, hrole, hx]
  · rename_i hx
    have hlexeme : lexemeError? role t.lexeme ≠ none := by
      unfold lexemeError?
      split
      · simp
      · rw [if_neg hrole]
        split <;> simp
    simp only [hlexeme, false_iff]
    rintro ⟨x, hvalue, -⟩
    exact hx x hvalue

theorem numeralError?_eq_some_iff (hrole : role ≠ .operand) :
    numeralError? role t = some e ∧ e.namesTarget = true ↔ Misleads t e := by
  constructor
  · rintro ⟨h, hnames⟩
    unfold numeralError? at h
    split at h
    · rename_i x hx
      simp only [valueError?, hrole, if_false] at h
      cases hline : lineNumber x with
      | ok n => simp [hline] at h
      | error e' =>
        simp only [hline, Option.some.injEq] at h
        subst h
        rw [lineNumber_eq_error hline]
        refine .value hx fun htarget => ?_
        rw [lineNumber_of_isTarget htarget] at hline
        cases hline
    · rename_i hx
      unfold lexemeError? at h
      split at h
      · cases h
        cases hnames
      · rename_i x hspelled
        rw [if_neg hrole] at h
        split at h <;> cases h
        · rename_i hwhole
          exact .lexeme hx hspelled (Option.isNone_iff_eq_none.1 hwhole)
        · cases hnames
  · rintro (⟨hvalue, hx⟩ | ⟨hvalue, hx, hwhole⟩)
    · refine ⟨?_, rfl⟩
      rename_i x
      simp only [numeralError?, hvalue, valueError?, hrole, if_false]
      cases hline : lineNumber x with
      | ok n => exact absurd (isTarget_of_lineNumber hline) hx
      | error e => rw [lineNumber_eq_error hline]
    · refine ⟨?_, rfl⟩
      unfold numeralError?
      split
      · rename_i y hy
        exact absurd hy (hvalue y)
      · simp [lexemeError?, hx, hwhole, hrole]

end Targets

theorem numeralsError?_append (before : Option Token.Kind) (ts us : List Token) :
    ∃ last, numeralsError? before (ts ++ us) =
      (numeralsError? before ts).or (numeralsError? last us) := by
  induction ts generalizing before with
  | nil => exact ⟨before, by simp [numeralsError?]⟩
  | cons t ts ih =>
    obtain ⟨last, hlast⟩ := ih (some t.kind)
    exact ⟨last, by simp only [List.cons_append, numeralsError?, hlast, Option.or_assoc]⟩

theorem numeralsError?_operands {before : Option Token.Kind} {ts : List Token} {e : RowError}
    (hbefore : Role.after before = .operand) (hts : ∀ t ∈ ts, t.kind ∉ jumpWords)
    (h : numeralsError? before ts = some e) :
    ∃ t ∈ ts, t.kind = .number ∧ numeralError? .operand t = some e := by
  induction ts generalizing before with
  | nil => cases h
  | cons t ts ih =>
    simp only [numeralsError?, Option.or_eq_some_iff] at h
    rcases h with h | ⟨-, h⟩
    · simp only [hbefore, Option.ite_none_right_eq_some] at h
      exact ⟨t, List.mem_cons_self, h⟩
    · have htail := (Role.after_eq_operand_iff t.kind).2 (hts t List.mem_cons_self)
      obtain ⟨u, hu, hnumeral⟩ := ih htail (fun u hu => hts u (List.mem_cons_of_mem t hu)) h
      exact ⟨u, List.mem_cons_of_mem t hu, hnumeral⟩

end Statement

namespace Grammar
open Statement

def StatementTree.targetTokens : StatementTree → List Token
  | ifThen _ _ _ target _ => [target.token]
  | ifThenElse _ _ _ target _ otherwise _ => [target.token, otherwise.token]
  | goto _ target _ => [target.token]
  | _ => []

theorem StatementTree.targets_ast (tree : StatementTree) :
    tree.ast.targets = tree.targetTokens.map amount := by
  cases tree <;> rfl

theorem not_jumpWord_of_term {k : Token.Kind} (h : k ∈ termKinds) : k ∉ jumpWords := by
  revert k
  decide

theorem StatementTree.no_jumpWord (tree : StatementTree) (h : tree.targetTokens = []) :
    ∀ t ∈ tree.tokens, t.kind ∉ jumpWords := by
  intro t ht
  have heol : tree.eol.token.kind ∉ jumpWords := by
    rw [tree.eol.kind_eq]
    decide
  rcases List.mem_append.1 ht with ht | ht
  · cases tree with
    | letName head name sign value _ =>
      have := fun h => not_jumpWord_of_term (value.term_kinds t h)
      grind [front, Leaf.kind_eq, jumpWords]
    | assign name sign value _ =>
      have := fun h => not_jumpWord_of_term (value.term_kinds t h)
      grind [front, Leaf.kind_eq, jumpWords]
    | loop head condition _ =>
      have := fun h => not_jumpWord_of_term (condition.term_kinds t h)
      grind [front, Leaf.kind_eq, jumpWords]
    | ifThen | ifThenElse | goto => cases h
    | _ => grind [front, Leaf.kind_eq, jumpWords]
  · rw [List.mem_singleton.1 ht]
    exact heol

end Grammar

namespace Statement
open Grammar

theorem numeralError?_of_valued {ts : List Token} (hv : Valued ts) {t : Token} (ht : t ∈ ts)
    (hk : t.kind = .number) : numeralError? .operand t = none := by
  obtain ⟨x, hx⟩ := hv t ht hk
  simp [numeralError?, hx, valueError?]

/-- The errors of the numerals in a row that come before the errors of jump targets: none of them
names a target, and there is none if all numerals carry their numbers. -/
def Preliminary (ts : List Token) (before : Option RowError) : Prop :=
  (∀ e, before = some e → e.namesTarget = false) ∧ (Valued ts → before = none)

theorem preliminary_of_operands {ts us : List Token} (hsub : us ⊆ ts)
    (hus : ∀ t ∈ us, t.kind ∉ jumpWords) : Preliminary ts (numeralsError? none us) := by
  have hstart : Role.after none = .operand := rfl
  constructor
  · intro e he
    obtain ⟨t, -, -, ht⟩ := numeralsError?_operands hstart hus he
    exact numeralError?_operand ht
  · intro hv
    cases he : numeralsError? none us with
    | none => rfl
    | some e =>
      obtain ⟨t, hmem, hk, ht⟩ := numeralsError?_operands hstart hus he
      rw [numeralError?_of_valued hv (hsub hmem) hk] at ht
      cases ht

theorem numeralsError?_condition (head : KeywordLeaf .IF) (condition : ConditionTree)
    (us : List Token) : ∃ before last, Preliminary (head.token :: (condition.tokens ++ us)) before ∧
      numeralsError? none (head.token :: (condition.tokens ++ us)) =
        before.or (numeralsError? last us) := by
  have hplain : ∀ t ∈ head.token :: condition.tokens, t.kind ∉ jumpWords := by
    intro t ht
    rcases List.mem_cons.1 ht with rfl | ht
    · rw [head.kind_eq]
      decide
    · exact not_jumpWord_of_term (condition.term_kinds t ht)
  obtain ⟨last, hlast⟩ := numeralsError?_append none (head.token :: condition.tokens) us
  exact ⟨_, last, preliminary_of_operands (List.subset_append_left _ us) hplain, hlast⟩

theorem numeralsError?_tokens (tree : StatementTree) : ∃ role before, role ≠ Role.operand ∧
    Preliminary tree.tokens before ∧ numeralsError? none tree.tokens =
      before.or (tree.targetTokens.findSome? (numeralError? role)) := by
  by_cases hnone : tree.targetTokens = []
  -- without a target all numerals are operands
  · refine ⟨.goto, numeralsError? none tree.tokens, by decide, ?_, ?_⟩
    · exact preliminary_of_operands (List.Subset.refl _) (tree.no_jumpWord hnone)
    · rw [hnone, List.findSome?_nil, Option.or_none]
  cases tree with
  | ifThen head condition word target eol =>
    have hrow : (StatementTree.ifThen head condition word target eol).tokens =
        head.token :: (condition.tokens ++ [word.token, target.token, eol.token]) := by
      simp [StatementTree.tokens, StatementTree.front, StatementTree.eol]
    rw [hrow]
    obtain ⟨before, last, hbefore, herror⟩ := numeralsError?_condition head condition
      [word.token, target.token, eol.token]
    refine ⟨.branch, before, by decide, hbefore, ?_⟩
    rw [herror]
    simp [numeralsError?, word.kind_eq, target.kind_eq, eol.kind_eq, Role.after,
      StatementTree.targetTokens]
  | ifThenElse head condition word target other otherwise eol =>
    have hrow : (StatementTree.ifThenElse head condition word target other otherwise eol).tokens =
        head.token :: (condition.tokens ++
          [word.token, target.token, other.token, otherwise.token, eol.token]) := by
      simp [StatementTree.tokens, StatementTree.front, StatementTree.eol]
    rw [hrow]
    obtain ⟨before, last, hbefore, herror⟩ := numeralsError?_condition head condition
      [word.token, target.token, other.token, otherwise.token, eol.token]
    refine ⟨.branch, before, by decide, hbefore, ?_⟩
    rw [herror]
    have hfind : [target.token, otherwise.token].findSome? (numeralError? .branch) =
        (numeralError? .branch target.token).or (numeralError? .branch otherwise.token) := by
      rw [← List.singleton_append, List.findSome?_append, List.findSome?_singleton,
        List.findSome?_singleton]
    simp [numeralsError?, word.kind_eq, target.kind_eq, other.kind_eq, otherwise.kind_eq,
      eol.kind_eq, Role.after, StatementTree.targetTokens, hfind]
  | goto head target eol =>
    refine ⟨.goto, none, by decide, ⟨fun e he => (by cases he), fun _ => rfl⟩, ?_⟩
    simp [StatementTree.tokens, StatementTree.front, StatementTree.eol, numeralsError?,
      head.kind_eq, target.kind_eq, eol.kind_eq, Role.after, StatementTree.targetTokens]
  | _ => exact absurd rfl hnone

def FirstMisleads (tree : StatementTree) (e : RowError) : Prop :=
  ∃ front t back, tree.targetTokens = front ++ t :: back ∧ (∀ u ∈ front, Serves u) ∧ Misleads t e

theorem firstMisleads_iff {tree : StatementTree} {role : Role} (hrole : role ≠ .operand)
    {e : RowError} : FirstMisleads tree e ↔
      tree.targetTokens.findSome? (numeralError? role) = some e ∧ e.namesTarget = true := by
  simp only [FirstMisleads, List.findSome?_eq_some_iff, ← numeralError?_eq_some_iff hrole,
    ← numeralError?_eq_none_iff hrole]
  constructor
  · rintro ⟨front, t, back, hrow, hfront, ht, hnames⟩
    exact ⟨⟨front, t, back, hrow, ht, hfront⟩, hnames⟩
  · rintro ⟨⟨front, t, back, hrow, ht, hfront⟩, hnames⟩
    exact ⟨front, t, back, hrow, hfront, ht, hnames⟩

theorem amount_of_serves {t : Token} (h : Serves t) : IsTarget (amount t) := by
  obtain ⟨x, hvalue, hx⟩ := h
  simpa [amount, hvalue] using hx

theorem ofTokens_of_numerals {tree : StatementTree} (h : numeralsError? none tree.tokens = none) :
    ofTokens tree.tokens = .ok tree.ast.whole := by
  obtain ⟨role, before, hrole, -, herror⟩ := numeralsError?_tokens tree
  rw [h, eq_comm, Option.or_eq_none_iff, List.findSome?_eq_none_iff] at herror
  refine (ofTokens_eq_ok_iff _ _).2 ⟨tree, rfl, fun x hx => ?_, rfl⟩
  rw [tree.targets_ast] at hx
  obtain ⟨t, ht, rfl⟩ := List.mem_map.1 hx
  exact amount_of_serves ((numeralError?_eq_none_iff hrole).1 (herror.2 t ht))

theorem ofRow_tokens (tree : StatementTree) {e : RowError} :
    ofRow tree.tokens = .error e ↔ numeralsError? none tree.tokens = some e := by
  have hparse := (parseFrom_start_iff tree.tokens tree.ast).2 ⟨tree, rfl, rfl⟩
  cases h : numeralsError? none tree.tokens with
  | none => simp [ofRow, hparse, h, ofTokens_of_numerals h]
  | some e' => simp [ofRow, hparse, h]

theorem firstMisleads_of_ofRow {ts : List Token} {e : RowError} (h : ofRow ts = .error e)
    (hnames : e.namesTarget = true) : ∃ tree : StatementTree, tree.tokens = ts ∧
      FirstMisleads tree e := by
  cases hparse : parseFrom .start 0 none ts with
  | error e' =>
    simp only [ofRow, hparse, Except.error.injEq] at h
    rw [← h, parseFrom_error hparse] at hnames
    cases hnames
  | ok a =>
    obtain ⟨tree, rfl, -⟩ := (parseFrom_start_iff ts a).1 hparse
    obtain ⟨role, before, hrole, hbefore, herror⟩ := numeralsError?_tokens tree
    rw [ofRow_tokens, herror, Option.or_eq_some_iff] at h
    refine ⟨tree, rfl, (firstMisleads_iff hrole).2 ⟨?_, hnames⟩⟩
    rcases h with h | ⟨-, h⟩
    · rw [hbefore.1 e h] at hnames
      cases hnames
    · exact h

theorem ofRow_of_firstMisleads {tree : StatementTree} {e : RowError} (hv : Valued tree.tokens)
    (h : FirstMisleads tree e) : ofRow tree.tokens = .error e := by
  obtain ⟨role, before, hrole, hbefore, herror⟩ := numeralsError?_tokens tree
  rw [ofRow_tokens, herror, hbefore.2 hv, Option.none_or]
  exact ((firstMisleads_iff hrole).1 h).1

/-- A row that ends a line and that the grammar does not derive is refused at the first token that
no sentence has there. A jump target is reported only of a derived row, the first one that misleads,
and it is reported if all numerals carry their numbers. -/
theorem refusal_at_first_impossible_token (ts : List Token) :
    (∀ front eol, ts = front ++ [eol] → eol.kind = .endOfLine → ¬ Derivable ts →
      ∃ i t e, ts[i]? = some t ∧ FirstImpossible ts i ∧ ofRow ts = .error e ∧
        e.kind? = some .syntactic ∧ e.message =
          if t.kind = .endOfLine then if i = 0 then "empty statement" else "unexpected end of line"
          else "unexpected " ++ Text.quoted t.lexeme ++ " at column " ++
            Text.numeral t.position.column) ∧
    (∀ e, ofRow ts = .error e → e.namesTarget = true →
      ∃ tree : StatementTree, tree.tokens = ts ∧ FirstMisleads tree e) ∧
    ∀ tree : StatementTree, tree.tokens = ts → Valued ts → ∀ e, FirstMisleads tree e →
      ofRow ts = .error e := by
  refine ⟨?_, fun e => firstMisleads_of_ofRow, ?_⟩
  · rintro front eol rfl heol hderives
    obtain ⟨i, t, ht, hfirst, hparse⟩ := refused_at_first_impossible heol hderives
    exact ⟨i, t, .statement (complaint i t), ht, hfirst, by simp only [ofRow, hparse], rfl,
      complaint_message i t⟩
  · rintro tree rfl hv e
    exact ofRow_of_firstMisleads hv

/-- `IF A < THEN 100` -/
def gapRow : List Token :=
  [⟨.keyword .IF, "IF", none, ⟨1, 1⟩⟩, ⟨.identifier, "A", some (.text "A"), ⟨1, 4⟩⟩,
    ⟨.less, "<", none, ⟨1, 6⟩⟩, ⟨.keyword .THEN, "THEN", none, ⟨1, 8⟩⟩,
    ⟨.number, "100", some (.number 100), ⟨1, 13⟩⟩, ⟨.endOfLine, "", none, ⟨1, 16⟩⟩]

/-- `IF A < 1 THEN 0.5 ELSE 0` -/
def nowhereTree : StatementTree :=
  let one : ExprTree := .expr (.number ⟨⟨.number, "1", some (.number 1), ⟨1, 8⟩⟩, by decide⟩) .none
  let name : ExprTree :=
    .expr (.name ⟨⟨.identifier, "A", some (.text "A"), ⟨1, 4⟩⟩, by decide⟩) .none
  .ifThenElse ⟨⟨.keyword .IF, "IF", none, ⟨1, 1⟩⟩, by decide⟩
    ⟨name, ⟨⟨.less, "<", none, ⟨1, 6⟩⟩, by decide⟩, one⟩
    ⟨⟨.keyword .THEN, "THEN", none, ⟨1, 10⟩⟩, by decide⟩
    ⟨⟨.number, "0.5", some (.number 0.5), ⟨1, 15⟩⟩, by decide⟩
    ⟨⟨.keyword .ELSE, "ELSE", none, ⟨1, 19⟩⟩, by decide⟩
    ⟨⟨.number, "0", some (.number 0), ⟨1, 24⟩⟩, by decide⟩
    ⟨⟨.endOfLine, "", none, ⟨1, 25⟩⟩, by decide⟩

theorem refused_rows :
    (∃ i t e, gapRow[i]? = some t ∧ FirstImpossible gapRow i ∧ ofRow gapRow = .error e ∧
      e.message = "unexpected 'THEN' at column 8") ∧
    (∃ tree : StatementTree, tree.tokens = nowhereTree.tokens ∧
      FirstMisleads tree (.statement (.lineNumber 0.5))) ∧
    ofRow nowhereTree.tokens = .error (.statement (.lineNumber 0.5)) := by
  have hgap : ¬ Derivable gapRow := by
    rintro ⟨tree, htree⟩
    have hparse := (parseFrom_start_iff gapRow tree.ast).2 ⟨tree, htree, rfl⟩
    have hnone : (parseFrom .start 0 none gapRow).toOption.isNone = true := by decide +kernel
    rw [hparse] at hnone
    cases hnone
  have hmessage : (match ofRow gapRow with | .error e => e.message | .ok _ => "") =
      "unexpected 'THEN' at column 8" := by decide +kernel
  have hhalf : Double.integer? 0.5 = none := by decide +kernel
  have hfirst : FirstMisleads nowhereTree (.statement (.lineNumber 0.5)) := by
    refine ⟨[], _, _, rfl, fun u hu => (by cases hu), .value rfl ?_⟩
    rintro ⟨n, hn, -⟩
    rw [hhalf] at hn
    cases hn
  have hrow := (refusal_at_first_impossible_token nowhereTree.tokens).2.2 nowhereTree rfl
    (by decide +kernel) _ hfirst
  obtain ⟨i, t, e, ht, hi, he, -⟩ :=
    (refusal_at_first_impossible_token gapRow).1 gapRow.dropLast _ rfl rfl hgap
  rw [he] at hmessage
  exact ⟨⟨i, t, e, ht, hi, he, hmessage⟩,
    (refusal_at_first_impossible_token nowhereTree.tokens).2.1 _ hrow rfl, hrow⟩

end Statement

end NumberedBasic
