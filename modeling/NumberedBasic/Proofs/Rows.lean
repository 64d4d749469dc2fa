import Mathlib.Data.List.Chain
import NumberedBasic.Proofs.Parsing

set_option autoImplicit false

/-!
# Rows of tokens and the grammar

A row whose numerals carry their numbers is a statement exactly if the grammar derives it and every
jump target in it is a line number. The targets are looked at after the grammar has accepted, and by
the words before them, so the derivation and the row have to agree on which numerals are targets.
-/
namespace NumberedBasic.Statement
open Grammar

/-- A number that can name a line: whole, and one or more. -/
def IsTarget (x : Float) : Prop := ∃ n : Int, Double.integer? x = some n ∧ 1 ≤ n

theorem lineNumber_eq_ok_iff (x : Float) (n : Int) :
    lineNumber x = .ok n ↔ Double.integer? x = some n ∧ 1 ≤ n := by
  unfold lineNumber
  cases Double.integer? x with
  | none => simp
  | some m =>
    by_cases h : 1 ≤ m
    · simp only [h, if_true, Except.ok.injEq, Option.some.injEq]
      constructor
      · rintro rfl
        exact ⟨rfl, h⟩
      · exact And.left
    · simp only [h, if_false, reduceCtorEq, Option.some.injEq, false_iff, not_and]
      rintro rfl
      exact h

theorem lineNumber_of_isTarget {x : Float} (h : IsTarget x) :
    lineNumber x = .ok ((Double.integer? x).getD 0) := by
  obtain ⟨n, hn, hpos⟩ := h
  exact (lineNumber_eq_ok_iff x _).2 ⟨by rw [hn]; rfl, by rw [hn]; exact hpos⟩

theorem isTarget_of_lineNumber {x : Float} {n : Int} (h : lineNumber x = .ok n) : IsTarget x :=
  ⟨n, (lineNumber_eq_ok_iff x n).1 h⟩

def targets {τ : Type} : Statement τ → List τ
  | branch _ target none => [target]
  | branch _ target (some otherwise) => [target, otherwise]
  | goto target => [target]
  | _ => []

def whole : Statement Float → Statement Int
  | assign name value explicit => .assign name value explicit
  | print item => .print item
  | input name => .input name
  | branch condition target otherwise =>
    .branch condition ((Double.integer? target).getD 0)
      (otherwise.map fun x => (Double.integer? x).getD 0)
  | goto target => .goto ((Double.integer? target).getD 0)
  | loop condition => .loop condition
  | endLoop => .endLoop
  | stop => .stop
  | remark text => .remark text

theorem mapTargets_of_isTarget {a : Statement Float} (h : ∀ x ∈ a.targets, IsTarget x) :
    a.mapTargets lineNumber = .ok a.whole := by
  cases a with
  | branch condition target otherwise =>
    cases otherwise with
    | none =>
      have ht := lineNumber_of_isTarget (h target (by simp [targets]))
      simp [mapTargets, whole, ht, bind, Except.bind]
    | some other =>
      have ht := lineNumber_of_isTarget (h target (by simp [targets]))
      have ho := lineNumber_of_isTarget (h other (by simp [targets]))
      simp [mapTargets, whole, ht, ho, bind, Except.bind]
  | goto target =>
    have ht := lineNumber_of_isTarget (h target (by simp [targets]))
    simp [mapTargets, whole, ht, bind, Except.bind]
  | _ => rfl

theorem isTarget_of_mapTargets {a : Statement Float} {s : Statement Int}
    (h : a.mapTargets lineNumber = .ok s) : ∀ x ∈ a.targets, IsTarget x := by
  intro x hx
  cases a with
  | branch condition target otherwise =>
    cases ht : lineNumber target with
    | error e => cases otherwise <;> simp [mapTargets, ht, bind, Except.bind] at h
    | ok n =>
      cases otherwise with
      | none =>
        rw [List.mem_singleton.1 hx]
        exact isTarget_of_lineNumber ht
      | some other =>
        cases ho : lineNumber other with
        | error e => simp [mapTargets, ht, ho, bind, Except.bind] at h
        | ok m =>
          rcases List.mem_pair.1 hx with rfl | rfl
          · exact isTarget_of_lineNumber ht
          · exact isTarget_of_lineNumber ho
  | goto target =>
    rw [List.mem_singleton.1 hx]
    cases ht : lineNumber target with
    | error e => simp [mapTargets, ht, bind, Except.bind] at h
    | ok n => exact isTarget_of_lineNumber ht
  | _ => simp [targets] at hx

theorem parseFrom_start_iff (ts : List Token) (a : Statement Float) :
    parseFrom .start 0 none ts = .ok a ↔ ∃ tree : StatementTree, tree.tokens = ts ∧ tree.ast = a := by
  rw [parseFrom_eq_ok_iff]
  constructor
  · exact tree_of_finished
  · rintro ⟨tree, rfl, rfl⟩
    exact after_tokens tree

theorem ofTokens_eq_ok_iff (ts : List Token) (s : Statement Int) :
    ofTokens ts = .ok s ↔ ∃ tree : StatementTree, tree.tokens = ts ∧
      (∀ x ∈ tree.ast.targets, IsTarget x) ∧ s = tree.ast.whole := by
  constructor
  · intro h
    cases ha : parseFrom .start 0 none ts with
    | error e => simp [ofTokens, ha, bind, Except.bind] at h
    | ok a =>
      simp only [ofTokens, ha, bind, Except.bind] at h
      obtain ⟨tree, htree, rfl⟩ := (parseFrom_start_iff ts a).1 ha
      have ht := isTarget_of_mapTargets h
      rw [mapTargets_of_isTarget ht] at h
      exact ⟨tree, htree, ht, (Except.ok.inj h).symm⟩
  · rintro ⟨tree, rfl, ht, rfl⟩
    have ha := (parseFrom_start_iff tree.tokens tree.ast).2 ⟨tree, rfl, rfl⟩
    simp only [ofTokens, ha, bind, Except.bind]
    exact mapTargets_of_isTarget ht

def jumpWords : List Token.Kind := [.keyword .THEN, .keyword .ELSE, .keyword .GOTO]

/-- A numeral right after a jump word is a target. -/
def Leads (word numeral : Token) : Prop :=
  word.kind ∈ jumpWords → numeral.kind = .number → IsTarget (amount numeral)

theorem StatementTree.isTarget_of_leads (tree : StatementTree) (h : tree.tokens.IsChain Leads) :
    ∀ x ∈ tree.ast.targets, IsTarget x := by
  intro x hx
  cases tree with
  | ifThen head condition word target eol =>
    obtain rfl := List.mem_singleton.1 hx
    have hrow : [word.token, target.token, eol.token] <:+
        (StatementTree.ifThen head condition word target eol).tokens :=
      ⟨head.token :: condition.tokens, by
        simp [StatementTree.tokens, StatementTree.front, StatementTree.eol]⟩
    have hl := h.suffix hrow
    simp only [List.isChain_cons_cons] at hl
    exact hl.1 (by simp [word.kind_eq, jumpWords]) target.kind_eq
  | ifThenElse head condition word target other otherwise eol =>
    have hrow : [word.token, target.token, other.token, otherwise.token, eol.token] <:+
        (StatementTree.ifThenElse head condition word target other otherwise eol).tokens :=
      ⟨head.token :: condition.tokens, by
        simp [StatementTree.tokens, StatementTree.front, StatementTree.eol]⟩
    have hl := h.suffix hrow
    simp only [List.isChain_cons_cons] at hl
    rcases List.mem_pair.1 hx with rfl | rfl
    · exact hl.1 (by simp [word.kind_eq, jumpWords]) target.kind_eq
    · exact hl.2.2.1 (by simp [other.kind_eq, jumpWords]) otherwise.kind_eq
  | goto head target eol =>
    obtain rfl := List.mem_singleton.1 hx
    have hl : Leads head.token target.token := (List.isChain_cons_cons.1 h).1
    exact hl (by simp [head.kind_eq, jumpWords]) target.kind_eq
  | _ => simp [StatementTree.ast, targets] at hx

def Valued (ts : List Token) : Prop :=
  ∀ t ∈ ts, t.kind = .number → ∃ x : Float, t.value = some (.number x)

theorem Role.after_eq_operand_iff (k : Token.Kind) :
    Role.after (some k) = .operand ↔ k ∉ jumpWords := by
  unfold Role.after
  split <;> simp_all [jumpWords]

theorem valueError?_eq_none_iff (role : Role) (x : Float) :
    valueError? role x = none ↔ (role ≠ .operand → IsTarget x) := by
  unfold valueError?
  by_cases hr : role = .operand
  · simp [hr]
  · cases hx : lineNumber x with
    | error e =>
      have hn : ¬ IsTarget x := by
        intro h
        rw [lineNumber_of_isTarget h] at hx
        cases hx
      simp [hr, hn]
    | ok n => simp [hr, isTarget_of_lineNumber hx]

theorem numeralError?_valued {t : Token} {x : Float} (h : t.value = some (.number x)) (role : Role) :
    numeralError? role t = valueError? role (amount t) := by
  simp [numeralError?, amount, h]

/-- The check from left to right finds nothing wrong if every two neighbours are in order. -/
theorem numeralsError?_eq_none_iff (word : Token) (ts : List Token) (hv : Valued ts) :
    numeralsError? (some word.kind) ts = none ↔ (word :: ts).IsChain Leads := by
  induction ts generalizing word with
  | nil => simp [numeralsError?]
  | cons t ts ih =>
    have hrest := ih t fun u hu => hv u (List.mem_cons_of_mem t hu)
    have hhere : (if t.kind = .number then numeralError? (.after (some word.kind)) t else none) =
        none ↔ Leads word t := by
      by_cases hk : t.kind = .number
      · obtain ⟨x, hx⟩ := hv t List.mem_cons_self hk
        rw [if_pos hk, numeralError?_valued hx, valueError?_eq_none_iff]
        simp [Leads, hk, Role.after_eq_operand_iff]
      · simp [Leads, hk]
    simp only [numeralsError?, Option.or_eq_none_iff, hhere, hrest, List.isChain_cons_cons]

theorem numeralsError?_start_iff (ts : List Token) (hv : Valued ts) :
    numeralsError? none ts = none ↔ ts.IsChain Leads := by
  cases ts with
  | nil => simp [numeralsError?]
  | cons t ts =>
    have hhere : (if t.kind = .number then numeralError? (.after none) t else none) = none := by
      split
      · rename_i hk
        obtain ⟨x, hx⟩ := hv t List.mem_cons_self hk
        rw [numeralError?_valued hx, valueError?_eq_none_iff]
        exact fun h => absurd rfl h
      · rfl
    simp only [numeralsError?, hhere, Option.none_or]
    exact numeralsError?_eq_none_iff t ts fun u hu => hv u (List.mem_cons_of_mem t hu)

theorem numeralsError?_kind {before : Option Token.Kind} {ts : List Token} (hv : Valued ts)
    {e : RowError} (h : numeralsError? before ts = some e) : e.kind? = some .syntactic := by
  induction ts generalizing before with
  | nil => simp [numeralsError?] at h
  | cons t ts ih =>
    simp only [numeralsError?, Option.or_eq_some_iff] at h
    rcases h with h | ⟨-, h⟩
    · simp only [Option.ite_none_right_eq_some] at h
      obtain ⟨hk, h⟩ := h
      obtain ⟨x, hx⟩ := hv t List.mem_cons_self hk
      simp only [numeralError?, hx, valueError?, Option.ite_none_left_eq_some] at h
      obtain ⟨-, h⟩ := h
      split at h
      · cases h
      · cases h
        rfl
    · exact ih (fun u hu => hv u (List.mem_cons_of_mem t hu)) h

theorem ofRow_eq_ok_iff (ts : List Token) (hv : Valued ts) (s : Statement Int) :
    ofRow ts = .ok s ↔ ∃ tree : StatementTree, tree.tokens = ts ∧ ts.IsChain Leads ∧
      s = tree.ast.whole := by
  constructor
  · intro h
    unfold ofRow at h
    split at h
    · cases h
    split at h
    · cases h
    rename_i hn
    split at h
    · cases h
    rename_i s' hs
    cases h
    obtain ⟨tree, htree, -, rfl⟩ := (ofTokens_eq_ok_iff ts s).1 hs
    exact ⟨tree, htree, (numeralsError?_start_iff ts hv).1 hn, rfl⟩
  · rintro ⟨tree, rfl, hl, rfl⟩
    have ha := (parseFrom_start_iff tree.tokens tree.ast).2 ⟨tree, rfl, rfl⟩
    have hs := (ofTokens_eq_ok_iff tree.tokens tree.ast.whole).2
      ⟨tree, rfl, StatementTree.isTarget_of_leads tree hl, rfl⟩
    simp only [ofRow, ha, (numeralsError?_start_iff tree.tokens hv).2 hl, hs]

theorem ofRow_error_kind (ts : List Token) (hv : Valued ts) {e : RowError}
    (h : ofRow ts = .error e) : e.kind? = some .syntactic := by
  unfold ofRow at h
  split at h
  · cases h
    rfl
  split at h
  · rename_i hn
    cases h
    exact numeralsError?_kind hv hn
  split at h
  · cases h
    rfl
  · cases h

theorem ast_unique {t u : StatementTree} (h : t.tokens = u.tokens) : t.ast = u.ast := by
  have ht := after_tokens t
  rw [h, after_tokens u] at ht
  exact (State.finished.inj (Option.some.inj ht)).symm

/-- A row of valued tokens has a statement exactly if the grammar derives it and its targets are line
numbers, and then it is the statement of its derivations, which all agree. Any other row is a
syntax error. -/
theorem row_statement_iff_derivable (ts : List Token) (hv : Valued ts) :
    ((∃ s, ofRow ts = .ok s) ↔ (∃ tree : StatementTree, tree.tokens = ts) ∧ ts.IsChain Leads) ∧
    (∀ s, ofRow ts = .ok s → ofTokens ts = .ok s ∧
      ∀ tree : StatementTree, tree.tokens = ts → s = tree.ast.whole) ∧
    (∀ e, ofRow ts = .error e → e.kind? = some .syntactic) ∧
    (∀ t u : StatementTree, t.tokens = ts → u.tokens = ts → t.ast = u.ast) ∧
    (∀ tree : StatementTree, tree.tokens = ts → ∃ (front : List Token) (eol : Token),
      ts = front ++ [eol] ∧ eol.kind = .endOfLine ∧ ∀ t ∈ front, t.kind ≠ .endOfLine) := by
  refine ⟨?_, ?_, fun e => ofRow_error_kind ts hv, ?_, ?_⟩
  · constructor
    · rintro ⟨s, hs⟩
      obtain ⟨tree, htree, hl, -⟩ := (ofRow_eq_ok_iff ts hv s).1 hs
      exact ⟨⟨tree, htree⟩, hl⟩
    · rintro ⟨⟨tree, htree⟩, hl⟩
      exact ⟨tree.ast.whole, (ofRow_eq_ok_iff ts hv _).2 ⟨tree, htree, hl, rfl⟩⟩
  · intro s hs
    obtain ⟨tree, htree, hl, rfl⟩ := (ofRow_eq_ok_iff ts hv s).1 hs
    refine ⟨(ofTokens_eq_ok_iff ts _).2 ⟨tree, htree, ?_, rfl⟩, ?_⟩
    · exact StatementTree.isTarget_of_leads tree (htree ▸ hl)
    · intro other hother
      rw [ast_unique (htree.trans hother.symm)]
  · intro t u ht hu
    exact ast_unique (ht.trans hu.symm)
  · rintro tree rfl
    exact ⟨tree.front, tree.eol.token, rfl, tree.eol.kind_eq, tree.front_no_end⟩

instance (t : Token) : Decidable (∃ x : Float, t.value = some (.number x)) :=
  match t.value with
  | some (.number x) => isTrue ⟨x, rfl⟩
  | some (.text _) => isFalse nofun
  | none => isFalse nofun

instance (ts : List Token) : Decidable (Valued ts) :=
  inferInstanceAs (Decidable (∀ t ∈ ts, t.kind = .number → ∃ x : Float, t.value = some (.number x)))

/-- `IF -(A + 2) * 3 <= B THEN 100 ELSE 20` -/
def branchRow : List Token :=
  let plain (kind : Token.Kind) (lexeme : String) : Token := ⟨kind, lexeme, none, .start⟩
  let number (lexeme : String) (x : Float) : Token := ⟨.number, lexeme, some (.number x), .start⟩
  [plain (.keyword .IF) "IF", plain .minus "-", plain .leftParen "(", plain .identifier "A",
    plain .plus "+", number "2" 2, plain .rightParen ")", plain .times "*", number "3" 3,
    plain .lessEqual "<=", plain .identifier "B", plain (.keyword .THEN) "THEN", number "100" 100,
    plain (.keyword .ELSE) "ELSE", number "20" 20, plain .endOfLine ""]

theorem branchRow_derivable : Valued branchRow ∧
    (∃ tree : StatementTree, tree.tokens = branchRow) ∧ branchRow.IsChain Leads := by
  have hv : Valued branchRow := by decide +kernel
  have hs : (ofRow branchRow).toOption.isSome = true := by decide +kernel
  refine ⟨hv, (row_statement_iff_derivable branchRow hv).1.1 ?_⟩
  cases h : ofRow branchRow with
  | ok s => exact ⟨s, rfl⟩
  | error e => simp [h, Except.toOption] at hs

end NumberedBasic.Statement
