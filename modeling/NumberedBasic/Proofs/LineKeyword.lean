import NumberedBasic.Fault
import NumberedBasic.Proofs.Outcomes
import NumberedBasic.Proofs.Rows

set_option autoImplicit false

/-!
# The keyword of a line

The search for the end of a loop looks at the first word of a line only, while a run parses the
whole line. `headKeyword?_ofLine` says that both see the same keyword, though blanks that are no gaps
are skipped by the one and refused by the other.
-/
namespace NumberedBasic

def Token.Kind.keyword? : Token.Kind → Option Keyword
  | .keyword k => some k
  | _ => none

def Statement.keyword? {τ : Type} : Statement τ → Option Keyword
  | .assign _ _ true => some .LET
  | .assign _ _ false => none
  | .print _ => some .PRINT
  | .input _ => some .INPUT
  | .branch _ _ _ => some .IF
  | .goto _ => some .GOTO
  | .loop _ => some .WHILE
  | .endLoop => some .WEND
  | .stop => some .END
  | .remark _ => some .REM

theorem Statement.keyword?_eq_while_iff {τ : Type} {a : Statement τ} :
    a.keyword? = some .WHILE ↔ ∃ guard, a = .loop guard := by
  cases a with
  | assign name value explicit => cases explicit <;> simp [keyword?]
  | _ => simp [keyword?]

theorem Statement.keyword?_eq_wend_iff {τ : Type} {a : Statement τ} :
    a.keyword? = some .WEND ↔ a = .endLoop := by
  cases a with
  | assign name value explicit => cases explicit <;> simp [keyword?]
  | _ => simp [keyword?]

theorem Grammar.StatementTree.head_keyword (tree : StatementTree) : ∃ (t : Token) (rest : List Token),
    tree.tokens = t :: rest ∧ t.kind.keyword? = tree.ast.whole.keyword? := by
  cases tree with
  | letName head _ _ _ _ | printText head _ _ | printVariable head _ _ | input head _ _
  | ifThen head _ _ _ _ | ifThenElse head _ _ _ _ _ _ | goto head _ _ | loop head _ _
  | endLoop head _ | stop head _ | remark head _ =>
    exact ⟨head.token, _, rfl, by rw [head.kind_eq]; rfl⟩
  | assign name _ _ _ => exact ⟨name.token, _, rfl, by rw [name.kind_eq]; rfl⟩

theorem Statement.keyword?_ofTokens {ts : List Token} {s : Statement Int}
    (h : ofTokens ts = .ok s) : ∃ (t : Token) (rest : List Token),
    ts = t :: rest ∧ t.kind.keyword? = s.keyword? := by
  obtain ⟨tree, rfl, -, rfl⟩ := (ofTokens_eq_ok_iff ts s).1 h
  exact tree.head_keyword

namespace Token

theorem isBlank_of_isGap {c : Char} (h : isGap c = true) : Text.isBlank c = true := by
  simp only [isGap, Bool.or_eq_true, beq_iff_eq] at h
  rcases h with ((rfl | rfl) | rfl) | rfl <;> rfl

theorem isWordStart_range {c : Char} (h : isWordStart c = true) : 32 < c.toNat ∧ c.toNat < 128 := by
  delta isWordStart Char.isAlpha Char.isUpper Char.isLower at h
  simp only [Bool.or_eq_true, Bool.and_eq_true, decide_eq_true_eq, beq_iff_eq, ge_iff_le,
    UInt32.le_iff_toNat_le] at h
  rcases h with (⟨hlo, hhi⟩ | ⟨hlo, hhi⟩) | rfl
  · change 65 ≤ c.toNat at hlo
    change c.toNat ≤ 90 at hhi
    omega
  · change 97 ≤ c.toNat at hlo
    change c.toNat ≤ 122 at hhi
    omega
  · decide

theorem cutSymbol?_kind {c : Char} {rest : List Char} {cut : Cut}
    (h : cutSymbol? c rest = some cut) :
    (32 < c.toNat ∧ c.toNat < 128) ∧ cut.kind.keyword? = none := by
  simp only [cutSymbol?, Option.or_eq_some_iff] at h
  rcases h with h | ⟨-, h⟩
  · cases rest with
    | nil => simp [cutPair?] at h
    | cons d rest =>
      obtain ⟨kind, hk, rfl⟩ := Option.map_eq_some_iff.1 h
      simp only [pairKind?] at hk
      split at hk <;> cases hk <;> exact ⟨by decide, rfl⟩
  · obtain ⟨kind, hk, rfl⟩ := Option.map_eq_some_iff.1 h
    simp only [symbolKind?] at hk
    split at hk <;> cases hk <;> exact ⟨by decide, rfl⟩

theorem wordKind_keyword? (word : List Char) : (wordKind word).keyword? = Keyword.ofWord? word := by
  unfold wordKind
  split <;> simp_all [Kind.keyword?]

/-- A token that starts at `c` is a keyword if the word there is one; no blank starts a token. -/
theorem first?_keyword {c : Char} {rest : List Char} {cut : Cut} (h : first? c rest = some cut) :
    Text.isBlank c = false ∧ cut.kind.keyword? =
      if isWordStart c then Keyword.ofWord? ((c :: rest).takeWhile isWordChar) else none := by
  unfold first? at h
  by_cases hw : isWordStart c = true
  · simp only [hw, if_true, Option.some.injEq] at h ⊢
    subst h
    exact ⟨Text.isBlank_of_visible (isWordStart_range hw), wordKind_keyword? _⟩
  simp only [hw, if_false, Bool.false_eq_true] at h ⊢
  split at h
  · rename_i hd
    cases h
    exact ⟨Text.isBlank_of_isDigit hd, rfl⟩
  split at h
  · rename_i hq
    rw [beq_iff_eq.1 hq]
    simp only [cutString?] at h
    split at h <;> cases h
    exact ⟨by decide, rfl⟩
  · obtain ⟨hc, hk⟩ := cutSymbol?_kind h
    exact ⟨Text.isBlank_of_visible hc, hk⟩

theorem tokensFrom_ne_nil {p : Position} {cs : List Char} {ts : List Token}
    (h : tokensFrom p cs = .ok ts) : ts ≠ [] := by
  fun_induction tokensFrom p cs with
  | case1 | case4 | case5 =>
    cases h
    exact List.cons_ne_nil _ _
  | case2 p c cs hgap ih => exact ih h
  | case3 | case6 => cases h

theorem wordKeyword?_of_first? {c : Char} {rest : List Char} {cut : Cut}
    (h : first? c rest = some cut) : wordKeyword? (c :: rest) = cut.kind.keyword? := by
  obtain ⟨hb, hk⟩ := first?_keyword h
  rw [hk, wordKeyword?, Text.trimLeft, List.dropWhile_cons_of_neg (by simp [hb])]

theorem wordKeyword?_tokensFrom {p : Position} {cs : List Char} {t : Token} {rest : List Token}
    (h : tokensFrom p cs = .ok (t :: rest)) : wordKeyword? cs = t.kind.keyword? := by
  fun_induction tokensFrom p cs with
  | case1 p =>
    cases h
    rfl
  | case2 p c cs hgap ih =>
    rw [← ih h]
    simp [wordKeyword?, Text.trimLeft, isBlank_of_isGap hgap]
  | case3 => cases h
  | case4 p c cs hgap cut hcut after hrem remark =>
    cases h
    exact wordKeyword?_of_first? hcut
  | case5 p c cs hgap cut hcut after hrem ts hts ih =>
    cases h
    exact wordKeyword?_of_first? hcut
  | case6 => cases h

end Token

theorem Statement.ofLine_eq_ok_iff (text : String) (s : Statement Int) :
    ofLine text = .ok s ↔ ∃ ts, Token.scan text = .ok ts ∧ ofTokens ts = .ok s := by
  unfold ofLine
  cases Token.scan text with
  | error e => simp
  | ok ts => cases h : ofTokens ts <;> simp [h]

theorem Statement.headKeyword?_ofLine {text : String} {s : Statement Int}
    (h : ofLine text = .ok s) : Token.headKeyword? text = s.keyword? := by
  obtain ⟨ts, hts, hs⟩ := (ofLine_eq_ok_iff text s).1 h
  obtain ⟨t, rest, rfl, hk⟩ := keyword?_ofTokens hs
  rw [← hk]
  exact Token.wordKeyword?_tokensFrom hts

/-- The first word of a line that has tokens is a keyword just if its first token is, and then the
same one. If the line is a statement, the word tells heads and ends of loops from all others. -/
theorem head_keyword_agrees_with_parsing (s : String) :
    (∀ ts, Token.scan s = .ok ts → ∃ t rest, ts = t :: rest ∧
      Token.headKeyword? s = t.kind.keyword?) ∧
    ∀ a, Statement.ofLine s = .ok a →
      (Token.headKeyword? s = some .WHILE ↔ ∃ guard, a = .loop guard) ∧
      (Token.headKeyword? s = some .WEND ↔ a = .endLoop) := by
  refine ⟨fun ts hts => ?_, fun a ha => ?_⟩
  · obtain ⟨t, rest, rfl⟩ := List.exists_cons_of_ne_nil (Token.tokensFrom_ne_nil hts)
    exact ⟨t, rest, rfl, Token.wordKeyword?_tokensFrom hts⟩
  · rw [Statement.headKeyword?_ofLine ha]
    exact ⟨Statement.keyword?_eq_while_iff, Statement.keyword?_eq_wend_iff⟩

theorem indented_head_keyword : (∃ t rest guard, Token.scan " \t\r\nwHiLe-A<=1" = .ok (t :: rest) ∧
      Statement.ofLine " \t\r\nwHiLe-A<=1" = .ok (.loop guard) ∧ t.kind.keyword? = some .WHILE) ∧
    ∃ t rest, Token.scan "while_=1" = .ok (t :: rest) ∧ t.kind = .identifier ∧
      Token.headKeyword? "while_=1" = none := by
  have hhead : (Statement.ofLine " \t\r\nwHiLe-A<=1").toOption =
      some (.loop ⟨.lessEqual, .negate (.variable "A"), .number 1⟩) := by decide +kernel
  have hname : ((Token.scan "while_=1").toOption.bind (·.head?)).map (·.kind) = some .identifier := by
    decide +kernel
  obtain ⟨hfirst, hloop⟩ := head_keyword_agrees_with_parsing " \t\r\nwHiLe-A<=1"
  have hhead := eq_ok_of_toOption hhead
  have hkeyword := (hloop _ hhead).1.2 ⟨_, rfl⟩
  obtain ⟨us, hus, -⟩ := (Statement.ofLine_eq_ok_iff _ _).1 hhead
  obtain ⟨t, rest, rfl, ht⟩ := hfirst us hus
  obtain ⟨first, hscan, hkind⟩ := Option.map_eq_some_iff.1 hname
  obtain ⟨ts, hts, hfirst'⟩ := Option.bind_eq_some_iff.1 hscan
  have hts := eq_ok_of_toOption hts
  obtain ⟨u, more, rfl, hu⟩ := (head_keyword_agrees_with_parsing "while_=1").1 ts hts
  cases hfirst'
  have hnone : Token.headKeyword? "while_=1" = none := by
    rw [hu, hkind]
    rfl
  exact ⟨⟨t, rest, _, hus, hhead, ht.symm.trans hkeyword⟩, first, more, hts, hkind, hnone⟩

end NumberedBasic
