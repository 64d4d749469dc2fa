import NumberedBasic.Proofs.Effects
import NumberedBasic.Proofs.Escapes
import NumberedBasic.Proofs.WholeNumbers

set_option autoImplicit false

/-!
# Where jumps land

Line numbers are integers of any size, but the number after a jump word is read as a double. So a
jump lands on the line that it names exactly if the number of the line is one that a double can be;
any other number is rounded first, and the jump goes to the line of the rounded number, if there is
one.
-/
namespace NumberedBasic
open Grammar Statement Double

namespace Token

theorem tokensFrom_valued (p : Position) (cs : List Char) : ∀ ts, tokensFrom p cs = .ok ts →
    ∀ t ∈ ts, t.kind = .number → t.value = some (.number (numeralValue t.lexeme.toList)) := by
  refine tokensFrom_forall (fun q hkind => ?_) (fun {c rest cut} hcut q hkind => ?_)
    (fun hrem hkind => ?_) p cs
  · cases hkind
  · have hnumber : cut.kind = .number := hkind
    simp only [ofCut, hnumber, valueOf, String.toList_ofList]
  · cases hrem.symm.trans hkind

theorem integer?_numeralValue (n : Nat) :
    integer? (numeralValue (Text.numeral n).toList) =
      if rounded n < overflowBound then some (rounded n : Int) else none := by
  have hdigits : (Text.numeral n).toList = Text.digits n := by simp [Text.numeral]
  have hpoint : (Text.digits n).dropWhile (· != '.') = [] := by
    refine List.dropWhile_eq_nil_iff.2 fun c hc => bne_iff_ne.2 ?_
    rintro rfl
    cases Text.isDigit_of_mem_digits hc
  rw [numeralValue, hdigits, hpoint, Text.ofDigits_digits]
  exact integer?_whole n

end Token

/-- The numeral that a jump takes over a store, and those that it does not take. -/
inductive Grammar.StatementTree.Takes (store : Store) : StatementTree → Token → List Token → Prop where
  | goto (head : KeywordLeaf .GOTO) (target : Leaf [.number]) (eol : EndLeaf) :
      Takes store (.goto head target eol) target.token []
  | only (head : KeywordLeaf .IF) {condition : ConditionTree} (word : KeywordLeaf .THEN)
      (target : Leaf [.number]) (eol : EndLeaf) (h : condition.ast.eval store = .ok true) :
      Takes store (.ifThen head condition word target eol) target.token []
  | first (head : KeywordLeaf .IF) {condition : ConditionTree} (word : KeywordLeaf .THEN)
      (target : Leaf [.number]) (other : KeywordLeaf .ELSE) (otherwise : Leaf [.number])
      (eol : EndLeaf) (h : condition.ast.eval store = .ok true) :
      Takes store (.ifThenElse head condition word target other otherwise eol) target.token
        [otherwise.token]
  | second (head : KeywordLeaf .IF) {condition : ConditionTree} (word : KeywordLeaf .THEN)
      (target : Leaf [.number]) (other : KeywordLeaf .ELSE) (otherwise : Leaf [.number])
      (eol : EndLeaf) (h : condition.ast.eval store = .ok false) :
      Takes store (.ifThenElse head condition word target other otherwise eol) otherwise.token
        [target.token]

namespace Grammar.StatementTree.Takes

variable {store : Store} {tree : StatementTree} {taken : Token} {others : List Token}

theorem mem_tokens (h : tree.Takes store taken others) :
    taken ∈ tree.tokens ∧ taken.kind = .number := by
  cases h with
  | goto head target eol => exact ⟨by simp [tokens, front], target.kind_eq⟩
  | only head word target eol _ => exact ⟨by simp [tokens, front], target.kind_eq⟩
  | first head word target other otherwise eol _ => exact ⟨by simp [tokens, front], target.kind_eq⟩
  | second head word target other otherwise eol _ =>
    exact ⟨by simp [tokens, front], otherwise.kind_eq⟩

theorem isTarget_iff (h : tree.Takes store taken others) :
    (∀ x ∈ tree.ast.targets, IsTarget x) ↔
      IsTarget (amount taken) ∧ ∀ other ∈ others, IsTarget (amount other) := by
  cases h with
  | goto | only => simp [ast, targets]
  | first => simp [ast, targets]
  | second => simp [ast, targets, and_comm]

theorem performs {image : Image} {line : Int} {c d : Workspace}
    {r : Except Fault (Move × Option Event)} (h : tree.Takes c.store taken others)
    (hp : image.Performs line c tree.ast.whole d r) {n : Int} (hn : integer? (amount taken) = some n) :
    (∃ event, r = .ok (.goTo n, some event) ∧ event.isLong = false) ∨
      n ∉ image.order.numbers ∧ ∃ fault, r = .error fault := by
  have htarget : (integer? (amount taken)).getD 0 = n := by rw [hn, Option.getD_some]
  have hshort : Text.isLong n = false := htarget ▸ isLong_integer? (amount taken)
  cases h with
  | goto head target eol =>
    simp only [ast, whole, htarget] at hp
    cases hp with
    | goto _ => exact .inl ⟨_, rfl, hshort⟩
    | gotoFails hout => exact .inr ⟨hout, _, rfl⟩
  | only head word target eol htrue =>
    simp only [ast, whole, htarget] at hp
    exact .inl ⟨_, hp.branch_eq htrue, rfl⟩
  | first head word target other otherwise eol htrue =>
    simp only [ast, whole, htarget] at hp
    exact .inl ⟨_, hp.branch_eq htrue, rfl⟩
  | second head word target other otherwise eol hfalse =>
    simp only [ast, whole, Option.map_some, htarget] at hp
    exact .inl ⟨_, hp.branch_eq hfalse, rfl⟩

end Grammar.StatementTree.Takes

structure Jumping (p : Program) (o : Options) (replies : List (Option String)) (s : RunState)
    (line : Int) (tree : StatementTree) (taken : Token) (others : List Token) (t : Nat) : Prop where
  executing : Executing p o replies s line
  derived : ∃ text, p.text? line = some text ∧ Token.scan text = .ok tree.tokens
  takes : tree.Takes s.workspace.store taken others
  numeral : taken.lexeme = Text.numeral t

namespace Jumping

variable {p : Program} {o : Options} {replies : List (Option String)} {s u : RunState} {line : Int}
  {tree : StatementTree} {taken : Token} {others : List Token} {t : Nat}

theorem integer?_amount (h : Jumping p o replies s line tree taken others t) :
    integer? (amount taken) = if rounded t < overflowBound then some (rounded t : Int) else none := by
  obtain ⟨text, -, hscan⟩ := h.derived
  obtain ⟨hmem, hkind⟩ := h.takes.mem_tokens
  have hvalue := Token.tokensFrom_valued _ _ _ hscan taken hmem hkind
  rw [h.numeral] at hvalue
  rw [amount, hvalue]
  exact Token.integer?_numeralValue t

theorem isTarget_taken_iff (h : Jumping p o replies s line tree taken others t) :
    IsTarget (amount taken) ↔ rounded t < overflowBound ∧ 1 ≤ rounded t := by
  unfold IsTarget
  rw [h.integer?_amount]
  split <;> simp_all

theorem statementAt_eq_ok_iff (h : Jumping p o replies s line tree taken others t)
    {statement : Statement Int} : (Image.ofProgram p).statementAt line = .ok statement ↔
      (rounded t < overflowBound ∧ 1 ≤ rounded t ∧ ∀ other ∈ others, IsTarget (amount other)) ∧
        statement = tree.ast.whole := by
  obtain ⟨text, htext, hscan⟩ := h.derived
  have hat : (Image.ofProgram p).statementAt line = ofLine text := by
    simp only [Image.statementAt, Image.ofProgram, htext]
  rw [hat, ofLine_eq_ok_iff, ← and_assoc, ← h.isTarget_taken_iff, ← h.takes.isTarget_iff]
  constructor
  · rintro ⟨ts, hts, hs⟩
    cases hscan.symm.trans hts
    obtain ⟨other, hother, htargets, rfl⟩ := (ofTokens_eq_ok_iff _ _).1 hs
    rw [ast_unique hother] at htargets ⊢
    exact ⟨htargets, rfl⟩
  · rintro ⟨htargets, rfl⟩
    exact ⟨tree.tokens, hscan, (ofTokens_eq_ok_iff _ _).2 ⟨tree, rfl, htargets, rfl⟩⟩

theorem cursor_eq (h : Jumping p o replies s line tree taken others t)
    (hu : step (.ofProgram p) o s = .running u) :
    (rounded t < overflowBound ∧ 1 ≤ rounded t ∧ ∀ other ∈ others, IsTarget (amount other)) ∧
      u.cursor = if (rounded t : Int) ∈ p.numbers then some (rounded t : Int) else none := by
  obtain ⟨statement, move, event?, hs, hperforms, hnext⟩ := h.executing.performs hu
  obtain ⟨hbounds, rfl⟩ := h.statementAt_eq_ok_iff.1 hs
  have hamount := h.integer?_amount
  rw [if_pos hbounds.1] at hamount
  refine ⟨hbounds, ?_⟩
  rcases h.takes.performs (c := s.workspace.bare) hperforms hamount with
    ⟨event, hmove, -⟩ | ⟨-, fault, hfault⟩
  · cases hmove
    rw [hnext]
    simp [Image.next?]
  · cases hfault

theorem goes_on (h : Jumping p o replies s line tree taken others t)
    (hbounds : rounded t < overflowBound ∧ 1 ≤ rounded t ∧
      ∀ other ∈ others, IsTarget (amount other))
    (hline : (rounded t : Int) ∈ p.numbers) : ∃ u, step (.ofProgram p) o s = .running u := by
  have hs := h.statementAt_eq_ok_iff.2 ⟨hbounds, rfl⟩
  have hamount := h.integer?_amount
  rw [if_pos hbounds.1] at hamount
  rcases hp : (Image.ofProgram p).performLine o.level line s.workspace with ⟨c, r⟩
  have hread := Image.readAt_eq_ok_iff.2 ⟨hs, h.executing.short⟩
  obtain ⟨result, hperforms, rfl⟩ :=
    Image.performLine_performs h.executing.reachable.cached hp hread
  rcases h.takes.performs (c := s.workspace.bare) hperforms hamount with
    ⟨event, rfl, hevent⟩ | ⟨hmissing, -⟩
  · rw [Image.toldMove_of_short o.level hevent] at hp
    exact ⟨_, h.executing.step_eq hp⟩
  · rw [Image.ofProgram_numbers] at hmissing
    exact absurd hline hmissing

end Jumping

/-- A jump lands on the line that it names exactly if a double can be the number of the line. Any
other number is rounded to a nearest one that is, and the jump goes there. -/
theorem jump_lands_iff_representable (p : Program) (o : Options) (replies : List (Option String))
    (s : RunState) (line : Int) (tree : StatementTree) (taken : Token) (others : List Token) (t : Nat)
    (h : Jumping p o replies s line tree taken others t) (hline : (t : Int) ∈ p.numbers) :
    ((∃ u, step (.ofProgram p) o s = .running u ∧ u.cursor = some (t : Int)) ↔
      1 ≤ t ∧ Representable t ∧ ∀ other ∈ others, IsTarget (amount other)) ∧
    ∀ u, step (.ofProgram p) o s = .running u →
      NearestWhole t (rounded t) ∧
        u.cursor = if (rounded t : Int) ∈ p.numbers then some (rounded t : Int) else none := by
  refine ⟨⟨?_, ?_⟩, ?_⟩
  · rintro ⟨u, hu, hcursor⟩
    obtain ⟨⟨hbound, hpos, hothers⟩, hlands⟩ := h.cursor_eq hu
    have hround : rounded t = t := by
      rw [hcursor] at hlands
      split at hlands
      · exact Int.ofNat.inj (Option.some.inj hlands).symm
      · cases hlands
    rw [hround] at hbound hpos
    exact ⟨hpos, representable_iff.2 ⟨hround, hbound⟩, hothers⟩
  · rintro ⟨hpos, hrepresentable, hothers⟩
    obtain ⟨hround, hbound⟩ := representable_iff.1 hrepresentable
    rw [← hround] at hpos hbound hline
    obtain ⟨u, hu⟩ := h.goes_on ⟨hbound, hpos, hothers⟩ hline
    refine ⟨u, hu, ?_⟩
    rw [(h.cursor_eq hu).2, if_pos hline, hround]
  · intro u hu
    obtain ⟨⟨hbound, -, -⟩, hlands⟩ := h.cursor_eq hu
    exact ⟨nearestWhole_rounded hbound, hlands⟩

def leafAt (kind : Token.Kind) (lexeme : String) (column : Int) : Leaf [kind] :=
  ⟨⟨kind, lexeme, none, ⟨1, column⟩⟩, List.mem_singleton.2 rfl⟩

def numeralAt (lexeme : String) (column : Int) : Leaf [.number] :=
  ⟨⟨.number, lexeme, some (.number (Token.numeralValue lexeme.toList)), ⟨1, column⟩⟩,
    List.mem_singleton.2 rfl⟩

theorem executing_start {p : Program} {line : Int} (h : p.numbers.head? = some line)
    (hshort : Text.isLong line = false) :
    Executing p {} [] (startState (.ofProgram p) {} []) line where
  reachable := ⟨0, .refl _⟩
  cursor := by
    rw [← Image.ofProgram_numbers] at h
    exact h
  uncancelled := rfl
  allowed := rfl
  short := hshort

def reaching : Program := .ofLines
  [(10, "IF 1 = 2 THEN 20 ELSE 9007199254740994"), (9007199254740994, "END")]

def reachingTree : StatementTree :=
  .ifThenElse (leafAt _ "IF" 1)
    ⟨.expr (.number (numeralAt "1" 4)) .none, ⟨(leafAt .equals "=" 6).token, List.mem_cons_self⟩,
      .expr (.number (numeralAt "2" 8)) .none⟩
    (leafAt _ "THEN" 10) (numeralAt "20" 15) (leafAt _ "ELSE" 18) (numeralAt "9007199254740994" 23)
    (leafAt _ "" 39)

theorem reaching_lands : ∃ s u taken others,
    Jumping reaching {} [] s 10 reachingTree taken others 9007199254740994 ∧
      step (.ofProgram reaching) {} s = .running u ∧ u.cursor = some 9007199254740994 := by
  have hjump : Jumping reaching {} [] (startState (.ofProgram reaching) {} []) 10 reachingTree
      (numeralAt "9007199254740994" 23).token [(numeralAt "20" 15).token] 9007199254740994 :=
    { executing := executing_start (by decide +kernel) rfl
      derived := ⟨"IF 1 = 2 THEN 20 ELSE 9007199254740994", by decide +kernel,
        eq_ok_of_toOption (by decide +kernel)⟩
      takes := .second _ _ _ _ _ _ (eq_ok_of_toOption (by decide +kernel))
      numeral := by decide +kernel }
  have hlands := (jump_lands_iff_representable reaching {} [] _ 10 reachingTree _ _ 9007199254740994
    hjump (by decide +kernel)).1
  have hrepresentable : Representable 9007199254740994 :=
    ⟨by decide +kernel, 4503599627370497, 1, by decide, by decide⟩
  have hother : IsTarget (amount (numeralAt "20" 15).token) := ⟨20, by decide +kernel, by decide⟩
  obtain ⟨u, hu, hcursor⟩ := hlands.2 ⟨by decide, hrepresentable, by simpa using hother⟩
  exact ⟨_, u, _, _, hjump, hu, hcursor⟩

/-- Jumps to a line that no double can number, with a line right before it. -/
def overshot : Program := .ofLines
  [(10, "GOTO 9007199254740993"), (9007199254740992, "PRINT \"WRONG\""),
    (9007199254740993, "PRINT \"RIGHT\"")]

def overshotTree : StatementTree :=
  .goto (leafAt _ "GOTO" 1) (numeralAt "9007199254740993" 6) (leafAt _ "" 22)

theorem overshot_lands_before : ∃ s u taken others,
    Jumping overshot {} [] s 10 overshotTree taken others 9007199254740993 ∧
      9007199254740993 ∈ overshot.numbers ∧
      step (.ofProgram overshot) {} s = .running u ∧ u.cursor = some 9007199254740992 := by
  have hjump : Jumping overshot {} [] (startState (.ofProgram overshot) {} []) 10 overshotTree
      (numeralAt "9007199254740993" 6).token [] 9007199254740993 :=
    { executing := executing_start (by decide +kernel) rfl
      derived := ⟨"GOTO 9007199254740993", by decide +kernel, eq_ok_of_toOption (by decide +kernel)⟩
      takes := .goto _ _ _
      numeral := by decide +kernel }
  have hstate : ((stateAfter (.ofProgram overshot) {} 1
      (startState (.ofProgram overshot) {} [])).map fun u => u.cursor) =
      some (some 9007199254740992) := by decide +kernel
  obtain ⟨u, hu, hcursor⟩ := Option.map_eq_some_iff.1 hstate
  obtain _ | ⟨hstep, tail⟩ := runs_of_stateAfter hu
  cases tail
  exact ⟨_, u, _, _, hjump, by decide +kernel, hstep, hcursor⟩

end NumberedBasic
