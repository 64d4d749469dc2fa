import Mathlib.Data.List.TakeWhile
import NumberedBasic.Proofs.LineKeyword

set_option autoImplicit false

/-!
# Lexemes

What a lexeme is depends on its own characters and on what follows it: a lexeme is as long as it can
be. Cutting a token from the left finds the one lexeme that stands there, with the value of its kind
(`lexeme_of_first?`, `Lexeme.first?`), so the tokens of a text can be read off its lexemes without
looking at the cutting again (`Lexeme.readsAs`). A text that starts with no part of a longer lexeme
can be put behind another one, and each keeps its own tokens (`readsAs_append`).
-/
namespace NumberedBasic

namespace Keyword

theorem ofWord?_eq_some_iff {word : List Char} {k : Keyword} :
    ofWord? word = some k ↔ word.map Char.toUpper = k.spelling.toList := by
  unfold ofWord?
  constructor
  · intro h
    have hfound := List.find?_some h
    exact (beq_iff_eq.1 hfound).symm
  · intro h
    rw [h]
    cases k <;> decide

theorem ofWord?_eq_none_iff {word : List Char} :
    ofWord? word = none ↔ ∀ k : Keyword, word.map Char.toUpper ≠ k.spelling.toList := by
  simp only [ne_eq, ← ofWord?_eq_some_iff, Option.eq_none_iff_forall_ne_some]

end Keyword

namespace Token

def IsLetter (c : Char) : Prop := ('A' ≤ c ∧ c ≤ 'Z') ∨ ('a' ≤ c ∧ c ≤ 'z') ∨ c = '_'

def IsDigit (c : Char) : Prop := '0' ≤ c ∧ c ≤ '9'

def IsGap (c : Char) : Prop := c = ' ' ∨ c = '\t' ∨ c = '\r' ∨ c = '\n'

def Stops (P : Char → Prop) (rest : List Char) : Prop := ∀ c ∈ rest.head?, ¬ P c

structure IsWord (word rest : List Char) : Prop where
  head : ∃ c more, word = c :: more ∧ IsLetter c
  chars : ∀ c ∈ word, IsLetter c ∨ IsDigit c
  stops : Stops (fun c => IsLetter c ∨ IsDigit c) rest

structure IsDigits (digits : List Char) : Prop where
  ne : digits ≠ []
  chars : ∀ c ∈ digits, IsDigit c

def decimal (digits part : List Char) : Float :=
  Double.ofMagnitude false (Double.nearest
    (Nat.ofDigitChars 10 (digits ++ part) 0 * Double.unitsPerOne) (Nat.pow 10 part.length))

def operators : List (List Char × Kind) := [
  (['<', '='], .lessEqual), (['<', '>'], .notEqual), (['>', '='], .greaterEqual),
  (['('], .leftParen), ([')'], .rightParen), (['+'], .plus), (['-'], .minus), (['*'], .times),
  (['/'], .divide), (['%'], .modulo), (['='], .equals), (['<'], .less), (['>'], .greater)]

/-- `Lexeme text rest kind value`: before `rest`, the text is one lexeme, as long as it can be. -/
inductive Lexeme : List Char → List Char → Kind → Option Value → Prop where
  | keyword {word rest : List Char} {k : Keyword} (hword : IsWord word rest)
      (hk : word.map Char.toUpper = k.spelling.toList) : Lexeme word rest (.keyword k) none
  | name {word rest : List Char} (hword : IsWord word rest)
      (hk : ∀ k : Keyword, word.map Char.toUpper ≠ k.spelling.toList) :
      Lexeme word rest .identifier (some (.text (String.ofList word)))
  | number {digits rest : List Char} (hdigits : IsDigits digits) (hstop : Stops IsDigit rest)
      (hpoint : ∀ d more, rest = '.' :: d :: more → ¬ IsDigit d) :
      Lexeme digits rest .number (some (.number (decimal digits [])))
  | fraction {digits part rest : List Char} (hdigits : IsDigits digits) (hpart : IsDigits part)
      (hstop : Stops IsDigit rest) :
      Lexeme (digits ++ '.' :: part) rest .number (some (.number (decimal digits part)))
  | string {body : List Char} (rest : List Char) (hbody : '"' ∉ body) :
      Lexeme ('"' :: body ++ ['"']) rest .string (some (.text (String.ofList body)))
  | operator {op rest : List Char} {kind : Kind} (hop : (op, kind) ∈ operators)
      (hlongest : ∀ other ∈ operators, other.1 <+: op ++ rest → other.1.length ≤ op.length) :
      Lexeme op rest kind none

theorem isWordStart_iff (c : Char) : isWordStart c = true ↔ IsLetter c := by
  delta isWordStart Char.isAlpha Char.isUpper Char.isLower
  simp only [Bool.or_eq_true, Bool.and_eq_true, decide_eq_true_eq, beq_iff_eq, ge_iff_le, or_assoc]
  exact Iff.rfl

theorem isDigit_iff (c : Char) : c.isDigit = true ↔ IsDigit c := Char.isDigit_iff_toNat

theorem isWordChar_iff (c : Char) : isWordChar c = true ↔ IsLetter c ∨ IsDigit c := by
  rw [isWordChar, Bool.or_eq_true, isWordStart_iff, isDigit_iff]

theorem isGap_iff (c : Char) : isGap c = true ↔ IsGap c := by
  simp only [isGap, IsGap, Bool.or_eq_true, beq_iff_eq, or_assoc]

theorem not_quote_iff (c : Char) : (c != '"') = true ↔ c ≠ '"' := bne_iff_ne

section Spans

variable {p : Char → Bool} {P : Char → Prop} {xs rest : List Char}

theorem span_stops (hp : ∀ c, p c = true ↔ P c) (cs : List Char) :
    (∀ c ∈ cs.takeWhile p, P c) ∧ Stops P (cs.dropWhile p) := by
  refine ⟨fun c hc => (hp c).1 (List.mem_takeWhile_imp hc), fun c hc => ?_⟩
  have hhead := List.head?_dropWhile_not p cs
  rw [Option.mem_def.1 hc] at hhead
  rw [← hp, hhead]
  exact Bool.false_ne_true

theorem span_append (hp : ∀ c, p c = true ↔ P c) (hxs : ∀ c ∈ xs, P c) (hrest : Stops P rest) :
    (xs ++ rest).takeWhile p = xs ∧ (xs ++ rest).dropWhile p = rest := by
  have hall : ∀ c ∈ xs, p c = true := fun c hc => (hp c).2 (hxs c hc)
  rw [List.takeWhile_append_of_pos hall, List.dropWhile_append_of_pos hall]
  cases rest with
  | nil => simp
  | cons d rest =>
    have hd : ¬ p d = true := mt (hp d).1 (hrest d rfl)
    simp [hd]

end Spans

section Numerals

variable {digits part rest cs : List Char}

theorem IsDigits.span (h : IsDigits digits) (hstop : Stops IsDigit rest) :
    (digits ++ rest).takeWhile Char.isDigit = digits ∧
      (digits ++ rest).dropWhile Char.isDigit = rest :=
  span_append isDigit_iff h.chars hstop

theorem IsDigits.head (h : IsDigits digits) : ∃ c more, digits = c :: more ∧ c.isDigit = true := by
  obtain ⟨c, more, rfl⟩ := List.exists_cons_of_ne_nil h.ne
  exact ⟨c, more, rfl, (isDigit_iff _).2 (h.chars c (.head _))⟩

theorem fraction_none (h : ∀ d more, cs = '.' :: d :: more → ¬ IsDigit d) :
    fraction cs = ([], cs) := by
  unfold fraction
  split
  · rename_i d more
    exact if_neg (mt (isDigit_iff _).1 (h d more rfl))
  · rfl

theorem fraction_some (h : IsDigits part) (hstop : Stops IsDigit rest) :
    fraction ('.' :: part ++ rest) = ('.' :: part, rest) := by
  obtain ⟨d, more, rfl, hd⟩ := h.head
  have hmore : ∀ c ∈ more, IsDigit c := fun c hc => h.chars c (.tail _ hc)
  obtain ⟨htake, hdrop⟩ := span_append isDigit_iff hmore hstop
  simp only [List.cons_append, fraction, hd, if_true, htake, hdrop]

theorem fraction_cases (cs : List Char) :
    (∀ d more, cs = '.' :: d :: more → ¬ IsDigit d) ∨
      ∃ part rest, cs = '.' :: part ++ rest ∧ IsDigits part ∧ Stops IsDigit rest := by
  by_cases h : ∃ d more, cs = '.' :: d :: more ∧ IsDigit d
  · obtain ⟨d, more, rfl, hd⟩ := h
    obtain ⟨hchars, hstop⟩ := span_stops isDigit_iff (d :: more)
    have happ := List.takeWhile_append_dropWhile (p := Char.isDigit) (l := d :: more)
    refine .inr ⟨_, _, congrArg ('.' :: ·) happ.symm, ⟨?_, hchars⟩, hstop⟩
    rw [List.takeWhile_cons_of_pos ((isDigit_iff _).2 hd)]
    exact List.cons_ne_nil _ _
  · exact .inl fun d more hcs hd => h ⟨d, more, hcs, hd⟩

theorem ofDigits_append_point (digits part : List Char) :
    Text.ofDigits (digits ++ '.' :: part) = Text.ofDigits (digits ++ part) := by
  have hpoint : Text.digitValue? '.' = none := by decide
  simp [Text.ofDigits, hpoint]

theorem decimal_eq (hdigits : ∀ c ∈ digits ++ part, IsDigit c) :
    Double.Decimal.toDouble false ⟨Text.ofDigits (digits ++ part), -part.length⟩ =
      decimal digits part := by
  rw [Double.Decimal.toDouble, Double.Decimal.magnitude_eq_nearest,
    Text.ofDigits_eq fun c hc => (isDigit_iff _).2 (hdigits c hc), decimal]

theorem ne_point_of_digits (h : ∀ c ∈ digits, IsDigit c) : ∀ c ∈ digits, (c != '.') = true := by
  intro c hc
  rw [bne_iff_ne]
  rintro rfl
  have hpoint : ¬ '.'.isDigit = true := by decide
  exact hpoint ((isDigit_iff _).2 (h '.' hc))

theorem numeralValue_digits (h : IsDigits digits) : numeralValue digits = decimal digits [] := by
  have hdrop : digits.dropWhile (· != '.') = [] :=
    List.dropWhile_eq_nil_iff.2 (ne_point_of_digits h.chars)
  rw [numeralValue, hdrop, ← decimal_eq (by simpa using h.chars), List.append_nil]
  rfl

theorem numeralValue_fraction (h : IsDigits digits) (hpart : IsDigits part) :
    numeralValue (digits ++ '.' :: part) = decimal digits part := by
  have hdrop : (digits ++ '.' :: part).dropWhile (· != '.') = '.' :: part := by
    rw [List.dropWhile_append_of_pos (ne_point_of_digits h.chars)]
    rfl
  have hchars : ∀ c ∈ digits ++ part, IsDigit c := by
    intro c hc
    exact (List.mem_append.1 hc).elim (h.chars c) (hpart.chars c)
  rw [numeralValue, hdrop, ofDigits_append_point, ← decimal_eq hchars]
  rfl

end Numerals

section Operators

variable {c d : Char} {rest op : List Char} {kind : Kind} {cut : Cut}

theorem pairKind?_eq_some_iff : pairKind? c d = some kind ↔ ([c, d], kind) ∈ operators := by
  constructor
  · intro h
    unfold pairKind? at h
    split at h <;> cases h <;> decide
  · intro h
    simp only [operators, List.mem_cons, Prod.mk.injEq, List.cons.injEq, and_true,
      List.cons_ne_self, and_false, false_and, List.not_mem_nil, or_self, or_false] at h
    rcases h with ⟨⟨rfl, rfl⟩, rfl⟩ | ⟨⟨rfl, rfl⟩, rfl⟩ | ⟨⟨rfl, rfl⟩, rfl⟩ <;> rfl

theorem symbolKind?_eq_some_iff : symbolKind? c = some kind ↔ ([c], kind) ∈ operators := by
  constructor
  · intro h
    unfold symbolKind? at h
    split at h <;> cases h <;> decide
  · intro h
    simp only [operators, List.mem_cons, Prod.mk.injEq, List.cons.injEq, List.ne_cons_self,
      and_false, false_and, and_true, List.not_mem_nil, or_false, false_or] at h
    rcases h with ⟨rfl, rfl⟩ | ⟨rfl, rfl⟩ | ⟨rfl, rfl⟩ | ⟨rfl, rfl⟩ | ⟨rfl, rfl⟩ | ⟨rfl, rfl⟩ |
      ⟨rfl, rfl⟩ | ⟨rfl, rfl⟩ | ⟨rfl, rfl⟩ | ⟨rfl, rfl⟩ <;> rfl

theorem operators_plain : ∀ o ∈ operators, (o.1.length = 1 ∨ o.1.length = 2) ∧
    (∀ c ∈ o.1.head?, isWordStart c = false ∧ c.isDigit = false ∧ c ≠ '"') ∧
    o.2 ∉ [.identifier, .string, .number, .endOfLine] := by
  intro o ho
  simp only [operators, List.mem_cons, List.not_mem_nil, or_false] at ho
  rcases ho with rfl | rfl | rfl | rfl | rfl | rfl | rfl | rfl | rfl | rfl | rfl | rfl | rfl <;>
    exact ⟨by decide, by rintro c ⟨⟩; decide, by decide⟩

theorem valueOf_operator (h : (op, kind) ∈ operators) : valueOf kind op = none := by
  have hkind := (operators_plain _ h).2.2
  unfold valueOf
  split <;> simp_all

theorem pair_of_mem_operators (h : ([c, d], kind) ∈ operators) :
    c ∈ ['<', '>'] ∧ d ∈ ['=', '>'] := by
  have hk := pairKind?_eq_some_iff.2 h
  unfold pairKind? at hk
  split at hk <;> cases hk <;> simp

/-- A symbol of one character is as long as it can be, if it begins no pair with the next one. -/
theorem single_longest (h : ∀ b ∈ rest.head?, c ∉ ['<', '>'] ∨ b ∉ ['=', '>']) :
    ∀ other ∈ operators, other.1 <+: c :: rest → other.1.length ≤ 1 := by
  rintro ⟨text, kind⟩ hother hstart
  rcases (operators_plain _ hother).1 with hone | htwo
  · exact hone.le
  · obtain ⟨a, b, rfl⟩ := List.length_eq_two.1 htwo
    obtain ⟨hfirst, hsecond⟩ := pair_of_mem_operators hother
    obtain ⟨more, hmore⟩ := hstart
    obtain ⟨rfl, rfl⟩ : a = c ∧ b :: more = rest := by simpa using hmore
    exact (h b rfl).elim (absurd hfirst) (absurd hsecond)

theorem lexeme_of_cutSymbol? (h : cutSymbol? c rest = some cut) :
    Lexeme cut.lexeme cut.rest cut.kind (valueOf cut.kind cut.lexeme) := by
  simp only [cutSymbol?, Option.or_eq_some_iff] at h
  rcases h with h | ⟨hpair, h⟩
  · cases rest with
    | nil => simp [cutPair?] at h
    | cons d rest =>
      obtain ⟨kind, hk, rfl⟩ := Option.map_eq_some_iff.1 h
      have hop := pairKind?_eq_some_iff.1 hk
      rw [valueOf_operator hop]
      refine .operator hop fun other hother _ => ?_
      have hlength := (operators_plain other hother).1
      simp only [List.length_cons, List.length_nil]
      omega
  · obtain ⟨kind, hk, rfl⟩ := Option.map_eq_some_iff.1 h
    have hop := symbolKind?_eq_some_iff.1 hk
    rw [valueOf_operator hop]
    refine .operator hop fun other hother hstart => ?_
    rcases (operators_plain other hother).1 with hone | htwo
    · exact hone.le
    · -- an operator of two characters would have been cut
      obtain ⟨text, pairKind⟩ := other
      obtain ⟨a, b, rfl⟩ := List.length_eq_two.1 htwo
      obtain ⟨more, hmore⟩ := hstart
      obtain ⟨rfl, rfl⟩ : a = c ∧ b :: more = rest := by simpa using hmore
      rw [cutPair?, pairKind?_eq_some_iff.2 hother] at hpair
      cases hpair

theorem cutSymbol?_of_lexeme {more : List Char} (hop : (c :: more, kind) ∈ operators)
    (hlongest : ∀ other ∈ operators, other.1 <+: c :: more ++ rest →
      other.1.length ≤ (c :: more).length) :
    cutSymbol? c (more ++ rest) = some ⟨kind, c :: more, rest⟩ := by
  unfold cutSymbol?
  rcases (operators_plain _ hop).1 with hone | htwo
  · obtain rfl : more = [] := by simpa using hone
    have hpair : cutPair? c rest = none := by
      cases rest with
      | nil => rfl
      | cons d rest =>
        cases hk : pairKind? c d with
        | none => simp [cutPair?, hk]
        | some pairKind =>
          have hlength := hlongest _ (pairKind?_eq_some_iff.1 hk) ⟨rest, rfl⟩
          simp at hlength
    simp [hpair, symbolKind?_eq_some_iff.2 hop]
  · obtain ⟨d, rfl⟩ : ∃ d, more = [d] := List.length_eq_one_iff.1 (by simpa using htwo)
    simp [cutPair?, pairKind?_eq_some_iff.2 hop]

end Operators

section Cutting

variable {c : Char} {cs word text rest : List Char} {kind : Kind} {value : Option Value} {cut : Cut}

theorem IsWord.lexeme (h : IsWord word rest) :
    Lexeme word rest (wordKind word) (valueOf (wordKind word) word) := by
  unfold wordKind
  split
  · rename_i k hk
    exact .keyword h (Keyword.ofWord?_eq_some_iff.1 hk)
  · rename_i hk
    exact .name h (Keyword.ofWord?_eq_none_iff.1 hk)

theorem lexeme_of_cutNumber (hc : c.isDigit = true) :
    Lexeme (cutNumber (c :: cs)).lexeme (cutNumber (c :: cs)).rest .number
      (valueOf .number (cutNumber (c :: cs)).lexeme) := by
  simp only [cutNumber, valueOf]
  obtain ⟨hchars, hstop⟩ := span_stops isDigit_iff (c :: cs)
  have hdigits : IsDigits ((c :: cs).takeWhile Char.isDigit) := by
    refine ⟨?_, hchars⟩
    rw [List.takeWhile_cons_of_pos hc]
    exact List.cons_ne_nil _ _
  generalize (c :: cs).takeWhile Char.isDigit = digits at hdigits ⊢
  generalize (c :: cs).dropWhile Char.isDigit = after at hstop ⊢
  rcases fraction_cases after with hpoint | ⟨part, rest, rfl, hpart, hrest⟩
  · rw [fraction_none hpoint, List.append_nil, numeralValue_digits hdigits]
    exact .number hdigits hstop hpoint
  · rw [fraction_some hpart hrest, numeralValue_fraction hdigits hpart]
    exact .fraction hdigits hpart hrest

theorem lexeme_of_cutString? (h : cutString? cs = some cut) :
    Lexeme cut.lexeme cut.rest cut.kind (valueOf cut.kind cut.lexeme) := by
  simp only [cutString?] at h
  split at h
  · cases h
  rename_i q rest hrest
  cases h
  obtain ⟨hbody, hstop⟩ := span_stops not_quote_iff cs
  rw [hrest] at hstop
  have hq : q = '"' := not_not.1 (hstop q rfl)
  subst hq
  have hvalue : valueOf .string ('"' :: cs.takeWhile (· != '"') ++ ['"']) =
      some (.text (String.ofList (cs.takeWhile (· != '"')))) := by simp [valueOf]
  rw [hvalue]
  exact .string rest fun hmem => hbody _ hmem rfl

theorem lexeme_of_first? (h : first? c cs = some cut) :
    Lexeme cut.lexeme cut.rest cut.kind (valueOf cut.kind cut.lexeme) := by
  unfold first? at h
  split at h
  · rename_i hc
    cases h
    obtain ⟨hchars, hstop⟩ := span_stops isWordChar_iff (c :: cs)
    refine IsWord.lexeme ⟨⟨c, cs.takeWhile isWordChar, ?_, (isWordStart_iff _).1 hc⟩, hchars, hstop⟩
    exact List.takeWhile_cons_of_pos ((isWordChar_iff _).2 (.inl ((isWordStart_iff _).1 hc)))
  split at h
  · rename_i hc
    cases h
    exact lexeme_of_cutNumber hc
  split at h
  · exact lexeme_of_cutString? h
  · exact lexeme_of_cutSymbol? h

theorem first?_word (h : IsWord word rest) : ∃ c more, word = c :: more ∧
    first? c (more ++ rest) = some ⟨wordKind word, word, rest⟩ := by
  obtain ⟨c, more, hword, hc⟩ := h.head
  obtain ⟨htake, hdrop⟩ := span_append isWordChar_iff h.chars h.stops
  refine ⟨c, more, hword, ?_⟩
  rw [first?, if_pos ((isWordStart_iff _).2 hc), ← List.cons_append, ← hword, cutWord, htake, hdrop]

theorem not_isLetter_of_isDigit (h : IsDigit c) : ¬ IsLetter c := by
  rintro (⟨hlo, -⟩ | ⟨hlo, -⟩ | rfl)
  · exact absurd (Char.le_trans hlo h.2) (by decide)
  · exact absurd (Char.le_trans hlo h.2) (by decide)
  · exact absurd h.2 (by decide)

theorem first?_number {digits part : List Char} (h : IsDigits digits)
    (hpart : fraction (part ++ rest) = (part, rest)) (hstop : Stops IsDigit (part ++ rest)) :
    ∃ c more, digits ++ part = c :: more ∧
      first? c (more ++ rest) = some ⟨.number, digits ++ part, rest⟩ := by
  obtain ⟨c, more, rfl, hc⟩ := h.head
  obtain ⟨htake, hdrop⟩ := h.span hstop
  refine ⟨c, more ++ part, rfl, ?_⟩
  have hletter : ¬ isWordStart c = true := by
    rw [isWordStart_iff]
    exact not_isLetter_of_isDigit ((isDigit_iff _).1 hc)
  rw [List.append_assoc, first?, if_neg hletter, if_pos hc, ← List.cons_append, cutNumber, htake,
    hdrop, hpart]

theorem cutString?_append {body : List Char} (hbody : '"' ∉ body) (rest : List Char) :
    cutString? (body ++ '"' :: rest) = some ⟨.string, '"' :: body ++ ['"'], rest⟩ := by
  have hstop : Stops (· ≠ '"') ('"' :: rest) := by simp [Stops]
  obtain ⟨htake, hdrop⟩ :=
    span_append not_quote_iff (fun c hc => ne_of_mem_of_not_mem hc hbody) hstop
  simp only [cutString?, htake, hdrop]

theorem Lexeme.first? (h : Lexeme text rest kind value) : ∃ c more, text = c :: more ∧
    Token.first? c (more ++ rest) = some ⟨kind, text, rest⟩ ∧ value = valueOf kind text := by
  cases h with
  | keyword hword hk =>
    obtain ⟨c, more, htext, hcut⟩ := first?_word hword
    rw [wordKind, Keyword.ofWord?_eq_some_iff.2 hk] at hcut
    exact ⟨c, more, htext, hcut, rfl⟩
  | name hword hk =>
    obtain ⟨c, more, htext, hcut⟩ := first?_word hword
    rw [wordKind, Keyword.ofWord?_eq_none_iff.2 hk] at hcut
    exact ⟨c, more, htext, hcut, rfl⟩
  | number hdigits hstop hpoint =>
    have hnone : Token.fraction ([] ++ rest) = ([], rest) := fraction_none hpoint
    obtain ⟨c, more, htext, hcut⟩ := first?_number hdigits hnone hstop
    rw [List.append_nil] at htext hcut
    refine ⟨c, more, htext, hcut, ?_⟩
    rw [valueOf, numeralValue_digits hdigits]
  | fraction hdigits hpart hstop =>
    have hpoint (cs : List Char) : Stops IsDigit ('.' :: cs) := by simp [Stops, ← isDigit_iff]
    obtain ⟨c, more, htext, hcut⟩ := first?_number hdigits (fraction_some hpart hstop) (hpoint _)
    refine ⟨c, more, htext, hcut, ?_⟩
    rw [valueOf, numeralValue_fraction hdigits hpart]
  | string rest hbody =>
    refine ⟨'"', _, rfl, ?_, by simp [valueOf]⟩
    have hcut := cutString?_append hbody rest
    rw [List.append_cons] at hcut
    exact hcut
  | operator hop hlongest =>
    obtain ⟨hlength, hhead, -⟩ := operators_plain _ hop
    cases text with
    | nil => simp at hlength
    | cons c more =>
      obtain ⟨hletter, hdigit, hquote⟩ := hhead c rfl
      refine ⟨c, more, rfl, ?_, (valueOf_operator hop).symm⟩
      rw [Token.first?, if_neg (by simp [hletter]), if_neg (by simp [hdigit]),
        if_neg (by simp [hquote])]
      exact cutSymbol?_of_lexeme hop hlongest

theorem Lexeme.kind_ne_end (h : Lexeme text rest kind value) : kind ≠ .endOfLine := by
  cases h with
  | operator hop _ =>
    rintro rfl
    exact (operators_plain _ hop).2.2 (by simp)
  | _ => exact Kind.noConfusion

end Cutting

section Tails

variable {text rest tail : List Char} {kind : Kind} {value : Option Value}

/-- Starts with no character that could make the lexeme before it longer. -/
def Detached (tail : List Char) : Prop :=
  Stops (fun c => isWordChar c = true ∨ c ∈ ['.', '=', '>']) tail

theorem detached_nil : Detached [] := by
  intro c hc
  cases hc

theorem detached_cons {c : Char} (hword : isWordChar c = false) (hc : c ∉ ['.', '=', '>'])
    (rest : List Char) : Detached (c :: rest) := by
  intro d hd
  cases hd
  rintro (hd | hd)
  · rw [hword] at hd
    cases hd
  · exact hc hd

theorem Detached.stops {P : Char → Prop} (h : Detached tail)
    (hP : ∀ c, P c → IsLetter c ∨ IsDigit c) : Stops P tail :=
  fun c hc hPc => h c hc (.inl ((isWordChar_iff c).2 (hP c hPc)))

theorem Detached.longest {op : List Char} (h : Detached tail) (hop : (op, kind) ∈ operators) :
    ∀ other ∈ operators, other.1 <+: op ++ tail → other.1.length ≤ op.length := by
  intro other hother hstart
  rcases (operators_plain _ hop).1 with hone | htwo
  · obtain ⟨c, rfl⟩ := List.length_eq_one_iff.1 hone
    refine single_longest (fun b hb => .inr fun hsecond => ?_) other hother hstart
    exact h b hb (.inr (.tail _ hsecond))
  · have hlength := (operators_plain other hother).1
    change op.length = 2 at htwo
    omega

/-- A lexeme stays one before a detached text, whatever stood behind it before. -/
theorem Lexeme.detached (h : Lexeme text rest kind value) (ht : Detached tail) :
    Lexeme text tail kind value := by
  have hword {word : List Char} (h : IsWord word rest) : IsWord word tail :=
    ⟨h.head, h.chars, ht.stops fun _ => id⟩
  have hdigit : Stops IsDigit tail := ht.stops fun _ => .inr
  cases h with
  | keyword h hk => exact .keyword (hword h) hk
  | name h hk => exact .name (hword h) hk
  | number hdigits _ _ =>
    refine .number hdigits hdigit ?_
    rintro d more rfl
    exact absurd (.inr (.head _)) (ht '.' rfl)
  | fraction hdigits hpart _ => exact .fraction hdigits hpart hdigit
  | string _ hbody => exact .string tail hbody
  | operator hop _ => exact .operator hop (ht.longest hop)

theorem Lexeme.append (h : Lexeme text rest kind value) (ht : Detached tail) :
    Lexeme text (rest ++ tail) kind value := by
  cases rest with
  | nil => exact h.detached ht
  | cons c more =>
    -- the next character is the same, and only a fraction and an operator depend on more
    cases h with
    | keyword h hk => exact .keyword ⟨h.head, h.chars, h.stops⟩ hk
    | name h hk => exact .name ⟨h.head, h.chars, h.stops⟩ hk
    | number hdigits hstop hpoint =>
      refine .number hdigits hstop fun d after heq => ?_
      obtain ⟨hc, hmore⟩ := List.cons.inj heq
      cases more with
      | nil =>
        obtain rfl : tail = d :: after := hmore
        exact fun hd => ht d rfl (.inl ((isWordChar_iff d).2 (.inr hd)))
      | cons e more =>
        obtain ⟨he, -⟩ := List.cons.inj hmore
        exact hpoint d more (by rw [hc, he])
    | fraction hdigits hpart hstop => exact .fraction hdigits hpart hstop
    | string _ hbody => exact .string _ hbody
    | operator hop hlongest =>
      refine .operator hop fun other hother hstart => ?_
      have hlength : text.length = 1 ∨ text.length = 2 := (operators_plain _ hop).1
      have hlength' := (operators_plain other hother).1
      refine hlongest other hother (List.prefix_of_prefix_length_le hstart ?_ ?_)
      · rw [← List.append_assoc]
        exact List.prefix_append _ _
      · rw [List.length_append, List.length_cons]
        omega

end Tails

theorem isGap_of_first? {c : Char} {rest : List Char} {cut : Cut} (h : first? c rest = some cut) :
    isGap c = false := by
  have hblank := (first?_keyword h).1
  by_contra hgap
  rw [isBlank_of_isGap (by simpa using hgap)] at hblank
  cases hblank

def content (t : Token) : Kind × String × Option Value := (t.kind, t.lexeme, t.value)

def ReadsAs (cs : List Char) (contents : List (Kind × String × Option Value)) : Prop :=
  ∀ p : Position, ∃ ts, tokensFrom p cs = .ok ts ∧ ts.map content = contents

section Reading

variable {c : Char} {text rest : List Char} {kind : Kind} {value : Option Value}
  {contents : List (Kind × String × Option Value)}

theorem readsAs_nil : ReadsAs [] [(.endOfLine, "", none)] := by
  intro p
  exact ⟨[endAt p], by rw [tokensFrom], rfl⟩

theorem ReadsAs.gap (hc : isGap c = true) (h : ReadsAs rest contents) :
    ReadsAs (c :: rest) contents := by
  intro p
  rw [tokensFrom_gap p hc]
  exact h _

theorem Lexeme.tokensFrom (h : Lexeme text rest kind value) (p : Position) :
    Token.tokensFrom p (text ++ rest) =
      if kind = .keyword .REM then
        .ok [⟨kind, String.ofList text, some (.text (String.ofList (Text.trim rest))), p⟩,
          endAt (p.after text)]
      else
        (Token.tokensFrom (p.after text) rest).map (⟨kind, String.ofList text, value, p⟩ :: ·) := by
  obtain ⟨c, more, htext, hcut, rfl⟩ := h.first?
  rw [htext, List.cons_append, tokensFrom_cut p (isGap_of_first? hcut) hcut, ← htext]
  rfl

theorem Lexeme.readsAs (h : Lexeme text rest kind value) (hrem : kind ≠ .keyword .REM)
    (hrest : ReadsAs rest contents) :
    ReadsAs (text ++ rest) ((kind, String.ofList text, value) :: contents) := by
  intro p
  obtain ⟨ts, hts, hcontents⟩ := hrest (p.after text)
  refine ⟨⟨kind, String.ofList text, value, p⟩ :: ts, ?_, by rw [List.map_cons, hcontents]; rfl⟩
  rw [h.tokensFrom, if_neg hrem, hts]
  rfl

theorem Lexeme.readsAs_remark (h : Lexeme text rest (.keyword .REM) value) :
    ReadsAs (text ++ rest)
      [(.keyword .REM, String.ofList text, some (.text (String.ofList (Text.trim rest)))),
        (.endOfLine, "", none)] := by
  intro p
  exact ⟨_, by rw [h.tokensFrom, if_pos rfl], rfl⟩

end Reading

/-- Two texts that have tokens have them one after the other too, if the second is detached and the
first has no remark. -/
theorem readsAs_append {tail : List Char} {contents : List (Kind × String × Option Value)}
    (ht : Detached tail) (htail : ReadsAs tail contents) (p : Position) (cs : List Char) :
    ∀ ts, tokensFrom p cs = .ok ts → (∀ t ∈ ts, t.kind ≠ .keyword .REM) →
      ReadsAs (cs ++ tail) ((ts.map content).dropLast ++ contents) := by
  fun_induction tokensFrom p cs with
  | case1 p =>
    intro ts h _
    cases h
    exact htail
  | case2 p c cs hgap ih => exact fun ts h hrem => (ih ts h hrem).gap hgap
  | case3 | case6 =>
    intro ts h
    cases h
  | case4 p c cs hgap cut hcut after hrem remark =>
    intro ts h hnone
    cases h
    exact absurd hrem (hnone _ (.head _))
  | case5 p c cs hgap cut hcut after hrem rest hrest ih =>
    intro ts h hnone
    cases h
    have hread := ih rest hrest fun t ht => hnone t (.tail _ ht)
    have hne : rest.map content ≠ [] := by simpa using tokensFrom_ne_nil hrest
    rw [← (first?_append hcut).1, List.append_assoc, List.map_cons, List.dropLast_cons_of_ne_nil hne]
    exact ((lexeme_of_first? hcut).append ht).readsAs hrem hread

end Token

end NumberedBasic
