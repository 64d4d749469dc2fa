import NumberedBasic.Numeral

set_option autoImplicit false

/-!
# Plain numerals

The reading of numerals in plain digits: what a row of digits with a point in it and an exponent
behind it spells (`decimal?_whole`, `decimal?_point`, `exponent?_mark`), and that a sign before it is
the sign of the double (`signedDecimal?_signed`).
-/
namespace NumberedBasic

namespace Text

theorem digits_ne_nil (n : Nat) : digits n ≠ [] := Nat.toDigits_ne_nil

theorem isDigit_of_mem_replicate {n : Nat} {c : Char} (h : c ∈ List.replicate n '0') :
    c.isDigit = true := by
  rw [List.eq_of_mem_replicate h]
  rfl

theorem isDigit_of_mem_append {xs ys : List Char} (hx : ∀ c ∈ xs, c.isDigit = true)
    (hy : ∀ c ∈ ys, c.isDigit = true) : ∀ c ∈ xs ++ ys, c.isDigit = true := by
  intro c hc
  rcases List.mem_append.1 hc with hc | hc
  · exact hx c hc
  · exact hy c hc

section Zeros

variable {ds : List Char}

theorem ofDigits_append_zeros (hds : ∀ c ∈ ds, c.isDigit = true) (n : Nat) :
    ofDigits (ds ++ List.replicate n '0') = ofDigits ds * Nat.pow 10 n := by
  rw [ofDigits_eq (isDigit_of_mem_append hds fun _ => isDigit_of_mem_replicate), ofDigits_eq hds,
    Nat.ofDigitChars_append, Nat.ofDigitChars_replicate_zero, Nat.mul_comm, Nat.pow_eq]

theorem ofDigits_zeros_append (hds : ∀ c ∈ ds, c.isDigit = true) (n : Nat) :
    ofDigits (List.replicate n '0' ++ ds) = ofDigits ds := by
  rw [ofDigits_eq (isDigit_of_mem_append (fun _ => isDigit_of_mem_replicate) hds), ofDigits_eq hds,
    Nat.ofDigitChars_append, Nat.ofDigitChars_replicate_zero, Nat.mul_zero]

end Zeros

theorem trimmed_of_not_blank {cs : List Char} (h : ∀ c ∈ cs, isBlank c = false) : Trimmed cs :=
  ⟨fun c hc => h c (List.mem_of_mem_head? hc), fun c hc => h c (List.mem_of_getLast? hc)⟩

end Text

namespace Numeral
open Text Double

section Rows

variable {ds tail : List Char}

theorem moreDigits_nil : moreDigits [] = ([], []) := rfl

theorem moreDigits_append (hds : ∀ c ∈ ds, c.isDigit = true) (htail : moreDigits tail = ([], tail)) :
    moreDigits (ds ++ tail) = (ds.filterMap digitValue?, tail) := by
  induction ds with
  | nil => exact htail
  | cons c ds ih =>
    have hc := digitValue?_of_isDigit (hds c (.head _))
    rw [List.cons_append, moreDigits.eq_def]
    simp only [hc, ih fun d hd => hds d (.tail _ hd), List.filterMap_cons_some hc]

theorem digitRow_append (hne : ds ≠ []) (hds : ∀ c ∈ ds, c.isDigit = true)
    (htail : moreDigits tail = ([], tail)) :
    digitRow (ds ++ tail) = (ds.filterMap digitValue?, tail) := by
  obtain ⟨c, ds, rfl⟩ := List.exists_cons_of_ne_nil hne
  have hc := digitValue?_of_isDigit (hds c (.head _))
  simp only [List.cons_append, digitRow, hc, moreDigits_append (fun d hd => hds d (.tail _ hd)) htail,
    List.filterMap_cons_some hc]

theorem length_digitValues (hds : ∀ c ∈ ds, c.isDigit = true) :
    (ds.filterMap digitValue?).length = ds.length := by
  induction ds with
  | nil => rfl
  | cons c ds ih =>
    rw [List.filterMap_cons_some (digitValue?_of_isDigit (hds c (.head _))), List.length_cons,
      List.length_cons, ih fun d hd => hds d (.tail _ hd)]

theorem digitValues_ne_nil (hne : ds ≠ []) (hds : ∀ c ∈ ds, c.isDigit = true) :
    ds.filterMap digitValue? ≠ [] := by
  rw [← List.length_pos_iff, length_digitValues hds]
  exact List.length_pos_iff.2 hne

end Rows

section Spelling

variable {whole fraction tail : List Char} {e : Int}

theorem decimal?_of_row {cs : List Char} {ws : List Nat} (hrow : digitRow cs = (ws, tail))
    (hne : ws ≠ []) (hpoint : tail.head? ≠ some '.') (he : exponent? tail = some e) :
    decimal? cs = some ⟨ofDigitValues ws, e⟩ := by
  unfold decimal?
  rw [hrow]
  dsimp only
  split
  · exact absurd rfl hpoint
  · simp [hne, he]

theorem decimal?_of_rows {cs rest : List Char} {ws fs : List Nat}
    (hwhole : digitRow cs = (ws, '.' :: rest)) (hfraction : digitRow rest = (fs, tail))
    (hne : ws ≠ [] ∨ fs ≠ []) (he : exponent? tail = some e) :
    decimal? cs = some ⟨ofDigitValues (ws ++ fs), e - fs.length⟩ := by
  have hsome : (ws.isEmpty && fs.isEmpty) = false := by
    rw [Bool.and_eq_false_iff, List.isEmpty_eq_false_iff, List.isEmpty_eq_false_iff]
    exact hne
  simp only [decimal?, hwhole, hfraction, hsome, he, Option.map_some, Bool.false_eq_true, if_false]

theorem decimal?_whole (hne : whole ≠ []) (hwhole : ∀ c ∈ whole, c.isDigit = true)
    (htail : moreDigits tail = ([], tail)) (hpoint : tail.head? ≠ some '.')
    (he : exponent? tail = some e) :
    decimal? (whole ++ tail) = some ⟨ofDigits whole, e⟩ :=
  decimal?_of_row (digitRow_append hne hwhole htail) (digitValues_ne_nil hne hwhole) hpoint he

theorem decimal?_point (hne : whole ≠ []) (hwhole : ∀ c ∈ whole, c.isDigit = true)
    (hfraction : fraction ≠ []) (hdigits : ∀ c ∈ fraction, c.isDigit = true)
    (htail : moreDigits tail = ([], tail)) (he : exponent? tail = some e) :
    decimal? (whole ++ '.' :: (fraction ++ tail)) =
      some ⟨ofDigits (whole ++ fraction), e - fraction.length⟩ := by
  have hpoint (cs : List Char) : moreDigits ('.' :: cs) = ([], '.' :: cs) := rfl
  have hread := decimal?_of_rows (digitRow_append hne hwhole (hpoint _))
    (digitRow_append hfraction hdigits htail) (.inl (digitValues_ne_nil hne hwhole)) he
  rwa [← List.filterMap_append, length_digitValues hdigits] at hread

theorem exponent?_nil : exponent? [] = some 0 := rfl

theorem exponent?_mark {ds : List Char} (hne : ds ≠ []) (hds : ∀ c ∈ ds, c.isDigit = true)
    (e : Int) (h : ofDigits ds = e.natAbs) :
    exponent? ('e' :: (if e < 0 then '-' else '+') :: ds) = some e := by
  have hrow := digitRow_append hne hds (rfl : moreDigits [] = ([], []))
  rw [List.append_nil] at hrow
  have hsign : sign ((if e < 0 then '-' else '+') :: ds) = (decide (e < 0), ds) := by
    split <;> simp [sign, *]
  have hvalue : (if decide (e < 0) = true then -(ofDigits ds : Int) else ofDigits ds) = e := by
    simp only [decide_eq_true_eq, h]
    omega
  cases hvalues : ds.filterMap digitValue? with
  | nil => exact absurd hvalues (digitValues_ne_nil hne hds)
  | cons d rest =>
    rw [ofDigits, hvalues] at hvalue
    rw [hvalues] at hrow
    simp only [exponent?, hsign, hrow, hvalue, beq_self_eq_true, Bool.true_or, if_true]

end Spelling

/-- What is read as a decimal without sign starts with none. -/
theorem sign_of_decimal? {cs : List Char} {d : Decimal} (h : decimal? cs = some d) :
    sign cs = (false, cs) := by
  unfold sign
  split
  · cases h
  · cases h
  · rfl

theorem signedDecimal?_signed {cs : List Char} {d : Decimal} (negative : Bool)
    (h : decimal? cs = some d) :
    signedDecimal? (if negative then '-' :: cs else cs) = some (d.toDouble negative) := by
  cases negative with
  | true => simp [signedDecimal?, sign, h]
  | false => simp [signedDecimal?, sign_of_decimal? h, h]

theorem decimal?_digits (n : Nat) : decimal? (digits n) = some ⟨n, 0⟩ := by
  have h : decimal? (digits n ++ []) = some ⟨ofDigits (digits n), 0⟩ :=
    decimal?_whole (digits_ne_nil n) (fun _ => isDigit_of_mem_digits) rfl (by simp) rfl
  rwa [List.append_nil, ofDigits_digits] at h

end Numeral

end NumberedBasic
