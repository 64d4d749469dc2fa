import NumberedBasic.Double.Format
import NumberedBasic.Proofs.Decimals
import NumberedBasic.Proofs.Numerals
import NumberedBasic.Numeral

set_option autoImplicit false

/-!
# What is shown is read back

A double is shown as a numeral, with a point or with an exponent. Each of the three spells a decimal
that is read as the double (`decimal?_positional`, `decimal?_scientific`, `decimal?_digits`), so a
reply that repeats what was shown gives the double itself.
-/
namespace NumberedBasic

namespace Double

namespace Format
open Text Numeral

section Layout

variable {ds : List Char}

theorem decimal?_point_before (hne : ds ≠ []) (hds : ∀ c ∈ ds, c.isDigit = true) {place : Int}
    (h : place ≤ 0) :
    decimal? (positional ds place) = some ⟨ofDigits ds, place - ds.length⟩ := by
  have hfraction := isDigit_of_mem_append
    (fun _ => isDigit_of_mem_replicate (n := (-place).toNat)) hds
  have hread := decimal?_point (List.cons_ne_nil '0' []) (fun _ => isDigit_of_mem_replicate (n := 1))
    (List.append_ne_nil_of_right_ne_nil _ hne) hfraction moreDigits_nil exponent?_nil
  have hvalue := ofDigits_zeros_append hfraction 1
  have hexponent : 0 - ((List.replicate (-place).toNat '0' ++ ds).length : Int) =
      place - ds.length := by
    rw [List.length_append, List.length_replicate]
    omega
  rw [ofDigits_zeros_append hds] at hvalue
  rw [List.append_nil, hexponent] at hread
  rw [positional, if_pos h, ← hvalue]
  exact hread

theorem decimal?_point_among (hds : ∀ c ∈ ds, c.isDigit = true) {n : Nat} (hn : 0 < n)
    (h : n < ds.length) :
    decimal? (positional ds n) = some ⟨ofDigits ds, n - ds.length⟩ := by
  have hdrop : ds.drop n ≠ [] := by simpa using h
  have htake : ds.take n ≠ [] := by
    rw [← List.length_pos_iff, List.length_take]
    omega
  have hread := decimal?_point htake (fun c hc => hds c (List.mem_of_mem_take hc)) hdrop
    (fun c hc => hds c (List.mem_of_mem_drop hc)) moreDigits_nil exponent?_nil
  have hexponent : 0 - ((ds.drop n).length : Int) = n - ds.length := by
    rw [List.length_drop]
    omega
  have hplace : ¬ (n : Int) ≤ 0 := by omega
  rw [List.append_nil, List.take_append_drop, hexponent] at hread
  simpa only [positional, if_neg hplace, Int.toNat_natCast, Nat.sub_eq_zero_of_le h.le,
    List.replicate_zero, List.append_nil, List.isEmpty_iff, if_neg hdrop] using hread

theorem decimal?_point_behind (hne : ds ≠ []) (hds : ∀ c ∈ ds, c.isDigit = true) {n : Nat}
    (h : ds.length ≤ n) :
    decimal? (positional ds n) = some ⟨ofDigits ds * Nat.pow 10 (n - ds.length + 1), -1⟩ := by
  have hwhole := isDigit_of_mem_append hds
    (fun _ => isDigit_of_mem_replicate (n := n - ds.length))
  have hread := decimal?_point (List.append_ne_nil_of_left_ne_nil hne _) hwhole
    (List.cons_ne_nil '0' []) (fun _ => isDigit_of_mem_replicate (n := 1)) moreDigits_nil
    exponent?_nil
  have hzeros : List.replicate (n - ds.length) '0' ++ ['0'] =
      List.replicate (n - ds.length + 1) '0' := List.replicate_succ'.symm
  have hexponent : 0 - ((['0'] : List Char).length : Int) = -1 := rfl
  have hplace : ¬ (n : Int) ≤ 0 := by
    have := List.length_pos_iff.2 hne
    omega
  rw [List.append_nil, List.append_assoc _ _ ['0'], hzeros, ofDigits_append_zeros hds,
    hexponent] at hread
  simpa only [positional, if_neg hplace, Int.toNat_natCast, List.take_of_length_le h,
    List.drop_eq_nil_of_le h, List.isEmpty_nil, if_true] using hread

theorem decimal?_positional (hne : ds ≠ []) (hds : ∀ c ∈ ds, c.isDigit = true) (place : Int) :
    ∃ d, decimal? (positional ds place) = some d ∧
      d.magnitude = (⟨ofDigits ds, place - ds.length⟩ : Decimal).magnitude := by
  rcases Int.lt_or_le 0 place with hpos | hle
  · obtain ⟨n, rfl⟩ := Int.eq_ofNat_of_zero_le hpos.le
    rcases Nat.lt_or_ge n ds.length with hlt | hge
    · exact ⟨_, decimal?_point_among hds (by omega) hlt, rfl⟩
    · refine ⟨_, decimal?_point_behind hne hds hge, ?_⟩
      have hexponent : -1 + ((n - ds.length + 1 : Nat) : Int) = n - ds.length := by omega
      rw [Decimal.magnitude_mul_ten_pow, hexponent]
  · exact ⟨_, decimal?_point_before hne hds hle, rfl⟩

theorem decimal?_scientific (f : Format) (hne : ds ≠ []) (hds : ∀ c ∈ ds, c.isDigit = true)
    (e : Int) :
    decimal? (f.scientific ds e) = some ⟨ofDigits ds, e + 1 - ds.length⟩ := by
  have hpadded := isDigit_of_mem_append
    (fun _ => isDigit_of_mem_replicate (n := f.exponentWidth - (digits e.natAbs).length))
    (fun _ => isDigit_of_mem_digits (n := e.natAbs))
  have hvalue := ofDigits_zeros_append (fun _ => isDigit_of_mem_digits (n := e.natAbs))
    (f.exponentWidth - (digits e.natAbs).length)
  rw [ofDigits_digits] at hvalue
  have hexponent := exponent?_mark
    (List.append_ne_nil_of_right_ne_nil _ (digits_ne_nil e.natAbs)) hpadded e hvalue
  unfold scientific
  dsimp only
  generalize (if e < 0 then '-' else '+') ::
    (List.replicate (f.exponentWidth - (digits e.natAbs).length) '0' ++ digits e.natAbs) = power
    at hexponent
  have htail : moreDigits ('e' :: power) = ([], 'e' :: power) := rfl
  match ds with
  | [] => exact absurd rfl hne
  | [d] =>
    rw [decimal?_whole hne hds htail (by simp) hexponent]
    simp
  | first :: second :: rest =>
    have hfirst : ∀ c ∈ [first], c.isDigit = true := by simpa using hds first (.head _)
    have hread := decimal?_point (List.cons_ne_nil first []) hfirst (List.cons_ne_nil second rest)
      (fun c hc => hds c (.tail _ hc)) htail hexponent
    have hlength : e - ((second :: rest).length : Int) =
        e + 1 - ((first :: second :: rest).length : Int) := by
      simp only [List.length_cons]
      omega
    rw [hlength] at hread
    exact hread

theorem not_blank_of_mem_positional (hds : ∀ c ∈ ds, c.isDigit = true) (place : Int) :
    ∀ c ∈ positional ds place, isBlank c = false := by
  have hzeros {n : Nat} {c : Char} (hc : c ∈ List.replicate n '0') : isBlank c = false :=
    isBlank_of_isDigit (isDigit_of_mem_replicate hc)
  intro c hc
  unfold positional at hc
  split at hc
  · rcases List.mem_cons.1 hc with rfl | hc
    · rfl
    rcases List.mem_cons.1 hc with rfl | hc
    · rfl
    rcases List.mem_append.1 hc with hc | hc
    · exact hzeros hc
    · exact isBlank_of_isDigit (hds c hc)
  · rcases List.mem_append.1 hc with hc | hc
    · rcases List.mem_append.1 hc with hc | hc
      · exact isBlank_of_isDigit (hds c (List.mem_of_mem_take hc))
      · exact hzeros hc
    rcases List.mem_cons.1 hc with rfl | hc
    · rfl
    split at hc
    · exact hzeros (n := 1) hc
    · exact isBlank_of_isDigit (hds c (List.mem_of_mem_drop hc))

theorem not_blank_of_mem_scientific (f : Format) (hds : ∀ c ∈ ds, c.isDigit = true) (e : Int) :
    ∀ c ∈ f.scientific ds e, isBlank c = false := by
  intro c hc
  rcases List.mem_append.1 hc with hc | hc
  · split at hc
    · rcases List.mem_cons.1 hc with rfl | hc
      · exact isBlank_of_isDigit (hds _ (.head _))
      rcases List.mem_cons.1 hc with rfl | hc
      · rfl
      · exact isBlank_of_isDigit (hds c (.tail _ hc))
    · exact isBlank_of_isDigit (hds c hc)
  · rcases List.mem_cons.1 hc with rfl | hc
    · rfl
    rcases List.mem_cons.1 hc with rfl | hc
    · split <;> rfl
    rcases List.mem_append.1 hc with hc | hc
    · exact isBlank_of_isDigit (isDigit_of_mem_replicate hc)
    · exact isBlank_of_isDigit (isDigit_of_mem_digits hc)

end Layout

theorem digits_eq_significant (d : Decimal) :
    ∃ k, digits d.coefficient = significant d ++ List.replicate k '0' := by
  have hzeros : ∀ cs : List Char, ∃ k, (cs.takeWhile (· == '0')).reverse = List.replicate k '0' := by
    intro cs
    refine ⟨_, List.eq_replicate_iff.2 ⟨rfl, fun c hc => ?_⟩⟩
    have hzero := List.mem_takeWhile_imp (List.mem_reverse.1 hc)
    exact beq_iff_eq.1 hzero
  obtain ⟨k, hk⟩ := hzeros (digits d.coefficient).reverse
  have hsplit := congrArg List.reverse
    (List.takeWhile_append_dropWhile (p := (· == '0')) (l := (digits d.coefficient).reverse))
  rw [List.reverse_append, List.reverse_reverse, hk] at hsplit
  unfold significant
  split
  · rename_i hnone
    -- the coefficient is zero, and one of its zeros stays
    rw [hnone, List.nil_append] at hsplit
    cases k with
    | zero => exact absurd hsplit.symm (digits_ne_nil _)
    | succ k => exact ⟨k, hsplit.symm⟩
  · exact ⟨k, hsplit.symm⟩

theorem significant_ne_nil (d : Decimal) : significant d ≠ [] := by
  unfold significant
  split
  · exact List.cons_ne_nil _ _
  · assumption

theorem isDigit_of_mem_significant (d : Decimal) : ∀ c ∈ significant d, c.isDigit = true := by
  obtain ⟨k, hk⟩ := digits_eq_significant d
  intro c hc
  exact isDigit_of_mem_digits (hk ▸ List.mem_append_left _ hc)

theorem magnitude_significant (d : Decimal) :
    (⟨ofDigits (significant d), (digits d.coefficient).length + d.exponent -
      (significant d).length⟩ : Decimal).magnitude = d.magnitude := by
  obtain ⟨k, hk⟩ := digits_eq_significant d
  have hvalue := ofDigits_append_zeros (isDigit_of_mem_significant d) k
  rw [← hk, ofDigits_digits] at hvalue
  have hexponent : ((digits d.coefficient).length : Int) + d.exponent - (significant d).length =
      d.exponent + k := by
    rw [hk, List.length_append, List.length_replicate]
    omega
  rw [hexponent, ← Decimal.magnitude_mul_ten_pow, ← hvalue]

/-- In every format a decimal is written so that it is read as the same double. -/
theorem decimal?_decimal (f : Format) (d : Decimal) :
    ∃ d', decimal? (f.decimal d) = some d' ∧ d'.magnitude = d.magnitude := by
  have hne := significant_ne_nil d
  have hds := isDigit_of_mem_significant d
  rw [← magnitude_significant d]
  unfold decimal
  dsimp only
  split
  · exact decimal?_positional hne hds _
  · refine ⟨_, f.decimal?_scientific hne hds _, ?_⟩
    rw [Int.sub_add_cancel]

theorem not_blank_of_mem_decimal (f : Format) (d : Decimal) :
    ∀ c ∈ f.decimal d, isBlank c = false := by
  unfold decimal
  dsimp only
  split
  · exact not_blank_of_mem_positional (isDigit_of_mem_significant d) _
  · exact f.not_blank_of_mem_scientific (isDigit_of_mem_significant d) _

end Format

def rational? (x : Float) : Option ℚ :=
  match parts x with
  | .finite negative units => some ((if negative then -1 else 1) * (units / unitsPerOne))
  | _ => none

section Shown

variable {x : Float}

theorem integer?_eq_some_iff {n : Int} :
    integer? x = some n ↔ ∃ (negative : Bool) (k : Nat),
      parts x = .finite negative (k * unitsPerOne) ∧ n = if negative then -(k : Int) else k := by
  unfold integer?
  constructor
  · intro h
    split at h
    · rename_i negative units hparts
      split at h
      · rename_i hdvd
        refine ⟨negative, units / unitsPerOne, ?_, (Option.some.inj h).symm⟩
        rw [hparts, Nat.div_mul_cancel (Nat.dvd_of_mod_eq_zero hdvd)]
      · cases h
    · cases h
  · rintro ⟨negative, k, hparts, rfl⟩
    rw [hparts]
    simp only [Nat.mul_mod_left, if_true, Nat.mul_div_cancel _ unitsPerOne_pos]

theorem integer?_of_beq_zero (h : (x == 0) = true) : integer? x = some 0 := by
  obtain ⟨negative, hparts⟩ := (beq_zero_iff x).1 h
  refine integer?_eq_some_iff.2 ⟨negative, 0, ?_, ?_⟩
  · rw [hparts, Nat.zero_mul]
  · split <;> rfl

theorem multiple_of_quotient {u units : Nat} (hu : 0 < u) (negative : Bool) {n : Int}
    (h : (if negative then -1 else 1) * ((units : ℚ) / u) = n) :
    ∃ k : Nat, units = k * u ∧ n = if negative then -(k : Int) else k := by
  have hquotient : (units : ℚ) / u = ((if negative then -n else n : Int) : ℚ) := by
    cases negative <;> simp [← h]
  have hunits : (units : Int) = (if negative then -n else n) * u := by
    exact_mod_cast (div_eq_iff (Nat.cast_ne_zero.2 hu.ne')).1 hquotient
  have hn : 0 ≤ if negative then -n else n := by
    refine nonneg_of_mul_nonneg_left ?_ (Int.natCast_pos.2 hu)
    rw [← hunits]
    exact Int.natCast_nonneg units
  obtain ⟨k, hk⟩ := Int.eq_ofNat_of_zero_le hn
  rw [hk] at hunits
  refine ⟨k, by exact_mod_cast hunits, ?_⟩
  rw [← hk]
  cases negative <;> simp

theorem rational?_of_parts {negative : Bool} {k : Nat}
    (h : parts x = .finite negative (k * unitsPerOne)) :
    rational? x = some ((if negative then -(k : Int) else k : Int) : ℚ) := by
  have hone : (unitsPerOne : ℚ) ≠ 0 := Nat.cast_ne_zero.2 unitsPerOne_pos.ne'
  rw [rational?, h]
  dsimp only
  rw [Nat.cast_mul, mul_div_cancel_right₀ _ hone]
  cases negative <;> simp

theorem rational?_eq_some_iff {n : Int} : rational? x = some (n : ℚ) ↔ integer? x = some n := by
  rw [integer?_eq_some_iff]
  constructor
  · intro h
    unfold rational? at h
    split at h
    · rename_i negative units hparts
      obtain ⟨k, hunits, hn⟩ := multiple_of_quotient unitsPerOne_pos negative (Option.some.inj h)
      rw [hunits] at hparts
      exact ⟨negative, k, hparts, hn⟩
    · cases h
  · rintro ⟨negative, k, hparts, rfl⟩
    exact rational?_of_parts hparts

/-- Of what is shown, nothing is trimmed. -/
theorem value?_signed {cs : List Char} {d : Decimal} (negative : Bool)
    (hread : Numeral.decimal? cs = some d) (hcs : ∀ c ∈ cs, Text.isBlank c = false)
    (hx : d.toDouble negative = x) (hfinite : x.isFinite = true) :
    Reply.value? (Format.signed negative cs) = some x := by
  have hsigned := Numeral.signedDecimal?_signed negative hread
  have hblank : ∀ c ∈ (if negative then '-' :: cs else cs), Text.isBlank c = false := by
    intro c hc
    split at hc
    · rcases List.mem_cons.1 hc with rfl | hc
      · rfl
      · exact hcs c hc
    · exact hcs c hc
  unfold Reply.value?
  rw [Format.signed, String.toList_ofList, Text.trim_eq_self (Text.trimmed_of_not_blank hblank)]
  split
  · rename_i hnil
    rw [hnil] at hsigned
    cases hsigned
  · rw [hsigned, hx, Option.filter_some, if_pos hfinite]

theorem value?_text (h : x.isFinite = true) : Reply.value? (text x) = some x := by
  obtain ⟨negative, units, hparts⟩ := (isFinite_iff x).1 h
  have hmagnitude :
      (if units = 0 then (⟨0, 0⟩ : Decimal) else shortest units).magnitude = nearest units 1 := by
    split
    · rename_i hzero
      rw [hzero, nearest_eq_zero (by decide)]
      rfl
    · exact magnitude_shortest units
  obtain ⟨d, hread, hd⟩ := Format.plain.decimal?_decimal
    (if units = 0 then ⟨0, 0⟩ else shortest units)
  simp only [text, Format.write, hparts]
  refine value?_signed negative hread (Format.plain.not_blank_of_mem_decimal _) ?_ h
  rw [Decimal.toDouble, hd, hmagnitude, ofMagnitude_of_parts hparts]

theorem value?_numeral {n : Int} (h : x.isFinite = true) (hn : integer? x = some n) :
    Reply.value? (Text.numeral n) = some (if x == 0 then 0.0 else x) := by
  obtain ⟨negative, k, hparts, hk⟩ := integer?_eq_some_iff.1 hn
  have habs : n.natAbs = k := by
    rw [hk]
    split <;> omega
  have hnumeral : Text.numeral n = Format.signed (decide (n < 0)) (Text.digits k) := by
    simp only [Text.numeral, Format.signed, habs, decide_eq_true_eq]
  have hmagnitude : (⟨k, 0⟩ : Decimal).magnitude = nearest (k * unitsPerOne) 1 :=
    Decimal.magnitude_eq_nearest k 0
  have hread := Numeral.decimal?_digits k
  have hdigits : ∀ c ∈ Text.digits k, Text.isBlank c = false :=
    fun _ hc => Text.isBlank_of_isDigit (Text.isDigit_of_mem_digits hc)
  rw [hnumeral]
  rcases Nat.eq_zero_or_pos k with rfl | hpos
  · -- of the two zeros, the one without sign is read
    have hzero : (x == 0) = true := (beq_zero_iff x).2 ⟨negative, by rw [hparts, Nat.zero_mul]⟩
    have hn0 : ¬ n < 0 := by omega
    rw [if_pos hzero, decide_eq_false hn0]
    exact value?_signed false hread hdigits rfl rfl
  · have hnonzero : ¬ (x == 0) = true := by
      rw [beq_zero_iff]
      rintro ⟨negative', hparts'⟩
      have hunits := (Parts.finite.inj (hparts.symm.trans hparts')).2
      exact (Nat.mul_pos hpos unitsPerOne_pos).ne' hunits
    have hsign : decide (n < 0) = negative := by
      rw [hk]
      cases negative with
      | true => simp [hpos]
      | false => simp
    rw [if_neg hnonzero, hsign]
    refine value?_signed negative hread hdigits ?_ h
    rw [Decimal.toDouble, hmagnitude, ofMagnitude_of_parts hparts]

theorem display_cases (x : Float) :
    (∃ n, integer? x = some n ∧ display x = Text.numeral n) ∨
      (¬ (x == 0) = true ∧ display x = text x) := by
  by_cases hzero : (x == 0) = true
  · have hn := integer?_of_beq_zero hzero
    refine .inl ⟨0, hn, ?_⟩
    rw [display, hn]
    exact if_pos (by decide)
  · unfold display
    split
    · rename_i n hn
      split
      · exact .inl ⟨n, hn, rfl⟩
      · exact .inr ⟨hzero, rfl⟩
    · exact .inr ⟨hzero, rfl⟩

theorem value?_display (h : x.isFinite = true) :
    Reply.value? (display x) = some (if x == 0 then 0.0 else x) := by
  rcases display_cases x with ⟨n, hn, hshown⟩ | ⟨hnonzero, hshown⟩
  · rw [hshown]
    exact value?_numeral h hn
  · rw [hshown, if_neg hnonzero]
    exact value?_text h

theorem display_injective {y : Float} (hx : x.isFinite = true) (hy : y.isFinite = true)
    (h : display y = display x) : y = x ∨ ((y == 0) = true ∧ (x == 0) = true) := by
  have hzero : ((0.0 : Float) == 0) = true := rfl
  have hread := value?_display hy
  rw [h, value?_display hx] at hread
  by_cases hx0 : (x == 0) = true
  · by_cases hy0 : (y == 0) = true
    · exact .inr ⟨hy0, hx0⟩
    · rw [if_pos hx0, if_neg hy0] at hread
      exact absurd (Option.some.inj hread ▸ hzero) hy0
  · by_cases hy0 : (y == 0) = true
    · rw [if_neg hx0, if_pos hy0] at hread
      exact absurd (Option.some.inj hread ▸ hzero) hx0
    · rw [if_neg hx0, if_neg hy0] at hread
      exact .inl (Option.some.inj hread).symm

theorem display_rational {n : Int} (h : rational? x = some (n : ℚ))
    (hn : n.natAbs < Nat.pow 10 16) : display x = Text.numeral n := by
  rw [display, rational?_eq_some_iff.1 h]
  exact if_pos hn

end Shown

/-- What is shown of a finite double is read as it, and of both zeros as the one without sign; so no
two others are shown alike. A whole number below `10 ^ 16` is shown as its numeral. -/
theorem display_reads_back (x : Float) (h : x.isFinite = true) :
    Reply.value? (display x) = some (if x == 0 then 0.0 else x) ∧
      (∀ y : Float, y.isFinite = true → display y = display x →
        y = x ∨ ((y == 0) = true ∧ (x == 0) = true)) ∧
      ∀ n : Int, rational? x = some (n : ℚ) → n.natAbs < Nat.pow 10 16 →
        display x = Text.numeral n :=
  ⟨value?_display h, fun _ hy => display_injective h hy, fun _ => display_rational⟩

theorem extremes_read_back :
    ((ofMagnitude false 1).isFinite = true ∧ display (ofMagnitude false 1) = "5e-324" ∧
      Reply.value? "5e-324" = some (ofMagnitude false 1) ∧
      ∀ y : Float, y.isFinite = true → display y = "5e-324" → y = ofMagnitude false 1) ∧
    ((ofMagnitude true 0).isFinite = true ∧ (ofMagnitude true 0 == 0) = true ∧
      Reply.value? (display (ofMagnitude true 0)) = some 0.0) ∧
    (-9999999999999998.0 : Float).isFinite = true ∧
      rational? (-9999999999999998.0) = some ((-9999999999999998 : Int) : ℚ) ∧
      display (-9999999999999998.0) = Text.numeral (-9999999999999998) := by
  have hleast : (ofMagnitude false 1).isFinite = true := by decide +kernel
  have hnonzero : ¬ (ofMagnitude false 1 == 0) = true := by decide +kernel
  have hshown : display (ofMagnitude false 1) = "5e-324" := by decide +kernel
  have hzero : (ofMagnitude true 0).isFinite = true := by decide +kernel
  have hiszero : (ofMagnitude true 0 == 0) = true := by decide +kernel
  have hwhole : (-9999999999999998.0 : Float).isFinite = true := by decide +kernel
  have hrational : rational? (-9999999999999998.0) = some ((-9999999999999998 : Int) : ℚ) :=
    rational?_eq_some_iff.2 (by decide +kernel)
  obtain ⟨hread, hunique, -⟩ := display_reads_back _ hleast
  obtain ⟨hreadZero, -⟩ := display_reads_back _ hzero
  obtain ⟨-, -, hnumeral⟩ := display_reads_back _ hwhole
  rw [hshown, if_neg hnonzero] at hread
  rw [if_pos hiszero] at hreadZero
  refine ⟨⟨hleast, hshown, hread, fun y hy hsame => ?_⟩, ⟨hzero, hiszero, hreadZero⟩, hwhole,
    hrational, hnumeral _ hrational (by decide)⟩
  rcases hunique y hy (hsame.trans hshown.symm) with heq | ⟨-, hbad⟩
  · exact heq
  · exact absurd hbad hnonzero

end Double

end NumberedBasic
