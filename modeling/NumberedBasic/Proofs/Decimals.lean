import NumberedBasic.Proofs.WholeNumbers

set_option autoImplicit false

/-!
# Decimals that are read as a given double

The double nearest to a ratio depends on the value of the ratio only (`nearest_congr`), and so does
the double a decimal is read as: zeros at the end of the coefficient count as a larger exponent
(`Decimal.magnitude_mul_ten_pow`). The decimal that a finite double is written as is read as that
double again (`magnitude_shortest`, `ofMagnitude_of_parts`).
-/
namespace NumberedBasic.Double

section Ratios

variable {a b c d : Nat}

theorem nearest_mul_right (a b : Nat) (hc : 0 < c) : nearest (a * c) (b * c) = nearest a b := by
  simp only [nearest, Nat.mul_div_mul_right _ _ hc, Nat.mul_right_comm b c,
    roundHalfEven_mul_right _ _ hc]

theorem nearest_congr (hb : 0 < b) (hd : 0 < d) (h : a * d = c * b) :
    nearest a b = nearest c d := by
  rw [← nearest_mul_right a b hd, ← nearest_mul_right c d hb, h, Nat.mul_comm b d]

theorem roundHalfEven_eq (a b : Nat) :
    roundHalfEven a b = a / b ∨ roundHalfEven a b = a / b + 1 := by
  unfold roundHalfEven
  dsimp only
  split
  · exact .inl rfl
  split
  · exact .inr rfl
  · omega

theorem le_rounded {n k : Nat} (hk : 52 ≤ k) (h : 2 ^ k ≤ n) : 2 ^ k ≤ rounded n := by
  have hbits : 2 ^ 52 ≤ n := (Nat.pow_le_pow_right (by decide) hk).trans h
  have hlog : k ≤ n.log2 := (Nat.le_log2 (by omega)).2 h
  calc 2 ^ k ≤ 2 ^ n.log2 := Nat.pow_le_pow_right (by decide) hlog
    _ = 2 ^ 52 * 2 ^ (n.log2 - 52) := by rw [← Nat.pow_add, Nat.add_sub_cancel' (hk.trans hlog)]
    _ ≤ rounded n := Nat.mul_le_mul_right _ (significand_bounds hbits).1

theorem nearest_eq_infinite {units : Nat} (h : overflowBound * unitsPerOne ≤ units) :
    nearest units 1 = infiniteMagnitude := by
  have hlarge : overflowBound * unitsPerOne ≤ rounded units := by
    rw [overflowBound_units] at h ⊢
    exact le_rounded (by decide) h
  rw [nearest_one, Nat.min_eq_left]
  exact Nat.not_lt.1 (mt (unboundedMagnitude_lt_infinite_iff units).1 (Nat.not_lt.2 hlarge))

theorem nearest_unitsOfMagnitude {m : Nat} (h : m < infiniteMagnitude) :
    nearest (unitsOfMagnitude m) 1 = m := by
  suffices hm : unboundedMagnitude (unitsOfMagnitude m) = m by
    rw [nearest_one, hm, Nat.min_eq_right h.le]
  have hfraction : m % 2 ^ 52 < 2 ^ 52 := Nat.mod_lt _ (Nat.two_pow_pos 52)
  have hpow : Nat.pow 2 52 = 2 ^ 52 := rfl
  simp only [unitsOfMagnitude, hpow]
  by_cases hfield : m / 2 ^ 52 = 0
  · rw [if_pos hfield, unboundedMagnitude_of_lt hfraction]
    omega
  · -- the significand has 53 bits, so it is shifted back by its exponent field
    rw [if_neg hfield]
    generalize hq : 2 ^ 52 + m % 2 ^ 52 = q
    have hne : q ≠ 0 := by omega
    have hlog : q.log2 = 52 := (Nat.log2_eq_iff hne).2 ⟨by omega, by omega⟩
    have hshift : (q * 2 ^ (m / 2 ^ 52 - 1)).log2 - 52 = m / 2 ^ 52 - 1 := by
      rw [log2_mul_two_pow hne, hlog, Nat.add_sub_cancel_left]
    simp only [unboundedMagnitude, Nat.pow_eq, hshift, roundHalfEven_mul_self q (Nat.two_pow_pos _)]
    omega

end Ratios

namespace Decimal

/-- However large or small it is, a decimal is read as the double nearest to its value. -/
theorem magnitude_eq (d : Decimal) :
    d.magnitude = nearest (d.coefficient * Nat.pow 10 d.exponent.toNat * unitsPerOne)
      (Nat.pow 10 (-d.exponent).toNat) := by
  obtain ⟨n, e⟩ := d
  rcases Int.le_total 0 e with he | he
  · obtain ⟨k, rfl⟩ := Int.eq_ofNat_of_zero_le he
    have hnone : (-(k : Int)).toNat = 0 := by omega
    unfold magnitude
    dsimp only
    rw [Int.toNat_natCast, hnone]
    split
    · rename_i hzero
      rw [hzero, Nat.zero_mul, Nat.zero_mul, nearest_eq_zero (by decide)]
    split
    · rename_i hn hlarge
      -- the cut-off: so large a power is beyond the largest double
      refine (nearest_eq_infinite (Nat.mul_le_mul_right _ ?_)).symm
      obtain ⟨b, hb, hbound⟩ : ∃ b, b ≤ 400 ∧ overflowBound ≤ Nat.pow 10 b :=
        ⟨400, Nat.le_refl _, by decide +kernel⟩
      calc overflowBound ≤ Nat.pow 10 b := hbound
        _ ≤ Nat.pow 10 k := Nat.pow_le_pow_right (by decide) (by omega)
        _ ≤ n * Nat.pow 10 k := Nat.le_mul_of_pos_left _ (Nat.pos_of_ne_zero hn)
    split
    · omega
    · rfl
  · obtain ⟨k, hk⟩ := Int.eq_ofNat_of_zero_le (Int.neg_nonneg_of_nonpos he)
    obtain rfl : e = -k := by omega
    have hnone : (-(k : Int)).toNat = 0 := by omega
    rw [magnitude_eq_nearest, hnone, Int.neg_neg, Int.toNat_natCast, Nat.pow_eq, Nat.pow_eq,
      Nat.pow_zero, Nat.mul_one]

theorem magnitude_mul_ten_pow (n k : Nat) (e : Int) :
    (⟨n * Nat.pow 10 k, e⟩ : Decimal).magnitude = (⟨n, e + k⟩ : Decimal).magnitude := by
  have hpos (j : Nat) : 0 < Nat.pow 10 j := Nat.pow_pos (by decide)
  rw [magnitude_eq, magnitude_eq]
  apply nearest_congr (hpos _) (hpos _)
  have hexponents : k + e.toNat + (-(e + k)).toNat = (e + k).toNat + (-e).toNat := by omega
  have hpowers := congrArg (Nat.pow 10) hexponents
  simp only [Nat.pow_eq, Nat.pow_add] at hpowers ⊢
  calc n * 10 ^ k * 10 ^ e.toNat * unitsPerOne * 10 ^ (-(e + k)).toNat
      = n * unitsPerOne * (10 ^ k * 10 ^ e.toNat * 10 ^ (-(e + k)).toNat) := by ring
    _ = n * unitsPerOne * (10 ^ (e + k).toNat * 10 ^ (-e).toNat) := by rw [hpowers]
    _ = n * 10 ^ (e + k).toNat * unitsPerOne * 10 ^ (-e).toNat := by ring

end Decimal

section Shortest

variable {units : Nat}

theorem magnitude_onGrid {e : Int} {d : Decimal} (h : onGrid? units e = some d) :
    d.magnitude = nearest units 1 := by
  unfold onGrid? at h
  generalize unitsPerOne * Nat.pow 10 e.toNat = den at h
  dsimp only at h
  split at h
  · rename_i hbelow habove
    cases h
    rcases roundHalfEven_eq (units * Nat.pow 10 (-e).toNat) den with heq | heq
    · rw [heq]
      exact beq_iff_eq.1 hbelow
    · rw [heq]
      exact beq_iff_eq.1 habove
  · rename_i hbelow _
    cases h
    exact beq_iff_eq.1 hbelow
  · rename_i _ habove
    cases h
    exact beq_iff_eq.1 habove
  · cases h

theorem magnitude_exact (units : Nat) : (exact units).magnitude = nearest units 1 := by
  have hexact (k : Nat) (hk : unitsPerOne = Nat.pow 2 k) :
      (⟨units * Nat.pow 5 k, -k⟩ : Decimal).magnitude = nearest units 1 := by
    rw [Decimal.magnitude_eq_nearest, hk]
    apply nearest_congr (Nat.pow_pos (by decide)) Nat.one_pos
    rw [Nat.mul_one, Nat.mul_assoc]
    exact congrArg (units * ·) (Nat.mul_pow 5 2 k).symm
  unfold exact
  apply hexact
  apply congrArg (Nat.pow 2)
  rfl

theorem magnitude_shortest (units : Nat) : (shortest units).magnitude = nearest units 1 := by
  unfold shortest
  dsimp only
  cases hfound : (List.range 17).findSome? fun i : Nat =>
      onGrid? units (firstPlace units - (i + 1 : Nat)) with
  | none => exact magnitude_exact units
  | some d =>
    obtain ⟨i, -, hi⟩ := List.exists_of_findSome?_eq_some hfound
    exact magnitude_onGrid hi

end Shortest

theorem ofMagnitude_of_parts {x : Float} {negative : Bool} {units : Nat}
    (h : parts x = .finite negative units) : ofMagnitude negative (nearest units 1) = x := by
  have hpow : Nat.pow 2 63 = 2 ^ 63 := rfl
  have hbits : x.toBits.toNat < 2 ^ 64 := x.toBits.toNat_lt
  unfold parts at h
  dsimp only at h
  split at h
  · cases h
  split at h
  · cases h
  rename_i hlarge hinfinite
  cases h
  have hpattern : (if decide (Nat.pow 2 63 ≤ x.toBits.toNat) = true
      then Nat.pow 2 63 + x.toBits.toNat % Nat.pow 2 63 else x.toBits.toNat % Nat.pow 2 63) =
      x.toBits.toNat := by
    rw [hpow]
    split
    · rename_i hsign
      have := of_decide_eq_true hsign
      omega
    · rename_i hsign
      have := of_decide_eq_false (Bool.not_eq_true _ ▸ hsign)
      omega
  rw [nearest_unitsOfMagnitude (by omega), ofMagnitude, hpattern, UInt64.ofNat_toNat]
  exact Float.ofBits_toBits x

end NumberedBasic.Double
