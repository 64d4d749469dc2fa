import NumberedBasic.Proofs.Display

set_option autoImplicit false

/-!
# Rounding to the nearest double

A rational number is rounded to the finite double nearest to it, of two equally near ones to the one
whose last bit is zero, unless it is so large that infinity comes next (`RoundsTo`). There is at
most one such double (`RoundsTo.unique`), and a decimal is read as that of its value
(`Decimal.roundsTo_iff`).
-/
namespace NumberedBasic.Double

def overflowThreshold : Nat := Nat.pow 2 1024 - Nat.pow 2 970

def signed (negative : Bool) (q : ℚ) : ℚ := (if negative then -1 else 1) * q

/-- What a number with a sign and the absolute value `q` is rounded to; a zero has a sign too. -/
structure RoundsTo (negative : Bool) (q : ℚ) (x : Float) : Prop where
  below : q < overflowThreshold
  sign : ∃ units, parts x = .finite negative units
  nearest : ∀ r, rational? x = some r → ∀ y s, rational? y = some s →
    |r - signed negative q| ≤ |s - signed negative q|
  even : ∀ r, rational? x = some r → ∀ y s, rational? y = some s → s ≠ r →
    |s - signed negative q| = |r - signed negative q| → x.toBits.toNat % 2 = 0

section Magnitudes

variable {m n : Nat}

theorem unitsOfMagnitude_field (m : Nat) : unitsOfMagnitude m =
    if m / 2 ^ 52 = 0 then m % 2 ^ 52 else (2 ^ 52 + m % 2 ^ 52) * 2 ^ (m / 2 ^ 52 - 1) := rfl

theorem unitsOfMagnitude_lt_two_pow (m : Nat) : unitsOfMagnitude m < 2 ^ 52 * 2 ^ (m / 2 ^ 52) := by
  have hm : m % 2 ^ 52 < 2 ^ 52 := Nat.mod_lt _ (by decide)
  rw [unitsOfMagnitude_field]
  split
  · rename_i hfield
    rw [hfield]
    omega
  · calc (2 ^ 52 + m % 2 ^ 52) * 2 ^ (m / 2 ^ 52 - 1)
        < 2 ^ 53 * 2 ^ (m / 2 ^ 52 - 1) :=
          Nat.mul_lt_mul_of_pos_right (by omega) (Nat.two_pow_pos _)
      _ = 2 ^ 52 * 2 ^ (m / 2 ^ 52 - 1 + 1) := by ring
      _ = 2 ^ 52 * 2 ^ (m / 2 ^ 52) := by rw [Nat.sub_add_cancel (by omega)]

theorem unitsOfMagnitude_strictMono : StrictMono unitsOfMagnitude := by
  intro m n h
  by_cases hfield : m / 2 ^ 52 = n / 2 ^ 52
  · have hfraction : m % 2 ^ 52 < n % 2 ^ 52 := by omega
    rw [unitsOfMagnitude_field, unitsOfMagnitude_field, hfield]
    split
    · exact hfraction
    · exact Nat.mul_lt_mul_of_pos_right (by omega) (Nat.two_pow_pos _)
  · have hless : m / 2 ^ 52 < n / 2 ^ 52 := by omega
    calc unitsOfMagnitude m < 2 ^ 52 * 2 ^ (m / 2 ^ 52) := unitsOfMagnitude_lt_two_pow m
      _ ≤ 2 ^ 52 * 2 ^ (n / 2 ^ 52 - 1) :=
        Nat.mul_le_mul_left _ (Nat.pow_le_pow_right (by decide) (by omega))
      _ ≤ (2 ^ 52 + n % 2 ^ 52) * 2 ^ (n / 2 ^ 52 - 1) := Nat.mul_le_mul_right _ (by omega)
      _ = unitsOfMagnitude n := by rw [unitsOfMagnitude_field, if_neg (by omega)]

theorem two_pow_dvd_units_or_lt (m shift : Nat) :
    2 ^ shift ∣ unitsOfMagnitude m ∨ unitsOfMagnitude m < 2 ^ 52 * 2 ^ shift := by
  rcases Nat.lt_or_ge shift (m / 2 ^ 52) with hfield | hfield
  · rw [unitsOfMagnitude_field, if_neg (by omega)]
    exact .inl (Dvd.dvd.mul_left (Nat.pow_dvd_pow 2 (by omega)) _)
  · have hbound := unitsOfMagnitude_lt_two_pow m
    exact .inr (hbound.trans_le (Nat.mul_le_mul_left _ (Nat.pow_le_pow_right (by decide) hfield)))

end Magnitudes

section Unclamped

variable {num den : Nat}

/-- The magnitude nearest to `num / den` units, were there no largest one. -/
def unclamped (num den : Nat) : Nat :=
  let shift := (num / den).log2 - 52
  shift * Nat.pow 2 52 + roundHalfEven num (den * Nat.pow 2 shift)

theorem nearest_eq_min (num den : Nat) :
    nearest num den = min infiniteMagnitude (unclamped num den) := rfl

theorem lt_shifted (num : Nat) (hden : 0 < den) :
    num < 2 ^ 53 * (den * 2 ^ ((num / den).log2 - 52)) := by
  have hquotient : num / den < 2 ^ 53 * 2 ^ ((num / den).log2 - 52) := by
    rw [← Nat.pow_add]
    exact Nat.lt_log2_self.trans_le (Nat.pow_le_pow_right (by decide) (by omega))
  rw [Nat.div_lt_iff_lt_mul hden] at hquotient
  linarith

theorem shifted_le (num : Nat) (hden : 0 < den) (hshift : (num / den).log2 - 52 ≠ 0) :
    2 ^ 52 * (den * 2 ^ ((num / den).log2 - 52)) ≤ num := by
  have hne : num / den ≠ 0 := by
    intro hzero
    rw [hzero] at hshift
    exact hshift rfl
  have hquotient : 2 ^ 52 * 2 ^ ((num / den).log2 - 52) ≤ num / den := by
    rw [← Nat.pow_add, Nat.add_sub_cancel' (by omega)]
    exact Nat.log2_self_le hne
  rw [Nat.le_div_iff_mul_le hden] at hquotient
  linarith

theorem unitsOfMagnitude_unclamped (num : Nat) (hden : 0 < den) :
    unitsOfMagnitude (unclamped num den) =
      roundHalfEven num (den * 2 ^ ((num / den).log2 - 52)) * 2 ^ ((num / den).log2 - 52) := by
  have hpos : 0 < den * 2 ^ ((num / den).log2 - 52) := Nat.mul_pos hden (Nat.two_pow_pos _)
  have hhi := roundHalfEven_le hpos (lt_shifted num hden).le
  unfold unclamped
  simp only [Nat.pow_eq]
  by_cases hlo : 2 ^ 52 ≤ roundHalfEven num (den * 2 ^ ((num / den).log2 - 52))
  · exact unitsOfMagnitude_shifted hlo hhi
  · -- a significand of less than 53 bits is not shifted
    have hshift : (num / den).log2 - 52 = 0 := by
      by_contra hshift
      exact hlo (le_roundHalfEven hpos (shifted_le num hden hshift))
    rw [hshift] at hlo ⊢
    generalize roundHalfEven num (den * 2 ^ 0) = significand at hlo ⊢
    rw [unitsOfMagnitude_field, if_pos (by omega)]
    omega

theorem roundHalfEven_tie {a b x : Nat} (hb : 0 < b) (hne : x ≠ roundHalfEven a b)
    (h : (((x * b : Nat) : Int) - a).natAbs = (((roundHalfEven a b * b : Nat) : Int) - a).natAbs) :
    roundHalfEven a b % 2 = 0 := by
  have hdiv : a / b * b + a % b = a := Nat.div_add_mod' a b
  have hmod : a % b < b := Nat.mod_lt a hb
  obtain ⟨hhi, hlo⟩ := roundHalfEven_near a hb
  -- two multiples at the same distance are one divisor apart
  have hhalf : 2 * (((roundHalfEven a b * b : Nat) : Int) - a).natAbs = b := by
    rcases Nat.lt_or_gt_of_ne hne with hlt | hgt
    · have hstep : (x + 1) * b ≤ roundHalfEven a b * b := Nat.mul_le_mul_right b hlt
      rw [Nat.add_one_mul] at hstep
      omega
    · have hstep : (roundHalfEven a b + 1) * b ≤ x * b := Nat.mul_le_mul_right b hgt
      rw [Nat.add_one_mul] at hstep
      omega
  unfold roundHalfEven at hhalf ⊢
  dsimp only at hhalf ⊢
  split at hhalf
  · omega
  split at hhalf
  · rw [Nat.add_one_mul (a / b)] at hhalf
    omega
  · rename_i hbelow habove
    rw [if_neg hbelow, if_neg habove]
    omega

def distance (num den m : Nat) : Nat := (((unitsOfMagnitude m * den : Nat) : Int) - num).natAbs

/-- Every other magnitude is farther away, or as far away and then the last bit is zero. -/
theorem unclamped_wins (hden : 0 < den) {m : Nat} (hne : m ≠ unclamped num den) :
    distance num den (unclamped num den) < distance num den m ∨
      (distance num den (unclamped num den) = distance num den m ∧ unclamped num den % 2 = 0) := by
  have hunits := unitsOfMagnitude_unclamped num hden
  have hother : unitsOfMagnitude m ≠ unitsOfMagnitude (unclamped num den) :=
    unitsOfMagnitude_strictMono.injective.ne hne
  have heven : unclamped num den % 2 =
      roundHalfEven num (den * 2 ^ ((num / den).log2 - 52)) % 2 := by
    unfold unclamped
    simp only [Nat.pow_eq]
    omega
  have hpos : 0 < den * 2 ^ ((num / den).log2 - 52) := Nat.mul_pos hden (Nat.two_pow_pos _)
  have hnearest (k : Nat) := roundHalfEven_nearest num k hpos
  have hstep := shifted_le num hden
  have hcases := two_pow_dvd_units_or_lt m ((num / den).log2 - 52)
  rw [distance, distance, heven, hunits, Nat.mul_assoc, Nat.mul_comm _ den]
  rw [hunits] at hother
  generalize (num / den).log2 - 52 = shift at *
  by_cases hdvd : 2 ^ shift ∣ unitsOfMagnitude m
  · obtain ⟨k, hk⟩ := hdvd
    have hk' : unitsOfMagnitude m * den = k * (den * 2 ^ shift) := by
      rw [hk]
      ring
    rw [hk']
    rcases Nat.lt_or_eq_of_le (hnearest k) with hlt | heq
    · exact .inl hlt
    · refine .inr ⟨heq, roundHalfEven_tie hpos ?_ heq.symm⟩
      rintro rfl
      rw [hk, Nat.mul_comm] at hother
      exact hother rfl
  · -- smaller than the leading bit, which is nearer
    have hshift : shift ≠ 0 := by
      rintro rfl
      exact hdvd (Nat.one_dvd _)
    have hless : unitsOfMagnitude m * den < 2 ^ 52 * (den * 2 ^ shift) := by
      have := Nat.mul_lt_mul_of_pos_right (hcases.resolve_left hdvd) hden
      linarith
    have hleading := hstep hshift
    have := hnearest (2 ^ 52)
    exact .inl (by omega)

theorem units_half_way :
    unitsOfMagnitude (infiniteMagnitude - 1) + unitsOfMagnitude infiniteMagnitude =
      2 * (overflowThreshold * unitsPerOne) := by
  decide +kernel

/-- Half-way infinity wins: its magnitude is even and the largest finite one is odd. -/
theorem unclamped_lt_infinite_iff (hden : 0 < den) :
    unclamped num den < infiniteMagnitude ↔ num < overflowThreshold * unitsPerOne * den := by
  have hodd : (infiniteMagnitude - 1) % 2 = 1 := by decide +kernel
  have hpos : 0 < infiniteMagnitude := by decide +kernel
  have hmono := unitsOfMagnitude_strictMono.monotone
  have hsum := congrArg (· * den) units_half_way
  have hstep := Nat.mul_lt_mul_of_pos_right
    (unitsOfMagnitude_strictMono (Nat.sub_one_lt_of_lt hpos)) hden
  simp only [Nat.add_mul, Nat.mul_assoc] at hsum
  rw [Nat.mul_assoc]
  constructor
  · intro hlt
    by_contra hlarge
    have hle := Nat.mul_le_mul_right den (hmono (Nat.le_sub_one_of_lt hlt))
    rcases unclamped_wins hden hlt.ne' with hwins | ⟨htie, heven⟩
    · unfold distance at hwins
      omega
    -- a tie with infinity is one of the largest finite magnitude, and that is odd
    · have hunits : unitsOfMagnitude (unclamped num den) * den =
          unitsOfMagnitude (infiniteMagnitude - 1) * den := by
        unfold distance at htie
        omega
      have hlast := unitsOfMagnitude_strictMono.injective (Nat.eq_of_mul_eq_mul_right hden hunits)
      omega
  · intro hsmall
    by_contra hge
    have hle := Nat.mul_le_mul_right den (hmono (Nat.not_lt.1 hge))
    have hother : infiniteMagnitude - 1 ≠ unclamped num den := by omega
    rcases unclamped_wins hden hother with hwins | ⟨htie, -⟩
    · unfold distance at hwins
      omega
    · unfold distance at htie
      omega

end Unclamped

section Values

variable {num den m n : Nat} {negative : Bool} {q r : ℚ} {x y : Float}

def valueOf (m : Nat) : ℚ := unitsOfMagnitude m / unitsPerOne

theorem valueOf_strictMono : StrictMono valueOf := by
  intro m n h
  have hone : (0 : ℚ) < unitsPerOne := Nat.cast_pos.2 unitsPerOne_pos
  exact div_lt_div_of_pos_right (Nat.cast_lt.2 (unitsOfMagnitude_strictMono h)) hone

theorem valueOf_zero : valueOf 0 = 0 := by
  have hunits : unitsOfMagnitude 0 = 0 := rfl
  rw [valueOf, hunits, Nat.cast_zero, zero_div]

theorem valueOf_nonneg (m : Nat) : 0 ≤ valueOf m :=
  div_nonneg (Nat.cast_nonneg _) (Nat.cast_nonneg _)

theorem abs_valueOf_sub (hden : 0 < den) (m : Nat) :
    |valueOf m - num / (den * unitsPerOne)| = distance num den m / (den * unitsPerOne) := by
  have hone : (0 : ℚ) < unitsPerOne := Nat.cast_pos.2 unitsPerOne_pos
  have hden' : (0 : ℚ) < den := Nat.cast_pos.2 hden
  have hquotient : valueOf m - num / (den * unitsPerOne) =
      (unitsOfMagnitude m * den - num) / (den * unitsPerOne) := by
    rw [valueOf]
    field_simp
  rw [hquotient, abs_div, abs_of_pos (mul_pos hden' hone), distance, Nat.cast_natAbs, Int.cast_abs]
  push_cast
  rfl

theorem valueOf_wins (hden : 0 < den) (hne : m ≠ unclamped num den) :
    |valueOf (unclamped num den) - num / (den * unitsPerOne)| <
        |valueOf m - num / (den * unitsPerOne)| ∨
      (|valueOf (unclamped num den) - num / (den * unitsPerOne)| =
        |valueOf m - num / (den * unitsPerOne)| ∧ unclamped num den % 2 = 0) := by
  have hone : (0 : ℚ) < den * unitsPerOne :=
    mul_pos (Nat.cast_pos.2 hden) (Nat.cast_pos.2 unitsPerOne_pos)
  rw [abs_valueOf_sub hden, abs_valueOf_sub hden, div_lt_div_iff_of_pos_right hone, Nat.cast_lt]
  rcases unclamped_wins hden hne with hlt | ⟨heq, heven⟩
  · exact .inl hlt
  · exact .inr ⟨by rw [heq], heven⟩

theorem valueOf_nearest (num : Nat) (hden : 0 < den) (m : Nat) :
    |valueOf (unclamped num den) - num / (den * unitsPerOne)| ≤
      |valueOf m - num / (den * unitsPerOne)| := by
  by_cases hm : m = unclamped num den
  · rw [hm]
  · rcases valueOf_wins hden hm with hlt | ⟨heq, -⟩
    · exact hlt.le
    · exact heq.le

theorem signed_sub_signed (negative : Bool) (q r : ℚ) :
    |signed negative q - signed negative r| = |q - r| := by
  cases negative with
  | false => simp [signed]
  | true =>
    rw [← abs_neg]
    congr 1
    simp only [signed, if_true]
    ring

theorem abs_signed (negative : Bool) (h : 0 ≤ q) : |signed negative q| = q := by
  cases negative <;> simp [signed, abs_of_nonneg h]

theorem abs_sub_le_signed (negative other : Bool) (hq : 0 ≤ q) (hr : 0 ≤ r) :
    |q - r| ≤ |signed negative q - signed other r| := by
  have h := abs_abs_sub_abs_le (signed negative q) (signed other r)
  rwa [abs_signed negative hq, abs_signed other hr] at h

theorem signed_not_sub_signed (negative : Bool) (hq : 0 ≤ q) (hr : 0 ≤ r) :
    |signed (!negative) q - signed negative r| = q + r := by
  rw [← abs_of_nonneg (add_nonneg hq hr)]
  cases negative with
  | false =>
    rw [← abs_neg]
    congr 1
    simp only [signed, Bool.not_false, if_true, Bool.false_eq_true, if_false]
    ring
  | true =>
    congr 1
    simp only [signed, Bool.not_true, if_true, Bool.false_eq_true, if_false]
    ring

theorem rational?_ofMagnitude (negative : Bool) (h : m < infiniteMagnitude) :
    rational? (ofMagnitude negative m) = some (signed negative (valueOf m)) := by
  rw [rational?, parts_ofMagnitude negative h.le, if_neg h.ne]
  rfl

theorem exists_magnitude {units : Nat} (h : parts x = .finite negative units) :
    ∃ m, m < infiniteMagnitude ∧ x = ofMagnitude negative m := by
  have hx := ofMagnitude_of_parts h
  have hle : nearest units 1 ≤ infiniteMagnitude := Nat.min_le_left ..
  refine ⟨nearest units 1, Nat.lt_of_le_of_ne hle fun heq => ?_, hx.symm⟩
  rw [← hx, parts_ofMagnitude negative hle, if_pos heq] at h
  cases h

theorem exists_magnitude_of_rational? (h : rational? x = some r) :
    ∃ negative m, m < infiniteMagnitude ∧ x = ofMagnitude negative m ∧
      r = signed negative (valueOf m) := by
  have hx := h
  unfold rational? at hx
  split at hx
  · rename_i negative units hparts
    obtain ⟨m, hm, rfl⟩ := exists_magnitude hparts
    rw [rational?_ofMagnitude negative hm] at h
    exact ⟨negative, m, hm, rfl, (Option.some.inj h).symm⟩
  · cases hx

theorem toBits_mod_two (negative : Bool) (h : m ≤ infiniteMagnitude) :
    (ofMagnitude negative m).toBits.toNat % 2 = m % 2 := by
  have hpow : Nat.pow 2 63 = 2 ^ 63 := rfl
  rw [toNat_toBits_ofMagnitude negative h, hpow]
  split <;> omega

theorem div_lt_threshold_iff (hden : 0 < den) :
    (num : ℚ) / (den * unitsPerOne) < overflowThreshold ↔
      num < overflowThreshold * unitsPerOne * den := by
  have hone : (0 : ℚ) < den * unitsPerOne :=
    mul_pos (Nat.cast_pos.2 hden) (Nat.cast_pos.2 unitsPerOne_pos)
  rw [div_lt_iff₀ hone, mul_comm (den : ℚ), ← mul_assoc]
  norm_cast

theorem roundsTo_nearest (negative : Bool) (hden : 0 < den)
    (h : num < overflowThreshold * unitsPerOne * den) :
    RoundsTo negative (num / (den * unitsPerOne)) (ofMagnitude negative (nearest num den)) := by
  have hfinite := (unclamped_lt_infinite_iff hden).2 h
  have hq : (0 : ℚ) ≤ num / (den * unitsPerOne) :=
    div_nonneg (Nat.cast_nonneg _) (mul_nonneg (Nat.cast_nonneg _) (Nat.cast_nonneg _))
  have hwins {m : Nat} (hm : m ≠ unclamped num den) := valueOf_wins hden hm
  have hnearest (m : Nat) := valueOf_nearest num hden m
  have hbelow := (div_lt_threshold_iff hden).2 h
  rw [nearest_eq_min, Nat.min_eq_right hfinite.le]
  generalize unclamped num den = best at hfinite hwins hnearest ⊢
  generalize (num : ℚ) / (den * unitsPerOne) = q at hq hwins hnearest hbelow ⊢
  have hbest := rational?_ofMagnitude negative hfinite
  refine ⟨hbelow, ?_, fun r hr y s hs => ?_, fun r hr y s hs hne htie => ?_⟩
  · rw [parts_ofMagnitude negative hfinite.le, if_neg hfinite.ne]
    exact ⟨_, rfl⟩
  · obtain rfl := Option.some.inj (hbest.symm.trans hr)
    obtain ⟨other, m, hm, rfl, rfl⟩ := exists_magnitude_of_rational? hs
    rw [signed_sub_signed]
    exact (hnearest m).trans (abs_sub_le_signed other negative (valueOf_nonneg m) hq)
  · obtain rfl := Option.some.inj (hbest.symm.trans hr)
    obtain ⟨other, m, hm, rfl, rfl⟩ := exists_magnitude_of_rational? hs
    rw [signed_sub_signed] at htie
    have hfar := abs_sub_le_signed other negative (valueOf_nonneg m) hq
    rw [htie] at hfar
    rw [toBits_mod_two negative hfinite.le]
    by_cases hm' : m = best
    · -- only the sign differs, and zero lies between
      rw [hm'] at hne htie
      have hother : other = !negative := Bool.eq_not.2 fun hsame => hne (by rw [hsame])
      have hzero := hnearest 0
      rw [valueOf_zero, zero_sub, abs_neg, abs_of_nonneg hq, ← htie, hother,
        signed_not_sub_signed negative (valueOf_nonneg best) hq] at hzero
      have hvalue : valueOf best = 0 := le_antisymm (by linarith) (valueOf_nonneg best)
      exact absurd (by rw [hvalue, signed, signed, mul_zero, mul_zero]) hne
    · rcases hwins hm' with hlt | ⟨-, heven⟩
      · exact absurd hlt hfar.not_gt
      · exact heven

theorem abs_sub_lt_of_between {a b c : ℚ} (hab : a < b) (hbc : b < c) (h : |a - q| = |c - q|) :
    |b - q| < |a - q| := by
  have hlo := neg_abs_le (a - q)
  have hhi := le_abs_self (c - q)
  exact abs_lt.2 ⟨by linarith, by linarith⟩

theorem RoundsTo.not_lt (hm : m < infiniteMagnitude) (hn : n < infiniteMagnitude)
    (hx : RoundsTo negative q (ofMagnitude negative m))
    (hy : RoundsTo negative q (ofMagnitude negative n)) : ¬ m < n := by
  intro hlt
  have hrm := rational?_ofMagnitude negative hm
  have hrn := rational?_ofMagnitude negative hn
  have hne : signed negative (valueOf m) ≠ signed negative (valueOf n) := by
    intro heq
    have hzero := signed_sub_signed negative (valueOf m) (valueOf n)
    rw [heq, sub_self, abs_zero, eq_comm, abs_eq_zero, sub_eq_zero] at hzero
    exact (valueOf_strictMono hlt).ne hzero
  have htie := le_antisymm (hx.nearest _ hrm _ _ hrn) (hy.nearest _ hrn _ _ hrm)
  have hevenm := hx.even _ hrm _ _ hrn hne.symm htie.symm
  have hevenn := hy.even _ hrn _ _ hrm hne htie
  rw [toBits_mod_two negative hm.le] at hevenm
  rw [toBits_mod_two negative hn.le] at hevenn
  -- between two even magnitudes there is an odd one, and its value is nearer
  have hbetween := hx.nearest _ hrm _ _
    (rational?_ofMagnitude negative (by omega : m + 1 < infiniteMagnitude))
  have hlo := valueOf_strictMono (Nat.lt_succ_self m)
  have hhi := valueOf_strictMono (by omega : m + 1 < n)
  simp only [signed_sub_signed] at htie hbetween
  exact hbetween.not_gt (abs_sub_lt_of_between hlo hhi htie)

theorem RoundsTo.unique (hx : RoundsTo negative q x) (hy : RoundsTo negative q y) : x = y := by
  obtain ⟨_, hpx⟩ := hx.sign
  obtain ⟨_, hpy⟩ := hy.sign
  obtain ⟨m, hm, rfl⟩ := exists_magnitude hpx
  obtain ⟨n, hn, rfl⟩ := exists_magnitude hpy
  have hge := hx.not_lt hm hn hy
  have hle := hy.not_lt hn hm hx
  rw [Nat.le_antisymm (Nat.not_lt.1 hle) (Nat.not_lt.1 hge)]

end Values

namespace Decimal

variable {negative : Bool} {x : Float}

def rational (d : Decimal) : ℚ := d.coefficient * 10 ^ d.exponent

theorem rational_eq_div (d : Decimal) :
    d.rational = (d.coefficient * Nat.pow 10 d.exponent.toNat * unitsPerOne : Nat) /
      ((Nat.pow 10 (-d.exponent).toNat : Nat) * unitsPerOne) := by
  have hone : (unitsPerOne : ℚ) ≠ 0 := Nat.cast_ne_zero.2 unitsPerOne_pos.ne'
  have hpower : (10 : ℚ) ^ d.exponent = 10 ^ d.exponent.toNat / 10 ^ (-d.exponent).toNat := by
    rw [← zpow_natCast, ← zpow_natCast, ← zpow_sub₀ (by norm_num)]
    congr 1
    omega
  rw [Nat.cast_mul, mul_div_mul_right _ _ hone, rational, hpower, Nat.pow_eq, Nat.pow_eq]
  push_cast
  ring

theorem toDouble_eq (negative : Bool) (d : Decimal) :
    d.toDouble negative = ofMagnitude negative
      (nearest (d.coefficient * Nat.pow 10 d.exponent.toNat * unitsPerOne)
        (Nat.pow 10 (-d.exponent).toNat)) := by
  rw [toDouble, magnitude_eq]

theorem isFinite_toDouble_iff (negative : Bool) (d : Decimal) :
    (d.toDouble negative).isFinite = true ↔ d.rational < overflowThreshold := by
  have hden : 0 < Nat.pow 10 (-d.exponent).toNat := Nat.pow_pos (by decide)
  rw [rational_eq_div, div_lt_threshold_iff hden, ← unclamped_lt_infinite_iff hden, isFinite_iff,
    toDouble_eq, nearest_eq_min, parts_ofMagnitude negative (Nat.min_le_left ..)]
  split
  · rename_i hinfinite
    have hge := min_eq_left_iff.1 hinfinite
    refine iff_of_false ?_ (Nat.not_lt.2 hge)
    rintro ⟨_, _, h⟩
    cases h
  · rename_i hfinite
    exact iff_of_true ⟨_, _, rfl⟩ (Nat.not_le.1 (mt Nat.min_eq_left hfinite))

/-- A decimal is read as what its value is rounded to. -/
theorem roundsTo_iff (d : Decimal) :
    RoundsTo negative d.rational x ↔ d.toDouble negative = x ∧ x.isFinite = true := by
  have hden : 0 < Nat.pow 10 (-d.exponent).toNat := Nat.pow_pos (by decide)
  have hrounds (h : d.rational < overflowThreshold) :
      RoundsTo negative d.rational (d.toDouble negative) := by
    rw [rational_eq_div, div_lt_threshold_iff hden] at h
    rw [rational_eq_div, toDouble_eq]
    exact roundsTo_nearest negative hden h
  constructor
  · intro hx
    obtain rfl := hx.unique (hrounds hx.below)
    exact ⟨rfl, (isFinite_toDouble_iff negative d).2 hx.below⟩
  · rintro ⟨rfl, hfinite⟩
    exact hrounds ((isFinite_toDouble_iff negative d).1 hfinite)

end Decimal

end NumberedBasic.Double
