import Mathlib
import NumberedBasic.Double.Decimal
import NumberedBasic.Proofs.Doubles

set_option autoImplicit false

/-!
# Whole numbers as doubles

A double has a significand of 53 bits, so beyond `2 ^ 53` not every whole number is one. A numeral
of a whole number is read as a nearest one that is (`integer?_whole`, `nearestWhole_rounded`), and as
the number itself exactly if it is one (`representable_iff`).

That a double is determined by its bits is `Float.ofBits_toBits`, which no single file of the library
brings along; so all of it is imported here.
-/
namespace NumberedBasic.Double
open Float.Model Float.Model.UnpackedFloat

def overflowBound : Nat := Nat.pow 2 1024

/-- A whole number that a double can be: 53 bits, shifted. -/
def Representable (n : Nat) : Prop :=
  n < overflowBound ∧ ∃ m e, m < Nat.pow 2 53 ∧ n = m * Nat.pow 2 e

structure NearestWhole (n r : Nat) : Prop where
  representable : Representable r
  nearest : ∀ m, Representable m → ((r : Int) - n).natAbs ≤ ((m : Int) - n).natAbs

/-- A number rounded to its 53 leading bits; of two equally near ones, to the even one. -/
def rounded (n : Nat) : Nat :=
  roundHalfEven n (Nat.pow 2 (n.log2 - 52)) * Nat.pow 2 (n.log2 - 52)

theorem toBits_ofBits {b : UInt64} (h : b.toNat % Nat.pow 2 63 ≤ infiniteMagnitude) :
    (Float.ofBits b).toBits = b := by
  have hvalid : Format.binary64.Valid b.toBitVec := by
    refine ⟨fun he hm => absurd ?_ hm⟩
    have hexponent : b.toNat / Nat.pow 2 52 % Nat.pow 2 11 = 2047 :=
      (unpackExponent_bits_iff b (-1#11)).1 he
    apply (unpackMantissa_bits_iff b).2
    change b.toNat % 2 ^ 63 ≤ 2047 * 2 ^ 52 at h
    change b.toNat / 2 ^ 52 % 2 ^ 11 = 2047 at hexponent
    change b.toNat % 2 ^ 52 = 0
    omega
  exact congrArg Float.toBits (Float.ofBits_toBits ⟨⟨b, hvalid⟩⟩)

theorem toNat_toBits_ofMagnitude (negative : Bool) {m : Nat} (h : m ≤ infiniteMagnitude) :
    (ofMagnitude negative m).toBits.toNat = if negative then Nat.pow 2 63 + m else m := by
  have hm : m ≤ 2047 * 2 ^ 52 := h
  have hpow : Nat.pow 2 63 = 2 ^ 63 := rfl
  have hlt : (if negative then Nat.pow 2 63 + m else m) < 2 ^ 64 := by
    rw [hpow]
    split <;> omega
  have hmod : (if negative then Nat.pow 2 63 + m else m) % Nat.pow 2 63 = m := by
    rw [hpow]
    split <;> omega
  have hnat := UInt64.toNat_ofNat_of_lt' hlt
  rw [ofMagnitude, toBits_ofBits, hnat]
  rw [hnat, hmod]
  exact h

theorem parts_ofMagnitude (negative : Bool) {m : Nat} (h : m ≤ infiniteMagnitude) :
    parts (ofMagnitude negative m) =
      if m = infiniteMagnitude then .infinite negative
      else .finite negative (unitsOfMagnitude m) := by
  have hm : m < 2 ^ 63 := Nat.lt_of_le_of_lt h (by decide)
  have hpow : Nat.pow 2 63 = 2 ^ 63 := rfl
  have hbits := toNat_toBits_ofMagnitude negative h
  unfold parts
  cases negative with
  | true =>
    rw [if_pos rfl, hpow] at hbits
    have hmod : (2 ^ 63 + m) % 2 ^ 63 = m := by omega
    simp only [hbits, hpow, hmod, if_neg (Nat.not_lt.2 h), Nat.le_add_right, decide_true]
  | false =>
    rw [if_neg Bool.false_ne_true] at hbits
    simp only [hbits, hpow, Nat.mod_eq_of_lt hm, if_neg (Nat.not_lt.2 h),
      decide_eq_false (Nat.not_le.2 hm)]

section Rounding

variable {a b c : Nat}

theorem roundHalfEven_mul_right (a b : Nat) (hc : 0 < c) :
    roundHalfEven (a * c) (b * c) = roundHalfEven a b := by
  have hbelow : 2 * (a % b * c) < b * c ↔ 2 * (a % b) < b := by
    rw [← Nat.mul_assoc]
    exact Nat.mul_lt_mul_right hc
  have habove : b * c < 2 * (a % b * c) ↔ b < 2 * (a % b) := by
    rw [← Nat.mul_assoc]
    exact Nat.mul_lt_mul_right hc
  unfold roundHalfEven
  simp only [Nat.mul_div_mul_right _ _ hc, Nat.mul_mod_mul_right, hbelow, habove]

theorem roundHalfEven_mul_self (a : Nat) (hb : 0 < b) : roundHalfEven (a * b) b = a := by
  simp [roundHalfEven, hb]

theorem roundHalfEven_near (a : Nat) (hb : 0 < b) :
    2 * (roundHalfEven a b * b) ≤ 2 * a + b ∧ 2 * a ≤ 2 * (roundHalfEven a b * b) + b := by
  have hdiv : a / b * b + a % b = a := Nat.div_add_mod' a b
  have hmod : a % b < b := Nat.mod_lt a hb
  unfold roundHalfEven
  dsimp only
  split
  · omega
  split
  · rw [Nat.add_one_mul (a / b)]
    omega
  · -- a tie: both neighbours are off by a half
    rcases Nat.mod_two_eq_zero_or_one (a / b) with hq | hq
    · rw [hq, Nat.add_zero]
      omega
    · rw [hq, Nat.add_one_mul (a / b)]
      omega

theorem le_roundHalfEven (hb : 0 < b) (h : c * b ≤ a) : c ≤ roundHalfEven a b := by
  obtain ⟨-, hnear⟩ := roundHalfEven_near a hb
  by_contra hlt
  have hstep : (roundHalfEven a b + 1) * b ≤ c * b := Nat.mul_le_mul_right b (Nat.not_le.1 hlt)
  rw [Nat.add_one_mul] at hstep
  omega

theorem roundHalfEven_le (hb : 0 < b) (h : a ≤ c * b) : roundHalfEven a b ≤ c := by
  obtain ⟨hnear, -⟩ := roundHalfEven_near a hb
  by_contra hlt
  have hstep : (c + 1) * b ≤ roundHalfEven a b * b := Nat.mul_le_mul_right b (Nat.not_le.1 hlt)
  rw [Nat.add_one_mul] at hstep
  omega

theorem roundHalfEven_nearest (a x : Nat) (hb : 0 < b) :
    (((roundHalfEven a b * b : Nat) : Int) - a).natAbs ≤ (((x * b : Nat) : Int) - a).natAbs := by
  obtain ⟨hhi, hlo⟩ := roundHalfEven_near a hb
  rcases Nat.lt_trichotomy x (roundHalfEven a b) with hlt | heq | hlt
  · have hstep : (x + 1) * b ≤ roundHalfEven a b * b := Nat.mul_le_mul_right b hlt
    rw [Nat.add_one_mul] at hstep
    omega
  · rw [heq]
  · have hstep : (roundHalfEven a b + 1) * b ≤ x * b := Nat.mul_le_mul_right b hlt
    rw [Nat.add_one_mul] at hstep
    omega

end Rounding

section Significands

variable {shift q : Nat}

/-- The sum of a shift and a significand of 53 bits stands for the shifted significand, also if
rounding has carried it over to 54 bits. -/
theorem unitsOfMagnitude_shifted (hlo : 2 ^ 52 ≤ q) (hhi : q ≤ 2 ^ 53) :
    unitsOfMagnitude (shift * 2 ^ 52 + q) = q * 2 ^ shift := by
  have hpow : Nat.pow 2 52 = 2 ^ 52 := rfl
  unfold unitsOfMagnitude
  simp only [hpow]
  by_cases hq : q = 2 ^ 53
  · have hfield : (shift * 2 ^ 52 + q) / 2 ^ 52 = shift + 2 := by omega
    have hfraction : (shift * 2 ^ 52 + q) % 2 ^ 52 = 0 := by omega
    rw [hfield, hfraction, if_neg (by omega), hq]
    change 2 ^ 52 * 2 ^ (shift + 1) = 2 ^ 53 * 2 ^ shift
    ring
  · have hfield : (shift * 2 ^ 52 + q) / 2 ^ 52 = shift + 1 := by omega
    have hfraction : 2 ^ 52 + (shift * 2 ^ 52 + q) % 2 ^ 52 = q := by omega
    rw [hfield, hfraction, if_neg (by omega), Nat.add_sub_cancel, Nat.pow_eq]

theorem shifted_lt_iff (hlo : 2 ^ 52 ≤ q) (hhi : q ≤ 2 ^ 53) (top : Nat) :
    shift * 2 ^ 52 + q < (top + 2) * 2 ^ 52 ↔ q * 2 ^ shift < 2 ^ (53 + top) := by
  rcases Nat.lt_trichotomy shift top with hlt | rfl | hgt
  · have hunits : q * 2 ^ shift < 2 ^ (53 + top) := calc
      q * 2 ^ shift ≤ 2 ^ 53 * 2 ^ shift := Nat.mul_le_mul_right _ hhi
      _ = 2 ^ (53 + shift) := (Nat.pow_add ..).symm
      _ < 2 ^ (53 + top) := Nat.pow_lt_pow_right (by decide) (by omega)
    exact iff_of_true (by omega) hunits
  · rw [Nat.pow_add, Nat.mul_lt_mul_right (Nat.two_pow_pos _)]
    omega
  · have hunits : 2 ^ (53 + top) ≤ q * 2 ^ shift := calc
      2 ^ (53 + top) ≤ 2 ^ (52 + shift) := Nat.pow_le_pow_right (by decide) (by omega)
      _ = 2 ^ 52 * 2 ^ shift := Nat.pow_add ..
      _ ≤ q * 2 ^ shift := Nat.mul_le_mul_right _ hlo
    exact iff_of_false (by omega) (Nat.not_lt.2 hunits)

end Significands

section Rounded

variable {n : Nat}

theorem log2_mul_two_pow (hn : n ≠ 0) (k : Nat) : (n * 2 ^ k).log2 = n.log2 + k := by
  have hpos : n * 2 ^ k ≠ 0 := Nat.mul_ne_zero hn (Nat.two_pow_pos k).ne'
  refine (Nat.log2_eq_iff hpos).2 ⟨?_, ?_⟩
  · rw [Nat.pow_add]
    exact Nat.mul_le_mul_right _ (Nat.log2_self_le hn)
  · rw [Nat.add_right_comm, Nat.pow_add]
    exact Nat.mul_lt_mul_of_pos_right Nat.lt_log2_self (Nat.two_pow_pos k)

theorem rounded_of_dvd (h : 2 ^ (n.log2 - 52) ∣ n) : rounded n = n := by
  obtain ⟨q, hq⟩ := h
  have hround := roundHalfEven_mul_self q (Nat.two_pow_pos (n.log2 - 52))
  rw [Nat.mul_comm q, ← hq] at hround
  simp only [rounded, Nat.pow_eq, hround]
  rw [Nat.mul_comm, ← hq]

theorem log2_le_of_lt (h : n < 2 ^ 53) : n.log2 ≤ 52 := by
  rcases Nat.eq_zero_or_pos n with rfl | hpos
  · decide
  · exact Nat.le_of_lt_succ ((Nat.log2_lt hpos.ne').2 h)

theorem rounded_of_lt (h : n < 2 ^ 53) : rounded n = n := by
  apply rounded_of_dvd
  rw [Nat.sub_eq_zero_of_le (log2_le_of_lt h)]
  exact Nat.one_dvd n

/-- Rounding keeps the 53 leading bits, so it does not see zeros that follow them. -/
theorem rounded_mul_two_pow (n k : Nat) : rounded (n * 2 ^ k) = rounded n * 2 ^ k := by
  rcases Nat.eq_zero_or_pos n with rfl | hpos
  · simp [rounded_of_lt]
  have hlog := log2_mul_two_pow hpos.ne' k
  by_cases hl : 52 ≤ n.log2
  · have hshift : n.log2 + k - 52 = n.log2 - 52 + k := by omega
    simp only [rounded, Nat.pow_eq, hlog, hshift, Nat.pow_add,
      roundHalfEven_mul_right _ _ (Nat.two_pow_pos k), Nat.mul_assoc]
  · have hsmall : n < 2 ^ 53 := by
      have := (Nat.log2_lt hpos.ne').1 (Nat.not_le.1 hl)
      omega
    rw [rounded_of_lt hsmall]
    apply rounded_of_dvd
    rw [hlog]
    exact Dvd.dvd.mul_left (Nat.pow_dvd_pow 2 (by omega)) n

theorem significand_bounds (h : 2 ^ 52 ≤ n) :
    2 ^ 52 ≤ roundHalfEven n (2 ^ (n.log2 - 52)) ∧
      roundHalfEven n (2 ^ (n.log2 - 52)) ≤ 2 ^ 53 := by
  have hne : n ≠ 0 := by omega
  have hlog : 52 ≤ n.log2 := (Nat.le_log2 hne).2 h
  constructor
  · apply le_roundHalfEven (Nat.two_pow_pos _)
    rw [← Nat.pow_add, Nat.add_sub_cancel' hlog]
    exact Nat.log2_self_le hne
  · apply roundHalfEven_le (Nat.two_pow_pos _)
    rw [← Nat.pow_add, show 53 + (n.log2 - 52) = n.log2 + 1 by omega]
    exact Nat.lt_log2_self.le

def unboundedMagnitude (units : Nat) : Nat :=
  (units.log2 - 52) * Nat.pow 2 52 + roundHalfEven units (Nat.pow 2 (units.log2 - 52))

section Magnitudes

variable {units : Nat}

theorem unboundedMagnitude_of_lt (h : units < 2 ^ 52) : unboundedMagnitude units = units := by
  have hshift : units.log2 - 52 = 0 := Nat.sub_eq_zero_of_le (log2_le_of_lt (by omega))
  have hround := roundHalfEven_mul_self units Nat.one_pos
  rw [Nat.mul_one] at hround
  rw [unboundedMagnitude, hshift, Nat.zero_mul, Nat.zero_add]
  exact hround

theorem unitsOfMagnitude_unbounded (units : Nat) :
    unitsOfMagnitude (unboundedMagnitude units) = rounded units := by
  by_cases hsmall : units < 2 ^ 52
  · have hfield : units / Nat.pow 2 52 = 0 := Nat.div_eq_of_lt hsmall
    have hfraction : units % Nat.pow 2 52 = units := Nat.mod_eq_of_lt hsmall
    rw [unboundedMagnitude_of_lt hsmall, rounded_of_lt (by omega), unitsOfMagnitude, if_pos hfield,
      hfraction]
  · obtain ⟨hlo, hhi⟩ := significand_bounds (Nat.not_lt.1 hsmall)
    simp only [unboundedMagnitude, rounded, Nat.pow_eq, unitsOfMagnitude_shifted hlo hhi]

theorem unboundedMagnitude_lt_iff (units top : Nat) :
    unboundedMagnitude units < (top + 2) * 2 ^ 52 ↔ rounded units < 2 ^ (53 + top) := by
  by_cases hsmall : units < 2 ^ 52
  · have hpow : 2 ^ 53 ≤ 2 ^ (53 + top) := Nat.pow_le_pow_right (by decide) (by omega)
    rw [unboundedMagnitude_of_lt hsmall, rounded_of_lt (by omega)]
    omega
  · obtain ⟨hlo, hhi⟩ := significand_bounds (Nat.not_lt.1 hsmall)
    simp only [unboundedMagnitude, rounded, Nat.pow_eq, shifted_lt_iff hlo hhi]

theorem unitsPerOne_two_pow : ∃ k, unitsPerOne = 2 ^ k := by
  have hpow (k : Nat) : ∃ j, Nat.pow 2 k = 2 ^ j := ⟨k, rfl⟩
  apply hpow

theorem unitsPerOne_pos : 0 < unitsPerOne := by
  obtain ⟨k, hk⟩ := unitsPerOne_two_pow
  rw [hk]
  exact Nat.two_pow_pos k

theorem overflowBound_units : overflowBound * unitsPerOne = 2 ^ (53 + 2045) := by
  have hpow (a b c : Nat) (h : a + b = c) : Nat.pow 2 a * Nat.pow 2 b = 2 ^ c := by
    rw [← h, Nat.pow_add, Nat.pow_eq, Nat.pow_eq]
  apply hpow
  rfl

theorem nearest_one (units : Nat) :
    nearest units 1 = min infiniteMagnitude (unboundedMagnitude units) := by
  simp only [nearest, unboundedMagnitude, Nat.div_one, Nat.one_mul]

theorem unboundedMagnitude_lt_infinite_iff (units : Nat) :
    unboundedMagnitude units < infiniteMagnitude ↔ rounded units < overflowBound * unitsPerOne := by
  rw [overflowBound_units]
  exact unboundedMagnitude_lt_iff units 2045

/-- The nearest double to a number of units has the rounded number of them, or is infinite. -/
theorem parts_nearest (negative : Bool) (units : Nat) :
    parts (ofMagnitude negative (nearest units 1)) =
      if rounded units < overflowBound * unitsPerOne then .finite negative (rounded units)
      else .infinite negative := by
  have hle : nearest units 1 ≤ infiniteMagnitude := nearest_one units ▸ Nat.min_le_left ..
  have hlt := unboundedMagnitude_lt_infinite_iff units
  rw [parts_ofMagnitude negative hle, nearest_one]
  by_cases hfinite : rounded units < overflowBound * unitsPerOne
  · have hm := hlt.2 hfinite
    rw [Nat.min_eq_right hm.le, if_neg hm.ne, if_pos hfinite, unitsOfMagnitude_unbounded]
  · have hm := Nat.not_lt.1 (mt hlt.1 hfinite)
    rw [Nat.min_eq_left hm, if_pos rfl, if_neg hfinite]

end Magnitudes

theorem integer?_whole (n : Nat) :
    integer? (Decimal.toDouble false ⟨n, 0⟩) =
      if rounded n < overflowBound then some (rounded n : Int) else none := by
  have hrounded : rounded (n * unitsPerOne) = rounded n * unitsPerOne := by
    obtain ⟨k, hk⟩ := unitsPerOne_two_pow
    rw [hk, rounded_mul_two_pow]
  have hbound := Nat.mul_lt_mul_right (b := rounded n) (c := overflowBound) unitsPerOne_pos
  have hwhole : (⟨n, 0⟩ : Decimal).magnitude = nearest (n * unitsPerOne) 1 :=
    Decimal.magnitude_eq_nearest n 0
  rw [integer?, Decimal.toDouble, hwhole, parts_nearest, hrounded]
  by_cases hfinite : rounded n < overflowBound
  · simp only [if_pos (hbound.2 hfinite), if_pos hfinite, Nat.mul_mod_left, if_true,
      Nat.mul_div_cancel _ unitsPerOne_pos, Bool.false_eq_true, if_false]
  · simp only [if_neg (mt hbound.1 hfinite), if_neg hfinite]

theorem representable_of_le {q e : Nat} (hq : q ≤ 2 ^ 53) (hbound : q * 2 ^ e < overflowBound) :
    Representable (q * 2 ^ e) := by
  refine ⟨hbound, ?_⟩
  rcases Nat.lt_or_eq_of_le hq with hlt | rfl
  · exact ⟨q, e, hlt, rfl⟩
  · exact ⟨1, 53 + e, by decide, by rw [Nat.one_mul, ← Nat.pow_add]; rfl⟩

theorem representable_rounded (h : rounded n < overflowBound) : Representable (rounded n) := by
  by_cases hsmall : n < 2 ^ 53
  · rw [rounded_of_lt hsmall] at h ⊢
    exact ⟨h, n, 0, hsmall, (Nat.mul_one n).symm⟩
  · simp only [rounded, Nat.pow_eq] at h ⊢
    exact representable_of_le (significand_bounds (by omega)).2 h

theorem representable_iff : Representable n ↔ rounded n = n ∧ n < overflowBound := by
  constructor
  · rintro ⟨hbound, m, e, hm, rfl⟩
    have hround := rounded_mul_two_pow m e
    rw [rounded_of_lt hm] at hround
    exact ⟨hround, hbound⟩
  · rintro ⟨hround, hbound⟩
    rw [← hround] at hbound ⊢
    exact representable_rounded hbound

theorem shifted_le_leading {x e : Nat} (hx : x < 2 ^ 53) (he : e < n.log2 - 52) :
    x * 2 ^ e ≤ 2 ^ 52 * 2 ^ (n.log2 - 52) := calc
  x * 2 ^ e ≤ 2 ^ 53 * 2 ^ e := Nat.mul_le_mul_right _ hx.le
  _ = 2 ^ 52 * 2 ^ (e + 1) := by ring
  _ ≤ 2 ^ 52 * 2 ^ (n.log2 - 52) := Nat.mul_le_mul_left _ (Nat.pow_le_pow_right (by decide) he)

theorem nearestWhole_rounded (h : rounded n < overflowBound) : NearestWhole n (rounded n) := by
  refine ⟨representable_rounded h, fun m hm => ?_⟩
  by_cases hsmall : n < 2 ^ 53
  · rw [rounded_of_lt hsmall]
    omega
  obtain ⟨-, x, e, hx, rfl⟩ := hm
  have hnearest (y : Nat) := roundHalfEven_nearest n y (Nat.two_pow_pos (n.log2 - 52))
  simp only [rounded, Nat.pow_eq]
  rcases Nat.lt_or_ge e (n.log2 - 52) with he | he
  · have hleading : 2 ^ 52 * 2 ^ (n.log2 - 52) ≤ n := by
      have hlog : 52 ≤ n.log2 := (Nat.le_log2 (by omega)).2 (by omega)
      rw [← Nat.pow_add, Nat.add_sub_cancel' hlog]
      exact Nat.log2_self_le (by omega)
    have hbelow := shifted_le_leading hx he
    have := hnearest (2 ^ 52)
    omega
  · -- a multiple of the last place that is kept
    have hmultiple : x * 2 ^ e = x * 2 ^ (e - (n.log2 - 52)) * 2 ^ (n.log2 - 52) := by
      rw [Nat.mul_assoc, ← Nat.pow_add, Nat.sub_add_cancel he]
    rw [hmultiple]
    exact hnearest _

end Rounded

end NumberedBasic.Double
