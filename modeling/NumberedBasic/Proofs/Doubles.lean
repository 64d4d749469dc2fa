import NumberedBasic.Double.Basic
import NumberedBasic.Text.Digit

set_option autoImplicit false

/-!
# Infinite, undefined, finite and zero doubles

`Double.parts` takes a bit pattern apart by divisions, the arithmetic of floats by fields of bits.
`parts_agree` says that both see the same: the tests for infinity, for the undefined value, for finite
ones and for zero are read off the parts. `integer?_lt` bounds the integers that are doubles.
-/
namespace NumberedBasic.Double
open Float.Model Float.Model.UnpackedFloat

def exponentField (x : Float) : Nat := x.toBits.toNat / Nat.pow 2 52 % Nat.pow 2 11

def fractionField (x : Float) : Nat := x.toBits.toNat % Nat.pow 2 52

theorem magnitude_eq (x : Float) :
    x.toBits.toNat % Nat.pow 2 63 = exponentField x * Nat.pow 2 52 + fractionField x := by
  change x.toBits.toNat % 2 ^ 63 =
    x.toBits.toNat / 2 ^ 52 % 2 ^ 11 * 2 ^ 52 + x.toBits.toNat % 2 ^ 52
  omega

theorem parts_eq (x : Float) : parts x =
    if exponentField x = 2047 then
      if fractionField x = 0 then .infinite (decide (Nat.pow 2 63 ≤ x.toBits.toNat)) else .undefined
    else .finite (decide (Nat.pow 2 63 ≤ x.toBits.toNat))
      (unitsOfMagnitude (exponentField x * Nat.pow 2 52 + fractionField x)) := by
  have hpow : Nat.pow 2 52 = 2 ^ 52 := rfl
  have hi : infiniteMagnitude = 2047 * 2 ^ 52 := rfl
  have he : exponentField x < 2 ^ 11 := Nat.mod_lt _ (by decide)
  have hf : fractionField x < 2 ^ 52 := Nat.mod_lt _ (by decide)
  unfold parts
  simp only [magnitude_eq, hi, hpow]
  by_cases h : exponentField x = 2047
  · by_cases hz : fractionField x = 0
    · rw [if_neg (by omega), if_pos (by omega), if_pos h, if_pos hz]
    · rw [if_pos (by omega), if_pos h, if_neg hz]
  · rw [if_neg (by omega), if_neg (by omega), if_neg h]

theorem unitsOfMagnitude_eq_zero_iff (m : Nat) : unitsOfMagnitude m = 0 ↔ m = 0 := by
  have hpow : Nat.pow 2 52 = 2 ^ 52 := rfl
  have hm := Nat.div_add_mod m (2 ^ 52)
  unfold unitsOfMagnitude
  simp only [hpow]
  by_cases h : m / 2 ^ 52 = 0
  · rw [if_pos h]
    omega
  · have hpos : 0 < (2 ^ 52 + m % 2 ^ 52) * Nat.pow 2 (m / 2 ^ 52 - 1) :=
      Nat.mul_pos (by omega) (Nat.pow_pos (by decide))
    rw [if_neg h]
    omega

theorem unpackExponent_bits_iff (b : UInt64) (k : BitVec 11) :
    @unpackExponent Format.binary64 b.toBitVec = k ↔
      b.toNat / Nat.pow 2 52 % Nat.pow 2 11 = k.toNat := by
  rw [← BitVec.toNat_inj, unpackExponent, BitVec.toNat_cast, BitVec.extractLsb_toNat,
    Nat.shiftRight_eq_div_pow]
  rfl

theorem unpackMantissa_bits_iff (b : UInt64) :
    @unpackMantissa Format.binary64 b.toBitVec = 0#52 ↔ b.toNat % Nat.pow 2 52 = 0 := by
  rw [← BitVec.toNat_inj, unpackMantissa, BitVec.toNat_cast, BitVec.extractLsb_toNat]
  rfl

/-- Parts and an unpacked float are of one class; only zero has no units. -/
inductive Agree : Parts → UnpackedFloat → Prop where
  | undefined : Agree .undefined .notANumber
  | infinite (negative : Bool) (s : Sign) : Agree (.infinite negative) (.infinity s)
  | zero (negative : Bool) (s : Sign) : Agree (.finite negative 0) (.zero s)
  | finite {units : Nat} (h : units ≠ 0) (negative : Bool) (s : Sign) (m : Nat) (e : Int)
      (hm : 0 < m) : Agree (.finite negative units) (.finite s m e hm)

theorem parts_agree (x : Float) : Agree (parts x) x.toModel.unpack := by
  have hi : _ ↔ exponentField x = 2047 := unpackExponent_bits_iff x.toModel.toBits (-1#11)
  have hz : _ ↔ exponentField x = 0 := unpackExponent_bits_iff x.toModel.toBits 0#11
  have hm : _ ↔ fractionField x = 0 := unpackMantissa_bits_iff x.toModel.toBits
  have hu : _ ↔ exponentField x * 2 ^ 52 + fractionField x = 0 :=
    unitsOfMagnitude_eq_zero_iff (exponentField x * Nat.pow 2 52 + fractionField x)
  rw [parts_eq]
  unfold Float.Model.unpack UnpackedFloat.unpack
  by_cases he : exponentField x = 2047
  · rw [if_pos he, if_pos (hi.2 he)]
    by_cases hf : fractionField x = 0
    · rw [if_pos hf, if_pos (hm.2 hf)]
      exact .infinite _ _
    · rw [if_neg hf, if_neg (mt hm.1 hf)]
      exact .undefined
  rw [if_neg he, if_neg (mt hi.1 he)]
  by_cases h0 : exponentField x = 0
  · rw [if_pos (hz.2 h0)]
    by_cases hf : fractionField x = 0
    · rw [dif_pos (hm.2 hf), hu.2 (by omega)]
      exact .zero _ _
    · rw [dif_neg (mt hm.1 hf)]
      exact .finite (mt hu.1 (by omega)) _ _ _ _ _
  · rw [if_neg (mt hz.1 h0)]
    exact .finite (mt hu.1 (by omega)) _ _ _ _ _

theorem isInf_iff (x : Float) : x.isInf = true ↔ ∃ negative, parts x = .infinite negative := by
  have h := parts_agree x
  change x.toModel.unpack.isInf = true ↔ _
  generalize parts x = p at h ⊢
  generalize x.toModel.unpack = u at h ⊢
  cases h with
  | infinite negative _ => exact iff_of_true rfl ⟨negative, rfl⟩
  | undefined | zero _ _ | finite _ _ _ _ _ _ =>
    refine iff_of_false Bool.false_ne_true ?_
    rintro ⟨negative, h⟩
    cases h

theorem isNaN_iff (x : Float) : x.isNaN = true ↔ parts x = .undefined := by
  have h := parts_agree x
  change x.toModel.unpack.isNaN = true ↔ _
  generalize parts x = p at h ⊢
  generalize x.toModel.unpack = u at h ⊢
  cases h with
  | undefined => exact iff_of_true rfl rfl
  | infinite _ _ | zero _ _ | finite _ _ _ _ _ _ =>
    refine iff_of_false Bool.false_ne_true ?_
    intro h
    cases h

theorem isFinite_iff (x : Float) :
    x.isFinite = true ↔ ∃ negative units, parts x = .finite negative units := by
  have h := parts_agree x
  change x.toModel.unpack.isFinite = true ↔ _
  generalize parts x = p at h ⊢
  generalize x.toModel.unpack = u at h ⊢
  cases h with
  | zero negative _ => exact iff_of_true rfl ⟨negative, 0, rfl⟩
  | @finite units _ negative _ _ _ _ => exact iff_of_true rfl ⟨negative, units, rfl⟩
  | undefined | infinite _ _ =>
    refine iff_of_false Bool.false_ne_true ?_
    rintro ⟨negative, units, h⟩
    cases h

theorem beq_zero_iff (x : Float) : (x == 0) = true ↔ ∃ negative, parts x = .finite negative 0 := by
  have h := parts_agree x
  have hzero : (0 : Float).toModel.unpack = .zero .positive := rfl
  change (x.toModel.unpack.compare (0 : Float).toModel.unpack == some .eq) = true ↔ _
  rw [hzero, beq_iff_eq]
  generalize parts x = p at h ⊢
  generalize x.toModel.unpack = u at h ⊢
  cases h with
  | zero negative s => exact iff_of_true rfl ⟨negative, rfl⟩
  | undefined =>
    refine iff_of_false ?_ ?_
    · intro hcompare
      cases hcompare
    · rintro ⟨other, hparts⟩
      cases hparts
  | infinite negative s =>
    refine iff_of_false ?_ ?_
    · intro hcompare
      cases s <;> cases hcompare
    · rintro ⟨other, hparts⟩
      cases hparts
  | finite h negative s m e hm =>
    refine iff_of_false ?_ ?_
    · intro hcompare
      cases s <;> cases hcompare
    · rintro ⟨other, hparts⟩
      cases hparts
      exact h rfl

def LacksRemainder (x y : Float) : Prop := x.isInf = true ∧ (y == 0) = false ∧ y.isNaN = false

theorem remainder?_eq_none_iff {x y : Float} (hy : (y == 0) = false) :
    remainder? x y = none ↔ x.isInf = true ∧ y.isNaN = false := by
  have hzero : ¬ ∃ negative, parts y = .finite negative 0 := by
    rw [← beq_zero_iff, hy]
    exact Bool.false_ne_true
  rw [isInf_iff, ← Bool.not_eq_true, isNaN_iff]
  unfold remainder?
  cases hx : parts x with
  | undefined => simp
  | infinite negative => cases hp : parts y <;> simp
  | finite negative a =>
    cases hp : parts y with
    | undefined => simp
    | infinite _ => simp
    | finite other b =>
      have hb : b ≠ 0 := by
        rintro rfl
        exact hzero ⟨other, hp⟩
      simp [hb]

theorem unitsOfMagnitude_lt {m k : Nat} (h : m < k * Nat.pow 2 52) :
    unitsOfMagnitude m < Nat.pow 2 (53 + k) := by
  have hfield : m / Nat.pow 2 52 < k := Nat.div_lt_of_lt_mul (Nat.mul_comm k _ ▸ h)
  have hfraction : m % Nat.pow 2 52 < Nat.pow 2 52 := Nat.mod_lt _ (by decide)
  have htwice : Nat.pow 2 53 = Nat.pow 2 52 + Nat.pow 2 52 := by decide
  have hsplit : Nat.pow 2 (53 + k) = Nat.pow 2 53 * Nat.pow 2 k := Nat.pow_add 2 53 k
  have hshift : Nat.pow 2 (m / Nat.pow 2 52 - 1) ≤ Nat.pow 2 k :=
    Nat.pow_le_pow_right (by decide) (by omega)
  have hpos (e : Nat) : 0 < Nat.pow 2 e := Nat.pow_pos (by decide)
  rw [hsplit]
  simp only [unitsOfMagnitude]
  split
  · exact Nat.lt_of_lt_of_le (by omega) (Nat.le_mul_of_pos_right _ (hpos k))
  · have hsignificand : Nat.pow 2 52 + m % Nat.pow 2 52 < Nat.pow 2 53 := by omega
    exact Nat.lt_of_lt_of_le (Nat.mul_lt_mul_of_pos_right hsignificand (hpos _))
      (Nat.mul_le_mul_left _ hshift)

theorem units_lt {x : Float} {negative : Bool} {units k : Nat}
    (h : parts x = .finite negative units) (hk : 2047 ≤ k) : units < Nat.pow 2 (53 + k) := by
  simp only [parts] at h
  split at h
  · cases h
  split at h
  · cases h
  · rename_i hle hne
    cases h
    refine unitsOfMagnitude_lt (Nat.lt_of_lt_of_le ?_ (Nat.mul_le_mul_right _ hk))
    exact Nat.lt_of_le_of_ne (Nat.not_lt.1 hle) hne

theorem integer?_lt {x : Float} {n : Int} {k : Nat} (h : integer? x = some n) (hk : 2047 ≤ k) :
    n.natAbs < Nat.pow 2 (53 + k) := by
  unfold integer? at h
  split at h
  · rename_i negative units hparts
    split at h
    · have habs : n.natAbs = units / unitsPerOne := by
        cases h
        cases negative
        · exact Int.natAbs_natCast _
        · exact (Int.natAbs_neg _).trans (Int.natAbs_natCast _)
      rw [habs]
      exact Nat.lt_of_le_of_lt (Nat.div_le_self _ _) (units_lt hparts hk)
    · cases h
  · cases h

theorem isLong_integer? (x : Float) : Text.isLong ((integer? x).getD 0) = false := by
  cases hn : integer? x with
  | none => rfl
  | some n =>
    obtain ⟨k, hk, hmax⟩ : ∃ k, 2047 ≤ k ∧ 53 + k = Text.maxDigits := ⟨4247, by decide, rfl⟩
    have hlt : n.natAbs < Nat.pow 10 Text.maxDigits := by
      rw [← hmax]
      exact Nat.lt_of_lt_of_le (integer?_lt hn hk) (Nat.pow_le_pow_left (by decide) _)
    rw [Option.getD_some, ← Bool.not_eq_true, Text.isLong_iff]
    exact Nat.not_le.2 hlt

end NumberedBasic.Double
