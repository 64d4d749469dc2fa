import NumberedBasic.Double.Basic
import NumberedBasic.Text.Digit

set_option autoImplicit false

/-!
# Decimals

A decimal is a whole coefficient times a power of ten. It is read as the nearest double, and a
double is written as the decimal of fewest digits that is read as it.
-/
namespace NumberedBasic.Double

structure Decimal where
  coefficient : Nat
  exponent : Int
  deriving DecidableEq

namespace Decimal

/-- The magnitude nearest to a decimal. Decimals beyond `10 ^ 400` and below `10 ^ (-400)` are
decided by their exponent alone, so that no huge power is formed. -/
def magnitude (d : Decimal) : Nat :=
  if d.coefficient = 0 then 0
  else if 400 < d.exponent then infiniteMagnitude
  else if d.exponent < -(400 + d.coefficient.log2 : Int) then 0
  else
    nearest (d.coefficient * Nat.pow 10 d.exponent.toNat * unitsPerOne)
      (Nat.pow 10 (-d.exponent).toNat)

theorem units_lt_half {n k : Nat} (h : 400 + n.log2 < k) :
    2 * (n * unitsPerOne) < Nat.pow 10 k := by
  -- the exponent is a variable here, so that its power is not evaluated
  obtain ⟨e, he, hunits⟩ : ∃ e, e ≤ 400 ∧ 2 * unitsPerOne ≤ Nat.pow 10 e :=
    ⟨400, Nat.le_refl _, by decide +kernel⟩
  have hpos : 0 < 2 * unitsPerOne := by decide +kernel
  calc 2 * (n * unitsPerOne) = n * (2 * unitsPerOne) := Nat.mul_left_comm ..
    _ < Nat.pow 2 (n.log2 + 1) * (2 * unitsPerOne) :=
      Nat.mul_lt_mul_of_pos_right Nat.lt_log2_self hpos
    _ ≤ Nat.pow 10 (n.log2 + 1) * Nat.pow 10 e :=
      Nat.mul_le_mul (Nat.pow_le_pow_left (by decide) _) hunits
    _ = Nat.pow 10 (n.log2 + 1 + e) := (Nat.pow_add ..).symm
    _ ≤ Nat.pow 10 k := Nat.pow_le_pow_right (by decide) (by omega)

theorem magnitude_eq_nearest (n k : Nat) :
    (⟨n, -k⟩ : Decimal).magnitude = nearest (n * unitsPerOne) (Nat.pow 10 k) := by
  have hexponent : ¬ 400 < -(k : Int) := by omega
  have hplain : (-(k : Int)).toNat = 0 := by omega
  simp only [magnitude, if_neg hexponent]
  split
  · rename_i hzero
    rw [hzero, Nat.zero_mul, nearest_eq_zero]
    exact Nat.pow_pos (by decide)
  split
  · rw [nearest_eq_zero (units_lt_half (by omega))]
  · rw [hplain, Int.neg_neg, Int.toNat_natCast, Nat.pow_eq, Nat.pow_zero, Nat.mul_one]

def toDouble (negative : Bool) (d : Decimal) : Float := ofMagnitude negative d.magnitude

end Decimal

/-- The place of the first digit: the least `k` such that `units` units are below `10 ^ k`. -/
def firstPlace (units : Nat) : Int :=
  ((Text.digits (units * Nat.pow 10 400 / unitsPerOne)).length : Int) - 400

/-- The better of the two neighbours of `units` units among the multiples of `10 ^ exponent`, of
those that are read as `units` units. -/
def onGrid? (units : Nat) (exponent : Int) : Option Decimal :=
  let num := units * Nat.pow 10 (-exponent).toNat
  let den := unitsPerOne * Nat.pow 10 exponent.toNat
  let below : Decimal := ⟨num / den, exponent⟩
  let above : Decimal := ⟨num / den + 1, exponent⟩
  let magnitude := nearest units 1
  match below.magnitude == magnitude, above.magnitude == magnitude with
  | true, true => some ⟨roundHalfEven num den, exponent⟩
  | true, false => some below
  | false, true => some above
  | false, false => none

def exact (units : Nat) : Decimal := ⟨units * Nat.pow 5 1074, -1074⟩

/-- The decimal of fewest digits that is read as `units` units, and the nearest of those. Seventeen
digits always suffice. -/
def shortest (units : Nat) : Decimal :=
  let place := firstPlace units
  ((List.range 17).findSome? fun i : Nat => onGrid? units (place - (i + 1 : Nat))).getD (exact units)

end NumberedBasic.Double
