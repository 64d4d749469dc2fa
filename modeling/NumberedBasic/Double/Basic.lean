set_option autoImplicit false

/-!
# Doubles

Every finite double is a whole number of the least positive one, `2 ^ (-1074)`. That number, its
*units*, makes exact arithmetic on doubles arithmetic on natural numbers.

The *magnitude* of a double is its bit pattern without the sign bit. Magnitudes are ordered as the
values are, with infinity next to the largest finite one. A ratio of natural numbers is rounded to
the nearest double, a tie to the even significand, and from there on to infinity when it is too
large. Nothing is approximated on the way: the significand is one rounded quotient of natural
numbers.
-/
namespace NumberedBasic.Double

inductive Parts where
  | undefined
  | infinite (negative : Bool)
  | finite (negative : Bool) (units : Nat)
  deriving DecidableEq

def unitsPerOne : Nat := Nat.pow 2 1074

def infiniteMagnitude : Nat := 2047 * Nat.pow 2 52

/-- The units of a finite magnitude. The exponent field shifts a significand that has its leading
bit added; the field zero has no leading bit and shifts as the field one does. -/
def unitsOfMagnitude (magnitude : Nat) : Nat :=
  let field := magnitude / Nat.pow 2 52
  let fraction := magnitude % Nat.pow 2 52
  if field = 0 then fraction else (Nat.pow 2 52 + fraction) * Nat.pow 2 (field - 1)

def parts (x : Float) : Parts :=
  let bits := x.toBits.toNat
  let negative := Nat.pow 2 63 ≤ bits
  let magnitude := bits % Nat.pow 2 63
  if infiniteMagnitude < magnitude then .undefined
  else if magnitude = infiniteMagnitude then .infinite negative
  else .finite negative (unitsOfMagnitude magnitude)

def ofMagnitude (negative : Bool) (magnitude : Nat) : Float :=
  Float.ofBits (UInt64.ofNat (if negative then Nat.pow 2 63 + magnitude else magnitude))

def integer? (x : Float) : Option Int :=
  match parts x with
  | .finite negative units =>
    if units % unitsPerOne = 0 then
      let n : Int := (units / unitsPerOne : Nat)
      some (if negative then -n else n)
    else none
  | _ => none

/-- The whole number nearest to `num / den`; of two equally near ones, the even one. -/
def roundHalfEven (num den : Nat) : Nat :=
  let quotient := num / den
  let rest := num % den
  if 2 * rest < den then quotient
  else if den < 2 * rest then quotient + 1
  else quotient + quotient % 2

/-- The magnitude nearest to `num / den` units. A shift leaves a significand of at most 53 bits;
when rounding carries it over to 54 bits, the sum moves on to the next exponent by itself. -/
def nearest (num den : Nat) : Nat :=
  let shift := (num / den).log2 - 52
  min infiniteMagnitude (shift * Nat.pow 2 52 + roundHalfEven num (den * Nat.pow 2 shift))

theorem nearest_eq_zero {num den : Nat} (h : 2 * num < den) : nearest num den = 0 := by
  have hlt : num < den := by omega
  simp only [nearest, Nat.div_eq_of_lt hlt, Nat.log2_zero, Nat.zero_sub, Nat.pow_eq, Nat.pow_zero,
    Nat.mul_one, Nat.zero_mul, Nat.zero_add, roundHalfEven, Nat.mod_eq_of_lt hlt, if_pos h]
  exact Nat.min_zero _

/-- The remainder of a truncating division, exact and with the sign of the dividend. An infinite
dividend and a divisor zero have none. -/
def remainder? (x y : Float) : Option Float :=
  match parts x, parts y with
  | .undefined, _ => some x
  | _, .undefined => some y
  | .infinite _, _ => none
  | .finite _ _, .infinite _ => some x
  | .finite negative a, .finite _ b =>
    if b = 0 then none else some (ofMagnitude negative (nearest (a % b) 1))

end NumberedBasic.Double
