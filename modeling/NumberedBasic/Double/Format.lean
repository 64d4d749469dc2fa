import NumberedBasic.Double.Decimal

set_option autoImplicit false

/-!
# How numbers are written

A number format fixes where positional writing ends, how an exponent looks and what the values
without digits are called. Messages and dumps share the digits and differ in those names. `PRINT`
shows integers below `10 ^ 16` as plain numerals.
-/
namespace NumberedBasic.Double

structure Format where
  leastPositional : Int
  leastLarge : Int
  exponentWidth : Nat
  infinity : String
  undefined : String

/-- Positional from `0.0001` on and below `10 ^ 16`, exponents with a sign and two digits. -/
def Format.plain : Format := ⟨-4, 16, 2, "inf", "nan"⟩

def Format.dump : Format := { Format.plain with infinity := "Infinity", undefined := "NaN" }

namespace Format

/-- Digits with the point after the first `place` of them; there is always a digit on both of its
sides. -/
def positional (ds : List Char) (place : Int) : List Char :=
  if place ≤ 0 then '0' :: '.' :: (List.replicate (-place).toNat '0' ++ ds)
  else
    let n := place.toNat
    let whole := ds.take n ++ List.replicate (n - ds.length) '0'
    let fraction := ds.drop n
    whole ++ '.' :: (if fraction.isEmpty then ['0'] else fraction)

def scientific (f : Format) (ds : List Char) (exponent : Int) : List Char :=
  let power := Text.digits exponent.natAbs
  let padded := List.replicate (f.exponentWidth - power.length) '0' ++ power
  let mantissa :=
    match ds with
    | first :: second :: rest => first :: '.' :: second :: rest
    | _ => ds
  mantissa ++ 'e' :: (if exponent < 0 then '-' else '+') :: padded

/-- The digits of a decimal that are not zeros at its end, at least one. -/
def significant (d : Decimal) : List Char :=
  match ((Text.digits d.coefficient).reverse.dropWhile (· == '0')).reverse with
  | [] => ['0']
  | ds => ds

def decimal (f : Format) (d : Decimal) : List Char :=
  let ds := significant d
  let place : Int := (Text.digits d.coefficient).length + d.exponent
  if f.leastPositional ≤ place - 1 ∧ place - 1 < f.leastLarge then positional ds place
  else f.scientific ds (place - 1)

def signed (negative : Bool) (cs : List Char) : String :=
  String.ofList (if negative then '-' :: cs else cs)

def write (f : Format) (x : Float) : String :=
  match parts x with
  | .undefined => f.undefined
  | .infinite negative => signed negative f.infinity.toList
  | .finite negative units =>
    signed negative (f.decimal (if units = 0 then ⟨0, 0⟩ else shortest units))

end Format

def text (x : Float) : String := Format.plain.write x

def display (x : Float) : String :=
  match integer? x with
  | some n => if n.natAbs < Nat.pow 10 16 then Text.numeral n else text x
  | none => text x

end NumberedBasic.Double
