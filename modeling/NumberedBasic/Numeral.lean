import NumberedBasic.Double.Decimal
import NumberedBasic.Text.Blank

set_option autoImplicit false

/-!
# Numerals

How numbers are spelled outside program lines: a sign, digits with a point before, among or after
them, and an exponent. The digits are those of any script, and a single underscore may stand between
two digits. Infinity and the undefined value have names. `double?` and `integer?` read a whole text,
with blanks around the numeral.

What a user answers to `INPUT` is a decimal between blanks, and a blank reply is zero. A decimal too
large for a finite double is no reply, nor is infinity by its name.
-/
namespace NumberedBasic

namespace Numeral
open Text Double

/-- The digits that follow a digit: each may have one underscore before it. -/
def moreDigits : List Char → List Nat × List Char
  | [] => ([], [])
  | c :: rest =>
    match digitValue? c with
    | some d =>
      let (ds, after) := moreDigits rest
      (d :: ds, after)
    | none =>
      match c, rest with
      | '_', next :: rest' =>
        match digitValue? next with
        | some d =>
          let (ds, after) := moreDigits rest'
          (d :: ds, after)
        | none => ([], c :: rest)
      | _, _ => ([], c :: rest)

def digitRow : List Char → List Nat × List Char
  | [] => ([], [])
  | c :: rest =>
    match digitValue? c with
    | some d =>
      let (ds, after) := moreDigits rest
      (d :: ds, after)
    | none => ([], c :: rest)

def sign : List Char → Bool × List Char
  | '-' :: rest => (true, rest)
  | '+' :: rest => (false, rest)
  | cs => (false, cs)

/-- The power of ten after a mantissa: nothing, or a mark, a sign and digits up to the end. -/
def exponent? : List Char → Option Int
  | [] => some 0
  | c :: rest =>
    if c == 'e' || c == 'E' then
      let (negative, after) := sign rest
      match digitRow after with
      | (d :: ds, []) =>
        let n : Int := ofDigitValues (d :: ds)
        some (if negative then -n else n)
      | _ => none
    else none

def decimal? (cs : List Char) : Option Decimal :=
  let (whole, afterWhole) := digitRow cs
  let (fraction, afterFraction) :=
    match afterWhole with
    | '.' :: rest => digitRow rest
    | _ => ([], afterWhole)
  if whole.isEmpty && fraction.isEmpty then none
  else (exponent? afterFraction).map fun e =>
    ⟨ofDigitValues (whole ++ fraction), e - fraction.length⟩

def signedDecimal? (cs : List Char) : Option Float :=
  let (negative, rest) := sign cs
  (decimal? rest).map (Decimal.toDouble negative)

def named? (cs : List Char) : Option Float :=
  let (negative, rest) := sign cs
  match String.ofList (rest.map Char.toLower) with
  | "inf" | "infinity" => some (ofMagnitude negative infiniteMagnitude)
  | "nan" => some (0.0 / 0.0)
  | _ => none

/-- The blanks that may stand around a numeral; the separators below the space may not. -/
def isPad (c : Char) : Bool := isBlank c && !(28 ≤ c.toNat && c.toNat ≤ 31)

def bare (s : String) : List Char :=
  ((s.toList.dropWhile isPad).reverse.dropWhile isPad).reverse

def double? (s : String) : Option Float := (signedDecimal? (bare s)).or (named? (bare s))

/-- The integer that a text spells: a sign and digits, not too many of them. -/
def integer? (s : String) : Option Int :=
  let (negative, rest) := sign (bare s)
  match digitRow rest with
  | (d :: ds, []) =>
    if (d :: ds).length ≤ maxDigits then
      let n : Int := ofDigitValues (d :: ds)
      some (if negative then -n else n)
    else none
  | _ => none

end Numeral

def Reply.value? (reply : String) : Option Float :=
  match Text.trim reply.toList with
  | [] => some 0.0
  | cs => (Numeral.signedDecimal? cs).filter Float.isFinite

end NumberedBasic
