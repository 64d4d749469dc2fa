set_option autoImplicit false

/-!
# Decimal digits

The digits zero to nine of every script: each script keeps its ten digits together in order, so the
table lists the zeros only. Numbers are written in plain digits, and `ofDigits_digits` reads them
back. Neither way may a numeral have more than `maxDigits` digits, whatever its sign; `isLong_iff`
says which integers that leaves without a numeral.
-/
namespace NumberedBasic.Text

def digitZeros : List Nat := [
  0x30, 0x660, 0x6f0, 0x7c0, 0x966, 0x9e6, 0xa66, 0xae6, 0xb66, 0xbe6, 0xc66, 0xce6, 0xd66,
  0xde6, 0xe50, 0xed0, 0xf20, 0x1040, 0x1090, 0x17e0, 0x1810, 0x1946, 0x19d0, 0x1a80, 0x1a90,
  0x1b50, 0x1bb0, 0x1c40, 0x1c50, 0xa620, 0xa8d0, 0xa900, 0xa9d0, 0xa9f0, 0xaa50, 0xabf0, 0xff10,
  0x104a0, 0x10d30, 0x11066, 0x110f0, 0x11136, 0x111d0, 0x112f0, 0x11450, 0x114d0, 0x11650,
  0x116c0, 0x11730, 0x118e0, 0x11950, 0x11c50, 0x11d50, 0x11da0, 0x16a60, 0x16ac0, 0x16b50,
  0x1d7ce, 0x1d7d8, 0x1d7e2, 0x1d7ec, 0x1d7f6, 0x1e140, 0x1e2f0, 0x1e950, 0x1fbf0]

def digitValue? (c : Char) : Option Nat :=
  let n := c.toNat
  (digitZeros.find? fun z => z ≤ n && n < z + 10).map (n - ·)

def ofDigitValues (ds : List Nat) : Nat := ds.foldl (fun n d => 10 * n + d) 0

def ofDigits (cs : List Char) : Nat := ofDigitValues (cs.filterMap digitValue?)

/-- The most digits an integer may have to be read or to be written. -/
def maxDigits : Nat := 4300

def digits (n : Nat) : List Char := Nat.toDigits 10 n

def numeral (n : Int) : String :=
  String.ofList (if n < 0 then '-' :: digits n.natAbs else digits n.natAbs)

def isLong (n : Int) : Bool := maxDigits < (digits n.natAbs).length

def numeral? (n : Int) : Option String := if isLong n then none else some (numeral n)

def digitLimit (detail : String) : String :=
  "Exceeds the limit (" ++ numeral maxDigits ++ " digits) for integer string conversion" ++ detail ++
    "; use sys.set_int_max_str_digits() to increase the limit"

theorem lt_length_digits_iff {k n : Nat} (hk : 0 < k) :
    k < (digits n).length ↔ Nat.pow 10 k ≤ n := by
  rw [← Nat.not_le]
  exact (not_congr (Nat.length_toDigits_le_iff (by decide) hk)).trans Nat.not_lt

theorem isLong_iff {n : Int} : isLong n = true ↔ Nat.pow 10 maxDigits ≤ n.natAbs :=
  decide_eq_true_iff.trans (lt_length_digits_iff (by decide))

/-- The least positive integer with too many digits. -/
def leastLong : Int := (Nat.pow 10 maxDigits : Nat)

theorem isLong_leastLong : isLong leastLong = true :=
  isLong_iff.2 (Nat.le_of_eq (Int.natAbs_natCast _).symm)

theorem leastLong_pos : 0 < leastLong := by
  have hpow (k : Nat) : 0 < Nat.pow 10 k := Nat.pow_pos (by decide)
  exact Int.natCast_pos.2 (hpow maxDigits)

theorem isLong_neg (n : Int) : isLong (-n) = isLong n := by
  rw [isLong, isLong, Int.natAbs_neg]

theorem toList_numeral {n : Int} (h : 1 ≤ n) : (numeral n).toList = digits n.toNat := by
  have hsign : ¬ n < 0 := by omega
  have habs : n.natAbs = n.toNat := by omega
  rw [numeral, if_neg hsign, String.toList_ofList, habs]

theorem digitValue?_of_isDigit {c : Char} (h : c.isDigit = true) :
    digitValue? c = some (c.toNat - '0'.toNat) := by
  have hrange : 0x30 ≤ c.toNat ∧ c.toNat < 0x30 + 10 := by
    obtain ⟨hlo, hhi⟩ := Char.isDigit_iff_toNat.1 h
    exact ⟨hlo, Nat.lt_succ_of_le hhi⟩
  simp [digitValue?, digitZeros, hrange]

theorem ofDigits_eq {cs : List Char} (h : ∀ c ∈ cs, c.isDigit = true) :
    ofDigits cs = Nat.ofDigitChars 10 cs 0 := by
  have hvalues : cs.filterMap digitValue? = cs.map fun c => c.toNat - '0'.toNat := by
    induction cs with
    | nil => rfl
    | cons c cs ih =>
      rw [List.filterMap_cons_some (digitValue?_of_isDigit (h c (.head _))),
        ih fun d hd => h d (.tail _ hd), List.map_cons]
  rw [ofDigits, hvalues, ofDigitValues, List.foldl_map, Nat.ofDigitChars_eq_foldl]

theorem isDigit_of_mem_digits {n : Nat} {c : Char} (h : c ∈ digits n) : c.isDigit = true :=
  Nat.isDigit_of_mem_toDigits (by decide) (by decide) h

theorem ofDigits_digits (n : Nat) : ofDigits (digits n) = n := by
  rw [ofDigits_eq fun c => isDigit_of_mem_digits]
  exact Nat.ofDigitChars_ten_toDigits

theorem ofDigitChars_lt {cs : List Char} (h : ∀ c ∈ cs, c.isDigit = true) :
    Nat.ofDigitChars 10 cs 0 < Nat.pow 10 cs.length := by
  induction cs with
  | nil => decide
  | cons c cs ih =>
    have hdigit : c.toNat - '0'.toNat + 1 ≤ 10 := by
      have hhi : c.toNat ≤ 57 := (Char.isDigit_iff_toNat.1 (h c (.head _))).2
      change c.toNat - 48 + 1 ≤ 10
      omega
    have hrest := ih fun d hd => h d (.tail _ hd)
    rw [Nat.ofDigitChars_cons, Nat.ofDigitChars_eq_ofDigitChars_zero, Nat.mul_zero, Nat.zero_add]
    calc Nat.pow 10 cs.length * (c.toNat - '0'.toNat) + Nat.ofDigitChars 10 cs 0
        < Nat.pow 10 cs.length * (c.toNat - '0'.toNat) + Nat.pow 10 cs.length :=
          Nat.add_lt_add_left hrest _
      _ = Nat.pow 10 cs.length * (c.toNat - '0'.toNat + 1) := (Nat.mul_succ _ _).symm
      _ ≤ Nat.pow 10 cs.length * 10 := Nat.mul_le_mul_left _ hdigit

/-- Digits read and written again are no more than before: leading zeros go. -/
theorem length_digits_ofDigits {cs : List Char} (hcs : cs ≠ []) (h : ∀ c ∈ cs, c.isDigit = true) :
    (digits (ofDigits cs)).length ≤ cs.length := by
  rw [ofDigits_eq h]
  exact (Nat.length_toDigits_le_iff (by decide) (List.length_pos_iff.2 hcs)).2 (ofDigitChars_lt h)

end NumberedBasic.Text
