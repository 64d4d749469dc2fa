set_option autoImplicit false

/-!
# Blank characters

The 29 characters that count as blank at the ends of a program line, a listing line and a reply,
and the trimming of texts by them. Between tokens fewer are skipped: see `Token.isGap`. Trimming
leaves exactly the trimmed texts as they are: `trim_trimmed` and `trim_eq_self`.
-/
namespace NumberedBasic.Text

/-- Tab to carriage return, the four separators below the space, the space, next line, and the
spaces and separators beyond ASCII. -/
def isBlank (c : Char) : Bool :=
  let n := c.toNat
  (9 ≤ n && n ≤ 13) || (28 ≤ n && n ≤ 32) || n == 0x85 || n == 0xa0 || n == 0x1680 ||
    (0x2000 ≤ n && n ≤ 0x200a) || n == 0x2028 || n == 0x2029 || n == 0x202f || n == 0x205f ||
    n == 0x3000

theorem isBlank_of_visible {c : Char} (h : 32 < c.toNat ∧ c.toNat < 128) : isBlank c = false := by
  simp only [isBlank, Bool.or_eq_false_iff, Bool.and_eq_false_iff, decide_eq_false_iff_not,
    beq_eq_false_iff_ne]
  omega

theorem isBlank_of_isDigit {c : Char} (h : c.isDigit = true) : isBlank c = false := by
  obtain ⟨hlo, hhi⟩ := Char.isDigit_iff_toNat.1 h
  exact isBlank_of_visible ⟨Nat.lt_of_lt_of_le (by decide) hlo, Nat.lt_of_le_of_lt hhi (by decide)⟩

def trimLeft (cs : List Char) : List Char := cs.dropWhile isBlank

def trimRight (cs : List Char) : List Char := (cs.reverse.dropWhile isBlank).reverse

def trim (cs : List Char) : List Char := trimRight (trimLeft cs)

def trimmed (s : String) : String := String.ofList (trim s.toList)

def Trimmed (cs : List Char) : Prop :=
  (∀ c ∈ cs.head?, isBlank c = false) ∧ ∀ c ∈ cs.getLast?, isBlank c = false

theorem head_trimLeft (cs : List Char) : ∀ c ∈ (trimLeft cs).head?, isBlank c = false := by
  induction cs with
  | nil => simp [trimLeft]
  | cons c cs ih =>
    unfold trimLeft at ih ⊢
    by_cases h : isBlank c = true
    · rw [List.dropWhile_cons_of_pos h]
      exact ih
    · rw [List.dropWhile_cons_of_neg h]
      simpa using h

theorem trimLeft_eq_self {cs : List Char} (h : ∀ c ∈ cs.head?, isBlank c = false) :
    trimLeft cs = cs := by
  cases cs with
  | nil => rfl
  | cons c cs => exact List.dropWhile_cons_of_neg (by simp [h c rfl])

theorem trimRight_eq (cs : List Char) : trimRight cs = (trimLeft cs.reverse).reverse := rfl

theorem trimRight_prefix_self (cs : List Char) : trimRight cs <+: cs := by
  rw [trimRight_eq, ← List.reverse_suffix, List.reverse_reverse]
  exact List.dropWhile_suffix isBlank

/-- Trimming goes no further to the left than the last character that is not blank. -/
theorem trimRight_append {xs : List Char} {c : Char} (hlast : xs.getLast? = some c)
    (hc : isBlank c = false) (ys : List Char) : trimRight (xs ++ ys) = xs ++ trimRight ys := by
  have hkept : xs.reverse.dropWhile isBlank = xs.reverse := by
    apply trimLeft_eq_self
    intro d hd
    rw [List.head?_reverse, hlast] at hd
    cases hd
    exact hc
  rw [trimRight, trimRight, List.reverse_append, List.dropWhile_append]
  split
  · rename_i hnone
    rw [List.isEmpty_iff.1 hnone, hkept, List.reverse_reverse, List.reverse_nil, List.append_nil]
  · rw [List.reverse_append, List.reverse_reverse]

theorem trim_trimmed (cs : List Char) : Trimmed (trim cs) := by
  constructor
  · intro c hc
    obtain ⟨blanks, happ⟩ := trimRight_prefix_self (trimLeft cs)
    have hhead : (trimRight (trimLeft cs)).head? = some c := hc
    refine head_trimLeft cs c ?_
    rw [← happ, List.head?_append, hhead]
    rfl
  · rw [trim, trimRight_eq, List.getLast?_reverse]
    exact head_trimLeft (trimLeft cs).reverse

theorem trimmed_trimmed (s : String) : Trimmed (trimmed s).toList := by
  rw [trimmed, String.toList_ofList]
  exact trim_trimmed _

theorem trim_eq_self {cs : List Char} (h : Trimmed cs) : trim cs = cs := by
  have hlast : ∀ c ∈ cs.reverse.head?, isBlank c = false := by
    rw [List.head?_reverse]
    exact h.2
  rw [trim, trimLeft_eq_self h.1, trimRight_eq, trimLeft_eq_self hlast, List.reverse_reverse]

theorem trim_cons_of_blank {c : Char} (h : isBlank c = true) (cs : List Char) :
    trim (c :: cs) = trim cs := by
  rw [trim, trimLeft, List.dropWhile_cons_of_pos h]
  rfl

theorem mem_of_mem_trim {cs : List Char} {c : Char} (h : c ∈ trim cs) : c ∈ cs :=
  (List.dropWhile_suffix isBlank).subset ((trimRight_prefix_self _).subset h)

end NumberedBasic.Text
