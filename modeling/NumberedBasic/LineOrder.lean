set_option autoImplicit false

/-!
# The order of line numbers

The line numbers of a program in ascending order, and what a cursor asks of them: the first number,
the next one, all later ones. Numbers that are given twice stay twice. `mem_after` and
`next?_eq_some_iff` say what the answers are in terms of the numbers given.
-/
namespace NumberedBasic

structure LineOrder where
  numbers : List Int
  ascending : numbers.Pairwise (· ≤ ·)
  deriving DecidableEq

namespace LineOrder

def ofList (ns : List Int) : LineOrder where
  numbers := ns.mergeSort
  ascending := by
    have h : ns.mergeSort.Pairwise fun a b => decide (a ≤ b) = true :=
      List.pairwise_mergeSort (by simpa using fun _ _ _ => Int.le_trans)
        (by simpa using Int.le_total) ns
    simpa using h

def size (order : LineOrder) : Nat := order.numbers.length

def contains (order : LineOrder) (n : Int) : Bool := order.numbers.contains n

def first? (order : LineOrder) : Option Int := order.numbers.head?

def after (order : LineOrder) (n : Int) : List Int := order.numbers.dropWhile (· ≤ n)

def next? (order : LineOrder) (n : Int) : Option Int := (order.after n).head?

/-- The numbers with their places, counted from zero, the one entered last first: it hides an
earlier one of the same number. -/
def places (order : LineOrder) : List (Int × Nat) :=
  order.numbers.zipIdx.foldl (fun table entry => entry :: table) []

def rank? (order : LineOrder) (n : Int) : Option Nat := order.places.lookup n

theorem ofList_perm (ns : List Int) : (ofList ns).numbers.Perm ns := List.mergeSort_perm ns _

@[simp] theorem mem_ofList {ns : List Int} {n : Int} : n ∈ (ofList ns).numbers ↔ n ∈ ns :=
  (ofList_perm ns).mem_iff

/-- An order is determined by the numbers in it. -/
theorem ofList_eq {order : LineOrder} {ns : List Int} (h : ns.Perm order.numbers) :
    ofList ns = order := by
  have hnumbers : (ofList ns).numbers = order.numbers :=
    ((ofList_perm ns).trans h).eq_of_pairwise (fun _ _ _ _ => Int.le_antisymm)
      (ofList ns).ascending order.ascending
  cases order
  exact LineOrder.mk.injEq .. ▸ hnumbers

@[simp] theorem contains_iff {order : LineOrder} {n : Int} :
    order.contains n = true ↔ n ∈ order.numbers := by
  simp [contains]

theorem dropWhile_eq_filter {ns : List Int} (h : ns.Pairwise (· ≤ ·)) (n : Int) :
    ns.dropWhile (· ≤ n) = ns.filter (n < ·) := by
  induction ns with
  | nil => rfl
  | cons m rest ih =>
    obtain ⟨hm, hrest⟩ := List.pairwise_cons.1 h
    by_cases hle : m ≤ n
    · have hlt : ¬ n < m := by omega
      simp [hle, hlt, ih hrest]
    · have hlt : n < m := by omega
      have hall : rest.filter (n < ·) = rest := by
        refine List.filter_eq_self.2 fun k hk => ?_
        have := hm k hk
        simp only [decide_eq_true_eq]
        omega
      simp [hle, hlt, hall]

theorem after_eq_filter (order : LineOrder) (n : Int) :
    order.after n = order.numbers.filter (n < ·) :=
  dropWhile_eq_filter order.ascending n

@[simp] theorem mem_after {order : LineOrder} {n k : Int} :
    k ∈ order.after n ↔ k ∈ order.numbers ∧ n < k := by
  simp [after_eq_filter]

theorem after_ascending (order : LineOrder) (n : Int) : (order.after n).Pairwise (· ≤ ·) :=
  order.ascending.sublist (List.dropWhile_sublist _)

theorem next?_eq_some_iff {order : LineOrder} {n m : Int} :
    order.next? n = some m ↔
      m ∈ order.numbers ∧ n < m ∧ ∀ k ∈ order.numbers, n < k → m ≤ k := by
  have hasc := order.after_ascending n
  unfold next?
  cases hrow : order.after n with
  | nil =>
    refine ⟨fun h => by simp at h, fun ⟨hm, hlt, _⟩ => ?_⟩
    have : m ∈ order.after n := mem_after.2 ⟨hm, hlt⟩
    simp [hrow] at this
  | cons a rest =>
    have ha : a ∈ order.numbers ∧ n < a := mem_after.1 (hrow ▸ List.mem_cons_self)
    have hleast : ∀ k ∈ order.numbers, n < k → a ≤ k := by
      intro k hk hlt
      have hin : k ∈ a :: rest := hrow ▸ mem_after.2 ⟨hk, hlt⟩
      rw [hrow] at hasc
      rcases List.mem_cons.1 hin with rfl | hin
      · exact Int.le_refl _
      · exact (List.pairwise_cons.1 hasc).1 k hin
    simp only [List.head?_cons, Option.some.injEq]
    constructor
    · rintro rfl
      exact ⟨ha.1, ha.2, hleast⟩
    · rintro ⟨hm, hlt, hmin⟩
      exact Int.le_antisymm (hleast m hm hlt) (hmin a ha.1 ha.2)

theorem next?_eq_none_iff {order : LineOrder} {n : Int} :
    order.next? n = none ↔ ∀ k ∈ order.numbers, k ≤ n := by
  simp [next?, after_eq_filter]

end LineOrder

end NumberedBasic
