import Mathlib.Data.Int.Order.Basic
import Mathlib.Order.Bounds.Basic
import NumberedBasic.Proofs.LoopEnds

set_option autoImplicit false

/-!
# Loops as brackets

Heads and ends of loops are the brackets of a program, and all other lines count for nothing. The
search for the end of a loop keeps a depth. Said without it, the search finds the first end with as
many heads as ends between it and the line where the search began.
-/
namespace NumberedBasic

theorem Image.ofList_eq_ofProgram {p : Program} {ns : List Int} (h : ns.Perm p.numbers) :
    (⟨p, .ofList ns⟩ : Image) = .ofProgram p := by
  have horder : LineOrder.ofList ns = p.order := LineOrder.ofList_eq h
  rw [horder, ofProgram]

namespace Program

def between (p : Program) (a w : Int) : List Int := p.numbers.filter fun n => a < n ∧ n < w

def count (p : Program) (k : Keyword) (ns : List Int) : Nat := ns.countP (p.keywordAt · = some k)

/-- A loop end behind a line, with as many heads as ends between the two. -/
structure Balances (p : Program) (a w : Int) : Prop where
  behind : a < w
  closing : p.keywordAt w = some .WEND
  balanced : p.count .WHILE (p.between a w) = p.count .WEND (p.between a w)

instance (p : Program) (a w : Int) : Decidable (p.Balances a w) :=
  decidable_of_iff (a < w ∧ p.keywordAt w = some .WEND ∧
      p.count .WHILE (p.between a w) = p.count .WEND (p.between a w))
    ⟨fun ⟨h₁, h₂, h₃⟩ => ⟨h₁, h₂, h₃⟩, fun ⟨h₁, h₂, h₃⟩ => ⟨h₁, h₂, h₃⟩⟩

section Scan

variable {p : Program} {a w n : Int} {front rest : List Int} {depth : Nat}

theorem count_concat_self {k : Keyword} (h : p.keywordAt n = some k) :
    p.count k (front ++ [n]) = p.count k front + 1 := by
  simp [count, h]

theorem count_concat_other {k : Keyword} (h : p.keywordAt n ≠ some k) :
    p.count k (front ++ [n]) = p.count k front := by
  simp [count, h]

theorem after_ascending (p : Program) (a : Int) : (p.numbers.filter (a < ·)).Pairwise (· < ·) :=
  p.numbers_ascending.filter _

theorem between_of_row (hrow : p.numbers.filter (a < ·) = front ++ n :: rest) :
    p.between a n = front := by
  have hasc := p.after_ascending a
  rw [hrow, List.pairwise_append, List.pairwise_cons] at hasc
  obtain ⟨-, ⟨hrest, -⟩, hfront⟩ := hasc
  have hkept : front.filter (· < n) = front :=
    List.filter_eq_self.2 fun m hm => decide_eq_true (hfront m hm n List.mem_cons_self)
  have hlost : (n :: rest).filter (· < n) = [] := by
    refine List.filter_eq_nil_iff.2 fun m hm => ?_
    rcases List.mem_cons.1 hm with rfl | hm
    · simp
    · simpa using Int.le_of_lt (hrest m hm)
  calc p.between a n = (p.numbers.filter (a < ·)).filter (· < n) := by
        simp [between, List.filter_filter, Bool.and_comm]
    _ = front := by rw [hrow, List.filter_append, hkept, hlost, List.append_nil]

/-- Where the search stands, the depth is what the heads before are more than the ends. -/
theorem balances_iff (hrow : p.numbers.filter (a < ·) = front ++ n :: rest)
    (hdepth : p.count .WHILE front = p.count .WEND front + depth) :
    p.Balances a n ↔ p.keywordAt n = some .WEND ∧ depth = 0 := by
  have hn : n ∈ p.numbers.filter (a < ·) := by simp [hrow]
  have hbehind : a < n := of_decide_eq_true (List.mem_filter.1 hn).2
  have hbetween := between_of_row hrow
  constructor
  · intro h
    have hbalanced := h.balanced
    rw [hbetween] at hbalanced
    exact ⟨h.closing, by omega⟩
  · rintro ⟨hclosing, rfl⟩
    exact ⟨hbehind, hclosing, by rw [hbetween, hdepth, Nat.add_zero]⟩

-- The lines that have been read are carried along, for the depth is a count over them.
theorem closer?_eq_find? (hrow : p.numbers.filter (a < ·) = front ++ rest)
    (hdepth : p.count .WHILE front = p.count .WEND front + depth) :
    p.closer? depth rest = rest.find? (p.Balances a ·) := by
  -- what stands before `rest` is kept in `front`, with `depth` heads too many
  induction rest generalizing front depth with
  | nil => rfl
  | cons n rest ih =>
    have hbalances := balances_iff hrow hdepth
    have hnext : p.numbers.filter (a < ·) = (front ++ [n]) ++ rest := by simpa using hrow
    by_cases hw : p.keywordAt n = some .WHILE
    · have hnot : ¬ p.Balances a n := by simp [hbalances, hw]
      rw [closer?_head hw, List.find?_cons_of_neg (by simpa using hnot)]
      refine ih hnext ?_
      rw [count_concat_self hw, count_concat_other (by simp [hw])]
      omega
    by_cases he : p.keywordAt n = some .WEND
    · cases depth with
      | zero =>
        have hyes : p.Balances a n := hbalances.2 ⟨he, rfl⟩
        rw [closer?_end_zero he, List.find?_cons_of_pos (by simpa using hyes)]
      | succ depth =>
        have hnot : ¬ p.Balances a n := by simp [hbalances]
        rw [closer?_end_succ he, List.find?_cons_of_neg (by simpa using hnot)]
        refine ih hnext ?_
        rw [count_concat_self he, count_concat_other hw]
        omega
    · have hnot : ¬ p.Balances a n := by simp [hbalances, he]
      rw [closer?_plain hw he, List.find?_cons_of_neg (by simpa using hnot)]
      refine ih hnext ?_
      rw [count_concat_other hw, count_concat_other he, hdepth]

theorem loopEnd?_eq_find? (p : Program) (a : Int) :
    p.loopEnd? a = (p.numbers.filter (a < ·)).find? (p.Balances a ·) := by
  have hrow : p.numbers.filter (a < ·) = [] ++ p.numbers.filter (a < ·) := rfl
  rw [loopEnd?_eq]
  exact closer?_eq_find? hrow rfl

theorem Balances.mem (h : p.Balances a w) : w ∈ p.numbers.filter (a < ·) :=
  List.mem_filter.2 ⟨mem_numbers_of_keywordAt h.closing, decide_eq_true h.behind⟩

theorem loopEnd?_eq_none_iff : p.loopEnd? a = none ↔ ∀ w, ¬ p.Balances a w := by
  rw [loopEnd?_eq_find?, List.find?_eq_none]
  constructor
  · intro h w hw
    exact h w hw.mem (decide_eq_true hw)
  · intro h w _ hw
    exact h w (of_decide_eq_true hw)

theorem isLeast_of_loopEnd? (h : p.loopEnd? a = some w) : IsLeast {v | p.Balances a v} w := by
  rw [loopEnd?_eq_find?, List.find?_eq_some_iff_append] at h
  obtain ⟨hw, front, rest, hrow, hfront⟩ := h
  refine ⟨of_decide_eq_true hw, fun v hv => ?_⟩
  have hasc := p.after_ascending a
  have hmem := hv.mem
  rw [hrow, List.pairwise_append, List.pairwise_cons] at hasc
  rw [hrow] at hmem
  rcases List.mem_append.1 hmem with hmem | hmem
  · have hnot : ¬ p.Balances a v := by simpa using hfront v hmem
    exact absurd hv hnot
  rcases List.mem_cons.1 hmem with rfl | hmem
  · exact Int.le_refl _
  · exact Int.le_of_lt (hasc.2.1.1 v hmem)

theorem loopEnd?_eq_some_iff : p.loopEnd? a = some w ↔ IsLeast {v | p.Balances a v} w := by
  constructor
  · exact isLeast_of_loopEnd?
  · intro h
    cases hend : p.loopEnd? a with
    | none => exact absurd h.1 (loopEnd?_eq_none_iff.1 hend w)
    | some v => rw [(isLeast_of_loopEnd? hend).unique h]

end Scan

end Program

/-- The end of a loop is the matching bracket of its head, and there is no fault but the lack of one,
which cannot be told of a line with too many digits. Loops are nested or apart. -/
theorem loop_ends_match_brackets (p : Program) (ns : List Int) (hns : ns.Perm p.numbers) :
    let image : Image := ⟨p, .ofList ns⟩
    (∀ a w, image.loopEnd a = .ok w ↔ IsLeast {v | p.Balances a v} w) ∧
    (∀ a fault, image.loopEnd a = .error fault ↔ (∀ w, ¬ p.Balances a w) ∧
      if Text.isLong a then fault = .longNumber
      else fault = .unclosedLoop a ∧ fault.kind? = some .unmatchedLoop) ∧
    ∀ a b w, p.keywordAt a = some .WHILE → p.keywordAt b = some .WHILE → a < b →
      image.loopEnd a = .ok w →
        (b < w → ∃ v, image.loopEnd b = .ok v ∧ v < w) ∧ image.loopEnd b ≠ .ok w := by
  rw [Image.ofList_eq_ofProgram hns]
  have hend (a : Int) : (Image.ofProgram p).loopEnd a =
      (p.loopEnd? a).elim (.error (Fault.unclosedLoop a).raised) .ok := by
    rw [Program.loopEnd_eq, Program.loopEnd?_eq]
  have hok (a w : Int) : (Image.ofProgram p).loopEnd a = .ok w ↔ p.loopEnd? a = some w := by
    rw [hend]
    cases p.loopEnd? a <;> simp
  refine ⟨fun a w => ?_, fun a fault => ?_, fun a b w _ hb hab ha => ?_⟩
  · rw [hok, Program.loopEnd?_eq_some_iff]
  · rw [hend, ← Program.loopEnd?_eq_none_iff]
    cases p.loopEnd? a with
    | some w => simp
    | none =>
      simp only [Option.elim_none, Except.error.injEq, true_and]
      by_cases hlong : Text.isLong a = true
      · rw [Fault.raised_of_long rfl hlong, if_pos hlong, eq_comm]
      · rw [Fault.raised_of_short rfl (Bool.not_eq_true _ ▸ hlong), if_neg hlong]
        constructor
        · rintro rfl
          exact ⟨rfl, rfl⟩
        · exact fun h => h.1.symm
  · rw [hok] at ha
    have hnested (hbw : b < w) := Program.loopEnd?_nested ha hb hab hbw
    simp only [hok, ne_eq]
    refine ⟨hnested, fun hsame => ?_⟩
    -- an end of both would lie behind `b`, and so inside the loop of `a` there is an earlier one
    obtain ⟨v, hv, hlt⟩ := hnested (Program.loopEnd?_spec hsame).2.1
    cases hv.symm.trans hsame
    exact Int.lt_irrefl w hlt

def bracketed : Program := .ofLines
  [(10, "WHILE A < 1"), (20, "while B < 1"), (30, "PRINT \"open"), (40, "WEND"), (50, "wend"),
    (60, "WHILE 1 = 1")]

theorem bracketed_matched : [40, 10, 60, 20, 50, 30].Perm bracketed.numbers ∧
    IsLeast {v | bracketed.Balances 10 v} 50 ∧ (∀ w, ¬ bracketed.Balances 60 w) ∧
    ∃ v, (⟨bracketed, .ofList [40, 10, 60, 20, 50, 30]⟩ : Image).loopEnd 20 = .ok v ∧ v < 50 := by
  have hperm : [40, 10, 60, 20, 50, 30].Perm bracketed.numbers := by decide +kernel
  obtain ⟨hleast, hnone, hnested⟩ := loop_ends_match_brackets bracketed _ hperm
  rw [Image.ofList_eq_ofProgram hperm] at hleast hnone hnested ⊢
  have hend : ((Image.ofProgram bracketed).loopEnd 10).toOption = some 50 := by decide +kernel
  have hlack : ((Image.ofProgram bracketed).loopEnd 60).toOption = none := by decide +kernel
  have hend := eq_ok_of_toOption hend
  obtain ⟨fault, hfault⟩ := eq_error_of_toOption hlack
  refine ⟨hperm, (hleast 10 50).1 hend, ((hnone 60 fault).1 hfault).1, ?_⟩
  exact (hnested 10 20 50 (by decide +kernel) (by decide +kernel) (by decide) hend).1 (by decide)

end NumberedBasic
