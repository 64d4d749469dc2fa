import Mathlib.Data.List.Dedup
import Mathlib.Data.List.Induction
import Mathlib.Data.List.TakeWhile
import NumberedBasic.LineOrder

set_option autoImplicit false

/-!
# What the order of line numbers answers

The numbers may be given in any order and more than once. The next number is the least greater one,
the numbers after `n` are the greater ones with those given twice still twice, and the rank of `n`
is the last place where it stands. A cursor that starts at the first number and goes on to the next
one meets every number once, from the least to the greatest (`visit?_eq`).
-/
namespace NumberedBasic.LineOrder

/-- Where a cursor is that has started at the first number and gone on to the next one `i` times. -/
def visit? (order : LineOrder) : Nat → Option Int
  | 0 => order.first?
  | i + 1 => (order.visit? i).bind order.next?

section Answers

variable {order : LineOrder} {n : Int}

theorem after_perm (ns : List Int) (n : Int) :
    ((ofList ns).after n).Perm (ns.filter (n < ·)) := by
  rw [after_eq_filter]
  exact (ofList_perm ns).filter _

theorem lookup_reverse_zipIdx {ns : List Int} (h : ns.Pairwise (· ≤ ·)) (n : Int) :
    ns.zipIdx.reverse.lookup n =
      if n ∈ ns then some ((ns.takeWhile (· ≤ n)).length - 1) else none := by
  induction ns using List.reverseRecOn with
  | nil => rfl
  | append_singleton ns m ih =>
    obtain ⟨hns, -, hlast⟩ := List.pairwise_append.1 h
    have hm : ∀ k ∈ ns, k ≤ m := fun k hk => hlast k hk m (.head _)
    rw [List.zipIdx_append, List.reverse_append]
    simp only [List.zipIdx_singleton, List.reverse_singleton, List.singleton_append, List.lookup_cons]
    by_cases hn : n = m
    · subst hn
      have hall : (ns ++ [n]).takeWhile (· ≤ n) = ns ++ [n] := by
        refine List.takeWhile_eq_self_iff.2 fun k hk => ?_
        rcases List.mem_append.1 hk with hk | hk
        · simpa using hm k hk
        · simp [List.mem_singleton.1 hk]
      simp [hall]
    · rw [beq_eq_false_iff_ne.2 hn]
      simp only [ih hns, List.mem_append, List.mem_singleton, hn, or_false]
      split
      · rename_i hin
        have hlt : ¬ m ≤ n := fun hle => hn (Int.le_antisymm (hm n hin) hle)
        rw [List.takeWhile_append]
        split <;> simp [*]
      · rfl

/-- The rank in closed form: the last place where a number stands is that of the last number that is
not greater. -/
theorem rank?_eq (order : LineOrder) (n : Int) :
    order.rank? n =
      if n ∈ order.numbers then some ((order.numbers.takeWhile (· ≤ n)).length - 1) else none := by
  have hplaces : order.places = order.numbers.zipIdx.reverse := by
    rw [places, List.foldl_flip_cons_eq_append', List.append_nil]
  rw [rank?, hplaces]
  exact lookup_reverse_zipIdx order.ascending n

theorem atMost_append_after (order : LineOrder) (n : Int) :
    order.numbers.takeWhile (· ≤ n) ++ order.after n = order.numbers :=
  List.takeWhile_append_dropWhile

theorem mem_atMost (h : n ∈ order.numbers) : n ∈ order.numbers.takeWhile (· ≤ n) := by
  rw [← order.atMost_append_after n] at h
  rcases List.mem_append.1 h with hin | hin
  · exact hin
  · have hgreater := (mem_after.1 hin).2
    omega

theorem getLast?_atMost (h : n ∈ order.numbers) :
    (order.numbers.takeWhile (· ≤ n)).getLast? = some n := by
  have hin := mem_atMost h
  have hasc := order.ascending.sublist (List.takeWhile_sublist (· ≤ n))
  have hmost : ∀ k ∈ order.numbers.takeWhile (· ≤ n), k ≤ n :=
    fun k hk => by simpa using List.mem_takeWhile_imp hk
  generalize order.numbers.takeWhile (· ≤ n) = row at hin hasc hmost ⊢
  obtain ⟨front, last, rfl⟩ := List.eq_nil_or_concat' row |>.resolve_left (List.ne_nil_of_mem hin)
  have hlast : last ≤ n := hmost last (List.mem_append_right _ (.head _))
  rw [List.getLast?_concat]
  rcases List.mem_append.1 hin with hfront | hone
  · have hle : n ≤ last := (List.pairwise_append.1 hasc).2.2 n hfront last (.head _)
    rw [Int.le_antisymm hlast hle]
  · rw [List.mem_singleton.1 hone]

theorem rank?_last (h : n ∈ order.numbers) :
    ∃ i, order.rank? n = some i ∧ order.numbers[i]? = some n ∧
      ∀ j, order.numbers[j]? = some n → j ≤ i := by
  have hlast := getLast?_atMost h
  have hpos := List.length_pos_of_mem (mem_atMost h)
  refine ⟨_, (order.rank?_eq n).trans (if_pos h), ?_, fun j hj => ?_⟩
  · rw [← hlast, List.getLast?_eq_getElem?]
    nth_rewrite 1 [← order.atMost_append_after n]
    exact List.getElem?_append_left (by omega)
  · by_contra hbeyond
    rw [← order.atMost_append_after n, List.getElem?_append_right (by omega)] at hj
    have hgreater := (mem_after.1 (List.mem_of_getElem? hj)).2
    omega

theorem rank?_eq_some_iff {i : Nat} :
    order.rank? n = some i ↔
      order.numbers[i]? = some n ∧ ∀ j, order.numbers[j]? = some n → j ≤ i := by
  constructor
  · intro h
    have hin : n ∈ order.numbers := by
      rw [rank?_eq] at h
      split at h
      · assumption
      · cases h
    obtain ⟨k, hk, hat, hbound⟩ := rank?_last hin
    cases hk.symm.trans h
    exact ⟨hat, hbound⟩
  · rintro ⟨hat, hbound⟩
    obtain ⟨k, hk, hatk, hboundk⟩ := rank?_last (List.mem_of_getElem? hat)
    have hle := hboundk i hat
    have hge := hbound k hatk
    rw [hk, Nat.le_antisymm hge hle]

theorem exists_rank?_iff : (∃ i, order.rank? n = some i) ↔ n ∈ order.numbers := by
  constructor
  · rintro ⟨i, h⟩
    exact List.mem_of_getElem? (rank?_eq_some_iff.1 h).1
  · intro h
    obtain ⟨i, hi, -⟩ := rank?_last h
    exact ⟨i, hi⟩

end Answers

section Visits

variable {order : LineOrder} {visited : List Int}

theorem first?_eq (hasc : visited.Pairwise (· < ·))
    (hmem : ∀ k, k ∈ visited ↔ k ∈ order.numbers) : order.first? = visited[0]? := by
  have hnumbers := order.ascending
  unfold first?
  cases hrow : order.numbers with
  | nil =>
    have hnone : visited = [] :=
      List.eq_nil_iff_forall_not_mem.2 fun k hk => by simp [hmem, hrow] at hk
    rw [hnone]
    rfl
  | cons a rest =>
    rw [hrow] at hnumbers
    have hleast : ∀ k ∈ visited, a ≤ k := by
      intro k hk
      rw [hmem, hrow] at hk
      rcases List.mem_cons.1 hk with rfl | hk
      · exact Int.le_refl _
      · exact (List.pairwise_cons.1 hnumbers).1 k hk
    have ha : a ∈ visited := by simp [hmem, hrow]
    obtain ⟨b, others, rfl⟩ := List.exists_cons_of_ne_nil (List.ne_nil_of_mem ha)
    have hb := hleast b (.head _)
    rcases List.mem_cons.1 ha with rfl | ha
    · rfl
    · have hlt := (List.pairwise_cons.1 hasc).1 a ha
      omega

theorem next?_eq (hasc : visited.Pairwise (· < ·)) (hmem : ∀ k, k ∈ visited ↔ k ∈ order.numbers)
    {i : Nat} {k : Int} (hk : visited[i]? = some k) : order.next? k = visited[i + 1]? := by
  obtain ⟨hi, rfl⟩ := List.getElem?_eq_some_iff.1 hk
  have hordered := List.pairwise_iff_getElem.1 hasc
  by_cases hlast : i + 1 < visited.length
  · rw [List.getElem?_eq_getElem hlast, next?_eq_some_iff]
    refine ⟨(hmem _).1 (List.getElem_mem _), hordered i (i + 1) hi hlast (by omega), ?_⟩
    intro m hm hlt
    obtain ⟨j, hj, rfl⟩ := List.getElem_of_mem ((hmem m).2 hm)
    rcases Nat.lt_trichotomy j (i + 1) with hbefore | rfl | hbehind
    · -- up to the cursor no number is greater
      rcases Nat.lt_or_eq_of_le (Nat.le_of_lt_succ hbefore) with hji | rfl
      · have := hordered j i hj hi hji
        omega
      · omega
    · exact Int.le_refl _
    · exact Int.le_of_lt (hordered (i + 1) j hlast hj hbehind)
  · rw [List.getElem?_eq_none (by omega), next?_eq_none_iff]
    intro m hm
    obtain ⟨j, hj, rfl⟩ := List.getElem_of_mem ((hmem m).2 hm)
    rcases Nat.lt_or_ge j i with hji | hij
    · exact Int.le_of_lt (hordered j i hj hi hji)
    · obtain rfl : j = i := by omega
      exact Int.le_refl _

theorem visit?_eq (hasc : visited.Pairwise (· < ·)) (hmem : ∀ k, k ∈ visited ↔ k ∈ order.numbers)
    (i : Nat) : order.visit? i = visited[i]? := by
  induction i with
  | zero => exact first?_eq hasc hmem
  | succ i ih =>
    rw [visit?, ih]
    cases hi : visited[i]? with
    | none =>
      have hlength := List.getElem?_eq_none_iff.1 hi
      rw [List.getElem?_eq_none (by omega)]
      rfl
    | some k => exact next?_eq hasc hmem hi

theorem dedup_ascending (order : LineOrder) : order.numbers.dedup.Pairwise (· < ·) := by
  have hasc := order.ascending.sublist (List.dedup_sublist order.numbers)
  have hdistinct : order.numbers.dedup.Pairwise (· ≠ ·) := List.nodup_dedup order.numbers
  exact (hasc.and hdistinct).imp fun ⟨hle, hne⟩ => Int.lt_iff_le_and_ne.2 ⟨hle, hne⟩

end Visits

/-- For numbers in any order and with repetitions, every query has the answer that the sorted row
gives, and following the next number from the first one on goes through the distinct numbers in
ascending order and ends behind the last of them. -/
theorem queries_answer_for_sorted (ns : List Int) (n : Int) :
    (∀ m, (ofList ns).next? n = some m ↔ m ∈ ns ∧ n < m ∧ ∀ k ∈ ns, n < k → m ≤ k) ∧
      ((ofList ns).next? n = none ↔ ¬ ∃ k ∈ ns, n < k) ∧
      ((ofList ns).after n).Pairwise (· ≤ ·) ∧
      ((ofList ns).after n).Perm (ns.filter (n < ·)) ∧
      ((∃ i, (ofList ns).rank? n = some i) ↔ n ∈ ns) ∧
      (∀ i, (ofList ns).rank? n = some i ↔
        ns.mergeSort[i]? = some n ∧ ∀ j, ns.mergeSort[j]? = some n → j ≤ i) ∧
      ∃ visited : List Int, visited.Pairwise (· < ·) ∧ (∀ k, k ∈ visited ↔ k ∈ ns) ∧
        ∀ i, (ofList ns).visit? i = visited[i]? := by
  refine ⟨fun m => ?_, ?_, after_ascending _ n, after_perm ns n, ?_, fun i => ?_, ?_⟩
  · simp only [next?_eq_some_iff, mem_ofList]
  · simp only [next?_eq_none_iff, mem_ofList, not_exists, not_and, Int.not_lt]
  · rw [exists_rank?_iff, mem_ofList]
  · exact rank?_eq_some_iff
  · have hmem (k : Int) : k ∈ (ofList ns).numbers.dedup ↔ k ∈ (ofList ns).numbers := List.mem_dedup
    refine ⟨_, dedup_ascending (ofList ns), fun k => ?_, visit?_eq (dedup_ascending _) hmem⟩
    rw [hmem, mem_ofList]

example : let order : LineOrder := ⟨[10, 10, 20, 30], by decide⟩
    order.next? 10 = some 20 ∧ order.after 5 = [10, 10, 20, 30] ∧ order.rank? 10 = some 1 ∧
      (List.range 4).map order.visit? = [some 10, some 20, some 30, none] := by
  decide +kernel

end NumberedBasic.LineOrder
