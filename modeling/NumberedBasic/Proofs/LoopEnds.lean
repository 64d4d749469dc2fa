import NumberedBasic.Proofs.Runs

set_option autoImplicit false

/-!
# Loop heads and loop ends

The end of a loop is found by counting heads and ends forward from its head. `closer?` is that count
on a row of line numbers. Two loops never cross: a head inside a loop has its end inside it as well
(`loopEnd?_nested`).
-/
namespace NumberedBasic

@[simp] theorem Image.ofProgram_numbers (p : Program) : (ofProgram p).order.numbers = p.numbers := rfl

namespace Program

def keywordAt (p : Program) (n : Int) : Option Keyword := (p.text? n).bind Token.headKeyword?

def loopEnd? (p : Program) (n : Int) : Option Int := ((Image.ofProgram p).loopEnd n).toOption

theorem mem_numbers_of_keywordAt {p : Program} {n : Int} {k : Keyword}
    (h : p.keywordAt n = some k) : n ∈ p.numbers := by
  obtain ⟨text, ht, -⟩ := Option.bind_eq_some_iff.1 h
  simp [mem_numbers_iff, ht]

theorem mem_numbers_of_statementAt {p : Program} {n : Int} {s : Statement Int}
    (h : (Image.ofProgram p).statementAt n = .ok s) : n ∈ p.numbers := by
  unfold Image.statementAt at h
  split at h
  · cases h
  rename_i text ht
  change p.text? n = some text at ht
  simp [mem_numbers_iff, ht]

theorem keywordAt_of_statementAt {p : Program} {n : Int} {s : Statement Int}
    (h : (Image.ofProgram p).statementAt n = .ok s) : p.keywordAt n = s.keyword? := by
  unfold Image.statementAt at h
  split at h
  · cases h
  rename_i text ht
  change p.text? n = some text at ht
  rw [keywordAt, ht]
  exact Statement.headKeyword?_ofLine h

/-- The first end in a row that has no head there, where `depth` heads are open already. -/
def closer? (p : Program) (depth : Nat) : List Int → Option Int
  | [] => none
  | n :: rest =>
    match p.keywordAt n, depth with
    | some .WHILE, depth => p.closer? (depth + 1) rest
    | some .WEND, 0 => some n
    | some .WEND, depth + 1 => p.closer? depth rest
    | _, depth => p.closer? depth rest

theorem closer?_head {p : Program} {n : Int} (h : p.keywordAt n = some .WHILE) (depth : Nat)
    (rest : List Int) : p.closer? depth (n :: rest) = p.closer? (depth + 1) rest := by
  cases depth <;> simp [closer?, h]

theorem closer?_end_zero {p : Program} {n : Int} (h : p.keywordAt n = some .WEND)
    (rest : List Int) : p.closer? 0 (n :: rest) = some n := by
  simp [closer?, h]

theorem closer?_end_succ {p : Program} {n : Int} (h : p.keywordAt n = some .WEND) (depth : Nat)
    (rest : List Int) : p.closer? (depth + 1) (n :: rest) = p.closer? depth rest := by
  simp [closer?, h]

theorem closer?_plain {p : Program} {n : Int} (hw : p.keywordAt n ≠ some .WHILE)
    (he : p.keywordAt n ≠ some .WEND) (depth : Nat) (rest : List Int) :
    p.closer? depth (n :: rest) = p.closer? depth rest := by
  simp only [closer?]
  split <;> simp_all

theorem closer?_map {p q : Program} {f : Int → Int} {ns : List Int}
    (hkeys : ∀ n ∈ ns, q.keywordAt (f n) = p.keywordAt n) (depth : Nat) :
    q.closer? depth (ns.map f) = (p.closer? depth ns).map f := by
  induction ns generalizing depth with
  | nil => rfl
  | cons n rest ih =>
    have hkey := hkeys n List.mem_cons_self
    have hrest (d : Nat) := ih (fun m hm => hkeys m (List.mem_cons_of_mem n hm)) d
    rw [List.map_cons]
    by_cases hw : p.keywordAt n = some .WHILE
    · rw [closer?_head (hkey.trans hw), closer?_head hw, hrest]
    by_cases he : p.keywordAt n = some .WEND
    · cases depth with
      | zero =>
        rw [closer?_end_zero (hkey.trans he), closer?_end_zero he]
        rfl
      | succ depth => rw [closer?_end_succ (hkey.trans he), closer?_end_succ he, hrest]
    · rw [closer?_plain (hkey ▸ hw) (hkey ▸ he), closer?_plain hw he, hrest]

theorem closer?_insert_plain {p : Program} {n : Int} (hw : p.keywordAt n ≠ some .WHILE)
    (he : p.keywordAt n ≠ some .WEND) (depth : Nat) (front back : List Int) :
    p.closer? depth (front ++ n :: back) = p.closer? depth (front ++ back) := by
  induction front generalizing depth with
  | nil => exact closer?_plain hw he depth back
  | cons m rest ih =>
    rw [List.cons_append, List.cons_append]
    by_cases hmw : p.keywordAt m = some .WHILE
    · rw [closer?_head hmw, closer?_head hmw, ih]
    by_cases hme : p.keywordAt m = some .WEND
    · cases depth with
      | zero => rw [closer?_end_zero hme, closer?_end_zero hme]
      | succ depth => rw [closer?_end_succ hme, closer?_end_succ hme, ih]
    · rw [closer?_plain hmw hme, closer?_plain hmw hme, ih]

theorem closing?_eq {p : Program} {depth : Nat} {ns : List Int} (h : ∀ n ∈ ns, n ∈ p.numbers) :
    Image.closing? p depth ns = .ok (p.closer? depth ns) := by
  induction ns generalizing depth with
  | nil => rfl
  | cons n rest ih =>
    have hrest (d : Nat) : Image.closing? p d rest = .ok (p.closer? d rest) :=
      ih fun m hm => h m (List.mem_cons_of_mem n hm)
    obtain ⟨text, ht⟩ := Option.isSome_iff_exists.1 (mem_numbers_iff.1 (h n List.mem_cons_self))
    have hk : p.keywordAt n = Token.headKeyword? text := by simp [keywordAt, ht]
    by_cases hw : p.keywordAt n = some .WHILE
    · rw [closer?_head hw, ← hrest]
      rw [hk] at hw
      simp [Image.closing?, ht, hw]
    by_cases he : p.keywordAt n = some .WEND
    · cases depth with
      | zero =>
        rw [closer?_end_zero he]
        rw [hk] at he
        simp [Image.closing?, ht, he]
      | succ depth =>
        rw [closer?_end_succ he, ← hrest]
        rw [hk] at he
        simp [Image.closing?, ht, he]
    · rw [closer?_plain hw he, ← hrest]
      rw [hk] at hw he
      simp [Image.closing?, ht]

theorem loopEnd_eq (p : Program) (n : Int) : (Image.ofProgram p).loopEnd n =
    (p.closer? 0 (p.numbers.filter (n < ·))).elim (.error (Fault.unclosedLoop n).raised) .ok := by
  have hscan : Image.closing? (Image.ofProgram p).program 0 ((Image.ofProgram p).order.after n) =
      .ok (p.closer? 0 (p.numbers.filter (n < ·))) := by
    rw [LineOrder.after_eq_filter, Image.ofProgram_numbers]
    exact closing?_eq fun m hm => (List.mem_filter.1 hm).1
  rw [Image.loopEnd, hscan]
  cases p.closer? 0 (p.numbers.filter (n < ·)) <;> rfl

theorem loopEnd?_eq (p : Program) (n : Int) :
    p.loopEnd? n = p.closer? 0 (p.numbers.filter (n < ·)) := by
  rw [loopEnd?, loopEnd_eq]
  cases p.closer? 0 (p.numbers.filter (n < ·)) <;> rfl

theorem loopEnd_of_some {p : Program} {n m : Int} (h : p.loopEnd? n = some m) :
    (Image.ofProgram p).loopEnd n = .ok m := by
  rw [loopEnd_eq, ← loopEnd?_eq, h, Option.elim_some]

theorem closer?_mem {p : Program} {depth : Nat} {ns : List Int} {m : Int}
    (h : p.closer? depth ns = some m) : m ∈ ns ∧ p.keywordAt m = some .WEND := by
  induction ns generalizing depth with
  | nil => cases h
  | cons n rest ih =>
    have hrest {d : Nat} (h : p.closer? d rest = some m) : m ∈ n :: rest ∧ p.keywordAt m = some .WEND :=
      (ih h).imp_left (List.mem_cons_of_mem n)
    by_cases hw : p.keywordAt n = some .WHILE
    · exact hrest (closer?_head hw depth rest ▸ h)
    by_cases he : p.keywordAt n = some .WEND
    · cases depth with
      | zero =>
        rw [closer?_end_zero he] at h
        cases h
        exact ⟨List.mem_cons_self, he⟩
      | succ depth => exact hrest (closer?_end_succ he depth rest ▸ h)
    · exact hrest (closer?_plain hw he depth rest ▸ h)

/-- With fewer open heads the count ends earlier. -/
theorem closer?_shallower {p : Program} {depth : Nat} {ns : List Int} {m : Int}
    (hns : ns.Pairwise (· < ·)) (h : p.closer? (depth + 1) ns = some m) :
    ∃ k, p.closer? depth ns = some k ∧ k < m := by
  induction ns generalizing depth with
  | nil => cases h
  | cons n rest ih =>
    obtain ⟨hn, hrest⟩ := List.pairwise_cons.1 hns
    by_cases hw : p.keywordAt n = some .WHILE
    · rw [closer?_head hw] at h ⊢
      exact ih hrest h
    by_cases he : p.keywordAt n = some .WEND
    · rw [closer?_end_succ he] at h
      cases depth with
      | zero => exact ⟨n, closer?_end_zero he rest, hn m (closer?_mem h).1⟩
      | succ depth =>
        rw [closer?_end_succ he]
        exact ih hrest h
    · rw [closer?_plain hw he] at h ⊢
      exact ih hrest h

theorem closer?_zero {p : Program} {depth : Nat} {ns : List Int} {m : Int}
    (hns : ns.Pairwise (· < ·)) (h : p.closer? (depth + 1) ns = some m) :
    ∃ k, p.closer? 0 ns = some k ∧ k < m := by
  induction depth generalizing m with
  | zero => exact closer?_shallower hns h
  | succ depth ih =>
    obtain ⟨k, hk, hlt⟩ := closer?_shallower hns h
    obtain ⟨k', hk', hlt'⟩ := ih hk
    exact ⟨k', hk', Int.lt_trans hlt' hlt⟩

/-- A count that ends behind a row goes through it. -/
theorem closer?_append {p : Program} {depth : Nat} {front back : List Int} {m : Int}
    (h : p.closer? depth (front ++ back) = some m) (hm : m ∉ front) :
    ∃ d, p.closer? d back = some m := by
  induction front generalizing depth with
  | nil => exact ⟨depth, h⟩
  | cons n rest ih =>
    have hrest {d : Nat} (h : p.closer? d (rest ++ back) = some m) : ∃ d, p.closer? d back = some m :=
      ih h fun hmem => hm (List.mem_cons_of_mem n hmem)
    rw [List.cons_append] at h
    by_cases hw : p.keywordAt n = some .WHILE
    · exact hrest (closer?_head hw depth _ ▸ h)
    by_cases he : p.keywordAt n = some .WEND
    · cases depth with
      | zero =>
        rw [closer?_end_zero he] at h
        cases h
        exact absurd List.mem_cons_self hm
      | succ depth => exact hrest (closer?_end_succ he depth _ ▸ h)
    · exact hrest (closer?_plain hw he depth _ ▸ h)

theorem loopEnd?_spec {p : Program} {n m : Int} (h : p.loopEnd? n = some m) :
    m ∈ p.numbers ∧ n < m ∧ p.keywordAt m = some .WEND := by
  rw [loopEnd?_eq] at h
  obtain ⟨hm, hk⟩ := closer?_mem h
  obtain ⟨hin, hlt⟩ := List.mem_filter.1 hm
  exact ⟨hin, of_decide_eq_true hlt, hk⟩

theorem filter_after {p : Program} {front back : List Int} {n : Int}
    (h : p.numbers = front ++ n :: back) : p.numbers.filter (n < ·) = back := by
  have hasc := p.numbers_ascending
  rw [h, List.pairwise_append, List.pairwise_cons] at hasc
  obtain ⟨-, ⟨hback, -⟩, hfront⟩ := hasc
  have hnone : front.filter (n < ·) = [] := by
    refine List.filter_eq_nil_iff.2 fun m hm => ?_
    simpa using Int.le_of_lt (hfront m hm n List.mem_cons_self)
  have hall : back.filter (n < ·) = back :=
    List.filter_eq_self.2 fun m hm => decide_eq_true (hback m hm)
  rw [h, List.filter_append, hnone, List.filter_cons_of_neg (by simp), hall, List.nil_append]

theorem filter_split {p : Program} {a b : Int} (hab : a < b) (hb : b ∈ p.numbers) :
    ∃ front, p.numbers.filter (a < ·) = front ++ b :: p.numbers.filter (b < ·) ∧
      ∀ n ∈ front, n < b := by
  obtain ⟨front, back, hrow⟩ := List.append_of_mem hb
  have hasc := p.numbers_ascending
  rw [hrow, List.pairwise_append, List.pairwise_cons] at hasc
  obtain ⟨-, ⟨hback, -⟩, hfront⟩ := hasc
  have hall : back.filter (a < ·) = back :=
    List.filter_eq_self.2 fun n hn => decide_eq_true (Int.lt_trans hab (hback n hn))
  refine ⟨front.filter (a < ·), ?_, fun n hn => ?_⟩
  · rw [filter_after hrow, hrow, List.filter_append, List.filter_cons_of_pos (by simp [hab]), hall]
  · exact hfront n (List.mem_filter.1 hn).1 b List.mem_cons_self

theorem loopEnd?_nested {p : Program} {a b m : Int} (ha : p.loopEnd? a = some m)
    (hb : p.keywordAt b = some .WHILE) (hab : a < b) (hbm : b < m) :
    ∃ k, p.loopEnd? b = some k ∧ k < m := by
  obtain ⟨front, hrow, hfront⟩ := filter_split hab (mem_numbers_of_keywordAt hb)
  rw [loopEnd?_eq, hrow] at ha
  have hm : m ∉ front := fun h => Int.lt_irrefl m (Int.lt_trans (hfront m h) hbm)
  obtain ⟨d, hd⟩ := closer?_append ha hm
  rw [closer?_head hb] at hd
  rw [loopEnd?_eq]
  exact closer?_zero (p.numbers_ascending.filter _) hd

end Program

end NumberedBasic
