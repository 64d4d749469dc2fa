set_option autoImplicit false

/-!
# Programs

A program is a finite table from line numbers to the texts of lines, kept in ascending order. Every
integer can be a line number here; `Program.Edit` holds the edits that keep numbers positive and
texts trimmed. `text?_insert` and `text?_erase` are the laws of the table, and `eq_of_text?` says that
nothing but its look-ups makes a program.
-/
namespace NumberedBasic

/-- Puts a line in its place, in place of one of the same number if there is one. -/
def insertLine (n : Int) (text : String) : List (Int × String) → List (Int × String)
  | [] => [(n, text)]
  | (m, other) :: rest =>
    if n < m then (n, text) :: (m, other) :: rest
    else if n = m then (n, text) :: rest
    else (m, other) :: insertLine n text rest

theorem mem_insertLine {n : Int} {text : String} {lines : List (Int × String)} {l : Int × String}
    (h : l ∈ insertLine n text lines) : l = (n, text) ∨ l ∈ lines := by
  induction lines with
  | nil => simpa [insertLine] using h
  | cons head rest ih =>
    simp only [insertLine] at h
    split at h
    · simpa using h
    split at h
    · rcases List.mem_cons.1 h with h | h
      · exact .inl h
      · exact .inr (.tail _ h)
    · rcases List.mem_cons.1 h with h | h
      · exact .inr (h ▸ .head _)
      · exact (ih h).imp_right (.tail _)

theorem insertLine_ascending {n : Int} {text : String} {lines : List (Int × String)}
    (h : lines.Pairwise (·.1 < ·.1)) : (insertLine n text lines).Pairwise (·.1 < ·.1) := by
  induction lines with
  | nil => simp [insertLine]
  | cons head rest ih =>
    obtain ⟨hhead, hrest⟩ := List.pairwise_cons.1 h
    simp only [insertLine]
    split
    · rename_i hlt
      refine List.pairwise_cons.2 ⟨fun l hl => ?_, h⟩
      rcases List.mem_cons.1 hl with rfl | hl
      · exact hlt
      · exact Int.lt_trans hlt (hhead l hl)
    split
    · rename_i heq
      exact List.pairwise_cons.2 ⟨fun l hl => heq ▸ hhead l hl, hrest⟩
    · rename_i hlt hne
      refine List.pairwise_cons.2 ⟨fun l hl => ?_, ih hrest⟩
      rcases mem_insertLine hl with rfl | hl
      · exact Int.lt_iff_le_and_ne.2 ⟨Int.not_lt.1 hlt, fun h => hne h.symm⟩
      · exact hhead l hl

theorem lookup_eq_none_of_lt {n : Int} {lines : List (Int × String)} (h : ∀ l ∈ lines, n < l.1) :
    lines.lookup n = none := by
  induction lines with
  | nil => rfl
  | cons head rest ih =>
    obtain ⟨m, other⟩ := head
    have hne : n ≠ m := Int.ne_of_lt (h (m, other) List.mem_cons_self)
    rw [List.lookup_cons, beq_eq_false_iff_ne.2 hne]
    exact ih fun l hl => h l (.tail _ hl)

theorem lookup_eq_none_of_lt_head {n m : Int} {text : String} {rest : List (Int × String)}
    (hasc : ((m, text) :: rest).Pairwise (·.1 < ·.1)) (h : n < m) :
    ((m, text) :: rest).lookup n = none := by
  refine lookup_eq_none_of_lt fun l hl => ?_
  rcases List.mem_cons.1 hl with rfl | hl
  · exact h
  · exact Int.lt_trans h ((List.pairwise_cons.1 hasc).1 l hl)

theorem lookup_insertLine (n k : Int) (text : String) (lines : List (Int × String)) :
    (insertLine n text lines).lookup k = if k = n then some text else lines.lookup k := by
  induction lines with
  | nil =>
    by_cases h : k = n
    · simp [insertLine, h]
    · simp [insertLine, List.lookup_cons, h, beq_eq_false_iff_ne.2 h]
  | cons head rest ih =>
    obtain ⟨m, other⟩ := head
    simp only [insertLine]
    split
    · by_cases h : k = n
      · simp [h]
      · simp [List.lookup_cons, h, beq_eq_false_iff_ne.2 h]
    split
    · rename_i heq
      subst heq
      by_cases h : k = n
      · simp [h]
      · simp [List.lookup_cons, h, beq_eq_false_iff_ne.2 h]
    · rename_i hne
      by_cases h : k = n
      · subst h
        simp [List.lookup_cons, beq_eq_false_iff_ne.2 hne, ih]
      · simp [List.lookup_cons, h, ih]

theorem lookup_filter_ne (n k : Int) (lines : List (Int × String)) :
    (lines.filter (·.1 != n)).lookup k = if k = n then none else lines.lookup k := by
  induction lines with
  | nil => simp
  | cons head rest ih =>
    obtain ⟨m, other⟩ := head
    by_cases hm : m = n
    · subst hm
      by_cases h : k = m
      · simp [h] at ih ⊢
        exact ih
      · simp [List.lookup_cons, h, beq_eq_false_iff_ne.2 h, ih]
    · by_cases h : k = n
      · subst h
        simp [hm, List.lookup_cons, beq_eq_false_iff_ne.2 (Ne.symm hm), ih]
      · simp [hm, List.lookup_cons, h, ih]

theorem eq_of_lookup {xs ys : List (Int × String)} (hx : xs.Pairwise (·.1 < ·.1))
    (hy : ys.Pairwise (·.1 < ·.1)) (h : ∀ k, xs.lookup k = ys.lookup k) : xs = ys := by
  induction xs generalizing ys with
  | nil =>
    cases ys with
    | nil => rfl
    | cons y ys =>
      obtain ⟨m, other⟩ := y
      have hm := h m
      simp at hm
  | cons x xs ih =>
    obtain ⟨n, text⟩ := x
    cases ys with
    | nil =>
      have hn := h n
      simp at hn
    | cons y ys =>
      obtain ⟨m, other⟩ := y
      -- the smaller of two different first numbers would be missing in the other row
      have hnm : n = m := by
        rcases Int.lt_trichotomy n m with hlt | heq | hlt
        · have hn := h n
          simp [lookup_eq_none_of_lt_head hy hlt] at hn
        · exact heq
        · have hm := h m
          simp [lookup_eq_none_of_lt_head hx hlt] at hm
      subst hnm
      have htext := h n
      simp only [List.lookup_cons_self, Option.some.injEq] at htext
      obtain ⟨hx₁, hx₂⟩ := List.pairwise_cons.1 hx
      obtain ⟨hy₁, hy₂⟩ := List.pairwise_cons.1 hy
      have hrest : xs = ys := by
        refine ih hx₂ hy₂ fun k => ?_
        by_cases hk : k = n
        · subst hk
          rw [lookup_eq_none_of_lt hx₁, lookup_eq_none_of_lt hy₁]
        · have hk' := h k
          simpa only [List.lookup_cons, beq_eq_false_iff_ne.2 hk] using hk'
      rw [htext, hrest]

structure Program where
  lines : List (Int × String)
  ascending : lines.Pairwise (·.1 < ·.1)
  deriving DecidableEq

namespace Program

def empty : Program := ⟨[], .nil⟩

def text? (p : Program) (n : Int) : Option String := p.lines.lookup n

def numbers (p : Program) : List Int := p.lines.map (·.1)

def size (p : Program) : Nat := p.lines.length

def insert (p : Program) (n : Int) (text : String) : Program :=
  ⟨insertLine n text p.lines, insertLine_ascending p.ascending⟩

def erase (p : Program) (n : Int) : Program :=
  ⟨p.lines.filter (·.1 != n), p.ascending.filter _⟩

/-- A program from lines in any order; of two with the same number the later one counts. -/
def ofLines (lines : List (Int × String)) : Program :=
  lines.foldl (fun p line => p.insert line.1 line.2) empty

@[simp] theorem text?_empty (n : Int) : empty.text? n = none := rfl

theorem text?_insert (p : Program) (n k : Int) (text : String) :
    (p.insert n text).text? k = if k = n then some text else p.text? k :=
  lookup_insertLine n k text p.lines

theorem text?_erase (p : Program) (n k : Int) :
    (p.erase n).text? k = if k = n then none else p.text? k :=
  lookup_filter_ne n k p.lines

theorem eq_of_text? {p q : Program} (h : ∀ n, p.text? n = q.text? n) : p = q := by
  have hlines : p.lines = q.lines := eq_of_lookup p.ascending q.ascending h
  cases p
  cases q
  cases hlines
  rfl

theorem text?_eq_some_iff {p : Program} {n : Int} {text : String} :
    p.text? n = some text ↔ (n, text) ∈ p.lines := by
  obtain ⟨lines, hasc⟩ := p
  simp only [text?]
  induction lines with
  | nil => simp
  | cons head rest ih =>
    obtain ⟨m, other⟩ := head
    obtain ⟨hhead, hrest⟩ := List.pairwise_cons.1 hasc
    by_cases h : n = m
    · subst h
      have hout : (n, text) ∉ rest := fun hmem => Int.lt_irrefl n (hhead (n, text) hmem)
      simp [hout, eq_comm]
    · simp [List.lookup_cons, beq_eq_false_iff_ne.2 h, h, ih hrest]

theorem mem_numbers_iff {p : Program} {n : Int} : n ∈ p.numbers ↔ (p.text? n).isSome := by
  rw [Option.isSome_iff_exists]
  simp [numbers, text?_eq_some_iff]

theorem numbers_ascending (p : Program) : p.numbers.Pairwise (· < ·) :=
  List.pairwise_map.2 p.ascending

end Program

end NumberedBasic
