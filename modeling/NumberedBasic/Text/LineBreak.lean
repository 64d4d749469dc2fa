import NumberedBasic.Text.Blank

set_option autoImplicit false

/-!
# Line breaks

The characters that end a line of a listing, and the cutting of a text at them. A carriage return
followed by a line feed is one break, and a break at the very end opens no further line. Lines
hold no breaks, and a line that holds none is cut off whole: `not_break_of_mem_lines` and
`lines_append_feed`.
-/
namespace NumberedBasic.Text

def isLineBreak (c : Char) : Bool :=
  let n := c.toNat
  (10 ≤ n && n ≤ 13) || (28 ≤ n && n ≤ 30) || n == 0x85 || n == 0x2028 || n == 0x2029

/-- The lines of the text that starts with `line`, given in reverse and free of breaks, and goes
on with the second argument. -/
def linesFrom (line : List Char) : List Char → List (List Char)
  | [] => if line.isEmpty then [] else [line.reverse]
  | '\r' :: '\n' :: rest => line.reverse :: linesFrom [] rest
  | c :: rest =>
    if isLineBreak c then line.reverse :: linesFrom [] rest else linesFrom (c :: line) rest

def lines (cs : List Char) : List (List Char) := linesFrom [] cs

/-- Line feed, carriage return, vertical tab, form feed, the separators of files, groups and
records, next line, and the separators of lines and paragraphs. -/
def lineBreaks : List Char :=
  ['\n', '\r', '\x0b', '\x0c', '\x1c', '\x1d', '\x1e', '\u0085', '\u2028', '\u2029']

theorem isLineBreak_iff {c : Char} : isLineBreak c = true ↔ c ∈ lineBreaks := by
  simp only [isLineBreak, lineBreaks, List.mem_cons, List.not_mem_nil, or_false, ← Char.toNat_inj,
    Char.reduceToNat, Bool.or_eq_true, Bool.and_eq_true, decide_eq_true_eq, beq_iff_eq]
  omega

theorem not_break_of_not_blank {c : Char} (h : isBlank c = false) : isLineBreak c = false := by
  simp only [isBlank, isLineBreak, Bool.or_eq_false_iff, Bool.and_eq_false_iff,
    decide_eq_false_iff_not, beq_eq_false_iff_ne] at h ⊢
  omega

theorem linesFrom_cons {c : Char} (h : isLineBreak c = false) (line rest : List Char) :
    linesFrom line (c :: rest) = linesFrom (c :: line) rest := by
  rw [linesFrom, h, if_neg Bool.false_ne_true]
  rintro rest' rfl -
  exact absurd h (by decide)

theorem linesFrom_append_feed {cs : List Char} (h : ∀ c ∈ cs, isLineBreak c = false)
    (line rest : List Char) :
    linesFrom line (cs ++ '\n' :: rest) = (line.reverse ++ cs) :: lines rest := by
  induction cs generalizing line with
  | nil => rw [List.append_nil]; rfl
  | cons c cs ih =>
    rw [List.cons_append, linesFrom_cons (h c (.head _)), ih fun d hd => h d (.tail _ hd)]
    simp

theorem lines_append_feed {cs : List Char} (h : ∀ c ∈ cs, isLineBreak c = false)
    (rest : List Char) : lines (cs ++ '\n' :: rest) = cs :: lines rest :=
  linesFrom_append_feed h [] rest

theorem not_break_of_mem_linesFrom {line cs l : List Char}
    (hline : ∀ c ∈ line, isLineBreak c = false) (hl : l ∈ linesFrom line cs) :
    ∀ c ∈ l, isLineBreak c = false := by
  fun_induction linesFrom line cs with
  | case1 line hempty => cases hl
  | case2 line hempty =>
    cases List.mem_singleton.1 hl
    exact fun c hc => hline c (List.mem_reverse.1 hc)
  | case3 line rest ih | case4 line c rest hpair hbreak ih =>
    rcases List.mem_cons.1 hl with rfl | hl
    · exact fun c hc => hline c (List.mem_reverse.1 hc)
    · exact ih (fun c hc => by cases hc) hl
  | case5 line c rest hpair hbreak ih =>
    refine ih (fun d hd => ?_) hl
    rcases List.mem_cons.1 hd with rfl | hd
    · exact Bool.eq_false_iff.2 hbreak
    · exact hline d hd

theorem not_break_of_mem_lines {cs l : List Char} (hl : l ∈ lines cs) :
    ∀ c ∈ l, isLineBreak c = false :=
  not_break_of_mem_linesFrom (fun c hc => by cases hc) hl

/-- A text with each carriage return, alone or before a line feed, turned into one line feed: the
form in which a program file is read. -/
def unifyBreaks : List Char → List Char
  | [] => []
  | '\r' :: '\n' :: rest => '\n' :: unifyBreaks rest
  | '\r' :: rest => '\n' :: unifyBreaks rest
  | c :: rest => c :: unifyBreaks rest

end NumberedBasic.Text
