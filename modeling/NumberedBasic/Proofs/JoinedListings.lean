import Mathlib.Data.List.Induction
import NumberedBasic.Proofs.Editing

set_option autoImplicit false

/-!
# Listings put together

Loading two listings as one is loading the first and then entering the lines of the second. Since
blank lines count for nothing, it does not matter that a carriage return and a line feed which meet
where the listings are joined make one break and not two: `filledFrom_break` has no case for the pair.
-/
namespace NumberedBasic

namespace Text

def breaks : List String := lineBreaks.map String.singleton ++ ["\r\n"]

def isFilled (cs : List Char) : Bool := !(trim cs).isEmpty

def filledFrom (line cs : List Char) : List (List Char) := (linesFrom line cs).filter isFilled

def filledLines (cs : List Char) : List (List Char) := filledFrom [] cs

theorem filledFrom_nil (line : List Char) : filledFrom line [] = [line.reverse].filter isFilled := by
  cases line with
  | nil => rfl
  | cons c line => rfl

/-- A line feed alone leaves a blank line, so it may as well belong to a carriage return before it. -/
theorem filledLines_feed (cs : List Char) : filledLines ('\n' :: cs) = filledLines cs := rfl

theorem filledFrom_break {c : Char} (hc : isLineBreak c = true) (line cs : List Char) :
    filledFrom line (c :: cs) = [line.reverse].filter isFilled ++ filledLines cs := by
  by_cases hpair : c = '\r' ∧ ∃ rest, cs = '\n' :: rest
  · obtain ⟨rfl, rest, rfl⟩ := hpair
    rw [filledLines_feed, filledFrom, linesFrom, ← List.singleton_append, List.filter_append]
    rfl
  · have hlines : linesFrom line (c :: cs) = line.reverse :: linesFrom [] cs := by
      rw [linesFrom, if_pos hc]
      rintro rest rfl rfl
      exact hpair ⟨rfl, rest, rfl⟩
    rw [filledFrom, hlines, ← List.singleton_append, List.filter_append]
    rfl

theorem filledFrom_plain {c : Char} (hc : isLineBreak c = false) (line cs : List Char) :
    filledFrom line (c :: cs) = filledFrom (c :: line) cs := by
  rw [filledFrom, linesFrom_cons hc, filledFrom]

theorem filledFrom_append_break {c : Char} (hc : isLineBreak c = true) (line xs ys : List Char) :
    filledFrom line (xs ++ c :: ys) = filledFrom line xs ++ filledLines ys := by
  induction xs generalizing line with
  | nil => rw [List.nil_append, filledFrom_break hc, filledFrom_nil]
  | cons d xs ih =>
    cases hd : isLineBreak d with
    | true =>
      rw [List.cons_append, filledFrom_break hd, filledFrom_break hd, List.append_assoc,
        filledLines, ih]
      rfl
    | false => rw [List.cons_append, filledFrom_plain hd, filledFrom_plain hd, ih]

theorem filledLines_append {feed : String} (h : feed ∈ breaks) (xs ys : List Char) :
    filledLines (xs ++ feed.toList ++ ys) = filledLines xs ++ filledLines ys := by
  rw [breaks, List.mem_append, List.mem_map, List.mem_singleton] at h
  rcases h with ⟨c, hc, rfl⟩ | rfl
  · rw [String.toList_singleton, List.append_assoc, List.singleton_append]
    exact filledFrom_append_break (isLineBreak_iff.2 hc) [] xs ys
  · rw [List.append_assoc]
    exact filledFrom_append_break (by decide) [] xs ('\n' :: ys)

end Text

namespace Program

theorem listingLines_append {feed : String} (h : feed ∈ Text.breaks) (s t : String) :
    listingLines (s ++ feed ++ t) = (do
      let rows ← listingLines s
      let more ← listingLines t
      return rows ++ more) := by
  have hlines (u : String) : listingLines u = (Text.filledLines u.toList).mapM listingLine := rfl
  rw [hlines, hlines, hlines, String.toList_append, String.toList_append, Text.filledLines_append h,
    List.mapM_append]

theorem foldlM_set_rows {rows : List (Int × String)} (h : ∀ line ∈ rows, 1 ≤ line.1) (p : Program) :
    rows.foldlM (fun p line => p.set (.integer line.1) line.2) p =
      .ok (rows.foldl (fun p line => p.enter line.1 line.2) p) := by
  induction rows generalizing p with
  | nil => rfl
  | cons line rows ih =>
    have hset : p.set (.integer line.1) line.2 = .ok (p.enter line.1 line.2) :=
      if_pos (h line (.head _))
    rw [List.foldlM_cons, hset]
    exact ih (fun l hl => h l (.tail _ hl)) _

theorem text?_enter (p : Program) (n k : Int) (text : String) : (p.enter n text).text? k =
    if k = n then (some (Text.trimmed text)).filter (· != "") else p.text? k := by
  rw [enter_eq]
  split
  · rename_i hblank
    rw [text?_erase, hblank]
    rfl
  · rename_i hfilled
    have hkept : (some (Text.trimmed text)).filter (· != "") = some (Text.trimmed text) :=
      Option.filter_some_pos (bne_iff_ne.2 hfilled)
    rw [text?_insert, hkept]

theorem text?_foldl_enter {rows : List (Int × String)} (p : Program) (k : Int) :
    (rows.foldl (fun p line => p.enter line.1 line.2) p).text? k =
      match rows.reverse.lookup k with
      | some text => (some (Text.trimmed text)).filter (· != "")
      | none => p.text? k := by
  induction rows using List.reverseRecOn with
  | nil => rfl
  | append_singleton rows line ih =>
    obtain ⟨n, text⟩ := line
    rw [List.foldl_append, List.foldl_cons, List.foldl_nil, text?_enter, List.reverse_append,
      List.reverse_singleton, List.singleton_append, List.lookup_cons]
    by_cases hk : k = n
    · simp [hk]
    · simp [hk, beq_eq_false_iff_ne.2 hk, ih]

theorem trimmed_of_listingLine {cs : List Char} {n : Int} {code : String}
    (h : listingLine cs = .ok (n, code)) : Text.trimmed code = code := by
  unfold listingLine at h
  simp only at h
  split at h
  · cases h
  split at h
  · cases h
  split at h
  · cases h
  cases h
  rw [Text.trimmed, String.toList_ofList, Text.trim_eq_self (Text.trim_trimmed _)]

theorem ofListing_eq_error_iff {s : String} {e : EditError} :
    ofListing s = .error e ↔ listingLines s = .error e := by
  rw [ofListing]
  cases listingLines s with
  | error d =>
    constructor <;>
    · intro h
      cases h
      rfl
  | ok rows =>
    constructor <;>
    · intro h
      cases h

theorem listingLines_of_ofListing {s : String} {p : Program} (h : ofListing s = .ok p) :
    ∃ rows, listingLines s = .ok rows ∧
      p = rows.foldl (fun p line => p.enter line.1 line.2) empty := by
  obtain ⟨rows, hrows, h⟩ := bind_eq_ok h
  cases h
  exact ⟨rows, hrows, rfl⟩

theorem text?_of_listingLines {s : String} {rows : List (Int × String)}
    (h : listingLines s = .ok rows) (n : Int) :
    (rows.foldl (fun p line => p.enter line.1 line.2) empty).text? n =
      (rows.reverse.lookup n).filter (· != "") := by
  rw [text?_foldl_enter]
  cases hn : rows.reverse.lookup n with
  | none => rfl
  | some text =>
    obtain ⟨before, after, hrows, -⟩ := List.lookup_eq_some_iff.1 hn
    have hmem : (n, text) ∈ rows := by
      rw [← List.mem_reverse, hrows]
      exact List.mem_append_right _ (.head _)
    obtain ⟨cs, -, hline⟩ := exists_of_mem_listingLines h hmem
    simp only [trimmed_of_listingLine hline]

/-- Two listings that load, put together with any line break between them, load as the program of the
first after the lines of the second are entered in their order, so that each number has the code of its
last line, and no line if that is blank. If one of them does not load, neither do both, because of the
first line that is refused: a line of the first listing if that one does not load alone. -/
theorem joined_listings_load (s t feed : String) (hfeed : feed ∈ Text.breaks) :
    (∀ p q, ofListing s = .ok p → ofListing t = .ok q →
      ∃ rows more r, listingLines s = .ok rows ∧ listingLines t = .ok more ∧
        more.foldlM (fun p line => p.set (.integer line.1) line.2) p = .ok r ∧
        ofListing (s ++ feed ++ t) = .ok r ∧
        ∀ n, r.text? n = ((rows ++ more).reverse.lookup n).filter (· != "")) ∧
    (∀ e, ofListing s = .error e → ofListing (s ++ feed ++ t) = .error e) ∧
    (∀ p e, ofListing s = .ok p → ofListing t = .error e →
      ofListing (s ++ feed ++ t) = .error e) ∧
    ∀ e, ofListing (s ++ feed ++ t) = .error e →
      ∃ before cs after, Text.filledLines (s ++ feed ++ t).toList = before ++ cs :: after ∧
        (∀ line ∈ before, ∃ row, listingLine line = .ok row) ∧ listingLine cs = .error e := by
  have hjoined := listingLines_append hfeed s t
  refine ⟨fun p q hp hq => ?_, fun e he => ?_, fun p e hp he => ?_, fun e he => ?_⟩
  · obtain ⟨rows, hrows, rfl⟩ := listingLines_of_ofListing hp
    obtain ⟨more, hmore, -⟩ := listingLines_of_ofListing hq
    rw [hrows, hmore] at hjoined
    refine ⟨rows, more, _, hrows, hmore, foldlM_set_rows (listingLines_positive hmore) _, ?_, fun n => ?_⟩
    · rw [← List.foldl_append]
      exact ofListing_of_ok hjoined
    · rw [← List.foldl_append]
      exact text?_of_listingLines hjoined n
  · rw [ofListing_eq_error_iff] at he ⊢
    rw [hjoined, he]
    rfl
  · obtain ⟨rows, hrows, -⟩ := listingLines_of_ofListing hp
    rw [ofListing_eq_error_iff] at he ⊢
    rw [hjoined, hrows, he]
    rfl
  · exact first_of_mapM_error (ofListing_eq_error_iff.1 he)

/-- The carriage return at its end meets the line feed after it. -/
def returning : String := "30 END\n10 PRINT A\r"

def retracting : String := "\n20 GOTO 30\n10"

def misnumbered : String := "10 END\u2028 0 END \u2028X"

theorem returning_and_misnumbered_joined :
    (∃ r, ofListing (returning ++ "\n" ++ retracting) = .ok r ∧ r.text? 10 = none ∧
      r.text? 20 = some "GOTO 30" ∧ r.text? 30 = some "END") ∧
    ofListing (misnumbered ++ "\r\n" ++ "Y") = .error (.line " 0 END") ∧
    ofListing (returning ++ "\x1d" ++ misnumbered) = .error (.line " 0 END") ∧
    ∃ before cs after, Text.filledLines (returning ++ "\x1d" ++ misnumbered).toList =
      before ++ cs :: after ∧ listingLine cs = .error (.line " 0 END") := by
  obtain ⟨hload, -, -, -⟩ := joined_listings_load returning retracting "\n" (by decide +kernel)
  obtain ⟨-, hfirst, -, -⟩ := joined_listings_load misnumbered "Y" "\r\n" (by decide +kernel)
  obtain ⟨-, -, hsecond, hline⟩ :=
    joined_listings_load returning misnumbered "\x1d" (by decide +kernel)
  have hreturning : ofListing returning = .ok (.ofLines [(10, "PRINT A"), (30, "END")]) :=
    eq_ok_of_toOption (by decide +kernel)
  have hretracting : ofListing retracting = .ok (.ofLines [(20, "GOTO 30")]) :=
    eq_ok_of_toOption (by decide +kernel)
  have hmisnumbered : ofListing misnumbered = .error (.line " 0 END") :=
    eq_error_of_failure? (by decide +kernel)
  have hrows : listingLines returning = .ok [(30, "END"), (10, "PRINT A")] :=
    eq_ok_of_toOption (by decide +kernel)
  have hmore : listingLines retracting = .ok [(20, "GOTO 30"), (10, "")] :=
    eq_ok_of_toOption (by decide +kernel)
  refine ⟨?_, hfirst _ hmisnumbered, hsecond _ _ hreturning hmisnumbered, ?_⟩
  · obtain ⟨rows, more, r, hr, hm, -, hjoined, htext⟩ := hload _ _ hreturning hretracting
    cases hrows.symm.trans hr
    cases hmore.symm.trans hm
    exact ⟨r, hjoined, htext 10, htext 20, htext 30⟩
  · obtain ⟨before, cs, after, hlines, -, hcs⟩ := hline _ (hsecond _ _ hreturning hmisnumbered)
    exact ⟨before, cs, after, hlines, hcs⟩

end Program

end NumberedBasic
