import NumberedBasic.Proofs.Editing

set_option autoImplicit false

/-!
# Listings read back

A program is its own listing read back, if no text of it holds a line break and no number has more
digits than can be written and read. `Printable` says so of a line; every line of a program that
comes from a listing is printable, so that listing a second time changes nothing.
-/
namespace NumberedBasic.Program

def written (line : Int × String) : List Char :=
  (Text.numeral line.1).toList ++ ' ' :: line.2.toList

structure Printable (line : Int × String) : Prop extends Tidy line where
  short : (Text.digits line.1.toNat).length ≤ Text.maxDigits
  unbroken : ∀ c ∈ line.2.toList, Text.isLineBreak c = false

variable {line : Int × String}

theorem Tidy.natAbs_eq (h : Tidy line) : line.1.natAbs = line.1.toNat := by
  have hpos := h.positive
  omega

theorem Printable.written_trimmed (h : Printable line) : Text.Trimmed (written line) := by
  rw [written, Text.toList_numeral h.positive]
  constructor
  · intro c hc
    cases hds : Text.digits line.1.toNat with
    | nil => exact absurd hds Nat.toDigits_ne_nil
    | cons d ds =>
      rw [hds] at hc
      cases hc
      have hmem : c ∈ Text.digits line.1.toNat := hds ▸ List.mem_cons_self
      exact Text.isBlank_of_isDigit (Text.isDigit_of_mem_digits hmem)
  · cases htext : line.2.toList with
    | nil => exact absurd (String.toList_eq_nil_iff.1 htext) h.filled
    | cons d ds =>
      have hlast := h.trimmed.2
      simpa [List.getLast?_append, List.getLast?_cons, htext] using hlast

theorem Printable.listingLine_written (h : Printable line) :
    listingLine (written line) = .ok line := by
  have hdigit : ∀ c ∈ Text.digits line.1.toNat, c.isDigit = true :=
    fun c => Text.isDigit_of_mem_digits
  have hword : ∀ c ∈ Text.digits line.1.toNat, (c != ' ') = true := by
    intro c hc
    rw [bne_iff_ne]
    rintro rfl
    exact absurd (hdigit ' ' hc) (by decide)
  -- the number ends at the first blank, and no digit is one
  have htake : (written line).takeWhile (· != ' ') = Text.digits line.1.toNat := by
    rw [written, Text.toList_numeral h.positive, List.takeWhile_append_of_pos hword]
    simp
  have hdrop : ((written line).dropWhile (· != ' ')).drop 1 = line.2.toList := by
    rw [written, Text.toList_numeral h.positive, List.dropWhile_append_of_pos hword]
    simp
  have hfilled : Text.digits line.1.toNat ≠ [] := Nat.toDigits_ne_nil
  have hpos := h.positive
  unfold listingLine
  simp only [Text.trim_eq_self h.written_trimmed, htake, hdrop, Text.ofDigits_digits,
    Text.trim_eq_self h.trimmed, String.ofList_toList]
  rw [if_neg (by simpa [hfilled] using hdigit), if_neg (Nat.not_lt.2 h.short),
    if_neg (by omega), Int.toNat_of_nonneg (by omega)]

theorem Printable.written_unbroken (h : Printable line) :
    ∀ c ∈ written line, Text.isLineBreak c = false := by
  intro c hc
  rw [written, Text.toList_numeral h.positive, List.mem_append, List.mem_cons] at hc
  rcases hc with hc | rfl | hc
  · exact Text.not_break_of_not_blank (Text.isBlank_of_isDigit (Text.isDigit_of_mem_digits hc))
  · decide
  · exact h.unbroken c hc

theorem listing_eq_ok {p : Program}
    (h : ∀ line ∈ p.lines, (Text.digits line.1.natAbs).length ≤ Text.maxDigits) :
    ∃ text, p.listing = .ok text ∧
      text.toList = p.lines.flatMap fun line => written line ++ ['\n'] := by
  have hline (line : Int × String) (hline : line ∈ p.lines) :
      listedLine line = .ok (Text.numeral line.1 ++ " " ++ line.2 ++ "\n") := by
    have hshort : Text.isLong line.1 = false := decide_eq_false (Nat.not_lt.2 (h line hline))
    simp [listedLine, Text.numeral?, hshort]
  refine ⟨_, by rw [listing, mapM_eq_ok hline]; rfl, ?_⟩
  simp [written, String.toList_join, List.flatMap_map]

theorem lines_written {rows : List (Int × String)} (h : ∀ line ∈ rows, Printable line) :
    Text.lines (rows.flatMap fun line => written line ++ ['\n']) = rows.map written := by
  induction rows with
  | nil => rfl
  | cons line rows ih =>
    rw [List.flatMap_cons, List.append_assoc, List.singleton_append,
      Text.lines_append_feed (h line (.head _)).written_unbroken, ih fun l hl => h l (.tail _ hl),
      List.map_cons]

theorem mapM_written {rows : List (Int × String)} (h : ∀ line ∈ rows, Printable line) :
    (rows.map written).mapM listingLine = .ok rows := by
  have hline (line : Int × String) (hline : line ∈ rows) :
      (listingLine ∘ written) line = .ok (id line) := by
    rw [Function.comp_apply, (h line hline).listingLine_written, id]
  rw [List.mapM_map, mapM_eq_ok hline, List.map_id]

variable {p : Program}

theorem listingLines_listing (h : ∀ line ∈ p.lines, Printable line) {text : String}
    (htext : text.toList = p.lines.flatMap fun line => written line ++ ['\n']) :
    listingLines text = .ok p.lines := by
  have hkept : ∀ cs ∈ p.lines.map written, (!(Text.trim cs).isEmpty) = true := by
    intro cs hcs
    obtain ⟨line, hline, rfl⟩ := List.mem_map.1 hcs
    rw [Text.trim_eq_self (h line hline).written_trimmed]
    simp [written]
  rw [listingLines, htext, lines_written h, List.filter_eq_self.2 hkept]
  exact mapM_written h

theorem foldl_enter_lines {rows : List (Int × String)} (hasc : rows.Pairwise (·.1 < ·.1))
    (h : ∀ line ∈ rows, Printable line) (p : Program) (k : Int) :
    (rows.foldl (fun p line => p.enter line.1 line.2) p).text? k =
      (rows.lookup k).or (p.text? k) := by
  induction rows generalizing p with
  | nil => rfl
  | cons line rows ih =>
    obtain ⟨n, text⟩ := line
    obtain ⟨hhead, hrest⟩ := List.pairwise_cons.1 hasc
    have hline := h (n, text) (.head _)
    have htrim : Text.trimmed text = text := by
      rw [Text.trimmed, Text.trim_eq_self hline.trimmed, String.ofList_toList]
    rw [List.foldl_cons, ih hrest fun l hl => h l (.tail _ hl), enter_eq, htrim,
      if_neg hline.filled, text?_insert, List.lookup_cons]
    by_cases hk : k = n
    · subst hk
      simp [lookup_eq_none_of_lt hhead]
    · simp [hk, beq_eq_false_iff_ne.2 hk]

theorem ofListing_listing (h : ∀ line ∈ p.lines, Printable line) {text : String}
    (htext : text.toList = p.lines.flatMap fun line => written line ++ ['\n']) :
    ofListing text = .ok p := by
  have hsame : p.lines.foldl (fun p line => p.enter line.1 line.2) empty = p := by
    apply eq_of_text?
    intro n
    rw [foldl_enter_lines p.ascending h, text?_empty, Option.or_none]
    rfl
  rw [ofListing_of_ok (listingLines_listing h htext), hsame]

theorem enter_printable (h : ∀ line ∈ p.lines, Printable line) {n : Int} {text : String}
    (hn : 1 ≤ n) (hdigits : (Text.digits n.toNat).length ≤ Text.maxDigits)
    (hbreaks : ∀ c ∈ text.toList, Text.isLineBreak c = false) :
    ∀ line ∈ (p.enter n text).lines, Printable line := by
  intro line hline
  rw [enter_eq] at hline
  split at hline
  · exact h line (List.mem_filter.1 hline).1
  rename_i hfilled
  rcases mem_insertLine hline with rfl | hline
  · refine ⟨⟨hn, hfilled, Text.trimmed_trimmed text⟩, hdigits, fun c hc => ?_⟩
    rw [Text.trimmed, String.toList_ofList] at hc
    exact hbreaks c (Text.mem_of_mem_trim hc)
  · exact h line hline

theorem printable_of_ofListing {s : String} (h : ofListing s = .ok p) :
    ∀ line ∈ p.lines, Printable line := by
  obtain ⟨rows, hlines, h⟩ := bind_eq_ok h
  cases h
  refine List.foldlRecOn (motive := fun q : Program => ∀ line ∈ q.lines, Printable line) rows _
    (fun line hline => by cases hline) fun q hq row hrow => ?_
  obtain ⟨cs, hcs, hrow⟩ := exists_of_mem_listingLines hlines hrow
  obtain ⟨hpos, hdigits, hsub⟩ := listingLine_eq_ok hrow
  exact enter_printable hq hpos hdigits
    fun c hc => Text.not_break_of_mem_lines hcs c (hsub c hc)

/-- A listing tidied up: read and written again. -/
def relist (s : String) : Except EditError String := do
  let p ← ofListing s
  p.listing

theorem listed_of_ofListing {s : String} (h : ofListing s = .ok p) :
    ∃ text, p.listing = .ok text ∧ ofListing text = .ok p := by
  have hprintable := printable_of_ofListing h
  obtain ⟨text, htext, hlist⟩ := listing_eq_ok fun line hline =>
    (hprintable line hline).natAbs_eq ▸ (hprintable line hline).short
  exact ⟨text, htext, ofListing_listing hprintable hlist⟩

/-- The listing of an edited program reads back as the program exactly if no text holds a line
break. The listing of a program that comes from a listing always does, so tidying a listing up twice
is tidying it up once. -/
theorem listing_reads_back_iff (edits : List Edit)
    (hdigits : ∀ n ∈ (history edits).numbers,
      (Text.digits n.toNat).length ≤ Text.maxDigits) :
    (∃ text, (history edits).listing = .ok text ∧ (ofListing text = .ok (history edits) ↔
      ∀ n text, (history edits).text? n = some text → ∀ c ∈ text.toList, c ∉ Text.lineBreaks)) ∧
    (∀ s p, ofListing s = .ok p → ∃ text, p.listing = .ok text ∧ ofListing text = .ok p) ∧
    ∀ s t, relist s = .ok t → relist t = .ok t := by
  refine ⟨?_, fun s p => listed_of_ofListing, fun s t h => ?_⟩
  · have htidy := (history_keeps edits).tidy
    have hshort (line : Int × String) (hline : line ∈ (history edits).lines) :
        (Text.digits line.1.toNat).length ≤ Text.maxDigits :=
      hdigits line.1 (List.mem_map_of_mem hline)
    obtain ⟨text, hlisting, hlist⟩ := listing_eq_ok fun line hline =>
      (htidy line hline).natAbs_eq ▸ hshort line hline
    refine ⟨text, hlisting, fun h n text htext c hc hbreak => ?_, fun h => ?_⟩
    · have hline := printable_of_ofListing h (n, text) (text?_eq_some_iff.1 htext)
      have hnot := hline.unbroken c hc
      rw [Text.isLineBreak_iff.2 hbreak] at hnot
      cases hnot
    · refine ofListing_listing (fun line hline => ?_) hlist
      have htext : (history edits).text? line.1 = some line.2 := text?_eq_some_iff.2 hline
      refine ⟨htidy line hline, hshort line hline, fun c hc => Bool.eq_false_iff.2 fun hbreak => ?_⟩
      exact h line.1 line.2 htext c hc (Text.isLineBreak_iff.1 hbreak)
  · obtain ⟨p, hp, hlisting⟩ := bind_eq_ok h
    obtain ⟨text, htext, hback⟩ := listed_of_ofListing hp
    cases hlisting.symm.trans htext
    rw [relist, hback]
    exact hlisting

def brokenEdits : List Edit :=
  [.set (.integer 10) "2 LET\tX = 1 ", .set (.integer 20) "REM a\u2028b"]

def mendedEdits : List Edit := brokenEdits ++ [.delete (.real 20.0)]

theorem mendedEdits_read_back :
    (∃ text, (history mendedEdits).listing = .ok text ∧
      ofListing text = .ok (history mendedEdits)) ∧
    (∃ text, (history brokenEdits).listing = .ok text ∧
      ofListing text ≠ .ok (history brokenEdits)) ∧
    relist "10 2 LET\tX = 1\n" = .ok "10 2 LET\tX = 1\n" := by
  obtain ⟨⟨mended, hlisted, hmended⟩, -, -⟩ := listing_reads_back_iff mendedEdits (by decide +kernel)
  obtain ⟨⟨broken, hlisted', hbroken⟩, -, hrelist⟩ :=
    listing_reads_back_iff brokenEdits (by decide +kernel)
  refine ⟨⟨mended, hlisted, hmended.2 fun n text htext => ?_⟩, ⟨broken, hlisted', fun h => ?_⟩,
    hrelist " 10  2 LET\tX = 1\r" _ ?_⟩
  · have hlines : (history mendedEdits).lines = [(10, "2 LET\tX = 1")] := by decide +kernel
    rw [text?_eq_some_iff, hlines, List.mem_singleton] at htext
    cases htext
    have hplain : ("2 LET\tX = 1".toList.all fun c => !Text.isLineBreak c) = true := by
      decide +kernel
    intro c hc hbreak
    have hc := List.all_eq_true.1 hplain c hc
    rw [Text.isLineBreak_iff.2 hbreak] at hc
    cases hc
  · have htext : (history brokenEdits).text? 20 = some "REM a\u2028b" := by decide +kernel
    exact hbroken.1 h 20 _ htext '\u2028' (by decide +kernel) (by decide +kernel)
  · exact eq_ok_of_toOption (by decide +kernel)

end NumberedBasic.Program
