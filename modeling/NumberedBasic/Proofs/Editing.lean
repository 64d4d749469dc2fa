import Mathlib.Data.List.Sort
import Mathlib.Logic.Function.Basic
import NumberedBasic.Program.Edit
import NumberedBasic.Proofs.Outcomes

set_option autoImplicit false

/-!
# Histories of edits

A program after any history of edits, refused ones among them, against a ledger that replays the
same history on two books: a map of texts with plain updates, and a row of numbers into which a new
number is put in order and from which a removed one is struck. The program agrees with both books,
and all its lines are numbered from one on and tidy.
-/
namespace NumberedBasic

def Key.line? : Key → Option Int
  | integer n => if 1 ≤ n then some n else none
  | _ => none

inductive Edit where
  | set (key : Key) (text : String)
  | delete (key : Key)
  | clear
  | renew (entries : List (Key × String))
  | load (listing : String)

def Edit.refused : Edit → Bool
  | set key _ => key.line?.isNone
  | renew entries => entries.any fun entry => entry.1.line?.isNone
  | load listing => (Program.listingLines listing).toOption.isNone
  | delete _ | clear => false

namespace Program

def apply (p : Program) : Edit → Except EditError Program
  | .set key text => p.set key text
  | .delete key => .ok (p.delete key)
  | .clear => .ok empty
  | .renew entries => ofEntries entries
  | .load listing => ofListing listing

def after (p : Program) (edit : Edit) : Program :=
  match p.apply edit with
  | .ok q => q
  | .error _ => p

def history (edits : List Edit) : Program := edits.foldl after empty

end Program

/-- A book of texts and a book of numbers, each kept by itself. -/
structure Ledger where
  texts : Int → Option String
  numbers : List Int

namespace Ledger

def empty : Ledger := ⟨fun _ => none, []⟩

def strike (b : Ledger) (n : Int) : Ledger :=
  if (b.texts n).isSome then ⟨Function.update b.texts n none, b.numbers.erase n⟩ else b

theorem texts_strike (b : Ledger) (n k : Int) :
    (b.strike n).texts k = if k = n then none else b.texts k := by
  unfold strike
  split
  · exact Function.update_apply b.texts n none k
  · rename_i hnone
    split
    · rename_i heq
      exact heq ▸ Option.not_isSome_iff_eq_none.1 hnone
    · rfl

def put (b : Ledger) (n : Int) (text : String) : Ledger :=
  if Text.trimmed text = "" then b.strike n
  else
    ⟨Function.update b.texts n (some (Text.trimmed text)),
      if (b.texts n).isSome then b.numbers else b.numbers.orderedInsert (· ≤ ·) n⟩

def putKey (b : Ledger) (key : Key) (text : String) : Ledger :=
  match key.line? with
  | some n => b.put n text
  | none => b

def apply (b : Ledger) : Edit → Ledger
  | .set key text => b.putKey key text
  | .delete key => key.number?.elim b b.strike
  | .clear => empty
  | .renew entries => entries.foldl (fun b entry => b.putKey entry.1 entry.2) empty
  | .load listing =>
    ((Program.listingLines listing).toOption.getD []).foldl
      (fun b line => b.put line.1 line.2) empty

def after (b : Ledger) (edit : Edit) : Ledger := if edit.refused then b else b.apply edit

def history (edits : List Edit) : Ledger := edits.foldl after empty

end Ledger

theorem map_insertLine {n : Int} {text : String} {lines : List (Int × String)}
    (h : lines.Pairwise (·.1 < ·.1)) : (insertLine n text lines).map (·.1) =
      if (lines.lookup n).isSome then lines.map (·.1)
      else (lines.map (·.1)).orderedInsert (· ≤ ·) n := by
  induction lines with
  | nil => rfl
  | cons head rest ih =>
    obtain ⟨m, other⟩ := head
    have hrest := ih (List.pairwise_cons.1 h).2
    rcases Int.lt_trichotomy n m with hlt | rfl | hlt
    · have hle : n ≤ m := Int.le_of_lt hlt
      rw [lookup_eq_none_of_lt_head h hlt]
      simp [insertLine, hlt, hle]
    · simp [insertLine]
    · have hne : n ≠ m := Int.ne_of_gt hlt
      have hnlt : ¬ n < m := Int.lt_asymm hlt
      have hnle : ¬ n ≤ m := Int.not_le.2 hlt
      simp only [insertLine, hnlt, hne, if_false, List.map_cons, hrest, List.lookup_cons,
        beq_eq_false_iff_ne.2 hne, List.orderedInsert, hnle]
      split <;> rfl

namespace Program

theorem numbers_insert (p : Program) (n : Int) (text : String) : (p.insert n text).numbers =
    if (p.text? n).isSome then p.numbers else p.numbers.orderedInsert (· ≤ ·) n :=
  map_insertLine p.ascending

theorem numbers_nodup (p : Program) : p.numbers.Nodup :=
  p.numbers_ascending.imp Int.ne_of_lt

theorem numbers_erase (p : Program) (n : Int) : (p.erase n).numbers = p.numbers.erase n := by
  rw [p.numbers_nodup.erase_eq_filter, numbers, numbers, List.filter_map]
  rfl

structure Tidy (line : Int × String) : Prop where
  positive : 1 ≤ line.1
  filled : line.2 ≠ ""
  trimmed : Text.Trimmed line.2.toList

structure Keeps (p : Program) (b : Ledger) : Prop where
  texts : ∀ n, p.text? n = b.texts n
  numbers : p.numbers = b.numbers
  tidy : ∀ line ∈ p.lines, Tidy line

theorem keeps_empty : empty.Keeps .empty :=
  ⟨fun _ => rfl, rfl, fun line hline => (by cases hline)⟩

variable {p : Program} {b : Ledger}

theorem Keeps.erase (h : p.Keeps b) (n : Int) : (p.erase n).Keeps (b.strike n) := by
  refine ⟨fun k => ?_, ?_, fun line hline => h.tidy line (List.mem_filter.1 hline).1⟩
  · rw [text?_erase, h.texts, Ledger.texts_strike]
  · rw [numbers_erase, h.numbers, Ledger.strike]
    split
    · rfl
    · rename_i hnone
      rw [← h.texts, ← mem_numbers_iff, h.numbers] at hnone
      exact List.erase_of_not_mem hnone

theorem Keeps.insert (h : p.Keeps b) {n : Int} {text : String} (hline : Tidy (n, text)) :
    (p.insert n text).Keeps ⟨Function.update b.texts n (some text),
      if (b.texts n).isSome then b.numbers else b.numbers.orderedInsert (· ≤ ·) n⟩ := by
  refine ⟨fun k => ?_, ?_, fun line hmem => ?_⟩
  · rw [text?_insert, h.texts]
    exact (Function.update_apply b.texts n (some text) k).symm
  · rw [numbers_insert, h.texts, h.numbers]
  · rcases mem_insertLine hmem with rfl | hmem
    · exact hline
    · exact h.tidy line hmem

theorem enter_eq (p : Program) (n : Int) (text : String) : p.enter n text =
    if Text.trimmed text = "" then p.erase n else p.insert n (Text.trimmed text) := by
  unfold enter Text.trimmed
  simp only [String.ofList_eq_empty_iff]
  split <;> simp_all

theorem Keeps.enter (h : p.Keeps b) {n : Int} (hn : 1 ≤ n) (text : String) :
    (p.enter n text).Keeps (b.put n text) := by
  rw [enter_eq, Ledger.put]
  split
  · exact h.erase n
  · rename_i hfilled
    exact h.insert ⟨hn, hfilled, Text.trimmed_trimmed text⟩

theorem Keeps.delete (h : p.Keeps b) (key : Key) :
    (p.delete key).Keeps (key.number?.elim b b.strike) := by
  unfold Program.delete
  cases key.number? with
  | none => exact h
  | some n => exact h.erase n

theorem set_of_line? {key : Key} {n : Int} (h : key.line? = some n) (p : Program) (text : String) :
    1 ≤ n ∧ p.set key text = .ok (p.enter n text) := by
  cases key with
  | integer m =>
    simp only [Key.line?, Option.ite_none_right_eq_some, Option.some.injEq] at h
    obtain ⟨hm, rfl⟩ := h
    exact ⟨hm, if_pos hm⟩
  | real x | truth b | text s | absent => cases h

theorem set_of_line?_none {key : Key} (h : key.line? = none) (p : Program) (text : String) :
    p.set key text = .error (.ofKey key) := by
  cases key with
  | integer m =>
    simp only [Key.line?, ite_eq_right_iff, reduceCtorEq, imp_false] at h
    exact if_neg h
  | real x | truth b | text s | absent => rfl

theorem Keeps.set (h : p.Keeps b) {key : Key} (hkey : key.line?.isNone = false) (text : String) :
    ∃ q, p.set key text = .ok q ∧ q.Keeps (b.putKey key text) := by
  obtain ⟨n, hn⟩ := Option.isSome_iff_exists.1 (Option.isNone_eq_false_iff.1 hkey)
  obtain ⟨hpos, hset⟩ := set_of_line? hn p text
  refine ⟨p.enter n text, hset, ?_⟩
  rw [Ledger.putKey, hn]
  exact h.enter hpos text

/-- Entries are entered one after the other; they are refused together if one of them is. -/
theorem Keeps.foldlM_set (h : p.Keeps b) {entries : List (Key × String)}
    (hkeys : (entries.any fun entry => entry.1.line?.isNone) = false) :
    ∃ q, entries.foldlM (fun p entry => p.set entry.1 entry.2) p = .ok q ∧
      q.Keeps (entries.foldl (fun b entry => b.putKey entry.1 entry.2) b) := by
  induction entries generalizing p b with
  | nil => exact ⟨p, rfl, h⟩
  | cons entry entries ih =>
    obtain ⟨hkey, hrest⟩ := Bool.or_eq_false_iff.1 hkeys
    obtain ⟨q, hset, hq⟩ := h.set hkey entry.2
    rw [List.foldlM_cons, hset]
    exact ih hq hrest

theorem foldlM_set_refused (p : Program) {entries : List (Key × String)}
    (hkeys : (entries.any fun entry => entry.1.line?.isNone) = true) :
    ∃ e, entries.foldlM (fun p entry => p.set entry.1 entry.2) p = .error e := by
  induction entries generalizing p with
  | nil => cases hkeys
  | cons entry entries ih =>
    rw [List.foldlM_cons]
    cases hset : p.set entry.1 entry.2 with
    | error e => exact ⟨e, rfl⟩
    | ok q =>
      refine ih q ((Bool.or_eq_true_iff.1 hkeys).resolve_left fun hkey => ?_)
      rw [set_of_line?_none (Option.isNone_iff_eq_none.1 hkey)] at hset
      cases hset

theorem listingLine_eq_ok {cs : List Char} {line : Int × String} (h : listingLine cs = .ok line) :
    1 ≤ line.1 ∧ (Text.digits line.1.toNat).length ≤ Text.maxDigits ∧
      ∀ c ∈ line.2.toList, c ∈ cs := by
  unfold listingLine at h
  simp only at h
  split at h
  · cases h
  rename_i hhead
  split at h
  · cases h
  rename_i hlength
  split at h
  · cases h
  rename_i hzero
  cases h
  simp only [Bool.or_eq_true, Bool.not_eq_true', List.isEmpty_iff, not_or, Bool.not_eq_false,
    List.all_eq_true] at hhead
  refine ⟨by omega, ?_, fun c hc => ?_⟩
  · exact Nat.le_trans (Text.length_digits_ofDigits hhead.1 hhead.2) (Nat.le_of_not_lt hlength)
  · rw [String.toList_ofList] at hc
    have hcode := List.mem_of_mem_drop (Text.mem_of_mem_trim hc)
    exact Text.mem_of_mem_trim ((List.dropWhile_suffix _).subset hcode)

theorem Keeps.foldl_enter (h : p.Keeps b) {lines : List (Int × String)}
    (hlines : ∀ line ∈ lines, 1 ≤ line.1) :
    (lines.foldl (fun p line => p.enter line.1 line.2) p).Keeps
      (lines.foldl (fun b line => b.put line.1 line.2) b) := by
  induction lines generalizing p b with
  | nil => exact h
  | cons line lines ih =>
    exact ih (h.enter (hlines line (.head _)) line.2) fun l hl => hlines l (.tail _ hl)

theorem ofListing_of_ok {s : String} {lines : List (Int × String)}
    (h : listingLines s = .ok lines) :
    ofListing s = .ok (lines.foldl (fun p line => p.enter line.1 line.2) empty) := by
  rw [ofListing, h]
  rfl

theorem exists_of_mem_listingLines {s : String} {lines : List (Int × String)}
    (h : listingLines s = .ok lines) {line : Int × String} (hline : line ∈ lines) :
    ∃ cs ∈ Text.lines s.toList, listingLine cs = .ok line := by
  obtain ⟨cs, hcs, hok⟩ := exists_of_mem_mapM h hline
  exact ⟨cs, (List.mem_filter.1 hcs).1, hok⟩

theorem listingLines_positive {s : String} {lines : List (Int × String)}
    (h : listingLines s = .ok lines) : ∀ line ∈ lines, 1 ≤ line.1 := by
  intro line hline
  obtain ⟨cs, -, hok⟩ := exists_of_mem_listingLines h hline
  exact (listingLine_eq_ok hok).1

theorem Keeps.apply (h : p.Keeps b) {edit : Edit} (hedit : edit.refused = false) :
    ∃ q, p.apply edit = .ok q ∧ q.Keeps (b.apply edit) := by
  cases edit with
  | set key text => exact h.set hedit text
  | delete key => exact ⟨p.delete key, rfl, h.delete key⟩
  | clear => exact ⟨empty, rfl, keeps_empty⟩
  | renew entries => exact keeps_empty.foldlM_set hedit
  | load listing =>
    obtain ⟨lines, hsome⟩ := Option.isSome_iff_exists.1 (Option.isNone_eq_false_iff.1 hedit)
    have hlines := eq_ok_of_toOption hsome
    rw [Ledger.apply, hsome]
    exact ⟨_, ofListing_of_ok hlines, keeps_empty.foldl_enter (listingLines_positive hlines)⟩

theorem apply_refused (p : Program) {edit : Edit} (hedit : edit.refused = true) :
    ∃ e, p.apply edit = .error e := by
  cases edit with
  | set key text => exact ⟨_, set_of_line?_none (Option.isNone_iff_eq_none.1 hedit) p text⟩
  | delete key | clear => cases hedit
  | renew entries => exact foldlM_set_refused empty hedit
  | load listing =>
    obtain ⟨e, he⟩ := eq_error_of_toOption (Option.isNone_iff_eq_none.1 hedit)
    exact ⟨e, by rw [Program.apply, ofListing, he]; rfl⟩

theorem after_refused (p : Program) {edit : Edit} (hedit : edit.refused = true) :
    p.after edit = p := by
  obtain ⟨e, he⟩ := apply_refused p hedit
  rw [after, he]

theorem Keeps.after (h : p.Keeps b) (edit : Edit) : (p.after edit).Keeps (b.after edit) := by
  cases hedit : edit.refused with
  | true =>
    rw [after_refused p hedit, Ledger.after, if_pos hedit]
    exact h
  | false =>
    obtain ⟨q, hq, hkeeps⟩ := h.apply hedit
    rw [Program.after, hq, Ledger.after, hedit]
    exact hkeeps

theorem Keeps.foldl_after (h : p.Keeps b) (edits : List Edit) :
    (edits.foldl Program.after p).Keeps (edits.foldl Ledger.after b) := by
  induction edits generalizing p b with
  | nil => exact h
  | cons edit edits ih => exact ih (h.after edit)

theorem history_keeps (edits : List Edit) : (history edits).Keeps (Ledger.history edits) :=
  keeps_empty.foldl_after edits

end Program

/-- After any history of edits, refused ones among them, the line numbers ascend and are those of
the lines that have a text; they are positive, and the texts are trimmed and not blank. Texts and
numbers are those of the two books, and an edit fails exactly if it is refused, which leaves the
program as it was. -/
theorem edited_program_is_sorted_map (edits : List Edit) :
    (Program.history edits).numbers.Pairwise (· < ·) ∧
    (∀ n, n ∈ (Program.history edits).numbers ↔
      ∃ text, (Program.history edits).text? n = some text) ∧
    (∀ n ∈ (Program.history edits).numbers, 1 ≤ n) ∧
    (∀ n text, (Program.history edits).text? n = some text →
      text ≠ "" ∧ Text.Trimmed text.toList) ∧
    (∀ n, (Program.history edits).text? n = (Ledger.history edits).texts n) ∧
    (Program.history edits).numbers = (Ledger.history edits).numbers ∧
    ∀ edit, ((∃ e, (Program.history edits).apply edit = .error e) ↔ edit.refused = true) ∧
      (edit.refused = true → Program.history (edits ++ [edit]) = Program.history edits) := by
  have hkeeps := Program.history_keeps edits
  refine ⟨Program.numbers_ascending _, fun n => ?_, fun n hn => ?_, fun n text htext => ?_,
    hkeeps.texts, hkeeps.numbers, fun edit => ⟨⟨fun ⟨e, he⟩ => ?_, Program.apply_refused _⟩,
    fun hedit => ?_⟩⟩
  · rw [Program.mem_numbers_iff, Option.isSome_iff_exists]
  · obtain ⟨line, hline, rfl⟩ := List.mem_map.1 hn
    exact (hkeeps.tidy line hline).positive
  · have hline := hkeeps.tidy (n, text) (Program.text?_eq_some_iff.1 htext)
    exact ⟨hline.filled, hline.trimmed⟩
  · cases hedit : edit.refused with
    | true => rfl
    | false =>
      obtain ⟨q, hq, -⟩ := hkeeps.apply hedit
      rw [he] at hq
      cases hq
  · rw [Program.history, List.foldl_append]
    exact Program.after_refused _ hedit

def mixedEdits : List Edit := [
  .set (.integer 30) "  END ",
  .load "10 PRINT X\n20\tEND",
  .load "20 LET X = 1\n5\n10 PRINT X\n10 END",
  .set (.truth true) "END",
  .set (.integer 1) "\u2003REM\ta ",
  .delete (.real 20.0),
  .delete .absent,
  .renew [(.integer 40, "END"), (.integer 0, "END")],
  .set (.integer 7) "GOTO 7",
  .set (.integer 10) "\t"]

theorem mixedEdits_kept :
    (Program.history mixedEdits).numbers = [1, 7] ∧ (1 : Int) ≤ 7 ∧
    ("REM\ta" ≠ "" ∧ Text.Trimmed "REM\ta".toList) ∧
    (Ledger.history mixedEdits).texts 1 = some "REM\ta" ∧
    Program.history (mixedEdits ++ [.set (.truth true) "END"]) = Program.history mixedEdits := by
  obtain ⟨-, -, hpos, htidy, htexts, -, hedit⟩ := edited_program_is_sorted_map mixedEdits
  have hnumbers : (Program.history mixedEdits).numbers = [1, 7] := by decide +kernel
  have htext : (Program.history mixedEdits).text? 1 = some "REM\ta" := by decide +kernel
  refine ⟨hnumbers, hpos 7 ?_, htidy 1 _ htext, (htexts 1).symm.trans htext, (hedit _).2 rfl⟩
  rw [hnumbers]
  decide

end NumberedBasic
