import NumberedBasic.Proofs.Lexemes

set_option autoImplicit false

/-!
# Maximal munch

A line is split from left to right into gaps and lexemes, each as long as it can be, up to a remark
or to its end. There is at most one such split (`Splits.unique`). Scanning a line finds it, and
fails exactly if there is none.
-/
namespace NumberedBasic.Token

/-- What a line is made up of. A remark reaches to the end of its line. -/
inductive Piece where
  | gap (run : List Char)
  | lexeme (text : List Char) (kind : Kind) (value : Option Value)
  | remark (word rest : List Char)

namespace Piece

def text : Piece → List Char
  | gap run => run
  | lexeme text _ _ => text
  | remark word rest => word ++ rest

def content? : Piece → Option (Kind × String × Option Value)
  | gap _ => none
  | lexeme text kind value => some (kind, String.ofList text, value)
  | remark word rest =>
    some (.keyword .REM, String.ofList word, some (.text (String.ofList (Text.trim rest))))

end Piece

/-- The pieces of a line from left to right, none of which could be longer. -/
inductive Splits : List Char → List Piece → Prop where
  | done : Splits [] []
  | gap {run rest : List Char} {pieces : List Piece} (hne : run ≠ []) (hrun : ∀ c ∈ run, IsGap c)
      (hstop : Stops IsGap rest) (h : Splits rest pieces) :
      Splits (run ++ rest) (.gap run :: pieces)
  | lexeme {text rest : List Char} {kind : Kind} {value : Option Value} {pieces : List Piece}
      (ht : Lexeme text rest kind value) (hrem : kind ≠ .keyword .REM) (h : Splits rest pieces) :
      Splits (text ++ rest) (.lexeme text kind value :: pieces)
  | remark {word rest : List Char} (hw : Lexeme word rest (.keyword .REM) none) :
      Splits (word ++ rest) [.remark word rest]

section Splitting

variable {c : Char} {cs rest : List Char} {pieces others : List Piece}

theorem Splits.text (h : Splits cs pieces) : pieces.flatMap Piece.text = cs := by
  induction h with
  | done => rfl
  | gap _ _ _ _ ih | lexeme _ _ _ ih => rw [List.flatMap_cons, ih]; rfl
  | remark _ => exact List.append_nil _

theorem Splits.kind_ne_end (h : Splits cs pieces) :
    ∀ k ∈ pieces.filterMap Piece.content?, k.1 ≠ .endOfLine := by
  induction h with
  | done => simp
  | gap _ _ _ _ ih => exact ih
  | lexeme ht _ _ ih =>
    intro k hk
    rcases List.mem_cons.1 hk with rfl | hk
    · exact ht.kind_ne_end
    · exact ih k hk
  | remark hw =>
    intro k hk
    rw [List.mem_singleton.1 hk]
    exact hw.kind_ne_end

theorem Splits.readsAs (h : Splits cs pieces) :
    ReadsAs cs (pieces.filterMap Piece.content? ++ [(.endOfLine, "", none)]) := by
  induction h with
  | done => exact readsAs_nil
  | @gap run _ _ _ hrun _ _ ih =>
    clear * - hrun ih
    induction run with
    | nil => exact ih
    | cons c run ihrun =>
      refine ReadsAs.gap ((isGap_iff _).2 (hrun c (.head _))) ?_
      exact ihrun fun d hd => hrun d (.tail _ hd)
  | lexeme ht hrem _ ih => exact ht.readsAs hrem ih
  | remark hw => exact hw.readsAs_remark

theorem Lexeme.stops_gap {text : List Char} {kind : Kind} {value : Option Value}
    (h : Lexeme text rest kind value) : Stops IsGap (text ++ rest) := by
  obtain ⟨c, more, rfl, hcut, -⟩ := h.first?
  intro d hd
  cases hd
  rw [← isGap_iff, isGap_of_first? hcut]
  exact Bool.false_ne_true

theorem Splits.cons_gap (hc : IsGap c) (h : Splits rest pieces) :
    ∃ others, Splits (c :: rest) others := by
  have hone : ∀ d ∈ [c], IsGap d := by simpa using hc
  by_cases hstop : Stops IsGap rest
  · exact ⟨_, .gap (List.cons_ne_nil _ _) hone hstop h⟩
  cases h with
  | done => exact absurd (by simp [Stops]) hstop
  | gap _ hrun hrest h =>
    refine ⟨_, .gap (List.cons_ne_nil c _) (fun d hd => ?_) hrest h⟩
    rcases List.mem_cons.1 hd with rfl | hd
    · exact hc
    · exact hrun d hd
  | lexeme ht _ _ => exact absurd ht.stops_gap hstop
  | remark hw => exact absurd hw.stops_gap hstop

theorem splits_of_tokensFrom (p : Position) (cs : List Char) :
    ∀ ts, tokensFrom p cs = .ok ts → ∃ pieces, Splits cs pieces := by
  fun_induction tokensFrom p cs with
  | case1 p => exact fun _ _ => ⟨[], .done⟩
  | case2 p c cs hgap ih =>
    intro ts h
    obtain ⟨pieces, hpieces⟩ := ih ts h
    exact hpieces.cons_gap ((isGap_iff c).1 hgap)
  | case3 | case6 =>
    intro ts h
    cases h
  | case4 p c cs hgap cut hcut after hrem remark =>
    intro ts h
    have hlexeme := lexeme_of_first? hcut
    rw [hrem] at hlexeme
    rw [← (first?_append hcut).1]
    exact ⟨_, .remark hlexeme⟩
  | case5 p c cs hgap cut hcut after hrem rest hrest ih =>
    intro ts h
    obtain ⟨pieces, hpieces⟩ := ih rest hrest
    rw [← (first?_append hcut).1]
    exact ⟨_, .lexeme (lexeme_of_first? hcut) hrem hpieces⟩

theorem Lexeme.unique {text text' rest' : List Char} {kind kind' : Kind}
    {value value' : Option Value} (h : Lexeme text rest kind value)
    (h' : Lexeme text' rest' kind' value') (happ : text ++ rest = text' ++ rest') :
    text = text' ∧ rest = rest' ∧ kind = kind' ∧ value = value' := by
  obtain ⟨c, more, htext, hcut, rfl⟩ := h.first?
  obtain ⟨c', more', htext', hcut', rfl⟩ := h'.first?
  rw [htext, htext', List.cons_append, List.cons_append] at happ
  obtain ⟨rfl, hmore⟩ := List.cons.inj happ
  rw [hmore] at hcut
  cases hcut.symm.trans hcut'
  exact ⟨rfl, rfl, rfl, rfl⟩

theorem not_stops_gap {run : List Char} (hne : run ≠ []) (hrun : ∀ c ∈ run, IsGap c)
    (rest : List Char) : ¬ Stops IsGap (run ++ rest) := by
  obtain ⟨c, more, rfl⟩ := List.exists_cons_of_ne_nil hne
  exact fun hstop => hstop c rfl (hrun c (.head _))

theorem Splits.gap_inv {run : List Char} (hne : run ≠ []) (hrun : ∀ c ∈ run, IsGap c)
    (hstop : Stops IsGap rest) (h : Splits (run ++ rest) others) :
    ∃ pieces, others = .gap run :: pieces ∧ Splits rest pieces := by
  have hstart := not_stops_gap hne hrun rest
  obtain ⟨htake, hdrop⟩ := span_append isGap_iff hrun hstop
  generalize run ++ rest = cs at h hstart htake hdrop
  cases h with
  | done => exact absurd (by simp [Stops]) hstart
  | gap _ hrun' hstop' h =>
    obtain ⟨htake', hdrop'⟩ := span_append isGap_iff hrun' hstop'
    obtain rfl := htake.symm.trans htake'
    obtain rfl := hdrop.symm.trans hdrop'
    exact ⟨_, rfl, h⟩
  | lexeme ht _ _ => exact absurd ht.stops_gap hstart
  | remark hw => exact absurd hw.stops_gap hstart

theorem Splits.lexeme_inv {text : List Char} {kind : Kind} {value : Option Value}
    (ht : Lexeme text rest kind value) (h : Splits (text ++ rest) others) :
    (kind = .keyword .REM ∧ others = [.remark text rest]) ∨
      (kind ≠ .keyword .REM ∧ ∃ pieces, others = .lexeme text kind value :: pieces ∧
        Splits rest pieces) := by
  have hstop := ht.stops_gap
  have hne : text ++ rest ≠ [] := by
    obtain ⟨c, more, rfl, -, -⟩ := ht.first?
    exact List.cons_ne_nil _ _
  generalize happ : text ++ rest = cs at h hstop hne
  cases h with
  | done => exact absurd rfl hne
  | gap hrun hgap _ _ => exact absurd hstop (not_stops_gap hrun hgap _)
  | lexeme ht' hrem h =>
    obtain ⟨rfl, rfl, rfl, rfl⟩ := ht.unique ht' happ
    exact .inr ⟨hrem, _, rfl, h⟩
  | remark hw =>
    obtain ⟨rfl, rfl, rfl, rfl⟩ := ht.unique hw happ
    exact .inl ⟨rfl, rfl⟩

theorem Splits.unique (h : Splits cs pieces) : ∀ others, Splits cs others → others = pieces := by
  induction h with
  | done =>
    intro others h'
    generalize hcs : ([] : List Char) = cs at h'
    cases h' with
    | done => rfl
    | gap hne _ _ _ => exact absurd (List.append_eq_nil_iff.1 hcs.symm).1 hne
    | lexeme ht _ _ | remark ht =>
      obtain ⟨c, more, rfl, -, -⟩ := ht.first?
      cases hcs
  | gap hne hrun hstop _ ih =>
    intro others h'
    obtain ⟨pieces, rfl, hpieces⟩ := h'.gap_inv hne hrun hstop
    rw [ih pieces hpieces]
  | lexeme ht hrem _ ih =>
    intro others h'
    -- a lexeme is as long as it can be, so the other way cuts off the same one
    rcases h'.lexeme_inv ht with ⟨hk, -⟩ | ⟨-, pieces, rfl, hpieces⟩
    · exact absurd hk hrem
    · rw [ih pieces hpieces]
  | remark hw =>
    intro others h'
    rcases h'.lexeme_inv hw with ⟨-, rfl⟩ | ⟨hk, -⟩
    · rfl
    · exact absurd rfl hk

end Splitting

/-- A line either has tokens, which are those of the one way to split it, with one end behind them,
or it has an error and does not split at all. -/
theorem scan_is_maximal_munch (s : String) :
    (∃ ts pieces, scan s = .ok ts ∧ Splits s.toList pieces ∧
      (∀ others, Splits s.toList others → others = pieces) ∧
      pieces.flatMap Piece.text = s.toList ∧
      ts.map content = pieces.filterMap Piece.content? ++ [(.endOfLine, "", none)] ∧
      ∀ k ∈ pieces.filterMap Piece.content?, k.1 ≠ .endOfLine) ∨
    ∃ e, scan s = .error e ∧ ∀ pieces, ¬ Splits s.toList pieces := by
  cases hscan : scan s with
  | ok ts =>
    obtain ⟨pieces, hpieces⟩ := splits_of_tokensFrom .start s.toList ts hscan
    obtain ⟨us, hus, hcontent⟩ := hpieces.readsAs .start
    cases hscan.symm.trans hus
    exact .inl ⟨ts, pieces, rfl, hpieces, hpieces.unique, hpieces.text, hcontent,
      hpieces.kind_ne_end⟩
  | error e =>
    refine .inr ⟨e, rfl, fun pieces hpieces => ?_⟩
    obtain ⟨ts, hts, -⟩ := hpieces.readsAs .start
    cases hscan.symm.trans hts

example : (scan "10GOTO20<>1.5.").toOption = none ∧
    (scan "10GOTO20<>1.5 rem .").toOption.map (·.map (·.lexeme)) =
      some ["10", "GOTO20", "<>", "1.5", "rem", ""] := by
  decide +kernel

end NumberedBasic.Token
