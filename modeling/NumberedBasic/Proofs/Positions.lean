import NumberedBasic.Fault
import NumberedBasic.Proofs.MaximalMunch

set_option autoImplicit false

/-!
# Positions

The cutting of a line counts lines and columns as it goes. `placeAt` says what they should be by the
text alone: the line feeds before a character, and the characters since the last of them. All tokens,
the end of the line and the character that an error names stand where it says.
-/
namespace NumberedBasic

namespace Position

def behind (before : List Char) : Position :=
  ⟨1 + before.count '\n', 1 + (before.reverse.takeWhile (· != '\n')).length⟩

theorem behind_next (before : List Char) (c : Char) :
    (behind before).next c = behind (before ++ [c]) := by
  simp only [behind, next, List.count_append, List.reverse_append, List.reverse_singleton,
    List.singleton_append, List.count_singleton, List.takeWhile_cons]
  by_cases hc : c = '\n'
  · simp [hc]
    omega
  · simp [hc]
    omega

theorem behind_after (before cs : List Char) : (behind before).after cs = behind (before ++ cs) := by
  induction cs generalizing before with
  | nil => rw [List.append_nil]; rfl
  | cons c cs ih =>
    have hstep : (behind before).after (c :: cs) = ((behind before).next c).after cs := rfl
    rw [hstep, behind_next, ih, List.append_assoc, List.singleton_append]

end Position

namespace Token
open Position

def placeAt (cs : List Char) (offset : Nat) : Position := behind (cs.take offset)

theorem placeAt_append (before after : List Char) :
    placeAt (before ++ after) before.length = behind before := by
  rw [placeAt, List.take_left]

def located (before : List Char) : List Piece → List Token
  | [] => [endAt (behind before)]
  | .gap run :: pieces => located (before ++ run) pieces
  | .lexeme text kind value :: pieces =>
    ⟨kind, String.ofList text, value, behind before⟩ :: located (before ++ text) pieces
  | .remark word rest :: _ =>
    [⟨.keyword .REM, String.ofList word, some (.text (String.ofList (Text.trim rest))), behind before⟩,
      endAt (behind (before ++ word))]

theorem tokensFrom_gaps {run : List Char} (hrun : ∀ c ∈ run, IsGap c) (before rest : List Char) :
    tokensFrom (behind before) (run ++ rest) = tokensFrom (behind (before ++ run)) rest := by
  induction run generalizing before with
  | nil => rw [List.append_nil, List.nil_append]
  | cons c run ih =>
    rw [List.cons_append, tokensFrom_gap _ ((isGap_iff c).2 (hrun c (.head _))), behind_next,
      ih (fun d hd => hrun d (.tail _ hd)), List.append_assoc, List.singleton_append]

theorem Splits.tokensFrom_eq {cs : List Char} {pieces : List Piece} (h : Splits cs pieces)
    (before : List Char) : tokensFrom (behind before) cs = .ok (located before pieces) := by
  induction h generalizing before with
  | done => rw [tokensFrom, located]
  | gap _ hrun _ _ ih => rw [tokensFrom_gaps hrun, ih, located]
  | lexeme ht hrem _ ih =>
    rw [ht.tokensFrom, if_neg hrem, behind_after, ih, located]
    rfl
  | remark hw => rw [hw.tokensFrom, if_pos rfl, behind_after, located]

theorem located_getLast? (before : List Char) (pieces : List Piece) :
    ∃ p, (located before pieces).getLast? = some (endAt p) := by
  fun_induction located before pieces with
  | case1 before => exact ⟨behind before, rfl⟩
  | case2 before run pieces ih => exact ih
  | case3 before text kind value pieces ih =>
    obtain ⟨p, hp⟩ := ih
    exact ⟨p, by rw [List.getLast?_cons, hp]; rfl⟩
  | case4 before word rest => exact ⟨behind (before ++ word), rfl⟩

theorem Piece.lexeme_prefix {piece : Piece} {t : Token} (h : piece.content? = some (content t)) :
    ∃ more, piece.text = t.lexeme.toList ++ more := by
  cases piece with
  | gap run => cases h
  | lexeme text kind value =>
    simp only [content?, content, Option.some.injEq, Prod.mk.injEq] at h
    exact ⟨[], by rw [← h.2.1, String.toList_ofList, List.append_nil]; rfl⟩
  | remark word rest =>
    simp only [content?, content, Option.some.injEq, Prod.mk.injEq] at h
    exact ⟨rest, by rw [← h.2.1, String.toList_ofList]; rfl⟩

section Tokens

variable {cs : List Char} {pieces : List Piece}

/-- Each token stands behind the pieces before its own, and a remark is the last of them. -/
theorem Splits.token_at (h : Splits cs pieces) (before : List Char) :
    ∀ i t, (located before pieces)[i]? = some t → t.kind ≠ .endOfLine →
      ∃ front piece back, pieces = front ++ piece :: back ∧
        (front.filterMap Piece.content?).length = i ∧ piece.content? = some (content t) ∧
        t.position = behind (before ++ front.flatMap Piece.text) ∧
        (t.kind = .keyword .REM → (located before pieces).getLast? =
          some (endAt (behind (before ++ front.flatMap Piece.text ++ t.lexeme.toList)))) := by
  induction h generalizing before with
  | done =>
    intro i t ht hend
    cases i with
    | zero =>
      cases ht
      exact absurd rfl hend
    | succ i => cases ht
  | @gap run rest pieces _ _ _ _ ih =>
    intro i t ht hend
    obtain ⟨front, piece, back, rfl, hi, hpiece, hplace, hlast⟩ := ih (before ++ run) i t ht hend
    refine ⟨.gap run :: front, piece, back, rfl, hi, hpiece, ?_, fun hrem => ?_⟩
    · rw [hplace, List.append_assoc]
      rfl
    · rw [located, hlast hrem, List.append_assoc before]
      rfl
  | @lexeme text rest kind value pieces _ hrem _ ih =>
    intro i t ht hend
    cases i with
    | zero =>
      cases ht
      exact ⟨[], _, pieces, rfl, rfl, rfl, by rw [List.flatMap_nil, List.append_nil],
        fun hkind => absurd hkind hrem⟩
    | succ i =>
      obtain ⟨front, piece, back, rfl, hi, hpiece, hplace, hlast⟩ := ih (before ++ text) i t ht hend
      refine ⟨.lexeme text kind value :: front, piece, back, rfl, congrArg (· + 1) hi, hpiece, ?_,
        fun hkind => ?_⟩
      · rw [hplace, List.append_assoc]
        rfl
      · rw [located, List.getLast?_cons, hlast hkind, List.append_assoc before]
        rfl
  | @remark word rest _ =>
    intro i t ht hend
    match i, ht with
    | 0, ht =>
      cases ht
      refine ⟨[], _, [], rfl, rfl, rfl, by rw [List.flatMap_nil, List.append_nil], fun _ => ?_⟩
      rw [List.flatMap_nil, List.append_nil, String.toList_ofList]
      rfl
    | 1, ht =>
      -- the second token of a remark is the end of the line
      cases ht
      exact absurd rfl hend

theorem Splits.end_at (h : Splits cs pieces) (before : List Char)
    (hrem : ∀ t ∈ located before pieces, t.kind ≠ .keyword .REM) :
    (located before pieces).getLast? = some (endAt (behind (before ++ cs))) := by
  induction h generalizing before with
  | done => rw [List.append_nil]; rfl
  | gap _ _ _ _ ih =>
    rw [located, ih _ hrem, List.append_assoc]
  | lexeme _ _ _ ih =>
    rw [located, List.getLast?_cons, ih _ fun t ht => hrem t (.tail _ ht), List.append_assoc]
    rfl
  | remark _ => exact absurd rfl (hrem _ (.head _))

end Tokens

inductive Leads : List Char → List Piece → List Char → Prop where
  | start (cs : List Char) : Leads cs [] cs
  | gap {run rest left : List Char} {pieces : List Piece} (hne : run ≠ [])
      (hrun : ∀ c ∈ run, IsGap c) (hstop : Stops IsGap rest) (h : Leads rest pieces left) :
      Leads (run ++ rest) (.gap run :: pieces) left
  | lexeme {text rest left : List Char} {kind : Kind} {value : Option Value} {pieces : List Piece}
      (ht : Lexeme text rest kind value) (hrem : kind ≠ .keyword .REM) (h : Leads rest pieces left) :
      Leads (text ++ rest) (.lexeme text kind value :: pieces) left

theorem Leads.text {cs left : List Char} {pieces : List Piece} (h : Leads cs pieces left) :
    cs = pieces.flatMap Piece.text ++ left := by
  induction h with
  | start cs => rfl
  | gap _ _ _ _ ih | lexeme _ _ _ ih =>
    rw [List.flatMap_cons, List.append_assoc, ← ih]
    rfl

theorem Leads.cons_gap {c : Char} {rest left : List Char} {pieces : List Piece} (hc : IsGap c)
    (h : Leads rest pieces left) (hleft : Stops IsGap left) :
    ∃ others, Leads (c :: rest) others left := by
  have hone : ∀ d ∈ [c], IsGap d := by simpa using hc
  cases h with
  | start _ => exact ⟨_, .gap (List.cons_ne_nil c []) hone hleft (.start _)⟩
  | gap _ hrun hrest h =>
    refine ⟨_, .gap (List.cons_ne_nil c _) (fun d hd => ?_) hrest h⟩
    rcases List.mem_cons.1 hd with rfl | hd
    · exact hc
    · exact hrun d hd
  | lexeme ht hrem h => exact ⟨_, .gap (List.cons_ne_nil c []) hone ht.stops_gap (.lexeme ht hrem h)⟩

inductive Obstructs (c : Char) (rest : List Char) (p : Position) : LexError → Prop where
  | unterminated (hquote : c = '"') (hopen : '"' ∉ rest) : Obstructs c rest p (.unterminated p)
  | unexpected (hquote : c ≠ '"') (hgap : ¬ IsGap c)
      (hnone : ∀ text after kind value, c :: rest = text ++ after → ¬ Lexeme text after kind value) :
      Obstructs c rest p (.unexpected c p)

section Errors

variable {c : Char} {rest : List Char} {p : Position} {e : LexError}

theorem Obstructs.stops_gap (h : Obstructs c rest p e) : Stops IsGap (c :: rest) := by
  intro d hd
  cases hd
  cases h with
  | unterminated hquote _ =>
    rw [hquote, ← isGap_iff]
    decide
  | unexpected _ hgap _ => exact hgap

theorem Lexeme.first?_ne_none {text after : List Char} {kind : Kind} {value : Option Value}
    (h : Lexeme text after kind value) (happ : c :: rest = text ++ after) :
    Token.first? c rest ≠ none := by
  obtain ⟨d, more, rfl, hcut, -⟩ := h.first?
  obtain ⟨rfl, hrest⟩ := List.cons.inj happ
  rw [hrest]
  change Token.first? c (more ++ after) ≠ none
  rw [hcut]
  exact Option.some_ne_none _

theorem obstructs_of_first? (hgap : isGap c = false) (h : first? c rest = none) (p : Position) :
    Obstructs c rest p (if c == '"' then .unterminated p else .unexpected c p) := by
  by_cases hquote : c = '"'
  · rw [if_pos (beq_iff_eq.2 hquote)]
    refine .unterminated hquote fun hclosed => ?_
    obtain ⟨body, after, rfl, hbody⟩ := List.eq_append_cons_of_mem hclosed
    refine (Lexeme.string after hbody).first?_ne_none ?_ h
    simp [hquote]
  · rw [if_neg (by simpa using hquote)]
    refine .unexpected hquote ?_ fun text after kind value happ ht => ht.first?_ne_none happ h
    rw [← isGap_iff, hgap]
    exact Bool.false_ne_true

/-- What stands before an error is split as far as that, and the error is where the splitting ends. -/
theorem leads_of_tokensFrom (p : Position) (cs : List Char) :
    ∀ before e, p = behind before → tokensFrom p cs = .error e → ∃ pieces c rest,
      Leads cs pieces (c :: rest) ∧ Obstructs c rest (behind (before ++ pieces.flatMap Piece.text)) e := by
  fun_induction tokensFrom p cs with
  | case1 p =>
    intro before e _ h
    cases h
  | case2 p c cs hgap ih =>
    rintro before e rfl h
    obtain ⟨pieces, d, rest, hleads, hobstructs⟩ := ih (before ++ [c]) e (behind_next before c) h
    -- one more gap joins the run that the pieces start with, and the text is the same
    obtain ⟨others, hothers⟩ := hleads.cons_gap ((isGap_iff c).1 hgap) hobstructs.stops_gap
    have htext : c :: pieces.flatMap Piece.text = others.flatMap Piece.text := by
      rw [← List.append_left_inj (d :: rest), List.cons_append, ← hleads.text, ← hothers.text]
    refine ⟨others, d, rest, hothers, ?_⟩
    rw [← htext, List.append_cons]
    exact hobstructs
  | case3 p c cs hgap hcut =>
    rintro before e rfl h
    cases h
    refine ⟨[], c, cs, .start _, ?_⟩
    rw [List.flatMap_nil, List.append_nil]
    exact obstructs_of_first? (by simpa using hgap) hcut _
  | case4 | case5 =>
    intro before e _ h
    cases h
  | case6 p c cs hgap cut hcut after hrem e' he ih =>
    rintro before e rfl h
    cases h
    obtain ⟨pieces, d, rest, hleads, hobstructs⟩ :=
      ih (before ++ cut.lexeme) e' (behind_after before cut.lexeme) he
    rw [← (first?_append hcut).1]
    refine ⟨_, d, rest, .lexeme (lexeme_of_first? hcut) hrem hleads, ?_⟩
    rw [List.flatMap_cons, ← List.append_assoc]
    exact hobstructs

end Errors

theorem Obstructs.message_eq {c : Char} {rest : List Char} {p : Position} {e : LexError}
    (h : Obstructs c rest p e) : e.message = (if c = '"' then "unterminated string literal at "
      else "unexpected character " ++ Text.quoted (String.singleton c) ++ " at ") ++ p.text := by
  cases h with
  | unterminated hquote _ => rw [if_pos hquote]; rfl
  | unexpected hquote _ _ => rw [if_neg hquote]; rfl

/-- Every token of a line stands where its lexeme starts, and the end of the line where the line ends,
or behind the keyword of its remark. An error is at the first character that belongs to no piece, with
whole pieces before it, and its message tells that place. -/
theorem positions_are_places (s : String) :
    (∀ ts, scan s = .ok ts → ∃ pieces last, Splits s.toList pieces ∧
      ts.getLast? = some last ∧ last.kind = .endOfLine ∧
      (∀ i t, ts[i]? = some t → t.kind ≠ .endOfLine →
        ∃ front piece back, pieces = front ++ piece :: back ∧
          (front.filterMap Piece.content?).length = i ∧ piece.content? = some (content t) ∧
          t.position = placeAt s.toList (front.flatMap Piece.text).length ∧
          (t.kind = .keyword .REM → last.position =
            placeAt s.toList ((front.flatMap Piece.text).length + t.lexeme.length))) ∧
      ((∀ t ∈ ts, t.kind ≠ .keyword .REM) → last.position = placeAt s.toList s.length)) ∧
    ∀ e, scan s = .error e → ∃ pieces c rest p, Leads s.toList pieces (c :: rest) ∧
      p = placeAt s.toList (pieces.flatMap Piece.text).length ∧ Obstructs c rest p e ∧
      e.message = (if c = '"' then "unterminated string literal at "
        else "unexpected character " ++ Text.quoted (String.singleton c) ++ " at ") ++ p.text := by
  constructor
  · intro ts hts
    obtain ⟨pieces, hpieces⟩ := splits_of_tokensFrom .start s.toList ts hts
    obtain rfl : located [] pieces = ts := Except.ok.inj ((hpieces.tokensFrom_eq []).symm.trans hts)
    obtain ⟨q, hlast⟩ := located_getLast? [] pieces
    refine ⟨pieces, endAt q, hpieces, hlast, rfl, fun i t ht hend => ?_, fun hrem => ?_⟩
    · obtain ⟨front, piece, back, hfront, hi, hpiece, hplace, hremark⟩ :=
        hpieces.token_at [] i t ht hend
      obtain ⟨more, hmore⟩ := Piece.lexeme_prefix hpiece
      have htext : s.toList =
          front.flatMap Piece.text ++ t.lexeme.toList ++ (more ++ back.flatMap Piece.text) := by
        rw [← hpieces.text, hfront, List.flatMap_append, List.flatMap_cons, hmore]
        simp only [List.append_assoc]
      refine ⟨front, piece, back, hfront, hi, hpiece, ?_, fun hkind => ?_⟩
      · rw [hplace, htext, List.append_assoc, placeAt_append]
        rfl
      · rw [hlast, Option.some.injEq] at hremark
        rw [hremark hkind, htext, ← String.length_toList, ← List.length_append, placeAt_append]
        rfl
    · have hend := hpieces.end_at [] hrem
      rw [hlast, Option.some.injEq] at hend
      rw [hend, placeAt, ← String.length_toList, List.take_length]
      rfl
  · intro e he
    obtain ⟨pieces, c, rest, hleads, hobstructs⟩ := leads_of_tokensFrom .start s.toList [] e rfl he
    have hplace : behind (pieces.flatMap Piece.text) =
        placeAt s.toList (pieces.flatMap Piece.text).length := by
      rw [hleads.text, placeAt_append]
    rw [List.nil_append, hplace] at hobstructs
    exact ⟨pieces, c, rest, _, hleads, rfl, hobstructs, hobstructs.message_eq⟩

def overTwoLines : String := "LET A = \"x\ny\" REM b"

theorem overTwoLines_placed :
    (∃ ts t last front, scan overTwoLines = .ok ts ∧ ts[4]? = some t ∧ ts.getLast? = some last ∧
      (t.kind, t.position, last.position) = (.keyword .REM, ⟨2, 4⟩, ⟨2, 7⟩) ∧
      t.position = placeAt overTwoLines.toList (List.flatMap Piece.text front).length ∧
      last.position =
        placeAt overTwoLines.toList ((front.flatMap Piece.text).length + t.lexeme.length)) ∧
    ∃ pieces rest, Leads "A\n $".toList pieces ('$' :: rest) ∧
      scan "A\n $" = .error (.unexpected '$' ⟨2, 2⟩) ∧
      placeAt "A\n $".toList (pieces.flatMap Piece.text).length = ⟨2, 2⟩ := by
  obtain ⟨hplaced, -⟩ := positions_are_places overTwoLines
  obtain ⟨-, herror⟩ := positions_are_places "A\n $"
  constructor
  · have hview : ((scan overTwoLines).toOption.bind fun ts => ts[4]?.bind fun t =>
        ts.getLast?.map fun last => (t.kind, t.position, last.position)) =
          some (.keyword .REM, ⟨2, 4⟩, ⟨2, 7⟩) := by decide +kernel
    obtain ⟨ts, hts, hview⟩ := Option.bind_eq_some_iff.1 hview
    obtain ⟨t, ht, hview⟩ := Option.bind_eq_some_iff.1 hview
    obtain ⟨last, hlast, hview⟩ := Option.map_eq_some_iff.1 hview
    have hkind : t.kind = .keyword .REM := congrArg Prod.fst hview
    obtain ⟨pieces, last', -, hlast', -, htoken, -⟩ := hplaced ts (eq_ok_of_toOption hts)
    cases hlast.symm.trans hlast'
    obtain ⟨front, piece, back, -, -, -, hplace, hend⟩ :=
      htoken 4 t ht (by rw [hkind]; exact Kind.noConfusion)
    exact ⟨ts, t, last, front, eq_ok_of_toOption hts, ht, hlast, hview, hplace, hend hkind⟩
  · have hscan : scan "A\n $" = .error (.unexpected '$' ⟨2, 2⟩) :=
      eq_error_of_failure? (by decide +kernel)
    obtain ⟨pieces, c, rest, p, hleads, hp, hobstructs, -⟩ := herror _ hscan
    cases hobstructs
    exact ⟨pieces, rest, hleads, hscan, hp.symm⟩

end Token

end NumberedBasic
