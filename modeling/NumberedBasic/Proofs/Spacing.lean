import NumberedBasic.Proofs.Lexemes
import NumberedBasic.Proofs.Outcomes

set_option autoImplicit false

/-!
# Spacing

Writing the tokens of a line with single blanks between them changes none of them but in its place.
A lexeme stays one when nothing or a blank follows it (`Apart.detached`), so the spaced text is cut
at its blanks (`readsAs_spaced`), and a remark comes out trimmed as it went in. The parser looks at no
place and reads the same statement.
-/
namespace NumberedBasic

namespace Token

def Apart (tail : List Char) : Prop := tail = [] ∨ ∃ more, tail = ' ' :: more

theorem Apart.detached {tail : List Char} (h : Apart tail) : Detached tail := by
  rcases h with rfl | ⟨more, rfl⟩
  · exact detached_nil
  · exact detached_cons rfl (by decide) more

theorem words_of_plain {t : Token} (hend : t.kind ≠ .endOfLine) (hrem : t.kind ≠ .keyword .REM) :
    t.words = [t.lexeme] := by
  unfold words
  split
  · contradiction
  · contradiction
  · rfl

theorem toList_spaced_cons {t : Token} (ht : t.words = [t.lexeme]) (ts : List Token) :
    ∃ tail, (spaced (t :: ts)).toList = t.lexeme.toList ++ tail ∧ Apart tail ∧
      (tail = (spaced ts).toList ∨ tail = ' ' :: (spaced ts).toList) := by
  unfold spaced
  rw [List.flatMap_cons, ht, List.singleton_append]
  cases ts.flatMap words with
  | nil => exact ⟨[], by simp, .inl rfl, .inl (by simp)⟩
  | cons w ws =>
    refine ⟨' ' :: (" ".intercalate (w :: ws)).toList, ?_, .inr ⟨_, rfl⟩, .inr rfl⟩
    simp [String.toList_intercalate]

theorem toList_spaced_remark {t : Token} {remark : List Char} (hrem : t.kind = .keyword .REM)
    (hvalue : t.value = some (.text (String.ofList remark))) (htrim : Text.Trimmed remark)
    (p : Position) : ∃ tail, (spaced [t, endAt p]).toList = t.lexeme.toList ++ tail ∧ Apart tail ∧
      Text.trim tail = remark := by
  cases remark with
  | nil => exact ⟨[], by simp [spaced, words, hrem, hvalue, endAt], .inl rfl, rfl⟩
  | cons c cs =>
    refine ⟨' ' :: c :: cs, ?_, .inr ⟨_, rfl⟩, ?_⟩
    · simp [spaced, words, hrem, hvalue, endAt]
    · rw [Text.trim_cons_of_blank rfl, Text.trim_eq_self htrim]

theorem readsAs_spaced (p : Position) (cs : List Char) : ∀ ts, tokensFrom p cs = .ok ts →
    ReadsAs (spaced ts).toList (ts.map content) := by
  fun_induction tokensFrom p cs with
  | case1 p =>
    intro ts h
    cases h
    exact readsAs_nil
  | case2 p c cs hgap ih => exact ih
  | case3 =>
    intro ts h
    cases h
  | case4 p c cs hgap cut hcut after hrem remark =>
    intro ts h
    cases h
    -- the text of the remark is trimmed already, so it is read back as it is
    obtain ⟨tail, hspaced, hapart, htail⟩ := toList_spaced_remark
      (t := { ofCut cut p with value := some (.text (String.ofList remark)) }) hrem rfl
      (Text.trim_trimmed cut.rest) after
    have hlexeme := (lexeme_of_first? hcut).detached hapart.detached
    rw [hrem] at hlexeme
    have hread := hlexeme.readsAs_remark
    rw [htail] at hread
    rw [hspaced]
    simpa [ofCut, content, endAt, hrem] using hread
  | case5 p c cs hgap cut hcut after hrem rest hrest ih =>
    intro ts h
    cases h
    have hwords : (ofCut cut p).words = [(ofCut cut p).lexeme] :=
      words_of_plain (lexeme_of_first? hcut).kind_ne_end hrem
    obtain ⟨tail, hspaced, hapart, htail⟩ := toList_spaced_cons hwords rest
    have hread : ReadsAs tail (rest.map content) := by
      rcases htail with rfl | rfl
      · exact ih rest hrest
      · exact (ih rest hrest).gap rfl
    rw [hspaced, List.map_cons]
    simpa [ofCut, content] using ((lexeme_of_first? hcut).detached hapart.detached).readsAs hrem hread
  | case6 =>
    intro ts h
    cases h

theorem spaced_content {ts us : List Token} (h : ts.map content = us.map content) :
    spaced ts = spaced us := by
  have hwords (vs : List Token) : vs.flatMap words =
      (vs.map content).flatMap fun k => words ⟨k.1, k.2.1, k.2.2, .start⟩ := by
    rw [List.flatMap_map]
    rfl
  rw [spaced, spaced, hwords ts, hwords us, h]

end Token

namespace Statement
open Token

theorem State.next?_content {t u : Token} (h : t.content = u.content) (s : State) :
    s.next? t = s.next? u := by
  obtain ⟨kind, lexeme, value, p⟩ := t
  obtain ⟨kind', lexeme', value', q⟩ := u
  simp only [content, Prod.mk.injEq] at h
  obtain ⟨rfl, rfl, rfl⟩ := h
  cases s <;> rfl

theorem State.after?_content {ts us : List Token} (h : ts.map content = us.map content)
    (s : State) : s.after? ts = s.after? us := by
  induction ts generalizing us s with
  | nil =>
    obtain rfl := List.map_eq_nil_iff.1 h.symm
    rfl
  | cons t ts ih =>
    obtain ⟨u, us, rfl, hu, hus⟩ := List.map_eq_cons_iff.1 h.symm
    rw [State.after?, State.after?, State.next?_content hu s]
    exact Option.bind_congr fun v _ => (ih hus.symm v)

theorem ofTokens_content {ts us : List Token} (h : ts.map content = us.map content)
    (a : Statement Int) : ofTokens ts = .ok a ↔ ofTokens us = .ok a := by
  have hparse (vs : List Token) : ofTokens vs = .ok a ↔
      ∃ b, State.start.after? vs = some (.finished b) ∧ b.mapTargets lineNumber = .ok a := by
    simp only [ofTokens, ← parseFrom_eq_ok_iff .start 0 none vs]
    cases parseFrom .start 0 none vs <;> simp [bind, Except.bind]
  rw [hparse, hparse, State.after?_content h]

end Statement

/-- A line that has tokens keeps them, all but their places, when it is written with single blanks,
and is then left as it is. It keeps its statement too. -/
theorem spacing_preserves_line (s : String) (ts : List Token) (h : Token.scan s = .ok ts) :
    (∃ us, Token.scan (Token.spaced ts) = .ok us ∧ us.map Token.content = ts.map Token.content ∧
      Token.spaced us = Token.spaced ts) ∧
    ∀ a, Statement.ofLine (Token.spaced ts) = .ok a ↔ Statement.ofLine s = .ok a := by
  obtain ⟨us, hus, hcontent⟩ := Token.readsAs_spaced .start s.toList ts h .start
  have hscan : Token.scan (Token.spaced ts) = .ok us := hus
  refine ⟨⟨us, hscan, hcontent, Token.spaced_content hcontent⟩, fun a => ?_⟩
  rw [Statement.ofLine_eq_ok_iff, Statement.ofLine_eq_ok_iff, hscan, h]
  simpa using Statement.ofTokens_content hcontent a

def crowded : String := "  if A1<=-(2.50)then 100else   20"

theorem crowded_spaced : ∃ ts us, Token.scan crowded = .ok ts ∧
    Token.spaced ts = "if A1 <= - ( 2.50 ) then 100 else 20" ∧
    Token.scan "if A1 <= - ( 2.50 ) then 100 else 20" = .ok us ∧
    us.map Token.content = ts.map Token.content ∧
    Statement.ofLine "if A1 <= - ( 2.50 ) then 100 else 20" =
      .ok (.branch ⟨.lessEqual, .variable "A1", .negate (.number 2.5)⟩ 100 (some 20)) := by
  have htext : (Token.scan crowded).toOption.map Token.spaced =
      some "if A1 <= - ( 2.50 ) then 100 else 20" := by decide +kernel
  have hline : (Statement.ofLine crowded).toOption =
      some (.branch ⟨.lessEqual, .variable "A1", .negate (.number 2.5)⟩ 100 (some 20)) := by
    decide +kernel
  cases hts : Token.scan crowded with
  | error e => simp [hts, Except.toOption] at htext
  | ok ts =>
    rw [hts] at htext
    have hspaced : Token.spaced ts = _ := Option.some.inj htext
    have hkept := spacing_preserves_line crowded ts hts
    rw [hspaced] at hkept
    obtain ⟨⟨us, hus, hcontent, -⟩, hsame⟩ := hkept
    exact ⟨ts, us, rfl, hspaced, hus, hcontent, (hsame _).2 (eq_ok_of_toOption hline)⟩

end NumberedBasic
