import NumberedBasic.Proofs.Rounding
import NumberedBasic.Workspace

set_option autoImplicit false

/-!
# How a reply spells a number

The grammar of decimals: a sign, digits of any script with a point before, among or behind them, and
an exponent. Single underscores may stand between two digits. A text spells at most one number, and
the reader finds it (`spells_iff`). A reply that is not blank is read exactly if it spells a number
that is rounded to a finite double, and then as that double.
-/
namespace NumberedBasic.Numeral
open Text Double

def Denotes (c : Char) (d : Nat) : Prop := ∃ start ∈ digitZeros, d < 10 ∧ c.toNat = start + d

/-- A row of digits, how many they are, and the number they spell. -/
inductive Digits : List Char → Nat → Nat → Prop where
  | one {c : Char} {d : Nat} (hc : Denotes c d) : Digits [c] 1 d
  | next {c : Char} {cs : List Char} {d k n : Nat} (hc : Denotes c d) (h : Digits cs k n) :
      Digits (c :: cs) (k + 1) (d * 10 ^ k + n)
  | apart {c : Char} {cs : List Char} {d k n : Nat} (hc : Denotes c d) (h : Digits cs k n) :
      Digits (c :: '_' :: cs) (k + 1) (d * 10 ^ k + n)

inductive Sign : List Char → Bool → Prop where
  | none : Sign [] false
  | plus : Sign ['+'] false
  | minus : Sign ['-'] true

inductive Mantissa : List Char → ℚ → Prop where
  | whole {ws : List Char} {k w : Nat} (hw : Digits ws k w) : Mantissa ws w
  | pointBehind {ws : List Char} {k w : Nat} (hw : Digits ws k w) : Mantissa (ws ++ ['.']) w
  | pointAmong {ws fs : List Char} {k w l f : Nat} (hw : Digits ws k w) (hf : Digits fs l f) :
      Mantissa (ws ++ '.' :: fs) (w + f / 10 ^ l)
  | pointBefore {fs : List Char} {l f : Nat} (hf : Digits fs l f) :
      Mantissa ('.' :: fs) (f / 10 ^ l)

inductive Exponent : List Char → Int → Prop where
  | none : Exponent [] 0
  | mark {c : Char} {s ds : List Char} {negative : Bool} {k n : Nat} (hc : c = 'e' ∨ c = 'E')
      (hs : Sign s negative) (hd : Digits ds k n) :
      Exponent (c :: (s ++ ds)) (if negative then -(n : Int) else n)

/-- A text spells a decimal with this sign and this absolute value. -/
inductive Spells : List Char → Bool → ℚ → Prop where
  | decimal {s ms es : List Char} {negative : Bool} {m : ℚ} {e : Int} (hs : Sign s negative)
      (hm : Mantissa ms m) (he : Exponent es e) : Spells (s ++ (ms ++ es)) negative (m * 10 ^ e)

section Rows

variable {c : Char} {cs tail : List Char} {ds : List Nat} {d k n : Nat}

theorem digitZeros_apart : digitZeros.Pairwise fun a b => a + 10 ≤ b := by decide +kernel

theorem digitValue?_eq_some_iff : digitValue? c = some d ↔ Denotes c d := by
  unfold digitValue? Denotes
  rw [Option.map_eq_some_iff]
  constructor
  · rintro ⟨start, hfind, rfl⟩
    have hrange := List.find?_some hfind
    simp only [Bool.and_eq_true, decide_eq_true_eq] at hrange
    exact ⟨start, List.mem_of_find?_eq_some hfind, by omega, by omega⟩
  · rintro ⟨start, hmem, hd, hc⟩
    refine ⟨start, ?_, by omega⟩
    obtain ⟨before, behind, hsplit⟩ := List.append_of_mem hmem
    have hapart := digitZeros_apart
    rw [hsplit] at hapart ⊢
    refine List.find?_eq_some_iff_append.2 ⟨?_, before, behind, rfl, fun other hother => ?_⟩
    · simp only [Bool.and_eq_true, decide_eq_true_eq]
      omega
    · have := (List.pairwise_append.1 hapart).2.2 other hother start (.head _)
      simp only [Bool.not_eq_true', Bool.and_eq_false_iff, decide_eq_false_iff_not]
      omega

theorem foldl_digitValues (ds : List Nat) (n : Nat) :
    ds.foldl (fun n d => 10 * n + d) n = n * 10 ^ ds.length + ofDigitValues ds := by
  induction ds generalizing n with
  | nil => simp [ofDigitValues]
  | cons d ds ih =>
    rw [ofDigitValues, List.foldl_cons, List.foldl_cons, ih, ih (10 * 0 + d), List.length_cons]
    ring

theorem ofDigitValues_append (xs ys : List Nat) :
    ofDigitValues (xs ++ ys) = ofDigitValues xs * 10 ^ ys.length + ofDigitValues ys := by
  rw [ofDigitValues, List.foldl_append, foldl_digitValues ys]
  rfl

theorem ofDigitValues_cons (d : Nat) (ds : List Nat) :
    ofDigitValues (d :: ds) = d * 10 ^ ds.length + ofDigitValues ds := by
  rw [ofDigitValues, List.foldl_cons, foldl_digitValues, Nat.mul_zero, Nat.zero_add]

theorem moreDigits_digit (hc : Denotes c d) (cs : List Char) :
    moreDigits (c :: cs) = (d :: (moreDigits cs).1, (moreDigits cs).2) := by
  rw [moreDigits.eq_def]
  simp only [digitValue?_eq_some_iff.2 hc]

theorem digitRow_digit (hc : Denotes c d) (cs : List Char) :
    digitRow (c :: cs) = moreDigits (c :: cs) := by
  simp only [digitRow, digitValue?_eq_some_iff.2 hc, moreDigits_digit hc]

theorem Digits.head (h : Digits cs k n) : ∃ c d rest, cs = c :: rest ∧ Denotes c d := by
  cases h with
  | one hc | next hc _ | apart hc _ => exact ⟨_, _, _, rfl, hc⟩

theorem Digits.moreDigits_underscore (h : Digits cs k n) (tail : List Char) :
    moreDigits ('_' :: (cs ++ tail)) = moreDigits (cs ++ tail) := by
  obtain ⟨c, d, rest, rfl, hc⟩ := h.head
  have hnone : digitValue? '_' = none := by decide +kernel
  rw [List.cons_append, moreDigits_digit hc, moreDigits.eq_def]
  simp only [hnone, digitValue?_eq_some_iff.2 hc]

theorem Digits.moreDigits_append (h : Digits cs k n) (htail : moreDigits tail = ([], tail)) :
    ∃ ds, moreDigits (cs ++ tail) = (ds, tail) ∧ ds.length = k ∧ ofDigitValues ds = n := by
  induction h with
  | @one c d hc =>
    refine ⟨[d], ?_, rfl, Nat.zero_add d⟩
    rw [List.singleton_append, moreDigits_digit hc, htail]
  | @next c cs d k n hc _ ih =>
    obtain ⟨ds, hread, rfl, rfl⟩ := ih
    refine ⟨d :: ds, ?_, rfl, ofDigitValues_cons d ds⟩
    rw [List.cons_append, moreDigits_digit hc, hread]
  | @apart c cs d k n hc h ih =>
    obtain ⟨ds, hread, rfl, rfl⟩ := ih
    refine ⟨d :: ds, ?_, rfl, ofDigitValues_cons d ds⟩
    rw [List.cons_append, List.cons_append, moreDigits_digit hc, h.moreDigits_underscore, hread]

theorem Digits.digitRow_append (h : Digits cs k n) (htail : moreDigits tail = ([], tail)) :
    ∃ ds, digitRow (cs ++ tail) = (ds, tail) ∧ ds ≠ [] ∧ ds.length = k ∧ ofDigitValues ds = n := by
  obtain ⟨ds, hread, hlength, hvalue⟩ := h.moreDigits_append htail
  obtain ⟨c, d, rest, rfl, hc⟩ := h.head
  refine ⟨ds, ?_, ?_, hlength, hvalue⟩
  · rw [List.cons_append, digitRow_digit hc]
    exact hread
  · rintro rfl
    rw [List.cons_append, moreDigits_digit hc] at hread
    cases hread

/-- What stands behind a digit: nothing, more digits, or an underscore and more digits. -/
def Follows (cs : List Char) (ds : List Nat) : Prop :=
  (cs = [] ∧ ds = []) ∨
    ∃ row, (cs = row ∨ cs = '_' :: row) ∧ Digits row ds.length (ofDigitValues ds)

theorem Follows.digits (hc : Denotes c d) (h : Follows cs ds) :
    Digits (c :: cs) (d :: ds).length (ofDigitValues (d :: ds)) := by
  rcases h with ⟨rfl, rfl⟩ | ⟨row, hcs, hrow⟩
  · rw [← Nat.zero_add d] at hc
    exact .one hc
  rw [ofDigitValues_cons]
  rcases hcs with rfl | rfl
  · exact .next hc hrow
  · exact .apart hc hrow

theorem moreDigits_follows (cs : List Char) :
    ∃ front, cs = front ++ (moreDigits cs).2 ∧ Follows front (moreDigits cs).1 := by
  fun_induction moreDigits cs with
  | case1 => exact ⟨[], rfl, .inl ⟨rfl, rfl⟩⟩
  | case2 c rest d hd ds after hmore ih =>
    obtain ⟨front, happ, hfront⟩ := ih
    rw [hmore] at happ hfront
    refine ⟨c :: front, by rw [happ]; rfl, .inr ⟨_, .inl rfl, ?_⟩⟩
    exact hfront.digits (digitValue?_eq_some_iff.1 hd)
  | case3 c rest d hd ds after hmore _ ih =>
    obtain ⟨front, happ, hfront⟩ := ih
    rw [hmore] at happ hfront
    refine ⟨'_' :: c :: front, by rw [happ]; rfl, .inr ⟨_, .inr rfl, ?_⟩⟩
    exact hfront.digits (digitValue?_eq_some_iff.1 hd)
  | case4 | case5 => exact ⟨[], rfl, .inl ⟨rfl, rfl⟩⟩

theorem digits_of_digitRow {rest : List Char} (h : digitRow cs = (ds, rest)) :
    (ds = [] ∧ rest = cs) ∨
      ∃ front, cs = front ++ rest ∧ Digits front ds.length (ofDigitValues ds) := by
  cases cs with
  | nil =>
    cases h
    exact .inl ⟨rfl, rfl⟩
  | cons c cs =>
    cases hc : digitValue? c with
    | none =>
      simp only [digitRow, hc] at h
      cases h
      exact .inl ⟨rfl, rfl⟩
    | some d =>
      have hdigit := digitValue?_eq_some_iff.1 hc
      obtain ⟨front, happ, hfront⟩ := moreDigits_follows cs
      rw [digitRow_digit hdigit, moreDigits_digit hdigit] at h
      cases h
      refine .inr ⟨c :: front, ?_, hfront.digits hdigit⟩
      rw [List.cons_append, ← happ]

end Rows

section Parts

variable {cs s es : List Char} {k n : Nat} {negative : Bool} {e : Int}

theorem sign_split (cs : List Char) : ∃ s, cs = s ++ (sign cs).2 ∧ Sign s (sign cs).1 := by
  unfold sign
  split
  · exact ⟨['-'], rfl, .minus⟩
  · exact ⟨['+'], rfl, .plus⟩
  · exact ⟨[], rfl, .none⟩

theorem Sign.sign_append (hs : Sign s negative) (h : sign cs = (false, cs)) :
    sign (s ++ cs) = (negative, cs) := by
  cases hs with
  | none => exact h
  | plus | minus => rfl

theorem Digits.sign_eq (h : Digits cs k n) : sign cs = (false, cs) := by
  obtain ⟨c, d, rest, rfl, hc⟩ := h.head
  have hvalue := digitValue?_eq_some_iff.2 hc
  unfold sign
  split
  · rename_i heq
    cases heq
    cases hvalue
  · rename_i heq
    cases heq
    cases hvalue
  · rfl

theorem exponent?_eq_some_iff : exponent? es = some e ↔ Exponent es e := by
  constructor
  · intro h
    unfold exponent? at h
    split at h
    · cases h
      exact .none
    rename_i c rest
    split at h
    · rename_i hmark
      obtain ⟨s, happ, hs⟩ := sign_split rest
      dsimp only at h
      split at h
      · rename_i d ds hrow
        obtain ⟨hnone, -⟩ | ⟨front, hfront, hdigits⟩ := digits_of_digitRow hrow
        · cases hnone
        rw [List.append_nil] at hfront
        rw [hfront] at happ
        cases h
        rw [Bool.or_eq_true, beq_iff_eq, beq_iff_eq] at hmark
        have hexponent := Exponent.mark hmark hs hdigits
        rwa [← happ] at hexponent
      · cases h
    · cases h
  · rintro (_ | ⟨hc, hs, hd⟩)
    · rfl
    · obtain ⟨values, hrow, hne, -, rfl⟩ := hd.digitRow_append moreDigits_nil
      obtain ⟨v, vs, rfl⟩ := List.exists_cons_of_ne_nil hne
      rw [List.append_nil] at hrow
      simp only [exponent?, hs.sign_append hd.sign_eq, hrow, Bool.or_eq_true, beq_iff_eq, if_pos hc]

theorem Exponent.detached (h : Exponent es e) :
    moreDigits es = ([], es) ∧ digitRow es = ([], es) ∧ es.head? ≠ some '.' := by
  cases h with
  | none => exact ⟨rfl, rfl, by simp⟩
  | mark hc _ _ => rcases hc with rfl | rfl <;> exact ⟨rfl, rfl, by simp⟩

end Parts

section Decimals

variable {cs ms es s : List Char} {negative : Bool} {m q : ℚ} {e : Int}
  {d : Decimal}

theorem rational_point (w f l : Nat) (e : Int) :
    (⟨w * 10 ^ l + f, e - l⟩ : Decimal).rational = (w + f / 10 ^ l) * 10 ^ e := by
  have hten : (10 : ℚ) ≠ 0 := by norm_num
  rw [Decimal.rational, zpow_sub₀ hten, zpow_natCast]
  push_cast
  field_simp

theorem Mantissa.decimal?_append (hm : Mantissa ms m) (he : Exponent es e) :
    ∃ d, decimal? (ms ++ es) = some d ∧ d.rational = m * 10 ^ e := by
  obtain ⟨hmore, hnone, hpoint⟩ := he.detached
  have hread := exponent?_eq_some_iff.2 he
  have hstop (rest : List Char) : moreDigits ('.' :: rest) = ([], '.' :: rest) := rfl
  cases hm with
  | whole hw =>
    obtain ⟨ws, hrow, hne, -, rfl⟩ := hw.digitRow_append hmore
    exact ⟨_, decimal?_of_row hrow hne hpoint hread, rfl⟩
  | pointBehind hw =>
    obtain ⟨ws, hrow, hne, -, rfl⟩ := hw.digitRow_append (hstop es)
    rw [List.append_assoc, List.singleton_append]
    refine ⟨_, decimal?_of_rows hrow hnone (.inl hne) hread, ?_⟩
    rw [ofDigitValues_append, rational_point]
    simp [ofDigitValues]
  | pointAmong hw hf =>
    obtain ⟨fs, hfraction, -, rfl, rfl⟩ := hf.digitRow_append hmore
    obtain ⟨ws, hrow, hne, -, rfl⟩ := hw.digitRow_append (hstop _)
    rw [List.append_assoc, List.cons_append]
    refine ⟨_, decimal?_of_rows hrow hfraction (.inl hne) hread, ?_⟩
    rw [ofDigitValues_append, rational_point]
  | pointBefore hf =>
    obtain ⟨fs, hfraction, hne, rfl, rfl⟩ := hf.digitRow_append hmore
    refine ⟨_, decimal?_of_rows rfl hfraction (.inr hne) hread, ?_⟩
    rw [ofDigitValues_append, rational_point]
    simp [ofDigitValues]

theorem mantissa_of_decimal? (h : decimal? cs = some d) :
    ∃ ms es m e, cs = ms ++ es ∧ Mantissa ms m ∧ Exponent es e ∧ d.rational = m * 10 ^ e := by
  unfold decimal? at h
  rcases hrow : digitRow cs with ⟨ws, behind⟩
  rw [hrow] at h
  dsimp only at h
  split at h
  · rename_i rest
    rcases hfraction : digitRow rest with ⟨fs, es⟩
    rw [hfraction] at h
    dsimp only at h
    split at h
    · cases h
    rename_i hsome
    obtain ⟨e, he, rfl⟩ := Option.map_eq_some_iff.1 h
    have hexponent := exponent?_eq_some_iff.1 he
    rw [ofDigitValues_append, rational_point]
    rcases digits_of_digitRow hrow with ⟨rfl, rfl⟩ | ⟨front, rfl, hw⟩ <;>
      rcases digits_of_digitRow hfraction with ⟨rfl, rfl⟩ | ⟨back, rfl, hf⟩
    · exact absurd rfl hsome
    · refine ⟨'.' :: back, es, _, e, rfl, .pointBefore hf, hexponent, ?_⟩
      simp [ofDigitValues]
    · refine ⟨front ++ ['.'], es, _, e, by simp, .pointBehind hw, hexponent, ?_⟩
      simp [ofDigitValues]
    · exact ⟨front ++ '.' :: back, es, _, e, by simp, .pointAmong hw hf, hexponent, rfl⟩
  · split at h
    · cases h
    rename_i hsome
    obtain ⟨e, he, rfl⟩ := Option.map_eq_some_iff.1 h
    rcases digits_of_digitRow hrow with ⟨rfl, rfl⟩ | ⟨front, rfl, hw⟩
    · exact absurd rfl hsome
    · refine ⟨front, behind, _, e, rfl, .whole hw, exponent?_eq_some_iff.1 he, ?_⟩
      rw [List.append_nil, List.length_nil, Int.natCast_zero, Int.sub_zero, Decimal.rational]

/-- A text spells what the reader makes of it, and nothing else. -/
theorem spells_iff : Spells cs negative q ↔
    ∃ rest d, sign cs = (negative, rest) ∧ decimal? rest = some d ∧ d.rational = q := by
  constructor
  · rintro ⟨hs, hm, he⟩
    obtain ⟨d, hd, hvalue⟩ := hm.decimal?_append he
    exact ⟨_, d, hs.sign_append (sign_of_decimal? hd), hd, hvalue⟩
  · rintro ⟨rest, d, hsign, hd, rfl⟩
    obtain ⟨s, happ, hs⟩ := sign_split cs
    obtain ⟨ms, es, m, e, hrest, hm, he, hvalue⟩ := mantissa_of_decimal? hd
    rw [hsign] at happ hs
    rw [happ, hrest, hvalue]
    exact .decimal hs hm he

theorem signedDecimal?_eq_some_iff {x : Float} : signedDecimal? cs = some x ∧ x.isFinite = true ↔
    ∃ negative q, Spells cs negative q ∧ RoundsTo negative q x := by
  simp only [spells_iff, signedDecimal?, Option.map_eq_some_iff]
  constructor
  · rintro ⟨⟨d, hd, hx⟩, hfinite⟩
    exact ⟨_, _, ⟨_, d, rfl, hd, rfl⟩, d.roundsTo_iff.2 ⟨hx, hfinite⟩⟩
  · rintro ⟨negative, q, ⟨rest, d, hsign, hd, rfl⟩, hround⟩
    obtain ⟨hx, hfinite⟩ := d.roundsTo_iff.1 hround
    rw [hsign]
    exact ⟨⟨d, hd, hx⟩, hfinite⟩

theorem Spells.unique {negative' : Bool} {q' : ℚ} (h : Spells cs negative q)
    (h' : Spells cs negative' q') : negative = negative' ∧ q = q' := by
  obtain ⟨rest, d, hsign, hd, rfl⟩ := spells_iff.1 h
  obtain ⟨rest', d', hsign', hd', rfl⟩ := spells_iff.1 h'
  cases hsign.symm.trans hsign'
  cases hd.symm.trans hd'
  exact ⟨rfl, rfl⟩

end Decimals

section Plain

variable {c : Char} {cs s ms es : List Char} {d k n : Nat} {negative : Bool} {m q : ℚ} {e : Int}

def plainDigit (c : Char) : Char := ((digitValue? c).map Nat.digitChar).getD c

def plain (cs : List Char) : List Char := (cs.filter (· != '_')).map plainDigit

theorem plain_append (xs ys : List Char) : plain (xs ++ ys) = plain xs ++ plain ys := by
  rw [plain, List.filter_append, List.map_append]
  rfl

theorem plain_digit (hc : Denotes c d) (cs : List Char) :
    plain (c :: cs) = Nat.digitChar d :: plain cs := by
  have hvalue := digitValue?_eq_some_iff.2 hc
  have hne : (c != '_') = true := by
    rw [bne_iff_ne]
    rintro rfl
    cases hvalue
  simp only [plain, List.filter_cons, hne, if_true, List.map_cons, plainDigit, hvalue,
    Option.map_some, Option.getD_some]

theorem plain_point (cs : List Char) : plain ('.' :: cs) = '.' :: plain cs := rfl

theorem plain_mark (hc : c = 'e' ∨ c = 'E') (cs : List Char) : plain (c :: cs) = c :: plain cs := by
  rcases hc with rfl | rfl <;> rfl

theorem Sign.plain_eq (h : Sign s negative) : plain s = s := by
  cases h <;> rfl

theorem denotes_digitChar (hc : Denotes c d) : Denotes (Nat.digitChar d) d := by
  obtain ⟨_, _, hd, _⟩ := hc
  have hdigits : ∀ d < 10, digitValue? (Nat.digitChar d) = some d := by decide +kernel
  exact digitValue?_eq_some_iff.1 (hdigits d hd)

theorem Digits.plain (h : Digits cs k n) : Digits (plain cs) k n := by
  induction h with
  | one hc =>
    rw [plain_digit hc]
    exact .one (denotes_digitChar hc)
  | next hc _ ih | apart hc _ ih =>
    rw [plain_digit hc]
    exact .next (denotes_digitChar hc) ih

theorem Mantissa.plain (h : Mantissa ms m) : Mantissa (plain ms) m := by
  cases h with
  | whole hw => exact .whole hw.plain
  | pointBehind hw =>
    rw [plain_append]
    exact .pointBehind hw.plain
  | pointAmong hw hf =>
    rw [plain_append, plain_point]
    exact .pointAmong hw.plain hf.plain
  | pointBefore hf => exact .pointBefore hf.plain

theorem Exponent.plain (h : Exponent es e) : Exponent (plain es) e := by
  cases h with
  | none => exact .none
  | mark hc hs hd =>
    rw [plain_mark hc, plain_append, hs.plain_eq]
    exact .mark hc hs hd.plain

theorem Spells.plain (h : Spells cs negative q) : Spells (plain cs) negative q := by
  obtain ⟨hs, hm, he⟩ := h
  rw [plain_append, plain_append, hs.plain_eq]
  exact .decimal hs hm.plain he.plain

theorem Digits.plain_not_blank (h : Digits cs k n) : ∀ c ∈ Numeral.plain cs, isBlank c = false := by
  have hdigits : ∀ d < 10, isBlank (Nat.digitChar d) = false := by decide +kernel
  have hdigit {c : Char} {d : Nat} (hc : Denotes c d) : isBlank (Nat.digitChar d) = false := by
    obtain ⟨_, _, hd, _⟩ := hc
    exact hdigits d hd
  induction h with
  | one hc =>
    rw [plain_digit hc, List.forall_mem_cons]
    exact ⟨hdigit hc, by simp [Numeral.plain]⟩
  | next hc _ ih | apart hc _ ih =>
    rw [plain_digit hc, List.forall_mem_cons]
    exact ⟨hdigit hc, ih⟩

theorem Mantissa.plain_not_blank (h : Mantissa ms m) :
    ∀ c ∈ Numeral.plain ms, isBlank c = false := by
  cases h with
  | whole hw => exact hw.plain_not_blank
  | pointBehind hw =>
    rw [plain_append, plain_point, List.forall_mem_append, List.forall_mem_cons]
    exact ⟨hw.plain_not_blank, rfl, by simp [Numeral.plain]⟩
  | pointAmong hw hf =>
    rw [plain_append, plain_point, List.forall_mem_append, List.forall_mem_cons]
    exact ⟨hw.plain_not_blank, rfl, hf.plain_not_blank⟩
  | pointBefore hf =>
    rw [plain_point, List.forall_mem_cons]
    exact ⟨rfl, hf.plain_not_blank⟩

theorem Sign.not_blank (h : Sign s negative) : ∀ c ∈ s, isBlank c = false := by
  cases h with
  | none => simp
  | plus | minus =>
    rw [List.forall_mem_singleton]
    rfl

theorem Exponent.plain_not_blank (h : Exponent es e) :
    ∀ c ∈ Numeral.plain es, isBlank c = false := by
  cases h with
  | none => simp [Numeral.plain]
  | mark hc hs hd =>
    rw [plain_mark hc, plain_append, hs.plain_eq, List.forall_mem_cons, List.forall_mem_append]
    refine ⟨?_, hs.not_blank, hd.plain_not_blank⟩
    rcases hc with rfl | rfl <;> rfl

theorem Spells.trim_plain (h : Spells cs negative q) :
    trim (Numeral.plain cs) = Numeral.plain cs := by
  obtain ⟨hs, hm, he⟩ := h
  apply trim_eq_self
  apply trimmed_of_not_blank
  rw [plain_append, plain_append, hs.plain_eq, List.forall_mem_append, List.forall_mem_append]
  exact ⟨hs.not_blank, hm.plain_not_blank, he.plain_not_blank⟩

end Plain

end NumberedBasic.Numeral

namespace NumberedBasic.Reply
open Text Double Numeral

section Reading

variable {t : String} {x : Float}

theorem not_spells_nil (negative : Bool) (q : ℚ) : ¬ Spells [] negative q := by
  intro h
  obtain ⟨rest, d, hsign, hd, -⟩ := spells_iff.1 h
  cases hsign
  cases hd

theorem value?_eq_some_iff : value? t = some x ↔
    (trim t.toList = [] ∧ x = 0.0) ∨
      ∃ negative q, Spells (trim t.toList) negative q ∧ RoundsTo negative q x := by
  unfold value?
  split
  · rename_i hblank
    rw [hblank]
    simp only [not_spells_nil, false_and, exists_false, or_false, true_and, Option.some.injEq]
    exact eq_comm
  · rename_i hne
    rw [Option.filter_eq_some_iff, signedDecimal?_eq_some_iff]
    exact (or_iff_right fun ⟨hblank, _⟩ => hne hblank).symm

theorem exists_value?_iff : (∃ x, value? t = some x) ↔
    trim t.toList = [] ∨
      ∃ negative q, Spells (trim t.toList) negative q ∧ q < overflowThreshold := by
  constructor
  · rintro ⟨x, hx⟩
    rcases value?_eq_some_iff.1 hx with ⟨hblank, -⟩ | ⟨negative, q, hspells, hround⟩
    · exact .inl hblank
    · exact .inr ⟨negative, q, hspells, hround.below⟩
  · rintro (hblank | ⟨negative, q, hspells, hbelow⟩)
    · exact ⟨0.0, value?_eq_some_iff.2 (.inl ⟨hblank, rfl⟩)⟩
    · obtain ⟨_, d, -, -, rfl⟩ := spells_iff.1 hspells
      have hfinite := (d.isFinite_toDouble_iff negative).2 hbelow
      have hround := d.roundsTo_iff.2 ⟨rfl, hfinite⟩
      exact ⟨_, value?_eq_some_iff.2 (.inr ⟨negative, _, hspells, hround⟩)⟩

theorem value?_plain (h : value? t = some x) :
    value? (String.ofList (plain (trim t.toList))) = some x := by
  rw [value?_eq_some_iff, String.toList_ofList]
  rcases value?_eq_some_iff.1 h with ⟨hblank, hx⟩ | ⟨negative, q, hspells, hround⟩
  · rw [hblank]
    exact .inl ⟨rfl, hx⟩
  · rw [hspells.trim_plain]
    exact .inr ⟨negative, q, hspells.plain, hround⟩

theorem finite_of_value? (h : value? t = some x) : x.isInf = false ∧ x.isNaN = false := by
  obtain ⟨negative, units, hparts⟩ : ∃ negative units, parts x = .finite negative units := by
    rcases value?_eq_some_iff.1 h with ⟨-, rfl⟩ | ⟨negative, q, -, hround⟩
    · exact (isFinite_iff 0.0).1 rfl
    · exact ⟨negative, hround.sign⟩
  rw [← Bool.not_eq_true, ← Bool.not_eq_true, isInf_iff, isNaN_iff, hparts]
  constructor
  · rintro ⟨_, hinfinite⟩
    cases hinfinite
  · intro hundefined
    cases hundefined

end Reading

/-- A reply is read exactly if it is blank, and then as zero, or if it spells a number whose rounded
value is finite, and then as that value; so a plain spelling of the same number is read alike.
`INPUT` sets its variable to what was read, and any other reply is a fault that quotes it. -/
theorem reads_exactly_decimals (t : String) :
    (∀ x, value? t = some x ↔
        (trim t.toList = [] ∧ x = 0.0) ∨
          ∃ negative q, Spells (trim t.toList) negative q ∧ RoundsTo negative q x) ∧
      ((∃ x, value? t = some x) ↔
        trim t.toList = [] ∨
          ∃ negative q, Spells (trim t.toList) negative q ∧ q < overflowThreshold) ∧
      (∀ negative q negative' q', Spells (trim t.toList) negative q →
        Spells (trim t.toList) negative' q' → negative = negative' ∧ q = q') ∧
      (∀ x, value? t = some x → x.isInf = false ∧ x.isNaN = false ∧
        value? (String.ofList (plain (trim t.toList))) = some x) ∧
      ∀ (image : Image) (level : Nat) (line : Int) (name : String) (c : Workspace), c.reply = t →
        (∀ x, value? t = some x →
          Image.told level (image.perform line (.input name) c) =
            (c.afterReply.assign name x, .ok .next)) ∧
        (value? t = none →
          Image.told level (image.perform line (.input name) c) =
              (c.afterReply, .error (.badReply (trimmed t))) ∧
            (Fault.badReply (trimmed t)).message =
              "cannot parse number from " ++ quoted (trimmed t)) := by
  refine ⟨fun x => value?_eq_some_iff, exists_value?_iff, fun _ _ _ _ h h' => h.unique h',
    fun x hx => ?_, fun image level line name c hreply => ⟨fun x hx => ?_, fun hnone => ⟨?_, rfl⟩⟩⟩
  · obtain ⟨hinf, hnan⟩ := finite_of_value? hx
    exact ⟨hinf, hnan, value?_plain hx⟩
  · rw [← hreply] at hx
    simp only [Image.perform, Image.told, hx]
  · rw [← hreply] at hnone ⊢
    simp only [Image.perform, Image.told, hnone]

/-- Thirteen and a half tens with digits of two scripts, and a decimal that is too large. -/
theorem mixedScript_and_overflow_read :
    (value? " -\u0661_3.5E+0_1\t" = some (-135.0) ∧
      (∃ negative q, Spells "-\u0661_3.5E+0_1".toList negative q ∧ RoundsTo negative q (-135.0)) ∧
      value? "-13.5E+01" = some (-135.0)) ∧
    value? " 1e309" = none ∧
      Image.told 0 ((Image.ofProgram .empty).perform 10 (.input "A")
          { replies := [some " 1e309"] }) =
        (Workspace.afterReply { replies := [some " 1e309"] }, .error (.badReply "1e309")) ∧
      (Fault.badReply "1e309").message = "cannot parse number from '1e309'" := by
  have hread : value? " -\u0661_3.5E+0_1\t" = some (-135.0) := by decide +kernel
  have htrim : trim " -\u0661_3.5E+0_1\t".toList = "-\u0661_3.5E+0_1".toList := by decide +kernel
  have hplain : String.ofList (plain "-\u0661_3.5E+0_1".toList) = "-13.5E+01" := by decide +kernel
  have hlarge : value? " 1e309" = none := by decide +kernel
  have hquoted : trimmed " 1e309" = "1e309" ∧
      "cannot parse number from " ++ quoted "1e309" = "cannot parse number from '1e309'" := by
    decide +kernel
  obtain ⟨hiff, -, -, hvalue, -⟩ := reads_exactly_decimals " -\u0661_3.5E+0_1\t"
  obtain ⟨-, -, -, -, hinput⟩ := reads_exactly_decimals " 1e309"
  obtain ⟨hfault, hmessage⟩ := (hinput (.ofProgram .empty) 0 10 "A"
    { replies := [some " 1e309"] } rfl).2 hlarge
  rw [htrim] at hiff hvalue
  rw [hquoted.1] at hfault hmessage
  rw [hquoted.2] at hmessage
  refine ⟨⟨hread, ?_, hplain ▸ (hvalue _ hread).2.2⟩, hlarge, hfault, hmessage⟩
  rcases (hiff _).1 hread with ⟨hblank, -⟩ | hspells
  · cases hblank
  · exact hspells

example : ["inf", "-Infinity", "nan", "1__0", "_1", "1_", "1_.5", "1._5", "1e_5", ".", "+", "1e",
    "- 1"].all fun s => (value? s).isNone := by
  decide +kernel

end NumberedBasic.Reply
