import NumberedBasic.Double.Decimal
import NumberedBasic.Text.Blank
import NumberedBasic.Token.Basic

set_option autoImplicit false

/-!
# Cutting a line into tokens

Tokens are cut from the left, each as long as it can be. Between them stand blanks, tabs and line
ends. A remark takes all that is left of the line. `first?_append` says that no character is lost,
which is also why the cutting ends.
-/
namespace NumberedBasic.Token

inductive LexError where
  | unterminated (position : Position)
  | unexpected (c : Char) (position : Position)
  deriving DecidableEq

def isGap (c : Char) : Bool := c == ' ' || c == '\t' || c == '\r' || c == '\n'

def isWordStart (c : Char) : Bool := c.isAlpha || c == '_'

def isWordChar (c : Char) : Bool := isWordStart c || c.isDigit

def pairKind? (c d : Char) : Option Kind :=
  match c, d with
  | '<', '=' => some .lessEqual
  | '<', '>' => some .notEqual
  | '>', '=' => some .greaterEqual
  | _, _ => none

def symbolKind? (c : Char) : Option Kind :=
  match c with
  | '(' => some .leftParen
  | ')' => some .rightParen
  | '+' => some .plus
  | '-' => some .minus
  | '*' => some .times
  | '/' => some .divide
  | '%' => some .modulo
  | '=' => some .equals
  | '<' => some .less
  | '>' => some .greater
  | _ => none

def wordKind (word : List Char) : Kind :=
  match Keyword.ofWord? word with
  | some k => .keyword k
  | none => .identifier

structure Cut where
  kind : Kind
  lexeme : List Char
  rest : List Char

/-- The fraction that may follow the digits of a numeral, a point and digits, and what comes after
it. A point with no digit behind it is no fraction. -/
def fraction : List Char → List Char × List Char
  | '.' :: d :: rest =>
    if d.isDigit then ('.' :: d :: rest.takeWhile Char.isDigit, rest.dropWhile Char.isDigit)
    else ([], '.' :: d :: rest)
  | cs => ([], cs)

def cutWord (cs : List Char) : Cut :=
  let word := cs.takeWhile isWordChar
  ⟨wordKind word, word, cs.dropWhile isWordChar⟩

def cutNumber (cs : List Char) : Cut :=
  let (part, rest) := fraction (cs.dropWhile Char.isDigit)
  ⟨.number, cs.takeWhile Char.isDigit ++ part, rest⟩

/-- A string runs to the next quote, over line ends too; the argument starts after its opening
quote. -/
def cutString? (cs : List Char) : Option Cut :=
  match cs.dropWhile (· != '"') with
  | [] => none
  | q :: rest => some ⟨.string, '"' :: cs.takeWhile (· != '"') ++ [q], rest⟩

def cutPair? (c : Char) : List Char → Option Cut
  | [] => none
  | d :: rest => (pairKind? c d).map fun kind => ⟨kind, [c, d], rest⟩

def cutSymbol? (c : Char) (rest : List Char) : Option Cut :=
  (cutPair? c rest).or ((symbolKind? c).map fun kind => ⟨kind, [c], rest⟩)

def first? (c : Char) (rest : List Char) : Option Cut :=
  if isWordStart c then some (cutWord (c :: rest))
  else if c.isDigit then some (cutNumber (c :: rest))
  else if c == '"' then cutString? rest
  else cutSymbol? c rest

def numeralValue (cs : List Char) : Float :=
  let part := (cs.dropWhile (· != '.')).drop 1
  Double.Decimal.toDouble false ⟨Text.ofDigits cs, -part.length⟩

def valueOf (kind : Kind) (lexeme : List Char) : Option Value :=
  match kind with
  | .identifier => some (.text (String.ofList lexeme))
  | .string => some (.text (String.ofList (lexeme.drop 1).dropLast))
  | .number => some (.number (numeralValue lexeme))
  | _ => none

def ofCut (cut : Cut) (p : Position) : Token :=
  ⟨cut.kind, String.ofList cut.lexeme, valueOf cut.kind cut.lexeme, p⟩

def endAt (p : Position) : Token := ⟨.endOfLine, "", none, p⟩

theorem fraction_append (cs : List Char) : (fraction cs).1 ++ (fraction cs).2 = cs := by
  unfold fraction
  split
  · split <;> simp
  · rfl

theorem first?_append {c : Char} {rest : List Char} {cut : Cut} (h : first? c rest = some cut) :
    cut.lexeme ++ cut.rest = c :: rest ∧ cut.lexeme ≠ [] := by
  unfold first? at h
  split at h
  · rename_i hc
    cases h
    have hw : isWordChar c = true := by simp [isWordChar, hc]
    simp [cutWord, hw]
  split at h
  · rename_i hc
    cases h
    refine ⟨?_, by simp [cutNumber, hc]⟩
    simp only [cutNumber]
    rw [List.append_assoc, fraction_append, List.takeWhile_append_dropWhile]
  split at h
  · rename_i hc
    have hq : c = '"' := by simpa using hc
    simp only [cutString?] at h
    split at h
    · simp at h
    · rename_i q after hd
      cases h
      have happ := List.takeWhile_append_dropWhile (p := fun x => x != '"') (l := rest)
      rw [hd] at happ
      simp [hq, happ]
  · simp only [cutSymbol?, Option.or_eq_some_iff] at h
    rcases h with h | ⟨-, h⟩
    · cases rest with
      | nil => simp [cutPair?] at h
      | cons d rest =>
        obtain ⟨kind, -, rfl⟩ := Option.map_eq_some_iff.1 h
        simp
    · obtain ⟨kind, -, rfl⟩ := Option.map_eq_some_iff.1 h
      simp

theorem first?_length {c : Char} {rest : List Char} {cut : Cut} (h : first? c rest = some cut) :
    cut.rest.length < (c :: rest).length := by
  obtain ⟨happ, hne⟩ := first?_append h
  have hpos := List.length_pos_iff.2 hne
  rw [← happ, List.length_append]
  omega

def tokensFrom (p : Position) (cs : List Char) : Except LexError (List Token) :=
  match cs with
  | [] => .ok [endAt p]
  | c :: rest =>
    if isGap c then tokensFrom (p.next c) rest
    else
      match _hcut : first? c rest with
      | none => .error (if c == '"' then .unterminated p else .unexpected c p)
      | some cut =>
        let after := p.after cut.lexeme
        if cut.kind = .keyword .REM then
          let remark := Text.trim cut.rest
          .ok [{ ofCut cut p with value := some (.text (String.ofList remark)) }, endAt after]
        else
          match tokensFrom after cut.rest with
          | .ok ts => .ok (ofCut cut p :: ts)
          | .error e => .error e
termination_by cs.length
decreasing_by
  · simp
  · exact first?_length _hcut

theorem tokensFrom_gap (p : Position) {c : Char} (h : isGap c = true) (rest : List Char) :
    tokensFrom p (c :: rest) = tokensFrom (p.next c) rest := by
  rw [tokensFrom, if_pos h]

theorem tokensFrom_cut (p : Position) {c : Char} {rest : List Char} {cut : Cut}
    (hgap : isGap c = false) (hcut : first? c rest = some cut) :
    tokensFrom p (c :: rest) =
      if cut.kind = .keyword .REM then
        .ok [{ ofCut cut p with value := some (.text (String.ofList (Text.trim cut.rest))) },
          endAt (p.after cut.lexeme)]
      else (tokensFrom (p.after cut.lexeme) cut.rest).map (ofCut cut p :: ·) := by
  rw [tokensFrom, if_neg (by simp [hgap])]
  split
  · rename_i hnone
    simp [hnone] at hcut
  · rename_i other hother
    obtain rfl := Option.some.inj (hcut.symm.trans hother)
    dsimp only
    cases tokensFrom (p.after cut.lexeme) cut.rest <;> rfl

def scan (s : String) : Except LexError (List Token) := tokensFrom .start s.toList

/-- The keyword that a text starts with. Only the first word is looked at, so that texts with no
tokens have one as well. -/
def wordKeyword? (cs : List Char) : Option Keyword :=
  match Text.trimLeft cs with
  | [] => none
  | c :: rest =>
    if isWordStart c then Keyword.ofWord? ((c :: rest).takeWhile isWordChar) else none

def headKeyword? (s : String) : Option Keyword := wordKeyword? s.toList

end NumberedBasic.Token
