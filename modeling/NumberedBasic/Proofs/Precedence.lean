import Mathlib.Data.List.Induction
import NumberedBasic.Proofs.Spacing
import NumberedBasic.Proofs.Symbols

set_option autoImplicit false

/-!
# One level of precedence

A chain of operands and operators is evaluated from left to right, whatever the operators are. So
parentheses around its first operands change nothing but the depth of the nesting. The text of a
chain is read piece by piece (`chain_reads`), and an expression of a chain is compared with a fold
over the values of its operands (`Expr.ofChain_within`).
-/
namespace NumberedBasic
open Grammar

/-- The text of an operand, perhaps with gaps around it, and how it derives from the grammar. -/
structure Operand where
  text : String
  tree : OperandTree
  scans : ∃ ts, Token.scan text = .ok ts ∧
    ts.map Token.content = tree.tokens.map Token.content ++ [(.endOfLine, "", none)]

structure Link where
  op : Operator
  known : op.known = true
  operand : Operand

def Link.text (l : Link) : String := l.op.symbol ++ l.operand.text

def chainText (first : Operand) (links : List Link) : String :=
  first.text ++ String.join (links.map Link.text)

def Operand.value (store : Store) (a : Operand) : Except Fault Float := a.tree.ast.eval store

/-- Each operand is evaluated just before its operator is applied to all that comes before it. -/
def foldLeft (store : Store) (first : Operand) (links : List Link) : Except Fault Float := do
  let x ← first.value store
  links.foldlM (fun x l => do
    let y ← l.operand.value store
    l.op.apply x y) x

section Values

/-- The same result, unless the first one is the lack of room. -/
def Within (x y : Except Fault Float) : Prop := x ≠ .error .nesting → x = y

variable {store : Store} {x y : Except Fault Float}

theorem Within.refl (x : Except Fault Float) : Within x x := fun _ => rfl

theorem Within.bind {f g : Float → Except Fault Float} (h : Within x y)
    (hfg : ∀ v, Within (f v) (g v)) : Within (x >>= f) (y >>= g) := by
  intro hbind
  cases x with
  | error e =>
    obtain rfl := h hbind
    rfl
  | ok v =>
    obtain rfl := h (by simp)
    exact hfg v hbind

mutual

theorem Expr.evalIn_within {room more : Nat} (h : room ≤ more) (e : Expr) :
    Within (e.evalIn store room) (e.evalIn store more) := by
  cases e with
  | number x => exact .refl _
  | «variable» name => exact .refl _
  | negate e =>
    cases room with
    | zero => exact fun hne => absurd rfl hne
    | succ room =>
      cases more with
      | zero => omega
      | succ more => exact (e.evalIn_within (by omega)).bind fun _ => .refl _
  | chain first links =>
    cases room with
    | zero => exact fun hne => absurd rfl hne
    | succ room =>
      cases more with
      | zero => omega
      | succ more =>
        exact (first.evalIn_within (by omega)).bind fun v => links.evalIn_within (by omega) v

theorem Links.evalIn_within {room more : Nat} (h : room ≤ more) (l : Links) (v : Float) :
    Within (l.evalIn store room v) (l.evalIn store more v) := by
  cases l with
  | done => exact .refl _
  | link op e rest =>
    refine (e.evalIn_within h).bind fun w => ?_
    exact (Within.refl _).bind fun z => rest.evalIn_within h z

end

def Expr.ofChain (first : Expr) : List (Operator × Expr) → Expr
  | [] => first
  | links => .chain first (.ofList links)

def Expr.chainIn (store : Store) (room : Nat) (first : Expr) (links : List (Operator × Expr)) :
    Except Fault Float := do
  let x ← first.evalIn store room
  (Links.ofList links).evalIn store room x

theorem Links.evalIn_append (room : Nat) (front back : List (Operator × Expr)) (x : Float) :
    (Links.ofList (front ++ back)).evalIn store room x =
      (Links.ofList front).evalIn store room x >>= fun y =>
        (Links.ofList back).evalIn store room y := by
  induction front generalizing x with
  | nil => rfl
  | cons l front ih => simp only [List.cons_append, Links.ofList, Links.evalIn, ih, bind_assoc]

theorem Expr.ofChain_within (store : Store) (room : Nat) (first : Expr)
    (links : List (Operator × Expr)) :
    Within ((Expr.ofChain first links).evalIn store room) (first.chainIn store room links) := by
  cases links with
  | nil =>
    have hone : first.chainIn store room [] = first.evalIn store room := bind_pure _
    rw [hone]
    exact .refl _
  | cons l links =>
    cases room with
    | zero => exact fun hne => absurd rfl hne
    | succ room =>
      have hroom : room ≤ room + 1 := Nat.le_succ room
      exact (first.evalIn_within hroom).bind fun x => Links.evalIn_within hroom _ x

/-- Parentheses around the front of a chain take more room at most. -/
theorem Expr.grouped_within (store : Store) (room : Nat) (first : Expr)
    (front back : List (Operator × Expr)) :
    Within ((Expr.ofChain (Expr.ofChain first front) back).evalIn store room)
      ((Expr.ofChain first (front ++ back)).evalIn store room) := by
  cases back with
  | nil =>
    rw [List.append_nil]
    exact .refl _
  | cons l back =>
    cases front with
    | nil => exact .refl _
    | cons k front =>
      cases room with
      | zero => exact fun hne => absurd rfl hne
      | succ room =>
        have hgroup : Within ((Expr.ofChain first (k :: front)).evalIn store room)
            (first.chainIn store room (k :: front)) := Expr.ofChain_within store room first _
        have hchain : (Expr.ofChain first (k :: front ++ l :: back)).evalIn store (room + 1) =
            first.chainIn store room (k :: front) >>= fun y =>
              (Links.ofList (l :: back)).evalIn store room y := by
          change first.chainIn store room (k :: front ++ l :: back) = _
          simp only [Expr.chainIn, Links.evalIn_append, bind_assoc]
        rw [hchain]
        exact hgroup.bind fun y => .refl _

def Link.pair (l : Link) : Operator × Expr := (l.op, l.operand.tree.ast)

theorem foldLeft_eq (store : Store) (first : Operand) (links : List Link) :
    foldLeft store first links =
      first.tree.ast.chainIn store Expr.maxDepth (links.map Link.pair) := by
  have hlinks (x : Float) : links.foldlM (fun x l => do
      let y ← l.operand.value store
      l.op.apply x y) x = (Links.ofList (links.map Link.pair)).evalIn store Expr.maxDepth x := by
    induction links generalizing x with
    | nil => rfl
    | cons l links ih =>
      simp only [List.foldlM_cons, List.map_cons, Link.pair, Links.ofList, Links.evalIn, ← ih,
        bind_assoc]
      rfl
  simp only [foldLeft, Expr.chainIn, hlinks]
  rfl

end Values

section Reading
open Token

variable {tail : List Char} {contents : List (Kind × String × Option Token.Value)}

theorem Operand.reads (a : Operand) (ht : Detached tail) (htail : ReadsAs tail contents) :
    ReadsAs (a.text.toList ++ tail) (a.tree.tokens.map content ++ contents) := by
  obtain ⟨ts, hts, hcontents⟩ := a.scans
  have hrem : ∀ t ∈ ts, t.kind ≠ .keyword .REM := by
    intro t ht hrem
    have hmem : t.content ∈ ts.map content := List.mem_map_of_mem ht
    rw [hcontents] at hmem
    rcases List.mem_append.1 hmem with hmem | hmem
    · obtain ⟨u, hu, heq⟩ := List.mem_map.1 hmem
      have hkind : u.kind = .keyword .REM := (congrArg Prod.fst heq).trans hrem
      exact absurd (hkind ▸ a.tree.term_kinds u hu) (by decide)
    · have hkind : t.kind = .endOfLine := congrArg Prod.fst (List.mem_singleton.1 hmem)
      cases hkind.symm.trans hrem
  have hread := readsAs_append ht htail .start a.text.toList ts hts hrem
  rwa [hcontents, List.dropLast_concat] at hread

theorem symbol_lexeme {c : Char} {kind : Kind} (h : ([c], kind) ∈ Token.operators)
    (hc : c ∉ ['<', '>']) (rest : List Char) : Lexeme [c] rest kind none :=
  .operator h (single_longest fun _ _ => .inl hc)

theorem Operator.symbol_kind (op : Operator) (h : op.known = true) : ∃ c kind,
    op.symbol.toList = [c] ∧ ([c], kind) ∈ Token.operators ∧ kind ∈ Grammar.operators ∧
      isWordChar c = false ∧ c ∉ ['<', '>'] ∧ c ∉ ['.', '=', '>'] := by
  cases op with
  | add => exact ⟨'+', .plus, by decide⟩
  | subtract => exact ⟨'-', .minus, by decide⟩
  | multiply => exact ⟨'*', .times, by decide⟩
  | divide => exact ⟨'/', .divide, by decide⟩
  | modulo => exact ⟨'%', .modulo, by decide⟩
  | other symbol unknown => cases h

theorem Link.reads (l : Link) : ∃ leaf : Leaf Grammar.operators,
    Operator.ofSymbol leaf.token.text = l.op ∧
    ∀ tail contents, Detached tail → ReadsAs tail contents →
      Detached (l.text.toList ++ tail) ∧ ReadsAs (l.text.toList ++ tail)
        (leaf.token.content :: (l.operand.tree.tokens.map content ++ contents)) := by
  obtain ⟨c, kind, hsymbol, hop, hkind, hword, hsingle, hplain⟩ := l.op.symbol_kind l.known
  refine ⟨⟨⟨kind, l.op.symbol, none, .start⟩, hkind⟩, l.op.ofSymbol_symbol, ?_⟩
  intro tail contents ht htail
  have htext : l.text.toList ++ tail = [c] ++ (l.operand.text.toList ++ tail) := by
    rw [Link.text, String.toList_append, hsymbol, List.append_assoc]
  have hlexeme := symbol_lexeme hop hsingle (l.operand.text.toList ++ tail)
  have hkeyword : kind ≠ .keyword .REM := by
    rintro rfl
    exact absurd hkind (by decide)
  have hread := hlexeme.readsAs hkeyword (l.operand.reads ht htail)
  rw [htext]
  rw [← hsymbol, String.ofList_toList, hsymbol] at hread
  exact ⟨detached_cons hword hplain _, hread⟩

-- The tree of links grows at its end, and so does the text of a chain.
theorem links_read (links : List Link) : ∃ tree : LinkTrees, tree.links = links.map Link.pair ∧
    ∀ tail contents, Detached tail → ReadsAs tail contents →
      Detached ((String.join (links.map Link.text)).toList ++ tail) ∧
      ReadsAs ((String.join (links.map Link.text)).toList ++ tail)
        (tree.tokens.map content ++ contents) := by
  induction links using List.reverseRecOn with
  | nil =>
    refine ⟨.none, rfl, fun tail contents ht htail => ?_⟩
    simpa [LinkTrees.tokens] using ⟨ht, htail⟩
  | append_singleton links l ih =>
    obtain ⟨tree, hlinks, hread⟩ := ih
    obtain ⟨leaf, hop, hl⟩ := l.reads
    refine ⟨.more tree leaf l.operand.tree, ?_, fun tail contents ht htail => ?_⟩
    · rw [LinkTrees.links, hlinks, hop, List.map_append]
      rfl
    · obtain ⟨hdetached, hlink⟩ := hl tail contents ht htail
      simpa [LinkTrees.tokens, String.join_append] using hread _ _ hdetached hlink

theorem chain_reads (first : Operand) (links : List Link) : ∃ tree : ExprTree,
    tree.ast = .ofChain first.tree.ast (links.map Link.pair) ∧
    ∀ tail contents, Detached tail → ReadsAs tail contents →
      ReadsAs ((chainText first links).toList ++ tail) (tree.tokens.map content ++ contents) := by
  obtain ⟨rest, hlinks, hread⟩ := links_read links
  refine ⟨.expr first.tree rest, ?_, fun tail contents ht htail => ?_⟩
  · rw [ExprTree.ast, hlinks]
    cases links <;> rfl
  · obtain ⟨hdetached, hrest⟩ := hread tail contents ht htail
    simpa [chainText, ExprTree.tokens] using first.reads hdetached hrest

theorem readsAs_gaps {gaps : String} (h : gaps.toList.all isGap = true)
    (htail : ReadsAs tail contents) : ReadsAs (gaps.toList ++ tail) contents := by
  generalize gaps.toList = cs at h
  induction cs with
  | nil => exact htail
  | cons c cs ih =>
    rw [List.all_cons, Bool.and_eq_true] at h
    exact (ih h.2).gap h.1

theorem exists_group (first : Operand) (links : List Link) {before after : String}
    (hbefore : before.toList.all isGap = true) (hafter : after.toList.all isGap = true) :
    ∃ a : Operand, a.text = before ++ "(" ++ chainText first links ++ ")" ++ after ∧
      a.tree.ast = .ofChain first.tree.ast (links.map Link.pair) := by
  obtain ⟨tree, hast, hread⟩ := chain_reads first links
  let opening : Leaf [.leftParen] := ⟨⟨.leftParen, "(", none, .start⟩, .head _⟩
  let closing : Leaf [.rightParen] := ⟨⟨.rightParen, ")", none, .start⟩, .head _⟩
  have hleft (rest : List Char) : Lexeme ['('] rest .leftParen none :=
    symbol_lexeme (by decide) (by decide) rest
  have hright (rest : List Char) : Lexeme [')'] rest .rightParen none :=
    symbol_lexeme (by decide) (by decide) rest
  have hclosing := (hright _).readsAs (by decide) (readsAs_gaps hafter readsAs_nil)
  have hinner := hread _ _ (detached_cons (by decide) (by decide) _) hclosing
  have hgroup := readsAs_gaps hbefore ((hleft _).readsAs (by decide) hinner)
  obtain ⟨ts, hts, hcontents⟩ := hgroup .start
  refine ⟨⟨_, .group opening tree closing, ts, ?_, ?_⟩, rfl, hast⟩
  · rw [← hts, Token.scan]
    simp
  · rw [hcontents]
    simp [OperandTree.tokens, opening, closing, content]

theorem ofLine_chain (first : Operand) (links : List Link) :
    Statement.ofLine ("LET R = " ++ chainText first links) =
      .ok (.assign "R" (.ofChain first.tree.ast (links.map Link.pair)) true) := by
  obtain ⟨tree, hast, hread⟩ := chain_reads first links
  let head : KeywordLeaf .LET := ⟨⟨.keyword .LET, "LET", none, ⟨1, 1⟩⟩, .head _⟩
  let name : Leaf [.identifier] := ⟨⟨.identifier, "R", some (.text "R"), ⟨1, 5⟩⟩, .head _⟩
  let sign : Leaf [.equals] := ⟨⟨.equals, "=", none, ⟨1, 7⟩⟩, .head _⟩
  let eol : EndLeaf := ⟨endAt ⟨1, 8⟩, .head _⟩
  have hstart : Token.scan "LET R =" = .ok [head.token, name.token, sign.token, eol.token] :=
    eq_ok_of_toOption (by decide +kernel)
  have hchain := hread [] _ detached_nil readsAs_nil
  have hline := readsAs_append (detached_cons rfl (by decide) _) (hchain.gap (c := ' ') rfl) .start
    "LET R =".toList _ hstart (by simp [head, name, sign, eol, endAt])
  obtain ⟨ts, hts, hcontents⟩ := hline .start
  refine (Statement.ofLine_eq_ok_iff _ _).2 ⟨ts, ?_, ?_⟩
  · rw [← hts, Token.scan]
    simp
  · let line : StatementTree := .letName head name sign tree eol
    have hsame : ts.map content = line.tokens.map content := by
      rw [hcontents]
      simp [line, StatementTree.tokens, StatementTree.front, StatementTree.eol, eol, endAt, content]
    rw [Statement.ofTokens_content hsame, Statement.ofTokens_eq_ok_iff, ← hast]
    exact ⟨line, rfl, by simp [line, StatementTree.ast, Statement.targets], rfl⟩

end Reading

/-- A chain has one level of precedence and goes from left to right. Its value is that of the fold,
and parentheses around its front do not change it, as long as the nesting is not too deep. -/
theorem chain_folds_left (first : Operand) (links : List Link) (k : Nat) (before after : String)
    (hbefore : before.toList.all Token.isGap = true)
    (hafter : after.toList.all Token.isGap = true) :
    ∃ flat grouped,
      Statement.ofLine ("LET R = " ++ chainText first links) = .ok (.assign "R" flat true) ∧
      Statement.ofLine ("LET R = " ++ (before ++ "(" ++ chainText first (links.take k) ++ ")" ++
        after ++ String.join ((links.drop k).map Link.text))) = .ok (.assign "R" grouped true) ∧
      ∀ store,
        (flat.eval store ≠ .error .nesting → flat.eval store = foldLeft store first links) ∧
        (grouped.eval store ≠ .error .nesting → grouped.eval store = flat.eval store) := by
  obtain ⟨group, htext, hast⟩ := exists_group first (links.take k) hbefore hafter
  have hgrouped := ofLine_chain group (links.drop k)
  rw [chainText, htext, hast] at hgrouped
  refine ⟨_, _, ofLine_chain first links, hgrouped, fun store => ⟨?_, ?_⟩⟩
  · rw [foldLeft_eq]
    exact Expr.ofChain_within store _ _ _
  · have hwithin := Expr.grouped_within store Expr.maxDepth first.tree.ast
      ((links.take k).map Link.pair) ((links.drop k).map Link.pair)
    rw [← List.map_append, List.take_append_drop] at hwithin
    exact hwithin

theorem exists_scan_of_contents {text : String}
    {contents : List (Token.Kind × String × Option Token.Value)}
    (h : (Token.scan text).toOption.map (List.map Token.content) = some contents) :
    ∃ ts, Token.scan text = .ok ts ∧ ts.map Token.content = contents := by
  obtain ⟨ts, hts, hcontents⟩ := Option.map_eq_some_iff.1 h
  exact ⟨ts, eq_ok_of_toOption hts, hcontents⟩

def eight : Operand where
  text := "8 "
  tree := .number ⟨⟨.number, "8", some (.number 8), .start⟩, .head _⟩
  scans := exists_scan_of_contents (by decide +kernel)

def byA : Link where
  op := .divide
  known := rfl
  operand.text := " A"
  operand.tree := .name ⟨⟨.identifier, "A", some (.text "A"), .start⟩, .head _⟩
  operand.scans := exists_scan_of_contents (by decide +kernel)

def modMinusB : Link where
  op := .modulo
  known := rfl
  operand.text := "-B"
  operand.tree := .negate ⟨⟨.minus, "-", none, .start⟩, .head _⟩
    (.name ⟨⟨.identifier, "B", some (.text "B"), .start⟩, .head _⟩)
  operand.scans := exists_scan_of_contents (by decide +kernel)

def zeroA : Store := Store.empty.set "A" 0

/-- The division by zero comes before the name without a value. -/
theorem eight_by_zero_folds : ∃ flat grouped,
    Statement.ofLine "LET R = 8 / A%-B" = .ok (.assign "R" flat true) ∧
    Statement.ofLine "LET R = (8 / A)\t%-B" = .ok (.assign "R" grouped true) ∧
    flat.eval zeroA = foldLeft zeroA eight [byA, modMinusB] ∧
    grouped.eval zeroA = flat.eval zeroA ∧ grouped.eval zeroA = .error .divisionByZero := by
  have htexts : "LET R = " ++ chainText eight [byA, modMinusB] = "LET R = 8 / A%-B" ∧
      "LET R = " ++ ("" ++ "(" ++ chainText eight ([byA, modMinusB].take 1) ++ ")" ++ "\t" ++
        String.join (([byA, modMinusB].drop 1).map Link.text)) = "LET R = (8 / A)\t%-B" := by
    decide +kernel
  let front : Expr := .chain (.number 8) (.link .divide (.variable "A") .done)
  let whole : Expr := .chain front (.link .modulo (.negate (.variable "B")) .done)
  have hparsed : (Statement.ofLine "LET R = (8 / A)\t%-B").toOption =
      some (.assign "R" whole true) := by decide +kernel
  have hvalue : whole.eval zeroA = .error .divisionByZero := by decide +kernel
  obtain ⟨flat, grouped, hflat, hgrouped, hfold⟩ :=
    chain_folds_left eight [byA, modMinusB] 1 "" "\t" rfl rfl
  rw [htexts.1] at hflat
  rw [htexts.2] at hgrouped
  obtain ⟨hleft, hsame⟩ := hfold zeroA
  cases hgrouped.symm.trans (eq_ok_of_toOption hparsed)
  have hsame := hsame (by simp [hvalue])
  have hleft := hleft (by simp [← hsame, hvalue])
  exact ⟨flat, whole, hflat, hgrouped, hleft, hsame, hvalue⟩

end NumberedBasic
