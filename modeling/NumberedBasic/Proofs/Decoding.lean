import NumberedBasic.Proofs.Dumps

set_option autoImplicit false

/-!
# Dumps read back

A document is read from its parts: each of them tells what it says, and an object finds what it needs
by the names of its fields, in whatever order they stand. Every node is read back from its document,
so two nodes with the same document are the same, and programs with the same dump have the same
statements.
-/
namespace NumberedBasic

inductive Node where
  | expr (e : Expr)
  | condition (c : Condition)
  | statement (s : Statement Int)
  /-- A print statement that no line has: with a text and a variable, or with neither of them. -/
  | print (both : Option (String × String))
  deriving DecidableEq

def Node.toDocument : Node → Document
  | expr e => e.toDocument
  | condition c => c.toDocument
  | statement s => s.toDocument
  | print none => .ofPrint none none
  | print (some (text, name)) => .ofPrint (some text) (some name)

inductive Reading where
  | nothing
  | null
  | truth (b : Bool)
  | integer (n : Int)
  | real (x : Float)
  | text (s : String)
  | link (op : Operator) (operand : Expr)
  | links (row : Links)
  | node (n : Node)
  deriving DecidableEq

namespace Reading

def truth? : Reading → Option Bool
  | truth b => some b
  | _ => none

def integer? : Reading → Option Int
  | integer n => some n
  | _ => none

def real? : Reading → Option Float
  | real x => some x
  | _ => none

def text? : Reading → Option String
  | text s => some s
  | _ => none

def links? : Reading → Option Links
  | links row => some row
  | _ => none

def node? : Reading → Option Node
  | node n => some n
  | _ => none

def expr? : Reading → Option Expr
  | node (.expr e) => some e
  | _ => none

def condition? : Reading → Option Condition
  | node (.condition c) => some c
  | _ => none

def target? : Reading → Option (Option Int)
  | integer n => some (some n)
  | null => some none
  | _ => none

def print? : Reading → Reading → Option Node
  | text s, null => some (.statement (.print (.text s)))
  | null, text name => some (.statement (.print (.variable name)))
  | text s, text name => some (.print (some (s, name)))
  | null, null => some (.print none)
  | _, _ => none

def nodeOf? (type : String) (field : String → Reading) : Option Node :=
  match type with
  | "Number" => do
    let x ← (field "value").real?
    some (.expr (.number x))
  | "Variable" => do
    let name ← (field "name").text?
    some (.expr (.variable name))
  | "Negate" => do
    let operand ← (field "operand").expr?
    some (.expr (.negate operand))
  | "Expr" => do
    let first ← (field "first").expr?
    let links ← (field "rest").links?
    some (.expr (.chain first links))
  | "Condition" => do
    let op ← (field "op").text?
    let left ← (field "left").expr?
    let right ← (field "right").expr?
    some (.condition ⟨.ofSymbol op, left, right⟩)
  | "LetStmt" => do
    let name ← (field "name").text?
    let value ← (field "expr").expr?
    let explicit ← (field "explicit").truth?
    some (.statement (.assign name value explicit))
  | "PrintStmt" => print? (field "text") (field "variable")
  | "InputStmt" => do
    let name ← (field "name").text?
    some (.statement (.input name))
  | "IfStmt" => do
    let condition ← (field "condition").condition?
    let target ← (field "target").integer?
    let otherwise ← (field "else_target").target?
    some (.statement (.branch condition target otherwise))
  | "GotoStmt" => do
    let target ← (field "target").integer?
    some (.statement (.goto target))
  | "WhileStmt" => do
    let condition ← (field "condition").condition?
    some (.statement (.loop condition))
  | "WendStmt" => some (.statement .endLoop)
  | "EndStmt" => some (.statement .stop)
  | "RemStmt" => do
    let text ← (field "text").text?
    some (.statement (.remark text))
  | _ => none

/-- An object with a type is a node, one without is a link. -/
def ofFields (field : String → Reading) : Reading :=
  match (field "type").text? with
  | some type => (nodeOf? type field).elim nothing node
  | none =>
    match (field "op").text?, (field "operand").expr? with
    | some op, some operand => link (.ofSymbol op) operand
    | _, _ => nothing

def ofItems : List Reading → Reading
  | [] => links .done
  | link op operand :: rest =>
    match ofItems rest with
    | links row => links (.link op operand row)
    | _ => nothing
  | _ => nothing

end Reading

namespace Document

mutual

def reading : Document → Reading
  | null => .null
  | truth b => .truth b
  | integer n => .integer n
  | real x => .real x
  | text s => .text s
  | list items => .ofItems (readItems items)
  | object fields => .ofFields fun name => readField name fields

def readItems : List Document → List Reading
  | [] => []
  | item :: rest => item.reading :: readItems rest

def readField (name : String) : List (String × Document) → Reading
  | [] => .nothing
  | (other, value) :: rest => if name = other then value.reading else readField name rest

end

/-- The same values, in whatever order the fields stand. -/
inductive Same : Document → Document → Prop where
  | refl (d : Document) : Same d d
  | list {xs ys : List Document} (hlength : xs.length = ys.length)
      (hitems : ∀ (i : Nat) x y, xs[i]? = some x → ys[i]? = some y → Same x y) :
      Same (list xs) (list ys)
  | object {xs ys : List (String × Document)}
      (hnames : ∀ name, (xs.lookup name).isSome = (ys.lookup name).isSome)
      (hfields : ∀ name x y, xs.lookup name = some x → ys.lookup name = some y → Same x y) :
      Same (object xs) (object ys)

theorem readItems_eq (items : List Document) : readItems items = items.map reading := by
  induction items with
  | nil => rfl
  | cons item rest ih => rw [readItems, ih, List.map_cons]

theorem readField_eq (name : String) (fields : List (String × Document)) :
    readField name fields = (fields.lookup name).elim .nothing reading := by
  induction fields with
  | nil => rfl
  | cons field rest ih =>
    obtain ⟨other, value⟩ := field
    rw [readField, List.lookup_cons, ih]
    by_cases h : name = other
    · simp [h]
    · simp [h, beq_eq_false_iff_ne.2 h]

/-- Fields are found by their names, so their order does not count. -/
theorem Same.reading_eq {d e : Document} (h : Same d e) : d.reading = e.reading := by
  induction h with
  | refl d => rfl
  | @list xs ys hlength _ ih =>
    have hitems : xs.map reading = ys.map reading := by
      refine List.ext_getElem (by simp [hlength]) fun i hx hy => ?_
      rw [List.length_map] at hx hy
      rw [List.getElem_map, List.getElem_map]
      exact ih i _ _ (List.getElem?_eq_getElem hx) (List.getElem?_eq_getElem hy)
    rw [reading, reading, readItems_eq, readItems_eq, hitems]
  | @object xs ys hnames _ ih =>
    have hfields (name : String) : readField name xs = readField name ys := by
      have hsome := hnames name
      rw [readField_eq, readField_eq]
      cases hx : xs.lookup name with
      | none =>
        rw [hx, Option.isSome_none, eq_comm, Option.isSome_eq_false_iff, Option.isNone_iff_eq_none] at hsome
        rw [hsome]
      | some x =>
        rw [hx, Option.isSome_some, eq_comm, Option.isSome_iff_exists] at hsome
        obtain ⟨y, hy⟩ := hsome
        rw [hy]
        exact ih name x y hx hy
    rw [reading, reading, funext hfields]

end Document

def Node.ofDocument? (d : Document) : Option Node := d.reading.node?

theorem Document.reading_node (type : String) (fields : List (String × Document)) :
    (Document.node type fields).reading =
      (Reading.nodeOf? type fun name => readField name (("type", .text type) :: fields)).elim
        .nothing .node := rfl

mutual

theorem Expr.reading_toDocument : ∀ e : Expr, e.toDocument.reading = .node (.expr e)
  | .number x => rfl
  | .variable name => rfl
  | .negate operand => by
    rw [Expr.toDocument, Document.reading_node]
    simp [Reading.nodeOf?, Document.readField, operand.reading_toDocument, Reading.expr?]
  | .chain first links => by
    rw [Expr.toDocument, Document.reading_node]
    simp [Reading.nodeOf?, Document.readField, Document.reading, first.reading_toDocument,
      links.reading_toDocuments, Reading.expr?, Reading.links?]

theorem Links.reading_toDocuments :
    ∀ links : Links, Reading.ofItems (Document.readItems links.toDocuments) = .links links
  | .done => rfl
  | .link op operand rest => by
    simp [Links.toDocuments, Document.readItems, Document.reading, Document.readField,
      Reading.ofFields, Reading.ofItems, operand.reading_toDocument, rest.reading_toDocuments,
      Reading.expr?, Reading.text?]

end

theorem Condition.reading_toDocument (c : Condition) : c.toDocument.reading = .node (.condition c) := by
  rw [Condition.toDocument, Document.reading_node]
  simp [Reading.nodeOf?, Document.readField, Document.reading, c.left.reading_toDocument,
    c.right.reading_toDocument, Reading.expr?, Reading.text?]

theorem Statement.reading_toDocument (s : Statement Int) : s.toDocument.reading = .node (.statement s) := by
  cases s with
  | assign name value explicit =>
    rw [Statement.toDocument, Document.reading_node]
    simp [Reading.nodeOf?, Document.readField, Document.reading, value.reading_toDocument, Reading.expr?,
      Reading.text?, Reading.truth?]
  | print item => cases item <;> rfl
  | branch condition target otherwise =>
    rw [Statement.toDocument, Document.reading_node]
    cases otherwise <;>
    simp [Reading.nodeOf?, Document.readField, Document.reading, condition.reading_toDocument,
      Reading.condition?, Reading.integer?, Reading.target?, Document.ofTarget?]
  | loop condition =>
    rw [Statement.toDocument, Document.reading_node]
    simp [Reading.nodeOf?, Document.readField, condition.reading_toDocument, Reading.condition?]
  | input name | goto target | endLoop | stop | remark text => rfl

theorem Node.reading_toDocument (n : Node) : n.toDocument.reading = .node n := by
  cases n with
  | expr e => exact e.reading_toDocument
  | condition c => exact c.reading_toDocument
  | statement s => exact s.reading_toDocument
  | print both =>
    cases both with
    | none => rfl
    | some pair => rfl

theorem Node.eq_of_same {a b : Node} (h : a.toDocument.Same b.toDocument) : a = b := by
  have hreading := h.reading_eq
  rw [a.reading_toDocument, b.reading_toDocument] at hreading
  exact Reading.node.inj hreading

namespace Document

theorem Same.items {xs ys : List Document} (h : Same (.list xs) (.list ys)) :
    xs.length = ys.length ∧ ∀ (i : Nat) x y, xs[i]? = some x → ys[i]? = some y → Same x y := by
  cases h with
  | refl =>
    refine ⟨rfl, fun i x y hx hy => ?_⟩
    cases hx.symm.trans hy
    exact .refl x
  | list hlength hitems => exact ⟨hlength, hitems⟩

theorem Same.field {xs ys : List (String × Document)} (h : Same (.object xs) (.object ys))
    (name : String) {x y : Document} (hx : xs.lookup name = some x) (hy : ys.lookup name = some y) :
    Same x y := by
  cases h with
  | refl =>
    cases hx.symm.trans hy
    exact .refl x
  | object _ hfields => exact hfields name x y hx hy

def ofEntry (entry : Int × Statement Int) : Document :=
  object [("line", integer entry.1), ("statement", entry.2.toDocument)]

theorem eq_of_same_entries {entry other : Int × Statement Int}
    (h : (ofEntry entry).Same (ofEntry other)) : entry = other := by
  have hline : Same (integer entry.1) (integer other.1) := h.field "line" rfl rfl
  have hstatement : entry.2.toDocument.Same other.2.toDocument :=
    h.field "statement" rfl rfl
  have hnumber : entry.1 = other.1 := Reading.integer.inj hline.reading_eq
  have hnode : Node.statement entry.2 = .statement other.2 := Node.eq_of_same hstatement
  exact Prod.ext hnumber (Node.statement.inj hnode)

theorem eq_of_same_rows {row others : List (Int × Statement Int)}
    (h : (list (row.map ofEntry)).Same (list (others.map ofEntry))) : row = others := by
  obtain ⟨hlength, hitems⟩ := h.items
  rw [List.length_map, List.length_map] at hlength
  refine List.ext_getElem hlength fun i hi hi' => eq_of_same_entries (hitems i _ _ ?_ ?_)
  · rw [List.getElem?_map, List.getElem?_eq_getElem hi]
    rfl
  · rw [List.getElem?_map, List.getElem?_eq_getElem hi']
    rfl

end Document

/-- Every expression, condition and statement is read back from its document, whatever the order of
the fields. So nodes with the same document are the same, and programs with the same dump have the
same numbers and the same statements. -/
theorem dump_loses_nothing :
    (∀ node : Node, Node.ofDocument? node.toDocument = some node) ∧
    (∀ a b : Node, a.toDocument.Same b.toDocument → a = b) ∧
    ∀ (p q : Program) (d e : Document), p.toDocument = .ok d → q.toDocument = .ok e → d.Same e →
      p.numbers = q.numbers ∧ ∀ n ∈ p.numbers, ∃ statement,
        (Image.ofProgram p).statementAt n = .ok statement ∧
        (Image.ofProgram q).statementAt n = .ok statement := by
  refine ⟨fun node => ?_, fun a b => Node.eq_of_same, fun p q d e hd he hsame => ?_⟩
  · rw [Node.ofDocument?, node.reading_toDocument]
    rfl
  · obtain ⟨row, rfl, hnumbers, hrow⟩ := Program.toDocument_ok hd
    obtain ⟨others, rfl, hothers, hmem⟩ := Program.toDocument_ok he
    obtain rfl : row = others := Document.eq_of_same_rows hsame
    refine ⟨hnumbers.symm.trans hothers, fun n hn => ?_⟩
    rw [← hnumbers, List.mem_map] at hn
    obtain ⟨⟨n, statement⟩, hentry, rfl⟩ := hn
    exact ⟨statement, hrow n statement hentry, hmem n statement hentry⟩

def tight : Program := .ofLines [(10, "A=-(B%1)*2"), (20, "IF A<>B THEN 10")]

def loose : Program := .ofLines [(10, "A = - ( B % 1.0 ) * 02"), (20, "if (A) <> B then 10.0")]

theorem tight_and_loose_dumped :
    Node.ofDocument? (Expr.negate (.number (-0.0))).toDocument = some (.expr (.negate (.number (-0.0)))) ∧
    ∃ d, tight.toDocument = .ok d ∧ loose.toDocument = .ok d ∧ tight.numbers = loose.numbers ∧
      ∃ statement, (Image.ofProgram tight).statementAt 10 = .ok statement ∧
        (Image.ofProgram loose).statementAt 10 = .ok statement := by
  obtain ⟨hread, -, hdump⟩ := dump_loses_nothing
  have hrow : ∃ row, tight.statements.toOption = some row ∧ loose.statements.toOption = some row := by
    have hsame : tight.statements.toOption = loose.statements.toOption := by decide +kernel
    have hsome : tight.statements.toOption.isSome = true := by decide +kernel
    obtain ⟨row, hrow⟩ := Option.isSome_iff_exists.1 hsome
    exact ⟨row, hrow, hsame.symm.trans hrow⟩
  obtain ⟨row, htight, hloose⟩ := hrow
  have hd : tight.toDocument = .ok (.list (row.map Document.ofEntry)) := by
    rw [Program.toDocument, eq_ok_of_toOption htight]
    rfl
  have he : loose.toDocument = .ok (.list (row.map Document.ofEntry)) := by
    rw [Program.toDocument, eq_ok_of_toOption hloose]
    rfl
  obtain ⟨hnumbers, hstatements⟩ := hdump tight loose _ _ hd he (.refl _)
  exact ⟨hread (.expr (.negate (.number (-0.0)))), _, hd, he, hnumbers, hstatements 10 (by decide +kernel)⟩

end NumberedBasic
