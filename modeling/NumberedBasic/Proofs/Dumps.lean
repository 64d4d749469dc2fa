import NumberedBasic.Dump
import NumberedBasic.Proofs.Escapes

set_option autoImplicit false

/-!
# Dumps and runs

A dump parses all lines in ascending order, a run those that it comes to, in the order in which it
comes to them. Both refuse the same lines: a run that blames the text of a line has come to a line
without a statement, and the dump stops at the first of these. A run has two more syntax errors, the
refusal of a reply and the limit of nesting; they say nothing about the text of their line.
-/
namespace NumberedBasic

namespace Statement

theorem ofLine_of_dumpable {text : String} {statement : Statement Int}
    (h : dumpable text = .ok statement) : ofLine text = .ok statement := by
  obtain ⟨other, hline, h⟩ := bind_eq_ok h
  split at h <;> cases h
  exact hline

theorem dumpable_of_ofLine_error {text : String} {fault : Fault} (h : ofLine text = .error fault) :
    dumpable text = .error fault := by
  unfold dumpable
  rw [h]
  rfl

theorem kind?_of_dumpable_error {text : String} {fault : Fault}
    (h : dumpable text = .error fault) : ∃ kind, fault.kind? = some kind := by
  rcases bind_eq_error h with hline | ⟨statement, -, h⟩
  · rcases ofLine_error hline with ⟨e, rfl⟩ | ⟨e, rfl⟩
    · exact ⟨.lexical, rfl⟩
    · exact ⟨.syntactic, rfl⟩
  · split at h <;> cases h
    exact ⟨.syntactic, rfl⟩

end Statement

namespace Program

theorem statementsOf_ok {lines : List (Int × String)} {row : List (Int × Statement Int)}
    (h : statementsOf lines = .ok row) : row.map Prod.fst = lines.map Prod.fst ∧
      ∀ n statement, (n, statement) ∈ row →
        ∃ text, (n, text) ∈ lines ∧ Statement.ofLine text = .ok statement := by
  induction lines generalizing row with
  | nil =>
    cases h
    exact ⟨rfl, fun _ _ hmem => absurd hmem List.not_mem_nil⟩
  | cons line rest ih =>
    obtain ⟨m, text⟩ := line
    rw [statementsOf] at h
    split at h
    · cases h
    rename_i first hfirst
    split at h
    · cases h
    rename_i others hothers
    cases h
    obtain ⟨hnumbers, hmem⟩ := ih hothers
    refine ⟨congrArg (m :: ·) hnumbers, fun n statement hn => ?_⟩
    rcases List.mem_cons.1 hn with heq | hn
    · cases heq
      exact ⟨text, .head _, Statement.ofLine_of_dumpable hfirst⟩
    · obtain ⟨other, hin, hline⟩ := hmem n statement hn
      exact ⟨other, .tail _ hin, hline⟩

theorem statementsOf_error {lines : List (Int × String)} {n : Int} {text : String} {fault : Fault}
    (hasc : lines.Pairwise (·.1 < ·.1)) (hn : (n, text) ∈ lines)
    (h : Statement.dumpable text = .error fault) :
    ∃ m other e, (m, other) ∈ lines ∧ Statement.dumpable other = .error e ∧ m ≤ n ∧
      statementsOf lines = .error (m, e) := by
  induction lines with
  | nil => cases hn
  | cons line rest ih =>
    obtain ⟨m, other⟩ := line
    obtain ⟨hfirst, hrest⟩ := List.pairwise_cons.1 hasc
    cases hd : Statement.dumpable other with
    | error e =>
      refine ⟨m, other, e, .head _, hd, ?_, by simp [statementsOf, hd]⟩
      rcases List.mem_cons.1 hn with heq | hin
      · cases heq
        exact Int.le_refl _
      · exact Int.le_of_lt (hfirst _ hin)
    | ok statement =>
      rcases List.mem_cons.1 hn with heq | hin
      · cases heq
        cases h.symm.trans hd
      · obtain ⟨k, found, e, hmem, hfound, hle, herror⟩ := ih hrest hin
        exact ⟨k, found, e, .tail _ hmem, hfound, hle, by simp [statementsOf, hd, herror]⟩

variable {p : Program} {line : Int} {fault : Fault}

theorem toDocument_ok {document : Document} (h : p.toDocument = .ok document) :
    ∃ row : List (Int × Statement Int),
      document = .list (row.map fun (n, statement) =>
        .object [("line", .integer n), ("statement", statement.toDocument)]) ∧
      row.map Prod.fst = p.numbers ∧
      ∀ n statement, (n, statement) ∈ row → (Image.ofProgram p).statementAt n = .ok statement := by
  obtain ⟨row, hrow, h⟩ := bind_eq_ok h
  cases h
  obtain ⟨hnumbers, hmem⟩ := statementsOf_ok hrow
  refine ⟨row, rfl, hnumbers, fun n statement hn => ?_⟩
  obtain ⟨text, hin, hline⟩ := hmem n statement hn
  have ht : (Image.ofProgram p).program.text? n = some text := text?_eq_some_iff.2 hin
  rw [Image.statementAt, ht]
  exact hline

theorem toDocument_error (h : (Image.ofProgram p).statementAt line = .error fault)
    (hl : line ∈ p.numbers) :
    ∃ n e kind, p.toDocument = .error (n, e) ∧ e.kind? = some kind ∧ n ∈ p.numbers ∧ n ≤ line ∧
      (n = line → e = fault) := by
  obtain ⟨text, ht⟩ := Option.isSome_iff_exists.1 (mem_numbers_iff.1 hl)
  have hline : Statement.dumpable text = .error fault := by
    change (Image.ofProgram p).program.text? line = some text at ht
    rw [Image.statementAt, ht] at h
    exact Statement.dumpable_of_ofLine_error h
  obtain ⟨n, other, e, hin, he, hle, herror⟩ :=
    statementsOf_error p.ascending (text?_eq_some_iff.1 ht) hline
  obtain ⟨kind, hkind⟩ := Statement.kind?_of_dumpable_error he
  have hother : p.text? n = some other := text?_eq_some_iff.2 hin
  refine ⟨n, e, kind, by simp [toDocument, statements, herror, bind, Except.bind], hkind, ?_, hle, ?_⟩
  · simp [mem_numbers_iff, hother]
  · rintro rfl
    cases ht.symm.trans hother
    exact Except.error.inj (he.symm.trans hline)

/-- A statement that fails blames its text only for its nesting or, wrongly, for a reply. -/
theorem fails_kind {level : Nat} {statement : Statement Int} {c : Workspace}
    (h : (Image.ofProgram p).Fails level line c statement fault)
    (hs : (Image.ofProgram p).statementAt line = .ok statement) :
    fault.kind? ≠ some .lexical ∧
      (fault.kind? = some .syntactic → fault = .nesting ∨ ∃ name, statement = .input name) := by
  have hofLine : fault.ofLine = true := fails_ofLine h hs
  have heval (he : fault.ofEvaluation = true) :
      fault.kind? ≠ some .lexical ∧ (fault.kind? = some .syntactic → fault = .nesting) := by
    cases fault <;> simp_all [Fault.ofEvaluation, Fault.ofLine, Fault.kind?]
  have hraised {cause : Fault} (h : cause.kind? = some .invalidJump ∨ cause.kind? = some .unmatchedLoop)
      {kind : Fault.Kind} (hk : cause.raised.kind? = some kind) :
      kind ≠ .lexical ∧ kind ≠ .syntactic := by
    rw [Fault.kind?_of_raised hk] at h
    rcases h with h | h <;> cases h <;> decide
  obtain ⟨d, result, h, hr⟩ := h
  rcases Image.toldMove_eq_error_iff.1 hr with rfl | ⟨rfl, -⟩
  · cases h with
    | assignFails he => exact (heval (Expr.eval_fault he)).imp_right fun hk h => .inl (hk h)
    | branchFails he | guardFails he =>
      exact (heval (Condition.eval_fault he)).imp_right fun hk h => .inl (hk h)
    | @inputFails name _ => exact ⟨by simp [Fault.kind?], fun _ => .inr ⟨name, rfl⟩⟩
    | leaveFails _ hmove =>
      rw [(leaveLoop_eq_error_iff.1 hmove).2]
      exact ⟨fun hk => (hraised (.inr rfl) hk).1 rfl, fun hk => absurd rfl (hraised (.inr rfl) hk).2⟩
    | gotoFails _ =>
      exact ⟨fun hk => (hraised (.inl rfl) hk).1 rfl, fun hk => absurd rfl (hraised (.inl rfl) hk).2⟩
    | backFails _ =>
      exact ⟨fun hk => (hraised (.inr rfl) hk).1 rfl, fun hk => absurd rfl (hraised (.inr rfl) hk).2⟩
  · simp [Fault.kind?]

def BlamesText (p : Program) (abort : Abort) : Prop :=
  abort.kind? = some .lexical ∨
    (abort.kind? = some .syntactic ∧ abort.message ≠ Fault.nesting.message ∧
      ∀ name, (Image.ofProgram p).statementAt abort.line ≠ .ok (.input name))

end Program

theorem Reachable.blames_text {p : Program} {o : Options} {replies : List (Option String)}
    {s : RunState} {c : Workspace} {abort : Abort} (h : Reachable p o replies s)
    (hend : Stopped (.ofProgram p) o s c (.aborted abort)) (hb : p.BlamesText abort) :
    ∃ fault, (Image.ofProgram p).statementAt abort.line = .error fault ∧
      abort.kind? = fault.kind? ∧ abort.message = fault.message := by
  generalize hout : Outcome.aborted abort = outcome at hend
  cases hend with
  | done _ => cases hout
  | cancelled _ _ =>
    obtain ⟨-, rfl⟩ := Abort.of_outcome_aborted hout.symm
    rcases hb with hk | ⟨hk, -⟩ <;> cases hk
  | overrun _ _ _ =>
    obtain ⟨-, kind, hkind, rfl⟩ := Fault.of_outcome_aborted hout.symm
    have hkind := Fault.kind?_of_raised hkind
    rcases hb with hk | ⟨hk, -⟩ <;> cases hkind.trans hk
  | @failed line d fault hcursor _ _ hp =>
    obtain ⟨hshort, kind, hkind, rfl⟩ := Fault.of_outcome_aborted hout.symm
    have hline := Image.performLine_error_iff h.cached o.level line fault
    rw [(Image.ofProgram p).readAt_of_short hshort] at hline
    rcases hline.1 (congrArg Prod.snd hp) with hs | ⟨statement, hs, hfails⟩
    · exact ⟨fault, hs, hkind.symm, rfl⟩
    -- a statement that fails leaves two syntax errors, and neither of them blames the text
    · obtain ⟨hlexical, hsyntactic⟩ := Program.fails_kind hfails hs
      rcases hb with hk | ⟨hk, hmessage, hinput⟩
      · exact absurd (hkind.trans hk) hlexical
      · rcases hsyntactic (hkind.trans hk) with rfl | ⟨name, rfl⟩
        · exact absurd rfl hmessage
        · exact absurd hs (hinput name)

theorem toDocument_of_blamed {p : Program} {o : Options} {replies : List (Option String)}
    {rounds : Nat} {c : Workspace} {abort : Abort}
    (hrun : run rounds p o replies = some (c, .aborted abort)) (hb : p.BlamesText abort) :
    ∃ n fault kind, p.toDocument = .error (n, fault) ∧ fault.kind? = some kind ∧
      n ∈ p.numbers ∧ n ≤ abort.line ∧
      (n = abort.line → abort.kind? = some kind ∧ abort.message = fault.message) := by
  obtain ⟨k, s, hruns, hend⟩ := ended_of_runFrom hrun
  have hs : Reachable p o replies s := ⟨k, hruns⟩
  have hstopped := step_stopped hend
  obtain ⟨fault, hline, hkind, hmessage⟩ := hs.blames_text hstopped hb
  obtain ⟨n, e, kind, herror, he, hn, hle, hsame⟩ :=
    Program.toDocument_error hline (hs.cursor_mem hstopped.abort_line.1)
  refine ⟨n, e, kind, herror, he, hn, hle, fun heq => ?_⟩
  obtain rfl := hsame heq
  exact ⟨hkind.trans he, hmessage⟩

/-- A program that can be dumped has no run that blames the text of a line, and the dump of a program
with such a run fails at that line or before it, in the same way if it fails there. -/
theorem dump_agrees_with_runs (p : Program) :
    (∀ document, p.toDocument = .ok document →
      (∃ row : List (Int × Statement Int),
        document = .list (row.map fun (n, statement) =>
          .object [("line", .integer n), ("statement", statement.toDocument)]) ∧
        row.map Prod.fst = p.numbers ∧ p.numbers.Pairwise (· < ·) ∧
        ∀ n statement, (n, statement) ∈ row →
          (Image.ofProgram p).statementAt n = .ok statement) ∧
      ∀ o replies rounds c abort, run rounds p o replies = some (c, .aborted abort) →
        abort.kind? ≠ some .lexical ∧
        (abort.kind? = some .syntactic → abort.message = Fault.nesting.message ∨
          ∃ name, (Image.ofProgram p).statementAt abort.line = .ok (.input name))) ∧
    (∀ o replies rounds c abort, run rounds p o replies = some (c, .aborted abort) →
      p.BlamesText abort →
      ∃ n fault kind, p.toDocument = .error (n, fault) ∧ fault.kind? = some kind ∧
        n ∈ p.numbers ∧ n ≤ abort.line ∧
        (n = abort.line → abort.kind? = some kind ∧ abort.message = fault.message)) := by
  refine ⟨fun document hd => ⟨?_, ?_⟩, fun _ _ _ _ _ => toDocument_of_blamed⟩
  · obtain ⟨row, hdocument, hnumbers, hrow⟩ := Program.toDocument_ok hd
    exact ⟨row, hdocument, hnumbers, p.numbers_ascending, hrow⟩
  · intro o replies rounds c abort hrun
    have hnot : ¬ p.BlamesText abort := by
      intro hb
      obtain ⟨n, fault, kind, herror, -⟩ := toDocument_of_blamed hrun hb
      cases hd.symm.trans herror
    refine ⟨fun hk => hnot (.inl hk), fun hk => ?_⟩
    by_contra hneither
    rw [not_or, not_exists] at hneither
    exact hnot (.inr ⟨hk, hneither⟩)

def brokenTwice : Program := .ofLines [(10, "GOTO 30"), (20, "LET = 5"), (30, "X = 1 $ 2")]

def asking : Program := .ofLines [(10, "INPUT A"), (20, "PRINT A")]

theorem brokenTwice_and_asking_dumped :
    (∃ c abort n fault, run 2 brokenTwice {} [] = some (c, .aborted abort) ∧ abort.line = 30 ∧
      brokenTwice.BlamesText abort ∧ brokenTwice.toDocument = .error (n, fault) ∧ n ≤ 30) ∧
    ∃ document c abort name, asking.toDocument = .ok document ∧
      run 1 asking {} [some "two"] = some (c, .aborted abort) ∧
      abort.kind? = some .syntactic ∧
      (Image.ofProgram asking).statementAt abort.line = .ok (.input name) := by
  constructor
  · have hrun : (run 2 brokenTwice {} []).map Prod.snd = some (.aborted (.ofFault .lexical
        (.lex (.unexpected '$' ⟨1, 7⟩)) 30)) := by decide +kernel
    obtain ⟨⟨c, outcome⟩, hc, houtcome⟩ := Option.map_eq_some_iff.1 hrun
    cases houtcome
    have hb : brokenTwice.BlamesText (.ofFault .lexical (.lex (.unexpected '$' ⟨1, 7⟩)) 30) :=
      .inl rfl
    obtain ⟨n, fault, kind, herror, -, -, hle, -⟩ :=
      (dump_agrees_with_runs brokenTwice).2 {} [] 2 c _ hc hb
    exact ⟨c, _, n, fault, hc, rfl, hb, herror, hle⟩
  · have hdumped : asking.toDocument.toOption.isSome = true := by decide +kernel
    have hrun : (run 1 asking {} [some "two"]).map Prod.snd =
        some (.aborted (.ofFault .syntactic (.badReply "two") 10)) := by decide +kernel
    obtain ⟨document, hd⟩ := Option.isSome_iff_exists.1 hdumped
    obtain ⟨⟨c, outcome⟩, hc, houtcome⟩ := Option.map_eq_some_iff.1 hrun
    cases houtcome
    have hrefused := ((dump_agrees_with_runs asking).1 document (eq_ok_of_toOption hd)).2 {} _ 1 c _ hc
    rcases hrefused.2 rfl with hnesting | ⟨name, hinput⟩
    · exact absurd hnesting (by decide +kernel)
    · exact ⟨document, c, _, name, eq_ok_of_toOption hd, hc, rfl, hinput⟩

end NumberedBasic
