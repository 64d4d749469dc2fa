import Mathlib.Data.List.TakeWhile
import NumberedBasic.Proofs.Runs

set_option autoImplicit false

/-!
# Replies

A run learns nothing of a reply before it reads it, and of a reply that it reads nothing but what is
left without its blanks. `Workspace.heard` puts another row of replies in place of those that are
still to come. Lines, rounds and runs commute with it, as long as every reply they read is alike in
both rows.
-/
namespace NumberedBasic

namespace Reply

/-- An entry of a row of replies. Behind the last one the input is at its end for ever. -/
def entry (replies : List (Option String)) (i : Nat) : Option String := replies[i]?.getD none

def IsBlank : Option String → Prop
  | none => True
  | some reply => reply.toList.all Text.isBlank = true

def Alike (a b : Option String) : Prop := a = b ∨ IsBlank a ∧ IsBlank b

def Agree (k : Nat) (replies others : List (Option String)) : Prop :=
  ∀ i < k, Alike (entry replies i) (entry others i)

instance : DecidablePred IsBlank
  | none => .isTrue trivial
  | some reply => inferInstanceAs (Decidable (reply.toList.all Text.isBlank = true))

instance (a b : Option String) : Decidable (Alike a b) :=
  inferInstanceAs (Decidable (a = b ∨ IsBlank a ∧ IsBlank b))

instance (k : Nat) (replies others : List (Option String)) : Decidable (Agree k replies others) :=
  inferInstanceAs (Decidable (∀ i < k, Alike (entry replies i) (entry others i)))

theorem trim_of_isBlank {a : Option String} (h : IsBlank a) : Text.trim (a.getD "").toList = [] := by
  cases a with
  | none => rfl
  | some reply =>
    have hblank : ∀ c ∈ reply.toList, Text.isBlank c = true := List.all_eq_true.1 h
    have hleft : Text.trimLeft reply.toList = [] := List.dropWhile_eq_nil_iff.2 hblank
    rw [Option.getD_some, Text.trim, hleft]
    rfl

theorem Alike.trim {a b : Option String} (h : Alike a b) :
    Text.trim (a.getD "").toList = Text.trim (b.getD "").toList := by
  rcases h with rfl | ⟨ha, hb⟩
  · rfl
  · rw [trim_of_isBlank ha, trim_of_isBlank hb]

theorem Agree.refl (k : Nat) (replies : List (Option String)) : Agree k replies replies :=
  fun _ _ => .inl rfl

theorem Agree.mono {k l : Nat} {replies others : List (Option String)} (h : Agree l replies others)
    (hkl : k ≤ l) : Agree k replies others :=
  fun i hi => h i (Nat.lt_of_lt_of_le hi hkl)

end Reply

namespace Workspace

/-- The workspace with the replies still to come taken from a row of all replies. -/
def heard (c : Workspace) (replies : List (Option String)) : Workspace :=
  { c with replies := replies.drop c.reads }

variable (c : Workspace) (replies : List (Option String))

theorem reads_of_bare {c d : Workspace} (h : c.bare = d.bare) : c.reads = d.reads := by
  change c.bare.reads = d.bare.reads
  rw [h]

@[simp] theorem reads_record (level : Nat) (e : Event) : (c.record level e).reads = c.reads :=
  reads_of_bare (c.bare_record level e)

theorem heard_record (level : Nat) (e : Event) :
    (c.record level e).heard replies = (c.heard replies).record level e := by
  unfold record
  split <;> rfl

theorem heard_afterReply : c.afterReply.heard replies = (c.heard replies).afterReply := by
  simp [heard, afterReply]

theorem reply_heard : (c.heard replies).reply = (Reply.entry replies c.reads).getD "" := by
  simp [reply, heard, Reply.entry]

theorem frame_heard : Frame (heard · replies) :=
  ⟨fun _ => rfl, fun _ => rfl, fun _ _ _ => rfl, fun _ _ => rfl, fun c => c.heard_afterReply replies,
    fun _ _ => rfl⟩

theorem fetchFrame_heard (level : Nat) : FetchFrame level level (heard · replies) :=
  ⟨fun _ => rfl, fun c e => c.heard_record replies level e, fun _ _ => rfl⟩

end Workspace

namespace RunState

def heard (s : RunState) (replies : List (Option String)) : RunState :=
  { s with workspace := s.workspace.heard replies }

end RunState

namespace Progress

def workspace : Progress → Workspace
  | running s => s.workspace
  | ended c _ => c

def heard (replies : List (Option String)) : Progress → Progress
  | running s => .running (s.heard replies)
  | ended c outcome => .ended (c.heard replies) outcome

end Progress

section Reading

variable {image : Image} {o : Options} {replies others : List (Option String)}

namespace Image

/-- The replies are looked at by one statement only, and there without their blanks. -/
theorem perform_heard {c : Workspace} (hc : c.heard replies = c) (line : Int)
    (statement : Statement Int)
    (h : Reply.Agree (image.perform line statement c).1.reads replies others) :
    image.perform line statement (c.heard others) =
      ((image.perform line statement c).1.heard others, (image.perform line statement c).2) := by
  apply perform_frame (Workspace.frame_heard others)
  intro hread
  have hreply : c.reply = (Reply.entry replies c.reads).getD "" := by
    rw [← Workspace.reply_heard, hc]
  rw [Workspace.reply_heard, hreply]
  exact (h c.reads hread).trim.symm

theorem reads_told (level : Nat) (x : Workspace × Except Fault (Move × Option Event)) :
    (told level x).1.reads = x.1.reads :=
  Workspace.reads_of_bare (Prod.mk.inj (told_bare level x)).1

theorem told_heard (level : Nat) (c : Workspace) (r : Except Fault (Move × Option Event)) :
    told level (c.heard others, r) =
      ((told level (c, r)).1.heard others, (told level (c, r)).2) := by
  obtain fault | ⟨move, _ | event⟩ := r
  · rfl
  · rfl
  · by_cases h : event.untold level = true
    · simp [told, Workspace.note, h]
    · simp [told, Workspace.note, h, Workspace.heard_record]

theorem reads_performLine (image : Image) (level : Nat) (line : Int) (c : Workspace) :
    c.reads ≤ (image.performLine level line c).1.reads := by
  have hfetch : (image.fetch level line c).1.reads = c.reads :=
    Workspace.reads_of_bare (image.fetch_fetches level line c).bare
  rcases hf : image.fetch level line c with ⟨d, fault | statement⟩
  · rw [hf] at hfetch
    simp only [performLine, hf]
    exact hfetch.ge
  · rw [hf] at hfetch
    simp only [performLine, hf, reads_told, ← hfetch]
    exact (image.perform_performs line statement d).reads

theorem performLine_heard {c : Workspace} (hc : c.heard replies = c) (level : Nat) (line : Int)
    (h : Reply.Agree (image.performLine level line c).1.reads replies others) :
    image.performLine level line (c.heard others) =
      ((image.performLine level line c).1.heard others, (image.performLine level line c).2) := by
  have hfetch (rs : List (Option String)) :=
    image.fetch_frame (Workspace.fetchFrame_heard rs level) line c
  have hsame := hfetch replies
  have hother := hfetch others
  rw [hc] at hsame
  rcases hf : image.fetch level line c with ⟨d, fault | statement⟩
  · rw [hf] at hother
    simp only [performLine, hother, hf]
  · rw [hf] at hother hsame
    have hd : d.heard replies = d := (congrArg Prod.fst hsame).symm
    simp only [performLine, hf, reads_told] at h
    simp only [performLine, hother, hf, perform_heard hd line statement h, told_heard]

end Image

theorem failure_heard (o : Options) (line : Int) (fault : Fault) (c : Workspace) :
    failure o line fault (c.heard others) = (failure o line fault c).heard others := by
  have hnoted := fault.noted_comm (f := fun c => c.heard others)
    (fun c e => c.heard_record others o.level e) line c
  rw [failure_eq, failure_eq, Progress.heard, hnoted]

theorem report_heard (o : Options) (abort : Abort) (c : Workspace) :
    report o abort (c.heard others) = (report o abort c).heard others := by
  have hnoted := abort.noted_comm (f := fun c => c.heard others)
    (fun c e => c.heard_record others o.level e) c
  rw [report_eq, report_eq, Progress.heard, hnoted]

theorem reads_failure (o : Options) (line : Int) (fault : Fault) (c : Workspace) :
    (failure o line fault c).workspace.reads = c.reads := by
  rw [failure_eq]
  exact Workspace.reads_of_bare (fault.bare_noted o line c)

theorem reads_report (o : Options) (abort : Abort) (c : Workspace) :
    (report o abort c).workspace.reads = c.reads := by
  rw [report_eq]
  exact Workspace.reads_of_bare (abort.bare_noted o c)

theorem reads_step_line {s : RunState} {line : Int} (hcursor : s.cursor = some line)
    (hcancel : ¬ o.cancel s.steps = true) (hlimit : o.overrun? s.steps = none) :
    (step image o s).workspace.reads =
      (image.performLine o.level line s.workspace).1.reads := by
  rcases hp : image.performLine o.level line s.workspace with ⟨c, move | fault⟩
  · simp [step, hcursor, hcancel, hlimit, hp, reads_failure]
  · simp [step, hcursor, hcancel, hlimit, hp, Progress.workspace]

theorem reads_step (image : Image) (o : Options) (s : RunState) :
    s.workspace.reads ≤ (step image o s).workspace.reads := by
  cases hcursor : s.cursor with
  | none => simp [step, hcursor, Progress.workspace]
  | some line =>
    by_cases hcancel : o.cancel s.steps = true
    · simp [step, hcursor, hcancel, reads_report]
    cases hlimit : o.overrun? s.steps with
    | some limit => simp [step, hcursor, hcancel, hlimit, reads_failure]
    | none =>
      rw [reads_step_line hcursor hcancel hlimit]
      exact image.reads_performLine o.level line s.workspace

theorem step_heard {s : RunState} (hs : s.workspace.heard replies = s.workspace)
    (h : Reply.Agree (step image o s).workspace.reads replies others) :
    step image o (s.heard others) = (step image o s).heard others := by
  cases hcursor : s.cursor with
  | none => simp [step, hcursor, RunState.heard, Progress.heard, Workspace.heard_record]
  | some line =>
    by_cases hcancel : o.cancel s.steps = true
    · simp [step, hcursor, hcancel, RunState.heard, report_heard]
    cases hlimit : o.overrun? s.steps with
    | some limit => simp [step, hcursor, hcancel, hlimit, RunState.heard, failure_heard]
    | none =>
      rw [reads_step_line hcursor hcancel hlimit] at h
      have hline := Image.performLine_heard hs o.level line h
      rcases hp : image.performLine o.level line s.workspace with ⟨c, fault | move⟩
      · rw [hp] at hline
        simp [step, hcursor, hcancel, hlimit, RunState.heard, hline, hp, failure_heard]
      · rw [hp] at hline
        simp [step, hcursor, hcancel, hlimit, RunState.heard, hline, hp, Progress.heard]

theorem hears_step {s u : RunState} (hs : s.workspace.heard replies = s.workspace)
    (hu : step image o s = .running u) : u.workspace.heard replies = u.workspace := by
  -- to hear the replies that are there anyway changes nothing
  have hself : step image o (s.heard replies) = _ := step_heard hs (.refl _ replies)
  have hsame : s.heard replies = s := by rw [RunState.heard, hs]
  rw [hsame, hu, Progress.heard, Progress.running.injEq] at hself
  exact (congrArg RunState.workspace hself).symm

theorem Runs.reads {s u : RunState} {n : Nat} (h : Runs image o s n u) :
    s.workspace.reads ≤ u.workspace.reads := by
  induction h with
  | refl _ => exact Nat.le_refl _
  | @next s v _ _ hs _ ih =>
    have hstep := reads_step image o s
    rw [hs] at hstep
    exact Nat.le_trans hstep ih

theorem Runs.hears {s u : RunState} {n : Nat} (h : Runs image o s n u)
    (hs : s.workspace.heard replies = s.workspace) : u.workspace.heard replies = u.workspace :=
  h.invariant (fun s => s.workspace.heard replies = s.workspace) hs fun _ _ => hears_step

theorem Runs.heard {s u : RunState} {n : Nat} (h : Runs image o s n u)
    (hs : s.workspace.heard replies = s.workspace)
    (hagree : Reply.Agree u.workspace.reads replies others) :
    Runs image o (s.heard others) n (u.heard others) := by
  induction h with
  | refl s => exact .refl _
  | @next s v u n hv htail ih =>
    have hsofar : Reply.Agree (step image o s).workspace.reads replies others := by
      rw [hv]
      exact hagree.mono htail.reads
    have hstep := step_heard hs hsofar
    rw [hv] at hstep
    exact .next hstep (ih (hears_step hs hv) hagree)

theorem startState_heard (image : Image) (o : Options) (replies others : List (Option String)) :
    (startState image o replies).heard others = startState image o others := by
  simp only [startState, RunState.heard, Workspace.heard_record]
  rfl

theorem start_hears (image : Image) (o : Options) (replies : List (Option String)) :
    (startState image o replies).workspace.heard replies =
      (startState image o replies).workspace :=
  congrArg RunState.workspace (startState_heard image o replies replies)

end Reading

structure Workspace.SameMade (c d : Workspace) : Prop where
  output : c.output = d.output
  store : c.store = d.store
  reads : c.reads = d.reads
  trace : c.trace = d.trace

theorem Workspace.sameMade_heard (c : Workspace) (replies : List (Option String)) :
    c.SameMade (c.heard replies) :=
  ⟨rfl, rfl, rfl, rfl⟩

/-- A run depends on the replies that it reads and on no others, and a blank reply is as good as the
end of the input. A run that goes on for ever is compared after each number of rounds. -/
theorem run_depends_on_replies_read (p : Program) (o : Options)
    (replies others : List (Option String)) :
    (∀ rounds c outcome, run rounds p o replies = some (c, outcome) →
      Reply.Agree c.reads replies others →
        ∃ d, run rounds p o others = some (d, outcome) ∧ c.SameMade d) ∧
    let image := Image.ofProgram p
    ∀ n s, Runs image o (startState image o replies) n s →
      Reply.Agree s.workspace.reads replies others →
        ∃ u, Runs image o (startState image o others) n u ∧ s.cursor = u.cursor ∧
          s.workspace.SameMade u.workspace := by
  have hstart := start_hears (.ofProgram p) o replies
  have hruns {n : Nat} {s : RunState}
      (hs : Runs (.ofProgram p) o (startState (.ofProgram p) o replies) n s)
      (hagree : Reply.Agree s.workspace.reads replies others) :
      Runs (.ofProgram p) o (startState (.ofProgram p) o others) n (s.heard others) :=
    startState_heard (.ofProgram p) o replies others ▸ hs.heard hstart hagree
  refine ⟨?_, ?_⟩
  · intro rounds c outcome hrun hagree
    obtain ⟨n, s, hs, hend⟩ := ended_of_runFrom hrun
    have hlast : Reply.Agree (step (.ofProgram p) o s).workspace.reads replies others := by
      rw [hend]
      exact hagree
    have hsofar := hruns hs (hlast.mono (reads_step (.ofProgram p) o s))
    have hstep := step_heard (hs.hears hstart) hlast
    rw [hend] at hstep
    obtain ⟨m, rfl, hm⟩ := hs.rest hrun
    refine ⟨c.heard others, ?_, c.sameMade_heard others⟩
    rw [run, hsofar.runFrom]
    cases m with
    | zero => cases hm
    | succ m => rw [runFrom, hstep, Progress.heard]
  · intro image n s hs hagree
    exact ⟨s.heard others, hruns hs hagree, rfl, s.workspace.sameMade_heard others⟩

def askingTwice : Program := .ofLines [(10, "INPUT A"), (20, "INPUT B"), (30, "PRINT A")]

theorem askingTwice_heard :
    ∃ d, run 4 askingTwice {} [some "7", some " \t", some "x"] = some (d, .completed) ∧
      d.reads = 2 ∧ d.output = #["7"] := by
  have hrun : (run 4 askingTwice {} [some "7"]).map
      (fun x => (x.2, x.1.reads, x.1.output)) = some (.completed, 2, #["7"]) := by decide +kernel
  obtain ⟨⟨c, outcome⟩, hc, hmade⟩ := Option.map_eq_some_iff.1 hrun
  simp only [Prod.mk.injEq] at hmade
  obtain ⟨rfl, hreads, houtput⟩ := hmade
  have hagree : Reply.Agree c.reads [some "7"] [some "7", some " \t", some "x"] := by
    rw [hreads]
    decide
  obtain ⟨d, hd, hsame⟩ := (run_depends_on_replies_read askingTwice {} _ _).1 4 c _ hc hagree
  exact ⟨d, hd, hsame.reads ▸ hreads, hsame.output ▸ houtput⟩

end NumberedBasic
