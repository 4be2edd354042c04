import Mathlib.Data.List.DropRight
import Decompilation.Proofs.Runner.Remember
import Decompilation.Proofs.Text.Case
import Decompilation.Runner.Run

/-!
# What is told of a run that failed

Of a run that ended with a code other than zero a problem is reported that tells the end of what the
program said and what that stands for (`Problem.Tells`). Which of the two streams counts is chosen
before blanks are taken off, so that blanks among the errors keep the output from being told: this is
the only way in which something was said and nothing of it is told (`run_tells_iff`).
-/

namespace Decompilation

open Text (allBlank mentions trim trimmed)

variable {said : String}

/-- Blanks around a message do not change what it stands for. -/
theorem Code.ofToolMessage_trimmed (said : String) :
    Code.ofToolMessage (trimmed said) = Code.ofToolMessage said := by
  obtain ⟨a, b, ha, hb, hsaid⟩ := Text.exists_trim said.toList
  have hlower : Text.lower said.toList = a ++ (Text.lower (trim said.toList) ++ b) := by
    rw [← Text.lower_append_append ha hb, ← hsaid]
  have hphrase : ∀ phrase, Text.Solid phrase → mentions (Text.lower said.toList) phrase =
      mentions (Text.lower (trim said.toList)) phrase := by
    intro phrase hsolid
    rw [hlower, Text.mentions_append_append hsolid ha hb]
  simp (disch := decide) only [Code.ofToolMessage, trimmed, String.toList_ofList, hphrase]

namespace Problem

/-- What the reason is where a tool said nothing. -/
def generalReason : String := "ilspycmd exited with an error"

/-- A problem tells what a tool said: its reason is what the last characters of the trimmed text are, and
not empty, and its code is what the text stands for. -/
def Tells (p : Problem) (said : String) : Prop :=
  ∃ reason, p.reason = some reason ∧ reason ≠ "" ∧ reason.toList = (trim said.toList).rtake 500 ∧
    p.code = Code.ofToolMessage said

theorem rtake_eq_nil_iff {s : List Char} : s.rtake 500 = [] ↔ s = [] := by
  rw [List.rtake, List.drop_eq_nil_iff, ← List.length_eq_zero_iff]
  omega

theorem excerpt_eq (said otherwise : String) : excerpt said otherwise =
    if allBlank said.toList then otherwise else String.ofList ((trim said.toList).rtake 500) := by
  have hblank : (((trim said.toList).rtake 500).isEmpty = true) = (allBlank said.toList = true) := by
    rw [List.isEmpty_iff, rtake_eq_nil_iff, Text.trim_eq_nil_iff]
  simp only [← hblank]
  rfl

theorem reason_runFailed (assembly said : String) (exitCode : Option Json.Value) :
    (runFailed assembly (some said) exitCode).reason = some (excerpt said generalReason) := rfl

theorem code_runFailed (assembly said : String) (exitCode : Option Json.Value) :
    (runFailed assembly (some said) exitCode).code = Code.ofToolMessage said := rfl

theorem not_tells_of_blank {p : Problem} (h : allBlank said.toList = true) : ¬ p.Tells said := by
  rintro ⟨reason, -, hne, hlist, -⟩
  rw [Text.trim_eq_nil_iff.2 h] at hlist
  exact hne (String.toList_eq_nil_iff.1 hlist)

theorem runFailed_tells (assembly : String) (exitCode : Option Json.Value)
    (h : ¬ allBlank said.toList = true) : (runFailed assembly (some said) exitCode).Tells said := by
  refine ⟨String.ofList ((trim said.toList).rtake 500), ?_, fun hnil => ?_, String.toList_ofList, rfl⟩
  · rw [reason_runFailed, excerpt_eq, if_neg h]
  · rw [← String.ofList_nil, String.ofList_inj, rtake_eq_nil_iff, Text.trim_eq_nil_iff] at hnil
    exact h hnil

theorem code_of_blank (h : allBlank said.toList = true) :
    Code.ofToolMessage said = .decompilationFailed := by
  rw [← Code.ofToolMessage_trimmed, Text.trimmed_eq_empty_iff.2 h]
  decide +kernel

/-- A problem made from blanks tells another text only if that is the general reason word for word. -/
theorem runFailed_tells_iff_of_blank {blank : String} (assembly : String) (exitCode : Option Json.Value)
    (h : allBlank blank.toList = true) :
    (runFailed assembly (some blank) exitCode).Tells said ↔ trimmed said = generalReason := by
  have hreason : (runFailed assembly (some blank) exitCode).reason = some generalReason := by
    rw [reason_runFailed, excerpt_eq, if_pos h]
  constructor
  · rintro ⟨reason, hsome, -, hlist, -⟩
    rw [hreason] at hsome
    cases hsome
    -- the general reason is shorter than an excerpt can be of a text that it leaves something out of
    have hlength := congrArg List.length hlist
    have hshort : generalReason.toList.length = 29 := rfl
    rw [List.rtake, List.length_drop, hshort] at hlength
    have hall : (trim said.toList).length - 500 = 0 := by omega
    rw [List.rtake, hall, List.drop_zero] at hlist
    rw [trimmed, ← hlist, String.ofList_toList]
  · intro hsaid
    have hlist : trim said.toList = generalReason.toList := by
      rw [← hsaid, trimmed, String.toList_ofList]
    refine ⟨generalReason, hreason, by decide, ?_, ?_⟩
    · rw [hlist]
      rfl
    · rw [code_runFailed, code_of_blank h, ← Code.ofToolMessage_trimmed said, hsaid]
      decide +kernel

end Problem

namespace Runner

open Act (bind_ok)
open Problem (Tells generalReason runFailed)

variable {r : Runner} {m m₁ m₂ : Machine} {tool : String} {arguments : List String} {assembly : Path}
  {c : Completed}

/-- Some character that a program wrote is not blank. -/
def Speaks (c : Completed) : Prop := ¬ allBlank c.errors.toList = true ∨ ¬ allBlank c.output.toList = true

/-- There are errors, but they are blank, and there is output that is not what is told of such a program
anyway. -/
def Muted (c : Completed) : Prop :=
  c.errors ≠ "" ∧ allBlank c.errors.toList = true ∧ trimmed c.output ≠ generalReason

instance (c : Completed) : Decidable (Speaks c) :=
  inferInstanceAs (Decidable (¬ allBlank c.errors.toList = true ∨ ¬ allBlank c.output.toList = true))

instance (c : Completed) : Decidable (Muted c) :=
  inferInstanceAs (Decidable (c.errors ≠ "" ∧ allBlank c.errors.toList = true ∧
    trimmed c.output ≠ generalReason))

/-- The stream that a problem is made from. -/
def heard (c : Completed) : String := if c.errors.isEmpty then c.output else c.errors

theorem run_of_failed (hresolve : resolve r m = .ok tool m₁)
    (hstart : Process.start (tool :: arguments) r.seconds m₁ = .ok (.ok c) m₂) (hcode : c.code ≠ 0) :
    run r arguments assembly m = .error (.reported .decompilation
      (runFailed assembly.toString (some (heard c)) (some (.int c.code)))) m₂ := by
  rw [run, bind_ok hresolve, bind_ok hstart]
  dsimp only
  rw [if_neg hcode]
  rfl

theorem heard_of_errors (h : c.errors ≠ "") : heard c = c.errors :=
  if_neg (by simpa using h)

theorem heard_of_no_errors (h : c.errors = "") : heard c = c.output := if_pos (by simp [h])

theorem tells_iff_not_muted (assembly : String) (exitCode : Option Json.Value) (h : Speaks c) :
    ((runFailed assembly (some (heard c)) exitCode).Tells c.errors ∨
      (runFailed assembly (some (heard c)) exitCode).Tells c.output) ↔ ¬ Muted c := by
  by_cases hnone : c.errors = ""
  · -- without errors the output counts
    have hsaid : ¬ allBlank c.output.toList = true := h.resolve_left (by simp [hnone, allBlank])
    rw [heard_of_no_errors hnone]
    exact iff_of_true (.inr (Problem.runFailed_tells _ _ hsaid)) fun hmuted => hmuted.1 hnone
  · rw [heard_of_errors hnone]
    by_cases hblank : allBlank c.errors.toList = true
    · rw [or_iff_right (Problem.not_tells_of_blank hblank),
        Problem.runFailed_tells_iff_of_blank _ _ hblank, Muted, not_and, not_and, not_not]
      exact ⟨fun htold _ _ => htold, fun htold => htold hnone hblank⟩
    · exact iff_of_true (.inl (Problem.runFailed_tells _ _ hblank)) fun hmuted => hblank hmuted.2.1

theorem allBlank_heard (h : ¬ Speaks c) : allBlank (heard c).toList = true := by
  rw [Speaks, not_or, not_not, not_not] at h
  by_cases hnone : c.errors = ""
  · rw [heard_of_no_errors hnone]
    exact h.2
  · rw [heard_of_errors hnone]
    exact h.1

/-- **What is told of a run that failed.** Where ilspycmd is found, started, and ends with a code other
than zero, a problem with the decompilation is reported. Where it wrote nothing but blanks the general
reason is given. Otherwise the problem tells the errors or the output, except where there are errors but
blank ones, and the output is not word for word the general reason. -/
theorem run_tells_iff (hresolve : resolve r m = .ok tool m₁)
    (hstart : Process.start (tool :: arguments) r.seconds m₁ = .ok (.ok c) m₂) (hcode : c.code ≠ 0) :
    ∃ p, run r arguments assembly m = .error (.reported .decompilation p) m₂ ∧
      (¬ Speaks c → p.reason = some generalReason ∧ p.code = .decompilationFailed) ∧
      (Speaks c → ((p.Tells c.errors ∨ p.Tells c.output) ↔ ¬ Muted c)) := by
  refine ⟨_, run_of_failed hresolve hstart hcode, fun hsilent => ?_, tells_iff_not_muted _ _⟩
  have hblank := allBlank_heard hsilent
  rw [Problem.reason_runFailed, Problem.excerpt_eq, if_pos hblank, Problem.code_runFailed,
    Problem.code_of_blank hblank]
  exact ⟨rfl, rfl⟩

/-- A machine on which ilspycmd ends with the code one. -/
def failingMachine (output errors : String) : Machine :=
  { Machine.ofDisk Disk.empty with
    memory := ⟨some "/bin/ilspycmd", none⟩
    toolbox := { Toolbox.idle with runs := [.ended [] 1 output errors] } }

def impatientRunner : Runner := ⟨⟨.root, ["tools"]⟩, .int 1, .int 300⟩

theorem start_on_failingMachine (output errors : String) : ∃ m',
    Process.start ["/bin/ilspycmd", "-l", "c"] (.int 300) (failingMachine output errors) =
      .ok (.ok ⟨1, output, errors⟩) m' := ⟨_, rfl⟩

/-- Output is told where there are no errors. -/
theorem run_tells_output : ∃ p m',
    run impatientRunner ["-l", "c"] ⟨.root, ["A.dll"]⟩ (failingMachine "Could not find type 'X'\n" "") =
      .error (.reported .decompilation p) m' ∧ p.Tells "Could not find type 'X'\n" := by
  obtain ⟨m', hstart⟩ := start_on_failingMachine "Could not find type 'X'\n" ""
  obtain ⟨p, hrun, -, htells⟩ := @run_tells_iff impatientRunner _ _ _ _ _ ⟨.root, ["A.dll"]⟩ _
    (resolve_of_remembers rfl) hstart (by decide)
  have htold := (htells (by decide)).2 (by decide)
  exact ⟨p, m', hrun, htold.resolve_left (Problem.not_tells_of_blank rfl)⟩

/-- Errors of a single line end keep the output from being told. -/
theorem blank_errors_mute : ¬ ∀ (r : Runner) (m m₁ m₂ : Machine) (tool : String) (arguments : List String)
    (assembly : Path) (c : Completed), resolve r m = .ok tool m₁ →
    Process.start (tool :: arguments) r.seconds m₁ = .ok (.ok c) m₂ → c.code ≠ 0 → Speaks c →
    ∃ p m', run r arguments assembly m = .error (.reported .decompilation p) m' ∧
      (p.Tells c.errors ∨ p.Tells c.output) := by
  intro hclaim
  let m := failingMachine "Could not find type 'X'\n" "\n"
  obtain ⟨m', hstart⟩ := start_on_failingMachine "Could not find type 'X'\n" "\n"
  have hresolve : resolve impatientRunner m = .ok "/bin/ilspycmd" m := resolve_of_remembers rfl
  have hspeaks : Speaks ⟨1, "Could not find type 'X'\n", "\n"⟩ := by decide
  obtain ⟨p, n, hrun, htold⟩ := hclaim impatientRunner m m m' _ _ ⟨.root, ["A.dll"]⟩ _ hresolve hstart
    (by decide) hspeaks
  rw [run_of_failed hresolve hstart (by decide)] at hrun
  cases hrun
  exact (tells_iff_not_muted _ _ hspeaks).1 htold (by decide)

end Runner

end Decompilation
