import Decompilation.Proofs.Runner.Search

/-!
# Attempts and processes

Looking for ilspycmd or dotnet makes no attempt to start a program (`seeks_resting`), and installing
ilspycmd makes one at least (`calls_of_install`). So an ilspycmd that one comes to without an attempt is
one that is found (`find?_eq_some_iff_resolve`). An attempt need not come off. An ilspycmd that one
comes to without a process is found too, or else it was always there, but could not be seen before the
tools folder was made (`Surfaces`, `find?_eq_some_iff_unstarted`).
-/

namespace Decompilation

open Act
open Json (Value)

variable {r : Runner} {m m₁ m' : Machine} {found : Option String} {tool dotnet folder said said' : String}
  {command actions : List String} {seconds : Value}

/-- Attempts are added, and those that came off are processes. -/
theorem Machine.processes_of_calls {more : List Call} (h : m'.calls = m.calls ++ more) :
    m'.processes = m.processes ++ more.filter (·.started) := by
  rw [processes, h, List.filter_append]
  rfl

theorem Reaction.starts_eq_false_iff {reaction : Reaction} :
    reaction.starts = false ↔ ∃ message, reaction = .failure message := by
  cases reaction <;> simp [starts]

namespace Process

/-- To start a program is an attempt, and it comes off unless the program reacts with a failure. -/
theorem calls_of_start {answer : Except Interruption Completed}
    (h : start command seconds m = .ok answer m') : ∃ reaction flag m₁,
      react command m = .ok (reaction, flag) m₁ ∧
      m'.calls = m.calls ++ [⟨command, seconds, reaction.starts⟩] := by
  obtain ⟨⟨reaction, flag⟩, m₁, hreact, hrest⟩ := exists_of_bind_ok h
  obtain ⟨_, m₂, hrecord, hlast⟩ := exists_of_bind_ok hrest
  cases hrecord
  refine ⟨reaction, flag, m₁, hreact, ?_⟩
  have hcalls : m₁.calls = m.calls := by
    rcases react_cases hreact with rfl | rfl <;> rfl
  set calls := m₁.calls ++ [⟨command, seconds, reaction.starts⟩] with hattempt
  rw [← hcalls, ← hattempt]
  -- what a program leaves behind is not logged
  have hdeposit : ∀ p d, Keeps (fun m' => m'.calls = calls) (Files.deposit p d) :=
    Files.keeps_deposit_of_takes fun _ _ _ _ _ hm _ _ => hm
  cases reaction with
  | overrun | failure message =>
    cases hlast
    rfl
  | ended files code output errors =>
    dsimp only at hlast
    refine (Keeps.orElse ?_ fun f => .pure _).ok (P := fun m' => m'.calls = calls) rfl hlast
    split
    · exact (keeps_leave fun e _ => hdeposit _ _).bind fun _ => .pure _
    · exact .pure _

/-- A program that does not come to run changes nothing but the attempts. -/
theorem start_of_failure {message flag : String}
    (h : react command m = .ok (.failure message, flag) m) : start command seconds m =
      .ok (.error (.failure message)) { m with calls := m.calls ++ [⟨command, seconds, false⟩] } := by
  rw [start, bind_ok h]
  rfl

end Process

namespace Runner

/-! ## Looking makes no attempt -/

/-- No attempt is made, and the programs' reactions and the system stay what they are. -/
def Rests (m m' : Machine) : Prop :=
  m'.calls = m.calls ∧ m'.toolbox = m.toolbox ∧ m'.system = m.system

theorem Rests.trans (h : Rests m m₁) (h' : Rests m₁ m') : Rests m m' :=
  ⟨h'.1.trans h.1, h'.2.1.trans h.2.1, h'.2.2.trans h.2.2⟩

theorem Rests.processes (h : Rests m m') : m'.processes = m.processes := by
  rw [Machine.processes, Machine.processes, h.1]

theorem Rests.own (h : Rests m m') : own r m' = own r m := by
  rw [Runner.own, Runner.own, h.2.2]

theorem seeks_resting (m : Machine) : Seeks (Rests m) where
  reread _ hm := hm
  dotnet _ hm := hm
  remember _ hm := hm
  environment _ hm := hm
  settings _ _ _ _ _ _ hm _ _ := hm

theorem rests_of_find? (h : find? r m = .ok found m') : Rests m m' :=
  (keeps_find? (seeks_resting m)).ok ⟨rfl, rfl, rfl⟩ h

theorem rests_of_findDotnet? (h : findDotnet? m = .ok found m') : Rests m m' :=
  (keeps_findDotnet? (seeks_resting m).toCalm).ok ⟨rfl, rfl, rfl⟩ h

theorem rests_of_makeFolders {p : Path} (h : Files.makeFolders p m = .ok () m') : Rests m m' :=
  (Files.keeps_makeFolders fun _ _ _ _ _ hm _ _ => hm).ok (P := Rests m) ⟨rfl, rfl, rfl⟩ h

theorem calls_of_persist (h : persist tool (recalling m tool) = .ok () m') : m'.calls = m.calls :=
  ((keeps_persist (seeks_resting m) tool).ok (m := recalling m tool) ⟨rfl, rfl, rfl⟩ h).1

/-! ## Installing makes attempts -/

/-- An action is an attempt, behind which the others are tried or not. -/
theorem tryActions_cons_cases {action : String}
    (h : tryActions dotnet folder said (action :: actions) m = .ok said' m') : ∃ c m₁,
      m₁.calls = m.calls ++ [c] ∧ c.started = (m.toolbox.manage action).starts ∧
      (m' = m₁ ∨ ∃ said₁, tryActions dotnet folder said₁ actions m₁ = .ok said' m') := by
  obtain ⟨answer, m₁, hstart, hrest⟩ := exists_of_bind_ok h
  obtain ⟨reaction, flag, m₂, hreact, hcalls⟩ := Process.calls_of_start hstart
  rw [Process.react_tool] at hreact
  cases hreact
  refine ⟨_, m₁, hcalls, rfl, ?_⟩
  cases answer with
  | error i => exact .inr ⟨_, hrest⟩
  | ok c =>
    dsimp only at hrest
    split at hrest
    · cases hrest
      exact .inl rfl
    · exact .inr ⟨_, hrest⟩

theorem exists_calls_of_tryActions (h : tryActions dotnet folder said actions m = .ok said' m') :
    ∃ tried, m'.calls = m.calls ++ tried := by
  induction actions generalizing said m with
  | nil =>
    cases h
    exact ⟨[], by simp⟩
  | cons action rest ih =>
    obtain ⟨c, m₁, hcalls, -, rfl | ⟨said₁, hrest⟩⟩ := tryActions_cons_cases h
    · exact ⟨_, hcalls⟩
    · obtain ⟨later, hlater⟩ := ih hrest
      exact ⟨_, by rw [hlater, hcalls, List.append_assoc]⟩

/-- The first action is tried at least. -/
theorem exists_calls_of_tryActions_cons {action : String}
    (h : tryActions dotnet folder said (action :: actions) m = .ok said' m') : ∃ c later,
      m'.calls = m.calls ++ c :: later ∧ c.started = (m.toolbox.manage action).starts := by
  obtain ⟨c, m₁, hcalls, hstarted, rfl | ⟨said₁, hrest⟩⟩ := tryActions_cons_cases h
  · exact ⟨c, [], hcalls, hstarted⟩
  · obtain ⟨later, hlater⟩ := exists_calls_of_tryActions hrest
    exact ⟨c, later, by rw [hlater, hcalls, List.append_assoc, List.singleton_append], hstarted⟩

/-- To install ilspycmd is to make an attempt. -/
theorem calls_of_install (h : install r dotnet m = .ok said m') : m'.calls ≠ m.calls := by
  obtain ⟨_, m₁, hfolders, htry⟩ := exists_of_bind_ok h
  obtain ⟨c, later, hlater, -⟩ := exists_calls_of_tryActions_cons htry
  rw [hlater, (rests_of_makeFolders hfolders).1]
  simp

/-- ilspycmd is found where one comes to it without an attempt to start a program. -/
theorem find?_eq_some_iff_resolve (h : find? r m = .ok found m₁) :
    found = some tool ↔ ∃ m', resolve r m = .ok tool m' ∧ m'.calls = m.calls := by
  constructor
  · rintro rfl
    exact ⟨m₁, resolve_of_find? h, (rests_of_find? h).1⟩
  · rintro ⟨m', hresolve, hcalls⟩
    rcases resolve_cases hresolve with
      hfind | ⟨s, m₂, m₃, dotnet, said, hfind, hdotnet, hinstall, -, -, hsaved⟩
    · rw [hfind] at h
      cases h
      rfl
    · refine absurd ?_ (calls_of_install hinstall)
      rw [← calls_of_persist hsaved, hcalls, (rests_of_findDotnet? hdotnet).1, (rests_of_find? hfind).1]

/-! ## Installing without a process -/

/-- None of dotnet's actions comes to run. -/
def Unstarted (m : Machine) (actions : List String) : Prop :=
  ∀ action ∈ actions, ∃ message, m.toolbox.manage action = .failure message

/-- An action that does not come to run changes nothing but the attempts. -/
theorem exists_start_tool (dotnet folder : String) {action message : String}
    (h : m.toolbox.manage action = .failure message) : ∃ m₁ c, c.started = false ∧
      m₁ = { m with calls := m.calls ++ [c] } ∧
      Process.start [dotnet, "tool", action, "ilspycmd", "--tool-path", folder] installSeconds m =
        .ok (.error (.failure message)) m₁ := by
  have hreact : Process.react [dotnet, "tool", action, "ilspycmd", "--tool-path", folder] m =
      .ok (.failure message, "--tool-path") m := by
    rw [Process.react_tool, h]
  exact ⟨_, _, rfl, rfl, Process.start_of_failure hreact⟩

/-- Where none of dotnet's actions comes to run, trying them leaves nothing but the attempts. -/
theorem tryActions_of_unstarted (dotnet folder said : String) (h : Unstarted m actions) :
    ∃ said' tried, tryActions dotnet folder said actions m =
        .ok said' { m with calls := m.calls ++ tried } ∧ ∀ c ∈ tried, c.started = false := by
  induction actions generalizing said m with
  | nil => exact ⟨said, [], by rw [List.append_nil]; rfl, List.forall_mem_nil _⟩
  | cons action rest ih =>
    obtain ⟨⟨message, hmessage⟩, hrest⟩ := List.forall_mem_cons.1 h
    obtain ⟨m₁, c, hc, rfl, hstart⟩ := exists_start_tool dotnet folder hmessage
    obtain ⟨said', tried, hlast, htried⟩ :=
      ih (m := { m with calls := m.calls ++ [c] }) (Process.interruptionText (.failure message)) hrest
    refine ⟨said', c :: tried, (bind_ok hstart _).trans (hlast.trans ?_),
      List.forall_mem_cons.2 ⟨hc, htried⟩⟩
    rw [List.append_assoc, List.singleton_append]

/-- Where trying dotnet's actions starts no process, none of them comes to run. -/
theorem unstarted_of_tryActions (h : tryActions dotnet folder said actions m = .ok said' m')
    (hnone : m'.processes = m.processes) : Unstarted m actions := by
  induction actions generalizing said m with
  | nil => exact List.forall_mem_nil _
  | cons action rest ih =>
    obtain ⟨c, later, hlater, hc⟩ := exists_calls_of_tryActions_cons h
    have hstarted : (m.toolbox.manage action).starts = false := by
      rw [Machine.processes_of_calls hlater, List.append_right_eq_self, List.filter_eq_nil_iff] at hnone
      rw [← hc]
      simpa using hnone c (List.mem_cons_self ..)
    obtain ⟨message, hmessage⟩ := Reaction.starts_eq_false_iff.1 hstarted
    obtain ⟨m₁, c₁, hc₁, rfl, hstart⟩ := exists_start_tool dotnet folder hmessage
    have hrest : tryActions dotnet folder _ rest { m with calls := m.calls ++ [c₁] } = .ok said' m' :=
      (bind_ok hstart _).symm.trans h
    have hsame : Machine.processes { m with calls := m.calls ++ [c₁] } = m.processes ++ _ :=
      Machine.processes_of_calls rfl
    rw [List.filter_singleton, hc₁, cond_false, List.append_nil] at hsame
    have hothers := ih hrest (hnone.trans hsame.symm)
    exact List.forall_mem_cons.2 ⟨⟨message, hmessage⟩, hothers⟩

/-- ilspycmd comes up unstarted: it is nowhere, dotnet is there but none of its actions comes to run, and
yet there is an ilspycmd of one's own once the tools folder has been made. The path of such a folder goes
through one that is missing and leaves it again. -/
inductive Surfaces (r : Runner) (m : Machine) : Prop
  | made {m₁ m₂ m₃ : Machine} {dotnet : String} (nowhere : find? r m = .ok none m₁)
      (found : findDotnet? m₁ = .ok (some dotnet) m₂)
      (folders : Files.makeFolders r.toolsFolder m₂ = .ok () m₃)
      (unstarted : Unstarted m ["install", "update"])
      (there : Files.isThere (own r m₃) m₃ = .ok true m₃) : Surfaces r m

theorem rests_of_folders {m₂ m₃ : Machine} (hnowhere : find? r m = .ok none m₁)
    (hdotnet : findDotnet? m₁ = .ok found m₂)
    (hfolders : Files.makeFolders r.toolsFolder m₂ = .ok () m₃) :
    Rests m m₃ :=
  ((rests_of_find? hnowhere).trans (rests_of_findDotnet? hdotnet)).trans (rests_of_makeFolders hfolders)

/-- What is nowhere, and is come to without a process, surfaces. -/
theorem surfaces_of_resolve (hnowhere : find? r m = .ok none m₁) (h : resolve r m = .ok tool m')
    (hnone : m'.processes = m.processes) : Surfaces r m := by
  rcases resolve_cases h with
    hfind | ⟨s, m₂, m₄, dotnet, said, hfind, hdotnet, hinstall, hthere, -, hsaved⟩
  · rw [hfind] at hnowhere
    cases hnowhere
  obtain ⟨_, m₃, hfolders, htry⟩ := exists_of_bind_ok hinstall
  have hrests := rests_of_folders hfind hdotnet hfolders
  have hunstarted : Unstarted m₃ ["install", "update"] := by
    refine unstarted_of_tryActions htry ?_
    rw [← hrests.processes] at hnone
    rw [← hnone, Machine.processes, Machine.processes, calls_of_persist hsaved]
  obtain ⟨said', tried, htry', -⟩ :=
    tryActions_of_unstarted dotnet r.toolsFolder.toString "" hunstarted
  rw [htry'] at htry
  cases htry
  refine .made hfind hdotnet hfolders ?_ (Files.isThere_congr (by rfl) hthere)
  rw [Unstarted, hrests.2.1] at hunstarted
  exact hunstarted

/-- Where ilspycmd surfaces, no process is started before it is saved, and then it is the one that is come
to. -/
theorem Surfaces.exists_persist (hsurfaces : Surfaces r m) : ∃ m₁, m₁.processes = m.processes ∧
    resolve r m = (do persist (own r m).toString; return (own r m).toString)
      (recalling m₁ (own r m).toString) := by
  obtain @⟨m₁, m₂, m₃, dotnet, hnowhere, hfound, hfolders, hunstarted, hthere⟩ := hsurfaces
  have hrests := rests_of_folders hnowhere hfound hfolders
  rw [Unstarted, ← hrests.2.1] at hunstarted
  obtain ⟨said, tried, htry, htried⟩ :=
    tryActions_of_unstarted dotnet r.toolsFolder.toString "" hunstarted
  -- the attempts leave the disk as the folders were made on it
  set m₄ : Machine := { m₃ with calls := m₃.calls ++ tried }
  have hinstall : install r dotnet m₂ = .ok said m₄ := (bind_ok hfolders _).trans htry
  have hthere' : Files.isThere (own r m₄) m₄ = .ok true m₄ := Files.isThere_congr (by rfl) hthere
  have hown : own r m₄ = own r m := hrests.own
  refine ⟨m₄, ?_, ?_⟩
  · rw [Machine.processes_of_calls (m := m₃) rfl, hrests.processes, List.append_right_eq_self,
      List.filter_eq_nil_iff]
    simpa using htried
  · rw [← hown]
    exact (bind_ok hnowhere _).trans ((bind_ok hfound _).trans ((bind_ok hinstall _).trans
      ((bind_ok (localTool_eq r m₄) _).trans ((bind_ok hthere' _).trans
        (bind_ok (remember_eq _ m₄) _)))))

/-- ilspycmd is found where one comes to it without a process and it does not surface. -/
theorem find?_eq_some_iff_unstarted (h : find? r m = .ok found m₁) : found = some tool ↔
    (∃ m', resolve r m = .ok tool m' ∧ m'.processes = m.processes) ∧ ¬ Surfaces r m := by
  constructor
  · rintro rfl
    refine ⟨⟨m₁, resolve_of_find? h, (rests_of_find? h).processes⟩, ?_⟩
    rintro ⟨hnowhere, -, -, -, -⟩
    rw [h] at hnowhere
    cases hnowhere
  · rintro ⟨⟨m', hresolve, hnone⟩, hsurfaces⟩
    cases found with
    | some path =>
      rw [resolve_of_find? h] at hresolve
      cases hresolve
      rfl
    | none => exact absurd (surfaces_of_resolve h hresolve hnone) hsurfaces

end Runner

end Decompilation
