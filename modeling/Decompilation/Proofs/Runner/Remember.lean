import Decompilation.Proofs.Runner.Search

/-!
# What runs remember

An ilspycmd that was found is remembered (`memory_of_resolve`), and then it is neither looked for nor
installed again (`resolve_of_remembers`).
-/

namespace Decompilation

open Act
open Json (Value)

/-- An ilspycmd is remembered. -/
def Remembers (m : Machine) : Prop := m.memory.ilspycmd.isSome = true

namespace Runner

variable {r : Runner} {m m' : Machine} {P : Machine → Prop}

theorem steady_remembers : Steady Remembers where
  of_eq hm _ _ _ _ _ hmemory := by rwa [Remembers, hmemory]
  next hm := hm

theorem find?_of_remembers {tool : String} (h : m.memory.ilspycmd = some tool) :
    find? r m = .ok (some tool) m := by
  rw [find?, bind_ok (get_eq m), h]
  rfl

theorem resolve_of_remembers {tool : String} (h : m.memory.ilspycmd = some tool) :
    resolve r m = .ok tool m :=
  resolve_of_find? (find?_of_remembers h)

/-- Where an ilspycmd is remembered nothing is done to find it. -/
theorem keeps_resolve_of_remembers (h : ∀ m, P m → Remembers m) : Keeps P (resolve r) := by
  intro m hm
  obtain ⟨tool, htool⟩ := Option.isSome_iff_exists.1 (h m hm)
  rwa [after_ok (resolve_of_remembers htool)]

/-- To save a setting changes nothing of what is remembered of programs. -/
theorem memory_of_persist {path : String} (h : persist path m = .ok () m') :
    m'.memory.ilspycmd = m.memory.ilspycmd := by
  have hsteady : Steady fun m' => m'.memory.ilspycmd = m.memory.ilspycmd :=
    ⟨fun hm _ _ _ _ _ hmemory => hmemory.trans hm, fun hm => hm⟩
  have hsave := Settings.keeps_save hsteady.calm (fun _ hm => hm) (fun _ _ _ _ _ _ hm _ _ => hm)
    "ILSPY_CMD" path
  exact (Keeps.optional (hsave.bind fun _ => .pure ())).ok rfl h

theorem Searched.memory {tool : String} (h : Searched r m (some tool) m') :
    m'.memory.ilspycmd = some tool := by
  cases h with
  | configured => rfl
  | own => rfl
  | general _ _ _ hsaved => exact memory_of_persist hsaved

/-- An ilspycmd that is found or installed is remembered. -/
theorem memory_of_resolve {tool : String} (h : resolve r m = .ok tool m') :
    m'.memory.ilspycmd = some tool := by
  cases hmemory : m.memory.ilspycmd with
  | some path =>
    rw [resolve_of_remembers hmemory] at h
    cases h
    exact hmemory
  | none =>
    rcases resolve_cases h with hfind | ⟨m₁, m₂, m₃, dotnet, said, -, -, -, -, -, hsaved⟩
    · exact (searched_of_find? hmemory hfind).memory
    · exact memory_of_persist hsaved

/-- A run that ends well has found its ilspycmd. -/
theorem remembers_of_decompileTo {assembly output : Path} {typeName language : Value}
    (h : decompileTo r assembly output typeName language m = .ok () m') : Remembers m' := by
  obtain ⟨_, m₁, -, hsymbols⟩ := exists_of_bind_ok h
  obtain ⟨_, m₂, -, hrest⟩ := exists_of_bind_ok hsymbols
  cases hlanguage : asksForDisassembly language with
  | error f =>
    rw [hlanguage] at hrest
    cases hrest
  | ok disassembled =>
    rw [hlanguage] at hrest
    obtain ⟨completed, m₃, hrun, hlast⟩ := exists_of_bind_ok hrest
    cases hlast
    obtain ⟨tool, m₄, hresolve, hstarted⟩ := exists_of_bind_ok hrun
    obtain ⟨answer, m₅, hstart, hanswer⟩ := exists_of_bind_ok hstarted
    obtain ⟨rest, harguments⟩ := arguments_eq assembly output typeName disassembled
    rw [harguments] at hstart
    have hreceives : Receives output Remembers Remembers := .of_takes fun _ _ _ _ _ hm _ _ => hm
    have hkeeps : Keeps Remembers _ := turns_start_run steady_remembers hreceives tool rest r.seconds
    have hm₅ := hkeeps.ok
      (Option.isSome_of_eq_some (memory_of_resolve hresolve)) hstart
    rcases answer with ⟨_ | _⟩ | completed'
    · cases hanswer
    · cases hanswer
    · dsimp only at hanswer
      split at hanswer
      · cases hanswer
        exact hm₅
      · cases hanswer

end Runner

end Decompilation
