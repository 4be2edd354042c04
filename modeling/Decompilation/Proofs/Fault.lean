import Decompilation.Proofs.Machine

/-!
# How operations fail

An operation raises only what its parts raise (`Raises`). One that goes on behind another one fails if the
other one fails, or if it fails itself where the other one ends (`fails_bind_iff`).
-/

namespace Decompilation

/-- Whether a fault is a problem reported to the user. -/
def Fault.isReported : Fault → Bool
  | .reported .. => true
  | _ => false

namespace Act

variable {α β : Type} {act : Act α} {m m₁ m' : Machine} {a : α} {f : Fault}

/-! ## Faults that are raised -/

/-- Every fault that an operation ends with is one of some faults. -/
def Raises (Q : Fault → Prop) (act : Act α) : Prop := ∀ m f m', act m = .error f m' → Q f

/-- An operation reports no problem to the user. -/
abbrev Silent (act : Act α) : Prop := Raises (fun f => f.isReported = false) act

namespace Raises

variable {Q Q' : Fault → Prop} {next : α → Act β}

theorem error (h : Raises Q act) (hrun : act m = .error f m') : Q f := h m f m' hrun

theorem mono (h : Raises Q act) (hQ : ∀ f, Q f → Q' f) : Raises Q' act := fun _ _ _ hrun =>
  hQ _ (h.error hrun)

theorem pure (a : α) : Raises Q (pure a) := by
  intro m f m' h
  cases h

theorem throw (hf : Q f) : Raises Q (throw f : Act α) := by
  intro m f' m' h
  cases h
  exact hf

/-- Nothing goes on behind a fault. -/
theorem throw_bind (hf : Q f) (next : α → Act β) :
    Raises Q ((MonadExcept.throw f : Act α) >>= next) := by
  intro m f' m' h
  cases h
  exact hf

theorem get : Raises Q (get : Act Machine) := by
  intro m f m' h
  cases h

theorem modify (g : Machine → Machine) : Raises Q (modify g : Act Unit) := by
  intro m f m' h
  cases h

theorem bind (h : Raises Q act) (hnext : ∀ a, Raises Q (next a)) : Raises Q (act >>= next) := by
  intro m f m' hrun
  rcases cases_of_bind_error hrun with hact | ⟨a, m₁, -, hrest⟩
  · exact h.error hact
  · exact (hnext a).error hrest

/-- What a handler is given the operation before it has raised. -/
theorem orElse_run {handle : Fault → Act α}
    (hhandle : ∀ m f m₁ f' m', act m = .error f m₁ → handle f m₁ = .error f' m' → Q f') :
    Raises Q (orElse act handle) := by
  intro m f m' hrun
  cases hact : act m with
  | ok a m₁ =>
    rw [orElse_of_ok hact] at hrun
    cases hrun
  | error f' m₁ =>
    rw [orElse_of_error hact] at hrun
    exact hhandle m f' m₁ f m' hact hrun

/-- Where a handler raises what it is given, only that is raised. -/
theorem orElse {handle : Fault → Act α} (h : Raises Q act)
    (hhandle : ∀ f, Q f → Raises Q (handle f)) : Raises Q (orElse act handle) :=
  orElse_run fun _ f _ _ _ hact hrest => (hhandle f (h.error hact)).error hrest

theorem optional {act : Act Unit} (h : Raises Q act) : Raises Q (optional act) := by
  refine h.orElse fun f hf => ?_
  split
  · exact .pure ()
  · exact .throw hf

theorem ofDisk {fault : Refusal → Fault} (h : ∀ r, Q (fault r)) (answer : Except Refusal α) :
    Raises Q (ofDisk fault answer) := by
  cases answer with
  | ok a => exact .pure a
  | error r => exact .throw (h r)

end Raises

/-! ## Operations that fail -/

/-- An operation ends with a fault. -/
def Fails (act : Act α) (m : Machine) : Prop := ∃ f m', act m = .error f m'

theorem not_fails_iff : ¬ Fails act m ↔ ∃ a m', act m = .ok a m' := by
  cases hact : act m with
  | ok a m' => exact iff_of_true (fun ⟨f, m₁, h⟩ => by rw [hact] at h; cases h) ⟨a, m', rfl⟩
  | error f m' =>
    refine iff_of_false (not_not_intro ⟨f, m', hact⟩) ?_
    rintro ⟨a, m₁, h⟩
    cases h

theorem not_fails_of_ok (h : act m = .ok a m') : ¬ Fails act m := not_fails_iff.2 ⟨a, m', h⟩

/-- An operation that raises nothing ends. -/
theorem Raises.not_fails (h : Raises (fun _ => False) act) (m : Machine) : ¬ Fails act m :=
  fun ⟨_, _, hrun⟩ => h.error hrun

theorem not_fails_pure (a : α) (m : Machine) : ¬ Fails (pure a) m := not_fails_of_ok rfl

theorem fails_bind_of_ok (h : act m = .ok a m₁) (next : α → Act β) :
    Fails (act >>= next) m ↔ Fails (next a) m₁ := by
  rw [Fails, bind_ok h, Fails]

theorem fails_bind_iff {next : α → Act β} :
    Fails (act >>= next) m ↔ Fails act m ∨ ∃ a m₁, act m = .ok a m₁ ∧ Fails (next a) m₁ := by
  cases hact : act m with
  | ok a m₁ =>
    rw [fails_bind_of_ok hact]
    constructor
    · exact fun h => .inr ⟨a, m₁, rfl, h⟩
    · rintro (h | ⟨b, m₂, hb, h⟩)
      · exact absurd h (not_fails_of_ok hact)
      · cases hb
        exact h
  | error f m₁ =>
    refine iff_of_true ⟨f, m₁, bind_error hact _⟩ (.inl ⟨f, m₁, hact⟩)

/-- What goes on behind an operation and never fails makes no difference. -/
theorem fails_bind_of_not_fails {next : α → Act β} (h : ∀ a m₁, ¬ Fails (next a) m₁) :
    Fails (act >>= next) m ↔ Fails act m := by
  rw [fails_bind_iff]
  refine ⟨fun hfails => hfails.resolve_right ?_, .inl⟩
  rintro ⟨a, m₁, -, hnext⟩
  exact h a m₁ hnext

/-! ## Faults that nobody is told of -/

/-- An operation ends with a fault that is no problem reported to the user. -/
def Escapes (act : Act α) (m : Machine) : Prop := ∃ f m', act m = .error f m' ∧ f.isReported = false

theorem Escapes.fails (h : Escapes act m) : Fails act m := by
  obtain ⟨f, m', hrun, -⟩ := h
  exact ⟨f, m', hrun⟩

theorem Raises.escapes_iff (h : Silent act) : Escapes act m ↔ Fails act m :=
  ⟨Escapes.fails, fun ⟨f, m', hrun⟩ => ⟨f, m', hrun, h.error hrun⟩⟩

instance (act : Act α) (m : Machine) : Decidable (Escapes act m) :=
  match hact : act m with
  | .ok _ _ => .isFalse fun h => not_fails_of_ok hact h.fails
  | .error f m' => decidable_of_iff (f.isReported = false)
      ⟨fun hf => ⟨f, m', hact, hf⟩, fun ⟨_, _, hrun, hf⟩ => by
        rw [hact] at hrun
        cases hrun
        exact hf⟩

theorem not_escapes_pure (a : α) (m : Machine) : ¬ Escapes (pure a) m := fun h =>
  not_fails_pure a m h.fails

theorem escapes_throw_iff : Escapes (throw f : Act α) m ↔ f.isReported = false := by
  constructor
  · rintro ⟨f', m', hrun, hf⟩
    cases hrun
    exact hf
  · exact fun hf => ⟨f, m, rfl, hf⟩

theorem escapes_bind_of_ok (h : act m = .ok a m₁) (next : α → Act β) :
    Escapes (act >>= next) m ↔ Escapes (next a) m₁ := by
  rw [Escapes, bind_ok h, Escapes]

theorem escapes_bind_iff {next : α → Act β} : Escapes (act >>= next) m ↔
    Escapes act m ∨ ∃ a m₁, act m = .ok a m₁ ∧ Escapes (next a) m₁ := by
  cases hact : act m with
  | ok a m₁ =>
    rw [escapes_bind_of_ok hact]
    constructor
    · exact fun h => .inr ⟨a, m₁, rfl, h⟩
    · rintro (h | ⟨b, m₂, hb, h⟩)
      · exact absurd h.fails (not_fails_of_ok hact)
      · cases hb
        exact h
  | error f m₁ =>
    rw [Escapes, bind_error hact, Escapes, hact]
    simp

end Act

end Decompilation
