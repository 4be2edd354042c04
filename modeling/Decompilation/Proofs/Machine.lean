import Decompilation.Machine

/-!
# How operations run

An operation that goes on behind another one goes on from the machine that the other one leaves
(`bind_ok`), and not at all if the other one has a fault (`bind_error`). What each part of an
operation keeps the whole keeps, however it ends (`Keeps`), and where one part gives up something of it
the rest is kept (`Turns`). Operations that end alike, and go on alike from there, end alike
(`outcome_bind_congr`).
-/

namespace Decompilation

/-- A machine with a disk, at whose root one stands and on which nothing has happened yet. -/
def Machine.ofDisk (d : Disk) : Machine where
  disk := d
  environment := Table.empty
  homes := ⟨some "/root", fun _ => none⟩
  cwd := []
  scratch := ⟨.root, []⟩
  system := "Linux"
  clock := ⟨2024, 1, 2, 3, 4, 5, 0⟩
  toolbox := Toolbox.idle
  calls := []
  settings := ⟨Table.empty, false⟩
  memory := ⟨none, none⟩
  shared := none

namespace Act

variable {α β : Type} {act : Act α} {m m' : Machine} {a : α} {f : Fault}

theorem get_eq (m : Machine) : (get : Act Machine) m = .ok m m := rfl

theorem modifyDisk_eq (g : Disk → Disk) (m : Machine) :
    modifyDisk g m = .ok () { m with disk := g m.disk } := rfl

theorem bind_ok (h : act m = .ok a m') (next : α → Act β) : (act >>= next) m = next a m' := by
  simp only [bind, EStateM.bind, h]

theorem bind_error (h : act m = .error f m') (next : α → Act β) :
    (act >>= next) m = .error f m' := by
  simp only [bind, EStateM.bind, h]

/-- An operation that goes on behind another one ends well only if the other one does. -/
theorem exists_of_bind_ok {next : α → Act β} {b : β} (h : (act >>= next) m = .ok b m') :
    ∃ a m₁, act m = .ok a m₁ ∧ next a m₁ = .ok b m' := by
  cases hact : act m with
  | ok a m₁ => exact ⟨a, m₁, rfl, (bind_ok hact next).symm.trans h⟩
  | error f m₁ =>
    rw [bind_error hact] at h
    cases h

/-- An operation that goes on behind another one has the fault of the other one, or its own. -/
theorem cases_of_bind_error {next : α → Act β} (h : (act >>= next) m = .error f m') :
    act m = .error f m' ∨ ∃ a m₁, act m = .ok a m₁ ∧ next a m₁ = .error f m' := by
  cases hact : act m with
  | ok a m₁ => exact .inr ⟨a, m₁, rfl, (bind_ok hact next).symm.trans h⟩
  | error f₁ m₁ =>
    rw [bind_error hact] at h
    cases h
    exact .inl rfl

theorem orElse_ok {handle : Fault → Act α} (h : orElse act handle m = .ok a m') :
    act m = .ok a m' ∨ ∃ f m₁, act m = .error f m₁ ∧ handle f m₁ = .ok a m' := by
  cases hact : act m with
  | ok b m₁ =>
    rw [orElse, hact] at h
    exact .inl h
  | error f m₁ =>
    rw [orElse, hact] at h
    exact .inr ⟨f, m₁, rfl, h⟩

theorem orElse_of_ok (h : act m = .ok a m') (handle : Fault → Act α) :
    orElse act handle m = .ok a m' := by
  rw [orElse, h]

theorem orElse_of_error (h : act m = .error f m') (handle : Fault → Act α) :
    orElse act handle m = handle f m' := by
  rw [orElse, h]

/-! ## What operations keep -/

/-- The machine that an operation leaves, with a result or with a fault. -/
def after (act : Act α) (m : Machine) : Machine :=
  match act m with
  | .ok _ m => m
  | .error _ m => m

theorem after_ok (h : act m = .ok a m') : act.after m = m' := by
  rw [after, h]

theorem after_error (h : act m = .error f m') : act.after m = m' := by
  rw [after, h]

/-- A property of machines stays with what an operation leaves. -/
def Keeps (P : Machine → Prop) (act : Act α) : Prop := ∀ m, P m → P (act.after m)

/-- What holds of machines becomes something else where an operation leaves them. -/
def Turns (P Q : Machine → Prop) (act : Act α) : Prop := ∀ m, P m → Q (act.after m)

namespace Turns

variable {P Q : Machine → Prop} {next : α → Act β}

/-- What goes on behind an operation goes on from a machine that the operation leaves. -/
theorem bind_run (h : Keeps P act) (hweaken : ∀ m, P m → Q m)
    (hnext : ∀ m a m', P m → act m = .ok a m' → Q ((next a).after m')) :
    Turns P Q (act >>= next) := by
  intro m hm
  have hkept := h m hm
  cases hact : act m with
  | ok a m₁ =>
    have hsame : (act >>= next).after m = (next a).after m₁ := by rw [after, bind_ok hact, after]
    exact hsame ▸ hnext m a m₁ hm hact
  | error f m₁ =>
    rw [after_error hact] at hkept
    exact after_error (bind_error hact next) ▸ hweaken m₁ hkept

/-- What an operation keeps becomes something else behind it. -/
theorem bind (h : Keeps P act) (hweaken : ∀ m, P m → Q m) (hnext : ∀ a, Turns P Q (next a)) :
    Turns P Q (act >>= next) :=
  bind_run h hweaken fun _ a m' hm hact => hnext a m' (after_ok hact ▸ h _ hm)

/-- What something becomes where an operation leaves it is kept behind the operation. -/
theorem bind_keeps (h : Turns P Q act) (hnext : ∀ a, Keeps Q (next a)) : Turns P Q (act >>= next) := by
  intro m hm
  have hturned := h m hm
  cases hact : act m with
  | ok a m₁ =>
    have hsame : (act >>= next).after m = (next a).after m₁ := by rw [after, bind_ok hact, after]
    rw [after_ok hact] at hturned
    exact hsame ▸ hnext a m₁ hturned
  | error f m₁ =>
    rw [after_error hact] at hturned
    exact after_error (bind_error hact next) ▸ hturned

theorem orElse {handle : Fault → Act α} (h : Turns P Q act) (hhandle : ∀ f, Keeps Q (handle f)) :
    Turns P Q (orElse act handle) := by
  intro m hm
  have hturned := h m hm
  cases hact : act m with
  | ok a m₁ =>
    rw [after_ok hact] at hturned
    exact after_ok (orElse_of_ok hact handle) ▸ hturned
  | error f m₁ =>
    have hsame : (Act.orElse act handle).after m = (handle f).after m₁ := by
      rw [after, orElse_of_error hact, after]
    rw [after_error hact] at hturned
    exact hsame ▸ hhandle f m₁ hturned

end Turns

namespace Keeps

variable {P : Machine → Prop} {next : α → Act β}

theorem ok (h : Keeps P act) (hm : P m) (hrun : act m = .ok a m') : P m' :=
  after_ok hrun ▸ h m hm

theorem error (h : Keeps P act) (hm : P m) (hrun : act m = .error f m') : P m' :=
  after_error hrun ▸ h m hm

theorem pure (a : α) : Keeps P (pure a) := fun _ hm => hm

theorem throw (f : Fault) : Keeps P (throw f : Act α) := fun _ hm => hm

/-- Nothing goes on behind a fault. -/
theorem throw_bind (f : Fault) (next : α → Act β) :
    Keeps P ((MonadExcept.throw f : Act α) >>= next) := fun _ hm => hm

theorem get : Keeps P (get : Act Machine) := fun _ hm => hm

theorem modify {g : Machine → Machine} (h : ∀ m, P m → P (g m)) : Keeps P (modify g : Act Unit) := h

/-- What goes on behind an operation goes on from a machine that the operation leaves. -/
theorem bind_run (h : Keeps P act)
    (hnext : ∀ m a m', P m → act m = .ok a m' → P ((next a).after m')) :
    Keeps P (act >>= next) :=
  Turns.bind_run h (fun _ hm => hm) hnext

theorem bind (h : Keeps P act) (hnext : ∀ a, Keeps P (next a)) : Keeps P (act >>= next) :=
  Turns.bind h (fun _ hm => hm) hnext

/-- What an operation leaves, and what goes on behind it keeps, the two of them leave. -/
theorem after_bind (h : P (act.after m)) (hnext : ∀ a, Keeps P (next a)) :
    P ((act >>= next).after m) :=
  Turns.bind_keeps (P := (· = m)) (fun _ hm => hm ▸ h) hnext m rfl

/-- What goes on behind an operation that changes nothing goes on from where that started. -/
theorem after_reads (h : Keeps (· = m) act) (hm : P m) (hnext : ∀ a, P ((next a).after m)) :
    P ((act >>= next).after m) := by
  cases hact : act m with
  | ok a m₁ =>
    obtain rfl : m₁ = m := h.ok rfl hact
    have hsame : (act >>= next).after m₁ = (next a).after m₁ := by rw [after, bind_ok hact, after]
    exact hsame ▸ hnext a
  | error f m₁ =>
    obtain rfl : m₁ = m := h.error rfl hact
    rwa [after_error (bind_error hact next)]

theorem orElse {handle : Fault → Act α} (h : Keeps P act) (hhandle : ∀ f, Keeps P (handle f)) :
    Keeps P (orElse act handle) :=
  Turns.orElse h hhandle

theorem optional {act : Act Unit} (h : Keeps P act) : Keeps P (optional act) :=
  h.orElse fun f => by
    split
    · exact .pure _
    · exact .throw f

theorem ofDisk {α : Type} (fault : Refusal → Fault) (answer : Except Refusal α) :
    Keeps P (ofDisk fault answer) := by
  cases answer with
  | ok a => exact .pure a
  | error r => exact .throw _

theorem isAbove (count : Int) (limit : Json.Value) : Keeps P (isAbove count limit) := by
  unfold Act.isAbove
  split
  · exact .pure _
  · exact .throw _

theorem cwdPath : Keeps P cwdPath := by
  refine .bind .get fun m => ?_
  dsimp only
  split
  · exact .throw _
  · exact .pure _

end Keeps

/-! ## How operations end -/

section Outcome

variable {act' : Act α} {m₁ : Machine} {next next' : α → Act β}

/-- What an operation ends with, whatever machine it leaves. -/
def outcome (act : Act α) (m : Machine) : Except Fault α :=
  match act m with
  | .ok a _ => .ok a
  | .error f _ => .error f

theorem outcome_ok (h : act m = .ok a m₁) : act.outcome m = .ok a := by
  rw [outcome, h]

theorem outcome_error (h : act m = .error f m₁) : act.outcome m = .error f := by
  rw [outcome, h]

@[simp] theorem outcome_pure (a : α) (m : Machine) : (pure a : Act α).outcome m = .ok a := rfl

theorem outcome_throw_bind (f : Fault) (next : α → Act β) (m : Machine) :
    ((throw f : Act α) >>= next).outcome m = .error f := rfl

theorem exists_of_outcome_ok (h : act.outcome m = .ok a) : act m = .ok a (act.after m) := by
  cases hact : act m with
  | ok b m₁ =>
    rw [outcome_ok hact] at h
    cases h
    rw [after_ok hact]
  | error f m₁ =>
    rw [outcome_error hact] at h
    cases h

theorem outcome_bind_ok (h : act m = .ok a m₁) (next : α → Act β) :
    (act >>= next).outcome m = (next a).outcome m₁ := by
  rw [outcome, bind_ok h, outcome]

/-- Operations that end alike, and from then on go on alike, end alike. -/
theorem outcome_bind_congr (h : act.outcome m = act'.outcome m')
    (hnext : ∀ a, act.outcome m = .ok a →
      (next a).outcome (act.after m) = (next' a).outcome (act'.after m')) :
    (act >>= next).outcome m = (act' >>= next').outcome m' := by
  cases hact : act m with
  | ok a m₁ =>
    have ha := outcome_ok hact
    have hact' := exists_of_outcome_ok (h.symm.trans ha)
    rw [outcome_bind_ok (exists_of_outcome_ok ha), outcome_bind_ok hact', hnext a ha]
  | error f m₁ =>
    have hf := h.symm.trans (outcome_error hact)
    cases hact' : act' m' with
    | ok a m₁' =>
      rw [outcome_ok hact'] at hf
      cases hf
    | error f' m₁' =>
      rw [outcome_error hact'] at hf
      cases hf
      rw [outcome_error (bind_error hact next), outcome_error (bind_error hact' next')]

end Outcome

/-! ## Operations that only read -/

/-- An operation ends on two machines in the same way and changes neither. -/
def Agrees (act : Act α) (m m₁ : Machine) : Prop :=
  (∃ a, act m = .ok a m ∧ act m₁ = .ok a m₁) ∨ ∃ f, act m = .error f m ∧ act m₁ = .error f m₁

namespace Agrees

variable {m₁ : Machine} {next : α → Act β}

theorem ok (h : Agrees act m m₁) (hrun : act m = .ok a m') : m' = m ∧ act m₁ = .ok a m₁ := by
  rcases h with ⟨b, hb, hb₁⟩ | ⟨f, hf, -⟩
  · rw [hb] at hrun
    cases hrun
    exact ⟨rfl, hb₁⟩
  · rw [hf] at hrun
    cases hrun

theorem pure (a : α) : Agrees (pure a) m m₁ := .inl ⟨a, rfl, rfl⟩

theorem throw (f : Fault) : Agrees (throw f : Act α) m m₁ := .inr ⟨f, rfl, rfl⟩

theorem ofDisk (fault : Refusal → Fault) (answer : Except Refusal α) :
    Agrees (ofDisk fault answer) m m₁ := by
  cases answer with
  | ok a => exact .pure a
  | error r => exact .throw _

theorem bind (h : Agrees act m m₁) (hnext : ∀ a, Agrees (next a) m m₁) :
    Agrees (act >>= next) m m₁ := by
  rcases h with ⟨a, ha, ha₁⟩ | ⟨f, hf, hf₁⟩
  · rw [Agrees, bind_ok ha, bind_ok ha₁]
    exact hnext a
  · exact .inr ⟨f, bind_error hf _, bind_error hf₁ _⟩

/-- Nothing goes on behind a fault. -/
theorem throw_bind (f : Fault) (next : α → Act β) :
    Agrees ((MonadExcept.throw f : Act α) >>= next) m m₁ := .inr ⟨f, rfl, rfl⟩

/-- What follows from a machine's state depends on nothing in which the machines differ. -/
theorem get_bind {next : Machine → Act β} (hsame : next m₁ = next m) (h : Agrees (next m) m m₁) :
    Agrees ((get : Act Machine) >>= next) m m₁ := by
  rw [Agrees, bind_ok (get_eq m), bind_ok (get_eq m₁), hsame]
  exact h

theorem orElse {handle : Fault → Act α} (h : Agrees act m m₁)
    (hhandle : ∀ f, Agrees (handle f) m m₁) : Agrees (orElse act handle) m m₁ := by
  rcases h with ⟨a, ha, ha₁⟩ | ⟨f, hf, hf₁⟩
  · exact .inl ⟨a, orElse_of_ok ha _, orElse_of_ok ha₁ _⟩
  · rw [Agrees, orElse_of_error hf, orElse_of_error hf₁]
    exact hhandle f

end Agrees

/-! ## Checks of runs -/

/-- Whether an operation ends with a result that passes a check. -/
def yields (act : Act α) (m : Machine) (check : α → Bool) : Bool :=
  match act m with
  | .ok a _ => check a
  | .error .. => false

theorem exists_of_yields {check : α → Bool} (h : act.yields m check = true) :
    ∃ a m', act m = .ok a m' ∧ check a = true := by
  unfold yields at h
  split at h
  · rename_i a m' hact
    exact ⟨a, m', hact, h⟩
  · cases h

theorem check_of_yields (check : α → Bool) (h : act.yields m check = true)
    (hrun : act m = .ok a m') : check a = true := by
  rwa [yields, hrun] at h

/-- Whether an operation ends with a result and a machine that pass a check. -/
def endsWith (act : Act α) (m : Machine) (check : α → Machine → Bool) : Bool :=
  match act m with
  | .ok a m => check a m
  | .error .. => false

theorem exists_of_endsWith {check : α → Machine → Bool} (h : act.endsWith m check = true) :
    ∃ a m', act m = .ok a m' ∧ check a m' = true := by
  unfold endsWith at h
  split at h
  · rename_i a m' hact
    exact ⟨a, m', hact, h⟩
  · cases h

end Act

end Decompilation
