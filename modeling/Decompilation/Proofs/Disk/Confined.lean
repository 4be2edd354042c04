import Decompilation.Proofs.Disk.Folders
import Decompilation.Proofs.Disk.Stays

/-!
# Writing below a folder

`Below root p` says that a path goes on behind another one and never leads up again. An operation
that writes files at such paths only, and makes folders there only (`WritesAt`), leaves everything
alone that does not lie below the root, provided that no links lead out of it (`WritesAt.outside`).
That is shown step by step: what is kept where something is put below the root (`Confined.takes`) a
whole operation keeps (`WritesAt.keeps`).
-/

namespace Decompilation.Files

open Act
open Disk (Ordinary)

variable {m m₀ : Machine} {root p : Path} {q : Place} {names : List String} {n : Node}

/-- A path that goes on behind another one, with names that lead neither up nor nowhere. -/
def Below (root p : Path) : Prop :=
  ∃ names, names ≠ [] ∧ (∀ n ∈ names, Ordinary n) ∧
    p = { root with segments := root.segments ++ names }

/-- A path itself, or one that goes on behind it. -/
def AtOrBelow (root p : Path) : Prop := p = root ∨ Below root p

/-- An operation that makes folders and writes files at certain paths only: it is put together from
operations that change nothing, and from making folders and writing files at those paths. -/
inductive WritesAt (folder file : Path → Prop) : {α : Type} → Act α → Prop
  | reads {α : Type} {act : Act α} (same : ∀ m, act.after m = m) : WritesAt folder file act
  | folders {p : Path} (path : folder p) : WritesAt folder file (makeFolders p)
  | text {p : Path} {s : List Char} (path : file p) : WritesAt folder file (writeText p s)
  | bind {α β : Type} {act : Act α} {next : α → Act β} (first : WritesAt folder file act)
      (rest : ∀ a, WritesAt folder file (next a)) : WritesAt folder file (act >>= next)
  | orElse {α : Type} {act : Act α} {handle : Fault → Act α} (first : WritesAt folder file act)
      (rest : ∀ f, WritesAt folder file (handle f)) : WritesAt folder file (orElse act handle)

/-- A path leads to a folder below which there are no links. -/
structure Clear (m : Machine) (root : Path) (q : Place) : Prop where
  leads : Leads m root q
  plain : ∀ names target, m.disk.node? (q ++ names) ≠ some (.link target)

/-- A machine that differs from another one only below a folder without links. -/
structure Confined (m₀ : Machine) (root : Path) (q : Place) (m : Machine) : Prop where
  clear : Clear m root q
  outside : ∀ p, (q <+: p → p = q) → m.disk.node? p = m₀.disk.node? p

theorem LeadsToEmpty.clear (h : LeadsToEmpty m root q) : Clear m root q := by
  refine ⟨h.leads, fun names target hlink => ?_⟩
  by_cases hne : names = []
  · have hfolder := h.folder
    rw [hne, List.append_nil] at hlink
    rw [Disk.look?, h.stands, if_neg (by simp), hlink] at hfolder
    cases hfolder
  · rw [Disk.below_eq_nil_iff.1 h.empty names hne] at hlink
    cases hlink

/-! ## Single writes -/

theorem Clear.put (h : Clear m root q) (hne : names ≠ [])
    (hold : m.disk.node? (q ++ names) ≠ some .folder) (hn : ∀ target, n ≠ .link target) :
    Clear { m with disk := m.disk.put (q ++ names) n } root q := by
  refine ⟨h.leads.of_agree fun p n' hp hfile => ?_, fun names' target => ?_⟩
  · rw [Disk.node?_put_of_ne]
    · exact hp
    · rintro rfl
      cases n' with
      | file f => exact hfile f rfl
      | link target => exact h.plain _ _ hp
      | folder => exact hold hp
  · by_cases heq : q ++ names' = q ++ names
    · rw [heq, Disk.node?_put_self (by simp [hne])]
      simpa using hn target
    · rw [Disk.node?_put_of_ne heq]
      exact h.plain names' target

/-- A folder without links stays one. -/
theorem Clear.put_of_stays {p' : Place} (h : Clear m root q) (hstays : m.disk.Stays (m.disk.put p' n))
    (hne : p' ≠ []) (hn : ∀ target, n ≠ .link target) :
    Clear { m with disk := m.disk.put p' n } root q := by
  refine ⟨h.leads.of_agree fun p n' hn' hfile => hstays.node? hn' hfile, fun names target => ?_⟩
  by_cases heq : q ++ names = p'
  · rw [heq, Disk.node?_put_self hne]
    simpa using hn target
  · rw [Disk.node?_put_of_ne heq]
    exact h.plain names target

theorem Confined.put (h : Confined m₀ root q m) (hne : names ≠ [])
    (hold : m.disk.node? (q ++ names) ≠ some .folder) (hn : ∀ target, n ≠ .link target) :
    Confined m₀ root q { m with disk := m.disk.put (q ++ names) n } := by
  refine ⟨h.clear.put hne hold hn, fun p hp => ?_⟩
  rw [Disk.node?_put_of_ne]
  · exact h.outside p hp
  · rintro rfl
    have := hp (List.prefix_append _ _)
    simp [hne] at this

/-- Names behind a path to a folder without links lead to the place that they spell there. -/
theorem Clear.eq_append_of_place {aim : Disk.Aim} {q' : Place} (h : Clear m root q) (hne : names ≠ [])
    (hnames : ∀ n ∈ names, Ordinary n)
    (hplace : m.disk.place m.cwd aim { root with segments := root.segments ++ names } = .ok q') :
    q' = q ++ names :=
  h.leads.eq_append_of_place hne hnames (fun front target _ _ => h.plain front target) hplace

/-- Below the root files are written and folders made. -/
theorem Confined.takes (hp : Below root p) (hn : ∀ target, n ≠ .link target) :
    Takes (Confined m₀ root q) p n := by
  obtain ⟨names, hne, hnames, rfl⟩ := hp
  intro m aim q' hm hplace hfree
  obtain rfl := hm.clear.eq_append_of_place hne hnames hplace
  exact hm.put hne (Disk.node?_ne_folder hfree.look?_ne_folder) hn

theorem Confined.keeps_writeText (hp : Below root p) (s : List Char) :
    Keeps (Confined m₀ root q) (writeText p s) :=
  Files.keeps_writeText (fun _ => Confined.takes hp (by simp)) s

theorem Confined.keeps_makeFolders (hp : AtOrBelow root p) :
    Keeps (Confined m₀ root q) (makeFolders p) := by
  have hfolders : ∀ names, (∀ n ∈ names, Ordinary n) → ∀ front, front <+: root.segments ++ names →
      Takes (Confined m₀ root q) { root with segments := front } .folder := fun names hnames =>
    takes_folders (fun m hm => ⟨q, hm.clear.leads⟩) fun back hne hback =>
      Confined.takes ⟨back, hne, fun n hn => hnames n (hback.subset hn), rfl⟩ (by simp)
  rcases hp with rfl | ⟨names, -, hnames, rfl⟩
  · exact Files.keeps_makeFolders (by simpa using hfolders [] (by simp))
  · exact Files.keeps_makeFolders (hfolders names hnames)

/-! ## Whole operations -/

namespace WritesAt

variable {α : Type} {act : Act α} {folder file folder' file' : Path → Prop}

theorem of_keeps (h : ∀ P, Keeps P act) : WritesAt folder file act :=
  .reads fun m => h (· = m) m rfl

theorem mono (h : WritesAt folder file act) (hfolder : ∀ p, folder p → folder' p)
    (hfile : ∀ p, file p → file' p) : WritesAt folder' file' act := by
  induction h with
  | reads same => exact .reads same
  | folders path => exact .folders (hfolder _ path)
  | text path => exact .text (hfile _ path)
  | bind _ _ hfirst hrest => exact .bind hfirst hrest
  | orElse _ _ hfirst hrest => exact .orElse hfirst hrest

theorem keeps (h : WritesAt (AtOrBelow root) (Below root) act) :
    Keeps (Confined m₀ root q) act := by
  induction h with
  | reads same => exact fun m hm => (same m).symm ▸ hm
  | folders path => exact Confined.keeps_makeFolders path
  | text path => exact Confined.keeps_writeText path _
  | bind _ _ hfirst hrest => exact hfirst.bind hrest
  | orElse _ _ hfirst hrest => exact hfirst.orElse hrest

/-- What does not lie below the root stays as it is, however the operation ends. -/
theorem outside (h : WritesAt (AtOrBelow root) (Below root) act) (hm : Clear m root q) {p : Place}
    (hp : q <+: p → p = q) : (act.after m).disk.node? p = m.disk.node? p :=
  (h.keeps m ⟨hm, fun _ _ => rfl⟩).outside p hp

end WritesAt

end Decompilation.Files
