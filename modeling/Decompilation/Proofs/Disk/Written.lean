import Decompilation.Proofs.Disk.Confined
import Decompilation.Proofs.Disk.Links

/-!
# What writing leaves

Writing files and making folders changes the disk and nothing else, and on the disk everything stays:
folders and links as they are, and files as files (`WritesAt.written`).
-/

namespace Decompilation.Files

open Act
open Disk (Ordinary)

variable {cwd q : Place} {m₀ m m' : Machine} {p : Path} {aim : Disk.Aim} {n : Node}
  {text : List Char}

/-- A machine as it is left by writing files and making folders. -/
structure Written (cwd : Place) (m₀ m : Machine) : Prop where
  only_disk : m = { m₀ with disk := m.disk }
  sound : Sound cwd m
  stays : m₀.disk.Stays m.disk
  links : m₀.disk.SameLinks m.disk

theorem Written.refl (h : Sound cwd m) : Written cwd m m :=
  ⟨rfl, h, .refl _, .refl _⟩

theorem Written.trans (h : Written cwd m₀ m) (h' : Written cwd m m') : Written cwd m₀ m' where
  only_disk := by rw [h'.only_disk, h.only_disk]
  sound := h'.sound
  stays := h.stays.trans h'.stays
  links := h.links.trans h'.links

theorem Written.put (h : Sound cwd m) (hplace : m.disk.place m.cwd aim p = .ok q)
    (hfree : m.disk.Free aim q n) (hn : ∀ target, n ≠ .link target) :
    Written cwd m { m with disk := m.disk.put q n } := by
  have hstanding : m.disk.Stands m.cwd := h.cwd_eq ▸ h.stands
  obtain ⟨front, name, hvacancy⟩ := Disk.exists_name_of_place hstanding hplace hfree.look?_ne_folder
  have hnode : ∀ target, m.disk.nodes.get? q ≠ some (.link target) := by
    have hlook : m.disk.look? q = m.disk.nodes.get? q := by
      rw [hvacancy.place, Disk.look?_append hvacancy.ordinary]
      simp [Disk.node?]
    intro target hlink
    rcases hfree with ⟨-, hnone⟩ | ⟨rfl, -, -⟩
    · rw [hlook, hlink] at hnone
      cases hnone
    · refine hvacancy.plain (by simp) target ?_
      rw [hvacancy.place, ← Disk.look?_append hvacancy.ordinary, ← hvacancy.place, hlook, hlink]
  exact ⟨rfl, h.put hplace hfree.look?_ne_folder n, hfree.stays hstanding hplace, .put hnode hn⟩

theorem takes_written (p : Path) (hn : ∀ target, n ≠ .link target) : Takes (Written cwd m₀) p n :=
  fun _ _ _ hm hplace hfree => hm.trans (.put hm.sound hplace hfree hn)

namespace WritesAt

variable {α : Type} {act : Act α} {folder file : Path → Prop} {P : Machine → Prop}

/-- What is kept where folders are made and files are put, an operation keeps that does just that. -/
theorem keeps_of_takes (h : WritesAt folder file act)
    (hfolder : ∀ p front, folder p → front <+: p.segments →
      Takes P { p with segments := front } .folder)
    (hfile : ∀ p f, file p → Takes P p (.file f)) : Keeps P act := by
  induction h with
  | reads same => exact fun m hm => (same m).symm ▸ hm
  | folders path => exact Files.keeps_makeFolders fun front => hfolder _ front path
  | text path => exact Files.keeps_writeText (fun f => hfile _ f path) _
  | bind _ _ hfirst hrest => exact hfirst.bind hrest
  | orElse _ _ hfirst hrest => exact hfirst.orElse hrest

/-- An operation that makes folders and writes files changes the disk and nothing else, and
everything stays that stood there. -/
theorem written (h : WritesAt folder file act) (hm : Sound cwd m) : Written cwd m (act.after m) :=
  h.keeps_of_takes (fun _ _ _ _ => takes_written _ (by simp))
    (fun _ _ _ => takes_written _ (by simp)) m (.refl hm)

end WritesAt

/-! ## One file -/

/-- A path leads to a file with some bytes. -/
def HoldsBytes (m : Machine) (p : Path) (bytes : List UInt8) : Prop :=
  ∃ f, m.disk.stat m.cwd p = .ok (.file f) ∧ f.content = bytes

/-- A text was written at a path that leads to a place: the file there got it, or a new file that
cannot be run. -/
structure Wrote (m m' : Machine) (p : Path) (q : Place) (f : File) (text : List Char) : Prop where
  only_disk : m' = { m with disk := m.disk.put q (.file f) }
  room : m.disk.place m.cwd .write p = .ok q
  place : m'.disk.place m'.cwd .find p = .ok q
  ordinary : ∃ front name, q = front ++ [name] ∧ Ordinary name
  stat : m'.disk.stat m'.cwd p = .ok (.file f)
  content : f.content = Text.Utf8.encode text
  replaced : (∃ g, m.disk.node? q = some (.file g) ∧ f.executable = g.executable) ∨
    m.disk.node? q = none ∧ f.executable = false

/-- What was written was written on every machine with that disk. -/
theorem Wrote.of_eq {f : File} {m₁ : Machine} (h : Wrote m m' p q f text) (hdisk : m₁.disk = m.disk)
    (hcwd : m₁.cwd = m.cwd) : Wrote m₁ { m₁ with disk := m'.disk } p q f text := by
  have hsame := h.only_disk
  subst hsame
  have hplace := h.place
  have hstat := h.stat
  dsimp only at hplace hstat
  rw [← hcwd] at hplace hstat
  exact ⟨by rw [hdisk], by rw [hdisk, hcwd, h.room], hplace, h.ordinary, hstat, h.content,
    hdisk ▸ h.replaced⟩

theorem exists_of_writeText (hm : Sound cwd m) (h : writeText p text m = .ok () m') :
    ∃ q f, Wrote m m' p q f text := by
  obtain ⟨q, f, hplace, hcontent, rfl, hcases⟩ := writeText_cases h
  have hfree : m.disk.Free .write q (.file f) := by
    refine .inr ⟨rfl, ?_, f, rfl⟩
    rcases hcases with ⟨f', hfile, -⟩ | ⟨hnone, -⟩
    · simp [hfile]
    · simp [hnone]
  have hstanding : m.disk.Stands m.cwd := hm.cwd_eq ▸ hm.stands
  have hfound := hfree.place_find hstanding hplace (by simp)
  obtain ⟨front, name, hvacancy⟩ := Disk.exists_name_of_place hstanding hplace hfree.look?_ne_folder
  have hnode : m.disk.look? q = m.disk.node? q := by
    rw [hvacancy.place, Disk.look?_append hvacancy.ordinary]
  have hlook : (m.disk.put q (.file f)).look? q = some (.file f) := by
    rw [hvacancy.place, Disk.look?_append hvacancy.ordinary, Disk.node?_put_self (by simp)]
  refine ⟨q, f, rfl, hplace, hfound, ⟨front, name, hvacancy.place, hvacancy.ordinary⟩,
    Disk.stat_of_place hfound hlook, hcontent, ?_⟩
  rw [hnode] at hcases
  rcases hcases with ⟨g, hfile, hflag⟩ | ⟨hnone, rfl⟩
  · exact .inl ⟨g, hfile, hflag⟩
  · exact .inr ⟨hnone, rfl⟩

/-- Making folders changes nothing that is there. -/
theorem extends_of_makeFolders (h : makeFolders p m = .ok () m') : m.disk.Extends m'.disk := by
  refine (keeps_makeFolders (P := fun m' => m.disk.Extends m'.disk) ?_).ok (.refl _) h
  intro front _ m₁ aim q hm₁ _ hfree p n hn
  rw [Disk.node?_put_of_ne]
  · exact hm₁ p n hn
  · rintro rfl
    rcases hfree with ⟨-, hnone⟩ | ⟨-, -, f, hf⟩
    · rw [Disk.look?, hm₁ _ _ hn] at hnone
      split at hnone <;> cases hnone
    · cases hf

end Decompilation.Files
