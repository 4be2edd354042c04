import Decompilation.Proofs.Disk.Grow
import Decompilation.Proofs.Disk.Access

/-!
# Sound machines

On a sound machine whatever stands on the disk stands in a folder, and so does whoever works on it.
Where a path leads to no folder it leads to a name in one (`exists_name_of_place`), so a machine stays
sound whatever is put where there is room for it (`Sound.takes`).
-/

namespace Decompilation

open Disk (Ordinary Rooted)

/-- Each folder on the way to a place is there. -/
def Disk.Stands (d : Disk) (here : Place) : Prop := ∀ p, p <+: here → d.look? p = some .folder

/-- A machine with a rooted disk, on which one stands at a place. -/
structure Sound (cwd : Place) (m : Machine) : Prop where
  cwd_eq : m.cwd = cwd
  rooted : Rooted m.disk
  stands : m.disk.Stands cwd
  /-- The place is that of a folder which is gone, or its names lead down. -/
  placed : cwd.isGone = true ∨ ∀ n ∈ cwd, Ordinary n

namespace Disk

variable {d : Disk} {aim : Aim} {links : Nat} {here p q : Place} {name : String}
  {names : List String} {n : Node}

theorem stands_nil (d : Disk) : d.Stands [] := by
  intro p hp
  rw [List.prefix_nil.1 hp]
  rfl

theorem Stands.folder (h : d.Stands here) : d.look? here = some .folder := h here List.prefix_rfl

theorem Stands.dropLast (h : d.Stands here) : d.Stands here.dropLast := fun p hp =>
  h p (hp.trans (List.dropLast_prefix here))

theorem Stands.child (h : d.Stands here) (hname : d.look? (here ++ [name]) = some .folder) :
    d.Stands (here ++ [name]) := by
  intro p hp
  rcases List.prefix_concat_iff.1 hp with rfl | hp
  · exact hname
  · exact h p hp

theorem Stands.put (h : d.Stands here) (hfree : d.node? q ≠ some .folder) (n : Node) :
    (d.put q n).Stands here := by
  intro p hp
  have hlook := h p hp
  unfold look? at hlook ⊢
  split
  · rfl
  · rename_i hgone
    rw [if_neg hgone] at hlook
    rwa [node?_put_of_ne]
    rintro rfl
    exact hfree hlook

theorem Stands.removeTree (h : d.Stands here) (hq : ¬ q <+: here) :
    (d.removeTree q).Stands here := by
  intro p hp
  have hlook := h p hp
  unfold look? at hlook ⊢
  split
  · rfl
  · rename_i hgone
    rw [if_neg hgone] at hlook
    have houtside : ¬ q <+: p := fun hqp => hq (hqp.trans hp)
    rwa [node?_removeTree_outside houtside]

/-- A place that a walk ends at without a folder there: a name in a folder, and only what is made
takes the place of a link. -/
structure Vacancy (d : Disk) (aim : Aim) (q p : Place) (name : String) : Prop where
  place : q = p ++ [name]
  ordinary : Ordinary name
  folder : d.node? p = some .folder
  plain : aim ≠ .make → ∀ target, d.node? q ≠ some (.link target)

/-- A walk that does not end at a folder ends at a name in one. -/
theorem exists_name_of_walk (hhere : d.Stands here) (h : walk d aim links here names = .ok q)
    (hq : d.look? q ≠ some .folder) : ∃ p name, Vacancy d aim q p name := by
  have hnode : ∀ {p : Place}, d.look? p = some .folder → p.isGone = false →
      d.node? p = some .folder := by
    intro p hlook hstands
    rwa [look?, hstands, if_neg (by simp)] at hlook
  have hwalked := walked_of_walk h
  clear h
  induction hwalked with
  | done => exact absurd hhere.folder hq
  | same _ _ _ ih => exact ih hhere
  | up _ _ ih => exact ih hhere.dropLast
  | new folder ordinary stands _ node found =>
    subst found
    exact ⟨_, _, rfl, ordinary, hnode folder stands, fun _ _ => by simp [node]⟩
  | last folder ordinary stands _ making _ found =>
    exact ⟨_, _, found.symm, ordinary, hnode folder stands, fun haim => absurd making haim⟩
  | @down links here name names n folder ordinary stands _ node plain rest ih =>
    by_cases hn : n = .folder
    · exact ih (hhere.child ((look?_append ordinary).trans (hn ▸ node)))
    · -- no name leads on from a file
      cases rest with
      | done =>
        refine ⟨_, _, rfl, ordinary, hnode folder stands, fun _ target => ?_⟩
        rw [node]
        exact fun h => plain target (Option.some.inj h)
      | same folder' | up folder' | new folder' | last folder' | down folder' | link folder' =>
        rw [look?_append ordinary, node] at folder'
        exact absurd (Option.some.inj folder') hn
  | link _ _ _ _ _ _ _ ih =>
    apply ih
    split
    · exact stands_nil d
    · exact hhere

theorem exists_name_of_place {cwd : Place} {path : Path} (hcwd : d.Stands cwd)
    (h : d.place cwd aim path = .ok q) (hq : d.look? q ≠ some .folder) :
    ∃ p name, Vacancy d aim q p name := by
  obtain ⟨-, hwalk⟩ := place_eq_ok_iff.1 h
  refine exists_name_of_walk ?_ hwalk hq
  split
  · exact stands_nil d
  · exact hcwd

theorem node?_ne_folder (h : d.look? q ≠ some .folder) : d.node? q ≠ some .folder := by
  unfold look? at h
  split at h
  · exact absurd rfl h
  · exact h

end Disk

namespace Sound

variable {cwd q : Place} {m : Machine} {p : Path} {aim : Disk.Aim}

/-- Nothing that a machine remembers makes a difference. -/
theorem of_eq {m' : Machine} (h : Sound cwd m) (hdisk : m'.disk = m.disk) (hcwd : m'.cwd = m.cwd) :
    Sound cwd m' :=
  ⟨hcwd.trans h.cwd_eq, hdisk ▸ h.rooted, hdisk ▸ h.stands, h.placed⟩

/-- Something is put where a path leads to no folder. -/
theorem put (h : Sound cwd m) (hplace : m.disk.place m.cwd aim p = .ok q)
    (hq : m.disk.look? q ≠ some .folder) (n : Node) :
    Sound cwd { m with disk := m.disk.put q n } := by
  have hfree := Disk.node?_ne_folder hq
  obtain ⟨front, name, hvacancy⟩ :=
    Disk.exists_name_of_place (h.cwd_eq.symm ▸ h.stands) hplace hq
  obtain rfl := hvacancy.place
  exact ⟨h.cwd_eq, h.rooted.put hfree hvacancy.folder n, h.stands.put hfree n, h.placed⟩

/-- A tree is removed in which one does not stand. -/
theorem removeTree (h : Sound cwd m) (hq : ¬ q <+: cwd) :
    Sound cwd { m with disk := m.disk.removeTree q } :=
  ⟨h.cwd_eq, h.rooted.removeTree q, h.stands.removeTree hq, h.placed⟩

/-- Nobody stands in a folder at a place where nothing is. -/
theorem not_below (h : Sound cwd m) (hq : m.disk.look? q = none) : ¬ q <+: cwd := by
  intro hbelow
  rw [h.stands q hbelow] at hq
  cases hq

theorem takes (p : Path) (n : Node) : Files.Takes (Sound cwd) p n := fun _ _ _ hm hplace hfree =>
  hm.put hplace hfree.look?_ne_folder n

/-- A temporary folder is one in which nobody stands. -/
theorem keeps_withScratch {α : Type} {act : Path → Act α} (h : ∀ p, Act.Keeps (Sound cwd) (act p)) :
    Act.Keeps (Sound cwd) (Files.withScratch act) :=
  Files.keeps_withScratch (fun p => takes p .folder)
    (fun hm hlook hm' => hm'.removeTree (hm.not_below hlook)) h

end Sound

end Decompilation
