import Mathlib.Data.List.Nodup
import Decompilation.Proofs.Table
import Decompilation.Disk.Walk

/-!
# Disks that differ little

A path leads to the same place on disks on which the same things stand (`place_congr`), and its links
are spelled out in the same way on disks that have the same links (`SameLinks.resolve_eq`).
-/

namespace Decompilation.Disk

variable {d d' d'' : Disk} {aim : Aim} {cwd : Place} {path : Path}

/-! ## The same things -/

theorem look?_congr (h : ∀ p, d.node? p = d'.node? p) (p : Place) : d.look? p = d'.look? p := by
  rw [look?, look?, h]

theorem walkNames_congr (h : ∀ p, d.node? p = d'.node? p)
    (follow : Place → List String → Except Refusal Place) (here : Place) (names : List String) :
    walkNames d aim follow here names = walkNames d' aim follow here names := by
  induction names generalizing here with
  | nil => rfl
  | cons name names ih => simp only [walkNames, look?_congr h, h, ih]

theorem walk_congr (h : ∀ p, d.node? p = d'.node? p) (links : Nat) :
    walk d aim links = walk d' aim links := by
  induction links with
  | zero =>
    funext here names
    exact walkNames_congr h _ here names
  | succ links ih =>
    funext here names
    rw [walk, walk, ih]
    exact walkNames_congr h _ here names

theorem place_congr (h : ∀ p, d.node? p = d'.node? p) (cwd : Place) (aim : Aim) (path : Path) :
    d.place cwd aim path = d'.place cwd aim path := by
  rw [place, place, walk_congr h]

theorem stat_congr (h : ∀ p, d.node? p = d'.node? p) (cwd : Place) (path : Path) :
    d.stat cwd path = d'.stat cwd path := by
  simp only [stat, place_congr h, look?_congr h]

/-! ## The same links -/

/-- The links that a disk lists, with their places. -/
def linkEntries (d : Disk) : List (Place × Node) :=
  d.nodes.toList.filter fun e => match e.2 with | .link _ => true | _ => false

theorem mem_linkEntries {e : Place × Node} : e ∈ d.linkEntries ↔
    ∃ target, e.2 = .link target ∧ d.nodes.get? e.1 = some (.link target) := by
  rw [linkEntries, List.mem_filter]
  obtain ⟨p, n⟩ := e
  cases n with
  | link target => simp [Table.get?_eq_some_iff]
  | file f => simp
  | folder => simp

/-- Two disks list the same links. -/
def SameLinks (d d' : Disk) : Prop :=
  ∀ p target, d.nodes.get? p = some (.link target) ↔ d'.nodes.get? p = some (.link target)

namespace SameLinks

theorem refl (d : Disk) : SameLinks d d := fun _ _ => Iff.rfl

theorem trans (h : SameLinks d d') (h' : SameLinks d' d'') : SameLinks d d'' := fun p target =>
  (h p target).trans (h' p target)

theorem node? (h : SameLinks d d') (p : Place) (target : String) :
    d.node? p = some (.link target) ↔ d'.node? p = some (.link target) := by
  unfold Disk.node?
  split
  · simp
  · exact h p target

/-- Where the same things stand there are the same links, up to what may be listed at the root. -/
theorem of_node? (h : ∀ p, d.node? p = d'.node? p) (hroot : d.nodes.get? [] = d'.nodes.get? []) :
    SameLinks d d' := by
  intro p target
  by_cases hp : p = []
  · rw [hp, hroot]
  · have hnode := h p
    rw [Disk.node?, Disk.node?, if_neg (by simp [hp]), if_neg (by simp [hp])] at hnode
    rw [hnode]

/-- Something that is no link takes the place of no link. -/
theorem put {p : Place} {n : Node} (hold : ∀ target, d.nodes.get? p ≠ some (.link target))
    (hn : ∀ target, n ≠ .link target) : SameLinks d (d.put p n) := by
  intro q target
  rw [Disk.put, Table.get?_insert]
  split
  · rename_i hq
    subst hq
    simpa [hold] using hn target
  · exact Iff.rfl

theorem linkCount_eq (h : SameLinks d d') : d.linkCount = d'.linkCount := by
  have hnodup : ∀ d : Disk, d.linkEntries.Nodup := fun d =>
    (List.Nodup.of_map Prod.fst d.nodes.nodup).filter _
  refine ((List.perm_ext_iff_of_nodup (hnodup d) (hnodup d')).2 fun e => ?_).length_eq
  rw [mem_linkEntries, mem_linkEntries]
  exact exists_congr fun target => and_congr_right fun _ => h e.1 target

theorem spellNames_congr (h : SameLinks d d')
    (follow : Table Path (Option Path) → Path → List String → Except Refusal Spelled)
    (opened : Table Path (Option Path)) (here : Path) (names : List String) :
    spellNames d cwd follow opened here names = spellNames d' cwd follow opened here names := by
  induction names generalizing opened here with
  | nil => rfl
  | cons name names ih =>
    have hplain : (∀ target, d.node? (written cwd (here.child name)) ≠ some (.link target)) →
        ∀ target, d'.node? (written cwd (here.child name)) ≠ some (.link target) :=
      fun hd target hd' => hd target ((h.node? _ target).2 hd')
    simp only [spellNames, ih]
    split
    · rfl
    split
    · rfl
    split
    · rfl
    by_cases hlink : ∃ target, d.node? (written cwd (here.child name)) = some (.link target)
    · obtain ⟨target, hlink⟩ := hlink
      rw [hlink, (h.node? _ target).1 hlink]
    · rw [not_exists] at hlink
      have hlink' := hplain hlink
      split
      · rename_i hd
        exact absurd hd (hlink _)
      · rfl

theorem spellOut_congr (h : SameLinks d d') (depth : Nat) :
    spellOut d cwd depth = spellOut d' cwd depth := by
  induction depth with
  | zero =>
    funext opened here names
    exact h.spellNames_congr _ opened here names
  | succ depth ih =>
    funext opened here names
    rw [spellOut, spellOut, ih]
    exact h.spellNames_congr _ opened here names

/-- All links of a path are spelled out in the same way. -/
theorem resolve_eq (h : SameLinks d d') (cwd : Place) (path : Path) :
    d.resolve cwd path = d'.resolve cwd path := by
  rw [resolve, resolve, h.linkCount_eq, h.spellOut_congr]

end SameLinks

end Decompilation.Disk
