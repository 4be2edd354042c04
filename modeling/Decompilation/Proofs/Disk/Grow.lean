import Mathlib.Data.List.Induction
import Decompilation.Proofs.Disk.Basic
import Decompilation.Proofs.Disk.Walk

/-!
# Disks that grow

On a rooted disk nothing stands but in folders, and it stays rooted when something is put into a
folder (`Rooted.put`) or a tree is removed. A disk that has only got folders on the way to a place
(`Grown`) lists the same files as before below each folder.
-/

namespace Decompilation.Disk

variable {d d' d'' : Disk} {aim : Aim} {links left : Nat} {here p q q' r : Place} {n : Node}
  {name : String} {names : List String}

/-! ## What lies below a folder -/

theorem mem_below_iff : (names, n) ∈ d.below q ↔ names ≠ [] ∧ d.node? (q ++ names) = some n := by
  have hget : ∀ e : Place × Node, e ∈ d.nodes.toList ↔ d.nodes.get? e.1 = some e.2 := fun e =>
    Table.get?_eq_some_iff.symm
  change (names, n) ∈ d.nodes.toList.filterMap (entryBelow? q) ↔ _
  rw [List.mem_filterMap]
  constructor
  · rintro ⟨e, he, hbelow⟩
    obtain ⟨hne, rfl⟩ := entryBelow?_eq_some_iff.1 hbelow
    rw [node?, if_neg (by simp [hne])]
    exact ⟨hne, (hget _).1 he⟩
  · rintro ⟨hne, hnode⟩
    rw [node?, if_neg (by simp [hne])] at hnode
    exact ⟨(q ++ names, n), (hget _).2 hnode, entryBelow?_eq_some_iff.2 ⟨hne, rfl⟩⟩

theorem below_eq_nil_iff : d.below q = [] ↔ ∀ names, names ≠ [] → d.node? (q ++ names) = none := by
  rw [List.eq_nil_iff_forall_not_mem]
  constructor
  · intro h names hne
    apply Option.eq_none_iff_forall_not_mem.2
    intro n hn
    exact h (names, n) (mem_below_iff.2 ⟨hne, hn⟩)
  · rintro h ⟨names, n⟩ hmem
    obtain ⟨hne, hnode⟩ := mem_below_iff.1 hmem
    rw [h names hne] at hnode
    cases hnode

/-- What lies below a folder, folders apart. -/
def contents (d : Disk) (q : Place) : List (List String × Node) :=
  (d.below q).filter fun e => e.2 ≠ .folder

theorem mem_contents_iff : (names, n) ∈ d.contents q ↔
    names ≠ [] ∧ n ≠ .folder ∧ d.node? (q ++ names) = some n := by
  rw [contents, List.mem_filter, mem_below_iff, decide_eq_true_iff]
  exact ⟨fun h => ⟨h.1.1, h.2, h.1.2⟩, fun h => ⟨⟨h.1, h.2.2⟩, h.2.1⟩⟩

theorem below_put_of_none (h : d.node? p = none) (n : Node) (q : Place) :
    (d.put p n).below q = d.below q ++ (entryBelow? q (p, n)).toList := by
  have hne : ¬ p.isEmpty = true := by
    intro hp
    rw [node?, if_pos hp] at h
    cases h
  rw [node?, if_neg hne] at h
  have hput : (d.put p n).nodes.toList = d.nodes.toList ++ [(p, n)] :=
    Table.put_of_not_mem (Table.get?_eq_none_iff.1 h) n
  change (d.put p n).nodes.toList.filterMap (entryBelow? q) = _
  rw [hput, List.filterMap_append]
  rfl

theorem contents_put_folder (h : d.node? p = none) (q : Place) :
    (d.put p .folder).contents q = d.contents q := by
  rw [contents, contents, below_put_of_none h, List.filter_append, List.append_right_eq_self,
    List.filter_eq_nil_iff]
  intro e he
  obtain ⟨-, heq⟩ := entryBelow?_eq_some_iff.1 (Option.mem_toList.1 he)
  have hfolder : Node.folder = e.2 := congrArg Prod.snd heq
  simp [← hfolder]

theorem contents_put_file (h : d.node? (q ++ names) = none) (hne : names ≠ []) (f : File) :
    (d.put (q ++ names) (.file f)).contents q = d.contents q ++ [(names, .file f)] := by
  have hentry : entryBelow? q (q ++ names, .file f) = some (names, .file f) :=
    entryBelow?_eq_some_iff.2 ⟨hne, rfl⟩
  rw [contents, contents, below_put_of_none h, hentry, List.filter_append]
  rfl

/-! ## Rooted disks -/

/-- Whatever stands on a disk stands in a folder. -/
def Rooted (d : Disk) : Prop :=
  ∀ p name n, d.node? (p ++ [name]) = some n → d.node? p = some .folder

theorem Rooted.folder (h : Rooted d) (hne : names ≠ []) (hnode : d.node? (q ++ names) = some n) :
    d.node? q = some .folder := by
  induction names using List.reverseRecOn generalizing n with
  | nil => exact absurd rfl hne
  | append_singleton names name ih =>
    rw [← List.append_assoc] at hnode
    have hparent := h _ _ _ hnode
    by_cases hnames : names = []
    · rwa [hnames, List.append_nil] at hparent
    · exact ih hnames hparent

theorem Rooted.below_eq_nil (h : Rooted d) (hq : d.node? q ≠ some .folder) : d.below q = [] := by
  rw [below_eq_nil_iff]
  intro names hne
  apply Option.eq_none_iff_forall_not_mem.2
  intro n hn
  exact hq (h.folder hne hn)

theorem rooted_iff : Rooted d ↔
    ∀ e ∈ d.nodes.toList, e.1 ≠ [] → d.node? e.1.dropLast = some .folder := by
  have hnode : ∀ p n, p ≠ [] → (d.node? p = some n ↔ (p, n) ∈ d.nodes.toList) := by
    intro p n hne
    rw [node?, if_neg (by simpa using hne)]
    exact Table.get?_eq_some_iff
  constructor
  · rintro h ⟨p, n⟩ he hne
    apply h p.dropLast (p.getLast hne) n
    rwa [List.dropLast_concat_getLast, hnode p n hne]
  · intro h p name n hn
    have := h (p ++ [name], n) ((hnode _ _ (by simp)).1 hn) (by simp)
    rwa [List.dropLast_concat] at this

instance : DecidablePred Rooted := fun _ => decidable_of_iff _ rooted_iff.symm

theorem Rooted.put (h : Rooted d) (hfree : d.node? (p ++ [name]) ≠ some .folder)
    (hp : d.node? p = some .folder) (n : Node) : Rooted (d.put (p ++ [name]) n) := by
  intro p' name' n' hn'
  have hfolder : d.node? p' = some .folder := by
    by_cases heq : p' ++ [name'] = p ++ [name]
    · rwa [(List.append_inj' heq rfl).1]
    · rw [node?_put_of_ne heq] at hn'
      exact h p' name' n' hn'
  have hne : p' ≠ p ++ [name] := by
    rintro rfl
    exact hfree hfolder
  rwa [node?_put_of_ne hne]

theorem Rooted.removeTree (h : Rooted d) (q : Place) : Rooted (d.removeTree q) := by
  intro p name n hn
  have houtside : ¬ q <+: p ++ [name] := by
    intro hq
    rw [node?_removeTree_inside (by simp) hq] at hn
    cases hn
  have hparent : ¬ q <+: p := fun hq => houtside (hq.trans (List.prefix_append _ _))
  rw [node?_removeTree_outside houtside] at hn
  rw [node?_removeTree_outside hparent]
  exact h p name n hn

/-! ## Disks that have got folders -/

/-- A disk has only got folders, on the way to a place. -/
structure Grown (d d' : Disk) (q : Place) : Prop where
  keeps : ∀ p n, d.node? p = some n → d'.node? p = some n
  new : ∀ p n, d'.node? p = some n → d.node? p = some n ∨ n = .folder ∧ p <+: q
  contents : ∀ p, d'.contents p = d.contents p
  rooted : Rooted d → Rooted d'

theorem Grown.refl (d : Disk) (q : Place) : Grown d d q :=
  ⟨fun _ _ h => h, fun _ _ h => .inl h, fun _ => rfl, fun h => h⟩

theorem Grown.trans (h : Grown d d' q) (h' : Grown d' d'' q') (hq : q <+: q') : Grown d d'' q' where
  keeps p n hn := h'.keeps p n (h.keeps p n hn)
  new p n hn := by
    rcases h'.new p n hn with hn | hn
    · exact (h.new p n hn).imp_right fun hfolder => ⟨hfolder.1, hfolder.2.trans hq⟩
    · exact .inr hn
  contents p := (h'.contents p).trans (h.contents p)
  rooted hrooted := h'.rooted (h.rooted hrooted)

theorem node?_put_of_some (hnone : d.node? q = none) (n' : Node) (h : d.node? p = some n) :
    (d.put q n').node? p = some n := by
  have hne : p ≠ q := by
    rintro rfl
    rw [hnone] at h
    cases h
  rw [node?_put_of_ne hne, h]

theorem grown_put (hnone : d.node? (p ++ [name]) = none) (hp : d.node? p = some .folder) :
    Grown d (d.put (p ++ [name]) .folder) (p ++ [name]) where
  keeps _ _ hn := node?_put_of_some hnone _ hn
  new p' n hn := by
    by_cases heq : p' = p ++ [name]
    · subst heq
      rw [node?_put_self (by simp)] at hn
      exact .inr ⟨(Option.some.inj hn).symm, List.prefix_rfl⟩
    · rw [node?_put_of_ne heq] at hn
      exact .inl hn
  contents := contents_put_folder hnone
  rooted h := h.put (by simp [hnone]) hp _

/-! ## Walks to new places -/

theorem not_mem_of_walk (h : walk d aim links here names = .ok q) (hhere : "" ∉ here) :
    "" ∉ q := by
  have hchild : ∀ {here : Place} {name : String}, "" ∉ here → Ordinary name →
      "" ∉ here ++ [name] := by
    intro here name hhere hname hmem
    rcases List.mem_append.1 hmem with hmem | hmem
    · exact hhere hmem
    · exact hname.ne_same (.inl (List.mem_singleton.1 hmem).symm)
  have hwalked := walked_of_walk h
  clear h
  induction hwalked with
  | done => exact hhere
  | same _ _ _ ih => exact ih hhere
  | up _ _ ih => exact ih fun hmem => hhere (List.dropLast_subset _ hmem)
  | new _ ordinary _ _ _ found => exact found ▸ hchild hhere ordinary
  | last _ ordinary _ _ _ _ found => exact found ▸ hchild hhere ordinary
  | down _ ordinary _ _ _ _ _ ih => exact ih (hchild hhere ordinary)
  | link _ _ _ _ _ _ _ ih =>
    apply ih
    split
    · exact List.not_mem_nil
    · exact hhere

theorem isGone_eq_false (h : "" ∉ q) : q.isGone = false := by
  rw [Place.isGone, Bool.eq_false_iff]
  intro hlast
  exact h (List.mem_of_getLast? (by simpa using hlast))

end Decompilation.Disk
