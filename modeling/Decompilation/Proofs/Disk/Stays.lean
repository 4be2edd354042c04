import Decompilation.Proofs.Disk.Sound

/-!
# What stays on a disk

Where everything stays that stood on a disk, folders and links as they were and files as files
(`Stays`), a path still leads to what is there (`place_find_of_stays`). It also comes to lead to what
is put where it led to an empty place.
-/

namespace Decompilation.Disk

variable {d d' d'' : Disk} {aim : Aim} {links : Nat} {here p q cwd : Place} {name : String}
  {names : List String} {n : Node} {path : Path}

/-- Whatever stood on a disk stands there still, a file perhaps with something else in it. -/
def Stays (d d' : Disk) : Prop :=
  ∀ p n, d.node? p = some n →
    d'.node? p = some n ∨ ∃ f f', n = .file f ∧ d'.node? p = some (.file f')

/-- Whatever stood on a disk stands there as it was. -/
def Extends (d d' : Disk) : Prop := ∀ q n, d.node? q = some n → d'.node? q = some n

theorem Extends.refl (d : Disk) : d.Extends d := fun _ _ hn => hn

theorem Stays.refl (d : Disk) : Stays d d := fun _ _ hn => .inl hn

theorem Stays.trans (h : Stays d d') (h' : Stays d' d'') : Stays d d'' := by
  intro p n hn
  rcases h p n hn with hn' | ⟨f, f', rfl, hn'⟩
  · exact h' p n hn'
  · rcases h' p _ hn' with hn'' | ⟨_, f'', -, hn''⟩
    · exact .inr ⟨f, f', rfl, hn''⟩
    · exact .inr ⟨f, f'', rfl, hn''⟩

/-- What is no file stays as it was. -/
theorem Stays.node? (h : Stays d d') (hn : d.node? p = some n) (hfile : ∀ f, n ≠ .file f) :
    d'.node? p = some n := by
  rcases h p n hn with hn | ⟨f, -, rfl, -⟩
  · exact hn
  · exact absurd rfl (hfile f)

theorem Stays.look?_folder (h : Stays d d') (hp : d.look? p = some .folder) :
    d'.look? p = some .folder := by
  unfold look? at hp ⊢
  split
  · rfl
  · rename_i hgone
    rw [if_neg hgone] at hp
    exact h.node? hp (by simp)

theorem Stays.exists_node (h : Stays d d') (hn : d.node? p = some n) : ∃ n', d'.node? p = some n' := by
  rcases h p n hn with hn | ⟨-, f', -, hn⟩
  · exact ⟨n, hn⟩
  · exact ⟨.file f', hn⟩

theorem Stays.stands (h : Stays d d') (hcwd : d.Stands cwd) : d'.Stands cwd := fun p hp =>
  h.look?_folder (hcwd p hp)

/-- Something is put where there is room for it. -/
theorem stays_put (hq : ∀ n', d.node? q = some n' → ∃ f f', n' = .file f ∧ n = .file f')
    (hne : q ≠ []) : Stays d (d.put q n) := by
  intro p n' hn'
  by_cases hp : p = q
  · subst hp
    obtain ⟨f, f', rfl, rfl⟩ := hq n' hn'
    exact .inr ⟨f, f', rfl, node?_put_self hne⟩
  · exact .inl (by rw [node?_put_of_ne hp, hn'])

/-! ## Walks -/

/-- A walk that ended where something is now is repeated step by step. -/
theorem walk_find_of_stays (h : Stays d d') (hwalk : walk d aim links here names = .ok q)
    (hlook : d'.look? q = some n) (hn : ∀ target, n ≠ .link target) :
    walk d' .find links here names = .ok q := by
  have hwalked := walked_of_walk hwalk
  clear hwalk
  induction hwalked with
  | done => exact walk_nil
  | same folder same _ ih => rw [walk_same (h.look?_folder folder) same, ih]
  | up folder _ ih => rw [walk_up (h.look?_folder folder), ih]
  | new folder ordinary stands fits node found =>
    subst found
    refine walk_singleton (h.look?_folder folder) stands ordinary fits fun target htarget => ?_
    rw [look?_append ordinary, htarget] at hlook
    exact hn target (Option.some.inj hlook).symm
  | last folder ordinary stands fits making node found =>
    subst found
    rw [look?_append ordinary, h.node? node (by simp)] at hlook
    exact absurd (Option.some.inj hlook).symm (hn _)
  | @down links here name names n' folder ordinary stands fits node plain rest ih =>
    obtain ⟨n, node', hplain⟩ : ∃ n, d'.node? (here ++ [name]) = some n ∧
        ∀ target, n ≠ .link target := by
      rcases h _ _ node with node' | ⟨f, f', rfl, node'⟩
      · exact ⟨n', node', plain⟩
      · exact ⟨.file f', node', by simp⟩
    rw [walk_down (h.look?_folder folder) ordinary (by simp) stands fits node' hplain, ih]
  | link folder ordinary stands fits node follows rest ih =>
    rw [walk_link (h.look?_folder folder) ordinary (by simp) stands fits (h.node? node (by simp))
      (by simp), ih]

theorem place_find_of_stays (h : Stays d d') (hplace : d.place cwd aim path = .ok q)
    (hlook : d'.look? q = some n) (hn : ∀ target, n ≠ .link target) :
    d'.place cwd .find path = .ok q := by
  obtain ⟨hscreen, hwalk⟩ := place_eq_ok_iff.1 hplace
  exact place_eq_ok_iff.2 ⟨hscreen, walk_find_of_stays h hwalk hlook hn⟩

/-- A path still leads to what it led to. -/
theorem Stays.place_find (h : Stays d d') (hcwd : d.Stands cwd)
    (hplace : d.place cwd .find path = .ok q) (hlook : d.look? q ≠ none) :
    d'.place cwd .find path = .ok q := by
  by_cases hfolder : d.look? q = some .folder
  · exact place_find_of_stays h hplace (h.look?_folder hfolder) (by simp)
  obtain ⟨p, name, hvacancy⟩ := exists_name_of_place hcwd hplace hfolder
  obtain ⟨n, hn⟩ := Option.ne_none_iff_exists'.1 hlook
  have hplain := hvacancy.plain (by simp)
  rw [hvacancy.place, look?_append hvacancy.ordinary] at hn
  rw [hvacancy.place] at hplain
  have hsame : ∀ n', d'.node? (p ++ [name]) = some n' → d'.look? q = some n' := by
    intro n' hn'
    rw [hvacancy.place, look?_append hvacancy.ordinary, hn']
  rcases h _ _ hn with hn' | ⟨f, f', rfl, hn'⟩
  · refine place_find_of_stays h hplace (hsame _ hn') fun target htarget => hplain target ?_
    rw [hn, htarget]
  · exact place_find_of_stays h hplace (hsame _ hn') (by simp)

/-- What is put where there is room for it takes nothing's place but perhaps a file's. -/
theorem Free.stays (h : d.Free aim q n) (hcwd : d.Stands cwd) (hplace : d.place cwd aim path = .ok q) :
    Stays d (d.put q n) := by
  obtain ⟨p, name, hvacancy⟩ := exists_name_of_place hcwd hplace h.look?_ne_folder
  have hlook : d.look? q = d.node? q := by
    rw [hvacancy.place, look?_append hvacancy.ordinary]
  refine stays_put (fun n' hn' => ?_) (by simp [hvacancy.place])
  rcases h with ⟨-, hnone⟩ | ⟨rfl, hfolder, f', rfl⟩
  · rw [hlook, hn'] at hnone
    cases hnone
  · rw [hlook, hn'] at hfolder
    cases n' with
    | file f => exact ⟨f, f', rfl, rfl⟩
    | link target => exact absurd hn' (hvacancy.plain (by simp) target)
    | folder => exact absurd rfl hfolder

/-- A path leads to what has been put where it led. -/
theorem Free.place_find (h : d.Free aim q n) (hcwd : d.Stands cwd)
    (hplace : d.place cwd aim path = .ok q) (hn : ∀ target, n ≠ .link target) :
    (d.put q n).place cwd .find path = .ok q := by
  obtain ⟨p, name, hvacancy⟩ := exists_name_of_place hcwd hplace h.look?_ne_folder
  refine place_find_of_stays (h.stays hcwd hplace) hplace ?_ hn
  rw [hvacancy.place, look?_append hvacancy.ordinary, node?_put_self (by simp)]

end Decompilation.Disk
