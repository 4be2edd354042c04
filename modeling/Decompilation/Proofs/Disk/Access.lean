import Decompilation.Proofs.Disk.Files

/-!
# What files and folders keep

Reading keeps everything. Writing, making and copying put something where a path leads to and there is
room for it, and so keep what is kept by just that (`Takes`).
-/

namespace Decompilation

/-- There is room for something at a place that was reached: something is to be made where nothing
stands, or a file is to be written where no folder stands. -/
def Disk.Free (d : Disk) (aim : Disk.Aim) (q : Place) (n : Node) : Prop :=
  aim = .make ∧ d.look? q = none ∨ aim = .write ∧ d.look? q ≠ some .folder ∧ ∃ f, n = .file f

theorem Disk.Free.look?_ne_folder {d : Disk} {aim : Disk.Aim} {q : Place} {n : Node}
    (h : d.Free aim q n) : d.look? q ≠ some .folder := by
  rcases h with ⟨-, h⟩ | ⟨-, h, -⟩
  · simp [h]
  · exact h

namespace Files

open Act

variable {P : Machine → Prop} {m m' : Machine} {p : Path} {q : Place} {aim : Disk.Aim} {n : Node}
  {fault : Refusal → Fault}

/-! ## Reading -/

theorem keeps_lookUp? (p : Path) : Keeps P (lookUp? p) := by
  refine .bind .get fun m => ?_
  split
  · exact .pure _
  · split
    · exact .pure _
    · exact .throw _

theorem keeps_isThere (p : Path) : Keeps P (isThere p) := (keeps_lookUp? p).bind fun _ => .pure _

theorem keeps_isFile (p : Path) : Keeps P (isFile p) := by
  refine (keeps_lookUp? p).bind fun n => ?_
  split <;> exact .pure _

theorem keeps_isFolder (p : Path) : Keeps P (isFolder p) := by
  refine (keeps_lookUp? p).bind fun n => ?_
  split <;> exact .pure _

theorem keeps_openFile (p : Path) : Keeps P (openFile p) := by
  refine .bind .get fun m => (Keeps.ofDisk _ _).bind fun n => ?_
  split
  · exact .pure _
  · exact .throw _

theorem keeps_readLenient (p : Path) : Keeps P (readLenient p) :=
  (keeps_openFile p).bind fun _ => .pure _

theorem keeps_readText (p : Path) : Keeps P (readText p) := by
  refine (keeps_openFile p).bind fun f => ?_
  split
  · exact .pure _
  · exact .throw _

theorem keeps_readLines (p : Path) : Keeps P (readLines p) := by
  refine (keeps_openFile p).bind fun f => ?_
  dsimp only
  split
  · exact .pure _
  · exact .throw _

theorem keeps_reachOr (fault : Refusal → Fault) (aim : Disk.Aim) (p : Path) :
    Keeps P (reachOr fault aim p) :=
  .bind .get fun _ => (Keeps.ofDisk _ _).bind fun _ => .pure _

theorem keeps_leadingToFiles (root : Path) (found : List (List String)) :
    Keeps P (leadingToFiles root found) := by
  induction found with
  | nil => exact .pure _
  | cons names rest ih => exact (keeps_isFile _).bind fun _ => ih.bind fun _ => .pure _

theorem keeps_filesBelow (root : Path) : Keeps P (filesBelow root) := by
  refine (keeps_isFolder root).bind fun answer => ?_
  split
  · exact (keeps_reachOr _ _ _).bind fun _ => .bind .get fun _ => keeps_leadingToFiles root _
  · exact .pure _

/-! ## Writing -/

/-- A property of machines stays where something is put at a path, provided that there is room for
it. -/
def Takes (P : Machine → Prop) (p : Path) (n : Node) : Prop :=
  ∀ m aim q, P m → m.disk.place m.cwd aim p = .ok q → m.disk.Free aim q n →
    P { m with disk := m.disk.put q n }

theorem Takes.and {Q : Machine → Prop} (h : Takes P p n) (h' : Takes Q p n) :
    Takes (fun m => P m ∧ Q m) p n := fun m aim q hm hplace hfree =>
  ⟨h m aim q hm.1 hplace hfree, h' m aim q hm.2 hplace hfree⟩

theorem reachOr_cases {found : Place × Option Node} (h : reachOr fault aim p m = .ok found m') :
    m' = m ∧ ∃ q, m.disk.place m.cwd aim p = .ok q ∧ found = (q, m.disk.look? q) := by
  cases hplace : m.disk.place m.cwd aim p with
  | error r =>
    rw [reachOr_of_error fault hplace] at h
    cases h
  | ok q =>
    rw [reachOr_of_ok fault hplace] at h
    cases h
    exact ⟨rfl, q, rfl, rfl⟩

theorem keeps_reachOr_bind {α : Type} {next : Place × Option Node → Act α}
    (h : ∀ m q, P m → m.disk.place m.cwd aim p = .ok q →
      P ((next (q, m.disk.look? q)).after m)) :
    Keeps P (reachOr fault aim p >>= next) := by
  refine (keeps_reachOr fault aim p).bind_run fun m found m' hm hrun => ?_
  obtain ⟨rfl, q, hplace, rfl⟩ := reachOr_cases hrun
  exact h m' q hm hplace

theorem keeps_writeBytes (h : ∀ f, Takes P p (.file f)) (bytes : List UInt8) :
    Keeps P (writeBytes p bytes) := by
  refine keeps_reachOr_bind fun m q hm hplace => ?_
  cases hlook : m.disk.look? q with
  | none => exact h _ m .write q hm hplace (.inr ⟨rfl, by simp [hlook], _, rfl⟩)
  | some n =>
    cases n with
    | file f => exact h _ m .write q hm hplace (.inr ⟨rfl, by simp [hlook], _, rfl⟩)
    | link target => exact hm
    | folder => exact hm

theorem keeps_writeText (h : ∀ f, Takes P p (.file f)) (s : List Char) :
    Keeps P (writeText p s) :=
  keeps_writeBytes h _

theorem keeps_putNew (h : Takes P p n) (fault : Refusal → Fault) : Keeps P (putNew fault p n) := by
  refine keeps_reachOr_bind fun m q hm hplace => ?_
  cases hlook : m.disk.look? q with
  | none => exact h m .make q hm hplace (.inl ⟨rfl, hlook⟩)
  | some _ => exact hm

/-- What is new stands where nothing stood. -/
theorem putNew_cases (h : putNew fault p n m = .ok q m') :
    m.disk.place m.cwd .make p = .ok q ∧ m.disk.look? q = none ∧
      m' = { m with disk := m.disk.put q n } := by
  obtain ⟨found, m₁, hreach, hput⟩ := exists_of_bind_ok h
  obtain ⟨rfl, q', hplace, rfl⟩ := reachOr_cases hreach
  cases hlook : m₁.disk.look? q' with
  | none =>
    rw [hlook] at hput
    cases hput
    exact ⟨hplace, hlook, rfl⟩
  | some _ =>
    rw [hlook] at hput
    cases hput

theorem putNew_error {f : Fault} (h : putNew fault p n m = .error f m') : m' = m := by
  cases hplace : m.disk.place m.cwd .make p with
  | error r =>
    rw [putNew, bind_error (reachOr_of_error fault hplace)] at h
    cases h
    rfl
  | ok q =>
    rw [putNew, bind_ok (reachOr_of_ok fault hplace)] at h
    cases hlook : m.disk.look? q with
    | none =>
      rw [hlook] at h
      cases h
    | some _ =>
      rw [hlook] at h
      cases h
      rfl

theorem keeps_makeFolder (h : Takes P p .folder) : Keeps P (makeFolder p) :=
  (keeps_putNew h _).bind fun _ => .pure _

theorem keeps_makeLink {target : String} (h : Takes P p (.link target)) :
    Keeps P (makeLink p target) :=
  (keeps_putNew h _).bind fun _ => .pure _

theorem keeps_keepFolder (p : Path) (f : Fault) : Keeps P (keepFolder p f) := by
  refine (keeps_isFolder p).bind fun answer => ?_
  split
  · exact .pure _
  · exact .throw _

/-- Folders are made at a path and at the paths that it goes on from. -/
theorem keeps_makeFoldersTo (depth : Nat)
    (h : ∀ front, front <+: p.segments → Takes P { p with segments := front } .folder) :
    Keeps P (makeFoldersTo depth p) := by
  induction depth generalizing p with
  | zero =>
    rw [makeFoldersTo]
    refine (keeps_makeFolder (h _ List.prefix_rfl)).orElse fun f => ?_
    split
    · exact .throw _
    · exact .throw _
    · exact keeps_keepFolder p _
  | succ depth ih =>
    have hmake : Keeps P (makeFolder p) := keeps_makeFolder (h _ List.prefix_rfl)
    have hparent : Keeps P (makeFoldersTo depth p.parent) :=
      ih fun front hfront => h front (hfront.trans (List.dropLast_prefix _))
    rw [makeFoldersTo]
    refine hmake.orElse fun f => ?_
    split
    · exact .throw _
    · exact hparent.bind fun _ => hmake.orElse (keeps_keepFolder p)
    · exact keeps_keepFolder p _

theorem keeps_makeFolders
    (h : ∀ front, front <+: p.segments → Takes P { p with segments := front } .folder) :
    Keeps P (makeFolders p) :=
  keeps_makeFoldersTo _ h

theorem keeps_putFile {f : File} (h : Takes P p (.file f)) : Keeps P (putFile p f) := by
  refine keeps_reachOr_bind fun m q hm hplace => ?_
  cases hlook : m.disk.look? q with
  | none => exact h m .write q hm hplace (.inr ⟨rfl, by simp [hlook], _, rfl⟩)
  | some n =>
    cases n with
    | file _ => exact h m .write q hm hplace (.inr ⟨rfl, by simp [hlook], _, rfl⟩)
    | link _ => exact h m .write q hm hplace (.inr ⟨rfl, by simp [hlook], _, rfl⟩)
    | folder => exact hm

theorem keeps_copyFile {source : Path} (h : ∀ f, Takes P p (.file f))
    (hchild : ∀ f, Takes P (p.child source.name) (.file f)) : Keeps P (copyFile source p) := by
  refine (keeps_openFile source).bind fun f => (keeps_isFolder p).bind fun answer => ?_
  split
  · exact keeps_putFile (hchild f)
  · exact keeps_putFile (h f)

/-- Names at the front of others are all of them, or they come before the last one. -/
theorem eq_or_prefix_dropLast {front names : List String} (h : front <+: names) :
    front = names ∨ front <+: names.dropLast := by
  rcases List.eq_nil_or_concat names with rfl | ⟨names, name, rfl⟩
  · exact .inl (List.prefix_nil.1 h)
  · simpa [List.prefix_concat_iff] using h

theorem keeps_deposit {d : Deposit}
    (hfolders : ∀ front, front <+: p.segments.dropLast → Takes P { p with segments := front } .folder)
    (hfolder : d = .folder → Takes P p .folder) (hfile : ∀ f, d = .file f → Takes P p (.file f))
    (hlink : ∀ target, d = .link target → Takes P p (.link target)) : Keeps P (deposit p d) := by
  have hparent : Keeps P (makeFolders p.parent) := keeps_makeFolders hfolders
  cases d with
  | folder =>
    refine keeps_makeFolders fun front hfront => ?_
    rcases eq_or_prefix_dropLast hfront with rfl | hfront
    · exact hfolder rfl
    · exact hfolders front hfront
  | file f => exact hparent.bind fun _ => keeps_putFile (hfile f rfl)
  | link target => exact hparent.bind fun _ => keeps_makeLink (hlink target rfl)

/-! ## Temporary folders -/

/-- An operation after which what lies at a place is removed, however the operation ends. -/
def clearing {α : Type} (act : Act α) (place : Place) : Act α := fun m =>
  match act m with
  | .ok a m => .ok a { m with disk := m.disk.removeTree place }
  | .error f m => .error f { m with disk := m.disk.removeTree place }

/-- An operation with a temporary folder is left from where the folder could not be made, or from
where the operation ended, without the folder. -/
theorem withScratch_cases {α : Type} (act : Path → Act α) (m : Machine) :
    (withScratch act).after m = m ∨ ∃ folder t m₁, freshPath? m = some folder ∧
      newFolder folder m = .ok t m₁ ∧ (withScratch act).after m =
        { (act folder).after m₁ with disk := ((act folder).after m₁).disk.removeTree t } := by
  cases hfresh : freshPath? m with
  | none =>
    have hrun : withScratch act m = .error (.refused .exists []) m := by
      rw [withScratch, bind_ok (get_eq m), hfresh]
      rfl
    exact .inl (after_error hrun)
  | some folder =>
    have hscratch : withScratch act m = (newFolder folder >>= clearing (act folder)) m := by
      rewrite [withScratch, bind_ok (get_eq m), hfresh]
      rfl
    cases hnew : newFolder folder m with
    | error f m₁ =>
      obtain rfl := putNew_error hnew
      exact .inl (after_error (hscratch.trans (bind_error hnew _)))
    | ok t m₁ =>
      refine .inr ⟨folder, t, m₁, rfl, hnew, ?_⟩
      have hrun := hscratch.trans (bind_ok hnew _)
      cases hact : act folder m₁ with
      | ok a m₂ =>
        rw [clearing, hact] at hrun
        rw [after_ok hrun, after_ok hact]
      | error f m₂ =>
        rw [clearing, hact] at hrun
        rw [after_error hrun, after_error hact]

/-- What is kept where a folder is made and where what lies at an empty place goes again. -/
theorem keeps_withScratch {α : Type} {act : Path → Act α} (hnew : ∀ p, Takes P p .folder)
    (hgone : ∀ {m m' q}, P m → m.disk.look? q = none → P m' →
      P { m' with disk := m'.disk.removeTree q }) (h : ∀ p, Keeps P (act p)) :
    Keeps P (withScratch act) := by
  intro m hm
  rcases withScratch_cases act m with hsame | ⟨folder, t, m₁, -, hmade, hafter⟩
  · rwa [hsame]
  · have hput : Keeps P (newFolder folder) := keeps_putNew (hnew folder) _
    rw [hafter]
    exact hgone hm (putNew_cases hmade).2.1 (h folder m₁ (hput.ok hm hmade))

/-- An operation with a temporary folder that ends well. -/
theorem withScratch_ok {α : Type} {act : Path → Act α} {a : α} (h : withScratch act m = .ok a m') :
    ∃ folder t m₁ m₂, newFolder folder m = .ok t m₁ ∧ act folder m₁ = .ok a m₂ ∧
      m' = { m₂ with disk := m₂.disk.removeTree t } := by
  rw [withScratch, bind_ok (get_eq m)] at h
  cases hfresh : freshPath? m with
  | none =>
    rw [hfresh] at h
    cases h
  | some folder =>
    rw [hfresh] at h
    obtain ⟨t, m₁, hnew, hrest⟩ := exists_of_bind_ok h
    refine ⟨folder, t, m₁, ?_⟩
    cases hact : act folder m₁ with
    | error f m₂ =>
      simp only [hact] at hrest
      cases hrest
    | ok b m₂ =>
      simp only [hact] at hrest
      cases hrest
      exact ⟨m₂, hnew, rfl, rfl⟩

end Files

end Decompilation
