import Decompilation.Proofs.Project.Within

/-!
# Writing below a folder

A folder that `Holds` files, in the order in which they were written, has nothing else in it but
folders. A file that is written at a new place below it is the next one (`Holds.writeAndList`), and
the rest of the disk stays as it is (`Added`).
-/

namespace Decompilation.Project

open Act
open Disk (Ordinary Rooted)
open Files (Direct Leads Made)

variable {m m₁ m' : Machine} {root p : Path} {q : Place} {names : List String} {text : List Char}
  {files : List (List String × List Char)}

/-- A file with a text as it is when it has just been made, by what leads to it from a folder. -/
def fileOf (file : List String × List Char) : List String × Node :=
  (file.1, .file (File.ofBytes (Text.Utf8.encode file.2)))

/-- A path leads to a folder that holds some files and else nothing but folders without suffixes. -/
structure Holds (m : Machine) (root : Path) (q : Place) (files : List (List String × List Char)) :
    Prop where
  leads : Leads m root q
  rooted : Rooted m.disk
  contents : m.disk.contents q = files.map fileOf
  plain : ∀ names, m.disk.node? (q ++ names) = some .folder → ∀ n ∈ names, '.' ∉ n.toList

/-- A machine differs from another one in nothing but what was put to a place, below it or on the way
to it, where nothing stood. -/
structure Added (m m' : Machine) (q : Place) : Prop where
  only_disk : m' = { m with disk := m'.disk }
  keeps : ∀ p n, m.disk.node? p = some n → m'.disk.node? p = some n
  near : ∀ p n, m'.disk.node? p = some n → m.disk.node? p = some n ∨ p <+: q ∨ q <+: p

theorem Added.refl (m : Machine) (q : Place) : Added m m q :=
  ⟨rfl, fun _ _ h => h, fun _ _ h => .inl h⟩

theorem Added.trans (h : Added m m₁ q) (h' : Added m₁ m' q) : Added m m' q where
  only_disk := by rw [h'.only_disk, h.only_disk]
  keeps p n hn := h'.keeps p n (h.keeps p n hn)
  near p n hn := (h'.near p n hn).elim (h.near p n) .inr

theorem added_of_made {q' : Place} (h : Made m m' p q') (hq : q <+: q') : Added m m' q where
  only_disk := h.only_disk
  keeps := h.grown.keeps
  near p n hn := (h.grown.new p n hn).imp_right fun hnew =>
    List.prefix_or_prefix_of_prefix hnew.2 hq

theorem added_put (hnone : m.disk.node? (q ++ names) = none) (n : Node) :
    Added m { m with disk := m.disk.put (q ++ names) n } q where
  only_disk := rfl
  keeps _ _ hn := Disk.node?_put_of_some hnone _ hn
  near p n hn := by
    by_cases hp : p = q ++ names
    · exact .inr (.inr (hp ▸ List.prefix_append _ _))
    · rw [Disk.node?_put_of_ne hp] at hn
      exact .inl hn

theorem Added.leads {q' : Place} (h : Added m m' q) (hleads : Leads m root q') :
    Leads m' root q' := by
  rw [h.only_disk]
  exact hleads.of_agree fun p n hn _ => h.keeps p n hn

/-- A folder that is made below a folder does not change which files that one holds. -/
theorem Holds.made (h : Holds m root q files) (hmade : Made m m' p (q ++ names))
    (hplain : ∀ n ∈ names, '.' ∉ n.toList) : Holds m' root q files where
  leads := (added_of_made hmade (List.prefix_append q names)).leads h.leads
  rooted := hmade.grown.rooted h.rooted
  contents := (hmade.grown.contents q).trans h.contents
  plain front hfolder := by
    rcases hmade.grown.new _ _ hfolder with hold | ⟨-, hfront⟩
    · exact h.plain front hold
    · rw [List.prefix_append_right_inj] at hfront
      exact fun n hn => hplain n (hfront.subset hn)

/-- A file that is put at a new place is the next one that the folder holds. -/
theorem Holds.put (h : Holds m root q files) (hne : names ≠ [])
    (hnone : m.disk.node? (q ++ names) = none)
    (hfolder : m.disk.node? (q ++ names.dropLast) = some .folder) (text : List Char) :
    Holds { m with disk := m.disk.put (q ++ names) (fileOf (names, text)).2 } root q
      (files ++ [(names, text)]) where
  leads := (added_put hnone _).leads h.leads
  rooted := by
    rw [← List.dropLast_concat_getLast hne, ← List.append_assoc] at hnone ⊢
    exact h.rooted.put (by rw [hnone]; simp) hfolder _
  contents := by
    rw [List.map_append, ← h.contents]
    exact Disk.contents_put_file hnone hne _
  plain front hfront := by
    by_cases heq : q ++ front = q ++ names
    · rw [heq, Disk.node?_put_self (by simp [hne])] at hfront
      cases hfront
    · rw [Disk.node?_put_of_ne heq] at hfront
      exact h.plain front hfront

theorem Holds.not_link (h : Holds m root q files) (names : List String) (target : String) :
    m.disk.node? (q ++ names) ≠ some (.link target) := by
  intro hnode
  by_cases hne : names = []
  · rw [hne, List.append_nil, h.leads.node] at hnode
    cases hnode
  · have hmem : (names, Node.link target) ∈ m.disk.contents q :=
      Disk.mem_contents_iff.2 ⟨hne, by simp, hnode⟩
    rw [h.contents] at hmem
    obtain ⟨file, -, hfile⟩ := List.mem_map.1 hmem
    cases hfile

theorem Holds.mem_of_file (h : Holds m root q files) (hne : names ≠ []) {f : File}
    (hnode : m.disk.node? (q ++ names) = some (.file f)) : names ∈ files.map Prod.fst := by
  have hmem : (names, Node.file f) ∈ m.disk.contents q :=
    Disk.mem_contents_iff.2 ⟨hne, by simp, hnode⟩
  rw [h.contents] at hmem
  obtain ⟨file, hfile, heq⟩ := List.mem_map.1 hmem
  exact List.mem_map.2 ⟨file, hfile, congrArg Prod.fst heq⟩

/-! ## One file -/

/-- Names that may lead to a file: through folders without suffixes. -/
structure IsFilePath (names : List String) : Prop where
  ne_nil : names ≠ []
  ordinary : ∀ n ∈ names, Ordinary n
  plain : ∀ n ∈ names.dropLast, '.' ∉ n.toList

/-- Names that may lead to a file and lead to none of some files. -/
structure New (files : List (List String × List Char)) (names : List String) : Prop
    extends IsFilePath names where
  not_mem : names ∉ files.map Prod.fst

variable {written : List String} {done : List String}

theorem Holds.eq_append_of_place {aim : Disk.Aim} {q' : Place} (h : Holds m root q files)
    (hne : names ≠ []) (hnames : ∀ n ∈ names, Ordinary n)
    (hplace : m.disk.place m.cwd aim { root with segments := root.segments ++ names } = .ok q') :
    q' = q ++ names :=
  h.leads.eq_append_of_place hne hnames (fun front target _ _ => h.not_link front target) hplace

/-- No file is found where none was written. -/
theorem Holds.isFile_new (h : Holds m root q files) (hnew : New files names) {answer : Bool}
    (hrun : Files.isFile { root with segments := root.segments ++ names } m = .ok answer m') :
    answer = false ∧ m' = m := by
  obtain ⟨rfl, hfile⟩ := Files.isFile_cases hrun
  refine ⟨?_, rfl⟩
  rw [Bool.eq_false_iff]
  intro htrue
  obtain ⟨q', f, hplace, hlook⟩ := hfile htrue
  obtain rfl := h.eq_append_of_place hnew.ne_nil hnew.ordinary hplace
  rw [look?_append_of_ordinary hnew.ne_nil hnew.ordinary] at hlook
  exact hnew.not_mem (h.mem_of_file hnew.ne_nil hlook)

theorem Holds.holdsText_new (h : Holds m root q files) (hnew : New files names) {answer : Bool}
    (hrun : holdsText { root with segments := root.segments ++ names } text m = .ok answer m') :
    answer = false ∧ m' = m := by
  rw [holdsText] at hrun
  obtain ⟨isFile, m₁, hfile, hrest⟩ := exists_of_bind_ok hrun
  obtain ⟨rfl, rfl⟩ := h.isFile_new hnew hfile
  cases hrest
  exact ⟨rfl, rfl⟩

/-- The folder of a new file, once it is made. -/
theorem Holds.makeFolders_parent (h : Holds m root q files) (hroot : Direct root)
    (hnew : New files names)
    (hrun : Files.makeFolders { root with segments := root.segments ++ names.dropLast } m =
      .ok () m') :
    Holds m' root q files ∧ Added m m' q ∧
      m'.disk.node? (q ++ names.dropLast) = some .folder := by
  have hordinary : ∀ n ∈ names.dropLast, Ordinary n := fun n hn =>
    hnew.ordinary n (List.dropLast_subset _ hn)
  obtain ⟨q', hmade⟩ := Files.makeFolders_made h.rooted (hroot.append hordinary) hrun
  have hlink : ∀ front target, front <+: names.dropLast →
      m'.disk.node? (q ++ front) ≠ some (.link target) := by
    intro front target _ hnode
    rcases hmade.grown.new _ _ hnode with hold | ⟨hfolder, -⟩
    · exact h.not_link front target hold
    · cases hfolder
  have hleads : Leads m' root q := by
    rw [hmade.only_disk]
    exact h.leads.grow hmade.grown
  obtain rfl := hleads.eq_append hordinary hlink hmade.leads
  exact ⟨h.made hmade hnew.plain, added_of_made hmade (List.prefix_append _ _), hmade.leads.node⟩

/-- A file is written to a new place. -/
theorem Holds.writeIfChanged (h : Holds m root q files) (hroot : Direct root)
    (hnew : New files names) {answer : Bool}
    (hrun : writeIfChanged { root with segments := root.segments ++ names } text m =
      .ok answer m') :
    answer = true ∧ Holds m' root q (files ++ [(names, text)]) ∧ Added m m' q := by
  rw [Project.writeIfChanged] at hrun
  obtain ⟨isSame, m₁, hholds, hrest⟩ := exists_of_bind_ok hrun
  obtain ⟨rfl, rfl⟩ := h.holdsText_new hnew hholds
  rw [if_neg (by simp)] at hrest
  obtain ⟨_, m₂, hfolders, hwritten⟩ := exists_of_bind_ok hrest
  obtain ⟨_, m₃, hwrite, hanswer⟩ := exists_of_bind_ok hwritten
  cases hanswer
  refine ⟨rfl, ?_⟩
  have hparent : Path.parent { root with segments := root.segments ++ names } =
      { root with segments := root.segments ++ names.dropLast } := by
    rw [Path.parent, List.dropLast_append_of_ne_nil hnew.ne_nil]
  rw [hparent] at hfolders
  obtain ⟨h₂, hadded, hfolder⟩ := h.makeFolders_parent hroot hnew hfolders
  obtain ⟨q', f', hplace, -, rfl, hcases⟩ := Files.writeText_cases hwrite
  obtain rfl := h₂.eq_append_of_place hnew.ne_nil hnew.ordinary hplace
  rw [look?_append_of_ordinary hnew.ne_nil hnew.ordinary] at hcases
  rcases hcases with ⟨f, hfile, -⟩ | ⟨hnone, rfl⟩
  · exact absurd (h₂.mem_of_file hnew.ne_nil hfile) hnew.not_mem
  · exact ⟨h₂.put hnew.ne_nil hnone hfolder text, hadded.trans (added_put hnone _)⟩

/-- A file is written to a new place and listed. -/
theorem Holds.writeAndList (h : Holds m root q files) (hroot : Direct root)
    (hnew : New files names) (hrun : Project.writeAndList
      { root with segments := root.segments ++ names } text written (some root) m = .ok done m') :
    done = written ++ [Path.segmentText names] ∧ Holds m' root q (files ++ [(names, text)]) ∧
      Added m m' q := by
  rw [Project.writeAndList] at hrun
  obtain ⟨isNew, m₁, hwrite, hrest⟩ := exists_of_bind_ok hrun
  obtain ⟨rfl, h₁, hadded⟩ := h.writeIfChanged hroot hnew hwrite
  rw [if_pos rfl, bind_ok (relative_append root hnew.ne_nil m₁)] at hrest
  cases hrest
  exact ⟨rfl, h₁, hadded⟩

/-! ## A file in a folder of its own -/

theorem Holds.clear (h : Holds m root q files) : Files.Clear m root q := ⟨h.leads, h.not_link⟩

/-- Nothing stands where a name with a suffix leads to no file. -/
theorem Holds.node?_eq_none (h : Holds m root q files) (hne : names ≠ [])
    (hdot : ∃ n ∈ names, '.' ∈ n.toList) (hnew : names ∉ files.map Prod.fst) :
    m.disk.node? (q ++ names) = none := by
  apply Option.eq_none_iff_forall_not_mem.2
  intro n hn
  cases n with
  | file f => exact hnew (h.mem_of_file hne hn)
  | link target => exact h.not_link _ _ hn
  | folder =>
    obtain ⟨name, hname, hmem⟩ := hdot
    exact h.plain names hn name hname hmem

/-- Nothing is in the way of a new file whose folder no file has the name of. -/
theorem Holds.not_blocked {folder name : String} (h : Holds m root q files)
    (hdot : '.' ∈ name.toList) (hnew : [folder, name] ∉ files.map Prod.fst)
    (hfolder : [folder] ∉ files.map Prod.fst)
    (hpath : ((root.child folder).child name).toString.utf8ByteSize < Disk.pathLimit) :
    ¬ Blocked m.disk root q folder name := by
  intro hblocked
  cases hblocked with
  | long long => exact Nat.not_le.2 hpath long
  | file node => exact hfolder (h.mem_of_file (by simp) node)
  | folder node =>
    rw [h.node?_eq_none (by simp) ⟨name, by simp, hdot⟩ hnew] at node
    cases node

end Decompilation.Project
