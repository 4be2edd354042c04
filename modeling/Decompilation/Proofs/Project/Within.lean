import Decompilation.Project.Skeleton
import Decompilation.Proofs.Disk.Confined

/-!
# A file in a folder of its own

Below a folder without links, a file in a folder of its own is written unless it is `Blocked`
(`exists_writeAndList`). Then an attempt to write it changes nothing and is refused
(`writeAndList_of_blocked`), also later, when more stands on the disk.
-/

namespace Decompilation.Project

open Act
open Disk (Ordinary)
open Files (Clear Fits Leads WritesAt)

variable {m m' : Machine} {root p : Path} {q : Place} {names : List String} {folder name : String}
  {text : List Char} {written : List String}

/-! ## Steps of writing -/

/-- Whether a path leads to a text can be asked where it may lead nowhere. -/
theorem exists_holdsText (h : ∀ r, m.disk.place m.cwd .find p = .error r → r.meansAbsent = true)
    (text : List Char) : ∃ same, holdsText p text m = .ok same m := by
  obtain ⟨answer, hfile⟩ := Files.exists_isFile h
  rw [holdsText, bind_ok hfile]
  cases answer with
  | false => exact ⟨false, rfl⟩
  | true =>
    obtain ⟨-, f, hstat⟩ := Files.stat_of_isFile hfile
    rw [if_pos rfl, bind_ok (Files.readLenient_of_stat hstat)]
    exact ⟨_, rfl⟩

theorem relative_append (root : Path) (hne : names ≠ []) (m : Machine) :
    relative root { root with segments := root.segments ++ names } m =
      .ok (Path.segmentText names) m := by
  have hbelow : Path.below? { root with segments := root.segments ++ names } root =
      some ⟨.here, names⟩ := by
    simp [Path.below?, List.isPrefixOf_iff_prefix]
  have htext : Path.toString ⟨.here, names⟩ = Path.segmentText names := by
    simp [Path.toString, hne]
  rw [relative, hbelow, ← htext]
  rfl

/-- Where a path is too long for the system nothing is written. -/
theorem writeAndList_of_long (hclean : ∀ s ∈ p.segments, '\x00' ∉ s.toList)
    (hlong : Disk.pathLimit ≤ p.toString.utf8ByteSize) (text : List Char) (written : List String)
    (base : Option Path) : writeAndList p text written base m =
      .error (Fault.ofRefusal .nameTooLong p) m := by
  have hlook : Files.lookUp? p m = .error (Fault.ofRefusal .nameTooLong p) m := by
    rw [Files.lookUp?, bind_ok (get_eq m), Disk.stat, Disk.place, Files.screen_of_long hclean hlong]
    rfl
  have hholds : holdsText p text m = .error (Fault.ofRefusal .nameTooLong p) m :=
    bind_error (bind_error hlook _) _
  exact bind_error (bind_error hholds _) _

theorem look?_append_of_ordinary {d : Disk} (hne : names ≠ []) (hnames : ∀ n ∈ names, Ordinary n) :
    d.look? (q ++ names) = d.node? (q ++ names) := by
  rw [← List.dropLast_concat_getLast hne, ← List.append_assoc]
  exact Disk.look?_append (hnames _ (List.getLast_mem hne))

theorem keeps_holdsText {P : Machine → Prop} (p : Path) (text : List Char) :
    Keeps P (holdsText p text) := by
  refine (Files.keeps_isFile p).bind fun answer => ?_
  split
  · exact (Files.keeps_readLenient p).bind fun _ => .pure _
  · exact .pure _

theorem keeps_relative {P : Machine → Prop} (root p : Path) : Keeps P (relative root p) := by
  unfold relative
  split
  · exact .pure _
  · exact .throw _

theorem writesAt_writeAndList {folder file : Path → Prop} (hparent : folder p.parent) (hp : file p)
    (text : List Char) (written : List String) (base : Option Path) :
    WritesAt folder file (writeAndList p text written base) := by
  have hwrite : WritesAt folder file (writeIfChanged p text) := by
    refine .bind (.of_keeps fun _ => keeps_holdsText p text) fun same => ?_
    split
    · exact .of_keeps fun _ => .pure _
    · exact .bind (.folders hparent) fun _ => .bind (.text hp) fun _ => .of_keeps fun _ => .pure _
  refine .bind hwrite fun changed => ?_
  split
  · split
    · exact .of_keeps fun _ => (keeps_relative _ p).bind fun _ => .pure _
    · exact .of_keeps fun _ => .pure _
  · exact .of_keeps fun _ => .pure _

/-! ## A file in a folder -/

/-- A name that leads down and that the system takes. -/
structure IsName (name : String) : Prop where
  ordinary : Ordinary name
  clean : '\x00' ∉ name.toList
  short : name.utf8ByteSize ≤ Disk.nameLimit

/-- There cannot be a file at a name in a folder: its path is too long for the system, a file stands
where the folder should be, or a folder where the file should be. -/
inductive Blocked (d : Disk) (root : Path) (q : Place) (folder name : String) : Prop
  | long (long : Disk.pathLimit ≤ ((root.child folder).child name).toString.utf8ByteSize)
  | file {f : File} (node : d.node? (q ++ [folder]) = some (.file f))
  | folder (node : d.node? (q ++ [folder, name]) = some .folder)

/-- Nothing makes room where everything stays. -/
theorem Blocked.of_stays {d d' : Disk} (h : Blocked d root q folder name) (hstays : d.Stays d') :
    Blocked d' root q folder name := by
  cases h with
  | long long => exact .long long
  | folder node => exact .folder (hstays.node? node (by simp))
  | @file f node =>
    rcases hstays _ _ node with hnode | ⟨-, f', -, hnode⟩
    · exact .file hnode
    · exact .file hnode

theorem child_child_eq (root : Path) (folder name : String) : (root.child folder).child name =
    { root with segments := root.segments ++ [folder, name] } := by
  simp [Path.child]

theorem parent_child_child (root : Path) (folder name : String) :
    ((root.child folder).child name).parent = root.child folder := by
  simp [Path.child, Path.parent]

section Within

variable (h : Clear m root q) (hfolder : IsName folder) (hname : IsName name)

include h hfolder hname

theorem eq_append_of_place_within {aim : Disk.Aim} {q' : Place}
    (hplace : m.disk.place m.cwd aim ((root.child folder).child name) = .ok q') :
    q' = q ++ [folder, name] := by
  rw [child_child_eq] at hplace
  exact h.eq_append_of_place (by simp) (by simpa using ⟨hfolder.ordinary, hname.ordinary⟩) hplace

/-- A file in a folder that is there has its place there. -/
theorem place_within (aim : Disk.Aim) (hfits : Fits root folder) (hfits' : Fits (root.child folder) name)
    (hnode : m.disk.node? (q ++ [folder]) = some .folder) :
    m.disk.place m.cwd aim ((root.child folder).child name) = .ok (q ++ [folder, name]) := by
  have hleads := h.leads.child hfolder.ordinary hfolder.clean hfits hnode
  have hplace := hleads.place_child_of_fits aim hname.ordinary hname.clean hfits' fun target => by
    rw [List.append_assoc]
    exact h.plain _ target
  rw [hplace, List.append_assoc, List.singleton_append]

/-- A file in a folder is looked for without a fault. -/
theorem meansAbsent_within {r : Refusal} (hfits : Fits root folder)
    (hfits' : Fits (root.child folder) name)
    (hplace : m.disk.place m.cwd .find ((root.child folder).child name) = .error r) :
    r.meansAbsent = true := by
  by_cases hnode : m.disk.node? (q ++ [folder]) = some .folder
  · rw [place_within h hfolder hname .find hfits hfits' hnode] at hplace
    cases hplace
  have hscreen : Disk.screen ((root.child folder).child name) = .ok () := by
    refine Files.screen_eq_ok_iff.2 ⟨fun s hs => ?_, hfits'.path_lt⟩
    rcases List.mem_append.1 hs with hs | hs
    · exact (Files.screen_eq_ok_iff.1 (h.leads.screen_child hfolder.clean hfits.path_lt)).1 s hs
    · rw [List.mem_singleton.1 hs]
      exact hname.clean
  have hsome : ∃ s ∈ [folder, name], s ≠ "" :=
    ⟨folder, by simp, fun hnil => hfolder.ordinary.ne_same (.inl hnil)⟩
  obtain ⟨left, hwalk⟩ := h.leads.place_append .find hsome (child_child_eq root folder name ▸ hscreen)
  rw [child_child_eq, hwalk, Disk.walk_name h.leads.folder hfolder.ordinary (by simp)
    h.leads.stands hfits.name_le] at hplace
  cases hthere : m.disk.node? (q ++ [folder]) with
  | none =>
    rw [hthere] at hplace
    cases hplace
    rfl
  | some n =>
    cases n with
    | link target => exact absurd hthere (h.plain _ target)
    | folder => exact absurd hthere hnode
    | file f =>
      have hlook : m.disk.look? (q ++ [folder]) ≠ some .folder := by
        rwa [Disk.look?_append hfolder.ordinary]
      simp only [hthere, Disk.walk_of_not_folder hlook] at hplace
      cases hplace
      rfl

omit hname in
/-- The folder of a file is made where no file has its name, and the file's place in it stays as it
is. -/
theorem exists_makeFolders (hfits : Fits root folder)
    (hfile : ∀ f, m.disk.node? (q ++ [folder]) ≠ some (.file f)) : ∃ m',
      Files.makeFolders (root.child folder) m = .ok () m' ∧ Clear m' root q ∧
      m'.disk.node? (q ++ [folder]) = some .folder ∧
      m'.disk.node? (q ++ [folder, name]) = m.disk.node? (q ++ [folder, name]) := by
  cases hnode : m.disk.node? (q ++ [folder]) with
  | none =>
    have hplace := h.leads.place_child_of_fits .make hfolder.ordinary hfolder.clean hfits
      (h.plain [folder])
    have hmake := Files.makeFolder_of_place hplace
      ((Disk.look?_append hfolder.ordinary).trans hnode)
    have hclear := h.put (n := .folder) (List.cons_ne_nil folder []) (by simp [hnode]) (by simp)
    exact ⟨_, by rw [Files.makeFolders, Files.makeFoldersTo, orElse, hmake], hclear,
      Disk.node?_put_self (by simp), Disk.node?_put_of_ne (by simp)⟩
  | some n =>
    cases n with
    | file f => exact absurd hnode (hfile f)
    | link target => exact absurd hnode (h.plain _ target)
    | folder =>
      exact ⟨m, (h.leads.child hfolder.ordinary hfolder.clean hfits hnode).makeFolders, h, hnode, rfl⟩

omit h in
theorem look?_within (d : Disk) (q : Place) :
    d.look? (q ++ [folder, name]) = d.node? (q ++ [folder, name]) :=
  look?_append_of_ordinary (by simp) (by simpa using ⟨hfolder.ordinary, hname.ordinary⟩)

/-- Where something is in a file's way there is no file. -/
theorem holdsText_of_blocked (hfits : Fits root folder) (hfits' : Fits (root.child folder) name)
    (hrooted : m.disk.Rooted) (hblocked : Blocked m.disk root q folder name) (text : List Char) :
    holdsText ((root.child folder).child name) text m = .ok false m := by
  obtain ⟨answer, hfile⟩ := Files.exists_isFile
    fun r => meansAbsent_within h hfolder hname (r := r) hfits hfits'
  have hanswer : answer = false := by
    rw [Bool.eq_false_iff]
    rintro rfl
    obtain ⟨-, hfound⟩ := Files.isFile_cases hfile
    obtain ⟨q', f, hplace, hlook⟩ := hfound rfl
    obtain rfl := eq_append_of_place_within h hfolder hname hplace
    rw [look?_within hfolder hname] at hlook
    cases hblocked with
    | long long => exact Nat.not_le.2 hfits'.path_lt long
    | folder node =>
      rw [node] at hlook
      cases hlook
    | file node =>
      have hthere := hrooted (q ++ [folder]) name _ (by rwa [List.append_assoc])
      rw [node] at hthere
      cases hthere
  rw [holdsText, bind_ok hfile, hanswer]
  rfl

variable (hroot : root.isAnchored = true)

include hroot

omit h in
theorem fits_within
    (hpath : ((root.child folder).child name).toString.utf8ByteSize < Disk.pathLimit) :
    Fits root folder ∧ Fits (root.child folder) name := by
  have hle := Path.utf8ByteSize_toString_le (p := root.child folder) hroot name
  exact ⟨⟨hfolder.short, Nat.lt_of_le_of_lt hle hpath⟩, hname.short, hpath⟩

/-- A file is written to a folder of its own where nothing is in its way. -/
theorem exists_writeAndList (hfree : ¬ Blocked m.disk root q folder name) (text : List Char)
    (written : List String) : ∃ done m', writeAndList ((root.child folder).child name) text written
      (some root) m = .ok done m' := by
  obtain ⟨hfits, hfits'⟩ := fits_within hfolder hname hroot
    (Nat.lt_of_not_le fun hle => hfree (.long hle))
  obtain ⟨same, hholds⟩ := exists_holdsText
    (fun r => meansAbsent_within h hfolder hname hfits hfits') text
  have hchanged : ∃ changed m', writeIfChanged ((root.child folder).child name) text m =
      .ok changed m' := by
    rw [writeIfChanged, bind_ok hholds, parent_child_child]
    cases same with
    | true => exact ⟨false, m, rfl⟩
    | false =>
      obtain ⟨m₁, hfolders, h₁, hthere, hsame⟩ := exists_makeFolders h hfolder hfits
        fun f hf => hfree (.file hf)
      have hplace := place_within h₁ hfolder hname .write hfits hfits' hthere
      have hlook := look?_within hfolder hname m₁.disk q
      obtain ⟨f, -, hwrite⟩ := Files.exists_writeText hplace
        (fun hnode => hfree (.folder (hsame ▸ hlook ▸ hnode))) (fun target => hlook ▸ h₁.plain _ target)
        text
      rw [if_neg (by simp), bind_ok hfolders, bind_ok hwrite]
      exact ⟨true, _, rfl⟩
  obtain ⟨changed, m', hchanged⟩ := hchanged
  rw [writeAndList, bind_ok hchanged]
  cases changed with
  | false => exact ⟨written, m', rfl⟩
  | true =>
    rw [if_pos rfl, child_child_eq, bind_ok (relative_append root (by simp) m')]
    exact ⟨_, m', rfl⟩

/-- Where something is in a file's way nothing is done. -/
theorem writeAndList_of_blocked (hrooted : m.disk.Rooted)
    (hblocked : Blocked m.disk root q folder name) (text : List Char) (written : List String) :
    ∃ f : Fault, f.isRefusal = true ∧ writeAndList ((root.child folder).child name) text written
      (some root) m = .error f m := by
  by_cases hlong : Disk.pathLimit ≤ ((root.child folder).child name).toString.utf8ByteSize
  · refine ⟨_, rfl, writeAndList_of_long (fun s hs => ?_) hlong text written _⟩
    rw [child_child_eq] at hs
    rcases List.mem_append.1 hs with hs | hs
    · exact (Files.screen_eq_ok_iff.1 h.leads.screened).1 s hs
    · simp only [List.mem_cons, List.not_mem_nil, or_false] at hs
      rcases hs with rfl | rfl
      · exact hfolder.clean
      · exact hname.clean
  obtain ⟨hfits, hfits'⟩ := fits_within hfolder hname hroot (Nat.lt_of_not_le hlong)
  have hholds := holdsText_of_blocked h hfolder hname hfits hfits' hrooted hblocked text
  have hchanged : ∃ f : Fault, f.isRefusal = true ∧
      writeIfChanged ((root.child folder).child name) text m = .error f m := by
    rw [writeIfChanged, bind_ok hholds, if_neg (by simp), parent_child_child]
    cases hblocked with
    | long long => exact absurd long hlong
    | @file f node =>
      have hplace := fun aim => h.leads.place_child_of_fits aim hfolder.ordinary hfolder.clean hfits
        (h.plain [folder])
      exact ⟨_, rfl, bind_error (Files.makeFolders_of_file (hplace .make) (hplace .find)
        ((Disk.look?_append hfolder.ordinary).trans node)) _⟩
    | folder node =>
      have hthere : m.disk.node? (q ++ [folder]) = some .folder :=
        hrooted (q ++ [folder]) name _ (by rwa [List.append_assoc])
      have hleads := h.leads.child hfolder.ordinary hfolder.clean hfits hthere
      have hplace := place_within h hfolder hname .write hfits hfits' hthere
      rw [bind_ok hleads.makeFolders]
      exact ⟨_, rfl, bind_error (Files.writeText_of_folder hplace
        ((look?_within hfolder hname _ q).trans node) text) _⟩
  obtain ⟨f, hrefusal, hchanged⟩ := hchanged
  exact ⟨f, hrefusal, bind_error hchanged _⟩

end Within

end Decompilation.Project
