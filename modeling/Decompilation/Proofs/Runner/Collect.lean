import Mathlib.Data.List.Lex
import Mathlib.Data.List.Sort
import Decompilation.Proofs.Disk.Grow
import Decompilation.Proofs.Disk.Refused
import Decompilation.Proofs.Runner.Ceiling
import Decompilation.Proofs.Runner.Host
import Decompilation.Proofs.Runner.Output

/-!
# Which files are collected

Where no path is too long to be asked about (`Listable`), what is collected below a folder is every file
there with one of the suffixes, once, in strictly ascending order of the names that lead to it, and
nothing else (`collect_lists_files`). So it depends on the files alone, not on what else lies below the
folder nor on the order in which the system lists it (`collect_eq_of_same`), and so does what is read of
it (`outcome_readAll_of_same`).
-/

namespace Decompilation

open Act

/-- The names of what lies below a folder are listed once each. -/
theorem Disk.nodup_below (d : Disk) (q : Place) : ((d.below q).map Prod.fst).Nodup := by
  have hkeys : d.nodes.toList.Pairwise fun e e' => e.1 ≠ e'.1 := List.pairwise_map.1 d.nodes.nodup
  refine List.pairwise_map.2 (hkeys.filterMap (entryBelow? q) fun e e' hne x hx x' hx' hsame => ?_)
  obtain ⟨-, rfl⟩ := entryBelow?_eq_some_iff.1 hx
  obtain ⟨-, rfl⟩ := entryBelow?_eq_some_iff.1 hx'
  exact hne (congrArg (q ++ ·) hsame)

theorem Path.lt_of_segmentsLe {a b : List String} (h : segmentsLe a b = true) (hne : a ≠ b) : a < b := by
  induction a generalizing b with
  | nil =>
    cases b with
    | nil => exact absurd rfl hne
    | cons y b => exact List.Lex.nil
  | cons x a ih =>
    cases b with
    | nil => cases h
    | cons y b =>
      rcases segmentsLe_cons.1 h with hlt | ⟨rfl, hrest⟩
      · exact List.Lex.rel hlt
      · exact List.Lex.cons (ih hrest fun hsame => hne (congrArg (x :: ·) hsame))

namespace Runner

open Files (TooLong)
open Project (readAs)

variable {m m₁ m₂ : Machine} {root root₁ root₂ : Path} {names : List String}
  {found : List (List String)} {files₁ files₂ : List File} {limit : Int}

/-! ## What lies below a folder -/

/-- Something lies below a folder, where names lead to from there. -/
def Lies (m : Machine) (root : Path) (names : List String) : Prop :=
  ∃ q, m.disk.place m.cwd .find root = .ok q ∧ m.disk.look? q = some .folder ∧
    names ≠ [] ∧ m.disk.node? (q ++ names) ≠ none

/-- A file of some bytes lies below a folder, where names lead to from there. -/
def Holds (m : Machine) (root : Path) (names : List String) (bytes : List UInt8) : Prop :=
  Lies m root names ∧ ∃ f, m.disk.stat m.cwd (under root names) = .ok (.file f) ∧ f.content = bytes

/-- Neither the path of a folder nor that of anything below it is too long. -/
def Listable (m : Machine) (root : Path) : Prop :=
  ¬ TooLong m root ∧ ∀ names, Lies m root names → ¬ TooLong m (under root names)

/-- The names that lead from a folder to what lies below it, as the system lists them. -/
def listed (m : Machine) (root : Path) : List (List String) :=
  match m.disk.place m.cwd .find root with
  | .ok q => if m.disk.look? q = some .folder then (m.disk.below q).map Prod.fst else []
  | .error _ => []

theorem listed_of_folder {q : Place} (hplace : m.disk.place m.cwd .find root = .ok q)
    (hfolder : m.disk.look? q = some .folder) : listed m root = (m.disk.below q).map Prod.fst := by
  simp only [listed, hplace, if_pos hfolder]

theorem mem_listed_iff : names ∈ listed m root ↔ Lies m root names := by
  constructor
  · intro h
    unfold listed at h
    split at h
    · rename_i q hplace
      split at h
      · rename_i hfolder
        obtain ⟨⟨_, n⟩, hmem, rfl⟩ := List.mem_map.1 h
        obtain ⟨hne, hnode⟩ := Disk.mem_below_iff.1 hmem
        exact ⟨q, hplace, hfolder, hne, by rw [hnode]; exact Option.some_ne_none n⟩
      · cases h
    · cases h
  · rintro ⟨q, hplace, hfolder, hne, hthere⟩
    obtain ⟨n, hnode⟩ := Option.ne_none_iff_exists'.1 hthere
    rw [listed_of_folder hplace hfolder]
    exact List.mem_map.2 ⟨(names, n), Disk.mem_below_iff.2 ⟨hne, hnode⟩, rfl⟩

theorem nodup_listed (m : Machine) (root : Path) : (listed m root).Nodup := by
  unfold listed
  split
  · split
    · exact m.disk.nodup_below _
    · exact List.nodup_nil
  · exact List.nodup_nil

instance (m : Machine) (p : Path) : Decidable (TooLong m p) :=
  inferInstanceAs (Decidable (m.disk.stat m.cwd p = .error .nameTooLong))

instance (m : Machine) (root : Path) : Decidable (Listable m root) :=
  decidable_of_iff (¬ TooLong m root ∧ ∀ names ∈ listed m root, ¬ TooLong m (under root names))
    (by simp only [Listable, mem_listed_iff])

/-- The files below a folder with their bytes, as the system lists them. -/
def held (m : Machine) (root : Path) : List (List String × List UInt8) :=
  (listed m root).filterMap fun names =>
    match m.disk.stat m.cwd (under root names) with
    | .ok (.file f) => some (names, f.content)
    | _ => none

theorem mem_held_iff {bytes : List UInt8} : (names, bytes) ∈ held m root ↔ Holds m root names bytes := by
  rw [held, List.mem_filterMap]
  constructor
  · rintro ⟨names', hlisted, h⟩
    split at h
    · rename_i f hstat
      cases h
      exact ⟨mem_listed_iff.1 hlisted, f, hstat, rfl⟩
    · cases h
  · rintro ⟨hlies, f, hstat, rfl⟩
    exact ⟨names, mem_listed_iff.2 hlies, by rw [hstat]⟩

/-- Whether names lead from a folder to a file. -/
def leadsToFile (m : Machine) (root : Path) (names : List String) : Bool :=
  match m.disk.stat m.cwd (under root names) with
  | .ok (.file _) => true
  | _ => false

theorem leadsToFile_iff : leadsToFile m root names = true ↔
    ∃ f, m.disk.stat m.cwd (under root names) = .ok (.file f) := by
  unfold leadsToFile
  split
  · rename_i f hstat
    simp [hstat]
  · rename_i hnot
    refine iff_of_false Bool.false_ne_true ?_
    rintro ⟨f, hstat⟩
    exact hnot f hstat

/-! ## Asking for files -/

theorem isFile_of_not_tooLong (h : ¬ TooLong m (under root names)) :
    Files.isFile (under root names) m = .ok (leadsToFile m root names) m := by
  obtain ⟨node, hlook⟩ := Files.lookUp?_of_not_tooLong h
  cases hstat : m.disk.stat m.cwd (under root names) with
  | ok n =>
    have hnode : Files.lookUp? (under root names) m = .ok (some n) m := by
      rw [Files.lookUp?, bind_ok (get_eq m), hstat]
      rfl
    rw [Files.isFile, bind_ok hnode, leadsToFile, hstat]
    cases n <;> rfl
  | error r =>
    have hnode : Files.lookUp? (under root names) m = .ok none m := by
      rw [Files.lookUp?, bind_ok (get_eq m), hstat] at hlook ⊢
      dsimp only at hlook ⊢
      split at hlook
      · rename_i habsent
        rw [if_pos habsent]
        rfl
      · cases hlook
    rw [Files.isFile, bind_ok hnode, leadsToFile, hstat]
    rfl

theorem leadingToFiles_cons (root : Path) (names : List String) (found : List (List String)) :
    Files.leadingToFiles root (names :: found) = do
      let isFile ← Files.isFile (under root names)
      let rest ← Files.leadingToFiles root found
      return if isFile then names :: rest else rest := rfl

theorem leadingToFiles_eq (h : ∀ names ∈ found, ¬ TooLong m (under root names)) :
    Files.leadingToFiles root found m = .ok (found.filter (leadsToFile m root)) m := by
  induction found with
  | nil => rfl
  | cons names found ih =>
    have hfirst := isFile_of_not_tooLong (h names List.mem_cons_self)
    have hrest := ih fun names' hnames' => h names' (List.mem_cons_of_mem _ hnames')
    rw [leadingToFiles_cons, bind_ok hfirst, bind_ok hrest, List.filter_cons]
    rfl

theorem fails_leadingToFiles (hmem : names ∈ found) (h : TooLong m (under root names)) :
    Fails (Files.leadingToFiles root found) m := by
  induction found with
  | nil => cases hmem
  | cons names' found ih =>
    rw [leadingToFiles_cons]
    by_cases hfirst : TooLong m (under root names')
    · exact fails_bind_iff.2 (.inl ⟨_, _, bind_error (Files.lookUp?_of_tooLong hfirst) _⟩)
    · have hlater : names ∈ found := by
        rcases List.mem_cons.1 hmem with rfl | hlater
        · exact absurd h hfirst
        · exact hlater
      refine (fails_bind_of_ok (isFile_of_not_tooLong hfirst) _).2 (fails_bind_iff.2 (.inl (ih hlater)))

theorem exists_place_of_folder (h : m.disk.stat m.cwd root = .ok .folder) :
    ∃ q, m.disk.place m.cwd .find root = .ok q ∧ m.disk.look? q = some .folder := by
  obtain ⟨q, hplace⟩ := Disk.place_of_stat h
  refine ⟨q, hplace, ?_⟩
  cases hlook : m.disk.look? q with
  | none =>
    rw [Disk.stat_of_place_none hplace hlook] at h
    cases h
  | some n =>
    rw [Disk.stat_of_place hplace hlook] at h
    cases h
    rfl

theorem filesBelow_of_folder (h : m.disk.stat m.cwd root = .ok .folder) :
    Files.filesBelow root m = Files.leadingToFiles root (listed m root) m := by
  obtain ⟨q, hplace, hfolder⟩ := exists_place_of_folder h
  have hlook : Files.lookUp? root m = .ok (some .folder) m := by
    rw [Files.lookUp?, bind_ok (get_eq m), Disk.stat_of_place hplace hfolder]
    rfl
  have his : Files.isFolder root m = .ok true m := bind_ok hlook _
  rw [Files.filesBelow, bind_ok his, if_pos rfl, Files.reach, bind_ok (Files.reachOr_of_ok _ hplace),
    listed_of_folder hplace hfolder]
  rfl

theorem filesBelow_of_no_folder (h : ¬ TooLong m root) (hno : m.disk.stat m.cwd root ≠ .ok .folder) :
    Files.filesBelow root m = .ok [] m := by
  have his : Files.isFolder root m = .ok false m := by
    obtain ⟨node, hlook⟩ := Files.lookUp?_of_not_tooLong h
    obtain ⟨-, hfound⟩ := Files.lookUp?_cases hlook
    rw [Files.isFolder, bind_ok hlook]
    split
    · obtain ⟨q, hplace, hfolder⟩ := hfound _ rfl
      exact absurd (Disk.stat_of_place hplace hfolder) hno
    · rfl
  rw [Files.filesBelow, bind_ok his]
  rfl

theorem folder_of_lies (h : Lies m root names) : m.disk.stat m.cwd root = .ok .folder := by
  obtain ⟨q, hplace, hfolder, -⟩ := h
  exact Disk.stat_of_place hplace hfolder

/-- Where no path is too long, the files below a folder are listed, each once. -/
theorem filesBelow_of_listable (h : Listable m root) : ∃ found, Files.filesBelow root m = .ok found m ∧
    found.Nodup ∧ ∀ names, names ∈ found ↔ ∃ bytes, Holds m root names bytes := by
  by_cases hstat : m.disk.stat m.cwd root = .ok .folder
  · have hshort : ∀ names ∈ listed m root, ¬ TooLong m (under root names) := fun names hnames =>
      h.2 names (mem_listed_iff.1 hnames)
    refine ⟨_, (filesBelow_of_folder hstat).trans (leadingToFiles_eq hshort),
      (nodup_listed m root).filter _, fun names => ?_⟩
    rw [List.mem_filter, mem_listed_iff, leadsToFile_iff]
    constructor
    · rintro ⟨hthere, f, hf⟩
      exact ⟨f.content, hthere, f, hf, rfl⟩
    · rintro ⟨_, hthere, f, hf, -⟩
      exact ⟨hthere, f, hf⟩
  · refine ⟨[], filesBelow_of_no_folder h.1 hstat, List.nodup_nil, fun names => ?_⟩
    refine iff_of_false List.not_mem_nil ?_
    rintro ⟨_, hthere, -⟩
    exact hstat (folder_of_lies hthere)

theorem fails_filesBelow (h : ¬ Listable m root) : Fails (Files.filesBelow root) m := by
  by_cases hlong : TooLong m root
  · exact fails_bind_iff.2 (.inl (fails_bind_iff.2 (.inl ⟨_, _, Files.lookUp?_of_tooLong hlong⟩)))
  · rw [Listable, not_and] at h
    push Not at h
    obtain ⟨names, hthere, hnames⟩ := h hlong
    rw [Fails, filesBelow_of_folder (folder_of_lies hthere)]
    exact fails_leadingToFiles (mem_listed_iff.2 hthere) hnames

/-! ## Collecting -/

/-- What is collected is every file with one of the suffixes, once, in strictly ascending order. -/
theorem collect_lists_files (h : Listable m root) (suffixes : List String) : ∃ l,
    collect root suffixes m = .ok l m ∧ l.Pairwise (· < ·) ∧
      ∀ names, names ∈ l ↔ (∃ bytes, Holds m root names bytes) ∧ hasSuffix suffixes names = true := by
  have : Std.Total Before := ⟨Path.segmentsLe_total⟩
  have : IsTrans _ Before := ⟨fun _ _ _ => Path.segmentsLe_trans⟩
  obtain ⟨found, hfound, hnodup, hfiles⟩ := filesBelow_of_listable h
  refine ⟨(found.filter (hasSuffix suffixes)).insertionSort Before, ?_, ?_, fun names => ?_⟩
  · rw [collect_eq_insertionSort, bind_ok hfound]
    rfl
  · have hperm := List.perm_insertionSort Before (found.filter (hasSuffix suffixes))
    have hne := hperm.nodup_iff.2 (hnodup.filter _)
    have hsorted := List.pairwise_insertionSort Before (found.filter (hasSuffix suffixes))
    exact hsorted.imp₂ (fun _ _ hle hne => Path.lt_of_segmentsLe hle hne) hne
  · rw [List.mem_insertionSort, List.mem_filter, hfiles]

/-- Nothing is collected exactly if a path is too long for that. -/
theorem fails_collect_iff (suffixes : List String) :
    Fails (collect root suffixes) m ↔ ¬ Listable m root := by
  constructor
  · intro hfails hlistable
    obtain ⟨l, hl, -⟩ := collect_lists_files hlistable suffixes
    exact not_fails_of_ok hl hfails
  · intro h
    exact fails_bind_iff.2 (.inl (fails_filesBelow h))

/-- The same files are collected as the same list. -/
theorem collect_eq_of_same (h₁ : Listable m₁ root₁) (h₂ : Listable m₂ root₂)
    (hsame : ∀ names bytes, Holds m₁ root₁ names bytes ↔ Holds m₂ root₂ names bytes)
    (suffixes : List String) : ∃ l, collect root₁ suffixes m₁ = .ok l m₁ ∧
      collect root₂ suffixes m₂ = .ok l m₂ ∧ l.Pairwise (· < ·) ∧
      ∀ names, names ∈ l ↔ (∃ bytes, Holds m₁ root₁ names bytes) ∧ hasSuffix suffixes names = true := by
  obtain ⟨l₁, hl₁, hsorted₁, hmem₁⟩ := collect_lists_files h₁ suffixes
  obtain ⟨l₂, hl₂, hsorted₂, hmem₂⟩ := collect_lists_files h₂ suffixes
  have heq : l₂ = l₁ := hsorted₂.eq_of_mem_iff hsorted₁ fun names => by
    simp only [hmem₁, hmem₂, hsame]
  exact ⟨l₁, hl₁, heq ▸ hl₂, hsorted₁, hmem₁⟩

/-! ## Reading what is collected -/

theorem LeadTo.of_eq {paths : List Path} {files : List File} (h : LeadTo m paths files)
    (hdisk : m₁.disk = m.disk) (hcwd : m₁.cwd = m.cwd) : LeadTo m₁ paths files := by
  rw [LeadTo, hdisk, hcwd]
  exact h

theorem charactersOf_eq (h : files₁.map readAs = files₂.map readAs) (k : Nat) :
    charactersOf (files₁.take k) = charactersOf (files₂.take k) := by
  have hlengths : ∀ files : List File, charactersOf (files.take k) =
      (((files.map readAs).take k).map List.length).sum := by
    intro files
    rw [charactersOf, ← List.map_take, List.map_map]
    rfl
  rw [hlengths, hlengths, h]

theorem length_eq_of_same (h : files₁.map readAs = files₂.map readAs) :
    files₁.length = files₂.length := by
  simpa using congrArg List.length h

theorem Within.of_same (hwithin : Within files₁ limit) (h : files₁.map readAs = files₂.map readAs) :
    Within files₂ limit := fun k hk hpos => by
  rw [← charactersOf_eq h]
  exact hwithin k (length_eq_of_same h ▸ hk) hpos

theorem FirstAbove.of_same {k : Nat} (hfirst : FirstAbove files₁ limit k)
    (h : files₁.map readAs = files₂.map readAs) : FirstAbove files₂ limit k where
  pos := hfirst.pos
  le := length_eq_of_same h ▸ hfirst.le
  above := charactersOf_eq h k ▸ hfirst.above
  within := fun j hj hpos => charactersOf_eq h j ▸ hfirst.within j hj hpos

/-- Files that read as the same texts are read alike. -/
theorem outcome_readAll_eq {paths₁ paths₂ : List Path} (h₁ : LeadTo m₁ paths₁ files₁)
    (h₂ : LeadTo m₂ paths₂ files₂) (hsame : files₁.map readAs = files₂.map readAs)
    (maxFiles limit : Int) :
    (readAll paths₁ (.int maxFiles) (.int limit)).outcome m₁ =
      (readAll paths₂ (.int maxFiles) (.int limit)).outcome m₂ := by
  have hcount : paths₁.length = paths₂.length :=
    h₁.length_eq.trans ((length_eq_of_same hsame).trans h₂.length_eq.symm)
  by_cases hfew : (paths₁.length : Int) ≤ maxFiles
  · by_cases hwithin : Within files₁ limit
    · rw [outcome_ok (readAll_of_within hfew h₁ hwithin),
        outcome_ok (readAll_of_within (hcount ▸ hfew) h₂ (hwithin.of_same hsame)), hsame]
    · obtain ⟨k, hfirst⟩ := exists_firstAbove hwithin
      have hk : k ≤ paths₁.length := h₁.length_eq ▸ hfirst.le
      have hread := readAll_of_firstAbove hfew hk (List.forall₂_take k h₁) hfirst
      have hread' := readAll_of_firstAbove (hcount ▸ hfew) (hcount ▸ hk) (List.forall₂_take k h₂)
        (hfirst.of_same hsame)
      rw [outcome_error hread, outcome_error hread', charactersOf_eq hsame]
  · have hmany := Int.not_le.1 hfew
    rw [outcome_error (readAll_of_many hmany), outcome_error (readAll_of_many (hcount ▸ hmany)), hcount]

/-- The limits that the settings give: of the number of files, and of the number of their characters. -/
def limits : Act (Int × Int) := do
  let maxFiles ← Settings.maxFiles
  let maxCharacters ← Settings.maxCharacters
  return (maxFiles, maxCharacters)

theorem readAll_settings (paths : List Path) : readAll paths .null .null = (do
    let l ← limits
    readAll paths (.int l.1) (.int l.2)) := by
  simp only [readAll, limits, limitOr, bind_assoc, pure_bind]

/-- Asking for the limits changes nothing on the disk. -/
theorem disk_of_limits (m : Machine) :
    (limits.after m).disk = m.disk ∧ (limits.after m).cwd = m.cwd := by
  have hcalm : Calm fun s => s.disk = m.disk ∧ s.cwd = m.cwd := ⟨fun _ h => h, fun _ h => h⟩
  have hkeeps : Keeps (fun s => s.disk = m.disk ∧ s.cwd = m.cwd) limits :=
    (Settings.keeps_getInt hcalm _ _).bind fun _ =>
      (Settings.keeps_getInt hcalm _ _).bind fun _ => .pure _
  exact hkeeps m ⟨rfl, rfl⟩

/-- Files that are held alike below two folders read as the same texts. -/
theorem exists_leadTo {l : List (List String)}
    (h : ∀ names ∈ l, ∃ bytes, Holds m₁ root₁ names bytes ∧ Holds m₂ root₂ names bytes) :
    ∃ files₁ files₂, LeadTo m₁ (l.map (under root₁)) files₁ ∧ LeadTo m₂ (l.map (under root₂)) files₂ ∧
      files₁.map readAs = files₂.map readAs := by
  induction l with
  | nil => exact ⟨[], [], .nil, .nil, rfl⟩
  | cons names l ih =>
    obtain ⟨bytes, ⟨-, f₁, hf₁, hbytes₁⟩, -, f₂, hf₂, hbytes₂⟩ := h names List.mem_cons_self
    obtain ⟨files₁, files₂, h₁, h₂, hsame⟩ := ih fun names' hnames' =>
      h names' (List.mem_cons_of_mem _ hnames')
    refine ⟨f₁ :: files₁, f₂ :: files₂, .cons hf₁ h₁, .cons hf₂ h₂, ?_⟩
    rw [List.map_cons, List.map_cons, hsame, readAs, readAs, hbytes₁, hbytes₂]

/-- Files that are held alike below two folders are read alike within the same limits. -/
theorem outcome_readAll_of_same {l : List (List String)}
    (hsame : ∀ names bytes, Holds m₁ root₁ names bytes ↔ Holds m₂ root₂ names bytes)
    (hlimits : limits.outcome m₁ = limits.outcome m₂)
    (hl : ∀ names ∈ l, ∃ bytes, Holds m₁ root₁ names bytes) :
    (readAll (l.map (under root₁)) .null .null).outcome m₁ =
      (readAll (l.map (under root₂)) .null .null).outcome m₂ := by
  obtain ⟨files₁, files₂, h₁, h₂, htexts⟩ := exists_leadTo fun names hnames => by
    obtain ⟨bytes, hbytes⟩ := hl names hnames
    exact ⟨bytes, hbytes, (hsame names bytes).1 hbytes⟩
  obtain ⟨hdisk₁, hcwd₁⟩ := disk_of_limits m₁
  obtain ⟨hdisk₂, hcwd₂⟩ := disk_of_limits m₂
  rw [readAll_settings, readAll_settings]
  exact outcome_bind_congr hlimits fun _ _ =>
    outcome_readAll_eq (h₁.of_eq hdisk₁ hcwd₁) (h₂.of_eq hdisk₂ hcwd₂) htexts _ _

end Runner

end Decompilation
