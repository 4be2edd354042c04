import Decompilation.Disk.Files
import Decompilation.Proofs.Disk.Basic
import Decompilation.Proofs.Disk.Walk
import Decompilation.Proofs.Machine

/-!
# Operations in a folder

What making a folder does where one is (`Leads.makeFolders`), and what writing a file in a folder
does (`Leads.writeText`), on a machine on which a path leads to that folder.
-/

namespace Decompilation.Files

open Act
open Disk (Ordinary Route)

variable {m : Machine} {p : Path} {q : Place} {name : String}

/-! ## Reaching a place -/

theorem reachOr_of_ok (fault : Refusal → Fault) {aim : Disk.Aim}
    (h : m.disk.place m.cwd aim p = .ok q) :
    reachOr fault aim p m = .ok (q, m.disk.look? q) m := by
  rw [reachOr, bind_ok (get_eq m), h]
  rfl

theorem reachOr_of_error (fault : Refusal → Fault) {aim : Disk.Aim} {r : Refusal}
    (h : m.disk.place m.cwd aim p = .error r) : reachOr fault aim p m = .error (fault r) m := by
  rw [reachOr, bind_ok (get_eq m), h]
  rfl

/-! ## Folders that are there -/

/-- A path leads to a folder that is there. -/
structure Leads (m : Machine) (p : Path) (q : Place) : Prop where
  screened : Disk.screen p = .ok ()
  route : ∃ left, Route m.disk Disk.linkLimit (if p.isAnchored then [] else m.cwd) p.segments left q
  stands : q.isGone = false

theorem leads_of_place (h : m.disk.place m.cwd .find p = .ok q)
    (hfolder : m.disk.look? q = some .folder) (hstands : q.isGone = false) : Leads m p q := by
  obtain ⟨hscreen, hwalk⟩ := Disk.place_eq_ok_iff.1 h
  exact ⟨hscreen, Disk.exists_route hwalk hfolder, hstands⟩

/-- A path leads to a folder with nothing in it. -/
structure LeadsToEmpty (m : Machine) (p : Path) (q : Place) : Prop where
  place : m.disk.place m.cwd .find p = .ok q
  folder : m.disk.look? q = some .folder
  stands : q.isGone = false
  empty : m.disk.below q = []

theorem LeadsToEmpty.leads (h : LeadsToEmpty m p q) : Leads m p q :=
  leads_of_place h.place h.folder h.stands

namespace Leads

theorem folder (h : Leads m p q) : m.disk.look? q = some .folder := by
  obtain ⟨left, hroute⟩ := h.route
  exact hroute.folder

/-- Where a path leads does not depend on the files of the disk. -/
theorem of_agree {d : Disk} (h : Leads m p q)
    (hagree : ∀ p n, m.disk.node? p = some n → (∀ f, n ≠ .file f) → d.node? p = some n) :
    Leads { m with disk := d } p q := by
  obtain ⟨left, hroute⟩ := h.route
  exact ⟨h.screened, ⟨left, hroute.of_agree hagree⟩, h.stands⟩

theorem place (h : Leads m p q) : m.disk.place m.cwd .find p = .ok q := by
  obtain ⟨left, hroute⟩ := h.route
  exact Disk.place_eq_ok_iff.2 ⟨h.screened, hroute.walk_find⟩

theorem stat (h : Leads m p q) : m.disk.stat m.cwd p = .ok .folder :=
  Disk.stat_of_place h.place h.folder

theorem isFolder (h : Leads m p q) : Files.isFolder p m = .ok true m := by
  have hlook : lookUp? p m = .ok (some .folder) m := by
    rw [lookUp?, bind_ok (get_eq m), h.stat]
    rfl
  rw [Files.isFolder, bind_ok hlook]
  rfl

theorem makeFolder (h : Leads m p q) :
    Files.makeFolder p m = .error (Fault.ofRefusal .exists p) m := by
  obtain ⟨left, hroute⟩ := h.route
  obtain ⟨p', n, hwalk, hlook⟩ := hroute.walk_make
  have hplace := Disk.place_eq_ok_iff.2 ⟨h.screened, hwalk⟩
  have hput : putNew (Fault.ofRefusal · p) p .folder m = .error (Fault.ofRefusal .exists p) m := by
    rw [putNew, bind_ok (reachOr_of_ok _ hplace), hlook]
    rfl
  exact bind_error hput _

theorem keepFolder (h : Leads m p q) (f : Fault) : Files.keepFolder p f m = .ok () m := by
  rw [Files.keepFolder, bind_ok h.isFolder]
  rfl

/-- Where a folder is, nothing needs to be made. -/
theorem makeFolders (h : Leads m p q) : Files.makeFolders p m = .ok () m := by
  rw [Files.makeFolders, makeFoldersTo, orElse_of_error h.makeFolder]
  exact h.keepFolder _

end Leads

/-! ## Writing in a folder -/

/-- The system takes a name in a folder. -/
structure Fits (p : Path) (name : String) : Prop where
  name_le : name.utf8ByteSize ≤ Disk.nameLimit
  path_lt : (p.child name).toString.utf8ByteSize < Disk.pathLimit

instance (p : Path) (name : String) : Decidable (Fits p name) :=
  decidable_of_iff (name.utf8ByteSize ≤ Disk.nameLimit ∧
    (p.child name).toString.utf8ByteSize < Disk.pathLimit) ⟨fun h => ⟨h.1, h.2⟩, fun h => ⟨h.1, h.2⟩⟩

theorem screen_eq_ok_iff : Disk.screen p = .ok () ↔
    (∀ s ∈ p.segments, '\x00' ∉ s.toList) ∧ p.toString.utf8ByteSize < Disk.pathLimit := by
  unfold Disk.screen
  split
  · rename_i h
    simp only [List.any_eq_true, List.elem_eq_mem, decide_eq_true_eq] at h
    simpa using fun hall => absurd h (by simpa using hall)
  · rename_i h
    simp only [List.any_eq_true, List.elem_eq_mem, decide_eq_true_eq, not_exists, not_and] at h
    split
    · rename_i hlen
      simp [Nat.not_lt.2 hlen]
    · rename_i hlen
      simpa [Nat.lt_of_not_le hlen] using h

theorem screen_of_long (hclean : ∀ s ∈ p.segments, '\x00' ∉ s.toList)
    (hlong : Disk.pathLimit ≤ p.toString.utf8ByteSize) : Disk.screen p = .error .nameTooLong := by
  have hnull : p.segments.any (·.toList.elem '\x00') = false := by simpa using hclean
  rw [Disk.screen, hnull, if_neg (by simp), if_pos hlong]

namespace Leads

variable {text : List Char}

theorem place_append (h : Leads m p q) (aim : Disk.Aim) {names : List String}
    (hsome : ∃ s ∈ names, s ≠ "")
    (hscreen : Disk.screen { p with segments := p.segments ++ names } = .ok ()) :
    ∃ left, m.disk.place m.cwd aim { p with segments := p.segments ++ names } =
      Disk.walk m.disk aim left q names := by
  obtain ⟨left, hroute⟩ := h.route
  refine ⟨left, ?_⟩
  rw [← hroute.walk_append aim hsome, Disk.place, hscreen]
  rfl

theorem screen_child (h : Leads m p q) (hnull : '\x00' ∉ name.toList)
    (hpath : (p.child name).toString.utf8ByteSize < Disk.pathLimit) :
    Disk.screen (p.child name) = .ok () := by
  refine screen_eq_ok_iff.2 ⟨fun s hs => ?_, hpath⟩
  rcases List.mem_append.1 hs with hs | hs
  · exact (screen_eq_ok_iff.1 h.screened).1 s hs
  · rwa [List.mem_singleton.1 hs]

theorem place_child (h : Leads m p q) (aim : Disk.Aim) (hname : Ordinary name)
    (hnull : '\x00' ∉ name.toList) (hpath : (p.child name).toString.utf8ByteSize < Disk.pathLimit) :
    ∃ left, m.disk.place m.cwd aim (p.child name) = Disk.walk m.disk aim left q [name] :=
  h.place_append aim ⟨name, List.mem_singleton_self _, fun hnil => hname.ne_same (.inl hnil)⟩
    (h.screen_child hnull hpath)

/-- A name in a folder leads to its place there, unless a link stands there. -/
theorem place_child_of_fits (h : Leads m p q) (aim : Disk.Aim) (hname : Ordinary name)
    (hnull : '\x00' ∉ name.toList) (hfits : Fits p name)
    (hlink : ∀ target, m.disk.node? (q ++ [name]) ≠ some (.link target)) :
    m.disk.place m.cwd aim (p.child name) = .ok (q ++ [name]) := by
  obtain ⟨left, hplace⟩ := h.place_child aim hname hnull hfits.path_lt
  rw [hplace, Disk.walk_singleton h.folder h.stands hname hfits.name_le hlink]

theorem place_child_of_not_fits (h : Leads m p q) (aim : Disk.Aim) (hname : Ordinary name)
    (hnull : '\x00' ∉ name.toList) (hfits : ¬ Fits p name) :
    m.disk.place m.cwd aim (p.child name) = .error .nameTooLong := by
  by_cases hpath : (p.child name).toString.utf8ByteSize < Disk.pathLimit
  · have hlong : Disk.nameLimit < name.utf8ByteSize :=
      Nat.lt_of_not_le fun hle => hfits ⟨hle, hpath⟩
    obtain ⟨left, hplace⟩ := h.place_child aim hname hnull hpath
    rw [hplace, Disk.walk_singleton_of_long h.folder h.stands hname hlong]
  · have hscreen : Disk.screen (p.child name) = .error .nameTooLong := by
      have hclean : (p.child name).segments.any (·.toList.elem '\x00') = false := by
        rw [Bool.eq_false_iff]
        intro hany
        obtain ⟨s, hs, hmem⟩ := List.any_eq_true.1 hany
        rw [List.elem_eq_mem, decide_eq_true_eq] at hmem
        rcases List.mem_append.1 hs with hs | hs
        · exact (screen_eq_ok_iff.1 h.screened).1 s hs hmem
        · exact hnull (List.mem_singleton.1 hs ▸ hmem)
      rw [Disk.screen, hclean, if_neg (by simp), if_pos (Nat.le_of_not_lt hpath)]
    rw [Disk.place, hscreen]
    rfl

/-- A file that is written in a folder where nothing stands at its name, or a file that was written
there, holds the text and nothing else. -/
theorem writeText (h : Leads m p q) (hname : Ordinary name) (hnull : '\x00' ∉ name.toList)
    (hfits : Fits p name) (hfile : ∀ n, m.disk.node? (q ++ [name]) = some n →
      ∃ bytes, n = .file (File.ofBytes bytes)) :
    Files.writeText (p.child name) text m = .ok () { m with
      disk := m.disk.put (q ++ [name]) (.file (File.ofBytes (Text.Utf8.encode text))) } := by
  have hlink : ∀ target, m.disk.node? (q ++ [name]) ≠ some (.link target) := by
    intro target hn
    obtain ⟨bytes, hbytes⟩ := hfile _ hn
    cases hbytes
  have hreach := reachOr_of_ok (Fault.ofRefusal · (p.child name))
    (h.place_child_of_fits .write hname hnull hfits hlink)
  rw [Disk.look?_append hname] at hreach
  cases hnode : m.disk.node? (q ++ [name]) with
  | none =>
    rw [hnode] at hreach
    exact (bind_ok hreach _).trans (modifyDisk_eq _ m)
  | some n =>
    obtain ⟨bytes, rfl⟩ := hfile n hnode
    rw [hnode] at hreach
    exact (bind_ok hreach _).trans (modifyDisk_eq _ m)

theorem writeText_of_not_fits (h : Leads m p q) (hname : Ordinary name)
    (hnull : '\x00' ∉ name.toList) (hfits : ¬ Fits p name) :
    Files.writeText (p.child name) text m =
      .error (Fault.ofRefusal .nameTooLong (p.child name)) m := by
  have hreach := reachOr_of_error (Fault.ofRefusal · (p.child name))
    (h.place_child_of_not_fits .write hname hnull hfits)
  exact bind_error hreach _

end Leads

end Decompilation.Files
