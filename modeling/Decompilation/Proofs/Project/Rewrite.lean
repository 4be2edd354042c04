import Decompilation.Proofs.Disk.Written
import Decompilation.Proofs.Project.Skeleton
import Decompilation.Proofs.Source.Breaks

/-!
# Files that need not be written again

A folder in which files are written one after the other, over whatever was there, has them `Laid` out:
each reads as its text. What reads as a text already is left alone when that text is written again
(`Laid.writeAndList_again`).
-/

namespace Decompilation.Project

open Act
open Disk (Ordinary)
open Files (Clear Direct Leads Takes WritesAt)

variable {cwd q : Place} {m m' : Machine} {root : Path} {names : List String} {text : List Char}
  {files : List (List String × List Char)} {written done : List String} {e : List String × List Char}

/-- The text that a file reads as. -/
def readAs (f : File) : List Char := Text.unifyBreaks (Text.Utf8.decodeLenient f.content)

/-- A path goes on with names to a file that reads as a text, at the place that the names spell. -/
structure Shows (m : Machine) (root : Path) (q : Place) (file : List String × List Char) : Prop where
  place : m.disk.place m.cwd .find { root with segments := root.segments ++ file.1 } =
    .ok (q ++ file.1)
  text : ∃ f, m.disk.node? (q ++ file.1) = some (.file f) ∧ readAs f = file.2

/-- A path leads to a folder without links below which files read as texts. -/
structure Laid (cwd : Place) (root : Path) (q : Place) (files : List (List String × List Char))
    (m : Machine) : Prop where
  sound : Sound cwd m
  clear : Clear m root q
  shows : ∀ e ∈ files, Shows m root q e

namespace Laid

theorem put {aim : Disk.Aim} {p : Path} {q' : Place} {n : Node} (h : Laid cwd root q files m)
    (hplace : m.disk.place m.cwd aim p = .ok q') (hfree : m.disk.Free aim q' n)
    (hn : ∀ target, n ≠ .link target) (hnew : ∀ e ∈ files, q ++ e.1 ≠ q') :
    Laid cwd root q files { m with disk := m.disk.put q' n } := by
  have hstanding : m.disk.Stands m.cwd := h.sound.cwd_eq ▸ h.sound.stands
  have hstays := hfree.stays hstanding hplace
  have hne : q' ≠ [] := by
    rintro rfl
    exact hfree.look?_ne_folder rfl
  refine ⟨h.sound.put hplace hfree.look?_ne_folder n, h.clear.put_of_stays hstays hne hn,
    fun e he => ?_⟩
  obtain ⟨hfound, f, hnode, hread⟩ := h.shows e he
  refine ⟨hstays.place_find hstanding hfound ?_, f, ?_, hread⟩
  · rw [Disk.look?, hnode]
    split <;> simp
  · exact (Disk.node?_put_of_ne (hnew e he)).trans hnode

theorem takes_folder (p : Path) : Takes (Laid cwd root q files) p .folder := by
  intro m aim q' h hplace hfree
  refine h.put hplace hfree (by simp) ?_
  rintro e he rfl
  obtain ⟨-, f, hnode, -⟩ := h.shows e he
  rcases hfree with ⟨-, hnone⟩ | ⟨-, -, f, hf⟩
  · rw [Disk.look?, hnode] at hnone
    split at hnone <;> cases hnone
  · cases hf

theorem takes_file (hne : names ≠ []) (hnames : ∀ n ∈ names, Ordinary n)
    (hnew : names ∉ files.map Prod.fst) (f : File) :
    Takes (Laid cwd root q files) { root with segments := root.segments ++ names } (.file f) := by
  intro m aim q' h hplace hfree
  obtain rfl := h.clear.eq_append_of_place hne hnames hplace
  refine h.put hplace hfree (by simp) fun e he heq => hnew ?_
  rw [← List.append_cancel_left heq]
  exact List.mem_map_of_mem he

/-- What is written to other files below the root leaves the files as they are. -/
theorem keeps {α : Type} {act : Act α} {folder : Path → Prop}
    (h : WritesAt folder (fun p => ∃ names, New files names ∧
      p = { root with segments := root.segments ++ names }) act) :
    Keeps (Laid cwd root q files) act := by
  refine h.keeps_of_takes (fun p front _ _ => takes_folder _) ?_
  rintro p f ⟨names, hnew, rfl⟩
  exact takes_file hnew.ne_nil hnew.ordinary hnew.not_mem f

/-- Nothing depends on anything but what stands on the disk. -/
theorem congr (h : Laid cwd root q files m) (hsound : Sound cwd m')
    (hnode : ∀ p, m'.disk.node? p = m.disk.node? p) : Laid cwd root q files m' := by
  have hcwd : m'.cwd = m.cwd := by rw [hsound.cwd_eq, h.sound.cwd_eq]
  have hleads : Leads m' root q := by
    have := h.clear.leads.of_agree (d := m'.disk) fun p n hn _ => (hnode p).trans hn
    exact ⟨this.screened, hcwd ▸ this.route, this.stands⟩
  refine ⟨hsound, ⟨hleads, fun names target => hnode _ ▸ h.clear.plain names target⟩, fun e he => ?_⟩
  obtain ⟨hplace, hread⟩ := h.shows e he
  exact ⟨by rw [Disk.place_congr hnode, hcwd, hplace], hnode _ ▸ hread⟩

end Laid

/-! ## One file -/

theorem Shows.stat (h : Shows m root q e) (hne : e.1 ≠ []) (hnames : ∀ n ∈ e.1, Ordinary n) :
    ∃ f, m.disk.stat m.cwd { root with segments := root.segments ++ e.1 } = .ok (.file f) ∧
      readAs f = e.2 := by
  obtain ⟨f, hnode, hread⟩ := h.text
  exact ⟨f, Disk.stat_of_place h.place ((look?_append_of_ordinary hne hnames).trans hnode), hread⟩

theorem holdsText_of_stat {p : Path} {f : File} (h : m.disk.stat m.cwd p = .ok (.file f))
    (text : List Char) : holdsText p text m = .ok (readAs f == text) m := by
  rw [holdsText, bind_ok (Files.isFile_of_stat h), if_pos rfl,
    bind_ok (Files.readLenient_of_stat h)]
  rfl

/-- A file that reads as a text already is not changed. -/
theorem writeIfChanged_of_stat {p : Path} {f : File} (hstat : m.disk.stat m.cwd p = .ok (.file f))
    (hread : readAs f = text) : writeIfChanged p text m = .ok false m := by
  rw [writeIfChanged, bind_ok (holdsText_of_stat hstat text), hread, beq_self_eq_true, if_pos rfl]
  rfl

/-- What is not changed is not listed. -/
theorem writeAndList_of_unchanged {p : Path} (h : writeIfChanged p text m = .ok false m)
    (written : List String) : Project.writeAndList p text written (some root) m = .ok written m := by
  rw [Project.writeAndList, bind_ok h]
  rfl

/-- A text that is found below a folder without links is at the place that its names spell. -/
theorem shows_of_holdsText (h : Clear m root q) (hne : names ≠ []) (hnames : ∀ n ∈ names, Ordinary n)
    (hrun : holdsText { root with segments := root.segments ++ names } text m = .ok true m') :
    m' = m ∧ Shows m root q (names, text) := by
  have hsame := (keeps_holdsText _ text (P := (· = m))).ok rfl hrun
  obtain ⟨answer, m₁, hfile, -⟩ := exists_of_bind_ok hrun
  have hanswer : answer = true := by
    cases answer with
    | true => rfl
    | false =>
      rw [holdsText, bind_ok hfile] at hrun
      cases hrun
  subst hanswer
  obtain ⟨-, hfound⟩ := Files.isFile_cases hfile
  obtain ⟨q', f, hplace, hlook⟩ := hfound rfl
  obtain rfl := h.eq_append_of_place hne hnames hplace
  rw [look?_append_of_ordinary hne hnames] at hlook
  obtain ⟨-, f', hstat⟩ := Files.stat_of_isFile hfile
  have hf : f' = f := by
    rw [Disk.stat_of_place hplace ((look?_append_of_ordinary hne hnames).trans hlook)] at hstat
    cases hstat
    rfl
  rw [holdsText_of_stat hstat text] at hrun
  simp only [EStateM.Result.ok.injEq, beq_iff_eq] at hrun
  exact ⟨hsame, hplace, f, hlook, hf ▸ hrun.1⟩

namespace Laid

/-- Nothing is done to a file that reads as a text already. -/
theorem writeAndList_again (h : Laid cwd root q files m) (he : e ∈ files) (hpath : IsFilePath e.1)
    (written : List String) : Project.writeAndList { root with segments := root.segments ++ e.1 } e.2
      written (some root) m = .ok written m := by
  obtain ⟨f, hstat, hread⟩ := (h.shows e he).stat hpath.ne_nil hpath.ordinary
  exact writeAndList_of_unchanged (writeIfChanged_of_stat hstat hread) written

theorem keeps_writeAndList (hnew : New files names) (text : List Char) (written : List String) :
    Keeps (Laid cwd root q files) (Project.writeAndList
      { root with segments := root.segments ++ names } text written (some root)) :=
  have hwrites : WritesAt (fun _ => True) (fun p => ∃ names, New files names ∧
      p = { root with segments := root.segments ++ names }) (Project.writeAndList
        { root with segments := root.segments ++ names } text written (some root)) :=
    writesAt_writeAndList trivial ⟨names, hnew, rfl⟩ text written _
  keeps hwrites

theorem mono {files' : List (List String × List Char)} (h : Laid cwd root q files' m)
    (hfiles : files ⊆ files') : Laid cwd root q files m :=
  ⟨h.sound, h.clear, fun e he => h.shows e (hfiles he)⟩

theorem append (h : Laid cwd root q files m) (he : Shows m root q e) :
    Laid cwd root q (files ++ [e]) m := by
  refine ⟨h.sound, h.clear, fun e' he' => ?_⟩
  rcases List.mem_append.1 he' with he' | he'
  · exact h.shows e' he'
  · rwa [List.mem_singleton.1 he']

/-- A text that was written is found there, and one without carriage returns reads as it was. -/
theorem shows_of_writeText (h : Laid cwd root q files m) (hne : names ≠ [])
    (hnames : ∀ n ∈ names, Ordinary n)
    (hput : Files.writeText { root with segments := root.segments ++ names } text m = .ok () m') :
    ∃ t, Shows m' root q (names, t) ∧ ('\r' ∉ text → t = text) := by
  obtain ⟨q', f, hplace, hcontent, rfl, hcases⟩ := Files.writeText_cases hput
  obtain rfl := h.clear.eq_append_of_place hne hnames hplace
  have hfree : m.disk.Free .write (q ++ names) (.file f) := by
    refine .inr ⟨rfl, ?_, f, rfl⟩
    rcases hcases with ⟨f', hfile, -⟩ | ⟨hnone, -⟩
    · simp [hfile]
    · simp [hnone]
  have hplace' := hfree.place_find (h.sound.cwd_eq ▸ h.sound.stands) hplace (by simp)
  refine ⟨readAs f, ⟨hplace', f, Disk.node?_put_self (by simp [hne]), rfl⟩, fun htext => ?_⟩
  rw [readAs, hcontent, Text.unifyBreaks_decodeLenient htext]

/-- A file is there once a text was written somewhere new, and one without carriage returns reads as
that text. -/
theorem exists_of_writeAndList (h : Laid cwd root q files m) (hnew : New files names)
    (hrun : Project.writeAndList { root with segments := root.segments ++ names } text written
      (some root) m = .ok done m') :
    ∃ t, Laid cwd root q (files ++ [(names, t)]) m' ∧ ('\r' ∉ text → t = text) := by
  have h' := (keeps_writeAndList hnew text written).ok h hrun
  obtain ⟨changed, m₁, hwrite, hrest⟩ := exists_of_bind_ok hrun
  obtain rfl : m' = m₁ := by
    cases changed with
    | false =>
      cases hrest
      rfl
    | true =>
      have hlisted := (bind_ok (relative_append root hnew.ne_nil m₁) _).symm.trans hrest
      cases hlisted
      rfl
  obtain ⟨same, m₂, hholds, hlast⟩ := exists_of_bind_ok hwrite
  cases same with
  | true =>
    obtain ⟨rfl, hshows⟩ := shows_of_holdsText h.clear hnew.ne_nil hnew.ordinary hholds
    cases hlast
    exact ⟨text, h'.append hshows, fun _ => rfl⟩
  | false =>
    obtain rfl := (keeps_holdsText _ text (P := (· = m))).ok rfl hholds
    obtain ⟨_, m₃, hfolders, htexts⟩ := exists_of_bind_ok hlast
    obtain ⟨_, m₄, hput, hdone⟩ := exists_of_bind_ok htexts
    cases hdone
    have h₃ := (Files.keeps_makeFolders fun front _ => takes_folder _).ok h hfolders
    obtain ⟨t, hshows, ht⟩ := h₃.shows_of_writeText hnew.ne_nil hnew.ordinary hput
    exact ⟨t, h'.append hshows, ht⟩

theorem writeAndList (h : Laid cwd root q files m) (hnew : New files names) (htext : '\r' ∉ text)
    (hrun : Project.writeAndList { root with segments := root.segments ++ names } text written
      (some root) m = .ok done m') : Laid cwd root q (files ++ [(names, text)]) m' := by
  obtain ⟨t, h', ht⟩ := h.exists_of_writeAndList hnew hrun
  rwa [ht htext] at h'

/-- A file that is there gets another text or is left alone. -/
theorem exists_writeAndList_over (h : Laid cwd root q files m) {name : String}
    (hname : Ordinary name) (he : e ∈ files) (hnames : e.1 = [name]) (text : List Char)
    (written : List String) : ∃ done m', Project.writeAndList (root.child name) text written
        (some root) m = .ok done m' ∧ (done = written ∨ done = written ++ [Path.segmentText [name]]) ∧
      ∀ p, p ≠ q ++ [name] → m'.disk.node? p = m.disk.node? p := by
  have hshows := h.shows e he
  obtain ⟨f, hnode, -⟩ := hshows.text
  obtain ⟨f', hstat, -⟩ := hshows.stat (by simp [hnames]) (by simpa [hnames] using hname)
  have hplace := hshows.place
  rw [hnames] at hnode hstat hplace
  by_cases hread : readAs f' = text
  · exact ⟨written, m, writeAndList_of_unchanged (writeIfChanged_of_stat hstat hread) written, .inl rfl,
      fun p _ => rfl⟩
  · have hholds : holdsText (root.child name) text m = .ok false m := by
      rw [← beq_eq_false_iff_ne.2 hread]
      exact holdsText_of_stat hstat text
    obtain ⟨hfits, hclean, -⟩ := Files.exists_route_of_place hname hplace
    have hlook : m.disk.look? (q ++ [name]) = some (.file f) :=
      (Disk.look?_append hname).trans hnode
    have hroom := h.clear.leads.place_child_of_fits .write hname hclean hfits (h.clear.plain [name])
    obtain ⟨g, -, hwrite⟩ := Files.exists_writeText hroom (by simp [hlook]) (by simp [hlook]) text
    have hparent : (root.child name).parent = root := by
      simp [Path.child, Path.parent]
    have hchanged : writeIfChanged (root.child name) text m =
        .ok true { m with disk := m.disk.put (q ++ [name]) (.file g) } := by
      rw [writeIfChanged, bind_ok hholds, if_neg (by simp), hparent,
        bind_ok h.clear.leads.makeFolders, bind_ok hwrite]
      rfl
    refine ⟨written ++ [Path.segmentText [name]],
      { m with disk := m.disk.put (q ++ [name]) (.file g) }, ?_, .inr rfl, fun p hp =>
        Disk.node?_put_of_ne hp⟩
    rw [Project.writeAndList, bind_ok hchanged, if_pos rfl]
    exact bind_ok (relative_append root (List.cons_ne_nil name []) _) _

end Laid

/-- A path leads to nothing, or to something below which there are no links. -/
def Linkless (m : Machine) (p : Path) : Prop :=
  ∀ q, m.disk.place m.cwd .find p = .ok q →
    ∀ names target, m.disk.node? (q ++ names) ≠ some (.link target)

/-- A folder that is made, or was there and had no links in it. -/
theorem laid_of_makeFolders (hsound : Sound cwd m) (hdirect : Direct root) (hplain : Linkless m root)
    (hrun : Files.makeFolders root m = .ok () m') : ∃ q, Laid cwd root q [] m' := by
  have hsound' := (Files.keeps_makeFolders fun _ _ => Sound.takes _ _).ok hsound hrun
  obtain ⟨q, hmade⟩ := Files.makeFolders_made hsound.rooted hdirect hrun
  refine ⟨q, hsound', ⟨hmade.leads, fun names target hlink => ?_⟩, by simp⟩
  rcases hmade.grown.new _ _ hlink with hold | ⟨hnode, -⟩
  · rcases hmade.old_or_new with rfl | hnew
    · exact hplain q hmade.leads.place names target hold
    · have hbelow : m.disk.below q = [] := hsound.rooted.below_eq_nil (by simp [hnew])
      by_cases hne : names = []
      · rw [hne, List.append_nil, hnew] at hold
        cases hold
      · rw [Disk.below_eq_nil_iff.1 hbelow names hne] at hold
        cases hold
  · cases hnode

end Decompilation.Project
