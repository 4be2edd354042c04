import Decompilation.Proofs.Disk.Written
import Decompilation.Proofs.Table
import Decompilation.Runner.Locate

/-!
# One file is written

Where a file is put in the place of another one or of nothing, paths lead to where they led before
(`place_put_file`), and so to what was there, to that file or to nothing (`stat_put_file`).
-/

namespace Decompilation

namespace Disk

variable {d : Disk} {aim : Aim} {links : Nat} {here q cwd : Place} {names : List String} {f : File}
  {path : Path}

/-- A place of a name at which there is nothing or a file. -/
structure TakesFile (d : Disk) (q : Place) : Prop where
  stands : q.isGone = false
  ne_nil : q ≠ []
  file : ∀ n, d.node? q = some n → ∃ f, n = .file f

/-- Two walks end in the same way, or at two places where nothing is, one of them below a file. -/
def SameEnd (x y : Except Refusal Place) : Prop :=
  y = x ∨ x = .error .missing ∧ y = .error .notFolder

theorem put_put (d : Disk) (q : Place) (n n' : Node) : (d.put q n).put q n' = d.put q n' :=
  congrArg Disk.mk (Table.insert_insert _ _ _ _)

/-- Where there is room for a file there is nothing or a file. -/
theorem Free.takesFile (h : d.Free aim q (.file f)) (hcwd : d.Stands cwd)
    (hplace : d.place cwd aim path = .ok q) : d.TakesFile q := by
  obtain ⟨front, name, hvacancy⟩ := exists_name_of_place hcwd hplace h.look?_ne_folder
  obtain ⟨hq, hordinary, -, hplain⟩ := hvacancy
  have hlook : d.look? q = d.node? q := by rw [hq, look?_append hordinary]
  refine ⟨by rw [hq, isGone_append hordinary], by simp [hq], fun n hn => ?_⟩
  rcases h with ⟨-, hnone⟩ | ⟨haim, hfolder, -⟩
  · rw [hlook, hn] at hnone
    cases hnone
  · rw [hlook, hn] at hfolder
    cases n with
    | file g => exact ⟨g, rfl⟩
    | link target => exact absurd hn (hplain (by simp [haim]) target)
    | folder => exact absurd rfl hfolder

namespace TakesFile

theorem look?_put (h : d.TakesFile q) (p : Place) (f : File) :
    (d.put q (.file f)).look? p = if p = q then some (.file f) else d.look? p := by
  by_cases hp : p = q
  · rw [if_pos hp, hp, look?, if_neg (by simp [h.stands]), node?_put_self h.ne_nil]
  · rw [if_neg hp, look?, look?, node?_put_of_ne hp]

theorem not_folder (h : d.TakesFile q) : d.look? q ≠ some .folder := by
  rw [look?, if_neg (by simp [h.stands])]
  intro hfolder
  obtain ⟨f, hf⟩ := h.file _ hfolder
  cases hf

/-- No name leads on from where the file is put. -/
theorem sameEnd_beyond (h : d.TakesFile q)
    (follow' : Place → List String → Except Refusal Place) (names : List String) :
    SameEnd (if names.isEmpty then .ok q else .error .missing)
      (walkNames (d.put q (.file f)) aim follow' q names) := by
  cases names with
  | nil => exact .inl rfl
  | cons name names =>
    refine .inr ⟨rfl, ?_⟩
    rw [walkNames, h.look?_put, if_pos rfl]

theorem sameEnd_walkNames (h : d.TakesFile q)
    {follow follow' : Place → List String → Except Refusal Place}
    (hfollow : ∀ here names, SameEnd (follow here names) (follow' here names)) (here : Place)
    (names : List String) : SameEnd (walkNames d aim follow here names)
      (walkNames (d.put q (.file f)) aim follow' here names) := by
  induction names generalizing here with
  | nil => exact .inl rfl
  | cons name names ih =>
    by_cases hhere : here = q
    · have hleft : walkNames d aim follow here (name :: names) = .error .notFolder := by
        rw [walkNames]
        split
        · rename_i hfolder
          exact absurd (hhere ▸ hfolder) h.not_folder
        · rfl
      refine .inl ?_
      rw [hleft, walkNames, h.look?_put, if_pos hhere]
    rw [walkNames, walkNames, h.look?_put, if_neg hhere]
    split
    · split
      · exact ih here
      split
      · exact ih here.dropLast
      split
      · exact .inl rfl
      split
      · exact .inl rfl
      split
      · exact .inl rfl
      by_cases hnext : here ++ [name] = q
      · rw [hnext, node?_put_self h.ne_nil]
        cases hnode : d.node? q with
        | none => exact h.sameEnd_beyond follow' names
        | some n =>
          obtain ⟨g, rfl⟩ := h.file n hnode
          exact ih q
      · rw [node?_put_of_ne hnext]
        split
        · exact .inl rfl
        · split
          · exact .inl rfl
          · exact hfollow _ _
        · exact ih _
    · exact .inl rfl

theorem sameEnd_walk (h : d.TakesFile q) (links : Nat) (here : Place) (names : List String) :
    SameEnd (walk d aim links here names) (walk (d.put q (.file f)) aim links here names) := by
  induction links generalizing here names with
  | zero => exact h.sameEnd_walkNames (fun _ _ => .inl rfl) here names
  | succ links ih => exact h.sameEnd_walkNames ih here names

/-- A path leads to where it led. -/
theorem sameEnd_place (h : d.TakesFile q) (cwd : Place) (aim : Aim) (path : Path) :
    SameEnd (d.place cwd aim path) ((d.put q (.file f)).place cwd aim path) := by
  simp only [place, bind, Except.bind]
  cases screen path with
  | error r => exact .inl rfl
  | ok _ => exact h.sameEnd_walk linkLimit _ _

/-- What a path leads to is what it led to, or the file, or nothing as before. -/
theorem stat_put (h : d.TakesFile q) (cwd : Place) (path : Path) (f : File) :
    (d.put q (.file f)).stat cwd path = d.stat cwd path ∨
    d.place cwd .find path = .ok q ∧ (d.put q (.file f)).stat cwd path = .ok (.file f) ∨
    d.stat cwd path = .error .missing ∧ (d.put q (.file f)).stat cwd path = .error .notFolder := by
  have hend := h.sameEnd_place (f := f) cwd .find path
  cases hplace : d.place cwd .find path with
  | error r =>
    rw [hplace] at hend
    rw [stat_of_place_error hplace]
    rcases hend with hsame | ⟨hmissing, hbelow⟩
    · exact .inl (stat_of_place_error hsame)
    · cases hmissing
      exact .inr (.inr ⟨rfl, stat_of_place_error hbelow⟩)
  | ok p =>
    have hsame : (d.put q (.file f)).place cwd .find path = .ok p := by
      rw [hplace] at hend
      rcases hend with hsame | ⟨hmissing, -⟩
      · exact hsame
      · cases hmissing
    have hlook := h.look?_put p f
    by_cases hp : p = q
    · rw [if_pos hp] at hlook
      exact .inr (.inl ⟨by rw [hp], stat_of_place hsame hlook⟩)
    · rw [if_neg hp] at hlook
      refine .inl ?_
      cases hold : d.look? p with
      | none => rw [stat_of_place_none hplace hold, stat_of_place_none hsame (hlook.trans hold)]
      | some n => rw [stat_of_place hplace hold, stat_of_place hsame (hlook.trans hold)]

end TakesFile

end Disk

namespace Files.Wrote

variable {m m' : Machine} {p path : Path} {q : Place} {f : File} {text : List Char}

theorem takesFile (h : Wrote m m' p q f text) : m.disk.TakesFile q := by
  obtain ⟨front, name, rfl, hordinary⟩ := h.ordinary
  refine ⟨Disk.isGone_append hordinary, by simp, fun n hn => ?_⟩
  rcases h.replaced with ⟨g, hg, -⟩ | ⟨hnone, -⟩
  · rw [hg] at hn
    exact ⟨g, (Option.some.inj hn).symm⟩
  · rw [hnone] at hn
    cases hn

theorem stat_cases (h : Wrote m m' p q f text) (path : Path) :
    m'.disk.stat m'.cwd path = m.disk.stat m.cwd path ∨
    m.disk.place m.cwd .find path = .ok q ∧ m'.disk.stat m'.cwd path = .ok (.file f) ∨
    m.disk.stat m.cwd path = .error .missing ∧ m'.disk.stat m'.cwd path = .error .notFolder := by
  rw [h.only_disk]
  exact h.takesFile.stat_put m.cwd path f

/-- What was there is there still. -/
theorem exists_stat (h : Wrote m m' p q f text) {n : Node} (hn : m.disk.stat m.cwd path = .ok n) :
    ∃ n', m'.disk.stat m'.cwd path = .ok n' := by
  rcases h.stat_cases path with hsame | ⟨-, hfile⟩ | ⟨hmissing, -⟩
  · exact ⟨n, hsame.trans hn⟩
  · exact ⟨_, hfile⟩
  · rw [hn] at hmissing
    cases hmissing

/-- A text can be written there again. -/
theorem exists_writeText (h : Wrote m m' p q f text) {s : Machine} (hdisk : s.disk = m'.disk)
    (hcwd : s.cwd = m'.cwd) (text' : List Char) :
    ∃ d, writeText p text' s = .ok () { s with disk := d } := by
  have hplace : s.disk.place s.cwd .write p = .ok q := by
    rw [hdisk, hcwd, h.only_disk]
    rcases h.takesFile.sameEnd_place (f := f) m.cwd .write p with hsame | ⟨hmissing, -⟩
    · exact hsame.trans h.room
    · rw [h.room] at hmissing
      cases hmissing
  have hlook : s.disk.look? q = some (.file f) := by
    rw [hdisk, h.only_disk, h.takesFile.look?_put, if_pos rfl]
  obtain ⟨f', -, hwrite⟩ := Files.exists_writeText hplace (by simp [hlook]) (by simp [hlook]) text'
  exact ⟨_, hwrite⟩

/-- The same programs can be run. -/
theorem isRunnable_eq (h : Wrote m m' p q f text) (program : String) :
    Runner.isRunnable m' program = Runner.isRunnable m program := by
  unfold Runner.isRunnable
  rcases h.stat_cases (Path.ofString program) with hsame | ⟨hplace, hfile⟩ | ⟨hmissing, hbelow⟩
  · rw [hsame]
  · have hlook : m.disk.look? q = m.disk.node? q := by
      obtain ⟨front, name, rfl, hordinary⟩ := h.ordinary
      exact Disk.look?_append hordinary
    rw [hfile]
    rcases h.replaced with ⟨g, hg, hflag⟩ | ⟨hnone, hflag⟩
    · rw [Disk.stat_of_place hplace (hlook.trans hg)]
      exact hflag
    · rw [Disk.stat_of_place_none hplace (hlook.trans hnone)]
      exact hflag
  · rw [hmissing, hbelow]

end Files.Wrote

end Decompilation
