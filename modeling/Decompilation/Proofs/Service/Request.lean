import Decompilation.Proofs.Disk.Folders
import Decompilation.Proofs.Disk.Links
import Decompilation.Proofs.Runner.Search
import Decompilation.Service.Request

/-!
# Paths in requests

The paths of assemblies and output folders are found without a change to the machine
(`keeps_assemblyPath`, `outputFolder_cases`), and those of folders start at the root and go nowhere but
down (`direct_of_resolve`).
-/

namespace Decompilation.Service

open Act (Keeps bind_ok exists_of_bind_ok)
open Disk (Ordinary)
open Files (Direct)
open Json (Value)

variable {root : Path} {m m' : Machine} {cwd : Place} {P : Machine → Prop}

theorem ordinary_foldNames {here : Place} {names : List String} (h : ∀ n ∈ here, Ordinary n) :
    ∀ n ∈ Disk.foldNames here names, Ordinary n := by
  unfold Disk.foldNames
  induction names generalizing here with
  | nil => exact h
  | cons name names ih =>
    rw [List.foldl_cons]
    apply ih
    split
    · exact h
    · rename_i hsame
      split
      · exact fun n hn => h n (List.dropLast_subset _ hn)
      · rename_i hup
        intro n hn
        rcases List.mem_append.1 hn with hn | hn
        · exact h n hn
        · rw [List.mem_singleton.1 hn]
          exact ⟨hsame, hup⟩

theorem direct_of_resolve {p : Path} (h : Sound cwd m) (hp : m.disk.resolve m.cwd p = .ok root) :
    Direct root := by
  unfold Disk.resolve at hp
  cases hspell : m.disk.spellOut m.cwd (Disk.linkLimit * (m.disk.linkCount + 1)) Table.empty
      ⟨if p.isAnchored then .root else .here, []⟩ p.segments with
  | error r =>
    rw [hspell] at hp
    cases hp
  | ok t =>
    rw [hspell] at hp
    simp only [bind, Except.bind] at hp
    split at hp
    · rename_i hanchor
      cases hp
      exact ⟨hanchor, ordinary_foldNames (by simp)⟩
    · split at hp
      · cases hp
      · rename_i hgone
        cases hp
        rw [h.cwd_eq] at hgone ⊢
        exact ⟨rfl, ordinary_foldNames (h.placed.resolve_left hgone)⟩

theorem spelledOut_cases {p : Path} (h : spelledOut p m = .ok root m') :
    m' = m ∧ m.disk.resolve m.cwd p = .ok root := by
  rw [spelledOut, bind_ok (Act.get_eq m)] at h
  cases hresolve : m.disk.resolve m.cwd p with
  | error r =>
    rw [hresolve] at h
    cases h
  | ok q =>
    rw [hresolve] at h
    have hdisk : Act.ofDisk (.refused · []) (.ok q) m = .ok q m := rfl
    have hok := (bind_ok hdisk _).symm.trans h
    cases hstat : m.disk.stat m.cwd q with
    | ok n =>
      rw [hstat] at hok
      cases hok
      exact ⟨rfl, rfl⟩
    | error r =>
      rw [hstat] at hok
      cases r <;> cases hok <;> exact ⟨rfl, rfl⟩

theorem keeps_pathText (name expected : String) (given : Value) :
    Keeps P (pathText name expected given) := by
  unfold pathText
  split
  · exact .throw _
  · split
    · split
      · exact .throw _
      · exact .pure _
    · exact .throw _

theorem keeps_spelledOut (p : Path) : Keeps P (spelledOut p) := by
  refine .bind .get fun m => (Keeps.ofDisk _ _).bind fun q => ?_
  split
  · exact .throw _
  · exact .throw _
  · exact .pure _

theorem keeps_meant (s : String) : Keeps P (meant s) :=
  (Runner.keeps_expandHome _).bind fun _ => keeps_spelledOut _

theorem keeps_assemblyPath (given maxSize : Value) : Keeps P (assemblyPath given maxSize) := by
  refine (keeps_pathText _ _ given).bind fun s =>
    ((keeps_meant s).orElse fun f => .throw _).bind fun p => (Files.keeps_lookUp? p).bind fun n => ?_
  split
  · refine (Keeps.isAbove _ maxSize).bind fun above => ?_
    split
    · exact .throw _
    · exact .pure _
  · exact .throw _

/-- The root of a project is found without a change to the machine. -/
theorem outputFolder_cases {output : Value} (h : outputFolder output m = .ok root m') :
    m' = m ∧ ∃ p, m.disk.resolve m.cwd p = .ok root := by
  rw [outputFolder] at h
  obtain ⟨s, m₁, htext, hrest⟩ := exists_of_bind_ok h
  obtain rfl : m₁ = m := (keeps_pathText _ _ _ (P := (· = m))).ok rfl htext
  obtain ⟨p, m₂, hmeant, hfound⟩ := exists_of_bind_ok hrest
  rw [meant] at hmeant
  obtain ⟨p', m₃, hhome, hspelled⟩ := exists_of_bind_ok hmeant
  obtain rfl : m₃ = m₁ := (Runner.keeps_expandHome _ (P := (· = m₁))).ok rfl hhome
  obtain ⟨rfl, hresolve⟩ := spelledOut_cases hspelled
  obtain ⟨n, m₄, hlook, hlast⟩ := exists_of_bind_ok hfound
  obtain ⟨rfl, -⟩ := Files.lookUp?_cases hlook
  split at hlast
  · cases hlast
  · cases hlast
    exact ⟨rfl, p', hresolve⟩

/-- The path of an assembly leads to a file. -/
theorem stat_of_assemblyPath {given maxSize : Value} {p : Path}
    (h : assemblyPath given maxSize m = .ok p m') : ∃ f, m.disk.stat m.cwd p = .ok (.file f) := by
  obtain ⟨s, m₁, htext, hrest⟩ := exists_of_bind_ok h
  obtain rfl : m₁ = m := (keeps_pathText _ _ _ (P := (· = m))).ok rfl htext
  obtain ⟨p', m₂, hmeant, hfound⟩ := exists_of_bind_ok hrest
  obtain rfl : m₂ = m₁ :=
    ((keeps_meant s).orElse fun f => .throw _ (P := (· = m₁))).ok rfl hmeant
  obtain ⟨n, m₃, hlook, hlast⟩ := exists_of_bind_ok hfound
  obtain ⟨rfl, hthere⟩ := Files.lookUp?_cases hlook
  split at hlast
  · rename_i f
    obtain ⟨q, hplace, hnode⟩ := hthere _ rfl
    obtain ⟨above, m₄, -, hsize⟩ := exists_of_bind_ok hlast
    split at hsize
    · cases hsize
    · cases hsize
      exact ⟨f, Disk.stat_of_place hplace hnode⟩
  · cases hlast

/-! ## Requests made again -/

/-- Whether the text of a path is taken depends on no machine. -/
theorem agrees_pathText (name expected : String) (given : Value) (m m₁ : Machine) :
    Act.Agrees (pathText name expected given) m m₁ := by
  unfold pathText
  split
  · exact .throw _
  · split
    · split
      · exact .throw _
      · exact .pure _
    · exact .throw _

/-- A folder that was accepted is accepted again where it is there and the links are the same. -/
theorem outputFolder_again {output : Value} {m₁ : Machine} {q : Place}
    (h : outputFolder output m = .ok root m') (hcwd : m₁.cwd = m.cwd)
    (henvironment : m₁.environment = m.environment) (hhomes : m₁.homes = m.homes)
    (hlinks : m.disk.SameLinks m₁.disk) (hleads : Files.Leads m₁ root q) :
    outputFolder output m₁ = .ok root m₁ := by
  rw [outputFolder] at h ⊢
  obtain ⟨s, m₂, htext, hrest⟩ := exists_of_bind_ok h
  obtain ⟨rfl, htext'⟩ := (agrees_pathText _ _ _ m m₁).ok htext
  obtain ⟨p, m₃, hmeant, hfound⟩ := exists_of_bind_ok hrest
  obtain ⟨p', m₄, hhome, hspelled⟩ := exists_of_bind_ok hmeant
  obtain ⟨rfl, hhome'⟩ := (Runner.agrees_expandHome henvironment hhomes _).ok hhome
  obtain ⟨rfl, hresolve⟩ := spelledOut_cases hspelled
  have hroot : p = root := by
    obtain ⟨n, m₅, -, hlast⟩ := exists_of_bind_ok hfound
    split at hlast
    · cases hlast
    · cases hlast
      rfl
  subst hroot
  have hspelled' : spelledOut p' m₁ = .ok p m₁ := by
    have hsame : m₁.disk.resolve m₁.cwd p' = .ok p := by
      rw [hcwd, ← hlinks.resolve_eq, hresolve]
    rw [spelledOut, bind_ok (Act.get_eq m₁), hsame]
    have hdisk : Act.ofDisk (.refused · []) (.ok p) m₁ = .ok p m₁ := rfl
    rw [bind_ok hdisk, hleads.stat]
    rfl
  have hmeant' : meant s m₁ = .ok p m₁ := (bind_ok hhome' _).trans hspelled'
  have hlook : Files.lookUp? p m₁ = .ok (some .folder) m₁ := by
    rw [Files.lookUp?, bind_ok (Act.get_eq m₁), hleads.stat]
    rfl
  rw [bind_ok htext', bind_ok hmeant', bind_ok hlook]
  rfl

end Decompilation.Service
