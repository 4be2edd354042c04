import Decompilation.Proofs.Runner.Host
import Decompilation.Proofs.Service.Jobs

/-!
# Documentation in a project

The documentation beside an assembly is copied into a project or left out without a trace
(`holds_writeDocumentation`).
-/

namespace Decompilation.Service

open Act (bind_ok bind_error exists_of_bind_ok)
open Disk (Ordinary)
open Files (Direct)
open Project (Added Holds IsFilePath IsName New)
open Runner (besides_cases exists_of_withSuffix)

variable {assembly root : Path} {m m' : Machine} {q : Place}
  {files : List (List String × List Char)} {done done' : Progress}

/-- The documentation beside an assembly as a file of a project, if it is a file with a text and the
system takes the path that it gets. -/
def documentation? (m : Machine) (assembly root : Path) : Option (List String × List Char) :=
  match assembly.withSuffix? ".xml" with
  | none => none
  | some p => match m.disk.stat m.cwd p with
    | .ok (.file f) => match Text.Utf8.decode f.content with
      | .ok text =>
        if ((root / "Docs").child p.name).toString.utf8ByteSize < Disk.pathLimit then
          some (["Docs", p.name], Text.unifyBreaks text)
        else none
      | .error _ => none
    | _ => none

theorem ordinary_xml (s : String) : Ordinary (s ++ ".xml") := by
  apply Project.ordinary_of_length
  rw [String.toList_append, List.length_append]
  exact Nat.le_add_left_of_le (by decide)

theorem name_xml {p : Path} {s : String} (hp : p = assembly.parent.child (s ++ ".xml")) :
    p.name = s ++ ".xml" := by
  rw [hp]
  simp [Path.child, Path.name]

theorem isName_docs : IsName "Docs" := ⟨Project.ordinary_of_length (by decide), by decide, by decide⟩

theorem div_docs (root : Path) : root / "Docs" = root.child "Docs" :=
  Project.div_eq_child root (by decide) isName_docs.ordinary

/-- The system takes the name of a documentation that is there. -/
theorem isName_of_stat {p : Path} {n : Node} (hp : assembly.withSuffix? ".xml" = some p)
    (hstat : m.disk.stat m.cwd p = .ok n) : IsName p.name := by
  obtain ⟨s, hs⟩ := exists_of_withSuffix hp
  have hplace : ∃ q, m.disk.place m.cwd .find p = .ok q := by
    cases hplace : m.disk.place m.cwd .find p with
    | ok q => exact ⟨q, rfl⟩
    | error r =>
      rw [Disk.stat, hplace] at hstat
      cases hstat
  obtain ⟨q, hplace⟩ := hplace
  rw [hs] at hplace
  obtain ⟨hfits, hclean, -⟩ := Files.exists_route_of_place (ordinary_xml s) hplace
  rw [name_xml hs]
  exact ⟨ordinary_xml s, hclean, hfits.name_le⟩

/-- Documentation is written to a project that has none, if the system takes its path. -/
theorem exists_writeBelow_docs {name : String} (done : Progress) (h : Holds m root q files)
    (hroot : Direct root) (hname : IsName name) (hdot : '.' ∈ name.toList)
    (hnew : ["Docs", name] ∉ files.map Prod.fst) (hfolder : ["Docs"] ∉ files.map Prod.fst)
    (hlen : ((root / "Docs").child name).toString.utf8ByteSize < Disk.pathLimit) (text : List Char) :
    ∃ done' m', writeBelow root ((root / "Docs").child name) text done m = .ok done' m' := by
  rw [div_docs] at hlen ⊢
  obtain ⟨written, m', hwrite⟩ := Project.exists_writeAndList h.clear isName_docs hname hroot.anchored
    (h.not_blocked hdot hnew hfolder hlen) text done.written
  exact ⟨_, m', bind_ok hwrite _⟩

theorem writeBelow_docs_of_long {name : String} (done : Progress) (h : Holds m root q files)
    (hroot : Direct root) (hname : IsName name)
    (hlen : ¬ ((root / "Docs").child name).toString.utf8ByteSize < Disk.pathLimit)
    (text : List Char) : ∃ f : Fault, f.isRefusal = true ∧
      writeBelow root ((root / "Docs").child name) text done m = .error f m := by
  rw [div_docs] at hlen ⊢
  obtain ⟨f, hrefusal, hwrite⟩ := Project.writeAndList_of_blocked h.clear isName_docs hname
    hroot.anchored h.rooted (.long (Nat.le_of_not_lt hlen)) text done.written
  exact ⟨f, hrefusal, bind_error hwrite _⟩

theorem docs_eq (root : Path) (name : String) : (root / "Docs").child name =
    { root with segments := root.segments ++ ["Docs", name] } := by
  rw [div_docs, Project.child_child_eq]

theorem isTolerable_of_isRefusal {f : Fault} (h : f.isRefusal = true) : isTolerable f = true := by
  unfold isTolerable
  split
  · rfl
  · exact h

theorem documentation?_of_file {p : Path} {f : File} (root : Path)
    (hp : assembly.withSuffix? ".xml" = some p)
    (hstat : m.disk.stat m.cwd p = .ok (.file f)) : documentation? m assembly root =
      match Text.Utf8.decode f.content with
      | .ok text =>
        if ((root / "Docs").child p.name).toString.utf8ByteSize < Disk.pathLimit then
          some (["Docs", p.name], Text.unifyBreaks text)
        else none
      | .error _ => none := by
  simp only [documentation?, hp, hstat]

theorem documentation?_of_not_file {p : Path} (hp : assembly.withSuffix? ".xml" = some p)
    (hstat : ∀ f, m.disk.stat m.cwd p ≠ .ok (.file f)) : documentation? m assembly root = none := by
  simp only [documentation?, hp]

theorem exists_of_documentation? {e : List String × List Char}
    (h : documentation? m assembly root = some e) : ∃ s text, e = (["Docs", s ++ ".xml"], text) := by
  cases hp : assembly.withSuffix? ".xml" with
  | none =>
    simp only [documentation?, hp] at h
    cases h
  | some p =>
    by_cases hstat : ∃ f, m.disk.stat m.cwd p = .ok (.file f)
    · obtain ⟨f, hstat⟩ := hstat
      obtain ⟨s, hname⟩ := exists_of_withSuffix hp
      rw [documentation?_of_file root hp hstat, name_xml hname] at h
      split at h
      · split at h
        · cases h
          exact ⟨s, _, rfl⟩
        · cases h
      · cases h
    · rw [documentation?_of_not_file hp fun f hf => hstat ⟨f, hf⟩] at h
      cases h

theorem isFilePath_docs (s : String) : IsFilePath ["Docs", s ++ ".xml"] where
  ne_nil := by simp
  ordinary n hn := by
    simp only [List.mem_cons, List.not_mem_nil, or_false] at hn
    rcases hn with rfl | rfl
    · exact Project.ordinary_of_length (by decide)
    · exact ordinary_xml s
  plain n hn := by
    obtain rfl : n = "Docs" := by simpa using hn
    decide

theorem writeDocumentation_eq {p : Path} (hp : assembly.withSuffix? ".xml" = some p) (root : Path)
    (done : Progress) : writeDocumentation assembly root done = (do
      if ← Files.isFile p then
        Act.orElse
          (do
            let text ← Files.readText p
            writeBelow root ((root / "Docs").child p.name) text done)
          fun f => if isTolerable f then return done else throw f
      else return done) := by
  simp only [writeDocumentation, Runner.besides, hp, pure_bind]

/-- Documentation that is no text is left out, and else what is wrong with its copy may be
tolerated. -/
theorem writeDocumentation_of_file (root : Path) (done : Progress) {p : Path} {f : File}
    (hp : assembly.withSuffix? ".xml" = some p) (hstat : m.disk.stat m.cwd p = .ok (.file f)) :
    writeDocumentation assembly root done m = match Text.Utf8.decode f.content with
      | .error _ => .ok done m
      | .ok text => Act.orElse
          (writeBelow root ((root / "Docs").child p.name) (Text.unifyBreaks text) done)
          (fun f => if isTolerable f then return done else throw f) m := by
  have hread := Files.readText_of_stat hstat
  rw [writeDocumentation_eq hp, bind_ok (Files.isFile_of_stat hstat), if_pos rfl]
  cases hdecode : Text.Utf8.decode f.content with
  | error fault =>
    rw [hdecode] at hread
    exact Act.orElse_of_error (bind_error hread _) _
  | ok text =>
    rw [hdecode] at hread
    simp only [Act.orElse, bind_ok hread]

/-- What is no file is left out. -/
theorem writeDocumentation_of_not_file {p : Path} (hp : assembly.withSuffix? ".xml" = some p)
    (hfile : ¬ ∃ f, m.disk.stat m.cwd p = .ok (.file f))
    (hrun : writeDocumentation assembly root done m = .ok done' m') :
    done' = done ∧ m' = m ∧ Files.isFile p m = .ok false m := by
  rw [writeDocumentation_eq hp] at hrun
  obtain ⟨answer, m₁, hanswer, hrest⟩ := exists_of_bind_ok hrun
  cases answer with
  | true => exact absurd (Files.stat_of_isFile hanswer).2 hfile
  | false =>
    obtain ⟨rfl, -⟩ := Files.isFile_cases hanswer
    cases hrest
    exact ⟨rfl, rfl, hanswer⟩

theorem orElse_tolerable {act : Act Progress} {f : Fault} (h : act m = .error f m)
    (hrefusal : f.isRefusal = true) (done : Progress) :
    Act.orElse act (fun f => if isTolerable f then return done else throw f) m = .ok done m := by
  rw [Act.orElse_of_error h, if_pos (isTolerable_of_isRefusal hrefusal)]
  rfl

/-- A documentation that is there is written to a project that has none if it is a text and the system
takes its path. -/
theorem holds_writeDocumentation_of_file {p : Path} {f : File} (h : Holds m root q files)
    (hroot : Direct root) (hfolder : ["Docs"] ∉ files.map Prod.fst)
    (hnew : ∀ s, ["Docs", s ++ ".xml"] ∉ files.map Prod.fst)
    (hp : assembly.withSuffix? ".xml" = some p) (hstat : m.disk.stat m.cwd p = .ok (.file f))
    (hrun : writeDocumentation assembly root done m = .ok done' m') :
    let added := (documentation? m assembly root).toList
    done' = { done with written := done.written ++ added.map fun e => Path.segmentText e.1 } ∧
      Holds m' root q (files ++ added) ∧ Added m m' q := by
  obtain ⟨s, hs⟩ := exists_of_withSuffix hp
  have hname := isName_of_stat hp hstat
  rw [documentation?_of_file root hp hstat]
  rw [writeDocumentation_of_file root done hp hstat] at hrun
  cases hdecode : Text.Utf8.decode f.content with
  | error fault =>
    rw [hdecode] at hrun
    cases hrun
    simpa using ⟨h, Added.refl _ q⟩
  | ok text =>
    rw [hdecode] at hrun
    dsimp only at hrun ⊢
    by_cases hlen : ((root / "Docs").child p.name).toString.utf8ByteSize < Disk.pathLimit
    · have hdot : '.' ∈ p.name.toList := by
        rw [name_xml hs, String.toList_append]
        exact List.mem_append_right _ (by decide)
      have hnew' : New files ["Docs", p.name] := by
        rw [name_xml hs]
        exact ⟨isFilePath_docs s, hnew s⟩
      obtain ⟨done₁, m₁, hwrite⟩ := exists_writeBelow_docs done h hroot hname hdot hnew'.not_mem
        hfolder hlen (Text.unifyBreaks text)
      rw [Act.orElse_of_ok hwrite] at hrun
      cases hrun
      rw [docs_eq] at hwrite
      rw [if_pos hlen]
      exact holds_writeBelow h hroot hnew' hwrite
    · obtain ⟨fault, hrefusal, hlong⟩ :=
        writeBelow_docs_of_long done h hroot hname hlen (Text.unifyBreaks text)
      rw [orElse_tolerable hlong hrefusal] at hrun
      cases hrun
      rw [if_neg hlen]
      simpa using ⟨h, Added.refl _ q⟩

/-- The documentation is written as it should be, or it is left out without a trace. -/
theorem holds_writeDocumentation (h : Holds m root q files) (hroot : Direct root)
    (hfolder : ["Docs"] ∉ files.map Prod.fst)
    (hnew : ∀ s, ["Docs", s ++ ".xml"] ∉ files.map Prod.fst)
    (hrun : writeDocumentation assembly root done m = .ok done' m') :
    let added := (documentation? m assembly root).toList
    done' = { done with written := done.written ++ added.map fun e => Path.segmentText e.1 } ∧
      Holds m' root q (files ++ added) ∧ Added m m' q := by
  obtain ⟨p, m₁, hbesides, -⟩ := exists_of_bind_ok hrun
  obtain ⟨hp, -⟩ := besides_cases hbesides
  by_cases hfile : ∃ f, m.disk.stat m.cwd p = .ok (.file f)
  · obtain ⟨f, hstat⟩ := hfile
    exact holds_writeDocumentation_of_file h hroot hfolder hnew hp hstat hrun
  · obtain ⟨rfl, rfl, -⟩ := writeDocumentation_of_not_file hp hfile hrun
    rw [documentation?_of_not_file hp fun f hf => hfile ⟨f, hf⟩]
    simpa using ⟨h, Added.refl _ q⟩

end Decompilation.Service
