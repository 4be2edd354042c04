import Decompilation.Proofs.Project.Rewrite
import Decompilation.Proofs.Service.Project

/-!
# The files of a project written again

A project whose sources have been laid out, over whatever was there, has the files of all its units
(`laid_laySources`), and none of them is written again (`laySources_again`). Its documentation is not
written again either, whether it could be written or not (`laid_layDocuments`).
-/

namespace Decompilation.Service

open Act (Keeps bind_ok bind_error exists_of_bind_ok)
open Files (Direct)
open Json (Value)
open Project (Blocked IsFilePath IsName Laid Linkless New)
open Runner (besides_cases exists_of_withSuffix)
open Source (divide)

variable {cwd q : Place} {assembly root p : Path} {m m' : Machine} {text : List Char}
  {files : List (List String × List Char)} {done done' : Progress} {names : List String} {j : Job}
  {js : List Job}

/-! ## Texts without carriage returns -/

theorem return_not_mem_of_mem_projectJobs (htext : '\r' ∉ text) (hj : j ∈ projectJobs (divide text)) :
    '\r' ∉ j.text := by
  have hnew : ∀ {c : Char}, c ∈ text ∨ c = '\n' → c ≠ '\r' := by
    rintro c (hc | rfl)
    · rintro rfl
      exact htext hc
    · decide
  obtain ⟨⟨n, body⟩, hu, hj⟩ := List.mem_flatMap.1 hj
  have hn : n ∈ (divide text).units.keys := List.mem_map_of_mem hu
  have hbody : ∀ c ∈ body, c ≠ '\r' := fun c hc => hnew (Source.mem_of_mem_unit hu hc)
  unfold unitJobs jobs at hj
  cases htypes : (Source.splitTypes body).toList with
  | nil =>
    simp only [htypes, List.mem_singleton] at hj
    rw [hj]
    exact Source.return_not_mem_renderUnit hn fun hc => hbody _ hc rfl
  | cons t types =>
    simp only [htypes] at hj
    obtain ⟨⟨name, code⟩, ht, rfl⟩ := List.mem_map.1 hj
    refine Source.return_not_mem_renderUnit hn fun hc => ?_
    rcases Source.mem_of_mem_splitTypes (htypes ▸ ht) hc with hc | hc
    · exact hbody _ hc rfl
    · exact absurd hc (by decide)

/-- The text that is divided has newlines for all line ends. -/
theorem exists_text_of_divide {r : Runner} {s : Subject} {d : Source.Division}
    (h : decompileAndDivide r s m = .ok d m') : ∃ text, d = divide text ∧ '\r' ∉ text := by
  obtain ⟨texts, htexts, rfl⟩ := sourceTexts_of_decompileAndDivide h
  refine ⟨_, rfl, fun hc => ?_⟩
  rcases Text.mem_joinWith hc with hc | ⟨t, ht, hc⟩
  · exact absurd hc (by decide)
  obtain ⟨assembly, m₁, -, hscratch⟩ := exists_of_bind_ok htexts
  obtain ⟨folder, place, m₂, m₃, -, hact, -⟩ := Files.withScratch_ok hscratch
  obtain ⟨_, m₄, -, hrest⟩ := exists_of_bind_ok hact
  obtain ⟨files, m₅, -, hread⟩ := exists_of_bind_ok hrest
  exact Runner.return_not_mem_of_readAll hread t ht hc

/-! ## Sources -/

theorem laid_writeBelow (h : Laid cwd root q files m) (hnew : New files names) (htext : '\r' ∉ text)
    (hrun : writeBelow root { root with segments := root.segments ++ names } text done m =
      .ok done' m') : Laid cwd root q (files ++ [(names, text)]) m' := by
  obtain ⟨written, m₁, hwrite, hdone⟩ := exists_of_bind_ok hrun
  cases hdone
  exact h.writeAndList hnew htext hwrite

theorem writeBelow_again {e : List String × List Char} (h : Laid cwd root q files m) (he : e ∈ files)
    (hpath : IsFilePath e.1) (done : Progress) :
    writeBelow root { root with segments := root.segments ++ e.1 } e.2 done m = .ok done m :=
  bind_ok (h.writeAndList_again he hpath done.written) _

theorem laid_runJob (h : Laid cwd root q files m) (hnew : New files j.path.segments)
    (htext : '\r' ∉ j.text) (hrun : runJob root done (under root j) m = .ok done' m') :
    Laid cwd root q (files ++ [j.file]) m' := by
  rw [runJob_under hnew.ne_nil] at hrun
  obtain ⟨done₁, m₁, hwrite, hlast⟩ := exists_of_bind_ok hrun
  cases hlast
  exact laid_writeBelow h hnew htext hwrite

theorem runJob_again (h : Laid cwd root q files m) (hj : j.file ∈ files)
    (hpath : IsFilePath j.path.segments) (done : Progress) :
    runJob root done (under root j) m = .ok { done with types := done.types ++ j.place?.toList } m := by
  rw [runJob_under hpath.ne_nil]
  exact bind_ok (writeBelow_again h hj hpath done) _

/-- Jobs that are done one after the other, each for a new file. -/
theorem laid_runJobs (h : Laid cwd root q files m)
    (hpaths : ∀ j ∈ js, IsFilePath j.path.segments) (htexts : ∀ j ∈ js, '\r' ∉ j.text)
    (hnodup : ((files ++ js.map Job.file).map Prod.fst).Nodup)
    (hrun : (js.map (under root)).foldlM (runJob root) done m = .ok done' m') :
    Laid cwd root q (files ++ js.map Job.file) m' := by
  induction js generalizing m files done with
  | nil =>
    cases hrun
    simpa using h
  | cons j js ih =>
    rw [List.map_cons, List.foldlM_cons] at hrun
    obtain ⟨done₁, m₁, hjob, hrest⟩ := exists_of_bind_ok hrun
    rw [List.forall_mem_cons] at hpaths htexts
    have h₁ := laid_runJob h (new_of_nodup hpaths.1 hnodup) htexts.1 hjob
    rw [List.map_cons, List.append_cons] at hnodup ⊢
    exact ih h₁ hpaths.2 htexts.2 hnodup hrest

theorem runJobs_again (h : Laid cwd root q files m) (hjs : ∀ j ∈ js, j.file ∈ files)
    (hpaths : ∀ j ∈ js, IsFilePath j.path.segments) (done : Progress) :
    (js.map (under root)).foldlM (runJob root) done m =
      .ok { done with types := done.types ++ js.filterMap Job.place? } m := by
  induction js generalizing done with
  | nil =>
    simp only [List.map_nil, List.filterMap_nil, List.append_nil]
    rfl
  | cons j js ih =>
    rw [List.forall_mem_cons] at hjs hpaths
    rw [List.map_cons, List.foldlM_cons, bind_ok (runJob_again h hjs.1 hpaths.1 done),
      ih hjs.2 hpaths.2]
    cases hplace : j.place? <;> simp [hplace]

theorem return_not_mem_projectFile : '\r' ∉ Project.projectFile.toList := by
  delta Project.projectFile
  simp only [String.toList_append, List.mem_append, not_or]
  decide +kernel

/-- The sources of a project are laid out over whatever was there, each in a file of its own. -/
theorem laid_laySources (hsound : Sound cwd m) (hdirect : Direct root) (hplain : Linkless m root)
    (htext : '\r' ∉ text) (hdiffer : FoldersDiffer root (divide text).units)
    (hrun : laySources (divide text) root m = .ok done m') :
    ∃ q, Laid cwd root q (sourceFiles (divide text)) m' := by
  rw [laySources] at hrun
  obtain ⟨_, m₁, hfolders, hrest⟩ := exists_of_bind_ok hrun
  obtain ⟨q, h₁⟩ := Project.laid_of_makeFolders hsound hdirect hplain hfolders
  obtain ⟨done₂, m₂, hfile, hunits⟩ := exists_of_bind_ok hrest
  rw [div_single root (by decide) (by decide)] at hfile
  have h₂ := laid_writeBelow h₁ ⟨isFilePath_single (by decide), by simp⟩ return_not_mem_projectFile
    hfile
  rw [writeUnitList_eq, flatMap_jobs_eq] at hunits
  exact ⟨q, laid_runJobs h₂ (fun j hj => (exists_of_mem_projectJobs hj).1)
    (fun j hj => return_not_mem_of_mem_projectJobs htext hj) (nodup_sourceFiles hdiffer) hunits⟩

/-- None of the sources of a project is written again. -/
theorem laySources_again (h : Laid cwd root q files m) (hfiles : sourceFiles (divide text) ⊆ files) :
    ∃ types, laySources (divide text) root m = .ok ⟨[], types⟩ m := by
  obtain ⟨hproject, hjobs⟩ := List.cons_subset.1 hfiles
  have hfile := writeBelow_again h hproject (isFilePath_single (by decide)) ⟨[], []⟩
  rw [← div_single root (by decide) (by decide)] at hfile
  have hunits := runJobs_again h (fun j hj => hjobs (List.mem_map_of_mem hj))
    (fun j hj => (exists_of_mem_projectJobs hj).1) ⟨[], []⟩
  rw [← flatMap_jobs_eq, ← writeUnitList_eq] at hunits
  rw [laySources, bind_ok h.clear.leads.makeFolders, bind_ok hfile, hunits]
  exact ⟨_, rfl⟩

/-! ## Documentation -/

/-- An attempt at a file in a folder of its own: the file is there then, or something is in its way and
nothing is done. -/
theorem laid_writeBelow_docs {name : String} (h : Laid cwd root q files m)
    (hroot : root.isAnchored = true) (hname : IsName name) (hnew : New files ["Docs", name])
    (htext : '\r' ∉ text) (done : Progress) :
    (∃ done' m', writeBelow root ((root / "Docs").child name) text done m = .ok done' m' ∧
      Laid cwd root q (files ++ [(["Docs", name], text)]) m') ∨
    Blocked m.disk root q "Docs" name := by
  by_cases hblocked : Blocked m.disk root q "Docs" name
  · exact .inr hblocked
  obtain ⟨written, m', hwrite⟩ :=
    Project.exists_writeAndList h.clear isName_docs hname hroot hblocked text done.written
  rw [Project.child_child_eq] at hwrite
  rw [docs_eq]
  exact .inl ⟨_, m', bind_ok hwrite _, h.writeAndList hnew htext hwrite⟩

theorem writeBelow_docs_of_blocked {name : String} (h : Laid cwd root q files m)
    (hroot : root.isAnchored = true) (hname : IsName name)
    (hblocked : Blocked m.disk root q "Docs" name) (text : List Char) (done : Progress) :
    ∃ f : Fault, f.isRefusal = true ∧
      writeBelow root ((root / "Docs").child name) text done m = .error f m := by
  obtain ⟨f, hrefusal, hwrite⟩ := Project.writeAndList_of_blocked h.clear isName_docs hname hroot
    h.sound.rooted hblocked text done.written
  rw [div_docs]
  exact ⟨f, hrefusal, bind_error hwrite _⟩

/-- What documentation has added to the files of a project. To lay it out once more does nothing on any
machine on which at least as much stands and the documentation is the same. -/
structure LaidDocuments (cwd q : Place) (assembly root : Path) (lay : Progress → Act Progress)
    (m m' : Machine) (files added : List (List String × List Char)) : Prop where
  laid : Laid cwd root q (files ++ added) m'
  ends : ∀ e ∈ added, lastChar e = some 'l'
  again : ∀ m₂ done, Laid cwd root q (files ++ added) m₂ → m'.disk.Stays m₂.disk →
    (∀ p, assembly.withSuffix? ".xml" = some p → m₂.disk.stat m₂.cwd p = m.disk.stat m.cwd p) →
    lay done m₂ = .ok done m₂

theorem laidDocuments_nil {lay : Progress → Act Progress} (h : Laid cwd root q files m)
    (hagain : ∀ m₂ done, Laid cwd root q files m₂ → m.disk.Stays m₂.disk →
      (∀ p, assembly.withSuffix? ".xml" = some p → m₂.disk.stat m₂.cwd p = m.disk.stat m.cwd p) →
      lay done m₂ = .ok done m₂) : LaidDocuments cwd q assembly root lay m m files [] where
  laid := by rwa [List.append_nil]
  ends := List.forall_mem_nil _
  again := by rwa [List.append_nil]

theorem laidDocuments_of_not_file (h : Laid cwd root q files m)
    (hp : assembly.withSuffix? ".xml" = some p)
    (hfile : ¬ ∃ f, m.disk.stat m.cwd p = .ok (.file f))
    (hrun : writeDocumentation assembly root done m = .ok done' m') :
    LaidDocuments cwd q assembly root (writeDocumentation assembly root) m m' files [] := by
  obtain ⟨rfl, rfl, hanswer⟩ := writeDocumentation_of_not_file hp hfile hrun
  refine laidDocuments_nil h fun m₂ done₂ _ _ hsame => ?_
  rw [writeDocumentation_eq hp, bind_ok (Files.isFile_congr (hsame p hp) hanswer)]
  rfl

theorem laidDocuments_of_text {f : File} (h : Laid cwd root q files m)
    (hroot : root.isAnchored = true) (hnew : ∀ s, ["Docs", s ++ ".xml"] ∉ files.map Prod.fst)
    (hp : assembly.withSuffix? ".xml" = some p) (hstat : m.disk.stat m.cwd p = .ok (.file f))
    (hdecode : Text.Utf8.decode f.content = .ok text)
    (hrun : writeDocumentation assembly root done m = .ok done' m') :
    ∃ added, LaidDocuments cwd q assembly root (writeDocumentation assembly root) m m' files added := by
  have hcopies : ∀ {m₂ : Machine} (done₂ : Progress),
      m₂.disk.stat m₂.cwd p = m.disk.stat m.cwd p → writeDocumentation assembly root done₂ m₂ =
        Act.orElse (writeBelow root ((root / "Docs").child p.name) (Text.unifyBreaks text) done₂)
          (fun f => if isTolerable f then return done₂ else throw f) m₂ := by
    intro m₂ done₂ hsame
    rw [writeDocumentation_of_file root done₂ hp (hsame.trans hstat), hdecode]
  obtain ⟨s, hs⟩ := exists_of_withSuffix hp
  have hname := isName_of_stat hp hstat
  have hnew' : New files ["Docs", p.name] := by
    rw [name_xml hs]
    exact ⟨isFilePath_docs s, hnew s⟩
  rw [hcopies done rfl] at hrun
  rcases laid_writeBelow_docs h hroot hname hnew' (Text.return_not_mem_unifyBreaks text) done with
    ⟨done₁, m₁, hwrite, h₁⟩ | hblocked
  · rw [Act.orElse_of_ok hwrite] at hrun
    cases hrun
    refine ⟨_, h₁, by simp [name_xml hs, lastChar_docs], fun m₂ done₂ h₂ _ hsame => ?_⟩
    have hwrite' := writeBelow_again h₂ (List.mem_concat_self) hnew'.toIsFilePath done₂
    rw [← docs_eq] at hwrite'
    rw [hcopies done₂ (hsame p hp), Act.orElse_of_ok hwrite']
  · obtain ⟨fault, hrefusal, hwrite⟩ := writeBelow_docs_of_blocked h hroot hname hblocked
      (Text.unifyBreaks text) done
    rw [orElse_tolerable hwrite hrefusal] at hrun
    cases hrun
    refine ⟨[], laidDocuments_nil h fun m₂ done₂ h₂ hstays hsame => ?_⟩
    obtain ⟨fault, hrefusal, hwrite⟩ := writeBelow_docs_of_blocked h₂ hroot hname
      (hblocked.of_stays hstays) (Text.unifyBreaks text) done₂
    rw [hcopies done₂ (hsame p hp), orElse_tolerable hwrite hrefusal]

/-- Documentation is written, or there is nothing to write or something is in its way. -/
theorem laid_writeDocumentation (h : Laid cwd root q files m) (hroot : root.isAnchored = true)
    (hnew : ∀ s, ["Docs", s ++ ".xml"] ∉ files.map Prod.fst)
    (hrun : writeDocumentation assembly root done m = .ok done' m') :
    ∃ added, LaidDocuments cwd q assembly root (writeDocumentation assembly root) m m' files added := by
  obtain ⟨p, m₁, hbesides, -⟩ := exists_of_bind_ok hrun
  obtain ⟨hp, -⟩ := besides_cases hbesides
  by_cases hfile : ∃ f, m.disk.stat m.cwd p = .ok (.file f)
  · obtain ⟨f, hstat⟩ := hfile
    cases hdecode : Text.Utf8.decode f.content with
    | error fault =>
      have hnothing : ∀ {m₂ : Machine} (done₂ : Progress),
          m₂.disk.stat m₂.cwd p = m.disk.stat m.cwd p →
          writeDocumentation assembly root done₂ m₂ = .ok done₂ m₂ := by
        intro m₂ done₂ hsame
        rw [writeDocumentation_of_file root done₂ hp (hsame.trans hstat), hdecode]
      rw [hnothing done rfl] at hrun
      cases hrun
      exact ⟨[], laidDocuments_nil h fun m₂ done₂ _ _ hsame => hnothing done₂ (hsame p hp)⟩
    | ok text => exact laidDocuments_of_text h hroot hnew hp hstat hdecode hrun
  · exact ⟨[], laidDocuments_of_not_file h hp hfile hrun⟩

theorem laid_layDocuments {wanted : Value} (h : Laid cwd root q files m)
    (hroot : root.isAnchored = true) (hnew : ∀ s, ["Docs", s ++ ".xml"] ∉ files.map Prod.fst)
    (hrun : layDocuments wanted assembly root done m = .ok done' m') : ∃ added,
      LaidDocuments cwd q assembly root (layDocuments wanted assembly root) m m' files added := by
  by_cases hwanted : wanted.isPresent = true
  · have hlay : layDocuments wanted assembly root = writeDocumentation assembly root := by
      funext done
      rw [layDocuments, if_pos hwanted]
    rw [hlay] at hrun ⊢
    exact laid_writeDocumentation h hroot hnew hrun
  · have hlay : layDocuments wanted assembly root = pure := by
      funext done
      rw [layDocuments, if_neg hwanted]
    rw [hlay] at hrun ⊢
    cases hrun
    exact ⟨[], laidDocuments_nil h fun _ _ _ _ _ => rfl⟩

end Decompilation.Service
