import Decompilation.Proofs.Runner.Output
import Decompilation.Proofs.Service.Layout
import Decompilation.Proofs.Source.Join

/-!
# Units and the files they come from

An assembly is decompiled into source files, and their join is what is divided. A unit has text of
files that do not declare its namespace exactly where a file-scoped declaration is the last of its
file and text stands in front of the declarations of a file behind it (`units_keep_to_files_iff`).
-/

namespace Decompilation.Service

open Act (bind_ok)
open Source (Balanced EndsIn Plot Survey Whole declaredNames divide globalName leading tokenize
  unitText)
open Text (allBlank joinWith)

variable {r : Runner} {s : Subject} {m m' : Machine}

/-- The source files that an assembly is decompiled into. -/
def sourceTexts (r : Runner) (s : Subject) : Act (List (List Char)) := do
  let assembly ← assemblyPath s.assembly maxAssemblySize
  Files.withScratch fun folder => do
    Runner.decompileTo r assembly folder s.typeName .null
    let files ← Runner.collect folder Runner.sourceSuffixes
    Runner.readAll (files.map (Runner.under folder)) .null .null

theorem decompileAndDivide_eq (r : Runner) (s : Subject) :
    decompileAndDivide r s = do return divide (joinWith ['\n'] (← sourceTexts r s)) := by
  simp only [decompileAndDivide, sourceTexts, bind_assoc]

/-- The source files, with a sort of their names that recurs on the list. -/
theorem sourceTexts_eq_insertionSort (r : Runner) (s : Subject) : sourceTexts r s = (do
    let assembly ← assemblyPath s.assembly maxAssemblySize
    Files.withScratch fun folder => do
      Runner.decompileTo r assembly folder s.typeName .null
      let names ← Files.filesBelow folder
      let sources := names.filter (Runner.hasSuffix Runner.sourceSuffixes)
      let files := sources.insertionSort Runner.Before
      Runner.readAll (files.map (Runner.under folder)) .null .null) := by
  simp only [sourceTexts, Runner.collect_eq_insertionSort, bind_assoc, pure_bind]

theorem sourceTexts_of_decompileAndDivide {d : Source.Division}
    (h : decompileAndDivide r s m = .ok d m') :
    ∃ files, sourceTexts r s m = .ok files m' ∧ d = divide (joinWith ['\n'] files) := by
  rw [decompileAndDivide_eq] at h
  cases htexts : sourceTexts r s m with
  | ok files m₁ =>
    rw [bind_ok htexts] at h
    cases h
    exact ⟨files, rfl, rfl⟩
  | error fault m₁ =>
    rw [Act.bind_error htexts] at h
    cases h

/-- **Which text of an assembly gets into units of other files.** An assembly is divided by surveying
its source files put together: the unit of a namespace is the regions of its plots. Where each file
is balanced and none ends inside of a declaration, the plots keep to files that declare their
namespaces exactly if the following holds: wherever a file ends in the region of a file-scoped
declaration, the files behind it, up to the first in which something is declared, declare that
namespace too or have nothing but blanks in front of their own declarations. -/
theorem units_keep_to_files_iff {d : Source.Division} (h : decompileAndDivide r s m = .ok d m') :
    ∃ files plots back, sourceTexts r s m = .ok files m' ∧
      Survey 0 none (joinWith ['\n'] files) plots back ∧
      (∀ n, n ≠ globalName → d.units.get? n = if n ∈ plots.map Plot.name then
        some (unitText ((plots.filter fun p => p.name = n).map Plot.extent)) else none) ∧
      ((∀ f ∈ files, Balanced f) → Whole files →
        ((∀ p ∈ plots, p.KeepsTo files) ↔
          ∀ before f between g after t, files = before ++ f :: (between ++ g :: after) →
            EndsIn f t → (∀ x ∈ between, tokenize x = []) → allBlank (leading g) = false →
            t.name ∈ declaredNames g)) := by
  obtain ⟨files, htexts, rfl⟩ := sourceTexts_of_decompileAndDivide h
  obtain ⟨plots, back, hs⟩ := Source.exists_survey 0 none (joinWith ['\n'] files)
  exact ⟨files, plots, back, htexts, hs, fun n hn => hs.get?_units hn,
    fun hb hw => hs.keepsTo_iff hw hb⟩

/-- A machine on which ilspycmd leaves source files, by their names. -/
def sampleSources (sources : List (String × String)) : Machine :=
  let files := sources.map fun (name, text) =>
    (name, Deposit.file (File.ofBytes (Text.Utf8.encode text.toList)))
  { sampleMachine "" with toolbox := { Toolbox.idle with runs := [.ended files 0 "" ""] } }

theorem exists_sample_texts {sources : List (String × String)} {files : List (List Char)}
    (h : (sourceTexts sampleRunner sampleSubject).yields (sampleSources sources)
      (fun texts => texts = files) = true) :
    ∃ m', sourceTexts sampleRunner sampleSubject (sampleSources sources) = .ok files m' ∧
      decompileAndDivide sampleRunner sampleSubject (sampleSources sources) =
        .ok (divide (joinWith ['\n'] files)) m' := by
  obtain ⟨texts, m', htexts, heq⟩ := Act.exists_of_yields h
  obtain rfl := of_decide_eq_true heq
  refine ⟨m', htexts, ?_⟩
  rw [decompileAndDivide_eq, bind_ok htexts]
  rfl

/-- A directive in front of a second declaration of a namespace stays in it, behind a blank file. -/
theorem units_keep_to_three_files :
    let sources := [("A.cs", "namespace A;\nclass C { }\n"), ("B.cs", " \n"),
      ("C.cs", "using X;\nnamespace A;\nclass D { }")]
    let files := sources.map fun source => source.2.toList
    ∃ m' plots back, sourceTexts sampleRunner sampleSubject (sampleSources sources) = .ok files m' ∧
      decompileAndDivide sampleRunner sampleSubject (sampleSources sources) =
        .ok (divide (joinWith ['\n'] files)) m' ∧
      Survey 0 none (joinWith ['\n'] files) plots back ∧
      (divide (joinWith ['\n'] files)).units.toList =
        [("A", "class C { }\n\n \n\nusing X;\nclass D { }\n".toList)] ∧
      ∀ p ∈ plots, p.KeepsTo files := by
  intro sources files
  have hyields : (sourceTexts sampleRunner sampleSubject).yields (sampleSources sources)
      (fun texts => texts = files) = true := by
    rw [sourceTexts_eq_insertionSort]
    decide +kernel
  obtain ⟨m', htexts, hrun⟩ := exists_sample_texts hyields
  obtain ⟨files', plots, back, htexts', hs, -, hkeeps⟩ := units_keep_to_files_iff hrun
  obtain rfl : files' = files := by
    rw [htexts] at htexts'
    exact (EStateM.Result.ok.inj htexts').1.symm
  refine ⟨m', plots, back, htexts, hrun, hs, by decide +kernel, ?_⟩
  have hbalanced : ∀ f ∈ files, Balanced f := by decide +kernel
  have htokens : tokenize (joinWith ['\n'] files) =
      [⟨0, "A", .fileScoped⟩, ⟨38, "A", .fileScoped⟩] := by decide +kernel
  have hwhole : Whole files := by
    intro t ht
    rw [htokens] at ht
    simp only [List.mem_cons, List.not_mem_nil, or_false] at ht
    rcases ht with rfl | rfl
    · exact ⟨[], _, _, ⟨0, "A", .fileScoped⟩, rfl, by decide +kernel, rfl⟩
    · exact ⟨[_, _], _, [], ⟨9, "A", .fileScoped⟩, rfl, by decide +kernel, by decide +kernel⟩
  have hlast : ∀ f ∈ files, ∀ t ∈ (tokenize f).getLast?, t.name = "A" := by decide +kernel
  have hleading : ∀ g ∈ files, allBlank (leading g) = false → "A" ∈ declaredNames g := by
    decide +kernel
  refine (hkeeps hbalanced hwhole).2 fun before f between g after t hcut hends _ hg => ?_
  rw [hlast f (by simp [hcut]) t hends.1]
  exact hleading g (by simp [hcut]) hg

/-- A directive gets into the namespace of the file before, and with it into what is selected of that
namespace. -/
theorem directive_joins_namespace_before :
    let sources := [("A.cs", "namespace A;\nclass C { }\n"),
      ("B.cs", "using X;\nnamespace B;\nclass D { }\n")]
    let files := sources.map fun source => source.2.toList
    (∀ f ∈ files, Balanced f) ∧ Whole files ∧ files.map declaredNames = [["A"], ["B"]] ∧
      (∃ m', sourceTexts sampleRunner sampleSubject (sampleSources sources) = .ok files m' ∧
        selectedUnits sampleRunner sampleSubject (.arr [.str "A"]) (sampleSources sources) =
          .ok "namespace A;\n\nclass C { }\n\nusing X;\n".toList m') ∧
      ∀ plots back, Survey 0 none (joinWith ['\n'] files) plots back →
        ¬ ∀ p ∈ plots, p.KeepsTo files := by
  intro sources files
  have hbalanced : ∀ f ∈ files, Balanced f := by decide +kernel
  have htokens : tokenize (joinWith ['\n'] files) =
      [⟨0, "A", .fileScoped⟩, ⟨35, "B", .fileScoped⟩] := by decide +kernel
  have hfirst : tokenize "namespace A;\nclass C { }\n".toList = [⟨0, "A", .fileScoped⟩] := by
    decide +kernel
  have hwhole : Whole files := by
    intro t ht
    rw [htokens] at ht
    simp only [List.mem_cons, List.not_mem_nil, or_false] at ht
    rcases ht with rfl | rfl
    · exact ⟨[], _, _, ⟨0, "A", .fileScoped⟩, rfl, by decide +kernel, rfl⟩
    · exact ⟨[_], _, [], ⟨9, "B", .fileScoped⟩, rfl, by decide +kernel, by decide +kernel⟩
  have hyields : (sourceTexts sampleRunner sampleSubject).yields (sampleSources sources)
      (fun texts => texts = files) = true := by
    rw [sourceTexts_eq_insertionSort]
    decide +kernel
  obtain ⟨m', htexts, hrun⟩ := exists_sample_texts hyields
  have hselect : selectedUnits sampleRunner sampleSubject (.arr [.str "A"]) (sampleSources sources) =
      .ok "namespace A;\n\nclass C { }\n\nusing X;\n".toList m' := by
    have hwanted : wantedNamespaces (.arr [.str "A"]) = pure ["A"] := rfl
    have htext : joinWith ['\n'] ((selected (divide (joinWith ['\n'] files)) ["A"]).map
        fun u => (divide (joinWith ['\n'] files)).renderUnit u.1 u.2) =
        "namespace A;\n\nclass C { }\n\nusing X;\n".toList := by decide +kernel
    rw [selectedUnits, hwanted, pure_bind, bind_ok hrun, ← htext]
    rfl
  refine ⟨hbalanced, hwhole, by decide +kernel, ⟨m', htexts, hselect⟩, fun plots back hs hkeeps => ?_⟩
  have hends : EndsIn "namespace A;\nclass C { }\n".toList ⟨0, "A", .fileScoped⟩ := by
    refine ⟨by rw [hfirst]; rfl, rfl, ?_⟩
    rintro ⟨t, ht, -, -, -, -, hafter, -⟩
    exact absurd (Source.offset_of_mem_tokenize ht).1 (Int.not_le.2 hafter)
  have hname := (hs.keepsTo_iff hwhole hbalanced).1 hkeeps [] _ [] _ [] _ rfl hends (by simp)
    (by decide +kernel)
  exact absurd hname (by decide +kernel)

end Decompilation.Service
