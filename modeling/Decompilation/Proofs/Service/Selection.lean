import Decompilation.Proofs.Service.Spill
import Decompilation.Proofs.Text.Blank

/-!
# Selected units

A namespace is selected where the parts of its name between dots start with those of a name that is
wanted (`isSelected_iff`), and a request for namespaces is refused exactly where it is no list of texts
or all of its texts are blank (`namespaceList_cases`). What is selected of an assembly is its units with
the names that the request asks for, in order (`selection_follows_request`).
-/

namespace Decompilation.Service

open Act (bind_ok bind_error exists_of_bind_ok)
open Json (Value)
open Project (IsUnitName isSelected unitFileName)
open Source (Division divide)
open Text (allBlank joinWith pieces trimmed)

variable {r : Runner} {s : Subject} {d : Division} {folder : Path} {m m₁ m' : Machine}
  {wanted output v : Value} {n : String} {names : List String} {files : List (List Char)}
  {units : List (String × List Char)}

/-- A name is selected where its parts start with those of a name that is wanted. -/
theorem isSelected_iff :
    isSelected n names = true ↔ ∃ w ∈ names, pieces '.' w <+: pieces '.' n := by
  simp only [isSelected, List.any_eq_true, Bool.or_eq_true, beq_iff_eq, List.isPrefixOf_iff_prefix,
    Text.pieces_prefix_iff]

/-! ## Requests -/

/-- A request for namespaces is refused: it is no list or an empty one, an entry is no text, or all
entries are blank. -/
inductive Refused : Value → Prop
  | noList {v : Value} (h : ∀ vs, v ≠ .arr vs) : Refused v
  | empty : Refused (.arr [])
  | noText {v : Value} {vs : List Value} (hv : v ∈ vs) (h : ∀ s, v ≠ .str s) : Refused (.arr vs)
  | blank {vs : List Value} (h : ∀ v ∈ vs, ∃ s, v = .str s ∧ allBlank s.toList = true) :
      Refused (.arr vs)

/-- The texts of a request. -/
def entries : Value → List String
  | .arr vs => vs.filterMap fun
    | .str s => some s
    | _ => none
  | _ => []

/-- A request asks for a name: the parts of the name between dots start with those of an entry that is
not blank, without the blanks around it. -/
def AsksFor (wanted : Value) (n : String) : Prop :=
  ∃ s ∈ entries wanted, allBlank s.toList = false ∧ pieces '.' (trimmed s) <+: pieces '.' n

instance (wanted : Value) : DecidablePred (AsksFor wanted) := fun _ =>
  inferInstanceAs (Decidable (∃ s ∈ entries wanted, _ ∧ _))

theorem strings?_cons (s : String) (vs : List Value) :
    strings? (.str s :: vs) = (strings? vs).map (s :: ·) := by
  rw [strings?, List.mapM_cons]
  cases h : strings? vs <;> rw [strings?] at h <;> simp [h]

theorem strings?_cons_of_ne (h : ∀ s, v ≠ .str s) (vs : List Value) : strings? (v :: vs) = none := by
  rw [strings?, List.mapM_cons]
  cases v with
  | str s => exact absurd rfl (h s)
  | _ => rfl

/-- Values are texts, or one of them is no text. -/
theorem strings?_cases (vs : List Value) :
    (strings? vs = none ∧ ∃ v ∈ vs, ∀ s, v ≠ .str s) ∨
      ∃ ss, strings? vs = some ss ∧ vs = ss.map .str := by
  induction vs with
  | nil => exact .inr ⟨[], rfl, rfl⟩
  | cons v vs ih =>
    by_cases hv : ∃ s, v = .str s
    · obtain ⟨s, rfl⟩ := hv
      rw [strings?_cons]
      rcases ih with ⟨hnone, u, hu, htext⟩ | ⟨ss, hsome, rfl⟩
      · exact .inl ⟨by rw [hnone]; rfl, u, List.mem_cons_of_mem _ hu, htext⟩
      · exact .inr ⟨s :: ss, by rw [hsome]; rfl, rfl⟩
    · have htext : ∀ s, v ≠ .str s := fun s hs => hv ⟨s, hs⟩
      exact .inl ⟨strings?_cons_of_ne htext vs, v, List.mem_cons_self .., htext⟩

theorem entries_map (ss : List String) : entries (.arr (ss.map .str)) = ss := by
  rw [entries, List.filterMap_map]
  exact List.filterMap_some

/-- The texts among a request's that are not blank, without the blanks around them. -/
def wantedNames (ss : List String) : List String := (ss.map trimmed).filter (· != "")

theorem mem_wantedNames {ss : List String} :
    n ∈ wantedNames ss ↔ ∃ s ∈ ss, allBlank s.toList = false ∧ trimmed s = n := by
  rw [wantedNames, List.mem_filter, List.mem_map]
  constructor
  · rintro ⟨⟨s, hs, rfl⟩, hne⟩
    refine ⟨s, hs, ?_, rfl⟩
    rw [Bool.eq_false_iff]
    exact fun hblank => bne_iff_ne.1 hne (Text.trimmed_eq_empty_iff.2 hblank)
  · rintro ⟨s, hs, hblank, rfl⟩
    refine ⟨⟨s, hs, rfl⟩, bne_iff_ne.2 fun hnil => ?_⟩
    rw [Text.trimmed_eq_empty_iff.1 hnil] at hblank
    cases hblank

theorem wantedNames_eq_nil_iff {ss : List String} :
    wantedNames ss = [] ↔ ∀ s ∈ ss, allBlank s.toList = true := by
  rw [wantedNames, List.filter_eq_nil_iff, List.forall_mem_map]
  simp [Text.trimmed_eq_empty_iff]

/-- A list with a value that is no text is refused before its texts are looked at. -/
theorem namespaceList_of_strings?_eq_none {vs : List Value} (h : strings? vs = none) :
    namespaceList (.arr vs) =
      .error (.badParameter "namespaces" (.arr vs) "namespace entries to be strings") := by
  cases vs with
  | nil => cases h
  | cons v vs => simp only [namespaceList, h]

theorem namespaceList_of_wantedNames_eq_nil {vs : List Value} {ss : List String}
    (h : strings? vs = some ss) (hnil : wantedNames ss = []) :
    namespaceList (.arr vs) =
      .error (.badParameter "namespaces" (.arr vs) "a non-empty array of namespace names") := by
  rw [wantedNames] at hnil
  cases vs with
  | nil => rfl
  | cons v vs => simp only [namespaceList, h, hnil]

theorem namespaceList_of_wantedNames_ne_nil {vs : List Value} {ss : List String}
    (h : strings? vs = some ss) (hne : wantedNames ss ≠ []) :
    namespaceList (.arr vs) = .ok (wantedNames ss) := by
  cases vs with
  | nil =>
    cases h
    exact absurd rfl hne
  | cons v vs =>
    obtain ⟨name, names, hnames⟩ := List.exists_cons_of_ne_nil hne
    rw [hnames]
    rw [wantedNames] at hnames
    simp only [namespaceList, h, hnames]

theorem not_refused_map {ss : List String} (hne : wantedNames ss ≠ []) :
    ¬ Refused (.arr (ss.map .str)) := by
  intro h
  generalize hvs : ss.map Value.str = vs at h
  cases h with
  | noList h => exact h vs rfl
  | empty => exact hne (by rw [List.map_eq_nil_iff.1 hvs]; rfl)
  | noText hv h =>
    obtain ⟨s, -, rfl⟩ := List.mem_map.1 (hvs ▸ hv)
    exact h s rfl
  | blank h =>
    refine hne (wantedNames_eq_nil_iff.2 fun s hs => ?_)
    obtain ⟨t, ht, hblank⟩ := h (.str s) (hvs ▸ List.mem_map_of_mem hs)
    cases ht
    exact hblank

/-- A request is refused with the reason, or what is wanted are the names that it asks for. -/
theorem namespaceList_cases (v : Value) :
    (Refused v ∧ ∃ expected, namespaceList v = .error (.badParameter "namespaces" v expected)) ∨
      (¬ Refused v ∧ ∃ names, namespaceList v = .ok names ∧
        ∀ n, isSelected n names = true ↔ AsksFor v n) := by
  cases v with
  | arr vs =>
    rcases strings?_cases vs with ⟨hnone, v, hv, htext⟩ | ⟨ss, hsome, rfl⟩
    · exact .inl ⟨.noText hv htext, _, namespaceList_of_strings?_eq_none hnone⟩
    · by_cases hnil : wantedNames ss = []
      · refine .inl ⟨.blank fun v hv => ?_, _, namespaceList_of_wantedNames_eq_nil hsome hnil⟩
        obtain ⟨s, hs, rfl⟩ := List.mem_map.1 hv
        exact ⟨s, rfl, wantedNames_eq_nil_iff.1 hnil s hs⟩
      · refine .inr ⟨not_refused_map hnil, _, namespaceList_of_wantedNames_ne_nil hsome hnil,
          fun n => ?_⟩
        rw [isSelected_iff, AsksFor, entries_map]
        simp only [mem_wantedNames]
        constructor
        · rintro ⟨_, ⟨s, hs, hblank, rfl⟩, hprefix⟩
          exact ⟨s, hs, hblank, hprefix⟩
        · rintro ⟨s, hs, hblank, hprefix⟩
          exact ⟨_, ⟨s, hs, hblank, rfl⟩, hprefix⟩
  | _ => exact .inl ⟨.noList (by simp), _, rfl⟩

theorem wantedNamespaces_error {p : Problem} (h : namespaceList v = .error p) (m : Machine) :
    wantedNamespaces v m = .error (.reported .parameter p) m := by
  rw [wantedNamespaces, h]
  rfl

theorem wantedNamespaces_ok (h : namespaceList v = .ok names) (m : Machine) :
    wantedNamespaces v m = .ok names m := by
  rw [wantedNamespaces, h]
  rfl

/-! ## Units -/

/-- The units whose names a request asks for, in order. -/
def askedFor (d : Division) (wanted : Value) : List (String × List Char) :=
  d.units.toList.filter fun unit => AsksFor wanted unit.1

theorem selected_eq_askedFor (h : ∀ n, isSelected n names = true ↔ AsksFor wanted n) :
    selected d names = askedFor d wanted := by
  refine List.filter_congr fun unit _ => ?_
  rw [Bool.eq_iff_iff, decide_eq_true_eq]
  exact h unit.1

/-- Units that are written have their files named. -/
theorem writeEach_names (hnames : ∀ u ∈ units, IsUnitName u.1)
    (h : writeEach d folder units m = .ok names m') : names = units.map fun u => unitFileName u.1 := by
  induction units generalizing m names with
  | nil =>
    cases h
    rfl
  | cons u units ih =>
    obtain ⟨n, body⟩ := u
    rw [writeEach] at h
    obtain ⟨-, m₁, -, h⟩ := exists_of_bind_ok h
    obtain ⟨later, m₂, hrest, h⟩ := exists_of_bind_ok h
    cases h
    rw [ih (fun v hv => hnames v (List.mem_cons_of_mem _ hv)) hrest,
      div_unitFileName_name (hnames _ (List.mem_cons_self ..))]
    rfl

theorem writeUnits_names (hnames : ∀ u ∈ units, IsUnitName u.1)
    (h : writeUnits d folder units m = .ok names m') :
    names = Text.inOrder (units.map fun u => unitFileName u.1) := by
  obtain ⟨-, m₁, -, h⟩ := exists_of_bind_ok h
  obtain ⟨later, m₂, heach, h⟩ := exists_of_bind_ok h
  cases h
  rw [writeEach_names hnames heach]

theorem isUnitName_of_mem_askedFor {text : List Char} {u : String × List Char}
    (h : u ∈ askedFor (divide text) wanted) : IsUnitName u.1 :=
  isUnitName_of_mem_keys (List.mem_map_of_mem (List.mem_filter.1 h).1)

/-- **What is selected of an assembly.** Where an assembly is decompiled into source files, a request
for namespaces is reported as a bad parameter exactly if it is refused, and then nothing has been done
before. Otherwise what is returned is the units whose names the request asks for, rendered and joined by
newlines, and what is written to a folder is the same units, a file each. -/
theorem selection_follows_request (h : sourceTexts r s m = .ok files m₁) (wanted output : Value) :
    let d := divide (joinWith ['\n'] files)
    ((∃ p m', selectedUnits r s wanted m = .error (.reported .parameter p) m') ↔ Refused wanted) ∧
    (Refused wanted → ∃ expected,
      let fault := Fault.reported .parameter (.badParameter "namespaces" wanted expected)
      selectedUnits r s wanted m = .error fault m ∧
        selectedUnitsToFolder r s output wanted m = .error fault m) ∧
    (¬ Refused wanted →
      selectedUnits r s wanted m =
        .ok (joinWith ['\n'] ((askedFor d wanted).map fun u => d.renderUnit u.1 u.2)) m₁ ∧
      selectedUnitsToFolder r s output wanted m =
        (outputFolder output >>= fun folder => writeUnits d folder (askedFor d wanted)) m₁ ∧
      ∀ names m', selectedUnitsToFolder r s output wanted m = .ok names m' →
        names = Text.inOrder ((askedFor d wanted).map fun u => unitFileName u.1)) := by
  intro d
  have hdivide : decompileAndDivide r s m = .ok d m₁ := by
    rw [decompileAndDivide_eq, bind_ok h]
    rfl
  rcases namespaceList_cases wanted with ⟨hrefused, expected, hlist⟩ | ⟨hnot, names, hlist, hasked⟩
  · have hwanted := wantedNamespaces_error hlist m
    have hunits : selectedUnits r s wanted m = .error _ m := bind_error hwanted _
    refine ⟨iff_of_true ⟨_, _, hunits⟩ hrefused, fun _ => ⟨expected, hunits, ?_⟩,
      fun h => absurd hrefused h⟩
    exact bind_error hwanted _
  · have hwanted := wantedNamespaces_ok hlist m
    have hselected : selected d names = askedFor d wanted := selected_eq_askedFor hasked
    have hunits : selectedUnits r s wanted m =
        .ok (joinWith ['\n'] ((askedFor d wanted).map fun u => d.renderUnit u.1 u.2)) m₁ := by
      rw [selectedUnits, bind_ok hwanted, bind_ok hdivide, hselected]
      rfl
    have hfolder : selectedUnitsToFolder r s output wanted m =
        (outputFolder output >>= fun folder => writeUnits d folder (askedFor d wanted)) m₁ := by
      rw [selectedUnitsToFolder, bind_ok hwanted, bind_ok hdivide, hselected]
    refine ⟨iff_of_false ?_ hnot, fun h => absurd h hnot, fun _ => ⟨hunits, hfolder, ?_⟩⟩
    · rintro ⟨p, m', hrun⟩
      rw [hunits] at hrun
      cases hrun
    · intro written m' hrun
      rw [hfolder] at hrun
      obtain ⟨folder, m₂, -, hwrite⟩ := exists_of_bind_ok hrun
      exact writeUnits_names (fun u hu => isUnitName_of_mem_askedFor hu) hwrite

/-- A name between blanks selects its own unit and the one below it, but no name that only goes on with
letters; a request with nothing but blanks is refused. -/
theorem selection_follows_blank_entries :
    let sources := [("A.cs", "namespace A;\nclass C;\n"), ("B.cs", "namespace AB;\nclass D;\n"),
      ("C.cs", "namespace A.B;\nclass E;\n")]
    let files := sources.map fun source => source.2.toList
    let wanted := Value.arr [.str " A\t", .str ""]
    ∃ m', sourceTexts sampleRunner sampleSubject (sampleSources sources) = .ok files m' ∧
      ¬ Refused wanted ∧ Refused (.arr [.str " "]) ∧
      selectedUnits sampleRunner sampleSubject wanted (sampleSources sources) =
        .ok "namespace A;\n\nclass C;\n\nnamespace A.B;\n\nclass E;\n".toList m' ∧
      ∃ expected, selectedUnitsToFolder sampleRunner sampleSubject (.str "/out") (.arr [.str " "])
        (sampleSources sources) = .error (.reported .parameter
          (.badParameter "namespaces" (.arr [.str " "]) expected)) (sampleSources sources) := by
  intro sources files wanted
  have hyields : (sourceTexts sampleRunner sampleSubject).yields (sampleSources sources)
      (fun texts => texts = files) = true := by
    rw [sourceTexts_eq_insertionSort]
    decide +kernel
  obtain ⟨m', htexts, -⟩ := exists_sample_texts hyields
  have hkept : ¬ Refused wanted := by
    have hnames : wantedNames [" A\t", ""] ≠ [] := by decide
    exact not_refused_map hnames
  have hblank : Refused (.arr [.str " "]) := .blank (by simp [allBlank, Text.isBlank])
  have htext : joinWith ['\n'] ((askedFor (divide (joinWith ['\n'] files)) wanted).map
      fun u => (divide (joinWith ['\n'] files)).renderUnit u.1 u.2) =
      "namespace A;\n\nclass C;\n\nnamespace A.B;\n\nclass E;\n".toList := by
    decide +kernel
  obtain ⟨-, -, hselects⟩ := selection_follows_request htexts wanted (.str "/out")
  obtain ⟨-, hrefuses, -⟩ := selection_follows_request htexts (.arr [.str " "]) (.str "/out")
  obtain ⟨hunits, -⟩ := hselects hkept
  obtain ⟨expected, -, hfolder⟩ := hrefuses hblank
  exact ⟨m', htexts, hkept, hblank, htext ▸ hunits, expected, hfolder⟩

end Decompilation.Service
