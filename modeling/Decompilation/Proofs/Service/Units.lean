import Mathlib.Data.List.Nodup
import Decompilation.Proofs.Disk.Files
import Decompilation.Proofs.Project.Names
import Decompilation.Proofs.Source.Partition
import Decompilation.Service.Units

/-!
# Units in a folder

Units are written to a folder one after the other, so a unit whose file is that of an earlier one
takes its place (`writeUnits_of_fits`), and each unit has its file in the end exactly if no two have
the same (`writeUnits_keeps_iff`).
-/

namespace Decompilation.Service

open Act (bind_ok bind_error)
open Files (Fits Leads)
open Project (IsUnitName unitFileName)
open Source (Division divide globalName)

variable {d : Division} {folder : Path} {q : Place} {units : List (String × List Char)} {m : Machine}

/-! ## The names of units -/

theorem isUnitName_globalName : IsUnitName globalName := List.all_eq_true.1 rfl

theorem plainName_cases {text : List Char} {n : String} (h : n ∈ (divide text).units.keys) :
    n = globalName ∨ ∃ head : Source.Head, Project.plainName n = head.name := by
  obtain ⟨plots, back, hs⟩ := Source.exists_survey 0 none text
  by_cases hn : n = globalName
  · exact .inl hn
  have hnamed := hs.get?_units hn
  by_cases hmem : n ∈ plots.map Source.Plot.name
  · obtain ⟨p, -, rfl⟩ := List.mem_map.1 hmem
    have hplain : Project.plainName p.name = p.name.toList := if_neg hn
    rw [hplain, Source.Plot.name, String.toList_ofList]
    exact .inr ⟨p.head, rfl⟩
  · rw [if_neg hmem] at hnamed
    exact absurd h (Table.get?_eq_none_iff.1 hnamed)

theorem isUnitName_of_mem_keys {text : List Char} {n : String} (h : n ∈ (divide text).units.keys) :
    IsUnitName n := by
  rcases plainName_cases h with rfl | ⟨head, hplain⟩
  · exact isUnitName_globalName
  · intro c hc
    rw [hplain] at hc
    exact head.name_qualified c hc

theorem start_of_mem_keys {text : List Char} {n : String} (h : n ∈ (divide text).units.keys) :
    (Project.plainName n).head?.any Source.isNameStart = true := by
  rcases plainName_cases h with rfl | ⟨head, hplain⟩
  · rfl
  · rw [hplain]
    exact head.name_start

/-! ## Writing units -/

/-- The file of a unit, by its name in the folder. -/
def unitFile (d : Division) (unit : String × List Char) : List String × Node :=
  ([unitFileName unit.1],
    .file (File.ofBytes (Text.Utf8.encode (d.renderUnit unit.1 unit.2))))

/-- A disk with the files of units put into a folder in order. -/
def putUnits (d : Division) (q : Place) (units : List (String × List Char)) (disk : Disk) : Disk :=
  units.foldl (fun disk u => disk.put (q ++ (unitFile d u).1) (unitFile d u).2) disk

theorem below_putUnits (disk : Disk) : (putUnits d q units disk).below q =
    units.foldl (fun l u => Table.put (unitFile d u).1 (unitFile d u).2 l) (disk.below q) := by
  unfold putUnits
  induction units generalizing disk with
  | nil => rfl
  | cons u units ih =>
    rw [List.foldl_cons, ih, Disk.below_put _ _ (by simp [unitFile]), List.foldl_cons]

/-- In a folder stand only files as they are when they have just been made. -/
def OnlyNew (disk : Disk) (q : Place) : Prop :=
  ∀ name n, disk.node? (q ++ [name]) = some n → ∃ bytes, n = .file (File.ofBytes bytes)

theorem OnlyNew.put {disk : Disk} {name : String} (h : OnlyNew disk q) (bytes : List UInt8) :
    OnlyNew (disk.put (q ++ [name]) (.file (File.ofBytes bytes))) q := by
  intro name' n hn
  by_cases hname : q ++ [name'] = q ++ [name]
  · rw [hname, Disk.node?_put_self (by simp)] at hn
    exact ⟨bytes, (Option.some.inj hn).symm⟩
  · rw [Disk.node?_put_of_ne hname] at hn
    exact h name' n hn

theorem leads_put {name : String} (hm : Leads m folder q) (h : OnlyNew m.disk q) (n : Node) :
    Leads { m with disk := m.disk.put (q ++ [name]) n } folder q := by
  apply hm.of_agree
  intro p n' hn' hnot
  have hp : p ≠ q ++ [name] := by
    rintro rfl
    obtain ⟨bytes, rfl⟩ := h name n' hn'
    exact hnot _ rfl
  rw [Disk.node?_put_of_ne hp, hn']

theorem writeText_unit (hm : Leads m folder q) (h : OnlyNew m.disk q) {u : String × List Char}
    (hname : IsUnitName u.1) (hfits : Fits folder (unitFileName u.1)) :
    Files.writeText (folder / unitFileName u.1) (d.renderUnit u.1 u.2) m =
      .ok () { m with disk := m.disk.put (q ++ (unitFile d u).1) (unitFile d u).2 } := by
  have hordinary := Project.ordinary_unitFileName u.1
  rw [Project.div_eq_child folder (hname.not_mem_unitFileName rfl) hordinary]
  exact hm.writeText hordinary (hname.not_mem_unitFileName rfl) hfits (h _)

/-- Writing a unit leaves the folder as it must be for the next one. -/
theorem ready_put (hm : Leads m folder q) (h : OnlyNew m.disk q) (u : String × List Char) :
    Leads { m with disk := m.disk.put (q ++ (unitFile d u).1) (unitFile d u).2 } folder q ∧
      OnlyNew (m.disk.put (q ++ (unitFile d u).1) (unitFile d u).2) q :=
  ⟨leads_put hm h _, h.put _⟩

theorem div_unitFileName_name {n : String} (h : IsUnitName n) :
    (folder / unitFileName n).name = unitFileName n := by
  rw [Project.div_eq_child folder (h.not_mem_unitFileName rfl) (Project.ordinary_unitFileName n)]
  simp [Path.name, Path.child]

theorem writeEach_of_fits (hm : Leads m folder q) (h : OnlyNew m.disk q)
    (hnames : ∀ u ∈ units, IsUnitName u.1) (hfits : ∀ u ∈ units, Fits folder (unitFileName u.1)) :
    writeEach d folder units m = .ok (units.map fun u => unitFileName u.1)
      { m with disk := putUnits d q units m.disk } := by
  induction units generalizing m with
  | nil => rfl
  | cons u units ih =>
    obtain ⟨n, body⟩ := u
    have hname := hnames _ (List.mem_cons_self ..)
    have hwrite := writeText_unit (d := d) hm h hname (hfits _ (List.mem_cons_self ..))
    obtain ⟨hm', h'⟩ := ready_put (d := d) hm h (n, body)
    have hrest := ih hm' h' (fun v hv => hnames v (List.mem_cons_of_mem _ hv))
      fun v hv => hfits v (List.mem_cons_of_mem _ hv)
    rw [writeEach, bind_ok hwrite, bind_ok hrest, div_unitFileName_name hname]
    rfl

theorem writeEach_of_not_fits (hm : Leads m folder q) (h : OnlyNew m.disk q)
    (hnames : ∀ u ∈ units, IsUnitName u.1) (hfits : ¬ ∀ u ∈ units, Fits folder (unitFileName u.1)) :
    ∃ fault m', writeEach d folder units m = .error fault m' := by
  induction units generalizing m with
  | nil => simp at hfits
  | cons u units ih =>
    obtain ⟨n, body⟩ := u
    have hname := hnames _ (List.mem_cons_self ..)
    by_cases hfirst : Fits folder (unitFileName n)
    · have hwrite := writeText_unit (d := d) (u := (n, body)) hm h hname hfirst
      obtain ⟨hm', h'⟩ := ready_put (d := d) hm h (n, body)
      have hlater : ¬ ∀ u ∈ units, Fits folder (unitFileName u.1) := by
        intro hall
        apply hfits
        intro v hv
        rcases List.mem_cons.1 hv with rfl | hv
        · exact hfirst
        · exact hall v hv
      obtain ⟨fault, m', hrest⟩ := ih hm' h' (fun v hv => hnames v (List.mem_cons_of_mem _ hv)) hlater
      refine ⟨fault, m', ?_⟩
      rw [writeEach, bind_ok hwrite, bind_error hrest]
    · have hordinary := Project.ordinary_unitFileName n
      have hslash := hname.not_mem_unitFileName (c := '/') rfl
      have hwrite : Files.writeText (folder / unitFileName n) (d.renderUnit n body) m =
          .error (Fault.ofRefusal .nameTooLong (folder.child (unitFileName n))) m := by
        rw [Project.div_eq_child folder hslash hordinary]
        exact hm.writeText_of_not_fits hordinary (hname.not_mem_unitFileName rfl) hfirst
      refine ⟨Fault.ofRefusal .nameTooLong (folder.child (unitFileName n)), m, ?_⟩
      rw [writeEach, bind_error hwrite]

theorem writeUnits_of_fits (hm : Leads m folder q) (h : OnlyNew m.disk q)
    (hnames : ∀ u ∈ units, IsUnitName u.1) (hfits : ∀ u ∈ units, Fits folder (unitFileName u.1)) :
    writeUnits d folder units m = .ok (Text.inOrder (units.map fun u => unitFileName u.1))
      { m with disk := putUnits d q units m.disk } := by
  rw [writeUnits, bind_ok hm.makeFolders, bind_ok (writeEach_of_fits hm h hnames hfits)]
  rfl

theorem writeUnits_of_not_fits (hm : Leads m folder q) (h : OnlyNew m.disk q)
    (hnames : ∀ u ∈ units, IsUnitName u.1) (hfits : ¬ ∀ u ∈ units, Fits folder (unitFileName u.1)) :
    ∃ fault m', writeUnits d folder units m = .error fault m' := by
  obtain ⟨fault, m', heach⟩ := writeEach_of_not_fits (d := d) hm h hnames hfits
  refine ⟨fault, m', ?_⟩
  rw [writeUnits, bind_ok hm.makeFolders, bind_error heach]

/-! ## What is left of the units -/

theorem onlyNew_of_below (hempty : m.disk.below q = []) : OnlyNew m.disk q := by
  intro name n hn
  rw [← Disk.find?_below m.disk q (by simp), hempty] at hn
  cases hn

/-- In an empty folder the units that are written become a table of files. -/
theorem below_putUnits_of_empty {disk : Disk} (hempty : disk.below q = []) :
    (putUnits d q units disk).below q = (Table.ofList (units.map (unitFile d))).toList := by
  rw [below_putUnits, hempty, Table.toList_ofList, List.foldl_map]

/-- No two units have one file. -/
def FilesDiffer (units : Table String (List Char)) : Prop :=
  ∀ n ∈ units.keys, ∀ n' ∈ units.keys, unitFileName n = unitFileName n' → n = n'

theorem filesDiffer_iff (units : Table String (List Char)) : FilesDiffer units ↔
    ∀ n ∈ units.keys, ∀ n' ∈ units.keys,
      Project.SameButDots (Project.plainName n) (Project.plainName n') → n = n' := by
  unfold FilesDiffer
  simp only [Project.unitFileName_eq_iff]

theorem nodup_unitFile_iff (d : Division) :
    ((d.units.toList.map (unitFile d)).map Prod.fst).Nodup ↔ FilesDiffer d.units := by
  have hnames : (d.units.toList.map (unitFile d)).map Prod.fst =
      d.units.keys.map fun n => [unitFileName n] := by
    simp [Table.keys, Table.toList, unitFile, Function.comp_def]
  have hkeys : d.units.keys.Nodup := d.units.nodup
  rw [hnames, List.nodup_map_iff_inj_on hkeys]
  simp only [List.cons.injEq, and_true]
  rfl

/-- In an empty folder each unit of a text has its file in the end exactly if the system takes all
their names and no two of them are the same. -/
theorem writeUnits_keeps_iff {text : List Char} (hm : Leads m folder q)
    (hempty : m.disk.below q = []) :
    (∃ names m', writeUnits (divide text) folder (divide text).units.toList m = .ok names m' ∧
        m'.disk.below q = (divide text).units.toList.map (unitFile (divide text))) ↔
      (∀ n ∈ (divide text).units.keys, Fits folder (unitFileName n)) ∧
        FilesDiffer (divide text).units := by
  have hnew := onlyNew_of_below hempty
  have hnames : ∀ u ∈ (divide text).units.toList, IsUnitName u.1 := fun u hu =>
    isUnitName_of_mem_keys (List.mem_map_of_mem hu)
  have hkeys : (∀ n ∈ (divide text).units.keys, Fits folder (unitFileName n)) ↔
      ∀ u ∈ (divide text).units.toList, Fits folder (unitFileName u.1) := by
    simp [Table.keys, Table.toList]
  rw [hkeys]
  by_cases hfits : ∀ u ∈ (divide text).units.toList, Fits folder (unitFileName u.1)
  · have hwrite := writeUnits_of_fits (d := divide text) hm hnew hnames hfits
    have hbelow : (putUnits (divide text) q (divide text).units.toList m.disk).below q =
        (Table.ofList ((divide text).units.toList.map (unitFile (divide text)))).toList :=
      below_putUnits_of_empty hempty
    rw [← nodup_unitFile_iff, ← Table.toList_ofList_eq_iff, ← hbelow]
    constructor
    · intro hrun
      obtain ⟨names, m', hok, hfiles⟩ := hrun
      rw [hwrite] at hok
      cases hok
      exact ⟨hfits, hfiles⟩
    · intro hdiffer
      obtain ⟨-, hfiles⟩ := hdiffer
      exact ⟨_, _, hwrite, hfiles⟩
  · obtain ⟨fault, m', herror⟩ := writeUnits_of_not_fits (d := divide text) hm hnew hnames hfits
    constructor
    · intro hrun
      obtain ⟨names, m'', hok, -⟩ := hrun
      rw [herror] at hok
      cases hok
    · exact fun h => absurd h.1 hfits

theorem unitsToFolder_eq {r : Runner} {s : Subject} {output : Json.Value} {m₀ m₁ : Machine}
    (hdivide : decompileAndDivide r s m₀ = .ok d m₁)
    (houtput : outputFolder output m₁ = .ok folder m) :
    unitsToFolder r s output m₀ = writeUnits d folder d.units.toList m := by
  rw [unitsToFolder, bind_ok hdivide, bind_ok houtput]

end Decompilation.Service
