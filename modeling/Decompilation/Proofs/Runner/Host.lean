import Decompilation.Proofs.Disk.Access
import Decompilation.Proofs.Project.Names
import Decompilation.Runner.Output
import Decompilation.Runner.Run

/-!
# What runs keep

Reading settings keeps whatever does not depend on what was read (`Calm`), and looking for ilspycmd what
is kept, besides, where one is remembered and saved as a setting (`Seeks`). Installing ilspycmd and
running it keep whatever does not depend on what is remembered (`Steady`), provided that it is kept by
what they write: the file of settings and what goes into the tools folder (`Hosts`), and what goes into
the output folder of a run, which may give up something of it (`Receives`).
-/

namespace Decompilation

open Act
open Disk (Ordinary)
open Files (Takes)
open Json (Value)

/-- A property of machines that depends neither on the settings that were read nor on the dotnet that was
found. -/
structure Calm (P : Machine → Prop) : Prop where
  reread : ∀ {m : Machine} (settings : SettingsCache), P m → P { m with settings }
  dotnet : ∀ {m : Machine} (dotnet : Option String), P m →
    P { m with memory := { m.memory with dotnet } }

/-- A property of machines that depends on nothing but the disk, the place where one stands, the
environment, the accounts' homes, the programs' reactions and the ilspycmd that is remembered. -/
structure Steady (P : Machine → Prop) : Prop where
  of_eq : ∀ {m m' : Machine}, P m → m'.disk = m.disk → m'.cwd = m.cwd →
    m'.environment = m.environment → m'.homes = m.homes → m'.toolbox = m.toolbox →
    m'.memory.ilspycmd = m.memory.ilspycmd → P m'
  next : ∀ {m : Machine}, P m → P { m with toolbox := m.toolbox.nextRun.2 }

variable {P Q : Machine → Prop}

theorem Steady.calm (h : Steady P) : Calm P where
  reread _ hm := h.of_eq hm rfl rfl rfl rfl rfl rfl
  dotnet _ hm := h.of_eq hm rfl rfl rfl rfl rfl rfl

theorem Calm.and (h : Calm P) (h' : Calm Q) : Calm fun m => P m ∧ Q m where
  reread settings hm := ⟨h.reread settings hm.1, h'.reread settings hm.2⟩
  dotnet found hm := ⟨h.dotnet found hm.1, h'.dotnet found hm.2⟩

theorem Steady.and (h : Steady P) (h' : Steady Q) : Steady fun m => P m ∧ Q m where
  of_eq hm hdisk hcwd henvironment hhomes htoolbox hmemory :=
    ⟨h.of_eq hm.1 hdisk hcwd henvironment hhomes htoolbox hmemory,
      h'.of_eq hm.2 hdisk hcwd henvironment hhomes htoolbox hmemory⟩
  next hm := ⟨h.next hm.1, h'.next hm.2⟩

/-! ## Settings -/

namespace Settings

theorem keeps_entriesIn (p : Path) : Keeps P (entriesIn p) := by
  refine ((Files.keeps_readLines p).bind fun _ => .pure _).orElse fun f => ?_
  split
  · exact .pure _
  · exact .throw _

theorem keeps_file : Keeps P file := Keeps.cwdPath.bind fun _ => .pure _

theorem keeps_load (h : Calm P) (again : Bool) : Keeps P (load again) := by
  refine .bind .get fun m => ?_
  split
  · exact .pure _
  refine keeps_file.bind fun p => (Files.keeps_isThere p).bind fun there => ?_
  have hkeep : ∀ entries, Keeps P
      (modify fun m : Machine => { m with settings := ⟨entries, true⟩ }) := fun entries =>
    .modify fun _ => h.reread ⟨entries, true⟩
  split
  · exact (keeps_entriesIn p).bind hkeep
  · exact (Keeps.pure _).bind hkeep

theorem keeps_get? (h : Calm P) (key : String) : Keeps P (get? key) := by
  refine .bind .get fun m => ?_
  split
  · exact .pure _
  · exact (keeps_load h false).bind fun _ => .bind .get fun _ => .pure _

theorem keeps_getInt (h : Calm P) (key : String) (default : Int) : Keeps P (getInt key default) :=
  ((keeps_get? h key).bind fun _ => .pure _).bind fun _ => .pure _

theorem keeps_setVariable
    (h : ∀ {m : Machine} (environment : Table String String), P m → P { m with environment })
    (key value : String) : Keeps P (setVariable key value) := by
  unfold setVariable
  split
  · exact .throw _
  split
  · exact .throw _
  split
  · exact .throw _
  · exact .modify fun m => h _

theorem keeps_currentText (p : Path) : Keeps P (currentText p) := by
  refine (Files.keeps_isThere p).bind fun there => ?_
  split
  · exact Files.keeps_readText p
  · exact .pure _

theorem file_cases {m m' : Machine} {p : Path} (h : file m = .ok p m') : m' = m :=
  (keeps_file (P := (· = m))).ok rfl h

/-- Saving a setting writes the file of settings. -/
theorem keeps_save (h : Calm P)
    (henvironment : ∀ {m : Machine} (environment : Table String String), P m →
      P { m with environment })
    (hfile : ∀ {m p}, P m → file m = .ok p m → ∀ f, Takes P p (.file f)) (key value : String) :
    Keeps P (save key value none) := by
  refine (keeps_setVariable henvironment key value).bind fun _ => ?_
  refine keeps_file.bind_run fun m p m' hm hp => ?_
  obtain rfl := file_cases hp
  have hsave : Keeps P (do
      let text ← currentText p
      Files.writeText p (EnvFile.assign key value text)
      modify fun m : Machine =>
        { m with settings := { m.settings with entries := m.settings.entries.insert key value } }
      return p) :=
    (keeps_currentText p).bind fun _ => (Files.keeps_writeText (hfile hm hp) _).bind fun _ =>
      .bind (.modify fun _ => h.reread _) fun _ => .pure _
  exact hsave m' hm

theorem keeps_status (h : Calm P) : Keeps P status :=
  (keeps_load h false).bind fun _ => .bind .get fun _ => .pure _

end Settings

/-! ## Programs -/

namespace Process

theorem react_cases {command : List String} {m m' : Machine} {answer : Reaction × String}
    (h : react command m = .ok answer m') :
    m' = m ∨ m' = { m with toolbox := m.toolbox.nextRun.2 } := by
  rw [react, bind_ok (get_eq m)] at h
  dsimp only at h
  split at h
  · cases h
    exact .inl rfl
  · cases h
    exact .inl rfl
  · cases h
    exact .inr rfl

/-- dotnet's tool command is asked for an action. -/
theorem react_tool (dotnet action folder : String) (m : Machine) :
    react [dotnet, "tool", action, "ilspycmd", "--tool-path", folder] m =
      .ok (m.toolbox.manage action, "--tool-path") m := rfl

theorem keeps_react (h : Steady P) (command : List String) : Keeps P (react command) := by
  intro m hm
  cases hreact : react command m with
  | ok answer m' =>
    rw [after_ok hreact]
    rcases react_cases hreact with rfl | rfl
    · exact hm
    · exact h.next hm
  | error f m' =>
    rw [react, bind_ok (get_eq m)] at hreact
    dsimp only at hreact
    split at hreact <;> cases hreact

theorem keeps_leave {folder : Path} {files : List (String × Deposit)}
    (h : ∀ e ∈ files, Keeps P (Files.deposit (folder / e.1) e.2)) : Keeps P (leave folder files) := by
  induction files with
  | nil => exact .pure _
  | cons e rest ih =>
    exact (h e (List.mem_cons_self ..)).bind fun _ => ih fun e' he' => h e' (List.mem_cons_of_mem _ he')

/-- A program that is started changes what the files do that it leaves. -/
theorem turns_start (h : Steady P) (hweaken : ∀ m, P m → Q m) {command : List String}
    (hleave : ∀ {m m' files code output errors flag p}, P m →
      react command m = .ok (.ended files code output errors, flag) m' →
      argumentOf? flag command.tail = some p → Turns P Q (leave (Path.ofString p) files))
    (seconds : Value) : Turns P Q (start command seconds) := by
  refine .bind_run (keeps_react h command) hweaken ?_
  rintro m ⟨reaction, flag⟩ m' hm hreact
  have hrecord : Keeps P (modify fun m : Machine =>
      { m with calls := m.calls ++ [⟨command, seconds, reaction.starts⟩] }) :=
    .modify fun _ hm => h.of_eq hm rfl rfl rfl rfl rfl rfl
  refine Turns.bind hrecord hweaken (fun _ => ?_) m' ((keeps_react h command).ok hm hreact)
  cases reaction with
  | overrun => exact hweaken
  | failure message => exact hweaken
  | ended files code output errors =>
    refine Turns.orElse ?_ fun f => .pure _
    dsimp only
    split
    · rename_i p hp
      exact (hleave hm hreact hp).bind_keeps fun _ => .pure _
    · exact hweaken

end Process

/-! ## Finding and installing ilspycmd -/

/-- A property of machines that is kept where ilspycmd is remembered and saved as a setting. -/
structure Seeks (P : Machine → Prop) : Prop extends Calm P where
  remember : ∀ {m : Machine} (path : String), P m →
    P { m with memory := { m.memory with ilspycmd := some path } }
  environment : ∀ {m : Machine} (environment : Table String String), P m → P { m with environment }
  settings : ∀ {m : Machine} {p : Path}, P m → Settings.file m = .ok p m →
    ∀ f, Takes P p (.file f)

/-- A property of machines that is kept where ilspycmd is remembered, saved as a setting and
installed. -/
structure Hosts (r : Runner) (P : Machine → Prop) : Prop extends Steady P where
  remember : ∀ {m : Machine} (path : String), P m →
    P { m with memory := { m.memory with ilspycmd := some path } }
  environment : ∀ {m : Machine} (environment : Table String String), P m → P { m with environment }
  settings : ∀ {m : Machine} {p : Path}, P m → Settings.file m = .ok p m →
    ∀ f, Takes P p (.file f)
  folders : ∀ front, front <+: r.toolsFolder.segments →
    Takes P { r.toolsFolder with segments := front } .folder
  tools : ∀ {m : Machine} {action : String} {files : List (String × Deposit)} {code : Int}
    {output errors : String}, P m → m.toolbox.manage action = .ended files code output errors →
    ∀ e ∈ files, Keeps P (Files.deposit (Path.ofString r.toolsFolder.toString / e.1) e.2)

theorem Hosts.seeks {r : Runner} (h : Hosts r P) : Seeks P where
  toCalm := h.toSteady.calm
  remember := h.remember
  environment := h.environment
  settings := h.settings

/-- A property that is kept wherever something is put. -/
theorem Files.keeps_deposit_of_takes (h : ∀ p n, Takes P p n) (p : Path) (d : Deposit) :
    Keeps P (deposit p d) :=
  keeps_deposit (fun _ _ => h _ _) (fun _ => h _ _) (fun _ _ => h _ _) fun _ _ => h _ _

theorem Hosts.of_takes {r : Runner} (h : Steady P)
    (hremember : ∀ {m : Machine} (path : String), P m →
      P { m with memory := { m.memory with ilspycmd := some path } })
    (henvironment : ∀ {m : Machine} (environment : Table String String), P m →
      P { m with environment })
    (htakes : ∀ p n, Takes P p n) : Hosts r P where
  toSteady := h
  remember := hremember
  environment := henvironment
  settings _ _ _ := htakes _ _
  folders _ _ := htakes _ _
  tools _ _ _ _ := Files.keeps_deposit_of_takes htakes _ _

namespace Runner

variable {r : Runner} {assembly output : Path}

theorem keeps_environmentText (key : String) : Keeps P (environmentText key) :=
  .bind .get fun _ => .pure _

theorem keeps_onWindows : Keeps P onWindows := .bind .get fun _ => .pure _

theorem keeps_localTool (r : Runner) : Keeps P (localTool r) := keeps_onWindows.bind fun _ => .pure _

theorem keeps_expandHome (p : Path) : Keeps P (expandHome p) := by
  unfold expandHome
  split
  · split
    · dsimp only
      split
      · exact .throw_bind _ _
      refine .bind .get fun m => ?_
      split
      · split
        · exact .throw_bind _ _
        · exact .pure _
      · exact .throw _
    · exact .pure _
  · exact .pure _

theorem keeps_home : Keeps P home := keeps_expandHome _

theorem keeps_firstExisting? (paths : List Path) : Keeps P (firstExisting? paths) := by
  induction paths with
  | nil => exact .pure _
  | cons p paths ih =>
    refine (Files.keeps_isThere p).bind fun there => ?_
    split
    · exact .pure _
    · exact ih

theorem keeps_remember (h : Seeks P) (path : String) : Keeps P (remember path) :=
  .modify fun _ => h.remember path

theorem keeps_persist (h : Seeks P) (path : String) : Keeps P (persist path) :=
  .optional ((Settings.keeps_save h.toCalm h.environment h.settings _ path).bind fun _ => .pure _)

theorem keeps_usualPaths : Keeps P usualPaths := by
  refine keeps_home.bind fun _ => keeps_onWindows.bind fun windows => ?_
  split
  · exact (keeps_environmentText _).bind fun _ => .pure _
  · exact .pure _

theorem keeps_configured? (h : Calm P) : Keeps P configured? := by
  refine (Settings.keeps_get? h _).bind fun setting => ?_
  split
  · split
    · exact .pure _
    refine (Files.keeps_isThere _).bind fun there => ?_
    split <;> exact .pure _
  · exact .pure _

theorem keeps_public? : Keeps P public? := by
  refine .bind .get fun m => ?_
  split
  · exact .pure _
  · exact keeps_usualPaths.bind fun _ => (keeps_firstExisting? _).bind fun _ => .pure _

theorem keeps_find? (h : Seeks P) : Keeps P (find? r) := by
  refine .bind .get fun m => ?_
  split
  · exact .pure _
  refine (keeps_configured? h.toCalm).bind fun configured => ?_
  split
  · exact (keeps_remember h _).bind fun _ => .pure _
  refine (keeps_localTool r).bind fun own => (Files.keeps_isThere own).bind fun there => ?_
  split
  · exact (keeps_remember h _).bind fun _ => .pure _
  refine keeps_public?.bind fun found => ?_
  split
  · exact (keeps_remember h _).bind fun _ => (keeps_persist h _).bind fun _ => .pure _
  · exact .pure _

theorem keeps_usualDotnetPaths : Keeps P usualDotnetPaths := by
  refine keeps_onWindows.bind fun windows => ?_
  split
  · exact (keeps_environmentText _).bind fun _ => .pure _
  · exact keeps_home.bind fun _ => .pure _

theorem keeps_findDotnet? (h : Calm P) : Keeps P findDotnet? := by
  refine .bind .get fun m => ?_
  split
  · exact .pure _
  have hremember : ∀ found : Option String, Keeps P (do
      modify fun m : Machine => { m with memory := { m.memory with dotnet := found } }
      return found) := fun found =>
    .bind (.modify fun _ => h.dotnet found) fun _ => .pure _
  dsimp only
  split
  · exact (Keeps.pure _).bind hremember
  · exact keeps_usualDotnetPaths.bind fun _ => (keeps_firstExisting? _).bind fun _ => hremember _

/-- One of dotnet's tool actions leaves its files in the tools folder. -/
theorem keeps_toolAction (h : Hosts r P) (dotnet : String) {action : String}
    (haction : action ≠ "--tool-path") (seconds : Value) :
    Keeps P (Process.start [dotnet, "tool", action, "ilspycmd", "--tool-path",
      r.toolsFolder.toString] seconds) := by
  refine Process.turns_start h.toSteady (fun _ hm => hm)
    (fun {m m' files code output errors flag p} hm hreact hp => ?_) seconds
  rw [Process.react_tool] at hreact
  simp only [EStateM.Result.ok.injEq, Prod.mk.injEq] at hreact
  obtain ⟨⟨hreaction, rfl⟩, -⟩ := hreact
  have hfolder : p = r.toolsFolder.toString := by
    simpa [Process.argumentOf?, haction, eq_comm] using hp
  rw [hfolder]
  exact Process.keeps_leave (h.tools hm hreaction)

theorem keeps_tryActions (h : Hosts r P) (dotnet said : String) {actions : List String}
    (hactions : "--tool-path" ∉ actions) :
    Keeps P (tryActions dotnet r.toolsFolder.toString said actions) := by
  induction actions generalizing said with
  | nil => exact .pure _
  | cons action rest ih =>
    rw [List.mem_cons, not_or] at hactions
    refine (keeps_toolAction h dotnet (Ne.symm hactions.1) _).bind fun answer => ?_
    split
    · exact ih _ hactions.2
    · split
      · exact .pure _
      · exact ih _ hactions.2

theorem keeps_install (h : Hosts r P) (dotnet : String) : Keeps P (install r dotnet) :=
  (Files.keeps_makeFolders h.folders).bind fun _ => keeps_tryActions h _ _ (by decide)

theorem keeps_resolve (h : Hosts r P) : Keeps P (resolve r) := by
  refine (keeps_find? h.seeks).bind fun found => ?_
  split
  · exact .pure _
  refine (keeps_findDotnet? h.toSteady.calm).bind fun dotnet => ?_
  split
  · exact .throw _
  refine (keeps_install h _).bind fun said => (keeps_localTool r).bind fun own =>
    (Files.keeps_isThere own).bind fun there => ?_
  split
  · exact (keeps_remember h.seeks _).bind fun _ => (keeps_persist h.seeks _).bind fun _ => .pure _
  · split <;> exact .throw _

/-! ## Running it -/

/-- A property of machines that is kept where an output folder is made and becomes another one where a
run fills the folder. -/
structure Receives (output : Path) (P Q : Machine → Prop) : Prop where
  weaken : ∀ m, P m → Q m
  folders : ∀ front, front <+: output.segments → Takes P { output with segments := front } .folder
  files : ∀ names, names ≠ [] → (∀ n ∈ names, Ordinary n) →
    ∀ f, Takes P { output with segments := output.segments ++ names } (.file f)
  runs : ∀ {m : Machine} {files : List (String × Deposit)} {code : Int} {said errors : String},
    P m → m.toolbox.nextRun.1 = .ended files code said errors →
    Turns P Q (Process.leave (Path.ofString output.toString) files)

theorem Receives.of_takes (h : ∀ p n, Takes P p n) : Receives output P P where
  weaken _ hm := hm
  folders _ _ := h _ _
  files _ _ _ _ := h _ _
  runs _ _ := Process.keeps_leave fun _ _ => Files.keeps_deposit_of_takes h _ _

theorem Receives.and {P' Q' : Machine → Prop} (h : Receives output P Q) (h' : Receives output P' Q') :
    Receives output (fun m => P m ∧ P' m) fun m => Q m ∧ Q' m where
  weaken m hm := ⟨h.weaken m hm.1, h'.weaken m hm.2⟩
  folders front hfront := (h.folders front hfront).and (h'.folders front hfront)
  files names hne hnames f := (h.files names hne hnames f).and (h'.files names hne hnames f)
  runs hm hnext m' hm' := ⟨h.runs hm.1 hnext m' hm'.1, h'.runs hm.2 hnext m' hm'.2⟩

theorem arguments_eq (assembly output : Path) (typeName : Value) (disassembled : Bool) :
    ∃ rest, arguments assembly output typeName disassembled = "-o" :: output.toString :: rest :=
  ⟨_, by rw [arguments, List.append_assoc, List.append_assoc]; rfl⟩

/-- A run leaves its files in its output folder. -/
theorem turns_start_run (h : Steady P) (hout : Receives output P Q) (tool : String)
    (rest : List String) (seconds : Value) :
    Turns P Q (Process.start (tool :: "-o" :: output.toString :: rest) seconds) := by
  refine Process.turns_start h hout.weaken
    (fun {m m' files code said errors flag p} hm hreact hp => ?_) seconds
  have hrun : Process.react (tool :: "-o" :: output.toString :: rest) m =
      .ok (m.toolbox.nextRun.1, "-o") { m with toolbox := m.toolbox.nextRun.2 } := rfl
  rw [hrun] at hreact
  simp only [EStateM.Result.ok.injEq, Prod.mk.injEq] at hreact
  obtain ⟨⟨hreaction, rfl⟩, -⟩ := hreact
  have hfolder : p = output.toString := by
    simpa [Process.argumentOf?, eq_comm] using hp
  rw [hfolder]
  exact hout.runs hm hreaction

theorem turns_run (h : Steady P) (hresolve : Keeps P (resolve r)) (hout : Receives output P Q)
    (typeName : Value) (disassembled : Bool) :
    Turns P Q (run r (arguments assembly output typeName disassembled) assembly) := by
  obtain ⟨rest, hrest⟩ := arguments_eq assembly output typeName disassembled
  rw [hrest]
  refine .bind hresolve hout.weaken fun tool =>
    (turns_start_run h hout tool rest _).bind_keeps fun answer => ?_
  split
  · exact .throw _
  · exact .throw _
  · split
    · exact .pure _
    · exact .throw _

theorem besides_cases {p : Path} {suffix : String} {m m' : Machine}
    (h : besides assembly suffix m = .ok p m') :
    assembly.withSuffix? suffix = some p ∧ m' = m := by
  rw [besides] at h
  cases hp : assembly.withSuffix? suffix with
  | none =>
    rw [hp] at h
    cases h
  | some p' =>
    rw [hp] at h
    cases h
    exact ⟨rfl, rfl⟩

theorem exists_of_withSuffix {p : Path} {suffix : String} (h : assembly.withSuffix? suffix = some p) :
    ∃ s, p = assembly.parent.child (s ++ suffix) := by
  unfold Path.withSuffix? at h
  split at h
  · cases h
  · cases h
    exact ⟨_, rfl⟩

theorem ordinary_name_of_withSuffix {p : Path} {suffix : String} (hlen : 3 ≤ suffix.toList.length)
    (h : assembly.withSuffix? suffix = some p) : Ordinary p.name := by
  obtain ⟨s, rfl⟩ := exists_of_withSuffix h
  have hname : (assembly.parent.child (s ++ suffix)).name = s ++ suffix := by
    simp [Path.name, Path.child]
  rw [hname]
  apply Project.ordinary_of_length
  rw [String.toList_append, List.length_append]
  exact Nat.le_add_left_of_le hlen

theorem keeps_copySymbols (hout : Receives output P Q) : Keeps P (copySymbols assembly output) := by
  have hbesides : Keeps P (besides assembly ".pdb") := by
    unfold besides
    split
    · exact .pure _
    · exact .throw _
  refine hbesides.bind_run fun m symbols m' hm hsymbols => ?_
  obtain ⟨hsuffix, rfl⟩ := besides_cases hsymbols
  have hname : Ordinary symbols.name := ordinary_name_of_withSuffix (by decide) hsuffix
  have hcopy : Keeps P (Files.copyFile symbols (output.child symbols.name)) := by
    refine Files.keeps_copyFile (hout.files [symbols.name] (by simp) (by simpa using hname)) ?_
    have hinner := hout.files [symbols.name, symbols.name] (by simp) (by simpa using hname)
    simpa [Path.child] using hinner
  refine ((Files.keeps_isFile symbols).bind fun there => ?_) m' hm
  split
  · exact .optional hcopy
  · exact .pure _

theorem turns_decompileTo (h : Steady P) (hresolve : Keeps P (resolve r)) (hout : Receives output P Q)
    (assembly : Path) (typeName language : Value) :
    Turns P Q (decompileTo r assembly output typeName language) := by
  refine .bind (Files.keeps_makeFolders hout.folders) hout.weaken fun _ =>
    .bind (keeps_copySymbols hout) hout.weaken fun _ => ?_
  split
  · exact hout.weaken
  · exact (turns_run h hresolve hout typeName _).bind_keeps fun _ => .pure _

/-! ## Reading what it leaves -/

theorem keeps_collect (root : Path) (suffixes : List String) : Keeps P (collect root suffixes) :=
  (Files.keeps_filesBelow root).bind fun _ => .pure _

theorem keeps_readUpTo (limit : Value) (total : Int) (files : List Path) :
    Keeps P (readUpTo limit total files) := by
  induction files generalizing total with
  | nil => exact .pure _
  | cons p files ih =>
    refine (Files.keeps_readLenient p).bind fun text => (Keeps.isAbove _ limit).bind fun above => ?_
    dsimp only
    split
    · exact .throw _
    · exact (ih _).bind fun _ => .pure _

theorem keeps_limitOr {limit : Value} {act : Act Int} (h : Keeps P act) :
    Keeps P (limitOr limit act) := by
  unfold limitOr
  split
  · exact h.bind fun _ => .pure _
  · exact .pure _

theorem keeps_readAll (h : Calm P) (files : List Path) (maxFiles maxCharacters : Value) :
    Keeps P (readAll files maxFiles maxCharacters) := by
  refine (keeps_limitOr (Settings.keeps_getInt h _ _)).bind fun maxFiles =>
    (keeps_limitOr (Settings.keeps_getInt h _ _)).bind fun maxCharacters =>
      (Keeps.isAbove _ maxFiles).bind fun above => ?_
  dsimp only
  split
  · exact .throw _
  · exact keeps_readUpTo _ _ _

/-- An assembly decompiled into a folder, and what is read of it there. -/
theorem turns_decompileAndRead (h : Steady P) (hcalm : Calm Q) (hresolve : Keeps P (resolve r))
    (hout : Receives output P Q) (assembly : Path) (typeName language : Value)
    (suffixes : List String) : Turns P Q (do
      decompileTo r assembly output typeName language
      let files ← collect output suffixes
      readAll (files.map (under output)) .null .null) :=
  (turns_decompileTo h hresolve hout assembly typeName language).bind_keeps fun _ =>
    (keeps_collect output suffixes).bind fun _ => keeps_readAll hcalm _ _ _

end Runner

end Decompilation
