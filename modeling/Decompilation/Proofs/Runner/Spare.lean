import Decompilation.Proofs.Disk.Spared
import Decompilation.Proofs.Runner.Host

/-!
# What runs leave alone

ilspycmd and dotnet write below the folders that they are given (`Toolbox.Tidy`). Then a run changes,
besides its output folder, only what is reached through the file of settings or the tools folder
(`Runner.Reaches`), whatever it comes to: `hosts_spared` and `receives_spared`.
-/

namespace Decompilation

open Act
open Disk (Ordinary)
open Files (Takes)

/-! ## Programs that write where they are told to -/

/-- A name leads on from a folder, and never up. -/
structure Deposit.Inside (name : String) : Prop where
  relative : (Path.ofString name).isAnchored = false
  named : (Path.ofString name).segments ≠ []
  down : ".." ∉ (Path.ofString name).segments

def Deposit.isLink : Deposit → Bool
  | .link _ => true
  | _ => false

/-- What a program leaves lies below its output folder, and nothing is left through a link: what lies at
or behind the name of a link is that link. -/
structure Deposit.Tidy (files : List (String × Deposit)) : Prop where
  inside : ∀ e ∈ files, Inside e.1
  apart : ∀ l ∈ files, l.2.isLink = true → ∀ e ∈ files,
    (Path.ofString l.1).segments <+: (Path.ofString e.1).segments → e = l

/-- What a program leaves, if it comes to an end, is tidy. -/
def Reaction.Tidy : Reaction → Prop
  | .ended files _ _ _ => Deposit.Tidy files
  | _ => True

/-- ilspycmd writes below its output folder, and dotnet below the folder for its tools. Links that dotnet
leaves would stay there, and lead what it leaves the next time elsewhere, so it leaves none. -/
structure Toolbox.Tidy (t : Toolbox) : Prop where
  runs : ∀ reaction ∈ t.runs, reaction.Tidy
  manage : ∀ action, (t.manage action).Tidy
  plain : ∀ action files code output errors, t.manage action = .ended files code output errors →
    ∀ e ∈ files, e.2.isLink = false

theorem Toolbox.Tidy.next {t : Toolbox} (h : t.Tidy) : t.nextRun.1.Tidy ∧ t.nextRun.2.Tidy := by
  obtain ⟨version, manage, runs⟩ := t
  rcases runs with _ | ⟨first, _ | ⟨second, rest⟩⟩
  · exact ⟨⟨List.forall_mem_nil _, fun _ hl => absurd hl List.not_mem_nil⟩, h⟩
  · exact ⟨h.runs first (by simp), h⟩
  · exact ⟨h.runs first (by simp), fun reaction hmem => h.runs reaction (List.mem_cons_of_mem _ hmem),
      h.manage, h.plain⟩

theorem Deposit.inside_source : Inside "A.cs" := by
  have hpath : Path.ofString "A.cs" = ⟨.here, ["A.cs"]⟩ := by decide
  refine ⟨?_, ?_, ?_⟩ <;>
  · rw [hpath]
    decide

/-- An ilspycmd that leaves one file is tidy. -/
theorem Toolbox.tidy_of_single (f : File) (code : Int) (said errors : String) :
    Toolbox.Tidy { Toolbox.idle with runs := [.ended [("A.cs", .file f)] code said errors] } where
  runs reaction hmem := by
    obtain rfl := List.mem_singleton.1 hmem
    refine ⟨fun e he => ?_, fun l hl hlink => ?_⟩
    · obtain rfl := List.mem_singleton.1 he
      exact Deposit.inside_source
    · obtain rfl := List.mem_singleton.1 hl
      cases hlink
  manage _ := ⟨List.forall_mem_nil _, fun _ hl => absurd hl List.not_mem_nil⟩
  plain action files code output errors h e he := by
    cases h
    cases he

theorem Deposit.Inside.ordinary {name : String} (h : Deposit.Inside name) :
    ∀ n ∈ (Path.ofString name).segments, Ordinary n := by
  intro n hn
  obtain ⟨hne, hdot, -⟩ := Path.canonical_ofString name n hn
  refine ⟨not_or.2 ⟨hne, hdot⟩, ?_⟩
  rintro rfl
  exact h.down hn

theorem Deposit.Inside.div_eq {name : String} (h : Deposit.Inside name) (folder : Path) :
    folder / name = { folder with segments := folder.segments ++ (Path.ofString name).segments } := by
  change Path.join folder (Path.ofString name) = _
  rw [Path.join, h.relative]
  rfl

namespace Runner

variable {r : Runner} {reach : Disk → Place → Prop} {m₀ m : Machine} {folder : Path} {t : Place}
  {names : List String} {n : Node} {f : File}

/-! ## What a run reaches besides its output -/

/-- What a run may reach on a disk, which has become of that of a machine: the file of settings or the
file that it links to, what is at or below the tools folder, and what the tools folder lay in if that
was missing. -/
inductive Reaches (r : Runner) (m : Machine) (d : Disk) (q : Place) : Prop
  | settings {p : Path} (file : Settings.file m = .ok p m) (leads : d.place m.cwd .find p = .ok q)
  | tools {names : List String} (down : ∀ n ∈ names, Ordinary n)
      (leads : d.place m.cwd .find (under r.toolsFolder names) = .ok q)
  | parent {front : List String} (above : front <+: r.toolsFolder.segments)
      (leads : d.place m.cwd .find { r.toolsFolder with segments := front } = .ok q)
      (missing : m.disk.node? q = none) (made : d.node? q = some .folder)

/-- A machine that differs from another one only in a temporary folder, where there are no links yet,
and where something is reached, and on which programs are tidy. -/
def SparedTidy (reach : Disk → Place → Prop) (m₀ : Machine) (folder : Path) (t : Place)
    (m : Machine) : Prop :=
  Filled reach m₀ folder t (fun _ => False) m ∧ m.toolbox.Tidy

theorem takes_sparedTidy {p : Path} (h : Takes (Filled reach m₀ folder t fun _ => False) p n) :
    Takes (SparedTidy reach m₀ folder t) p n := fun m aim q hm hplace hfree =>
  ⟨h m aim q hm.1 hplace hfree, hm.2⟩

theorem steady_sparedTidy : Steady (SparedTidy reach m₀ folder t) where
  of_eq hm hdisk hcwd _ _ htoolbox _ := ⟨hm.1.of_eq hdisk hcwd, htoolbox ▸ hm.2⟩
  next hm := ⟨hm.1.of_eq rfl rfl, hm.2.next.2⟩

theorem calm_spared : Calm (Spared reach m₀ t) where
  reread _ hm := hm.of_eq rfl rfl
  dotnet _ hm := hm.of_eq rfl rfl

/-- The names of the links among what a program leaves. -/
def LinkedBy (files : List (String × Deposit)) (names : List String) : Prop :=
  ∃ l ∈ files, l.2.isLink = true ∧ (Path.ofString l.1).segments = names

/-- What is tidy is left in the temporary folder, with its links. -/
theorem keeps_leave_filled {files : List (String × Deposit)} (hlasting : Lasting m₀.cwd reach)
    (hfolder : folder.Canonical) (h : Deposit.Tidy files) :
    Keeps (Filled reach m₀ folder t (LinkedBy files))
      (Process.leave (Path.ofString folder.toString) files) := by
  refine Process.keeps_leave fun ⟨name, d⟩ he => ?_
  have hname : Deposit.Inside name := h.inside _ he
  have hway : ∀ front, front <+: (Path.ofString name).segments → LinkedBy files front →
      front = (Path.ofString name).segments ∧ d.isLink = true := by
    rintro _ hfront ⟨l, hl, hlink, rfl⟩
    obtain rfl := h.apart l hl hlink _ he hfront
    exact ⟨rfl, hlink⟩
  have hbelow : ∀ n : Node, d.isLink = false → (∀ target, n ≠ .link target) →
      Takes (Filled reach m₀ folder t (LinkedBy files))
        { folder with segments := folder.segments ++ (Path.ofString name).segments } n :=
    fun n hd hn => Filled.takes_below hlasting hname.named hname.ordinary
      (fun front hfront hlinked => absurd (hway front hfront hlinked).2 (by simp [hd]))
      fun target hlink => absurd hlink (hn target)
  rw [Path.ofString_toString hfolder, hname.div_eq]
  refine Files.keeps_deposit (fun front hfront => ?_) ?_ ?_ ?_
  · rw [List.dropLast_append_of_ne_nil hname.named] at hfront
    refine Filled.takes_folders hlasting
      (fun n hn => hname.ordinary n ((List.dropLast_prefix _).subset hn)) (fun front hfront hlinked => ?_)
      front hfront
    -- the name of a link is never the front of another name
    have hsame := (hway front (hfront.trans (List.dropLast_prefix _)) hlinked).1
    have hlength := hfront.length_le
    rw [hsame, List.length_dropLast] at hlength
    have hpos : 0 < (Path.ofString name).segments.length := List.length_pos_iff.2 hname.named
    omega
  · rintro rfl
    exact hbelow _ rfl (by simp)
  · rintro f rfl
    exact hbelow _ rfl (by simp)
  · rintro target rfl
    exact Filled.takes_below hlasting hname.named hname.ordinary
      (fun front hfront hlinked => ⟨(hway front hfront hlinked).1, target, rfl⟩)
      fun _ _ => ⟨_, he, rfl, rfl⟩

/-- Running ilspycmd into the temporary folder. -/
theorem receives_spared (hlasting : Lasting m₀.cwd reach) (hfolder : folder.Canonical) :
    Receives folder (SparedTidy reach m₀ folder t) (Spared reach m₀ t) where
  weaken _ hm := hm.1.toSpared
  folders front hfront := takes_sparedTidy <| Filled.takes_folders hlasting
    (List.forall_mem_nil _) (by simp) front (by simpa using hfront)
  files names hne hnames f :=
    takes_sparedTidy (Filled.takes_below hlasting hne hnames (by simp) (by simp))
  runs hm hnext m' hm' := by
    have htidy := hm.2.next.1
    rw [hnext] at htidy
    exact (keeps_leave_filled hlasting hfolder htidy m' (hm'.1.mono fun _ => False.elim)).toSpared

/-! ## Temporary folders -/

theorem canonical_of_freshPath? {m : Machine} (hscratch : m.scratch.Canonical)
    (h : Files.freshPath? m = some folder) : folder.Canonical := by
  obtain ⟨n, -, rfl⟩ := List.mem_map.1 (List.mem_of_find?_eq_some h)
  have hname : Files.scratchName n = "dotnetdc-" ++ n.repr := rfl
  rw [hname]
  refine hscratch.child ⟨?_, ?_, ?_⟩
  · simp [← String.toList_inj]
  · simp [← String.toList_inj]
  · rw [String.toList_append, List.mem_append, not_or]
    refine ⟨by decide, fun hslash => ?_⟩
    have hdigit := Nat.isDigit_of_mem_toDigits (by decide) (by decide) (Nat.toList_repr ▸ hslash)
    exact absurd hdigit (by decide)

end Runner

end Decompilation
