import Decompilation.Proofs.Disk.Confined

/-!
# Temporary folders

While something is done in a temporary folder, the disk around it changes only where something else
is reached (`Spared`). That holds after whatever is put below the folder, provided that no link that was
left there is on the way (`Filled.takes_below`), or at a path to what may be reached
(`Filled.takes_found`). Afterwards the folder is gone, and nothing else differs (`withScratch_spares`).
-/

namespace Decompilation

open Disk (Ordinary)
open Files (Leads Takes)

/-- What is reached on a disk is still reached where everything stays. -/
def Lasting (cwd : Place) (reach : Disk → Place → Prop) : Prop :=
  ∀ d d' q, d.Stands cwd → d.Stays d' → d.look? q ≠ none → reach d q → reach d' q

/-- A machine that differs from another one only in a temporary folder, and where something is
reached. -/
structure Spared (reach : Disk → Place → Prop) (m₀ : Machine) (t : Place) (m : Machine) : Prop where
  sound : Sound m₀.cwd m
  stays : m₀.disk.Stays m.disk
  only : ∀ q, m.disk.node? q = m₀.disk.node? q ∨ t <+: q ∨ reach m.disk q

/-- Such a machine, where in the temporary folder there are links at certain names only. -/
structure Filled (reach : Disk → Place → Prop) (m₀ : Machine) (folder : Path) (t : Place)
    (linked : List String → Prop) (m : Machine) : Prop extends Spared reach m₀ t m where
  leads : Leads m folder t
  links : ∀ names target, m.disk.node? (t ++ names) = some (.link target) → linked names

variable {reach : Disk → Place → Prop} {m₀ m m' : Machine} {folder p : Path} {t q : Place}
  {aim : Disk.Aim} {n : Node} {names : List String} {linked linked' : List String → Prop}

namespace Spared

/-- Nothing that a machine remembers makes a difference. -/
theorem of_eq (h : Spared reach m₀ t m) (hdisk : m'.disk = m.disk) (hcwd : m'.cwd = m.cwd) :
    Spared reach m₀ t m' :=
  ⟨h.sound.of_eq hdisk hcwd, hdisk ▸ h.stays, hdisk ▸ h.only⟩

theorem standing (h : Spared reach m₀ t m) : m.disk.Stands m.cwd := h.sound.cwd_eq ▸ h.sound.stands

theorem put (h : Spared reach m₀ t m) (hlasting : Lasting m₀.cwd reach)
    (hplace : m.disk.place m.cwd aim p = .ok q) (hfree : m.disk.Free aim q n)
    (hreach : t <+: q ∨ reach (m.disk.put q n) q) :
    Spared reach m₀ t { m with disk := m.disk.put q n } := by
  have hstays := hfree.stays h.standing hplace
  refine ⟨h.sound.put hplace hfree.look?_ne_folder n, h.stays.trans hstays, fun q' => ?_⟩
  by_cases heq : q' = q
  · exact .inr (heq ▸ hreach)
  rw [Disk.node?_put_of_ne heq]
  rcases h.only q' with hsame | hbelow | hreached
  · exact .inl hsame
  · exact .inr (.inl hbelow)
  · cases hnode : m.disk.node? q' with
    | none =>
      -- nothing that was there before has gone
      refine .inl (Option.eq_none_iff_forall_not_mem.2 fun n' hn' => ?_).symm
      obtain ⟨n'', hn''⟩ := h.stays.exists_node hn'
      rw [hnode] at hn''
      cases hn''
    | some n' =>
      have hlook : m.disk.look? q' ≠ none := by
        rw [Disk.look?, hnode]
        split <;> simp
      exact .inr (.inr (hlasting _ _ _ h.sound.stands hstays hlook hreached))

end Spared

namespace Filled

theorem of_eq (h : Filled reach m₀ folder t linked m) (hdisk : m'.disk = m.disk)
    (hcwd : m'.cwd = m.cwd) : Filled reach m₀ folder t linked m' := by
  refine ⟨h.toSpared.of_eq hdisk hcwd, ⟨h.leads.screened, ?_, h.leads.stands⟩, hdisk ▸ h.links⟩
  rw [hdisk, hcwd]
  exact h.leads.route

theorem mono (h : Filled reach m₀ folder t linked m) (hlinked : ∀ names, linked names → linked' names) :
    Filled reach m₀ folder t linked' m :=
  { h with links := fun names target hlink => hlinked names (h.links names target hlink) }

theorem put (h : Filled reach m₀ folder t linked m) (hlasting : Lasting m₀.cwd reach)
    (hplace : m.disk.place m.cwd aim p = .ok q) (hfree : m.disk.Free aim q n)
    (hlinked : ∀ names target, n = .link target → q = t ++ names → linked names)
    (hreach : t <+: q ∨ reach (m.disk.put q n) q) :
    Filled reach m₀ folder t linked { m with disk := m.disk.put q n } := by
  have hstays := hfree.stays h.standing hplace
  have hne : q ≠ [] := by
    rintro rfl
    exact hfree.look?_ne_folder rfl
  refine ⟨h.toSpared.put hlasting hplace hfree hreach,
    h.leads.of_agree fun p n' hn' hfile => hstays.node? hn' hfile, fun names target hlink => ?_⟩
  by_cases heq : t ++ names = q
  · rw [heq, Disk.node?_put_self hne] at hlink
    exact hlinked names target (Option.some.inj hlink) heq.symm
  · rw [Disk.node?_put_of_ne heq] at hlink
    exact h.links names target hlink

/-- Whatever is put below the temporary folder stays there, if no link is on the way. A link may be made
again where one is. -/
theorem takes_below (hlasting : Lasting m₀.cwd reach) (hne : names ≠ [])
    (hnames : ∀ n ∈ names, Ordinary n)
    (hway : ∀ front, front <+: names → linked front → front = names ∧ ∃ target, n = .link target)
    (hlinked : ∀ target, n = .link target → linked names) :
    Takes (Filled reach m₀ folder t linked)
      { folder with segments := folder.segments ++ names } n := by
  intro m aim q hm hplace hfree
  have hplain : ∀ front target, front <+: names → (aim = .make → front ≠ names) →
      m.disk.node? (t ++ front) ≠ some (.link target) := by
    intro front target hfront hend hlink
    obtain ⟨hsame, target, rfl⟩ := hway front hfront (hm.links front target hlink)
    rcases hfree with ⟨haim, -⟩ | ⟨-, -, f, hf⟩
    · exact hend haim hsame
    · cases hf
  obtain rfl := hm.leads.eq_append_of_place hne hnames hplain hplace
  refine hm.put hlasting hplace hfree (fun names' target hn heq => ?_) (.inl (List.prefix_append _ _))
  rw [← List.append_cancel_left heq]
  exact hlinked target hn

/-- The folders on the way to something below the temporary folder. -/
theorem takes_folders (hlasting : Lasting m₀.cwd reach) (hnames : ∀ n ∈ names, Ordinary n)
    (hway : ∀ front, front <+: names → ¬ linked front) (front : List String)
    (hfront : front <+: folder.segments ++ names) :
    Takes (Filled reach m₀ folder t linked) { folder with segments := front } .folder :=
  Files.takes_folders (fun _ hm => ⟨t, hm.leads⟩) (fun _ hne hback =>
    takes_below hlasting hne (fun n hn => hnames n (hback.subset hn))
      (fun _ hfront hlink => absurd hlink (hway _ (hfront.trans hback))) (by simp)) front hfront

end Filled

namespace Files

open Act

variable {α : Type} {act : Path → Act α} {m₁ : Machine}

/-- A machine is left alone: a temporary folder that it may have had is gone, and nothing else
differs but where something was reached before that. -/
def LeavesAlone (reach : Disk → Place → Prop) (m m' : Machine) : Prop :=
  m'.disk = m.disk ∨ ∃ folder t d, freshPath? m = some folder ∧
    m.disk.place m.cwd .make folder = .ok t ∧ m'.disk = d.removeTree t ∧
    (∀ names, m'.disk.node? (t ++ names) = none) ∧
    ∀ q, m'.disk.node? q = m.disk.node? q ∨ reach d q

/-- A new temporary folder is empty. -/
theorem filled_newFolder (reach : Disk → Place → Prop) (hm : Sound m.cwd m)
    (h : newFolder folder m = .ok t m₁) :
    Filled reach m folder t (fun _ => False) m₁ ∧ m.disk.place m.cwd .make folder = .ok t ∧
      ∀ names, m.disk.node? (t ++ names) = none := by
  obtain ⟨hplace, hlook, rfl⟩ := putNew_cases h
  have hgone : t.isGone = false := by
    cases ht : t.isGone
    · rfl
    · rw [Disk.look?, if_pos ht] at hlook
      cases hlook
  have hnode : m.disk.node? t = none := by rwa [Disk.look?, hgone, if_neg (by simp)] at hlook
  have hne : t ≠ [] := by
    rintro rfl
    cases hnode
  have hfree : m.disk.Free .make t .folder := .inl ⟨rfl, hlook⟩
  have hstays := hfree.stays hm.stands hplace
  have hnothing : ∀ names, m.disk.node? (t ++ names) = none := by
    intro names
    by_cases hnil : names = []
    · rw [hnil, List.append_nil, hnode]
    · exact Disk.below_eq_nil_iff.1 (hm.rooted.below_eq_nil (by simp [hnode])) names hnil
  have hthere : (m.disk.put t .folder).node? t = some .folder := Disk.node?_put_self hne
  refine ⟨⟨⟨hm.put hplace hfree.look?_ne_folder .folder, hstays, fun q => ?_⟩, ?_,
    fun names target => ?_⟩, hplace, hnothing⟩
  · by_cases heq : q = t
    · exact .inr (.inl (heq ▸ List.prefix_rfl))
    · exact .inl (Disk.node?_put_of_ne heq)
  · refine leads_of_place (hfree.place_find hm.stands hplace (by simp)) ?_ hgone
    rw [Disk.look?, hgone, if_neg (by simp)]
    exact hthere
  · by_cases heq : t ++ names = t
    · rw [heq, hthere]
      simp
    · rw [Disk.node?_put_of_ne heq, hnothing]
      simp

theorem leavesAlone_of_spared {m₂ : Machine} (h : Spared reach m t m₂)
    (hfresh : freshPath? m = some folder) (hplace : m.disk.place m.cwd .make folder = .ok t)
    (hnothing : ∀ names, m.disk.node? (t ++ names) = none) :
    LeavesAlone reach m { m₂ with disk := m₂.disk.removeTree t } := by
  have hne : t ≠ [] := by
    rintro rfl
    cases hnothing []
  have hgone : ∀ names, (m₂.disk.removeTree t).node? (t ++ names) = none := fun names =>
    Disk.node?_removeTree_inside (by simp [hne]) (List.prefix_append _ _)
  refine .inr ⟨folder, t, m₂.disk, hfresh, hplace, rfl, hgone, fun q => ?_⟩
  by_cases hbelow : t <+: q
  · obtain ⟨names, rfl⟩ := hbelow
    exact .inl (by rw [hgone, hnothing])
  · rw [Disk.node?_removeTree_outside hbelow]
    exact (h.only q).imp_right fun h => h.resolve_left hbelow

/-- Whatever is done in a temporary folder, the folder is gone afterwards and the rest is left
alone. -/
theorem withScratch_spares {P : Machine → Prop} (hm : Sound m.cwd m)
    (hP : ∀ d, P { m with disk := d })
    (hact : ∀ folder t, freshPath? m = some folder →
      Turns (fun m' => Filled reach m folder t (fun _ => False) m' ∧ P m') (Spared reach m t)
        (act folder)) :
    LeavesAlone reach m ((withScratch act).after m) := by
  rcases withScratch_cases act m with hsame | ⟨folder, t, m₁, hfresh, hnew, hafter⟩
  · exact .inl (congrArg Machine.disk hsame)
  · obtain ⟨hfilled, hplace, hnothing⟩ := filled_newFolder reach hm hnew
    have hkept : P m₁ := by
      rw [(putNew_cases hnew).2.2]
      exact hP _
    rw [hafter]
    exact leavesAlone_of_spared (hact folder t hfresh m₁ ⟨hfilled, hkept⟩) hfresh hplace hnothing

end Files

end Decompilation
