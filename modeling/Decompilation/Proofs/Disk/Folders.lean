import Decompilation.Proofs.Disk.Access
import Decompilation.Proofs.Disk.Grow
import Decompilation.Proofs.Path

/-!
# Making folders

Making a folder with all folders that it lacks changes nothing if the folder is there, and otherwise
adds folders on the way to a place that was empty, and nothing below it (`makeFolders_made`).
-/

namespace Decompilation.Files

open Act
open Disk (Grown Ordinary Route Rooted)

variable {m m' : Machine} {p : Path} {q : Place} {name : String} {names : List String} {f : Fault}

/-- A path starts at the root and goes nowhere but down. -/
structure Direct (p : Path) : Prop where
  anchored : p.isAnchored = true
  ordinary : ∀ n ∈ p.segments, Ordinary n

theorem Direct.parent (h : Direct p) : Direct p.parent :=
  ⟨h.anchored, fun n hn => h.ordinary n (List.dropLast_subset _ hn)⟩

theorem Direct.append (h : Direct p) (hnames : ∀ n ∈ names, Ordinary n) :
    Direct { p with segments := p.segments ++ names } := by
  refine ⟨h.anchored, fun n hn => ?_⟩
  rcases List.mem_append.1 hn with hn | hn
  · exact h.ordinary n hn
  · exact hnames n hn

/-! ## Answers -/

theorem lookUp?_cases {answer : Option Node} (h : lookUp? p m = .ok answer m') : m' = m ∧
    ∀ n, answer = some n → ∃ q, m.disk.place m.cwd .find p = .ok q ∧ m.disk.look? q = some n := by
  rw [lookUp?, bind_ok (get_eq m)] at h
  cases hplace : m.disk.place m.cwd .find p with
  | error r =>
    simp only [Disk.stat, hplace, bind, Except.bind] at h
    split at h
    · cases h
      exact ⟨rfl, by simp⟩
    · cases h
  | ok q =>
    simp only [Disk.stat, hplace, bind, Except.bind] at h
    cases hlook : m.disk.look? q with
    | none =>
      rw [hlook] at h
      cases h
      exact ⟨rfl, by simp⟩
    | some n =>
      rw [hlook] at h
      cases h
      exact ⟨rfl, fun n' hn => ⟨q, rfl, hlook.trans hn⟩⟩

/-- Something is there exactly if the disk tells what it is. -/
theorem isThere_cases {answer : Bool} (h : isThere p m = .ok answer m') :
    m' = m ∧ (answer = true ↔ ∃ n, m.disk.stat m.cwd p = .ok n) := by
  obtain ⟨found, m₁, hlook, hanswer⟩ := exists_of_bind_ok h
  cases hanswer
  rw [lookUp?, bind_ok (get_eq m)] at hlook
  cases hstat : m.disk.stat m.cwd p with
  | ok n =>
    rw [hstat] at hlook
    cases hlook
    exact ⟨rfl, by simp⟩
  | error r =>
    rw [hstat] at hlook
    dsimp only at hlook
    split at hlook
    · cases hlook
      exact ⟨rfl, by simp⟩
    · cases hlook

theorem isThere_of_stat {n : Node} (h : m.disk.stat m.cwd p = .ok n) :
    isThere p m = .ok true m := by
  have hlook : lookUp? p m = .ok (some n) m := by
    rw [lookUp?, bind_ok (get_eq m), h]
    rfl
  exact bind_ok hlook _

theorem isFile_cases {answer : Bool} (h : isFile p m = .ok answer m') : m' = m ∧
    (answer = true → ∃ q f, m.disk.place m.cwd .find p = .ok q ∧ m.disk.look? q = some (.file f)) := by
  obtain ⟨n, m₁, hlook, hanswer⟩ := exists_of_bind_ok h
  obtain ⟨rfl, hfound⟩ := lookUp?_cases hlook
  split at hanswer
  · rename_i f
    cases hanswer
    obtain ⟨q, hq⟩ := hfound _ rfl
    exact ⟨rfl, fun _ => ⟨q, f, hq⟩⟩
  · cases hanswer
    exact ⟨rfl, by simp⟩

theorem isFile_of_stat {f : File} (h : m.disk.stat m.cwd p = .ok (.file f)) :
    isFile p m = .ok true m := by
  have hlook : lookUp? p m = .ok (some (.file f)) m := by
    rw [lookUp?, bind_ok (get_eq m), h]
    rfl
  exact bind_ok hlook _

theorem stat_of_isFile (h : isFile p m = .ok true m') :
    m' = m ∧ ∃ f, m.disk.stat m.cwd p = .ok (.file f) := by
  obtain ⟨rfl, hfile⟩ := isFile_cases h
  obtain ⟨q, f, hplace, hlook⟩ := hfile rfl
  exact ⟨rfl, f, Disk.stat_of_place hplace hlook⟩

/-- To ask for a file is no fault where a path leads nowhere. -/
theorem exists_isFile (h : ∀ r, m.disk.place m.cwd .find p = .error r → r.meansAbsent = true) :
    ∃ answer, isFile p m = .ok answer m := by
  have hlook : ∃ n, lookUp? p m = .ok n m := by
    rw [lookUp?, bind_ok (get_eq m), Disk.stat]
    cases hplace : m.disk.place m.cwd .find p with
    | error r =>
      simp only [bind, Except.bind, h r hplace, if_true]
      exact ⟨none, rfl⟩
    | ok q =>
      cases hnode : m.disk.look? q with
      | none => exact ⟨none, by simp only [bind, Except.bind, hnode]; rfl⟩
      | some n => exact ⟨some n, by simp only [bind, Except.bind, hnode]; rfl⟩
  obtain ⟨n, hlook⟩ := hlook
  rw [isFile, bind_ok hlook]
  split
  · exact ⟨true, rfl⟩
  · exact ⟨false, rfl⟩

section Agrees

variable {m₁ : Machine} (h : m₁.disk.stat m₁.cwd p = m.disk.stat m.cwd p)
include h

/-- The answer about a path depends on what it leads to and nothing else. -/
theorem agrees_lookUp? : Agrees (lookUp? p) m m₁ := by
  refine .get_bind (by rw [h]) ?_
  split
  · exact .pure _
  · split
    · exact .pure _
    · exact .throw _

theorem agrees_isThere : Agrees (isThere p) m m₁ := (agrees_lookUp? h).bind fun _ => .pure _

theorem agrees_isFile : Agrees (isFile p) m m₁ := by
  refine (agrees_lookUp? h).bind fun n => ?_
  split <;> exact .pure _

theorem agrees_openFile : Agrees (openFile p) m m₁ := by
  refine .get_bind (by rw [h]) ((Agrees.ofDisk _ _).bind fun n => ?_)
  split
  · exact .pure _
  · exact .throw _

theorem agrees_readText : Agrees (readText p) m m₁ := by
  refine (agrees_openFile h).bind fun f => ?_
  split
  · exact .pure _
  · exact .throw _

theorem agrees_readLines : Agrees (readLines p) m m₁ := by
  refine (agrees_openFile h).bind fun f => ?_
  dsimp only
  split
  · exact .pure _
  · exact .throw _

theorem isThere_congr {answer : Bool} (hrun : isThere p m = .ok answer m') :
    isThere p m₁ = .ok answer m₁ :=
  ((agrees_isThere h).ok hrun).2

theorem isFile_congr {answer : Bool} (hrun : isFile p m = .ok answer m') :
    isFile p m₁ = .ok answer m₁ :=
  ((agrees_isFile h).ok hrun).2

end Agrees

theorem openFile_of_stat {f : File} (h : m.disk.stat m.cwd p = .ok (.file f)) :
    openFile p m = .ok f m := by
  rw [openFile, bind_ok (get_eq m), h]
  rfl

theorem readText_of_stat {f : File} (h : m.disk.stat m.cwd p = .ok (.file f)) :
    readText p m = match Text.Utf8.decode f.content with
      | .ok text => .ok (Text.unifyBreaks text) m
      | .error fault => .error (.undecodable fault) m := by
  rw [readText, bind_ok (openFile_of_stat h)]
  cases Text.Utf8.decode f.content <;> rfl

theorem readLenient_of_stat {f : File} (h : m.disk.stat m.cwd p = .ok (.file f)) :
    readLenient p m = .ok (Text.unifyBreaks (Text.Utf8.decodeLenient f.content)) m :=
  bind_ok (openFile_of_stat h) _

theorem stands_of_place (hanchor : p.isAnchored = true)
    (h : m.disk.place m.cwd .find p = .ok q) : q.isGone = false := by
  obtain ⟨-, hwalk⟩ := Disk.place_eq_ok_iff.1 h
  rw [if_pos hanchor] at hwalk
  exact Disk.isGone_eq_false (Disk.not_mem_of_walk hwalk List.not_mem_nil)

theorem leads_of_keepFolder (hanchor : p.isAnchored = true) (h : keepFolder p f m = .ok () m') :
    m' = m ∧ ∃ q, Leads m p q := by
  obtain ⟨answer, m₁, hfolder, hanswer⟩ := exists_of_bind_ok h
  obtain ⟨n, m₂, hlook, hn⟩ := exists_of_bind_ok hfolder
  obtain ⟨rfl, hfound⟩ := lookUp?_cases hlook
  split at hn
  · cases hn
    cases hanswer
    obtain ⟨q, hplace, hq⟩ := hfound _ rfl
    exact ⟨rfl, q, leads_of_place hplace hq (stands_of_place hanchor hplace)⟩
  · cases hn
    cases hanswer

/-! ## One folder -/

theorem makeFolder_of_place (hplace : m.disk.place m.cwd .make p = .ok q)
    (hlook : m.disk.look? q = none) :
    makeFolder p m = .ok () { m with disk := m.disk.put q .folder } := by
  have hreach := reachOr_of_ok (Fault.ofRefusal · p) hplace
  rw [hlook] at hreach
  have hnew : newFolder p m = .ok q { m with disk := m.disk.put q .folder } := bind_ok hreach _
  exact bind_ok hnew _

/-- Making a folder makes it or changes nothing. -/
theorem makeFolder_cases (m : Machine) (p : Path) :
    (∃ q, m.disk.place m.cwd .make p = .ok q ∧ m.disk.look? q = none ∧
      makeFolder p m = .ok () { m with disk := m.disk.put q .folder }) ∨
    ∃ r, makeFolder p m = .error (Fault.ofRefusal r p) m := by
  cases hplace : m.disk.place m.cwd .make p with
  | error r => exact .inr ⟨r, bind_error (bind_error (reachOr_of_error _ hplace) _) _⟩
  | ok q =>
    cases hlook : m.disk.look? q with
    | none => exact .inl ⟨q, rfl, hlook, makeFolder_of_place hplace hlook⟩
    | some n =>
      have hreach := reachOr_of_ok (Fault.ofRefusal · p) hplace
      rw [hlook] at hreach
      exact .inr ⟨.exists, bind_error (bind_ok hreach _) _⟩

theorem Leads.child (h : Leads m p q) (hname : Ordinary name) (hnull : '\x00' ∉ name.toList)
    (hfits : Fits p name) (hnode : m.disk.node? (q ++ [name]) = some .folder) :
    Leads m (p.child name) (q ++ [name]) := by
  have hplace := h.place_child_of_fits .find hname hnull hfits fun target htarget => by
    rw [hnode] at htarget
    cases htarget
  exact leads_of_place hplace ((Disk.look?_append hname).trans hnode) (Disk.isGone_append hname)

/-- Where a file is, no folder is made. -/
theorem makeFolders_of_file {f : File} (hmake : m.disk.place m.cwd .make p = .ok q)
    (hfind : m.disk.place m.cwd .find p = .ok q) (hlook : m.disk.look? q = some (.file f)) :
    makeFolders p m = .error (Fault.ofRefusal .exists p) m := by
  have hreach := reachOr_of_ok (Fault.ofRefusal · p) hmake
  rw [hlook] at hreach
  have hexists : makeFolder p m = .error (Fault.ofRefusal .exists p) m :=
    bind_error (bind_ok hreach _) _
  have hfound : lookUp? p m = .ok (some (.file f)) m := by
    rw [lookUp?, bind_ok (get_eq m)]
    rw [Disk.stat_of_place hfind hlook]
    rfl
  have hfolder : isFolder p m = .ok false m := bind_ok hfound _
  rw [makeFolders, makeFoldersTo, orElse_of_error hexists]
  exact bind_ok hfolder _

/-- What becomes of a machine on which a path comes to lead to a folder. -/
structure Made (m m' : Machine) (p : Path) (q : Place) : Prop where
  only_disk : m' = { m with disk := m'.disk }
  grown : Grown m.disk m'.disk q
  leads : Leads m' p q
  old_or_new : m' = m ∨ m.disk.node? q = none

theorem Leads.made (h : Leads m p q) : Made m m p q := ⟨rfl, .refl _ _, h, .inl rfl⟩

theorem Leads.grow {d : Disk} {p' : Place} (h : Leads m p q) (hgrown : Grown m.disk d p') :
    Leads { m with disk := d } p q :=
  h.of_agree fun p n hn _ => hgrown.keeps p n hn

/-- A folder that is made at a name in a folder. -/
theorem Leads.made_child (h : Leads m p q) (hname : Ordinary name) (hfits : Fits p name)
    (hnull : '\x00' ∉ name.toList) (hnone : m.disk.node? (q ++ [name]) = none)
    (hq : m.disk.node? q = some .folder) :
    Made m { m with disk := m.disk.put (q ++ [name]) .folder } (p.child name) (q ++ [name]) where
  only_disk := rfl
  grown := Disk.grown_put hnone hq
  leads := (h.grow (Disk.grown_put hnone hq)).child hname hnull hfits
    (Disk.node?_put_self (by simp))
  old_or_new := .inr hnone

/-- Nothing is made at a path to a folder that is there, nor at one that it goes on from. -/
theorem Leads.not_free {front : List String} {aim : Disk.Aim} {q' : Place} (h : Leads m p q)
    (hfront : front <+: p.segments)
    (hplace : m.disk.place m.cwd aim { p with segments := front } = .ok q') :
    ¬ m.disk.Free aim q' .folder := by
  rintro (⟨rfl, hnone⟩ | ⟨-, -, f, hf⟩)
  · obtain ⟨left, hroute⟩ := h.route
    obtain ⟨back, hback⟩ := hfront
    obtain ⟨left', q₁, hroute'⟩ := (hback ▸ hroute).exists_front
    obtain ⟨p', n, hwalk, hlook⟩ := hroute'.walk_make
    obtain ⟨-, hwalk'⟩ := Disk.place_eq_ok_iff.1 hplace
    obtain rfl : q' = p' := Except.ok.inj (hwalk'.symm.trans hwalk)
    rw [hlook] at hnone
    cases hnone
  · cases hf

/-- Where a root is there, folders are made at most behind it. -/
theorem takes_folders {P : Machine → Prop} {root : Path} (hroot : ∀ m, P m → ∃ q, Leads m root q)
    (hbehind : ∀ back, back ≠ [] → back <+: names →
      Takes P { root with segments := root.segments ++ back } .folder)
    (front : List String) (hfront : front <+: root.segments ++ names) :
    Takes P { root with segments := front } .folder := by
  have hup : front <+: root.segments → Takes P { root with segments := front } .folder := by
    intro hfront m aim q hm hplace hfree
    obtain ⟨q', hleads⟩ := hroot m hm
    exact absurd hfree (hleads.not_free hfront hplace)
  rcases List.prefix_or_prefix_of_prefix hfront (List.prefix_append _ _) with hfront | ⟨back, rfl⟩
  · exact hup hfront
  by_cases hne : back = []
  · exact hup (by simp [hne])
  · exact hbehind back hne ((List.prefix_append_right_inj _).1 hfront)

/-! ## Folders in folders -/

theorem exists_child (hne : p.segments ≠ []) : ∃ name, p = p.parent.child name := by
  obtain ⟨anchor, segments⟩ := p
  exact ⟨segments.getLast hne, by rw [Path.parent, Path.child, List.dropLast_concat_getLast hne]⟩

theorem screen_of_child (hanchor : p.isAnchored = true)
    (h : Disk.screen (p.child name) = .ok ()) : Disk.screen p = .ok () := by
  obtain ⟨hclean, hlen⟩ := screen_eq_ok_iff.1 h
  exact screen_eq_ok_iff.2 ⟨fun s hs => hclean s (List.mem_append_left _ hs),
    Nat.lt_of_le_of_lt (Path.utf8ByteSize_toString_le hanchor name) hlen⟩

/-- A path that leads somewhere goes on behind a path to a folder with a name that the system
takes. -/
theorem exists_route_of_place {aim : Disk.Aim} (hname : Ordinary name)
    (hplace : m.disk.place m.cwd aim (p.child name) = .ok q) : Fits p name ∧ '\x00' ∉ name.toList ∧
      ∃ left q₁, Route m.disk Disk.linkLimit (if p.isAnchored then [] else m.cwd) p.segments left q₁ ∧
        q₁.isGone = false ∧ Disk.walk m.disk aim left q₁ [name] = .ok q := by
  obtain ⟨hscreen, hwalk⟩ := Disk.place_eq_ok_iff.1 hplace
  obtain ⟨hclean, hlen⟩ := screen_eq_ok_iff.1 hscreen
  have hsome : ∃ s ∈ [name], s ≠ "" :=
    ⟨name, List.mem_singleton_self _, fun hnil => hname.ne_same (.inl hnil)⟩
  obtain ⟨left, q₁, hroute, hlast⟩ := Disk.exists_route_append hsome hwalk
  obtain ⟨-, hstands, hle⟩ := Disk.passes_of_walk hname hlast
  exact ⟨⟨hle, hlen⟩, hclean name (by simp [Path.child]), left, q₁, hroute, hstands, hlast⟩

/-- Where there is room for a new folder, the folder that it is in is there. -/
theorem exists_leads_of_place (hanchor : p.isAnchored = true) (hname : Ordinary name)
    (hplace : m.disk.place m.cwd .make (p.child name) = .ok q) :
    ∃ q₁, q = q₁ ++ [name] ∧ Leads m p q₁ ∧ Fits p name ∧ '\x00' ∉ name.toList := by
  obtain ⟨hscreen, -⟩ := Disk.place_eq_ok_iff.1 hplace
  obtain ⟨hfits, hclean, left, q₁, hroute, hstands, hlast⟩ := exists_route_of_place hname hplace
  exact ⟨q₁, Disk.eq_append_of_walk_make hname hlast,
    ⟨screen_of_child hanchor hscreen, ⟨left, hroute⟩, hstands⟩, hfits, hclean⟩

theorem Leads.node (h : Leads m p q) : m.disk.node? q = some .folder := by
  have hlook := h.folder
  rwa [Disk.look?, h.stands, if_neg (by simp)] at hlook

/-- A folder that is made where one is missing. -/
theorem exists_made_of_place (hdirect : Direct p)
    (hplace : m.disk.place m.cwd .make p = .ok q) (hlook : m.disk.look? q = none) :
    Made m { m with disk := m.disk.put q .folder } p q := by
  have hne : p.segments ≠ [] := by
    intro hnil
    obtain ⟨-, hwalk⟩ := Disk.place_eq_ok_iff.1 hplace
    rw [hnil, if_pos hdirect.anchored, Disk.walk_nil] at hwalk
    cases hwalk
    cases hlook
  obtain ⟨name, hp⟩ := exists_child hne
  have hname : Ordinary name := hdirect.ordinary name (by rw [hp]; simp [Path.child])
  rw [hp] at hplace ⊢
  obtain ⟨q₁, rfl, hleads, hfits, hnull⟩ :=
    exists_leads_of_place (p := p.parent) hdirect.anchored hname hplace
  rw [Disk.look?_append hname] at hlook
  exact hleads.made_child hname hfits hnull hlook hleads.node

/-- How making a folder with all that it lacks ends well: the folder is made at once, or it is there,
or it is made or there behind the folder that it is in. -/
theorem makeFoldersTo_cases {depth : Nat} (h : makeFoldersTo depth p m = .ok () m') :
    makeFolder p m = .ok () m' ∨ (∃ f, keepFolder p f m = .ok () m') ∨
    ∃ depth' m₁, depth = depth' + 1 ∧ makeFolder p m = .error (Fault.ofRefusal .missing p) m ∧
      makeFoldersTo depth' p.parent m = .ok () m₁ ∧
      (makeFolder p m₁ = .ok () m' ∨ ∃ f, keepFolder p f m₁ = .ok () m') := by
  have hagain : ∀ m₁, orElse (makeFolder p) (keepFolder p) m₁ = .ok () m' →
      makeFolder p m₁ = .ok () m' ∨ ∃ f, keepFolder p f m₁ = .ok () m' := by
    intro m₁ hagain
    rcases orElse_ok hagain with hmake | ⟨f, m₂, hmake, hkeep⟩
    · exact .inl hmake
    · rcases makeFolder_cases m₁ p with ⟨q, -, -, hok⟩ | ⟨r, herror⟩
      · rw [hok] at hmake
        cases hmake
      · rw [herror] at hmake
        cases hmake
        exact .inr ⟨_, hkeep⟩
  rcases makeFolder_cases m p with ⟨q, hplace, hlook, hmake⟩ | ⟨r, hmake⟩
  · rw [makeFoldersTo, orElse, hmake] at h
    exact .inl (hmake.trans h)
  · rw [makeFoldersTo, orElse_of_error hmake] at h
    cases r with
    | nullByte => cases h
    | missing =>
      cases depth with
      | zero => cases h
      | succ depth =>
        obtain ⟨_, m₁, hparent, hlast⟩ := exists_of_bind_ok h
        exact .inr (.inr ⟨depth, m₁, rfl, hmake, hparent, hagain m₁ hlast⟩)
    | _ => exact .inr (.inl ⟨_, h⟩)

theorem made_of_makeFolder (hdirect : Direct p)
    (h : makeFolder p m = .ok () m') : ∃ q, Made m m' p q := by
  rcases makeFolder_cases m p with ⟨q, hplace, hlook, hmake⟩ | ⟨r, hmake⟩
  · rw [hmake] at h
    cases h
    exact ⟨q, exists_made_of_place hdirect hplace hlook⟩
  · rw [hmake] at h
    cases h

theorem Leads.unique {q' : Place} (h : Leads m p q) (h' : Leads m p q') : q = q' :=
  Except.ok.inj (h.place.symm.trans h'.place)

/-- Names behind a path to a folder lead to the place that they spell there, if they lead anywhere and
no links are on the way. What is made may find a link at the end. -/
theorem Leads.eq_append_of_place {aim : Disk.Aim} {q' : Place}
    (h : Leads m p q) (hne : names ≠ []) (hnames : ∀ n ∈ names, Ordinary n)
    (hlink : ∀ front target, front <+: names → (aim = .make → front ≠ names) →
      m.disk.node? (q ++ front) ≠ some (.link target))
    (hplace : m.disk.place m.cwd aim { p with segments := p.segments ++ names } = .ok q') :
    q' = q ++ names := by
  obtain ⟨name, rest, rfl⟩ := List.exists_cons_of_ne_nil hne
  have hsome : ∃ s ∈ name :: rest, s ≠ "" :=
    ⟨name, List.mem_cons_self .., fun hnil => (hnames _ (List.mem_cons_self ..)).ne_same (.inl hnil)⟩
  obtain ⟨left, hroute⟩ := h.route
  obtain ⟨-, hwalk⟩ := Disk.place_eq_ok_iff.1 hplace
  exact Disk.eq_append_of_walk hnames hlink ((hroute.walk_append aim hsome).symm.trans hwalk)

theorem Leads.eq_append {q' : Place} (h : Leads m p q) (hnames : ∀ n ∈ names, Ordinary n)
    (hlink : ∀ front target, front <+: names → m.disk.node? (q ++ front) ≠ some (.link target))
    (h' : Leads m { p with segments := p.segments ++ names } q') : q' = q ++ names := by
  by_cases hne : names = []
  · simp only [hne, List.append_nil] at h' ⊢
    exact h'.unique h
  · exact h.eq_append_of_place hne hnames (fun front target hfront _ => hlink front target hfront)
      h'.place

theorem Leads.not_leads_child {q' : Place} (h : Leads m p q) (hname : Ordinary name)
    (hnone : m.disk.node? (q ++ [name]) = none) : ¬ Leads m (p.child name) q' := by
  intro hchild
  have hlink : ∀ front target, front <+: [name] → m.disk.node? (q ++ front) ≠ some (.link target) := by
    intro front target hfront hnode
    rcases List.prefix_cons_iff.1 hfront with rfl | ⟨t, rfl, ht⟩
    · rw [List.append_nil, h.node] at hnode
      cases hnode
    · rw [List.prefix_nil.1 ht, hnone] at hnode
      cases hnode
  obtain rfl := h.eq_append_of_place (by simp) (by simpa using hname)
    (fun front target hfront _ => hlink front target hfront) hchild.place
  rw [hchild.node] at hnone
  cases hnone

/-- A new folder is empty. -/
theorem Made.node?_child (h : Made m m' p q) (hrooted : Rooted m.disk)
    (hnew : m.disk.node? q = none) (name : String) : m'.disk.node? (q ++ [name]) = none := by
  apply Option.eq_none_iff_forall_not_mem.2
  intro n hn
  rcases h.grown.new _ n hn with hold | ⟨-, hprefix⟩
  · rw [hrooted _ _ _ hold] at hnew
    cases hnew
  · exact absurd hprefix.length_le (by simp)

theorem Made.trans {m₁ : Machine} {p' : Path} {q' : Place} (h : Made m m₁ p q)
    (h' : Made m₁ m' p' q') (hq : q <+: q') (hnone : m.disk.node? q' = none) : Made m m' p' q' where
  only_disk := by rw [h'.only_disk, h.only_disk]
  grown := h.grown.trans h'.grown hq
  leads := h'.leads
  old_or_new := .inr hnone

/-- A folder that is made in one that was made before. -/
theorem Made.makeFolder_child {m₁ : Machine} (h : Made m m₁ p.parent q) (hdirect : Direct p)
    (hp : p = p.parent.child name) (hname : Ordinary name)
    (hnone : m₁.disk.node? (q ++ [name]) = none) (hmake : makeFolder p m₁ = .ok () m') :
    ∃ q, Made m m' p q := by
  rcases makeFolder_cases m₁ p with ⟨q₂, hplace, hlook, hok⟩ | ⟨r, herror⟩
  · rw [hok] at hmake
    cases hmake
    have hmade := exists_made_of_place hdirect hplace hlook
    rw [hp] at hplace
    obtain ⟨q₁, rfl, hleads, -⟩ :=
      exists_leads_of_place (p := p.parent) hdirect.anchored hname hplace
    obtain rfl := h.leads.unique hleads
    refine ⟨_, h.trans hmade (List.prefix_append _ _) ?_⟩
    apply Option.eq_none_iff_forall_not_mem.2
    intro n hn
    rw [h.grown.keeps _ n hn] at hnone
    cases hnone
  · rw [herror] at hmake
    cases hmake

theorem makeFoldersTo_made {depth : Nat} (hrooted : Rooted m.disk) (hdirect : Direct p)
    (h : makeFoldersTo depth p m = .ok () m') :
    ∃ q, Made m m' p q := by
  induction depth using Nat.strongRecOn generalizing p m' with
  | _ depth ih =>
  rcases makeFoldersTo_cases h with hmake | ⟨f, hkeep⟩ | ⟨depth, m₁, rfl, hfirst, hparent, hlast⟩
  · exact made_of_makeFolder hdirect hmake
  · obtain ⟨rfl, q, hleads⟩ := leads_of_keepFolder hdirect.anchored hkeep
    exact ⟨q, hleads.made⟩
  obtain ⟨q₁, hmade⟩ := ih depth (Nat.lt_succ_self _) hdirect.parent hparent
  by_cases hne : p.segments = []
  · -- such a path leads to the root, which is there
    have hself : p.parent = p := by
      obtain ⟨anchor, segments⟩ := p
      obtain rfl : segments = [] := hne
      rfl
    rw [hself] at hmade
    rcases hlast with hmake | ⟨f, hkeep⟩
    · rw [hmade.leads.makeFolder] at hmake
      cases hmake
    · obtain ⟨rfl, -⟩ := leads_of_keepFolder hdirect.anchored hkeep
      exact ⟨q₁, hmade⟩
  rcases hmade.old_or_new with rfl | hnew
  · -- nothing was made, so the second attempt ends as the first one
    rcases hlast with hmake | ⟨f, hkeep⟩
    · rw [hfirst] at hmake
      cases hmake
    · obtain ⟨rfl, q, hleads⟩ := leads_of_keepFolder hdirect.anchored hkeep
      exact ⟨q, hleads.made⟩
  obtain ⟨name, hp⟩ := exists_child hne
  have hname : Ordinary name := hdirect.ordinary name (by rw [hp]; simp [Path.child])
  have hnone := hmade.node?_child hrooted hnew name
  rcases hlast with hmake | ⟨f, hkeep⟩
  · exact hmade.makeFolder_child hdirect hp hname hnone hmake
  · obtain ⟨rfl, q, hleads⟩ := leads_of_keepFolder hdirect.anchored hkeep
    rw [hp] at hleads
    exact absurd hleads (hmade.leads.not_leads_child hname hnone)

/-- A folder made with all folders that it lacks is there, and nothing else is new but the folders on
the way to it. -/
theorem makeFolders_made (hrooted : Rooted m.disk) (hdirect : Direct p)
    (h : makeFolders p m = .ok () m') : ∃ q, Made m m' p q :=
  makeFoldersTo_made hrooted hdirect h

/-! ## Files that are written -/

/-- A text is written to a file that is there or to a new one. -/
theorem writeText_cases {text : List Char} (h : writeText p text m = .ok () m') :
    ∃ q f', m.disk.place m.cwd .write p = .ok q ∧ f'.content = Text.Utf8.encode text ∧
      m' = { m with disk := m.disk.put q (.file f') } ∧
      ((∃ f, m.disk.look? q = some (.file f) ∧ f'.executable = f.executable) ∨
        m.disk.look? q = none ∧ f' = File.ofBytes (Text.Utf8.encode text)) := by
  cases hplace : m.disk.place m.cwd .write p with
  | error r =>
    have herror : writeText p text m = .error (Fault.ofRefusal r p) m :=
      bind_error (reachOr_of_error _ hplace) _
    rw [herror] at h
    cases h
  | ok q =>
    have hreach := reachOr_of_ok (Fault.ofRefusal · p) hplace
    cases hlook : m.disk.look? q with
    | none =>
      rw [hlook] at hreach
      have hok := (bind_ok hreach _).symm.trans h
      cases hok
      exact ⟨q, _, rfl, rfl, rfl, .inr ⟨hlook, rfl⟩⟩
    | some n =>
      rw [hlook] at hreach
      have hok := (bind_ok hreach _).symm.trans h
      cases n with
      | file f =>
        cases hok
        exact ⟨q, _, rfl, rfl, rfl, .inl ⟨f, hlook, rfl⟩⟩
      | link target => cases hok
      | folder => cases hok

theorem writeText_of_folder (hplace : m.disk.place m.cwd .write p = .ok q)
    (hlook : m.disk.look? q = some .folder) (text : List Char) :
    writeText p text m = .error (Fault.ofRefusal .isFolder p) m := by
  have hreach := reachOr_of_ok (Fault.ofRefusal · p) hplace
  rw [hlook] at hreach
  exact bind_ok hreach _

/-- Where no text can be written nothing changes. -/
theorem writeText_error {text : List Char} (h : writeText p text m = .error f m') : m' = m := by
  rcases cases_of_bind_error h with hreach | ⟨found, m₁, hreach, hwrite⟩
  · exact (keeps_reachOr (P := (· = m)) _ _ _).error rfl hreach
  · obtain ⟨rfl, q, -, rfl⟩ := reachOr_cases hreach
    cases hlook : m₁.disk.look? q with
    | none =>
      rw [hlook] at hwrite
      cases hwrite
    | some n =>
      rw [hlook] at hwrite
      cases n <;> cases hwrite <;> rfl

/-- A text is written where neither a folder nor a link stands. -/
theorem exists_writeText (hplace : m.disk.place m.cwd .write p = .ok q)
    (hfolder : m.disk.look? q ≠ some .folder) (hlink : ∀ target, m.disk.look? q ≠ some (.link target))
    (text : List Char) : ∃ f, f.content = Text.Utf8.encode text ∧
      writeText p text m = .ok () { m with disk := m.disk.put q (.file f) } := by
  have hreach := reachOr_of_ok (Fault.ofRefusal · p) hplace
  cases hlook : m.disk.look? q with
  | none =>
    rw [hlook] at hreach
    exact ⟨_, rfl, bind_ok hreach _⟩
  | some n =>
    rw [hlook] at hreach
    cases n with
    | file f => exact ⟨_, rfl, bind_ok hreach _⟩
    | link target => exact absurd hlook (hlink target)
    | folder => exact absurd hlook hfolder

end Decompilation.Files
