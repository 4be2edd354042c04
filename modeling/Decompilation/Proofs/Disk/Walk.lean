import Decompilation.Disk.Walk

/-!
# Routes to folders

A walk that ends somewhere can be told step by step (`walked_of_walk`). A `Route` is such a walk that
ends at a folder (`exists_route`). A route stays one when files come and go (`Route.of_agree`), and
what a walk finds behind a route is what it finds in the folder at its end (`Route.walk_append`).
-/

namespace Decompilation.Disk

variable {d d' : Disk} {aim : Aim} {links left : Nat} {here q : Place} {name : String}
  {names rest : List String}

/-! ## Single steps -/

/-- A name that leads to something in a folder, and neither up nor nowhere. -/
structure Ordinary (name : String) : Prop where
  ne_same : ¬ (name = "" ∨ name = ".")
  ne_up : name ≠ ".."

theorem isGone_append (h : Ordinary name) : Place.isGone (here ++ [name]) = false := by
  have : name ≠ "" := fun hn => h.ne_same (.inl hn)
  simp [Place.isGone, this]

theorem look?_append (h : Ordinary name) : d.look? (here ++ [name]) = d.node? (here ++ [name]) := by
  rw [look?, isGone_append h]
  rfl

theorem walk_nil : walk d aim links here [] = .ok here := by
  cases links <;> rfl

theorem walk_same (hfolder : d.look? here = some .folder) (hsame : name = "" ∨ name = ".") :
    walk d aim links here (name :: rest) = walk d aim links here rest := by
  cases links <;>
  · rw [walk, walkNames]
    simp only [hfolder, if_pos hsame]

theorem walk_up (hfolder : d.look? here = some .folder) :
    walk d aim links here (".." :: rest) = walk d aim links here.dropLast rest := by
  cases links <;>
  · rw [walk, walkNames]
    simp only [hfolder]
    rw [if_neg (by decide), if_pos trivial]

theorem walk_ordinary (hfolder : d.look? here = some .folder) (hname : Ordinary name)
    (hslash : ¬ (aim = .write ∧ rest ≠ [] ∧ rest.all (· == "") = true)) :
    walk d aim links here (name :: rest) =
      if here.isGone then .error .missing
      else if nameLimit < name.utf8ByteSize then .error .nameTooLong
      else match d.node? (here ++ [name]) with
        | none => if rest.isEmpty then .ok (here ++ [name]) else .error .missing
        | some (.link target) =>
          if rest.isEmpty && aim == .make then .ok (here ++ [name])
          else match links with
            | 0 => .error .tooManyLinks
            | links + 1 =>
              walk d aim links (if target.startsWith "/" then [] else here)
                (Text.pieces '/' target ++ rest)
        | some _ => walk d aim links (here ++ [name]) rest := by
  cases links <;>
  · rw [walk, walkNames]
    simp only [hfolder]
    exact (if_neg hname.ne_same).trans ((if_neg hname.ne_up).trans (if_neg hslash))

/-- A slash behind the name of a file that is to be written asks for a folder. -/
theorem walk_slash (hfolder : d.look? here = some .folder) (hname : Ordinary name)
    (hslash : aim = .write ∧ rest ≠ [] ∧ rest.all (· == "") = true) :
    walk d aim links here (name :: rest) = .error .isFolder := by
  cases links <;>
  · rw [walk, walkNames]
    simp only [hfolder]
    exact (if_neg hname.ne_same).trans ((if_neg hname.ne_up).trans (if_pos hslash))

/-- What stands behind a name decides how a walk goes on, once the name may be looked up. -/
theorem walk_name (hfolder : d.look? here = some .folder) (hname : Ordinary name)
    (hslash : ¬ (aim = .write ∧ rest ≠ [] ∧ rest.all (· == "") = true))
    (hstands : here.isGone = false) (hfits : name.utf8ByteSize ≤ nameLimit) :
    walk d aim links here (name :: rest) =
      match d.node? (here ++ [name]) with
        | none => if rest.isEmpty then .ok (here ++ [name]) else .error .missing
        | some (.link target) =>
          if rest.isEmpty && aim == .make then .ok (here ++ [name])
          else match links with
            | 0 => .error .tooManyLinks
            | links + 1 =>
              walk d aim links (if target.startsWith "/" then [] else here)
                (Text.pieces '/' target ++ rest)
        | some _ => walk d aim links (here ++ [name]) rest := by
  rw [walk_ordinary hfolder hname hslash, hstands, if_neg (by simp), if_neg (Nat.not_lt.2 hfits)]

theorem walk_down {n : Node} (hfolder : d.look? here = some .folder) (hname : Ordinary name)
    (hslash : ¬ (aim = .write ∧ rest ≠ [] ∧ rest.all (· == "") = true))
    (hstands : here.isGone = false) (hfits : name.utf8ByteSize ≤ nameLimit)
    (hnode : d.node? (here ++ [name]) = some n) (hplain : ∀ target, n ≠ .link target) :
    walk d aim links here (name :: rest) = walk d aim links (here ++ [name]) rest := by
  rw [walk_name hfolder hname hslash hstands hfits, hnode]
  cases n with
  | link target => exact absurd rfl (hplain target)
  | file f => rfl
  | folder => rfl

theorem walk_link {target : String} (hfolder : d.look? here = some .folder)
    (hname : Ordinary name) (hslash : ¬ (aim = .write ∧ rest ≠ [] ∧ rest.all (· == "") = true))
    (hstands : here.isGone = false) (hfits : name.utf8ByteSize ≤ nameLimit)
    (hnode : d.node? (here ++ [name]) = some (.link target)) (hfollows : rest = [] → aim ≠ .make) :
    walk d aim (links + 1) here (name :: rest) =
      walk d aim links (if target.startsWith "/" then [] else here)
        (Text.pieces '/' target ++ rest) := by
  have hlast : ¬ (rest.isEmpty && aim == .make) = true := by
    rw [Bool.and_eq_true, List.isEmpty_iff, beq_iff_eq]
    exact fun h => hfollows h.1 h.2
  rw [walk_name hfolder hname hslash hstands hfits, hnode]
  exact if_neg hlast

theorem ne_nil_of_named (h : ∃ s ∈ rest, s ≠ "") : rest ≠ [] := by
  obtain ⟨s, hs, -⟩ := h
  exact List.ne_nil_of_mem hs

/-- Names that end with a name are more than slashes. -/
theorem not_only_slashes (h : ∃ s ∈ rest, s ≠ "") (front : List String) :
    ¬ (aim = .write ∧ front ++ rest ≠ [] ∧ (front ++ rest).all (· == "") = true) := by
  obtain ⟨s, hs, hne⟩ := h
  rintro ⟨-, -, hall⟩
  have := List.all_eq_true.1 hall s (List.mem_append_right _ hs)
  exact hne (by simpa using this)

theorem walk_of_not_folder (h : d.look? here ≠ some .folder) :
    walk d aim links here (name :: rest) = .error .notFolder := by
  cases links <;>
  · rw [walk, walkNames]
    split
    · rename_i hfolder
      exact absurd hfolder h
    · rfl

/-- A walk that goes on starts in a folder. -/
theorem folder_of_walk (hne : names ≠ []) (h : walk d aim links here names = .ok q) :
    d.look? here = some .folder := by
  obtain ⟨name, rest, rfl⟩ := List.exists_cons_of_ne_nil hne
  apply Decidable.byContradiction
  intro hnot
  rw [walk_of_not_folder hnot] at h
  cases h

/-- A walk looks up a name only in a folder that is there, and only if the name is not too long. -/
theorem passes_of_walk (hname : Ordinary name) (h : walk d aim links here (name :: rest) = .ok q) :
    ¬ (aim = .write ∧ rest ≠ [] ∧ rest.all (· == "") = true) ∧ here.isGone = false ∧
      name.utf8ByteSize ≤ nameLimit := by
  have hfolder := folder_of_walk (by simp) h
  by_cases hslash : aim = .write ∧ rest ≠ [] ∧ rest.all (· == "") = true
  · rw [walk_slash hfolder hname hslash] at h
    cases h
  rw [walk_ordinary hfolder hname hslash] at h
  by_cases hgone : here.isGone = true
  · rw [if_pos hgone] at h
    cases h
  rw [if_neg hgone] at h
  by_cases hlong : nameLimit < name.utf8ByteSize
  · rw [if_pos hlong] at h
    cases h
  exact ⟨hslash, Bool.eq_false_iff.2 hgone, Nat.le_of_not_lt hlong⟩

/-- A walk that ends at `q`, told step by step, where so many links may be followed. -/
inductive Walked (d : Disk) (aim : Aim) (q : Place) : Nat → Place → List String → Prop
  | done {links : Nat} : Walked d aim q links q []
  | same {links : Nat} {here : Place} {name : String} {names : List String}
      (folder : d.look? here = some .folder) (same : name = "" ∨ name = ".")
      (rest : Walked d aim q links here names) : Walked d aim q links here (name :: names)
  | up {links : Nat} {here : Place} {names : List String} (folder : d.look? here = some .folder)
      (rest : Walked d aim q links here.dropLast names) : Walked d aim q links here (".." :: names)
  | new {links : Nat} {here : Place} {name : String} (folder : d.look? here = some .folder)
      (ordinary : Ordinary name) (stands : here.isGone = false)
      (fits : name.utf8ByteSize ≤ nameLimit) (node : d.node? (here ++ [name]) = none)
      (found : here ++ [name] = q) : Walked d aim q links here [name]
  | last {links : Nat} {here : Place} {name target : String} (folder : d.look? here = some .folder)
      (ordinary : Ordinary name) (stands : here.isGone = false)
      (fits : name.utf8ByteSize ≤ nameLimit) (making : aim = .make)
      (node : d.node? (here ++ [name]) = some (.link target)) (found : here ++ [name] = q) :
      Walked d aim q links here [name]
  | down {links : Nat} {here : Place} {name : String} {names : List String} {n : Node}
      (folder : d.look? here = some .folder) (ordinary : Ordinary name)
      (stands : here.isGone = false) (fits : name.utf8ByteSize ≤ nameLimit)
      (node : d.node? (here ++ [name]) = some n) (plain : ∀ target, n ≠ .link target)
      (rest : Walked d aim q links (here ++ [name]) names) : Walked d aim q links here (name :: names)
  | link {links : Nat} {here : Place} {name target : String} {names : List String}
      (folder : d.look? here = some .folder) (ordinary : Ordinary name)
      (stands : here.isGone = false) (fits : name.utf8ByteSize ≤ nameLimit)
      (node : d.node? (here ++ [name]) = some (.link target))
      (follows : names = [] → aim ≠ .make)
      (rest : Walked d aim q links (if target.startsWith "/" then [] else here)
        (Text.pieces '/' target ++ names)) :
      Walked d aim q (links + 1) here (name :: names)

theorem walked_of_walk (h : walk d aim links here names = .ok q) :
    Walked d aim q links here names := by
  -- behind a link fewer links are left, elsewhere fewer names
  induction links using Nat.strongRecOn generalizing here names with
  | _ links ihlinks =>
  induction names generalizing here with
  | nil =>
    rw [walk_nil] at h
    cases h
    exact .done
  | cons name rest ih =>
    have hfolder := folder_of_walk (by simp) h
    by_cases hsame : name = "" ∨ name = "."
    · rw [walk_same hfolder hsame] at h
      exact .same hfolder hsame (ih h)
    by_cases hup : name = ".."
    · rw [hup, walk_up hfolder] at h
      exact hup ▸ .up hfolder (ih h)
    have hname : Ordinary name := ⟨hsame, hup⟩
    obtain ⟨hslash, hstands, hfits⟩ := passes_of_walk hname h
    cases hnode : d.node? (here ++ [name]) with
    | none =>
      rw [walk_name hfolder hname hslash hstands hfits, hnode] at h
      cases rest with
      | nil => exact .new hfolder hname hstands hfits hnode (Except.ok.inj h)
      | cons => cases h
    | some n =>
      by_cases hplain : ∀ target, n ≠ .link target
      · rw [walk_down hfolder hname hslash hstands hfits hnode hplain] at h
        exact .down hfolder hname hstands hfits hnode hplain (ih h)
      obtain ⟨target, rfl⟩ : ∃ target, n = .link target := by simpa using hplain
      by_cases hlast : rest = [] ∧ aim = .make
      · rw [walk_name hfolder hname hslash hstands hfits, hnode] at h
        obtain ⟨rfl, rfl⟩ := hlast
        exact .last hfolder hname hstands hfits rfl hnode (Except.ok.inj h)
      have hfollows : rest = [] → aim ≠ .make := fun hnil hmake => hlast ⟨hnil, hmake⟩
      cases links with
      | zero =>
        rw [walk_name hfolder hname hslash hstands hfits, hnode] at h
        simp [hlast] at h
      | succ links =>
        rw [walk_link hfolder hname hslash hstands hfits hnode hfollows] at h
        exact .link hfolder hname hstands hfits hnode hfollows (ihlinks _ (Nat.lt_succ_self _) h)

/-! ## Routes -/

/-- Names that lead from a place to a folder through folders and links, where `links` may be
followed and `left` of them are not. -/
inductive Route (d : Disk) : Nat → Place → List String → Nat → Place → Prop
  | done {links : Nat} {here : Place} (folder : d.look? here = some .folder) :
      Route d links here [] links here
  | same {links left : Nat} {here q : Place} {name : String} {names : List String}
      (folder : d.look? here = some .folder) (same : name = "" ∨ name = ".")
      (rest : Route d links here names left q) : Route d links here (name :: names) left q
  | up {links left : Nat} {here q : Place} {names : List String}
      (folder : d.look? here = some .folder) (rest : Route d links here.dropLast names left q) :
      Route d links here (".." :: names) left q
  | down {links left : Nat} {here q : Place} {name : String} {names : List String}
      (folder : d.look? here = some .folder) (ordinary : Ordinary name)
      (stands : here.isGone = false) (fits : name.utf8ByteSize ≤ nameLimit)
      (node : d.node? (here ++ [name]) = some .folder)
      (rest : Route d links (here ++ [name]) names left q) : Route d links here (name :: names) left q
  | link {links left : Nat} {here q : Place} {name target : String} {names : List String}
      (folder : d.look? here = some .folder) (ordinary : Ordinary name)
      (stands : here.isGone = false) (fits : name.utf8ByteSize ≤ nameLimit)
      (node : d.node? (here ++ [name]) = some (.link target))
      (rest : Route d links (if target.startsWith "/" then [] else here)
        (Text.pieces '/' target ++ names) left q) :
      Route d (links + 1) here (name :: names) left q

theorem Route.starts (h : Route d links here names left q) : d.look? here = some .folder := by
  cases h <;> assumption

/-- A walk to a folder is a route. -/
theorem exists_route (h : walk d .find links here names = .ok q) (hq : d.look? q = some .folder) :
    ∃ left, Route d links here names left q := by
  have hwalked := walked_of_walk h
  clear h
  induction hwalked with
  | @done links => exact ⟨links, .done hq⟩
  | same folder same _ ih =>
    obtain ⟨left, hroute⟩ := ih
    exact ⟨left, .same folder same hroute⟩
  | up folder _ ih =>
    obtain ⟨left, hroute⟩ := ih
    exact ⟨left, .up folder hroute⟩
  | new _ ordinary _ _ node found =>
    rw [← found, look?_append ordinary, node] at hq
    cases hq
  | last _ _ _ _ making => cases making
  | down folder ordinary stands fits node _ _ ih =>
    obtain ⟨left, hroute⟩ := ih
    have hstarts := hroute.starts
    rw [look?_append ordinary] at hstarts
    exact ⟨left, .down folder ordinary stands fits hstarts hroute⟩
  | link folder ordinary stands fits node _ _ ih =>
    obtain ⟨left, hroute⟩ := ih
    exact ⟨left, .link folder ordinary stands fits node hroute⟩

/-- A walk with names behind others is a route along those others, with the rest of the walk behind
it. -/
theorem exists_route_append (hrest : ∃ s ∈ rest, s ≠ "")
    (h : walk d aim links here (names ++ rest) = .ok q) :
    ∃ left p, Route d links here names left p ∧ walk d aim left p rest = .ok q := by
  have hnil := ne_nil_of_named hrest
  generalize hall : names ++ rest = all at h
  have hwalked := walked_of_walk h
  induction hwalked generalizing names with
  | done => exact absurd (List.append_eq_nil_iff.1 hall).2 hnil
  | @same links here name all folder same _ ih =>
    rcases List.append_eq_cons_iff.1 hall with ⟨rfl, rfl⟩ | ⟨names, rfl, rfl⟩
    · exact ⟨links, here, .done folder, h⟩
    rw [walk_same folder same] at h
    obtain ⟨left, p, hroute, hwalk⟩ := ih rfl h
    exact ⟨left, p, .same folder same hroute, hwalk⟩
  | @up links here all folder _ ih =>
    rcases List.append_eq_cons_iff.1 hall with ⟨rfl, rfl⟩ | ⟨names, rfl, rfl⟩
    · exact ⟨links, here, .done folder, h⟩
    rw [walk_up folder] at h
    obtain ⟨left, p, hroute, hwalk⟩ := ih rfl h
    exact ⟨left, p, .up folder hroute, hwalk⟩
  | @new links here name folder =>
    rcases List.append_eq_cons_iff.1 hall with ⟨rfl, rfl⟩ | ⟨names, -, hempty⟩
    · exact ⟨links, here, .done folder, h⟩
    · exact absurd (List.append_eq_nil_iff.1 hempty.symm).2 hnil
  | @last links here name target folder =>
    rcases List.append_eq_cons_iff.1 hall with ⟨rfl, rfl⟩ | ⟨names, -, hempty⟩
    · exact ⟨links, here, .done folder, h⟩
    · exact absurd (List.append_eq_nil_iff.1 hempty.symm).2 hnil
  | @down links here name all n folder ordinary stands fits node plain _ ih =>
    rcases List.append_eq_cons_iff.1 hall with ⟨rfl, rfl⟩ | ⟨names, rfl, rfl⟩
    · exact ⟨links, here, .done folder, h⟩
    rw [walk_down folder ordinary (not_only_slashes hrest _) stands fits node plain] at h
    obtain ⟨left, p, hroute, hwalk⟩ := ih rfl h
    have hstarts := hroute.starts
    rw [look?_append ordinary] at hstarts
    exact ⟨left, p, .down folder ordinary stands fits hstarts hroute, hwalk⟩
  | @link links here name target all folder ordinary stands fits node follows _ ih =>
    rcases List.append_eq_cons_iff.1 hall with ⟨rfl, rfl⟩ | ⟨names, rfl, rfl⟩
    · exact ⟨links + 1, here, .done folder, h⟩
    rw [walk_link folder ordinary (not_only_slashes hrest _) stands fits node follows] at h
    obtain ⟨left, p, hroute, hwalk⟩ := ih (List.append_assoc ..) h
    exact ⟨left, p, .link folder ordinary stands fits node hroute, hwalk⟩

namespace Route

theorem folder (h : Route d links here names left q) : d.look? q = some .folder := by
  induction h <;> assumption

/-- A route stays a route where all folders and links are as they were. -/
theorem of_agree (h : Route d links here names left q)
    (hagree : ∀ p n, d.node? p = some n → (∀ f, n ≠ .file f) → d'.node? p = some n) :
    Route d' links here names left q := by
  have hlook : ∀ p, d.look? p = some .folder → d'.look? p = some .folder := by
    intro p hp
    unfold look? at hp ⊢
    split
    · rfl
    · rename_i hgone
      rw [if_neg hgone] at hp
      exact hagree p _ hp (by simp)
  induction h with
  | done folder => exact .done (hlook _ folder)
  | same folder same _ ih => exact .same (hlook _ folder) same ih
  | up folder _ ih => exact .up (hlook _ folder) ih
  | down folder ordinary stands fits node _ ih =>
    exact .down (hlook _ folder) ordinary stands fits (hagree _ _ node (by simp)) ih
  | link folder ordinary stands fits node _ ih =>
    exact .link (hlook _ folder) ordinary stands fits (hagree _ _ node (by simp)) ih

/-- The beginning of a route is a route. -/
theorem exists_front {front back : List String} (h : Route d links here (front ++ back) left q) :
    ∃ left' q', Route d links here front left' q' := by
  generalize hnames : front ++ back = names at h
  induction h generalizing front with
  | done folder =>
    obtain ⟨rfl, -⟩ := List.append_eq_nil_iff.1 hnames
    exact ⟨_, _, .done folder⟩
  | same folder same _ ih =>
    rcases List.append_eq_cons_iff.1 hnames with ⟨rfl, -⟩ | ⟨front', rfl, hrest⟩
    · exact ⟨_, _, .done folder⟩
    · obtain ⟨left', q', hroute⟩ := ih hrest.symm
      exact ⟨left', q', .same folder same hroute⟩
  | up folder _ ih =>
    rcases List.append_eq_cons_iff.1 hnames with ⟨rfl, -⟩ | ⟨front', rfl, hrest⟩
    · exact ⟨_, _, .done folder⟩
    · obtain ⟨left', q', hroute⟩ := ih hrest.symm
      exact ⟨left', q', .up folder hroute⟩
  | down folder ordinary stands fits node _ ih =>
    rcases List.append_eq_cons_iff.1 hnames with ⟨rfl, -⟩ | ⟨front', rfl, hrest⟩
    · exact ⟨_, _, .done folder⟩
    · obtain ⟨left', q', hroute⟩ := ih hrest.symm
      exact ⟨left', q', .down folder ordinary stands fits node hroute⟩
  | link folder ordinary stands fits node _ ih =>
    rcases List.append_eq_cons_iff.1 hnames with ⟨rfl, -⟩ | ⟨front', rfl, hrest⟩
    · exact ⟨_, _, .done folder⟩
    · obtain ⟨left', q', hroute⟩ := ih (by rw [hrest, List.append_assoc])
      exact ⟨left', q', .link folder ordinary stands fits node hroute⟩

/-- What a walk finds behind a route is what it finds in the folder at its end. -/
theorem walk_append (h : Route d links here names left q) (aim : Aim) (hrest : ∃ s ∈ rest, s ≠ "") :
    walk d aim links here (names ++ rest) = walk d aim left q rest := by
  induction h with
  | done => rfl
  | same folder same _ ih => rw [List.cons_append, walk_same folder same, ih]
  | up folder _ ih => rw [List.cons_append, walk_up folder, ih]
  | down folder ordinary stands fits node _ ih =>
    rw [List.cons_append, walk_down folder ordinary (not_only_slashes hrest _) stands fits node
      (by simp), ih]
  | link folder ordinary stands fits node _ ih =>
    rw [List.cons_append, walk_link folder ordinary (not_only_slashes hrest _) stands fits node
      (by simp [ne_nil_of_named hrest]), ← List.append_assoc, ih]

theorem walk_find (h : Route d links here names left q) : walk d .find links here names = .ok q := by
  induction h with
  | done => exact walk_nil
  | same folder same _ ih => rw [walk_same folder same, ih]
  | up folder _ ih => rw [walk_up folder, ih]
  | down folder ordinary stands fits node _ ih =>
    rw [walk_down folder ordinary (by simp) stands fits node (by simp), ih]
  | link folder ordinary stands fits node _ ih =>
    rw [walk_link folder ordinary (by simp) stands fits node (by simp), ih]

/-- Where a route leads there is no room for anything new. -/
theorem walk_make (h : Route d links here names left q) :
    ∃ p n, walk d .make links here names = .ok p ∧ d.look? p = some n := by
  induction h with
  | done folder => exact ⟨_, _, walk_nil, folder⟩
  | same folder same _ ih => rwa [walk_same folder same]
  | up folder _ ih => rwa [walk_up folder]
  | down folder ordinary stands fits node _ ih =>
    rwa [walk_down folder ordinary (by simp) stands fits node (by simp)]
  | @link links left here q name target names folder ordinary stands fits node _ ih =>
    by_cases hnames : names = []
    · -- the link itself is what stands there
      subst hnames
      refine ⟨here ++ [name], _, ?_, (look?_append ordinary).trans node⟩
      rw [walk_name folder ordinary (by simp) stands fits, node]
      rfl
    · rwa [walk_link folder ordinary (by simp) stands fits node (absurd · hnames)]

end Route

/-! ## Names in a folder -/

/-- A name in a folder leads to its place there, unless a link stands there. -/
theorem walk_singleton (hfolder : d.look? q = some .folder) (hstands : q.isGone = false)
    (hname : Ordinary name) (hfits : name.utf8ByteSize ≤ nameLimit)
    (hlink : ∀ target, d.node? (q ++ [name]) ≠ some (.link target)) :
    walk d aim links q [name] = .ok (q ++ [name]) := by
  cases hnode : d.node? (q ++ [name]) with
  | none =>
    rw [walk_name hfolder hname (by simp) hstands hfits, hnode]
    rfl
  | some n =>
    rw [walk_down hfolder hname (by simp) hstands hfits hnode
      (fun target htarget => hlink target (htarget ▸ hnode)), walk_nil]

theorem walk_singleton_of_long (hfolder : d.look? q = some .folder) (hstands : q.isGone = false)
    (hname : Ordinary name) (hlong : nameLimit < name.utf8ByteSize) :
    walk d aim links q [name] = .error .nameTooLong := by
  rw [walk_ordinary hfolder hname (by simp), hstands, if_neg (by simp), if_pos hlong]

/-- Room for something new at a name in a folder is at its place there. -/
theorem eq_append_of_walk_make (hname : Ordinary name)
    (h : walk d .make links here [name] = .ok q) : q = here ++ [name] := by
  cases walked_of_walk h with
  | same _ same _ => exact absurd same hname.ne_same
  | up => exact absurd rfl hname.ne_up
  | new _ _ _ _ _ found => exact found.symm
  | last _ _ _ _ _ _ found => exact found.symm
  | down _ _ _ _ _ _ rest =>
    cases rest
    rfl
  | link _ _ _ _ _ follows _ => exact absurd rfl (follows rfl)

/-- Where no links are on the way, names lead to the place that they spell. What is made may find a link
at the end. -/
theorem eq_append_of_walk (hnames : ∀ n ∈ names, Ordinary n)
    (hlink : ∀ front target, front <+: names → (aim = .make → front ≠ names) →
      d.node? (here ++ front) ≠ some (.link target))
    (h : walk d aim links here names = .ok q) : q = here ++ names := by
  have hwalked := walked_of_walk h
  clear h
  induction hwalked with
  | done => rw [List.append_nil]
  | same _ same _ _ => exact absurd same (hnames _ (List.mem_cons_self ..)).ne_same
  | up => exact absurd rfl (hnames _ (List.mem_cons_self ..)).ne_up
  | new _ _ _ _ _ found => exact found.symm
  | last _ _ _ _ _ _ found => exact found.symm
  | @down links here name names n _ _ _ _ _ _ _ ih =>
    rw [ih (fun n hn => hnames n (List.mem_cons_of_mem _ hn)) fun front target hfront hend => ?_,
      List.append_assoc, List.singleton_append]
    rw [List.append_assoc]
    exact hlink (name :: front) target ((List.prefix_cons_inj name).2 hfront) (by simpa using hend)
  | @link links here name target names _ _ _ _ node follows _ _ =>
    refine absurd node (hlink [name] target ((List.prefix_cons_inj name).2 List.nil_prefix) ?_)
    intro haim hsame
    exact follows (List.cons.inj hsame).2.symm haim

/-! ## Places of paths -/

theorem place_eq_ok_iff {cwd : Place} {p : Path} : d.place cwd aim p = .ok q ↔
    screen p = .ok () ∧
      walk d aim linkLimit (if p.isAnchored then [] else cwd) p.segments = .ok q := by
  rw [place]
  cases hscreen : screen p with
  | error r =>
    constructor
    · intro h
      cases h
    · intro h
      cases h.1
  | ok u => exact ⟨fun h => ⟨rfl, h⟩, fun h => h.2⟩

section Stat

variable {cwd : Place} {p : Path}

/-- What a path leads to is what stands at its place. -/
theorem stat_of_place {n : Node} (hplace : d.place cwd .find p = .ok q) (hlook : d.look? q = some n) :
    d.stat cwd p = .ok n := by
  simp only [stat, hplace, bind, Except.bind, hlook]

theorem stat_of_place_none (hplace : d.place cwd .find p = .ok q) (hlook : d.look? q = none) :
    d.stat cwd p = .error .missing := by
  simp only [stat, hplace, bind, Except.bind, hlook]

theorem stat_of_place_error {r : Refusal} (hplace : d.place cwd .find p = .error r) :
    d.stat cwd p = .error r := by
  simp only [stat, hplace, bind, Except.bind]

end Stat

end Decompilation.Disk
