import Mathlib.Data.List.Nodup
import Decompilation.Project.Tree
import Decompilation.Proofs.Text.Lines

/-!
# What a tree of files shows

Paths are put into a tree one by one, and what a node shows depends on the paths that lead through it,
in their order (`Made`): one more path keeps this (`Made.insert`), unless it leads through a file
(`Made.insert?_eq_none_iff`). So a whole list of paths makes a tree exactly if none leads through a file
of those before it, and then the tree shows the list (`buildTree_shows_paths`).
-/

namespace Decompilation.Project

variable {n s x : String} {p q rest : List String} {paths later : List (List String)}
  {children : List Tree} {t t' u : Tree}

/-! ## Segments -/

def isSlash (c : Char) : Bool := c == '/' || c == '\\'

/-- The parts of a path between slashes of either kind, without the empty ones. -/
def slashParts (path : String) : List String :=
  ((path.toList.splitOnP isSlash).filter fun part => !part.isEmpty).map String.ofList

theorem splitOn_map_slash (l : List Char) :
    Text.splitOn '/' (l.map fun c => if c = '\\' then '/' else c) = l.splitOnP isSlash := by
  induction l with
  | nil => rfl
  | cons c l ih =>
    rw [List.map_cons, Text.splitOn, List.splitOnP_cons_eq_if_modifyHead, ih, isSlash]
    obtain ⟨part, parts, hparts⟩ := List.exists_cons_of_ne_nil (List.splitOnP_ne_nil isSlash l)
    rw [hparts]
    by_cases hback : c = '\\'
    · simp [hback]
    · by_cases hslash : c = '/'
      · simp [hslash]
      · simp [hback, hslash]

theorem treeSegments_eq (path : String) : treeSegments path = slashParts path := by
  rw [treeSegments, slashParts, splitOn_map_slash, ← List.filterMap_eq_map, ← List.filterMap_eq_filter,
    List.filterMap_filterMap]
  congr 1
  funext part
  cases part <;> rfl

/-! ## Paths with a common start -/

/-- What follows some segments in the paths that start with them, path by path. -/
def following (p : List String) (paths : List (List String)) : List (List String) :=
  paths.filterMap (·.dropPrefix? p)

theorem dropPrefix?_eq_some {l : List String} : l.dropPrefix? p = some rest ↔ l = p ++ rest := by
  rw [List.dropPrefix?_eq_some_iff]
  simp

theorem mem_following : rest ∈ following p paths ↔ p ++ rest ∈ paths := by
  unfold following
  rw [List.mem_filterMap]
  constructor
  · rintro ⟨l, hl, hrest⟩
    rwa [← dropPrefix?_eq_some.1 hrest]
  · exact fun h => ⟨_, h, dropPrefix?_eq_some.2 rfl⟩

@[simp] theorem following_nil (paths : List (List String)) : following [] paths = paths := by
  have hid : (fun l : List String => l.dropPrefix? []) = some := by
    funext l
    exact List.dropPrefix?_nil
  rw [following, hid, List.filterMap_some]

/-- What follows segments follows the rest of them in what follows the first. -/
theorem following_cons (s : String) (p : List String) (paths : List (List String)) :
    following (s :: p) paths = following p (following [s] paths) := by
  unfold following
  rw [List.filterMap_filterMap]
  congr 1
  funext l
  cases l with
  | nil => rfl
  | cons x l => by_cases hx : x = s <;> simp [List.dropPrefix?, hx]

theorem following_concat_self (s : String) (rest : List String) (paths : List (List String)) :
    following [s] (paths ++ [s :: rest]) = following [s] paths ++ [rest] := by
  simp [following, List.dropPrefix?]

theorem following_concat_of_ne (h : s ≠ x) (rest : List String) (paths : List (List String)) :
    following [x] (paths ++ [s :: rest]) = following [x] paths := by
  simp [following, List.dropPrefix?, h]

theorem following_concat_nil (x : String) (paths : List (List String)) :
    following [x] (paths ++ [[]]) = following [x] paths := by
  simp [following, List.dropPrefix?]

/-- The segments that follow some segments in paths, each once and in the order of first appearance. -/
def nextNames (p : List String) (paths : List (List String)) : List String :=
  ((following p paths).filterMap List.head?).eraseDups

theorem mem_nextNames_nil : x ∈ nextNames [] paths ↔ ∃ rest, x :: rest ∈ paths := by
  rw [nextNames, List.mem_eraseDups, following_nil, List.mem_filterMap]
  constructor
  · rintro ⟨l, hl, hx⟩
    obtain ⟨rest, rfl⟩ := List.head?_eq_some_iff.1 hx
    exact ⟨rest, hl⟩
  · rintro ⟨rest, h⟩
    exact ⟨_, h, rfl⟩

theorem eraseDups_concat_of_mem {l : List String} (h : s ∈ l) :
    (l ++ [s]).eraseDups = l.eraseDups := by
  rw [List.eraseDups_append, List.removeAll, List.filter_cons_of_neg (by simpa using h),
    List.filter_nil, List.eraseDups_nil, List.append_nil]

theorem eraseDups_concat_of_not_mem {l : List String} (h : s ∉ l) :
    (l ++ [s]).eraseDups = l.eraseDups ++ [s] := by
  rw [List.eraseDups_append, List.removeAll, List.filter_cons_of_pos (by simpa using h),
    List.filter_nil, List.eraseDups_cons, List.filter_nil, List.eraseDups_nil]

theorem nextNames_concat_of_mem (h : s ∈ nextNames [] paths) (rest : List String) :
    nextNames [] (paths ++ [s :: rest]) = nextNames [] paths := by
  rw [nextNames, following_nil, List.mem_eraseDups] at h
  rw [nextNames, nextNames, following_nil, following_nil, List.filterMap_append]
  exact eraseDups_concat_of_mem h

theorem nextNames_concat_of_not_mem (h : s ∉ nextNames [] paths) (rest : List String) :
    nextNames [] (paths ++ [s :: rest]) = nextNames [] paths ++ [s] := by
  rw [nextNames, following_nil, List.mem_eraseDups] at h
  rw [nextNames, nextNames, following_nil, following_nil, List.filterMap_append]
  exact eraseDups_concat_of_not_mem h

theorem nextNames_concat_nil (paths : List (List String)) :
    nextNames [] (paths ++ [[]]) = nextNames [] paths := by
  rw [nextNames, nextNames, following_nil, following_nil, List.filterMap_append,
    List.filterMap_cons_none rfl, List.filterMap_nil, List.append_nil]

theorem nodup_eraseDups (l : List String) : l.eraseDups.Nodup := by
  induction hn : l.length using Nat.strongRecOn generalizing l with
  | ind m ih =>
    cases l with
    | nil => exact List.nodup_nil
    | cons a l =>
      have hlt : (l.filter fun b => !b == a).length < m := by
        have := List.length_filter_le (fun b => !b == a) l
        rw [List.length_cons] at hn
        omega
      rw [List.eraseDups_cons, List.nodup_cons, List.mem_eraseDups]
      exact ⟨by simp, ih _ hlt _ rfl⟩

theorem nodup_nextNames (p : List String) (paths : List (List String)) : (nextNames p paths).Nodup :=
  nodup_eraseDups _

/-- Among paths some segments are those of a file: the first path that starts with them ends with
them, and the last of them has a suffix. -/
def FileIn (paths : List (List String)) (p : List String) : Prop :=
  paths.find? (p.isPrefixOf ·) = some p ∧ ∃ n, p.getLast? = some n ∧ (Path.suffixOf n).isEmpty = false

theorem find?_eq_some_iff_following :
    paths.find? (p.isPrefixOf ·) = some p ↔ (following p paths).head? = some [] := by
  rw [following, List.head?_filterMap]
  induction paths with
  | nil => simp
  | cons l paths ih =>
    rw [List.find?_cons, List.findSome?_cons]
    cases hl : l.dropPrefix? p with
    | some rest =>
      obtain rfl := dropPrefix?_eq_some.1 hl
      simp [List.isPrefixOf_iff_prefix.2 (List.prefix_append p rest)]
    | none =>
      have hnot : p.isPrefixOf l = false := by
        rw [Bool.eq_false_iff, Ne, List.isPrefixOf_iff_prefix]
        rintro ⟨rest, rfl⟩
        rw [dropPrefix?_eq_some.2 rfl] at hl
        cases hl
      simp [hnot, ih]

theorem fileIn_cons (hp : p ≠ []) : FileIn paths (s :: p) ↔ FileIn (following [s] paths) p := by
  unfold FileIn
  rw [find?_eq_some_iff_following, find?_eq_some_iff_following, following_cons]
  obtain ⟨x, p, rfl⟩ := List.exists_cons_of_ne_nil hp
  rw [List.getLast?_cons_cons]

/-- Paths behind the first one that starts with some segments do not matter. -/
theorem fileIn_append (h : ∃ rest, p ++ rest ∈ paths) (later : List (List String)) :
    FileIn (paths ++ later) p ↔ FileIn paths p := by
  obtain ⟨rest, h⟩ := h
  obtain ⟨first, hfirst⟩ : ∃ first, paths.find? (p.isPrefixOf ·) = some first := by
    rw [← Option.isSome_iff_exists, List.find?_isSome]
    exact ⟨_, h, List.isPrefixOf_iff_prefix.2 (List.prefix_append _ _)⟩
  unfold FileIn
  rw [List.find?_append, hfirst, Option.some_or]

theorem fileIn_concat_of_not_mem (h : s ∉ nextNames [] paths) :
    FileIn (paths ++ [s :: rest]) [s] ↔ rest = [] ∧ (Path.suffixOf s).isEmpty = false := by
  have hnone : following [s] paths = [] := by
    refine List.eq_nil_iff_forall_not_mem.2 fun rest hrest => h ?_
    exact mem_nextNames_nil.2 ⟨rest, mem_following.1 hrest⟩
  unfold FileIn
  rw [find?_eq_some_iff_following, following_concat_self, hnone]
  simp

/-! ## Nodes -/

namespace Tree

def isFile : Tree → Bool
  | .file _ => true
  | .folder .. => false

/-- Names lead from a node to one at or below it: they are the names of the nodes on the way, but for
the first. -/
inductive Reaches : Tree → List String → Tree → Prop
  | here (t : Tree) : Reaches t [] t
  | down {n : String} {children : List Tree} {t u : Tree} {p : List String} (h : t ∈ children)
      (hrest : Reaches t p u) : Reaches (.folder n children) (t.name :: p) u

theorem exists_of_isFile (h : t.isFile = true) : ∃ n, t = .file n := by
  cases t with
  | file n => exact ⟨n, rfl⟩
  | folder n children => cases h

/-- Below a folder stands what some paths have put there: the names that the paths go on with stand in
the order of their first appearance, and each node is what the paths through it have made. -/
inductive Made : List (List String) → Tree → Prop
  | file (n : String) {paths : List (List String)} (ends : ∀ p ∈ paths, p = []) : Made paths (.file n)
  | folder (n : String) {paths : List (List String)} {children : List Tree}
      (names : children.map name = nextNames [] paths)
      (files : ∀ t ∈ children, t.isFile = true ↔ FileIn paths [t.name])
      (made : ∀ t ∈ children, Made (following [t.name] paths) t) : Made paths (.folder n children)

/-! ## One more path -/

theorem name_chain (s : String) (rest : List String) : (chain s rest).name = s := by
  cases rest with
  | nil =>
    rw [chain]
    split <;> rfl
  | cons x rest => rfl

theorem isFile_chain (s : String) (rest : List String) :
    (chain s rest).isFile = true ↔ rest = [] ∧ (Path.suffixOf s).isEmpty = false := by
  cases rest with
  | nil =>
    rw [chain]
    split <;> simp_all [isFile]
  | cons x rest => simp [chain, isFile]

theorem made_chain (s : String) (rest : List String) : Made [rest] (chain s rest) := by
  induction rest generalizing s with
  | nil =>
    rw [chain]
    split
    · exact .folder s rfl (List.forall_mem_nil _) (List.forall_mem_nil _)
    · exact .file s (by simp)
  | cons x rest ih =>
    have hnone : x ∉ nextNames [] [] := List.not_mem_nil
    refine .folder s ?_ ?_ ?_
    · rw [List.map_singleton, name_chain]
      rfl
    · intro t ht
      obtain rfl := List.mem_singleton.1 ht
      rw [name_chain, isFile_chain]
      exact (fileIn_concat_of_not_mem hnone).symm
    · intro t ht
      obtain rfl := List.mem_singleton.1 ht
      rw [name_chain]
      have hrest := following_concat_self x rest []
      rw [List.nil_append] at hrest
      rw [hrest]
      exact ih x

theorem insertIn?_of_not_mem (h : s ∉ children.map name) :
    insertIn? children s rest = some (children ++ [chain s rest]) := by
  induction children with
  | nil => rw [insertIn?, List.nil_append]
  | cons t children ih =>
    rw [List.map_cons, List.mem_cons, not_or] at h
    rw [insertIn?, if_neg (Ne.symm h.1), ih h.2, Option.map_some, List.cons_append]

theorem insertIn?_append {front back : List Tree} (h : t.name ∉ front.map name) :
    insertIn? (front ++ t :: back) t.name rest =
      (insert? t rest).map fun t' => front ++ t' :: back := by
  induction front with
  | nil => rw [List.nil_append, insertIn?, if_pos rfl]; rfl
  | cons u front ih =>
    rw [List.map_cons, List.mem_cons, not_or] at h
    rw [List.cons_append, insertIn?, if_neg (Ne.symm h.1), ih h.2, Option.map_map]
    rfl

/-- A path goes on below the child with the name of its first segment, or makes a new one. -/
theorem exists_child (children : List Tree) (s : String) : s ∉ children.map name ∨
    ∃ front t back, children = front ++ t :: back ∧ t.name = s ∧ s ∉ front.map name := by
  induction children with
  | nil => exact .inl List.not_mem_nil
  | cons u children ih =>
    by_cases hu : u.name = s
    · exact .inr ⟨[], u, children, rfl, hu, List.not_mem_nil⟩
    · rcases ih with hnot | ⟨front, t, back, rfl, ht, hfront⟩
      · exact .inl (by simp [Ne.symm hu, hnot])
      · exact .inr ⟨u :: front, t, back, rfl, ht, by simp [Ne.symm hu, hfront]⟩

@[simp] theorem insert?_nil (t : Tree) : insert? t [] = some t := by
  cases t <;> rfl

theorem insert?_kind (h : insert? t p = some t') : t'.name = t.name ∧ t'.isFile = t.isFile := by
  cases p with
  | nil =>
    obtain rfl : t = t' := by simpa using h
    exact ⟨rfl, rfl⟩
  | cons s rest =>
    cases t with
    | file n => cases h
    | folder n children =>
      rw [insert?] at h
      obtain ⟨children', -, rfl⟩ := Option.map_eq_some_iff.1 h
      exact ⟨rfl, rfl⟩

theorem mem_replaced {front back : List Tree} (h : ((front ++ t :: back).map name).Nodup)
    (hu : u ∈ front ++ t' :: back) : u = t' ∨ u ∈ front ++ t :: back ∧ t.name ≠ u.name := by
  rw [List.map_append, List.map_cons, List.nodup_append] at h
  obtain ⟨-, hback, hfront⟩ := h
  rcases List.mem_append.1 hu with hu | hu
  · refine .inr ⟨List.mem_append_left _ hu, fun heq => ?_⟩
    exact hfront u.name (List.mem_map_of_mem hu) t.name (List.mem_cons_self ..) heq.symm
  · rcases List.mem_cons.1 hu with rfl | hu
    · exact .inl rfl
    · refine .inr ⟨List.mem_append_right _ (List.mem_cons_of_mem _ hu), fun heq => ?_⟩
      exact (List.nodup_cons.1 hback).1 (heq ▸ List.mem_map_of_mem hu)

/-- Later paths do not change whether a child is a file. -/
theorem fileIn_of_mem (h : children.map name = nextNames [] paths) (ht : t ∈ children)
    (later : List (List String)) : FileIn (paths ++ later) [t.name] ↔ FileIn paths [t.name] := by
  have hname : t.name ∈ nextNames [] paths := h ▸ List.mem_map_of_mem ht
  exact fileIn_append (mem_nextNames_nil.1 hname) later

/-- A path that ends at a node changes nothing at it. -/
theorem Made.concat_nil (h : Made paths t) : Made (paths ++ [[]]) t := by
  cases h with
  | file n ends =>
    refine .file n fun p hp => ?_
    rcases List.mem_append.1 hp with hp | hp
    · exact ends p hp
    · exact List.mem_singleton.1 hp
  | @folder n _ children names files made =>
    refine .folder n ?_ (fun t ht => ?_) fun t ht => ?_
    · rw [nextNames_concat_nil, names]
    · rw [files t ht, fileIn_of_mem names ht]
    · rw [following_concat_nil]
      exact made t ht

/-- A path whose first segment is no name of a child makes a new child behind the others. -/
theorem Made.concat_new (h : Made paths (.folder n children)) (hnew : s ∉ children.map name) :
    Made (paths ++ [s :: rest]) (.folder n (children ++ [chain s rest])) := by
  cases h with
  | folder _ names files made =>
    rw [names] at hnew
    have hnone : following [s] paths = [] :=
      List.eq_nil_iff_forall_not_mem.2 fun rest hrest =>
        hnew (mem_nextNames_nil.2 ⟨rest, mem_following.1 hrest⟩)
    refine .folder n ?_ (fun u hu => ?_) fun u hu => ?_
    · rw [nextNames_concat_of_not_mem hnew, List.map_append, names, List.map_singleton, name_chain]
    · rcases List.mem_append.1 hu with hu | hu
      · rw [fileIn_of_mem names hu, files u hu]
      · obtain rfl := List.mem_singleton.1 hu
        rw [name_chain, isFile_chain, fileIn_concat_of_not_mem hnew]
    · rcases List.mem_append.1 hu with hu | hu
      · have hname : u.name ∈ nextNames [] paths := names ▸ List.mem_map_of_mem hu
        have hne : s ≠ u.name := fun h => hnew (h ▸ hname)
        rw [following_concat_of_ne hne]
        exact made u hu
      · obtain rfl := List.mem_singleton.1 hu
        rw [name_chain, following_concat_self, hnone]
        exact made_chain s rest

/-- A path that goes on below a child changes nothing but this child. -/
theorem Made.concat_below {front back : List Tree} (h : Made paths (.folder n (front ++ t :: back)))
    (hkind : t'.name = t.name ∧ t'.isFile = t.isFile)
    (ht' : Made (following [t.name] paths ++ [rest]) t') :
    Made (paths ++ [t.name :: rest]) (.folder n (front ++ t' :: back)) := by
  obtain ⟨hname, hfile⟩ := hkind
  cases h with
  | folder _ names files made =>
    have ht : t ∈ front ++ t :: back := List.mem_append_right _ (List.mem_cons_self ..)
    have hmem : t.name ∈ nextNames [] paths := names ▸ List.mem_map_of_mem ht
    have hnodup : ((front ++ t :: back).map name).Nodup := names ▸ nodup_nextNames [] paths
    refine .folder n ?_ (fun u hu => ?_) fun u hu => ?_
    · rw [nextNames_concat_of_mem hmem, ← names]
      simp [hname]
    · rcases mem_replaced hnodup hu with rfl | ⟨hu, -⟩
      · rw [hfile, hname, fileIn_of_mem names ht, files t ht]
      · rw [fileIn_of_mem names hu, files u hu]
    · rcases mem_replaced hnodup hu with rfl | ⟨hu, hne⟩
      · rwa [hname, following_concat_self]
      · rw [following_concat_of_ne hne]
        exact made u hu

/-- One more path keeps what a tree shows. -/
theorem Made.insert (h : Made paths t) (hp : insert? t p = some t') : Made (paths ++ [p]) t' := by
  -- The induction is on the path: below a child its rest is one more of what follows the child's name.
  induction p generalizing paths t t' with
  | nil =>
    obtain rfl : t = t' := by simpa using hp
    exact h.concat_nil
  | cons s rest ih =>
    cases t with
    | file n => cases hp
    | folder n children =>
      rw [insert?] at hp
      obtain ⟨children', hchildren, rfl⟩ := Option.map_eq_some_iff.1 hp
      rcases exists_child children s with hnew | ⟨front, t, back, rfl, rfl, hfront⟩
      · rw [insertIn?_of_not_mem hnew] at hchildren
        obtain rfl := Option.some.inj hchildren
        exact h.concat_new hnew
      · rw [insertIn?_append hfront] at hchildren
        obtain ⟨t', hinsert, rfl⟩ := Option.map_eq_some_iff.1 hchildren
        have ht : Made (following [t.name] paths) t := by
          cases h with
          | folder _ _ _ made => exact made t (List.mem_append_right _ (List.mem_cons_self ..))
        exact h.concat_below (insert?_kind hinsert) (ih ht hinsert)

/-! ## What the nodes show -/

theorem reaches_folder_iff : Reaches (.folder n children) p u ↔
    (p = [] ∧ u = .folder n children) ∨ ∃ t ∈ children, ∃ q, p = t.name :: q ∧ t.Reaches q u := by
  constructor
  · intro h
    cases h with
    | here => exact .inl ⟨rfl, rfl⟩
    | down ht hrest => exact .inr ⟨_, ht, _, rfl, hrest⟩
  · rintro (⟨rfl, rfl⟩ | ⟨t, ht, q, rfl, hrest⟩)
    · exact .here _
    · exact .down ht hrest

/-- A path cannot be put into a tree exactly if it leads through a file. -/
theorem Made.insert?_eq_none_iff (h : Made paths t) :
    insert? t p = none ↔ ∃ q n, t.Reaches q (.file n) ∧ q <+: p ∧ q ≠ p := by
  induction p generalizing paths t with
  | nil =>
    rw [insert?_nil]
    refine iff_of_false (by simp) ?_
    rintro ⟨q, n, -, hq, hne⟩
    exact hne (List.prefix_nil.1 hq)
  | cons s rest ih =>
    cases h with
    | file n ends => exact iff_of_true rfl ⟨[], n, .here _, List.nil_prefix, by simp⟩
    | @folder n _ children names files made =>
      have hinv : ∀ q m, Reaches (.folder n children) q (.file m) → q <+: s :: rest →
          ∃ u ∈ children, u.name = s ∧ ∃ q', q = s :: q' ∧ q' <+: rest ∧ u.Reaches q' (.file m) := by
        intro q m hq hprefix
        rcases reaches_folder_iff.1 hq with ⟨-, hfile⟩ | ⟨u, hu, q', rfl, hrest⟩
        · cases hfile
        · obtain ⟨rfl, hq'⟩ := List.cons_prefix_cons.1 hprefix
          exact ⟨u, hu, rfl, q', rfl, hq', hrest⟩
      rw [insert?, Option.map_eq_none_iff]
      rcases exists_child children s with hnew | ⟨front, t, back, rfl, rfl, hfront⟩
      · rw [insertIn?_of_not_mem hnew]
        refine iff_of_false (by simp) ?_
        rintro ⟨q, m, hq, hprefix, -⟩
        obtain ⟨u, hu, rfl, -⟩ := hinv q m hq hprefix
        exact hnew (List.mem_map_of_mem hu)
      · have ht : t ∈ front ++ t :: back := List.mem_append_right _ (List.mem_cons_self ..)
        have hnodup : ((front ++ t :: back).map name).Nodup := names ▸ nodup_nextNames [] paths
        rw [insertIn?_append hfront, Option.map_eq_none_iff, ih (made t ht)]
        constructor
        · rintro ⟨q, m, hq, hprefix, hne⟩
          exact ⟨t.name :: q, m, .down ht hq, List.cons_prefix_cons.2 ⟨rfl, hprefix⟩, by simpa using hne⟩
        · rintro ⟨q, m, hq, hprefix, hne⟩
          obtain ⟨u, hu, hname, q', rfl, hprefix', hrest⟩ := hinv q m hq hprefix
          obtain rfl := List.inj_on_of_nodup_map hnodup hu ht hname
          exact ⟨q', m, hrest, hprefix', by simpa using hne⟩

theorem Made.of_reaches (h : Made paths t) (hr : t.Reaches p u) : Made (following p paths) u := by
  induction hr generalizing paths with
  | here t => rwa [following_nil]
  | @down n children t u p ht hrest ih =>
    cases h with
    | folder _ names files made =>
      rw [following_cons]
      exact ih (made t ht)

theorem Made.isFile_iff (h : Made paths t) (hr : t.Reaches p u) (hp : p ≠ []) :
    u.isFile = true ↔ FileIn paths p := by
  induction hr generalizing paths with
  | here t => exact absurd rfl hp
  | @down n children t u p ht hrest ih =>
    cases h with
    | folder _ names files made =>
      by_cases hnil : p = []
      · subst hnil
        cases hrest with
        | here => exact files t ht
      · rw [fileIn_cons hnil]
        exact ih (made t ht) hnil

theorem Made.exists_reaches (h : Made paths t) (hp : p ++ rest ∈ paths) : ∃ u, t.Reaches p u := by
  induction p generalizing paths t with
  | nil => exact ⟨t, .here t⟩
  | cons s p ih =>
    cases h with
    | file n ends => cases ends _ hp
    | folder n names files made =>
      have hname : s ∈ nextNames [] paths := mem_nextNames_nil.2 ⟨_, hp⟩
      obtain ⟨t, ht, rfl⟩ := List.mem_map.1 (names ▸ hname)
      obtain ⟨u, hu⟩ := ih (made t ht) (mem_following.2 hp)
      exact ⟨u, .down ht hu⟩

theorem Made.exists_path (h : Made paths t) (hr : t.Reaches p u) (hp : p ≠ []) :
    ∃ rest, p ++ rest ∈ paths := by
  induction hr generalizing paths with
  | here t => exact absurd rfl hp
  | @down n children t u p ht hrest ih =>
    cases h with
    | folder _ names files made =>
      by_cases hnil : p = []
      · have hname : t.name ∈ nextNames [] paths := names ▸ List.mem_map_of_mem ht
        rw [hnil]
        exact mem_nextNames_nil.1 hname
      · obtain ⟨rest, hrest⟩ := ih (made t ht) hnil
        have hpath : [t.name] ++ (p ++ rest) ∈ paths := mem_following.1 hrest
        exact ⟨rest, hpath⟩

/-- A tree shows some paths: nodes below one folder have different names, the names that lead to nodes
are what the paths start with, files stand where the paths have files, and what is in a folder stands in
the order of its first appearance. -/
structure Shows (paths : List (List String)) (t : Tree) : Prop where
  differ : ∀ p n children, t.Reaches p (.folder n children) → (children.map name).Nodup
  nodes : ∀ p, p ≠ [] → ((∃ u, t.Reaches p u) ↔ ∃ l ∈ paths, p <+: l)
  files : ∀ p u, p ≠ [] → t.Reaches p u → (u.isFile = true ↔ FileIn paths p)
  order : ∀ p n children, t.Reaches p (.folder n children) → children.map name = nextNames p paths

theorem Made.names_eq (h : Made paths t) (hr : t.Reaches p (.folder n children)) :
    children.map name = nextNames p paths := by
  have hfolder := h.of_reaches hr
  cases hfolder with
  | folder _ names files made =>
    rw [names, nextNames, following_nil]
    rfl

theorem Made.shows (h : Made paths t) : Shows paths t := by
  refine ⟨fun p n children hr => ?_, fun p hp => ⟨?_, ?_⟩, fun p u hp hr => h.isFile_iff hr hp,
    fun p n children hr => h.names_eq hr⟩
  · rw [h.names_eq hr]
    exact nodup_nextNames p paths
  · rintro ⟨u, hr⟩
    obtain ⟨rest, hrest⟩ := h.exists_path hr hp
    exact ⟨_, hrest, List.prefix_append _ _⟩
  · rintro ⟨_, hl, rest, rfl⟩
    exact h.exists_reaches hl

end Tree

/-! ## All paths -/

/-- A path leads through a file: some of its segments, but not all, are those of a file among the
paths before it. -/
def ThroughFile (paths : List (List String)) : Prop :=
  ∃ before p after q, paths = before ++ p :: after ∧ FileIn before q ∧ q <+: p ∧ q ≠ p

theorem insert?_eq_none_iff_fileIn (h : Tree.Made paths t) (ht : t.isFile = false) :
    t.insert? p = none ↔ ∃ q, FileIn paths q ∧ q <+: p ∧ q ≠ p := by
  rw [h.insert?_eq_none_iff]
  constructor
  · rintro ⟨q, n, hq, hprefix, hne⟩
    have hnil : q ≠ [] := by
      rintro rfl
      cases hq
      cases ht
    exact ⟨q, (h.isFile_iff hq hnil).1 rfl, hprefix, hne⟩
  · rintro ⟨q, hq, hprefix, hne⟩
    have hnil : q ≠ [] := by
      rintro rfl
      obtain ⟨-, n, hlast, -⟩ := hq
      cases hlast
    have hpath : q ++ [] ∈ paths := by
      rw [List.append_nil]
      exact List.mem_of_find?_eq_some hq.1
    obtain ⟨u, hu⟩ := h.exists_reaches hpath
    obtain ⟨n, rfl⟩ := Tree.exists_of_isFile ((h.isFile_iff hu hnil).2 hq)
    exact ⟨q, n, hu, hprefix, hne⟩

theorem made_of_foldlM {done : List (List String)} (h : Tree.Made done t)
    (hp : paths.foldlM Tree.insert? t = some t') : Tree.Made (done ++ paths) t' := by
  induction paths generalizing done t with
  | nil =>
    cases hp
    rwa [List.append_nil]
  | cons p paths ih =>
    rw [List.foldlM_cons] at hp
    obtain ⟨t₁, hinsert, hrest⟩ := Option.bind_eq_some_iff.1 hp
    have hmade := ih (h.insert hinsert) hrest
    rwa [List.append_assoc, List.singleton_append] at hmade

theorem foldlM_eq_none_iff {done : List (List String)} (h : Tree.Made done t) (ht : t.isFile = false) :
    paths.foldlM Tree.insert? t = none ↔
      ∃ before p after q, paths = before ++ p :: after ∧ FileIn (done ++ before) q ∧ q <+: p ∧ q ≠ p := by
  induction paths generalizing done t with
  | nil => exact iff_of_false (by rintro ⟨⟩) (by simp)
  | cons l paths ih =>
    have hfirst := insert?_eq_none_iff_fileIn (p := l) h ht
    rw [List.foldlM_cons]
    cases hinsert : t.insert? l with
    | none =>
      obtain ⟨q, hq, hprefix, hne⟩ := hfirst.1 hinsert
      exact iff_of_true rfl ⟨[], l, paths, q, rfl, by rwa [List.append_nil], hprefix, hne⟩
    | some t₁ =>
      have hfile : t₁.isFile = false := (Tree.insert?_kind hinsert).2.trans ht
      refine (ih (h.insert hinsert) hfile).trans ⟨?_, ?_⟩
      · rintro ⟨before, p, after, q, rfl, hq, hprefix, hne⟩
        refine ⟨l :: before, p, after, q, rfl, ?_, hprefix, hne⟩
        rwa [List.append_assoc, List.singleton_append] at hq
      · rintro ⟨before, p, after, q, hcut, hq, hprefix, hne⟩
        cases before with
        | nil =>
          obtain ⟨rfl, rfl⟩ := List.cons.inj hcut
          rw [List.append_nil] at hq
          rw [hfirst.2 ⟨q, hq, hprefix, hne⟩] at hinsert
          cases hinsert
        | cons l' before =>
          obtain ⟨rfl, rfl⟩ := List.cons.inj hcut
          refine ⟨before, p, after, q, rfl, ?_, hprefix, hne⟩
          rwa [List.append_assoc, List.singleton_append]

/-- **A tree shows its paths.** Cut at slashes of either kind, the paths cannot be put into a tree
exactly if one of them leads through a file of those before it. Otherwise they make a tree that shows
them. -/
theorem buildTree_shows_paths (root : String) (files : List String) :
    (buildTree root files = .error (.missingField "children") ↔ ThroughFile (files.map slashParts)) ∧
      (¬ ThroughFile (files.map slashParts) →
        ∃ t, buildTree root files = .ok t ∧ Tree.Shows (files.map slashParts) t) := by
  have hparts : files.map treeSegments = files.map slashParts :=
    List.map_congr_left fun file _ => treeSegments_eq file
  have hempty : ∀ n, Tree.Made [] (.folder n []) := fun n =>
    .folder n rfl (List.forall_mem_nil _) (List.forall_mem_nil _)
  unfold buildTree
  rw [hparts]
  dsimp only
  generalize (if (Path.ofString root).name.isEmpty then "." else (Path.ofString root).name) = top
  have hnone : (files.map slashParts).foldlM Tree.insert? (.folder top []) = none ↔
      ThroughFile (files.map slashParts) := foldlM_eq_none_iff (hempty top) rfl
  cases hfold : (files.map slashParts).foldlM Tree.insert? (.folder top []) with
  | none => exact ⟨iff_of_true rfl (hnone.1 hfold), fun h => absurd (hnone.1 hfold) h⟩
  | some t =>
    have hmade := made_of_foldlM (hempty top) hfold
    have hfree : ¬ ThroughFile (files.map slashParts) := fun h => by
      rw [hnone.2 h] at hfold
      cases hfold
    exact ⟨iff_of_false (by rintro ⟨⟩) hfree, fun _ => ⟨t, rfl, hmade.shows⟩⟩

/-- A name with a suffix that is that of a folder first, and a path that is listed again; and a path
that leads through a file. -/
theorem buildTree_shows_mixed_paths :
    let files := ["a/b.cs", "x.d\\e", "/a//c", "a\\b.cs", "x.d"]
    let tree : Tree := .folder "out" [.folder "a" [.file "b.cs", .folder "c" []],
      .folder "x.d" [.folder "e" []]]
    buildTree "/tmp/out" files = .ok tree ∧ ¬ ThroughFile (files.map slashParts) ∧
      Tree.Shows (files.map slashParts) tree ∧
      buildTree "/tmp/out" ["a/b.cs", "a/b.cs/c"] = .error (.missingField "children") ∧
      ThroughFile (["a/b.cs", "a/b.cs/c"].map slashParts) := by
  intro files tree
  have hfile : (Path.suffixOf "b.cs").isEmpty = false := by decide +kernel
  have hplain : (Path.suffixOf "c").isEmpty = true ∧ (Path.suffixOf "e").isEmpty = true := by
    decide +kernel
  have hroot : (Path.ofString "/tmp/out").name = "out" := by decide +kernel
  have hparts : files.map treeSegments =
      [["a", "b.cs"], ["x.d", "e"], ["a", "c"], ["a", "b.cs"], ["x.d"]] := by decide +kernel
  have hthrough : ["a/b.cs", "a/b.cs/c"].map treeSegments = [["a", "b.cs"], ["a", "b.cs", "c"]] := by
    decide +kernel
  have hbuild : buildTree "/tmp/out" files = .ok tree := by
    rw [buildTree, hparts, hroot]
    simp [Tree.insert?, Tree.insertIn?, Tree.chain, Tree.name, hfile, hplain, tree]
  have hfails : buildTree "/tmp/out" ["a/b.cs", "a/b.cs/c"] = .error (.missingField "children") := by
    rw [buildTree, hthrough, hroot]
    simp [Tree.insert?, Tree.insertIn?, Tree.chain, Tree.name, hfile]
  obtain ⟨hiff, hshows⟩ := buildTree_shows_paths "/tmp/out" files
  have hfree : ¬ ThroughFile (files.map slashParts) := fun h => by
    rw [hiff.2 h] at hbuild
    cases hbuild
  obtain ⟨t, ht, hshown⟩ := hshows hfree
  obtain rfl : tree = t := Except.ok.inj (hbuild.symm.trans ht)
  exact ⟨hbuild, hfree, hshown, hfails, (buildTree_shows_paths "/tmp/out" _).1.1 hfails⟩

end Decompilation.Project
