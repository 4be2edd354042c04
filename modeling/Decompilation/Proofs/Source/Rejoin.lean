import Decompilation.Proofs.Source.Division

/-!
# Partitions that are joined again

The units of a partition, each behind a declaration of its namespace, make a text again. Where every
namespace has one region, every block is closed and nothing follows the last region, that text is cut
into the plots that the units come from (`survey_rejoinedPlots`), so it has the same partition
(`partition_rejoin`).
-/

namespace Decompilation.Source

open Text

variable {offset : Nat} {before : Option Char} {a e s text : List Char} {plots : List Plot}

/-! ## Rejoined texts -/

namespace Partition

/-- A unit behind a declaration of its namespace. The unit of all text outside namespaces has no
declaration. -/
def declare (p : Partition) (name : String) (body : List Char) : List Char :=
  if name = globalName then body
  else match (p.forms.get? name).getD .fileScoped with
    | .fileScoped => "namespace ".toList ++ name.toList ++ ";\n".toList ++ body
    | .block => "namespace ".toList ++ name.toList ++ " \x7b\n".toList ++ body ++ ['}']

/-- The units of a partition as one text again. -/
def rejoin (p : Partition) : List Char := p.units.toList.flatMap fun u => p.declare u.1 u.2

end Partition

theorem space_ne_nil : [' '] ≠ [] := List.cons_ne_nil _ _

theorem space_blank : ∀ c ∈ [' '], isBlank c = true := List.all_eq_true.1 rfl

/-- A head as it stands in a rejoined text. -/
def Head.rejoined (h : Head) : Head where
  gap := [' ']
  name := h.name
  pad := if h.form = .block then [' '] else []
  form := h.form
  gap_ne_nil := space_ne_nil
  gap_blank := space_blank
  name_start := h.name_start
  name_qualified := h.name_qualified
  name_longest := by cases h.form <;> rfl
  pad_blank := by cases h.form <;> exact List.all_eq_true.1 rfl

/-- A plot as it stands in a rejoined text, at an offset and behind what leads up to it. -/
def Plot.rejoined (start : Nat) (lead : List Char) (p : Plot) : Plot where
  start := start
  lead := lead
  head := p.head.rejoined
  extent := ['\n'] ++ (trim p.extent ++ ['\n'])
  closing := p.head.form.closing

/-- Plots that follow each other in a rejoined text. -/
def rejoinedPlots (offset : Nat) (lead : List Char) : List Plot → List Plot
  | [] => []
  | p :: plots =>
    let q := p.rejoined (offset + lead.length) lead
    q :: rejoinedPlots q.finish [] plots

/-! ## The survey of a rejoined text -/

theorem quiet_of_tokensFrom_eq_nil (h : tokensFrom offset before a = []) : Quiet before a [] := by
  intro p h' hd
  rw [List.append_nil] at hd
  have hm : h'.token (offset + p) ∈ tokensFrom offset before a := mem_tokensFrom.2 ⟨p, h', hd, rfl⟩
  rw [h] at hm
  exact absurd hm List.not_mem_nil

/-- A declaration behind a text in which none starts makes none start there. -/
theorem Quiet.text_append (hq : Quiet before a []) (h : Head) (s : List Char) :
    Quiet before a (h.text ++ s) := by
  rintro p h' ⟨front, rest, hstands, rfl⟩
  by_contra hlt
  have heq := hstands.eq
  rw [List.append_assoc] at heq
  rcases List.append_eq_append_iff.1 heq with ⟨x, rfl, -⟩ | ⟨x, rfl, hx⟩
  · simp at hlt
  · have hne : x ≠ [] := by
      rintro rfl
      simp at hlt
    -- the head in front would have to end before the one that follows starts
    rw [Head.text, List.append_assoc, ← List.append_assoc namespaceWord] at hx
    obtain ⟨x', rfl, -⟩ := h'.append_eq_text h hne hx.symm
    refine hlt (hq front.length h' ?_)
    simpa using declaresAt_text front h' x' hstands.left

namespace Plot

variable {p : Plot}

/-- A plot that fits somewhere fits in a rejoined text, where a declaration follows or nothing. -/
theorem Fits.rejoined (hfits : p.Fits s) (hclosed : p.head.form = .block → p.closing = ['}'])
    (start : Nat) (lead : List Char) {s' : List Char}
    (hs' : s' = [] ∨ ∃ (h : Head) (rest : List Char), s' = h.text ++ rest) :
    (p.rejoined start lead).Fits s' := by
  cases hfits with
  | file form closing quiet next =>
    have hq : Quiet (some ';') (['\n'] ++ (trim p.extent ++ ['\n'])) [] :=
      quiet.trim rfl isBlank_newline isBlank_newline
    have hlast : lastOr (some ';') (['\n'] ++ (trim p.extent ++ ['\n'])) = some '\n' := by
      rw [← List.append_assoc, lastOr_concat]
    refine .file form (by simp [Plot.rejoined, form, Form.closing]) ?_ ?_
    · rcases hs' with rfl | ⟨h, rest, rfl⟩
      · exact hq
      · exact hq.text_append h rest
    · rcases hs' with rfl | ⟨h, rest, rfl⟩
      · exact .inl rfl
      · refine .inr ⟨h, declaresAt_text [] h rest ?_⟩
        rw [lastOr_nil]
        show (lastOr (some ';') (['\n'] ++ (trim p.extent ++ ['\n']))).any isWord = false
        rw [hlast]
        rfl
  | closed form closing balanced =>
    exact .closed form (by simp [Plot.rejoined, form, Form.closing])
      (balanced.trim isBlank_newline isBlank_newline)
  | unclosed form closing within last =>
    rw [hclosed form] at closing
    simp at closing

theorem lastOr_rejoined (before : Option Char) (start : Nat) (lead : List Char) (p : Plot) :
    (lastOr before (p.rejoined start lead).text).any isWord = false := by
  have hlast : (lastOr before (p.rejoined start lead).text) =
      lastOr (some '\n') p.head.form.closing := by
    rw [Plot.text, Plot.rejoined, ← List.append_assoc ['\n'], ← List.append_assoc, lastOr_append,
      lastOr_append, lastOr_concat]
  rw [hlast]
  cases p.head.form <;> rfl

end Plot

/-- What a plot is in a rejoined text, without what leads up to it. -/
def Plot.rejoinedText (p : Plot) : List Char :=
  p.head.rejoined.text ++ (['\n'] ++ (trim p.extent ++ ['\n']) ++ p.head.form.closing)

theorem flatMap_text_rejoinedPlots (p : Plot) (plots : List Plot) (offset : Nat)
    (lead : List Char) : (rejoinedPlots offset lead (p :: plots)).flatMap Plot.text =
      lead ++ (p :: plots).flatMap Plot.rejoinedText := by
  induction plots generalizing p offset lead with
  | nil => simp [rejoinedPlots, Plot.text, Plot.rejoined, Plot.rejoinedText]
  | cons q plots ih =>
    rw [rejoinedPlots, List.flatMap_cons, ih, List.flatMap_cons, List.nil_append]
    simp [Plot.text, Plot.rejoined, Plot.rejoinedText]

/-- Plots that follow each other in a rejoined text are its survey. -/
theorem survey_rejoinedPlots (hfits : ∀ p ∈ plots, ∃ s, p.Fits s)
    (hclosed : ∀ p ∈ plots, p.head.form = .block → p.closing = ['}'])
    (offset : Nat) {lead : List Char} (hstands : (lastOr before lead).any isWord = false)
    (hquiet : Quiet before lead []) :
    Survey offset before ((rejoinedPlots offset lead plots).flatMap Plot.text)
      (rejoinedPlots offset lead plots) [] := by
  induction plots generalizing offset before lead with
  | nil => exact .done quiet_nil
  | cons p plots ih =>
    obtain ⟨s, hp⟩ := hfits p (List.mem_cons_self ..)
    refine .plot _ rfl hstands (hquiet.text_append _ _) ?_ ?_
    · apply hp.rejoined (hclosed p (List.mem_cons_self ..))
      cases plots with
      | nil => exact .inl rfl
      | cons q plots =>
        have htext := flatMap_text_rejoinedPlots q plots
          (p.rejoined (offset + lead.length) lead).finish []
        rw [List.nil_append, List.flatMap_cons, Plot.rejoinedText, List.append_assoc] at htext
        exact .inr ⟨_, _, htext⟩
    · exact ih (fun q hq => hfits q (List.mem_cons_of_mem _ hq))
        (fun q hq => hclosed q (List.mem_cons_of_mem _ hq)) _ (p.lastOr_rejoined before _ _) quiet_nil

/-! ## What the rejoined text is partitioned into -/

theorem toList_foldl_addShare {l : List (String × List Char)} {u : Table String (List Char)}
    (h : (u.keys ++ l.map Prod.fst).Nodup) : (l.foldl addShare u).toList =
      u.toList ++ l.map fun e => (e.1, trim e.2 ++ ['\n']) := by
  induction l generalizing u with
  | nil => simp
  | cons e l ih =>
    have hnew : e.1 ∉ u.keys := by
      rw [List.map_cons, List.nodup_append] at h
      exact fun hm => h.2.2 _ hm _ (List.mem_cons_self ..) rfl
    have hadd : (addShare u e).toList = u.toList ++ [(e.1, trim e.2 ++ ['\n'])] := by
      rw [addShare, Table.get?_eq_none_iff.2 hnew, Option.getD_none, List.nil_append]
      exact Table.put_of_not_mem hnew _
    have hkeys : (addShare u e).keys = u.keys ++ [e.1] := by
      rw [addShare, Table.keys_insert, if_neg hnew]
    rw [List.foldl_cons, ih (by simpa [hkeys] using h), hadd]
    simp

theorem map_rejoinedPlots (plots : List Plot) (offset : Nat) (lead : List Char) :
    (rejoinedPlots offset lead plots).map (fun q => (q.name, trim q.extent ++ ['\n'])) =
      plots.map fun p => (p.name, trim p.extent ++ ['\n']) := by
  induction plots generalizing offset lead with
  | nil => rfl
  | cons p plots ih =>
    have hextent : trim (p.rejoined (offset + lead.length) lead).extent = trim p.extent := by
      rw [Plot.rejoined, trim_append_append isBlank_newline isBlank_newline, trim_trim]
    rw [rejoinedPlots, List.map_cons, List.map_cons, ih, hextent]
    rfl

theorem foldl_insertNew_rejoinedPlots (plots : List Plot) (offset : Nat) (lead : List Char)
    (f : Table String Form) :
    (rejoinedPlots offset lead plots).foldl (fun f q => f.insertNew q.name q.head.form) f =
      plots.foldl (fun f q => f.insertNew q.name q.head.form) f := by
  induction plots generalizing offset lead f with
  | nil => rfl
  | cons p plots ih =>
    rw [rejoinedPlots, List.foldl_cons, List.foldl_cons, ih]
    rfl

/-- The text outside namespaces as it stands in front of a rejoined text. -/
def rejoinedLead (lead : List Char) : List Char :=
  if lead = [] then [] else trim lead ++ ['\n']

theorem map_outside_rejoinedLead (lead : List Char) :
    (outside (rejoinedLead lead)).map (fun e => (e.1, trim e.2 ++ ['\n'])) =
      (outside lead).map fun e => (e.1, trim e.2 ++ ['\n']) := by
  unfold rejoinedLead
  split
  · rename_i hlead
    rw [hlead]
  · rename_i hlead
    simp [outside, hlead, trim_append_right isBlank_newline]

theorem flatMap_declare_outside (p : Partition) (lead : List Char) :
    ((outside lead).map fun e => (e.1, trim e.2 ++ ['\n'])).flatMap (fun u => p.declare u.1 u.2) =
      rejoinedLead lead := by
  unfold outside rejoinedLead
  split
  · rename_i hlead
    rw [if_pos (List.isEmpty_iff.1 hlead)]
    rfl
  · rename_i hlead
    rw [if_neg (by simpa using hlead)]
    simp [Partition.declare]

theorem declare_plot {p : Partition} {q : Plot} (hform : p.forms.get? q.name = some q.head.form) :
    p.declare q.name (trim q.extent ++ ['\n']) = q.rejoinedText := by
  have hword : "namespace ".toList = namespaceWord ++ [' '] := by decide
  have hblock : " \x7b\n".toList = [' ', '{', '\n'] := by decide
  have hfile : ";\n".toList = [';', '\n'] := by decide
  rw [Partition.declare, if_neg q.name_ne_globalName, hform, hword, hblock, hfile, Plot.name,
    String.toList_ofList, Plot.rejoinedText, Head.text, Head.tail]
  cases hq : q.head.form <;> simp [Head.rejoined, hq, Form.closing, Form.delimiter]

/-- The units of a text of which each namespace has one region. -/
theorem Survey.toList_units (hs : Survey 0 none text plots []) (hne : plots ≠ [])
    (hnodup : (plots.map Plot.name).Nodup) : (partition text).units.toList =
      ((outside ((plots.head?.map Plot.lead).getD [])).map fun e => (e.1, trim e.2 ++ ['\n'])) ++
        plots.map fun p => (p.name, trim p.extent ++ ['\n']) := by
  have hglobal : globalName ∉ plots.map Plot.name := by
    intro hm
    obtain ⟨p, -, hp⟩ := List.mem_map.1 hm
    exact p.name_ne_globalName hp
  have hshares : shares plots [] = outside ((plots.head?.map Plot.lead).getD []) ++
      plots.map fun p => (p.name, p.extent) := List.append_nil _
  have hnames : ((shares plots []).map Prod.fst).Nodup := by
    have hmap : (plots.map fun p => (p.name, p.extent)).map Prod.fst = plots.map Plot.name := by
      simp [Function.comp_def]
    rw [hshares, List.map_append, hmap, outside]
    split
    · exact hnodup
    · exact List.nodup_cons.2 ⟨hglobal, hnodup⟩
  rw [partition, (partitionBy_tokenize hs hne).1, toList_foldl_addShare (by simpa using hnames),
    hshares, List.map_append]
  simp [Table.toList, Table.empty, Function.comp_def]

theorem Survey.rejoin_eq {p : Plot} (hs : Survey 0 none text (p :: plots) [])
    (hnodup : ((p :: plots).map Plot.name).Nodup) : (partition text).rejoin =
      (rejoinedPlots 0 (rejoinedLead p.lead) (p :: plots)).flatMap Plot.text := by
  have hform : ∀ q ∈ p :: plots, (partition text).forms.get? q.name = some q.head.form := by
    intro q hq
    have hfind : (p :: plots).find? (fun r => r.name = q.name) = some q := by
      have honly := List.inj_on_of_nodup_map hnodup
      have hsome : ((p :: plots).find? fun r => r.name = q.name).isSome :=
        List.find?_isSome.2 ⟨q, hq, by simp⟩
      obtain ⟨r, hr⟩ := Option.isSome_iff_exists.1 hsome
      have hname : r.name = q.name := by simpa using List.find?_some hr
      rw [hr, honly (List.mem_of_find?_eq_some hr) hq hname]
    rw [(hs.madeOf (by simp)).forms, hfind]
    rfl
  have hplots : ((p :: plots).map fun q => (q.name, trim q.extent ++ ['\n'])).flatMap
      (fun u => (partition text).declare u.1 u.2) = (p :: plots).flatMap Plot.rejoinedText := by
    rw [List.flatMap_map]
    exact List.flatMap_congr fun q hq => declare_plot (hform q hq)
  rw [Partition.rejoin, hs.toList_units (by simp) hnodup, List.flatMap_append,
    flatMap_declare_outside, hplots, flatMap_text_rejoinedPlots]
  rfl

/-- What leads up to a rejoined text declares nothing, and no word touches what follows it. -/
theorem Survey.quiet_rejoinedLead {p : Plot} {back : List Char}
    (hs : Survey 0 none text (p :: plots) back) : Quiet none (rejoinedLead p.lead) [] ∧
      (lastOr none (rejoinedLead p.lead)).any isWord = false := by
  unfold rejoinedLead
  split
  · exact ⟨quiet_nil, rfl⟩
  · rw [lastOr_concat]
    cases hs with
    | plot _ _ _ quiet => exact ⟨quiet.trim (a := []) rfl (by simp) isBlank_newline, rfl⟩

/-- **The units of a partition, joined again, have the same partition.** Every text can be surveyed.
Where it has a plot, no two plots are of one namespace, a brace closes every block and nothing
follows the last plot, the units, each behind a declaration in its form, make a text that is
partitioned into the same units, in the same order and with the same forms. -/
theorem partition_rejoin (text : List Char) :
    (∃ plots back, Survey 0 none text plots back) ∧
    ∀ plots : List Plot, Survey 0 none text plots [] → plots ≠ [] →
      (plots.map Plot.name).Nodup → (∀ p ∈ plots, p.head.form = .block → p.closing = ['}']) →
      partition (partition text).rejoin = partition text := by
  refine ⟨exists_survey 0 none text, fun plots hs hne hnodup hclosed => ?_⟩
  obtain ⟨p, plots, rfl⟩ := List.exists_cons_of_ne_nil hne
  obtain ⟨hquiet, hstands⟩ := hs.quiet_rejoinedLead
  have hagain := survey_rejoinedPlots hs.fits hclosed 0 hstands hquiet
  have hmap := map_rejoinedPlots (p :: plots) 0 (rejoinedLead p.lead)
  have hnames : ((rejoinedPlots 0 (rejoinedLead p.lead) (p :: plots)).map Plot.name).Nodup := by
    have := congrArg (List.map Prod.fst) hmap
    simp only [List.map_map, Function.comp_def] at this
    rwa [this]
  have hunits : (partition (partition text).rejoin).units.toList = (partition text).units.toList := by
    rw [hs.rejoin_eq hnodup, hagain.toList_units (by simp [rejoinedPlots]) hnames, hmap,
      hs.toList_units hne hnodup]
    exact congrArg (· ++ _) (map_outside_rejoinedLead p.lead)
  have hforms : (partition (partition text).rejoin).forms = (partition text).forms := by
    rw [hs.rejoin_eq hnodup, partition, (partitionBy_tokenize hagain (by simp [rejoinedPlots])).2,
      foldl_insertNew_rejoinedPlots, partition, (partitionBy_tokenize hs hne).2]
  exact congrArg₂ Partition.mk (Table.toList_inj.1 hunits) hforms

/-- A block with a declaration in it, text that belongs to no namespace, and a namespace that ends in
half a declaration. -/
theorem partition_rejoin_half_declared :
    let text := "using X;\nnamespace A { namespace C; } x namespace C;\nclass D namespace E".toList
    ∃ plots : List Plot, Survey 0 none text plots [] ∧ plots ≠ [] ∧
      (plots.map Plot.name).Nodup ∧ (∀ p ∈ plots, p.head.form = .block → p.closing = ['}']) ∧
      (partition text).rejoin = ("using X;\nnamespace A \x7b\nnamespace C;\n\x7d".toList ++
        "namespace C;\nclass D namespace E\n".toList) ∧
      partition (partition text).rejoin = partition text := by
  intro text
  let outer : Plot := ⟨9, "using X;\n".toList,
    ⟨[' '], ['A'], [' '], .block, by simp, List.all_eq_true.1 rfl, rfl, List.all_eq_true.1 rfl, rfl,
      List.all_eq_true.1 rfl⟩,
    " namespace C; ".toList, ['}']⟩
  let last : Plot := ⟨outer.finish + 3, " x ".toList,
    ⟨[' '], ['C'], [], .fileScoped, by simp, List.all_eq_true.1 rfl, rfl, List.all_eq_true.1 rfl, rfl,
      List.all_eq_true.1 rfl⟩,
    "\nclass D namespace E".toList, []⟩
  have hlead : Quiet none outer.lead [] :=
    quiet_of_tokensFrom_eq_nil (show tokensFrom 0 _ _ = [] by decide +kernel)
  have hgap : Quiet (some '}') last.lead [] :=
    quiet_of_tokensFrom_eq_nil (show tokensFrom 0 _ _ = [] by decide +kernel)
  have hextent : Quiet (some ';') last.extent [] :=
    quiet_of_tokensFrom_eq_nil (show tokensFrom 0 _ _ = [] by decide +kernel)
  have hbalanced : Balanced outer.extent := ⟨closingBrace?_eq_none_iff.1 (by decide), by decide⟩
  have hs : Survey 0 none text [outer, last] [] :=
    .plot (s := last.text ++ []) outer rfl rfl (hlead.text_append _ _) (.closed rfl rfl hbalanced)
      (.plot last rfl rfl (hgap.text_append _ _) (.file rfl rfl hextent (.inl rfl)) (.done quiet_nil))
  have hnodup : ([outer, last].map Plot.name).Nodup := by decide
  have hclosed : ∀ p ∈ [outer, last], p.head.form = .block → p.closing = ['}'] := by
    intro p hp hform
    rcases List.mem_cons.1 hp with rfl | hp
    · rfl
    · obtain rfl := List.mem_singleton.1 hp
      cases hform
  exact ⟨[outer, last], hs, by simp, hnodup, hclosed, by decide +kernel,
    (partition_rejoin text).2 [outer, last] hs (by simp) hnodup hclosed⟩

end Decompilation.Source
