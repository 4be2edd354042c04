import Decompilation.Proofs.Source.Chunk
import Decompilation.Proofs.Text.Blank
import Decompilation.Proofs.Text.Lines

/-!
# Types split again

The head of a declaration is read in the same way whatever stands behind it, as long as that does not
look like more of the head (`ReadsLike`). So a declaration is read again where it was cut out of its
text and trimmed and where others of its name follow (`Chunk.Lies.declares_code`), and the code of a
type is split into that type and nothing else (`splitTypes_of_mem_splitTypes`).
-/

namespace Decompilation.Source

open Text

variable {s t rest after : List Char} {name : String}

/-! ## Lists of type parameters -/

/-- Whether a list of parameters is read does not depend on what is behind a brace or a semicolon, but
for the angle bracket that may be found there. -/
theorem Parameters.exists_of_append {front back back' : List Char} {c : Char}
    (h : Parameters (front ++ back) rest) (hc : c ∈ front) (hmark : c = '{' ∨ c = ';')
    (hback : '>' ∈ back → '>' ∈ back') : ∃ rest', Parameters (front ++ back') rest' := by
  obtain ⟨gap, inner, heq, hgap, hinner, hfirst⟩ := h
  have hblank : c ∉ gap := by
    intro hcgap
    have := hgap c hcgap
    rcases hmark with rfl | rfl <;> cases this
  have hopen : c ≠ '<' := by
    rcases hmark with rfl | rfl <;> decide
  -- the mark stands behind the opening bracket, so the front goes on to there
  obtain ⟨tail, rfl, htail⟩ : ∃ tail, front = gap ++ '<' :: tail ∧
      tail ++ back = inner ++ '>' :: rest := by
    rcases List.append_eq_append_iff.1 heq with ⟨more, rfl, -⟩ | ⟨more, rfl, hmore⟩
    · exact absurd (List.mem_append_left _ hc) hblank
    · cases more with
      | nil => exact absurd (by simpa using hc) hblank
      | cons d tail =>
        rw [List.cons_append, List.cons.injEq] at hmore
        exact ⟨tail, by rw [← hmore.1], hmore.2.symm⟩
  have hctail : c ∈ tail := by
    rcases List.mem_append.1 hc with hc | hc
    · exact absurd hc hblank
    · exact (List.mem_cons.1 hc).resolve_left hopen
  by_cases hclose : '>' ∈ tail
  · obtain ⟨inner', rest', rfl, hfirst'⟩ := List.eq_append_cons_of_mem hclose
    refine ⟨rest' ++ back', gap, inner', by simp, hgap, ?_, hfirst'⟩
    rintro rfl
    obtain ⟨d, inner, rfl⟩ := List.exists_cons_of_ne_nil hinner
    simp only [List.nil_append, List.cons_append, List.cons.injEq] at htail
    exact hfirst (htail.1 ▸ List.mem_cons_self ..)
  · have hin : '>' ∈ tail ++ back := by
      rw [htail]
      simp
    obtain ⟨back₁, rest', rfl, hfirst'⟩ :=
      List.eq_append_cons_of_mem (hback ((List.mem_append.1 hin).resolve_left hclose))
    refine ⟨rest', gap, tail ++ back₁, by simp, hgap, ?_, ?_⟩
    · simp [List.ne_nil_of_mem hctail]
    · simp [hclose, hfirst']

/-- A list of parameters is read where blanks are taken off the end of the text. -/
theorem Parameters.append (h : Parameters s rest) (t : List Char) :
    Parameters (s ++ t) (rest ++ t) := by
  obtain ⟨gap, inner, rfl, hgap, hinner, hfirst⟩ := h
  exact ⟨gap, inner, by simp, hgap, hinner, hfirst⟩

/-! ## Heads -/

/-- What may stand behind a head in the place of something else: it does not look like more of the
head, unless that did. -/
structure ReadsLike (rest rest' : List Char) : Prop where
  word : rest'.head?.any isWord = true → rest.head?.any isWord = true
  blank : rest'.head?.any isBlank = true → rest.head?.any isBlank = true
  parameters : ∀ behind, Parameters rest' behind → ∃ behind, Parameters rest behind

/-- A head is read again where the rest is replaced. -/
theorem exists_head_of_typeHead? (h : typeHead? s = some (name, rest)) :
    ∃ gap head, s = gap ++ (head ++ rest) ∧ (∀ c ∈ gap, isBlank c = true) ∧
      head.head?.any isWord = true ∧ (∃ front c, head = front ++ [c] ∧ isBlank c = false) ∧
      ∀ rest', ReadsLike rest rest' → typeHead? (head ++ rest') = some (name, rest') := by
  obtain ⟨head, t, hs, rfl, rfl⟩ := typeHead?_eq_some_iff.1 h
  have hreads : ∀ t', t'.head?.any isWord = false →
      (t'.head?.any isBlank = true → t.head?.any isBlank = true) →
        typeHead? (head.text ++ t') = some (String.ofList head.name, behindParameters t') :=
    fun t' ht' hblank => (hs.behind ht' hblank).typeHead?_eq
  have hfirst := head.head_text
  rcases behindParameters_cases t with ⟨pad, inner, htail, hpad, hinner, hclose⟩ | ⟨hsame, hnone⟩
  · generalize behindParameters t = rest at htail ⊢
    refine ⟨head.pad, head.text ++ (pad ++ '<' :: (inner ++ ['>'])), by simp [hs.eq, htail],
      head.pad_blank, any_head?_append hfirst _, ⟨head.text ++ (pad ++ '<' :: inner), '>', by simp, rfl⟩,
      fun rest' _ => ?_⟩
    have hwhole : head.text ++ (pad ++ '<' :: (inner ++ ['>'])) ++ rest' =
        head.text ++ (pad ++ '<' :: (inner ++ '>' :: rest')) := by simp
    have hhead : (pad ++ '<' :: (inner ++ '>' :: rest')).head? = t.head? := by
      rw [htail]
      cases pad <;> rfl
    have hbehind : behindParameters (pad ++ '<' :: (inner ++ '>' :: rest')) = rest' :=
      behindParameters_of_parameters ⟨pad, inner, rfl, hpad, hinner, hclose⟩
    rw [hwhole, hreads _ (hhead ▸ hs.longest) (by rw [hhead]; exact id), hbehind]
  · rw [hsame]
    refine ⟨head.pad, head.text, hs.eq, head.pad_blank, hfirst, head.exists_last, fun rest' hrest' => ?_⟩
    have hword : rest'.head?.any isWord = false := by
      rw [Bool.eq_false_iff]
      intro hword
      cases (hrest'.word hword).symm.trans hs.longest
    have hbehind : behindParameters rest' = rest' := by
      rcases behindParameters_cases rest' with hread | ⟨hsame', -⟩
      · obtain ⟨behind, hread'⟩ := hrest'.parameters _ hread
        exact absurd hread' (hnone behind)
      · exact hsame'
    rw [hreads rest' hword hrest'.blank, hbehind]

/-! ## Declarations cut out -/

theorem bodyLength_of_extends (h : Extends rest after) :
    bodyLength rest = rest.length - after.length := by
  cases h with
  | @block front inner _ hbrace hsemicolon hbalanced =>
    rw [bodyLength_brace hbrace hsemicolon, hbalanced.closingBrace?, Option.map_some, Option.getD_some]
    simp only [List.length_append, List.length_cons]
    omega
  | unclosed hbrace hsemicolon hwithin =>
    rw [bodyLength_brace hbrace hsemicolon, closingBrace?_eq_none_iff.2 hwithin]
    simp
  | @statement front _ hbrace hsemicolon =>
    rw [bodyLength_semicolon hbrace hsemicolon]
    simp only [List.length_append, List.length_cons]
    omega
  | bare hbrace hsemicolon =>
    rw [bodyLength_bare hbrace hsemicolon]
    simp

/-- A declaration ends with a brace or a semicolon, whatever is behind it, or it goes to the end of the
text, and blanks at the end make no difference. -/
theorem Extends.exists_extent (h : Extends rest after) : ∃ extent, rest = extent ++ after ∧
    ((trimEnd extent = extent ∧ (∃ c ∈ extent, c = '{' ∨ c = ';') ∧
        ∀ tail, Extends (extent ++ tail) tail) ∨
      after = [] ∧ Extends (trimEnd extent) []) := by
  cases h with
  | @block front inner _ hbrace hsemicolon hbalanced =>
    refine ⟨front ++ '{' :: inner ++ ['}'], by simp,
      .inl ⟨trimEnd_append_cons rfl _ [], ⟨'{', by simp⟩, fun tail => ?_⟩⟩
    have hcut : front ++ '{' :: inner ++ ['}'] ++ tail = front ++ '{' :: (inner ++ '}' :: tail) := by simp
    rw [hcut]
    exact .block hbrace hsemicolon hbalanced
  | @statement front _ hbrace hsemicolon =>
    refine ⟨front ++ [';'], by simp,
      .inl ⟨trimEnd_append_cons rfl _ [], ⟨';', by simp⟩, fun tail => ?_⟩⟩
    have hcut : front ++ [';'] ++ tail = front ++ ';' :: tail := by simp
    rw [hcut]
    exact .statement hbrace hsemicolon
  | @unclosed front inner hbrace hsemicolon hwithin =>
    obtain ⟨blanks, hblanks, hinner⟩ := exists_trimEnd inner
    have hbraces : '{' ∉ blanks ∧ '}' ∉ blanks :=
      ⟨not_mem_of_blank hblanks (by decide), not_mem_of_blank hblanks (by decide)⟩
    rw [hinner, within_append_right_of_not_mem hbraces] at hwithin
    refine ⟨front ++ '{' :: inner, by simp, .inr ⟨rfl, ?_⟩⟩
    rw [trimEnd_append_cons rfl]
    exact .unclosed hbrace hsemicolon hwithin
  | bare hbrace hsemicolon =>
    refine ⟨rest, by simp, .inr ⟨rfl, .bare (fun hmem => hbrace ?_) fun hmem => hsemicolon ?_⟩⟩
    · exact trimEnd_subset rest hmem
    · exact trimEnd_subset rest hmem

/-- A trimmed text is a declaration that ends with it, wherever `tail` is behind it. -/
def Declares (name : String) (code tail : List Char) : Prop :=
  trim code = code ∧ ∃ head extent, code = head ++ extent ∧ head ≠ [] ∧
    typeHead? (code ++ tail) = some (name, extent ++ tail) ∧ Extends (extent ++ tail) tail

theorem ReadsLike.of_mark {extent tail : List Char} {c : Char} (hc : c ∈ extent)
    (hmark : c = '{' ∨ c = ';') (hclose : '>' ∈ tail → '>' ∈ after) :
    ReadsLike (extent ++ after) (extent ++ tail) := by
  have hhead : (extent ++ tail).head? = (extent ++ after).head? := by
    cases extent with
    | nil => cases hc
    | cons d extent => rfl
  exact ⟨by rw [hhead]; exact id, by rw [hhead]; exact id,
    fun behind hread => hread.exists_of_append hc hmark hclose⟩

theorem ReadsLike.trimEnd (s : List Char) : ReadsLike s (trimEnd s) := by
  obtain ⟨blanks, -, hs⟩ := exists_trimEnd s
  generalize Text.trimEnd s = front at hs
  subst hs
  exact ⟨fun hword => any_head?_append hword _, fun hblank => any_head?_append hblank _,
    fun behind hread => ⟨_, hread.append blanks⟩⟩

/-- What was cut out as a declaration is one by itself, and where something else of its text stands
behind it. -/
theorem Chunk.Lies.declares_code {body tail : List Char} {c : Chunk} (h : c.Lies body)
    (htail : tail = [] ∨ body.drop c.stop ≠ []) (hclose : '>' ∈ tail → '>' ∈ body.drop c.stop) :
    Declares c.name (trim (c.text body)) tail := by
  obtain ⟨head', rest, hhead', -, -, hextends⟩ := h.declares
  obtain ⟨gap, head, hcut, hgap, hfirst, ⟨front, d, hhead, hd⟩, hreads⟩ := exists_head_of_typeHead? hhead'
  obtain ⟨extent, hrest, hextent⟩ := hextends.exists_extent
  have htext : c.text body = gap ++ (head ++ extent) := by
    have hwhole : body.drop c.start = (gap ++ (head ++ extent)) ++ body.drop c.stop := by
      rw [hcut, hrest]
      simp
    have hlen : (gap ++ (head ++ extent)).length = c.stop - c.start := by
      have hsize := congrArg List.length hwhole
      have hstop := h.stop_le
      rw [List.length_append, List.length_drop, List.length_drop] at hsize
      omega
    rw [Chunk.text, hwhole, List.take_left' hlen]
  have htrim : trim (c.text body) = head ++ Text.trimEnd extent := by
    have hstart : trimStart (head ++ extent) = head ++ extent :=
      trimStart_of_not_blank (not_isBlank_of_isWord (any_head?_append hfirst _))
    rw [htext, trim_append_left hgap, trim, hstart, hhead, List.append_assoc, List.singleton_append,
      trimEnd_append_cons hd]
    simp
  refine ⟨trim_trim _, head, Text.trimEnd extent, htrim, by simp [hhead], ?_, ?_⟩
  · rw [htrim, List.append_assoc]
    refine hreads _ ?_
    rw [hrest]
    rcases hextent with ⟨hsame, ⟨e, he, hmark⟩, -⟩ | ⟨hnil, -⟩
    · rw [hsame]
      exact .of_mark he hmark hclose
    · rw [hnil, htail.resolve_right (by simp [hnil]), List.append_nil, List.append_nil]
      exact .trimEnd extent
  · rcases hextent with ⟨hsame, -, hends⟩ | ⟨hnil, hends⟩
    · rw [hsame]
      exact hends tail
    · rwa [htail.resolve_right (by simp [hnil]), List.append_nil]

/-! ## Splitting again -/

theorem typeHead?_append_left {gap : List Char} (hgap : ∀ c ∈ gap, isBlank c = true) (s : List Char) :
    typeHead? (gap ++ s) = typeHead? s := by
  rw [typeHead?, typeHead?, trimStart, trimStart, List.dropWhile_append_of_pos hgap]

/-- A declaration at the start of a text is taken whole, without the blanks in front of it. -/
theorem Declares.typeChunks_eq {code tail gap : List Char} (h : Declares name code tail)
    (hgap : ∀ c ∈ gap, isBlank c = true) :
    typeChunks true (gap ++ (code ++ tail)) = (name, code) :: typeChunks false tail := by
  obtain ⟨htrim, head, extent, rfl, hne, hhead, hextends⟩ := h
  have hlen : bodyLength (extent ++ tail) = extent.length := by
    rw [bodyLength_of_extends hextends, List.length_append, Nat.add_sub_cancel]
  have hcut : gap ++ ((head ++ extent) ++ tail) = (gap ++ head) ++ (extent ++ tail) := by simp
  rw [List.append_assoc, ← typeHead?_append_left hgap, ← List.append_assoc] at hhead
  rw [hcut, typeChunks_of_head hhead (by simp [hne]), hlen, List.take_left, List.drop_left,
    List.append_assoc, trim_append_left hgap, htrim]

/-- What is in the texts of chunks that lie behind an offset is behind that offset. -/
theorem mem_drop_of_mem_joinWith {body sep : List Char} {cs : List Chunk} {stop : Nat} {c : Char}
    (hbehind : ∀ e ∈ cs, stop ≤ e.start) (hsep : c ∉ sep)
    (h : c ∈ joinWith sep (cs.map fun e => trim (e.text body))) : c ∈ body.drop stop := by
  rcases mem_joinWith h with hmem | ⟨code, hcode, hin⟩
  · exact absurd hmem hsep
  · obtain ⟨e, he, rfl⟩ := List.mem_map.1 hcode
    have hdrop := List.mem_of_mem_take (trim_subset _ hin)
    rw [← Nat.add_sub_cancel' (hbehind e he), ← List.drop_drop] at hdrop
    exact List.mem_of_mem_drop hdrop

/-- Behind a newline a line starts. -/
theorem typeChunks_newline (s : List Char) : typeChunks false ('\n' :: s) = typeChunks true s := by
  rw [typeChunks]
  rfl

/-- Something is behind an offset where a chunk lies behind it. -/
theorem Chunk.Lies.drop_ne_nil {body : List Char} {c : Chunk} {stop : Nat} (h : c.Lies body)
    (hle : stop ≤ c.start) : body.drop stop ≠ [] := by
  have hlt := h.start_lt_stop
  have hend := h.stop_le
  rw [Ne, List.drop_eq_nil_iff]
  omega

/-- Declarations of one text that are put together with an empty line between them are taken apart
again. -/
theorem typeChunks_joinWith {body gap : List Char} {cs : List Chunk}
    (hgap : ∀ c ∈ gap, isBlank c = true) (hlies : ∀ c ∈ cs, c.Lies body ∧ c.name = name)
    (hordered : cs.Pairwise fun a b => a.stop ≤ b.start) (hne : cs ≠ []) :
    typeChunks true (gap ++ joinWith ['\n', '\n'] (cs.map fun c => trim (c.text body))) =
      cs.map fun c => (name, trim (c.text body)) := by
  induction cs generalizing gap with
  | nil => exact absurd rfl hne
  | cons c cs ih =>
    obtain ⟨hc, rfl⟩ := hlies c (List.mem_cons_self ..)
    obtain ⟨hbehind, hordered'⟩ := List.pairwise_cons.1 hordered
    cases cs with
    | nil =>
      have hlast : Declares c.name (trim (c.text body)) [] := hc.declares_code (.inl rfl) (by simp)
      have h := hlast.typeChunks_eq hgap
      rwa [typeChunks, List.append_nil] at h
    | cons d cs =>
      have hlies' : ∀ e ∈ d :: cs, e.Lies body ∧ e.name = c.name := fun e he =>
        hlies e (List.mem_cons_of_mem _ he)
      have hrest : typeChunks true (['\n'] ++
          joinWith ['\n', '\n'] ((d :: cs).map fun c => trim (c.text body))) = _ :=
        ih isBlank_newline hlies' hordered' (by simp)
      generalize hjoined : joinWith ['\n', '\n'] ((d :: cs).map fun c => trim (c.text body)) = joined
        at hrest
      have hmore : body.drop c.stop ≠ [] :=
        (hlies' d (List.mem_cons_self ..)).1.drop_ne_nil (hbehind d (List.mem_cons_self ..))
      have hclose : '>' ∈ '\n' :: '\n' :: joined → '>' ∈ body.drop c.stop := by
        intro hmem
        have hmem' : '>' ∈ joined := by simpa using hmem
        exact mem_drop_of_mem_joinWith hbehind (by simp) (hjoined ▸ hmem')
      have hwhole : joinWith ['\n', '\n'] ((c :: d :: cs).map fun c => trim (c.text body)) =
          trim (c.text body) ++ '\n' :: '\n' :: joined := by
        rw [← hjoined]
        simp [joinWith]
      have h := (hc.declares_code (.inr hmore) hclose).typeChunks_eq hgap
      rw [hwhole, h, typeChunks_newline]
      exact congrArg _ hrest

theorem eraseDups_of_forall_eq {l : List String} (hne : l ≠ []) (h : ∀ n ∈ l, n = name) :
    l.eraseDups = [name] := by
  obtain ⟨n, l, rfl⟩ := List.exists_cons_of_ne_nil hne
  obtain rfl := h n (List.mem_cons_self ..)
  have hrest : (l.filter fun m => !m == n) = [] := by
    rw [List.filter_eq_nil_iff]
    intro m hm
    simp [h m (List.mem_cons_of_mem _ hm)]
  rw [List.eraseDups_cons, hrest, List.eraseDups_nil]

/-- **The code of a type is split into that type and nothing else**, also where it is put together from
several declarations, where its brace is never closed and where it has neither brace nor semicolon. -/
theorem splitTypes_of_mem_splitTypes {body code : List Char}
    (h : (name, code) ∈ (splitTypes body).toList) : (splitTypes code).toList = [(name, code)] := by
  obtain ⟨chunks, hchunks, hlies, hordered, -⟩ :=
    exists_chunks (List.nil_append body).symm
      (show body ≠ [] → (true = true ↔ StartsLine body 0) from fun _ => by simp [StartsLine])
  have hcodes : ((typeChunks true body).filter fun e => e.1 = name).map Prod.snd =
      (chunks.filter fun c => c.name = name).map fun c => trim (c.text body) := by
    rw [hchunks, List.filter_map, List.map_map]
    rfl
  have hget := Table.get?_eq_some_iff.2 h
  rw [splitTypes, get?_foldl_addType, hcodes] at hget
  generalize hcs : chunks.filter (fun c => c.name = name) = cs at hget
  have hne : cs ≠ [] := by
    rintro rfl
    simp at hget
  have hcode : joinWith ['\n', '\n'] (cs.map fun c => trim (c.text body)) = code := by
    simpa [hne] using hget
  have hagain : typeChunks true code = cs.map fun c => (name, trim (c.text body)) := by
    rw [← hcode]
    refine typeChunks_joinWith (List.forall_mem_nil _) (fun c hc => ?_) ?_ hne
    · rw [← hcs, List.mem_filter] at hc
      exact ⟨(hlies c hc.1).1, of_decide_eq_true hc.2⟩
    · rw [← hcs]
      exact hordered.filter _
  have hkeys : (splitTypes code).keys = [name] := by
    rw [keys_splitTypes, hagain, List.map_map]
    refine eraseDups_of_forall_eq (by simpa using hne) fun n hn => ?_
    obtain ⟨c, -, rfl⟩ := List.mem_map.1 hn
    rfl
  have hget' : (splitTypes code).get? name = some code := by
    have hall : (typeChunks true code).filter (fun e => e.1 = name) = typeChunks true code := by
      rw [List.filter_eq_self, hagain]
      intro e he
      obtain ⟨c, -, rfl⟩ := List.mem_map.1 he
      simp
    have hsnd : (cs.map fun c => (name, trim (c.text body))).map Prod.snd =
        cs.map fun c => trim (c.text body) := by
      rw [List.map_map]
      rfl
    rw [splitTypes, get?_foldl_addType, hall, hagain, hsnd]
    simpa [hne] using hcode
  obtain ⟨e, he, hname⟩ := List.map_eq_singleton_iff.1 hkeys
  have hmem := Table.get?_eq_some_iff.1 hget'
  rw [Table.toList, he] at hmem ⊢
  rw [List.mem_singleton.1 hmem]

/-- Two parts of one type, the second of which is never closed, with a record between them. -/
theorem splitTypes_of_unclosed_part :
    ("A", "partial class A<T> \x7b int n; \x7d\n\npartial class A \x7b enum E \x7b a".toList) ∈
        (splitTypes ("using X;\n partial class A<T> \x7b int n; \x7d\nrecord B(int x);\n" ++
          "partial class A \x7b enum E \x7b a\n").toList).toList ∧
      (splitTypes "partial class A<T> \x7b int n; \x7d\n\npartial class A \x7b enum E \x7b a".toList).toList =
        [("A", "partial class A<T> \x7b int n; \x7d\n\npartial class A \x7b enum E \x7b a".toList)] :=
  have hmem : ("A", "partial class A<T> \x7b int n; \x7d\n\npartial class A \x7b enum E \x7b a".toList) ∈
      (splitTypes ("using X;\n partial class A<T> \x7b int n; \x7d\nrecord B(int x);\n" ++
        "partial class A \x7b enum E \x7b a\n").toList).toList := by decide +kernel
  ⟨hmem, splitTypes_of_mem_splitTypes hmem⟩

end Decompilation.Source
