import Decompilation.Proofs.Source.Block
import Decompilation.Text.Lines

/-!
# Files put together

The files of an assembly are put together before they are divided, a newline between them. A block
of a file that is balanced stays within it. A file-scoped declaration that is the last one of its
file takes all that follows up to the next declaration, from as many files as it takes
(`Survey.keepsTo_iff`).
-/

namespace Decompilation.Source

open Text

variable {a r back f g : List Char} {h : Head} {t : Token} {plots : List Plot}
  {files before between after : List (List Char)}

/-! ## Where a file stands -/

/-- What stands before a file that follows others. -/
def ahead (files : List (List Char)) : List Char := files.flatMap (· ++ ['\n'])

/-- What stands behind a file that others follow. -/
def behind (files : List (List Char)) : List Char := files.flatMap (['\n'] ++ ·)

theorem joinWith_append_cons (before : List (List Char)) (f : List Char) (after : List (List Char)) :
    joinWith ['\n'] (before ++ f :: after) = ahead before ++ (f ++ behind after) := by
  induction before with
  | nil =>
    induction after generalizing f with
    | nil => simp [joinWith, ahead, behind]
    | cons g after ih =>
      have hrest : joinWith ['\n'] (g :: after) = g ++ behind after := ih g
      rw [List.nil_append, joinWith, hrest]
      · simp [ahead, behind]
      · simp
  | cons g before ih =>
    rw [List.cons_append, joinWith, ih]
    · simp [ahead]
    · simp

theorem lastOr_ahead (before : List (List Char)) : (lastOr none (ahead before)).any isWord = false := by
  induction before using List.reverseRecOn with
  | nil => rfl
  | append_singleton before f =>
    have hlast : ahead (before ++ [f]) = (ahead before ++ f) ++ ['\n'] := by simp [ahead]
    rw [hlast, lastOr_concat]
    rfl

theorem length_ahead_append_cons (before : List (List Char)) (f : List Char)
    (between : List (List Char)) : (ahead (before ++ f :: between)).length =
      (ahead before).length + f.length + 1 + (ahead between).length := by
  simp only [ahead, List.flatMap_append, List.flatMap_cons, List.length_append, List.length_singleton]
  omega

/-- Of two files of a list, one stands before the other, or they are the same. -/
theorem append_cons_cases {before' after' : List (List Char)}
    (heq : before ++ f :: after = before' ++ g :: after') :
    (before = before' ∧ f = g ∧ after = after') ∨
      (∃ between, before' = before ++ f :: between ∧ after = between ++ g :: after') ∨
      ∃ between, before = before' ++ g :: between ∧ after' = between ++ f :: after := by
  rcases List.append_eq_append_iff.1 heq with ⟨between, rfl, hbetween⟩ | ⟨between, rfl, hbetween⟩
  · cases between with
    | nil => exact .inl ⟨by simp, by simpa using hbetween⟩
    | cons x between =>
      obtain ⟨rfl, rfl⟩ := List.cons.inj hbetween
      exact .inr (.inl ⟨between, rfl, rfl⟩)
  · cases between with
    | nil => exact .inl ⟨by simp, by simpa [eq_comm] using hbetween⟩
    | cons x between =>
      obtain ⟨rfl, rfl⟩ := List.cons.inj hbetween
      exact .inr (.inr ⟨between, rfl, rfl⟩)

/-- No offset lies in two files. -/
theorem eq_of_offset {before' after' : List (List Char)} {i j : Nat}
    (heq : before ++ f :: after = before' ++ g :: after')
    (hoffset : (ahead before).length + i = (ahead before').length + j) (hi : i < f.length)
    (hj : j < g.length) : before = before' ∧ f = g ∧ after = after' ∧ i = j := by
  rcases append_cons_cases heq with ⟨rfl, rfl, rfl⟩ | ⟨between, rfl, -⟩ | ⟨between, rfl, -⟩
  · exact ⟨rfl, rfl, rfl, by omega⟩
  · rw [length_ahead_append_cons] at hoffset
    omega
  · rw [length_ahead_append_cons] at hoffset
    omega

/-! ## What is declared -/

/-- A declaration of a file as one of a text in which `n` characters precede the file. -/
def Token.behind (n : Nat) (t : Token) : Token := { t with offset := n + t.offset }

theorem Head.token_behind (h : Head) (n i : Nat) : (h.token i).behind n = h.token (n + i) := by
  simp [Token.behind, Head.token]

/-- Each declaration of files put together is one of a file, so none runs over the end of a file. -/
def Whole (files : List (List Char)) : Prop :=
  ∀ t ∈ tokenize (joinWith ['\n'] files), ∃ before f after t', files = before ++ f :: after ∧
    t' ∈ tokenize f ∧ t = t'.behind (ahead before).length

theorem lastOr_append_any {b : List Char} {before : Option Char}
    (hbefore : before.any isWord = false) (hb : (lastOr none b).any isWord = false) :
    (lastOr before b).any isWord = false := by
  cases b with
  | nil => exact hbefore
  | cons c b => rwa [lastOr_cons] at hb ⊢

/-- What a file declares is declared where the file stands. -/
theorem behind_mem_tokenize (ht : t ∈ tokenize f) (before after : List (List Char)) :
    t.behind (ahead before).length ∈ tokenize (joinWith ['\n'] (before ++ f :: after)) := by
  obtain ⟨a, h, r, rfl, hleft, rfl⟩ := mem_tokenize.1 ht
  refine mem_tokenize.2 ⟨ahead before ++ a, h, r ++ behind after, ?_, ?_, ?_⟩
  · rw [joinWith_append_cons]
    simp
  · rw [lastOr_append]
    exact lastOr_append_any (lastOr_ahead before) hleft
  · rw [Head.token_behind, List.length_append]

theorem Whole.exists_file (hw : Whole files) (hdecl : joinWith ['\n'] files = a ++ (h.text ++ r))
    (hleft : (lastOr none a).any isWord = false) : ∃ before f after a' r',
      files = before ++ f :: after ∧ f = a' ++ (h.text ++ r') ∧ a = ahead before ++ a' ∧
      r = r' ++ behind after ∧ (lastOr none a').any isWord = false := by
  obtain ⟨before, f, after, t, rfl, ht, hoffset⟩ :=
    hw _ (mem_tokenize.2 ⟨a, h, r, hdecl, hleft, rfl⟩)
  obtain ⟨a', h', r', rfl, hleft', rfl⟩ := mem_tokenize.1 ht
  have hlen : a.length = (ahead before).length + a'.length := by
    rw [Head.token_behind] at hoffset
    exact Int.ofNat_inj.1 (congrArg Token.offset hoffset)
  have hcut : (ahead before ++ a') ++ (h'.text ++ (r' ++ behind after)) = a ++ (h.text ++ r) := by
    rw [← hdecl, joinWith_append_cons]
    simp
  obtain ⟨rfl, hsame⟩ := List.append_inj hcut (by rw [List.length_append, hlen])
  obtain ⟨-, -, rfl⟩ := Head.eq_of_text_append_eq hsame
  have htext : h'.text = h.text := List.append_cancel_right hsame
  exact ⟨before, _, after, a', r', rfl, by rw [htext], rfl, rfl, hleft'⟩

/-! ## Blocks of files -/

theorem blockLength_append (hb : Balanced (a ++ (h.text ++ r))) (hform : h.form = .block)
    (b : List Char) : blockLength (r ++ b) = blockLength r := by
  obtain ⟨inner, r', rfl, hinner⟩ := hb.exists_block hform
  have hcut : inner ++ '}' :: r' ++ b = inner ++ '}' :: (r' ++ b) := by simp
  rw [hcut, hinner.blockLength, hinner.blockLength]

/-- What lies in a block where files are put together does so in its own file. -/
theorem inBlock_join_iff (hw : Whole files) (hb : ∀ f ∈ files, Balanced f)
    (hfiles : files = before ++ f :: after) {i : Nat} (hi : i < f.length) :
    InBlock (joinWith ['\n'] files) ((ahead before).length + i : Nat) ↔ InBlock f i := by
  rw [inBlock_iff, inBlock_iff]
  constructor
  · rintro ⟨a, h, r, hdecl, hleft, hform, hafter, hbefore⟩
    obtain ⟨before', g, after', a', r', hfiles', hg, rfl, rfl, hleft'⟩ := hw.exists_file hdecl hleft
    have hbalanced : Balanced g := hb g (by simp [hfiles'])
    have hlen := blockLength_append (hg ▸ hbalanced) hform (behind after')
    have hle := blockLength_le r'
    have hglen := congrArg List.length hg
    simp only [List.length_append] at hafter hbefore hglen
    rw [hlen] at hbefore
    obtain ⟨rfl, rfl, rfl, -⟩ := eq_of_offset (hfiles.symm.trans hfiles')
      (show _ + i = _ + ((ahead before).length + i - (ahead before').length) by omega) hi (by omega)
    exact ⟨a', h, r', hg, hleft', hform, by omega, by omega⟩
  · rintro ⟨a, h, r, rfl, hleft, hform, hafter, hbefore⟩
    have hbalanced : Balanced (a ++ (h.text ++ r)) := hb _ (by simp [hfiles])
    have hlen := blockLength_append hbalanced hform (behind after)
    refine ⟨ahead before ++ a, h, r ++ behind after, ?_, ?_, hform, ?_, ?_⟩
    · rw [hfiles, joinWith_append_cons]
      simp
    · rw [lastOr_append]
      exact lastOr_append_any (lastOr_ahead before) hleft
    · rw [List.length_append]
      omega
    · rw [hlen, List.length_append]
      omega

/-! ## What runs over the end of a file -/

/-- Text that is put behind a file falls to a declaration: the last one of the file, if it is
file-scoped and lies in no block of the file. -/
def EndsIn (f : List Char) (t : Token) : Prop :=
  (tokenize f).getLast? = some t ∧ t.form = .fileScoped ∧ ¬ InBlock f t.offset

/-- A text up to its first declaration; all of it if there is none. -/
def leading (f : List Char) : List Char :=
  match tokenize f with
  | [] => f
  | t :: _ => f.take t.offset.toNat

theorem offset_of_mem_tokenize (ht : t ∈ tokenize f) : 0 ≤ t.offset ∧ t.offset < f.length := by
  obtain ⟨a, h, r, rfl, -, rfl⟩ := mem_tokenize.1 ht
  have hpos := List.length_pos_iff.2 (text_ne_nil h)
  simp only [Head.token, List.length_append]
  omega

theorem pairwise_tokenize (f : List Char) :
    (tokenize f).Pairwise fun a b => a.offset < b.offset := pairwise_tokensFrom 0 none f

theorem getLast?_tokenize_eq_some_iff : (tokenize f).getLast? = some t ↔
    t ∈ tokenize f ∧ ∀ u ∈ tokenize f, u.offset ≤ t.offset := by
  have hpairwise := pairwise_tokenize f
  cases hts : tokenize f using List.reverseRecOn with
  | nil => simp
  | append_singleton ts u =>
    rw [hts, List.pairwise_append] at hpairwise
    have hlast : ∀ v ∈ ts, v.offset < u.offset := fun v hv => hpairwise.2.2 v hv u (by simp)
    rw [List.getLast?_concat, Option.some.injEq]
    constructor
    · rintro rfl
      refine ⟨by simp, fun v hv => ?_⟩
      rcases List.mem_append.1 hv with hv | hv
      · exact Int.le_of_lt (hlast v hv)
      · rw [List.mem_singleton.1 hv]
    · rintro ⟨ht, hmax⟩
      rcases List.mem_append.1 ht with ht | ht
      · have := hmax u (by simp)
        have := hlast t ht
        omega
      · exact (List.mem_singleton.1 ht).symm

theorem getElem?_leading {i : Nat} {c : Char} : (leading f)[i]? = some c ↔
    f[i]? = some c ∧ ∀ u ∈ tokenize f, (i : Int) < u.offset := by
  have hpairwise := pairwise_tokenize f
  unfold leading
  cases hts : tokenize f with
  | nil => simp
  | cons t ts =>
    rw [hts, List.pairwise_cons] at hpairwise
    have hpos := (offset_of_mem_tokenize (hts ▸ List.mem_cons_self ..)).1
    rw [List.getElem?_take]
    constructor
    · intro hget
      split at hget
      · refine ⟨hget, fun u hu => ?_⟩
        rcases List.mem_cons.1 hu with rfl | hu
        · omega
        · have := hpairwise.1 u hu
          omega
      · cases hget
    · rintro ⟨hget, hall⟩
      have := hall t (List.mem_cons_self ..)
      rw [if_pos (by omega), hget]

/-- Behind the last declaration of a file, nothing is declared before the next file in which anything
is declared, and there only from its first declaration on. -/
theorem Whole.lt_offset (hw : Whole files) (hfiles : files = before ++ f :: (between ++ g :: after))
    (ht : t ∈ tokenize f) (hlast : ∀ u ∈ tokenize f, u.offset ≤ t.offset)
    (hbetween : ∀ x ∈ between, tokenize x = []) {i : Nat} (hi : i < g.length)
    (hfirst : ∀ u ∈ tokenize g, (i : Int) < u.offset) {u : Token}
    (hu : u ∈ tokenize (joinWith ['\n'] files))
    (hafter : (t.behind (ahead before).length).offset < u.offset) :
    ((ahead (before ++ f :: between)).length + i : Nat) < u.offset := by
  obtain ⟨before', x, after', u', hfiles', hu', rfl⟩ := hw u hu
  have ht0 := offset_of_mem_tokenize ht
  have hu0 := offset_of_mem_tokenize hu'
  simp only [Token.behind] at hafter ⊢
  rcases append_cons_cases (hfiles.symm.trans hfiles') with ⟨rfl, rfl, -⟩ | ⟨mid, rfl, hrest⟩ |
    ⟨mid, rfl, -⟩
  · have := hlast u' hu'
    omega
  · rcases append_cons_cases hrest with ⟨rfl, rfl, -⟩ | ⟨mid', rfl, -⟩ | ⟨mid', rfl, -⟩
    · have := hfirst u' hu'
      omega
    · have hahead := length_ahead_append_cons (before ++ f :: between) g mid'
      rw [List.append_assoc, List.cons_append] at hahead
      omega
    · rw [hbetween x (by simp)] at hu'
      cases hu'
  · rw [length_ahead_append_cons] at hafter
    omega

/-- The region of a plot has text only of files that declare the plot's namespace. -/
def Plot.KeepsTo (files : List (List Char)) (p : Plot) : Prop :=
  ∀ before f after, files = before ++ f :: after → ∀ i c, f[i]? = some c → isBlank c = false →
    p.body ≤ (ahead before).length + i → (ahead before).length + i < p.stop → p.name ∈ declaredNames f

/-- A plot stands in the file of its declaration, and a block ends there. -/
theorem Survey.exists_file (hs : Survey 0 none (joinWith ['\n'] files) plots back) (hw : Whole files)
    (hb : ∀ f ∈ files, Balanced f) {p : Plot} (hp : p ∈ plots) : ∃ before f after a r,
      files = before ++ f :: after ∧ f = a ++ (p.head.text ++ r) ∧
      (lastOr none a).any isWord = false ∧ p.start = (ahead before).length + a.length ∧
      (p.head.form = .block → p.stop ≤ (ahead before).length + f.length) := by
  obtain ⟨front, rest, htext, hstart, hstands, hfits⟩ := hs.exists_at p hp
  obtain ⟨before, f, after, a, r, hfiles, hf, rfl, hr, hleft⟩ := hw.exists_file htext hstands
  rw [Nat.zero_add] at hstart
  refine ⟨before, f, after, a, r, hfiles, hf, hleft, by rw [hstart, List.length_append], ?_⟩
  intro hform
  have hfinish := Plot.finish_eq_blockLength hstart hfits hform
  have hbalanced : Balanced f := hb f (by simp [hfiles])
  have hlen := blockLength_append (hf ▸ hbalanced) hform (behind after)
  have hle := blockLength_le r
  rw [hr, hlen, List.length_append] at hfinish
  rw [hf, List.length_append, List.length_append]
  simp only [Plot.finish] at hfinish
  omega

/-- The declaration that a file ends in the region of has a plot. -/
theorem Survey.exists_plot_of_endsIn (hs : Survey 0 none (joinWith ['\n'] files) plots back)
    (hw : Whole files) (hb : ∀ f ∈ files, Balanced f) (hfiles : files = before ++ f :: after)
    (hends : EndsIn f t) : ∃ p ∈ plots, p.token = t.behind (ahead before).length := by
  obtain ⟨hlast, -, hblock⟩ := hends
  have ht := (getLast?_tokenize_eq_some_iff.1 hlast).1
  obtain ⟨hpos, hlt⟩ := offset_of_mem_tokenize ht
  obtain ⟨i, hi⟩ := Int.eq_ofNat_of_zero_le hpos
  have hmem : t.behind (ahead before).length ∈ tokenize (joinWith ['\n'] files) :=
    hfiles ▸ behind_mem_tokenize ht before after
  refine List.mem_map.1 ((hs.claims_iff hmem).2 ?_)
  have hoffset : (t.behind (ahead before).length).offset = ((ahead before).length + i : Nat) := by
    rw [Token.behind, hi]
    rfl
  rw [hoffset, inBlock_join_iff hw hb hfiles (by omega), ← hi]
  exact hblock

/-- A plot that goes on behind its file is that of the declaration which the file ends in the region
of. -/
theorem Survey.endsIn_of_stop (hs : Survey 0 none (joinWith ['\n'] files) plots back)
    (hw : Whole files) (hb : ∀ f ∈ files, Balanced f) {p : Plot} (hp : p ∈ plots)
    (hfiles : files = before ++ f :: after) (hf : f = a ++ (p.head.text ++ r))
    (hleft : (lastOr none a).any isWord = false)
    (hstart : p.start = (ahead before).length + a.length) (hform : p.head.form = .fileScoped)
    (hstop : (ahead before).length + f.length ≤ p.stop) : EndsIn f (p.head.token a.length) := by
  have ht : p.head.token a.length ∈ tokenize f := mem_tokenize.2 ⟨a, p.head, r, hf, hleft, rfl⟩
  have hin := (offset_of_mem_tokenize ht).2
  refine ⟨getLast?_tokenize_eq_some_iff.2 ⟨ht, fun u hu => ?_⟩, hform, ?_⟩
  · have hu' : u.behind (ahead before).length ∈ tokenize (joinWith ['\n'] files) :=
      hfiles ▸ behind_mem_tokenize hu before after
    have hlt := (offset_of_mem_tokenize hu).2
    have := ((hs.cut.placed p hp).file hform).2.1 _ hu'
    simp only [Token.behind, Head.token] at this ⊢
    omega
  · rw [Head.token] at hin
    rw [Head.token, ← inBlock_join_iff hw hb hfiles (Int.ofNat_lt.1 hin), ← hstart]
    have hmem : p.token ∈ plots.map Plot.token := List.mem_map_of_mem hp
    have htoken : p.token ∈ tokenize (joinWith ['\n'] files) := by
      have := behind_mem_tokenize ht before after
      rwa [Head.token_behind, ← hstart, ← hfiles] at this
    exact (hs.claims_iff htoken).1 hmem

/-- The region of a declaration that a file ends in goes on up to the next declaration. -/
theorem Survey.lt_stop (hs : Survey 0 none (joinWith ['\n'] files) plots back) (hw : Whole files)
    (hfiles : files = before ++ f :: (between ++ g :: after)) (hends : EndsIn f t)
    (hbetween : ∀ x ∈ between, tokenize x = []) {p : Plot} (hp : p ∈ plots)
    (htoken : p.token = t.behind (ahead before).length) {i : Nat} (hi : i < g.length)
    (hfirst : ∀ u ∈ tokenize g, (i : Int) < u.offset) :
    (ahead (before ++ f :: between)).length + i < p.stop := by
  obtain ⟨hlast, hform, -⟩ := hends
  obtain ⟨ht, hmax⟩ := getLast?_tokenize_eq_some_iff.1 hlast
  have hpform : p.head.form = .fileScoped := (congrArg Token.form htoken).trans hform
  have hpoffset : (p.start : Int) = (t.behind (ahead before).length).offset :=
    congrArg Token.offset htoken
  obtain ⟨-, -, hstop | ⟨u, hu, hstop⟩⟩ := (hs.cut.placed p hp).file hpform
  · have hjoin : joinWith ['\n'] files = ahead (before ++ f :: between) ++ (g ++ behind after) := by
      rw [hfiles, ← joinWith_append_cons]
      simp
    rw [hstop, hjoin, List.length_append, List.length_append]
    omega
  · have hpos := List.length_pos_iff.2 (text_ne_nil p.head)
    have hafter : (t.behind (ahead before).length).offset < u.offset := by
      rw [hstop, ← hpoffset, Plot.stop, Plot.body]
      omega
    have := hw.lt_offset hfiles ht hmax hbetween hi hfirst hu hafter
    omega

/-- The region of a declaration begins in the file of that declaration. -/
theorem Survey.body_le (hs : Survey 0 none (joinWith ['\n'] files) plots back) (hw : Whole files)
    (hb : ∀ f ∈ files, Balanced f) (hfiles : files = before ++ f :: after) (ht : t ∈ tokenize f)
    {p : Plot} (hp : p ∈ plots) (htoken : p.token = t.behind (ahead before).length) :
    p.body ≤ (ahead before).length + f.length := by
  obtain ⟨before', f', after', a, r, hfiles', hf', -, hstart, -⟩ := hs.exists_file hw hb hp
  have hin := offset_of_mem_tokenize ht
  have hoffset : (p.start : Int) = (t.behind (ahead before).length).offset :=
    congrArg Token.offset htoken
  have hlen := congrArg List.length hf'
  have hpos := List.length_pos_iff.2 (text_ne_nil p.head)
  simp only [List.length_append] at hlen
  simp only [Token.behind] at hoffset
  obtain ⟨rfl, rfl, -, -⟩ := eq_of_offset (hfiles'.symm.trans hfiles)
    (show _ + a.length = _ + t.offset.toNat by omega) (by omega) (by omega)
  rw [Plot.body]
  omega

/-- What is declared in a file behind that of a file-scoped declaration is declared behind its
region. -/
theorem Survey.stop_le (hs : Survey 0 none (joinWith ['\n'] files) plots back) {p : Plot}
    (hp : p ∈ plots) (hform : p.head.form = .fileScoped)
    (hfiles : files = before ++ f :: (between ++ g :: after))
    (hstart : p.start < (ahead before).length + f.length) {u : Token} (hu : u ∈ tokenize g) :
    (p.stop : Int) ≤ (ahead (before ++ f :: between)).length + u.offset := by
  have hmem : u.behind (ahead (before ++ f :: between)).length ∈
      tokenize (joinWith ['\n'] files) := by
    have := behind_mem_tokenize hu (before ++ f :: between) after
    rwa [List.append_assoc, List.cons_append, ← hfiles] at this
  obtain ⟨-, hnone, -⟩ := (hs.cut.placed p hp).file hform
  have := hnone _ hmem
  have := (offset_of_mem_tokenize hu).1
  have := length_ahead_append_cons before f between
  simp only [Token.behind] at *
  omega

/-- Nothing is declared in the files between that of a file-scoped declaration and one that its region
reaches. -/
theorem Survey.tokenize_between_eq_nil (hs : Survey 0 none (joinWith ['\n'] files) plots back)
    {p : Plot} (hp : p ∈ plots) (hform : p.head.form = .fileScoped)
    (hfiles : files = before ++ f :: (between ++ g :: after))
    (hstart : p.start < (ahead before).length + f.length)
    (hstop : (ahead (before ++ f :: between)).length ≤ p.stop) : ∀ x ∈ between, tokenize x = [] := by
  intro x hx
  obtain ⟨mid, rest, rfl⟩ := List.append_of_mem hx
  apply List.eq_nil_iff_forall_not_mem.2
  intro u hu
  have := hs.stop_le hp hform (by simpa using hfiles) hstart hu
  have := (offset_of_mem_tokenize hu).2
  have := length_ahead_append_cons (before ++ f :: mid) x rest
  rw [List.append_assoc, List.cons_append] at this
  omega

/-- What the region of a file-scoped declaration has of a file behind its own stands in front of all
that is declared there. -/
theorem Survey.mem_leading (hs : Survey 0 none (joinWith ['\n'] files) plots back) {p : Plot}
    (hp : p ∈ plots) (hform : p.head.form = .fileScoped)
    (hfiles : files = before ++ f :: (between ++ g :: after))
    (hstart : p.start < (ahead before).length + f.length) {i : Nat} {c : Char}
    (hget : g[i]? = some c) (hstop : (ahead (before ++ f :: between)).length + i < p.stop) :
    c ∈ leading g := by
  refine List.mem_of_getElem? (getElem?_leading.2 ⟨hget, fun u hu => ?_⟩)
  have := hs.stop_le hp hform hfiles hstart hu
  omega

/-- Where all units keep to files that declare them, a file that is reached from one before it declares
the namespace that it is reached by, or has only blanks in front of its own declarations. -/
theorem Survey.mem_declaredNames_of_keepsTo
    (hs : Survey 0 none (joinWith ['\n'] files) plots back) (hw : Whole files)
    (hb : ∀ f ∈ files, Balanced f) (hkeeps : ∀ p ∈ plots, p.KeepsTo files)
    (hfiles : files = before ++ f :: (between ++ g :: after)) (hends : EndsIn f t)
    (hbetween : ∀ x ∈ between, tokenize x = []) (hleading : allBlank (leading g) = false) :
    t.name ∈ declaredNames g := by
  obtain ⟨p, hp, htoken⟩ := hs.exists_plot_of_endsIn hw hb hfiles hends
  obtain ⟨c, hc, hblank⟩ : ∃ c ∈ leading g, isBlank c = false := by simpa [allBlank] using hleading
  obtain ⟨i, hi⟩ := List.getElem?_of_mem hc
  obtain ⟨hg, hfirst⟩ := getElem?_leading.1 hi
  have hstop := hs.lt_stop hw hfiles hends hbetween hp htoken
    (List.getElem?_eq_some_iff.1 hg).1 hfirst
  have hname : p.name = t.name := congrArg Token.name htoken
  have hbody := hs.body_le hw hb hfiles (getLast?_tokenize_eq_some_iff.1 hends.1).1 hp htoken
  rw [← hname]
  refine hkeeps p hp (before ++ f :: between) g after (by simp [hfiles]) i c hg hblank ?_ hstop
  rw [length_ahead_append_cons]
  omega

/-- **Which text leaves its file.** Let files be put together that are balanced each and that no
declaration runs over the end of. Then all units keep to files that declare them exactly if the
following holds: wherever a file ends in the region of a file-scoped declaration, the files behind
it, up to the first in which something is declared, declare that namespace too or have nothing but
blanks in front of their own declarations. -/
theorem Survey.keepsTo_iff (hs : Survey 0 none (joinWith ['\n'] files) plots back) (hw : Whole files)
    (hb : ∀ f ∈ files, Balanced f) : (∀ p ∈ plots, p.KeepsTo files) ↔
      ∀ before f between g after t, files = before ++ f :: (between ++ g :: after) → EndsIn f t →
        (∀ x ∈ between, tokenize x = []) → allBlank (leading g) = false →
        t.name ∈ declaredNames g := by
  constructor
  · intro hkeeps before f between g after t
    exact hs.mem_declaredNames_of_keepsTo hw hb hkeeps
  · intro hall p hp before' g after' hfiles' i c hget hblank hbody hstop
    obtain ⟨before, f, after, a, r, hfiles, hf, hleft, hstart, hblock⟩ := hs.exists_file hw hb hp
    have hi := (List.getElem?_eq_some_iff.1 hget).1
    have hin : p.start < (ahead before).length + f.length := by
      have := List.length_pos_iff.2 (text_ne_nil p.head)
      have := congrArg List.length hf
      simp only [List.length_append] at this
      omega
    -- the file is that of the declaration, one behind it, or one in front of it
    rcases append_cons_cases (hfiles.symm.trans hfiles') with ⟨rfl, rfl, rfl⟩ | ⟨between, rfl, rfl⟩ |
      ⟨between, rfl, -⟩
    · exact List.mem_map_of_mem (mem_tokenize.2 ⟨a, p.head, r, hf, hleft, rfl⟩)
    · have hahead := length_ahead_append_cons before f between
      cases hform : p.head.form with
      | block =>
        have := hblock hform
        omega
      | fileScoped =>
        have hends := hs.endsIn_of_stop hw hb hp hfiles hf hleft hstart hform (by omega)
        refine hall before f between g after' _ hfiles hends
          (hs.tokenize_between_eq_nil hp hform hfiles hin (by omega)) ?_
        rw [allBlank, List.all_eq_false]
        exact ⟨c, hs.mem_leading hp hform hfiles hin hget hstop, by simp [hblank]⟩
    · rw [length_ahead_append_cons] at hstart
      simp only [Plot.body] at hbody
      omega

end Decompilation.Source
