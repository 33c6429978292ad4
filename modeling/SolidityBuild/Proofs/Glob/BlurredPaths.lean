import SolidityBuild.Proofs.Glob.Blurring
import SolidityBuild.Proofs.Glob.Sources
import SolidityBuild.Proofs.Path.Forward

/-! # Blurred paths: what blurring leaves of an address

    Blurring touches neither slashes nor dots and keeps the number of bytes. So the blurred path
    to a source is one to a source again. The characters that it touches are all in names, and a
    path has as many of them as its names have.
-/

namespace SolidityBuild.Glob

variable {c c' k : Char} {cs cs' ks : List Char} {name name' : String}
  {names names' : List String}

/-! ## Texts -/

/-- Blurring neither takes away nor adds a character that it does not concern. -/
theorem Blurs.eq_iff (h : Blurs c c') (hk : isSyntax k = false) (hx : k ≠ 'x') :
    c' = k ↔ c = k := by
  rcases h with rfl | rfl
  · rfl
  · unfold blur
    by_cases hc : isSyntax c = true
    · rw [if_pos hc]
      constructor
      · intro heq
        exact absurd heq.symm hx
      · intro heq
        rw [heq, hk] at hc
        cases hc
    · rw [if_neg hc]

theorem Blurs.utf8Size_eq (h : Blurs c c') : c'.utf8Size = c.utf8Size := by
  rcases h with rfl | rfl
  · rfl
  · unfold blur
    by_cases hc : isSyntax c = true
    · rw [if_pos hc]
      simp only [isSyntax, Bool.or_eq_true, decide_eq_true_eq] at hc
      rcases hc with ((rfl | rfl) | rfl) | rfl <;> rfl
    · rw [if_neg hc]

theorem utf8Len_blurred (h : List.Forall₂ Blurs cs cs') :
    String.utf8Len cs' = String.utf8Len cs := by
  induction h with
  | nil => rfl
  | cons hc h ih => rw [String.utf8Len_cons, String.utf8Len_cons, ih, hc.utf8Size_eq]

theorem mem_blurred_iff (h : List.Forall₂ Blurs cs cs') (hk : isSyntax k = false) (hx : k ≠ 'x') :
    k ∈ cs' ↔ k ∈ cs := by
  induction h with
  | nil => rfl
  | cons hc h ih => rw [List.mem_cons, List.mem_cons, ih, eq_comm, hc.eq_iff hk hx, eq_comm]

/-- Blurring gives a text that it does not concern only for the same text. -/
theorem blurred_eq_iff (h : List.Forall₂ Blurs cs cs')
    (hks : ∀ k ∈ ks, isSyntax k = false ∧ k ≠ 'x') : cs' = ks ↔ cs = ks := by
  induction h generalizing ks with
  | nil => rfl
  | cons hc h ih =>
    cases ks with
    | nil => simp
    | cons k ks =>
      obtain ⟨hk, hx⟩ := hks k (List.mem_cons_self ..)
      rw [List.cons_eq_cons, List.cons_eq_cons, hc.eq_iff hk hx,
        ih fun k hk => hks k (List.mem_cons_of_mem _ hk)]

theorem pieces_blurred (h : List.Forall₂ Blurs cs cs') :
    List.Forall₂ (List.Forall₂ Blurs) (Text.pieces '/' cs) (Text.pieces '/' cs') := by
  induction h with
  | nil => exact .cons .nil .nil
  | @cons c c' cs cs' hc h ih =>
    -- A separator stays one, so both texts are cut at the same places.
    have hslash : c' = '/' ↔ c = '/' := hc.eq_iff rfl (by decide)
    by_cases heq : c = '/'
    · rw [Text.pieces, Text.pieces, if_pos heq, if_pos (hslash.2 heq)]
      exact .cons .nil ih
    · obtain ⟨piece, rest, hp, hcons⟩ := Text.exists_pieces_cons heq cs
      obtain ⟨piece', rest', hp', hcons'⟩ := Text.exists_pieces_cons (mt hslash.1 heq) cs'
      rw [hp, hp'] at ih
      rw [hcons, hcons']
      cases ih with
      | cons hpiece hrest => exact .cons (.cons hc hpiece) hrest

/-! ## Names -/

theorem exists_left_of_forall₂ {α β : Type} {R : α → β → Prop} {xs : List α} {ys : List β} {y : β}
    (h : List.Forall₂ R xs ys) (hy : y ∈ ys) : ∃ x ∈ xs, R x y := by
  induction h with
  | nil => cases hy
  | @cons x y' xs ys hxy h ih =>
    rcases List.mem_cons.1 hy with rfl | hy
    · exact ⟨x, List.mem_cons_self .., hxy⟩
    · obtain ⟨x', hx', hrel⟩ := ih hy
      exact ⟨x', List.mem_cons_of_mem _ hx', hrel⟩

theorem exists_last_of_forall₂ {α β : Type} {R : α → β → Prop} {xs : List α} {ys : List β} {x : α}
    (h : List.Forall₂ R xs ys) (hx : x ∈ xs.getLast?) : ∃ y ∈ ys.getLast?, R x y := by
  obtain ⟨front, rfl⟩ := List.getLast?_eq_some_iff.1 hx
  rw [← List.forall₂_reverse_iff, List.reverse_append, List.reverse_singleton,
    List.singleton_append, List.forall₂_cons_left_iff] at h
  obtain ⟨y, others, hxy, -, hys⟩ := h
  refine ⟨y, ?_, hxy⟩
  rw [List.getLast?_eq_head?_reverse, hys]
  rfl

theorem isName_blurred (h : Path.IsName name)
    (hblurs : List.Forall₂ Blurs name.toList name'.toList) : Path.IsName name' := by
  have hsame : ∀ text : String, (∀ k ∈ text.toList, isSyntax k = false ∧ k ≠ 'x') →
      (name' = text ↔ name = text) := by
    intro text htext
    rw [← String.toList_inj, ← String.toList_inj, blurred_eq_iff hblurs htext]
  obtain ⟨hempty, hhere, hup, hslash⟩ := h
  refine ⟨?_, ?_, ?_, ?_⟩
  · exact fun heq => hempty ((hsame "" (by simp)).1 heq)
  · exact fun heq => hhere ((hsame "." (by simp [isSyntax])).1 heq)
  · exact fun heq => hup ((hsame ".." (by simp [isSyntax])).1 heq)
  · exact fun hmem => hslash ((mem_blurred_iff hblurs rfl (by decide)).1 hmem)

theorem accepts_sourceFiles_blurred (h : sourceFiles.accepts name = true)
    (hblurs : List.Forall₂ Blurs name.toList name'.toList) :
    sourceFiles.accepts name' = true := by
  rw [accepts_sourceFiles_iff] at h ⊢
  obtain ⟨stem, hstem⟩ := h
  rw [← hstem] at hblurs
  -- The stem may be blurred, but not what ends the name.
  have hdrop := List.forall₂_drop_append _ _ _ hblurs.flip
  have hends : name'.toList.drop stem.length = ".sol".toList :=
    (blurred_eq_iff hdrop.flip (by simp [isSyntax])).2 rfl
  rw [← hends]
  exact List.drop_suffix _ _

/-- **Blurred paths**: the path to a source, blurred, is again one to a source. -/
theorem IsSourceAddress.blurred (h : IsSourceAddress names)
    (hblurs : List.Forall₂ Blurs (Path.along names).text.toList cs') :
    ∃ names', (Path.along names').text.toList = cs' ∧ IsSourceAddress names' := by
  have hpieces := pieces_blurred hblurs
  have hsegments : Text.pieces '/' (Path.along names).text.toList = names.map String.toList :=
    Path.segments_along h.ne_nil h.named
  rw [hsegments, List.forall₂_map_left_iff] at hpieces
  -- The blurred text is cut into names again, and each of them blurs one of the address.
  obtain ⟨names', hnames'⟩ : ∃ names' : List String,
      names'.map String.toList = Text.pieces '/' cs' :=
    ⟨(Text.pieces '/' cs').map String.ofList, by simp⟩
  rw [← hnames', List.forall₂_map_right_iff] at hpieces
  have halong : (Path.along names').text.toList = cs' := by
    unfold Path.along
    rw [String.toList_ofList, hnames', Text.joinWith_pieces]
  have hne : names' ≠ [] := by
    intro hnil
    rw [hnil] at hnames'
    exact Text.pieces_ne_nil '/' cs' hnames'.symm
  have hslashed : List.Forall₂ Blurs (Path.slashed names) (Path.slashed names') := by
    rw [← Path.slash_cons_along h.ne_nil, ← Path.slash_cons_along hne, halong]
    exact .cons (.inl rfl) hblurs
  refine ⟨names', halong, ?_⟩
  exact {
    named := by
      intro name' hname'
      obtain ⟨name, hname, hblur⟩ := exists_left_of_forall₂ hpieces hname'
      exact isName_blurred (h.named name hname) hblur
    short := by
      intro name' hname'
      obtain ⟨name, hname, hblur⟩ := exists_left_of_forall₂ hpieces hname'
      rw [← String.utf8Len_toList, utf8Len_blurred hblur, String.utf8Len_toList]
      exact h.short name hname
    checked := by
      have hchecked := h.checked
      rw [Disk.check_ofNames_iff h.ne_nil] at hchecked
      rw [Disk.check_ofNames_iff hne, utf8Len_blurred hslashed,
        mem_blurred_iff hslashed rfl (by decide)]
      exact hchecked
    source := by
      obtain ⟨last, hlast, haccepts⟩ := h.source
      obtain ⟨last', hlast', hblur⟩ := exists_last_of_forall₂ hpieces hlast
      exact ⟨last', hlast', accepts_sourceFiles_blurred haccepts hblur⟩ }

/-! ## Counting -/

/-- How many characters of patterns some names have. -/
def countSyntax (names : List String) : Nat :=
  (names.flatMap String.toList).countP isSyntax

theorem countSyntax_append (names names' : List String) :
    countSyntax (names ++ names') = countSyntax names + countSyntax names' := by
  unfold countSyntax
  rw [List.flatMap_append, List.countP_append]

theorem countSyntax_le_of_infix (h : names <:+: names') :
    countSyntax names ≤ countSyntax names' := by
  obtain ⟨front, behind, rfl⟩ := h
  rw [countSyntax_append, countSyntax_append]
  omega

theorem countP_flatten_pieces (cs : List Char) :
    (Text.pieces '/' cs).flatten.countP isSyntax = cs.countP isSyntax := by
  induction cs with
  | nil => rfl
  | cons c cs ih =>
    by_cases hc : c = '/'
    · have hslash : isSyntax '/' = false := rfl
      rw [Text.pieces, if_pos hc, List.flatten_cons, List.nil_append, ih, hc,
        List.countP_cons_of_neg (by simp [hslash])]
    · obtain ⟨piece, rest, hp, hcons⟩ := Text.exists_pieces_cons hc cs
      rw [hp] at ih
      rw [hcons]
      simp only [List.flatten_cons, List.cons_append, List.countP_cons] at ih ⊢
      rw [ih]

/-- A segment that is no name has none of them. -/
theorem countSyntax_ofSegment? (segment : List Char) :
    countSyntax ((Path.Part.ofSegment? segment).bind Path.Part.name?).toList =
      segment.countP isSyntax := by
  unfold Path.Part.ofSegment?
  split
  · rfl
  · rfl
  · rfl
  · simp [Path.Part.name?, countSyntax]

theorem countSyntax_names (p : Path) : countSyntax p.names = p.text.toList.countP isSyntax := by
  rw [Path.names_eq, List.filterMap_filterMap, ← countP_flatten_pieces]
  show countSyntax ((Text.pieces '/' p.text.toList).filterMap _) = _
  induction Text.pieces '/' p.text.toList with
  | nil => rfl
  | cons segment segments ih =>
    rw [List.flatten_cons, List.countP_append, ← ih, ← countSyntax_ofSegment? segment,
      ← countSyntax_append]
    congr 1
    cases h : (Path.Part.ofSegment? segment).bind Path.Part.name? with
    | none => simp [h]
    | some name => simp [h]

end SolidityBuild.Glob
