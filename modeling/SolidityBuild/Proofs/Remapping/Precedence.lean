import SolidityBuild.Proofs.Remapping.Choice
import SolidityBuild.Proofs.Resolution.Rules
import Mathlib.Logic.Relation

/-! # Precedence: which remapping an import is rewritten with

    Of the remappings that fit an import, the one with the longest context is used, of these
    the one with the longest stem, and of these the first. So only those count that fit and
    are not exceeded by the one that is used. All others may be put into the list, taken out
    of it or moved, and any one may be repeated further back.
-/

namespace SolidityBuild

/-! ## Lists with the same first of the best -/

section

variable {α ρ : Type*} [LinearOrder ρ] (rank : α → ρ) {front middle back : List α} {a b : α}

/-- The first of the best is the first one that is ranked as high, and none is ranked
    higher. -/
theorem firstBest?_eq_some_iff_head? {l : List α} :
    firstBest? rank l = some a ↔
      (l.filter fun b => rank a ≤ rank b).head? = some a ∧ ∀ b ∈ l, rank b ≤ rank a := by
  rw [firstBest?_eq_some_iff]
  constructor
  · rintro ⟨before, after, rfl, hbefore, hafter⟩
    have hlow : before.filter (fun b => rank a ≤ rank b) = [] := by
      rw [List.filter_eq_nil_iff]
      intro b hb
      simpa using hbefore b hb
    refine ⟨?_, ?_⟩
    · rw [List.filter_append, hlow, List.nil_append,
        List.filter_cons_of_pos (by simp), List.head?_cons]
    · intro b hb
      rcases List.mem_append.1 hb with hb | hb
      · exact (hbefore b hb).le
      · rcases List.mem_cons.1 hb with rfl | hb
        · exact le_rfl
        · exact hafter b hb
  · rintro ⟨hhead, hmax⟩
    obtain ⟨rest, hrest⟩ := List.head?_eq_some_iff.1 hhead
    obtain ⟨before, after, rfl, hbefore, -, -⟩ := List.filter_eq_cons_iff.1 hrest
    refine ⟨before, after, rfl, ?_, ?_⟩
    · intro b hb
      simpa using hbefore b hb
    · intro b hb
      exact hmax b (List.mem_append_right _ (List.mem_cons_of_mem _ hb))

/-- What is ranked lower than the best may stand anywhere. -/
theorem firstBest?_insert (h : rank b < rank a) :
    firstBest? rank (front ++ b :: back) = some a ↔ firstBest? rank (front ++ back) = some a := by
  have hfilter : (front ++ b :: back).filter (fun c => rank a ≤ rank c) =
      (front ++ back).filter fun c => rank a ≤ rank c := by
    rw [List.filter_append, List.filter_append, List.filter_cons_of_neg (by simpa using h)]
  have hmax : (∀ c ∈ front ++ b :: back, rank c ≤ rank a) ↔
      ∀ c ∈ front ++ back, rank c ≤ rank a := by
    rw [List.forall_mem_append, List.forall_mem_append, List.forall_mem_cons]
    simp only [h.le, true_and]
  rw [firstBest?_eq_some_iff_head?, firstBest?_eq_some_iff_head?, hfilter, hmax]

/-- What was listed before adds nothing. -/
theorem firstBest?_repeat :
    firstBest? rank (front ++ b :: (middle ++ b :: back)) =
      firstBest? rank (front ++ b :: (middle ++ back)) := by
  ext a
  have hmax : (∀ c ∈ front ++ b :: (middle ++ b :: back), rank c ≤ rank a) ↔
      ∀ c ∈ front ++ b :: (middle ++ back), rank c ≤ rank a := by
    simp only [List.forall_mem_append, List.forall_mem_cons]
    tauto
  have hhead : ((front ++ b :: (middle ++ b :: back)).filter fun c => rank a ≤ rank c).head? =
      ((front ++ b :: (middle ++ back)).filter fun c => rank a ≤ rank c).head? := by
    by_cases hb : rank a ≤ rank b
    · -- The head stands before the second place, or is the first one.
      rw [List.filter_append, List.filter_append, List.filter_cons_of_pos (by simpa using hb),
        List.filter_cons_of_pos (by simpa using hb), List.head?_append, List.head?_append,
        List.head?_cons, List.head?_cons]
    · simp only [List.filter_append, List.filter_cons, hb, decide_false, Bool.false_eq_true,
        if_false]
  rw [firstBest?_eq_some_iff_head?, firstBest?_eq_some_iff_head?, hhead, hmax]

end

namespace Resolution

/-! ## Precedence as it is documented -/

/-- The import starts with the stem, and the context, if there is one, contains the importing
    file. -/
structure Fits (project : Project) (importer : Path) (specifier : String) (r : Remapping) :
    Prop where
  stem : r.stem.toList <+: specifier.toList
  context : ∀ context, project.contextPath? r = some context → context.contains importer = true

/-- A longer context as it is written, or one as long and a longer stem. -/
def Exceeds (o r : Remapping) : Prop :=
  r.contextSize < o.contextSize ∨
    o.contextSize = r.contextSize ∧ r.stem.utf8ByteSize < o.stem.utf8ByteSize

/-- A context as long and a stem as long. -/
def Ties (o r : Remapping) : Prop :=
  o.contextSize = r.contextSize ∧ o.stem.utf8ByteSize = r.stem.utf8ByteSize

/-- The remapping at a place of the list takes precedence: it fits, none that fits exceeds it,
    and none before it that fits ties with it. -/
structure Precedes (project : Project) (importer : Path) (specifier : String)
    (before : List Remapping) (r : Remapping) (after : List Remapping) : Prop where
  /-- the place in the list; an equal entry may stand at another one -/
  place : project.remappings = before ++ r :: after
  fits : Fits project importer specifier r
  /-- the longest context, and of these the longest stem -/
  highest : ∀ o ∈ project.remappings, Fits project importer specifier o → ¬ Exceeds o r
  /-- the order of the configuration decides the rest -/
  first : ∀ o ∈ before, Fits project importer specifier o → ¬ Ties o r

/-- A remapping that does not count for an import: it does not fit, or the one that is used
    exceeds it. -/
def Idle (project : Project) (importer : Path) (specifier : String) (o : Remapping) : Prop :=
  ¬ Fits project importer specifier o ∨
    ∃ r, remapping? project importer specifier = some r ∧ Exceeds r o

/-- A change of the list of remappings that makes no difference to an import. -/
inductive Edit (project : Project) (importer : Path) (specifier : String) :
    List Remapping → List Remapping → Prop where
  /-- A remapping that does not count is put in anywhere. -/
  | insert {o : Remapping} {before after : List Remapping}
      (hidle : Idle project importer specifier o) :
      Edit project importer specifier (before ++ after) (before ++ o :: after)
  /-- One that does not count is taken out. -/
  | remove {o : Remapping} {before after : List Remapping}
      (hidle : Idle project importer specifier o) :
      Edit project importer specifier (before ++ o :: after) (before ++ after)
  /-- One that does not count is put elsewhere; the others keep their order. -/
  | move {o : Remapping} {before after before' after' : List Remapping}
      (hidle : Idle project importer specifier o) (hothers : before ++ after = before' ++ after') :
      Edit project importer specifier (before ++ o :: after) (before' ++ o :: after')
  /-- Any remapping is listed once more, further back. -/
  | again {o : Remapping} {before middle after : List Remapping} :
      Edit project importer specifier (before ++ o :: (middle ++ after))
        (before ++ o :: (middle ++ o :: after))

variable {project : Project} {importer : Path} {specifier : String} {r o : Remapping}
  {before middle after remappings remappings' : List Remapping}

theorem applies_iff_fits :
    applies project importer specifier r = true ↔ Fits project importer specifier r := by
  rw [applies_iff]
  exact ⟨fun ⟨hstem, hcontext⟩ => ⟨hstem, hcontext⟩, fun h => ⟨h.stem, h.context⟩⟩

theorem exceeds_iff : Exceeds o r ↔ r.rank < o.rank := by
  unfold Exceeds Remapping.rank
  rw [Prod.Lex.toLex_lt_toLex, eq_comm]

theorem ties_iff : Ties o r ↔ o.rank = r.rank := by
  unfold Ties Remapping.rank
  rw [toLex_inj, Prod.mk.injEq]

/-- The remapping that is used takes precedence at its first place. -/
theorem remapping?_eq_some_iff_precedes :
    remapping? project importer specifier = some r ↔
      ∃ before after, Precedes project importer specifier before r after := by
  rw [remapping?_eq_some_iff]
  constructor
  · rintro ⟨before, after, hplace, happlies, hbefore, hafter⟩
    refine ⟨before, after, hplace, applies_iff_fits.1 happlies, ?_, ?_⟩
    · intro o ho hfits
      rw [exceeds_iff, not_lt]
      have happlies' := applies_iff_fits.2 hfits
      rw [hplace] at ho
      rcases List.mem_append.1 ho with ho | ho
      · exact (hbefore o ho happlies').le
      · rcases List.mem_cons.1 ho with rfl | ho
        · exact le_rfl
        · exact hafter o ho happlies'
    · intro o ho hfits
      rw [ties_iff]
      exact (hbefore o ho (applies_iff_fits.2 hfits)).ne
  · rintro ⟨before, after, hplace, hfits, hhighest, hfirst⟩
    -- The ranks are compared in a linear order, so what does not exceed is at most as high.
    have hle : ∀ o ∈ project.remappings, applies project importer specifier o = true →
        o.rank ≤ r.rank := by
      intro o ho happlies
      rw [← not_lt, ← exceeds_iff]
      exact hhighest o ho (applies_iff_fits.1 happlies)
    rw [hplace] at hle
    refine ⟨before, after, hplace, applies_iff_fits.2 hfits, ?_, ?_⟩
    · -- Before its place, what is as high would tie.
      intro o ho happlies
      refine lt_of_le_of_ne (hle o (List.mem_append_left _ ho) happlies) ?_
      rw [Ne, ← ties_iff]
      exact hfirst o ho (applies_iff_fits.1 happlies)
    · intro o ho happlies
      exact hle o (List.mem_append_right _ (List.mem_cons_of_mem _ ho)) happlies

theorem remapping?_eq_none_iff :
    remapping? project importer specifier = none ↔
      ∀ r ∈ project.remappings, ¬ Fits project importer specifier r := by
  unfold remapping?
  rw [mostSpecific?_eq, firstBest?_eq_none_iff, List.filter_eq_nil_iff]
  simp only [applies_iff_fits]

/-! ## Changes that make no difference

    Only those of the list that fit take part in the choice. One that does not fit drops out
    before it is compared, and one that is exceeded drops out when it is. -/

/-- A project with another list of remappings chooses among those of the list that fit. -/
theorem remapping?_of_list (project : Project) (importer : Path) (specifier : String)
    (remappings : List Remapping) :
    remapping? { project with remappings } importer specifier =
      firstBest? Remapping.rank (remappings.filter (applies project importer specifier)) := by
  unfold remapping?
  rw [mostSpecific?_eq]
  rfl

/-- **Step**: with a remapping that does not count the choice is the same as without it. -/
theorem remapping?_insert (hidle : Idle project importer specifier o) :
    remapping? { project with remappings := before ++ o :: after } importer specifier =
        remapping? project importer specifier ↔
      remapping? { project with remappings := before ++ after } importer specifier =
        remapping? project importer specifier := by
  rw [remapping?_of_list project importer specifier (before ++ o :: after),
    remapping?_of_list project importer specifier (before ++ after), List.filter_append,
    List.filter_append]
  rcases hidle with hfits | ⟨r, hused, hexceeds⟩
  · rw [List.filter_cons_of_neg (mt applies_iff_fits.1 hfits)]
  · by_cases happlies : applies project importer specifier o = true
    · rw [List.filter_cons_of_pos happlies, hused]
      exact firstBest?_insert Remapping.rank (exceeds_iff.1 hexceeds)
    · rw [List.filter_cons_of_neg happlies]

theorem remapping?_again :
    remapping? { project with remappings := before ++ o :: (middle ++ o :: after) } importer
        specifier =
      remapping? { project with remappings := before ++ o :: (middle ++ after) } importer
        specifier := by
  simp only [remapping?_of_list, List.filter_append]
  by_cases happlies : applies project importer specifier o = true
  · simp only [List.filter_cons_of_pos happlies, List.filter_append]
    exact firstBest?_repeat Remapping.rank
  · simp only [List.filter_cons_of_neg happlies, List.filter_append]

theorem remapping?_edit (h : Edit project importer specifier remappings remappings')
    (hsame : remapping? { project with remappings } importer specifier =
      remapping? project importer specifier) :
    remapping? { project with remappings := remappings' } importer specifier =
      remapping? project importer specifier := by
  cases h with
  | insert hidle => exact (remapping?_insert hidle).2 hsame
  | remove hidle => exact (remapping?_insert hidle).1 hsame
  | move hidle hothers =>
    -- Without the one that moves, both lists are the same.
    rw [remapping?_insert hidle, ← hothers, ← remapping?_insert hidle]
    exact hsame
  | again => exact remapping?_again.trans hsame

/-- **Run**: however many of these changes are made, the choice stays the same. -/
theorem remapping?_edits (h : Relation.ReflTransGen (Edit project importer specifier)
    project.remappings remappings) :
    remapping? { project with remappings } importer specifier =
      remapping? project importer specifier := by
  induction h with
  | refl => rfl
  | tail _ hedit ih => exact remapping?_edit hedit ih

/-- The list of remappings matters to an import only by the choice from it. -/
theorem resolve_of_same_choice (reader : SourceReader)
    (h : remapping? { project with remappings } importer specifier =
      remapping? project importer specifier) :
    resolve reader { project with remappings } importer specifier =
      resolve reader project importer specifier := by
  unfold resolve
  rw [h]
  rfl

/-- **Precedence**: an import is rewritten with the remapping that takes precedence, and with
    none exactly if none fits. No number of changes among those that do not count, and no
    repetition further back, makes a difference to the choice or to the path that comes of
    it. -/
theorem precedence_exact (project : Project) (importer : Path) (specifier : String) :
    (∀ r, remapping? project importer specifier = some r ↔
      ∃ before after, Precedes project importer specifier before r after) ∧
    (remapping? project importer specifier = none ↔
      ∀ r ∈ project.remappings, ¬ Fits project importer specifier r) ∧
    (∀ r before after reader, Precedes project importer specifier before r after →
      Text.isBlankText specifier = false →
      resolve reader project importer specifier =
        (within project.root (replaced r specifier) specifier).map
          fun path => { path, kind := .remapped }) ∧
    ∀ remappings, Relation.ReflTransGen (Edit project importer specifier)
        project.remappings remappings →
      remapping? { project with remappings } importer specifier =
          remapping? project importer specifier ∧
        ∀ reader, resolve reader { project with remappings } importer specifier =
          resolve reader project importer specifier := by
  refine ⟨fun r => remapping?_eq_some_iff_precedes, remapping?_eq_none_iff, ?_, ?_⟩
  · intro r before after reader hprecedes hblank
    exact resolve_of_remapping? hblank (remapping?_eq_some_iff_precedes.2 ⟨_, _, hprecedes⟩)
  · intro remappings hedits
    have hsame := remapping?_edits hedits
    exact ⟨hsame, fun reader => resolve_of_same_choice reader hsame⟩

/-! ## Two stems that an import starts with -/

/-- A remapping for a directory of imports. -/
def libTarget : Remapping :=
  { stem := "lib/", target := "all/" }

/-- A remapping for a directory inside of it. -/
def subTarget : Remapping :=
  { stem := "lib/sub/", target := "special/" }

/-- A project with both of them. -/
def nestedStems : Project :=
  { root := ⟨"/proj"⟩, remappings := [libTarget, subTarget] }

/-- The longer stem is used, also after the other one is moved back and an entry repeated. -/
theorem precedence_nestedStems :
    remapping? nestedStems ⟨"/proj/A.sol"⟩ "lib/sub/X.sol" = some subTarget ∧
    resolve ({} : TextStore).reader nestedStems ⟨"/proj/A.sol"⟩ "lib/sub/X.sol" =
      .ok { path := ⟨"/proj/special/X.sol"⟩, kind := .remapped } ∧
    resolve ({} : TextStore).reader
        { nestedStems with remappings := [subTarget, libTarget, subTarget] } ⟨"/proj/A.sol"⟩
        "lib/sub/X.sol" =
      .ok { path := ⟨"/proj/special/X.sol"⟩, kind := .remapped } := by
  obtain ⟨hchoice, -, hresolve, hedits⟩ :=
    precedence_exact nestedStems ⟨"/proj/A.sol"⟩ "lib/sub/X.sol"
  have hexceeds : Exceeds subTarget libTarget := by
    right
    decide +kernel
  have hnot : ∀ o ∈ [libTarget, subTarget], ¬ Exceeds o subTarget := by
    unfold Exceeds
    decide +kernel
  have hprecedes : Precedes nestedStems ⟨"/proj/A.sol"⟩ "lib/sub/X.sol" [libTarget] subTarget
      [] := by
    refine ⟨rfl, applies_iff_fits.1 (by decide +kernel), ?_, ?_⟩
    · intro o ho _
      exact hnot o ho
    · intro o ho _
      rw [List.mem_singleton.1 ho]
      unfold Ties
      decide +kernel
  have hused := (hchoice subTarget).2 ⟨_, _, hprecedes⟩
  have hleads : resolve ({} : TextStore).reader nestedStems ⟨"/proj/A.sol"⟩ "lib/sub/X.sol" =
      .ok { path := ⟨"/proj/special/X.sol"⟩, kind := .remapped } := by
    rw [hresolve _ _ _ _ hprecedes (by decide +kernel)]
    decide +kernel
  have hmove : Edit nestedStems ⟨"/proj/A.sol"⟩ "lib/sub/X.sol"
      ([] ++ libTarget :: [subTarget]) ([subTarget] ++ libTarget :: []) :=
    .move (.inr ⟨subTarget, hused, hexceeds⟩) rfl
  have hagain : Edit nestedStems ⟨"/proj/A.sol"⟩ "lib/sub/X.sol"
      ([] ++ subTarget :: ([libTarget] ++ []))
      ([] ++ subTarget :: ([libTarget] ++ subTarget :: [])) :=
    .again
  have hsame := (hedits _ (.tail (.single hmove) hagain)).2 ({} : TextStore).reader
  exact ⟨hused, hleads, hsame.trans hleads⟩

end Resolution

end SolidityBuild
