import SolidityBuild.Proofs.Path.Names

/-! # Climbing: when a path leads above the directory that it starts from

    A path is read from its start, and a depth is kept that every name raises and every climb
    lowers. The path leads above its start as soon as more climbs than names were read. To
    make a path normal drops such a climb at the root without a word, so it has to be found
    before that.
-/

namespace SolidityBuild.Path

variable {parts : List Part} {base child : Path}

/-- Some way in, a path has climbed more often than it has entered a name. -/
def Overclimbs (parts : List Part) : Prop :=
  ∃ front, front <+: parts ∧ (front.filterMap Part.name?).length < front.count .up

/-- From `depth` names below the root the path leads above the root exactly if it climbs that
    much more often than it enters a name. -/
theorem climbsAbove_go_iff (depth : Nat) :
    climbsAbove.go depth parts = true ↔
      ∃ front, front <+: parts ∧
        depth + (front.filterMap Part.name?).length < front.count .up := by
  -- The parts that were read before count only by the depth that they lead to.
  induction parts generalizing depth with
  | nil => simp [climbsAbove.go]
  | cons part parts ih =>
    have hcons : (∃ front, front <+: part :: parts ∧
          depth + (front.filterMap Part.name?).length < front.count .up) ↔
        ∃ front, front <+: parts ∧
          depth + ((part :: front).filterMap Part.name?).length < (part :: front).count .up := by
      constructor
      · rintro ⟨front, hfront, hcount⟩
        rcases List.prefix_cons_iff.1 hfront with hnil | ⟨rest, hrest, hprefix⟩
        · rw [hnil] at hcount
          simp at hcount
        · rw [hrest] at hcount
          exact ⟨rest, hprefix, hcount⟩
      · rintro ⟨front, hfront, hcount⟩
        exact ⟨part :: front, (List.prefix_cons_inj part).2 hfront, hcount⟩
    rw [hcons]
    cases part with
    | up =>
      have hcount : ∀ front : List Part,
          depth + ((Part.up :: front).filterMap Part.name?).length < (Part.up :: front).count .up ↔
            depth + (front.filterMap Part.name?).length < front.count .up + 1 := by
        intro front
        rw [List.filterMap_cons_none rfl, List.count_cons_self]
      simp only [hcount, climbsAbove.go, Bool.or_eq_true, decide_eq_true_eq, ih]
      by_cases hdepth : depth = 0
      · -- At the root the climb itself is one too many.
        simp only [hdepth, true_or, true_iff]
        exact ⟨[], List.nil_prefix, by simp⟩
      · simp only [hdepth, false_or]
        refine exists_congr fun front => and_congr_right fun _ => ?_
        omega
    | name segment =>
      have hcount : ∀ front : List Part,
          depth + ((Part.name segment :: front).filterMap Part.name?).length <
              (Part.name segment :: front).count .up ↔
            depth + 1 + (front.filterMap Part.name?).length < front.count .up := by
        intro front
        have hname : Part.name? (.name segment) = some segment := rfl
        rw [List.filterMap_cons_some hname, List.count_cons_of_ne (by simp), List.length_cons]
        omega
      simp only [hcount, climbsAbove.go, ih]
    -- How a path starts is neither entered nor climbed out of.
    | root => simp [climbsAbove.go, ih, List.filterMap_cons, Part.name?]
    | here => simp [climbsAbove.go, ih, List.filterMap_cons, Part.name?]

/-- **Climbing**: the depth that is kept finds exactly the paths with too many climbs. -/
theorem climbsAbove_iff : climbsAbove parts = true ↔ Overclimbs parts := by
  unfold climbsAbove Overclimbs
  rw [climbsAbove_go_iff]
  simp only [Nat.zero_add]

/-- Whether a path is refused: it starts at the root and leads above it. -/
def refused (p : Path) : Bool :=
  p.isAbsolute && climbsAbove p.parts

theorem refused_iff {p : Path} (h : p.isAbsolute) : p.refused = true ↔ Overclimbs p.parts := by
  unfold refused
  rw [h, Bool.true_and]
  exact climbsAbove_iff

theorem joinWithin?_eq (base child : Path) :
    base.joinWithin? child =
      if (base.join child).refused = true then none else some (base.join child).normalize :=
  rfl

/-- What does not climb at all does not lead above its start. -/
theorem not_overclimbs (hup : .up ∉ parts) : ¬ Overclimbs parts := by
  intro ⟨front, hfront, hcount⟩
  have hnone : front.count .up = 0 :=
    List.count_eq_zero_of_not_mem fun hmem => hup (hfront.subset hmem)
  omega

end SolidityBuild.Path
