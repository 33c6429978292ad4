import Mathlib.Data.List.Nodup
import SolidityBuild.Compiler.Output

/-! # Contracts of an output: no two of one source and name

    An object may repeat a name, but only its last value counts. So the sources of an output
    are distinct and the contracts of a source are.
-/

namespace SolidityBuild.CompilerOutput

theorem exists_of_mem_mapM {f : α → Option β} {xs : List α} {ys : List β} {y : β}
    (h : xs.mapM f = some ys) (hy : y ∈ ys) : ∃ x ∈ xs, f x = some y := by
  induction xs generalizing ys with
  | nil =>
    rw [List.mapM_nil] at h
    cases h
    cases hy
  | cons x xs ih =>
    rw [List.mapM_cons] at h
    obtain ⟨first, hfirst, h⟩ := Option.bind_eq_some_iff.1 h
    obtain ⟨rest, hrest, h⟩ := Option.bind_eq_some_iff.1 h
    cases h
    rcases List.mem_cons.1 hy with rfl | hy
    · exact ⟨x, List.mem_cons_self .., hfirst⟩
    · obtain ⟨x', hx', hy'⟩ := ih hrest hy
      exact ⟨x', List.mem_cons_of_mem _ hx', hy'⟩

/-- The members of an object have distinct names and decoded values. -/
theorem members?_spec {decode : Json → Option α} {j : Json} {members : List (String × α)}
    (h : members? decode j = some members) :
    (members.map Prod.fst).Nodup ∧ ∀ member ∈ members, ∃ j, decode j = some member.2 := by
  cases j with
  | object fields =>
    obtain ⟨pairs, hpairs, h⟩ := Option.bind_eq_some_iff.1 h
    cases h
    refine ⟨ByName.nodup_sort pairs, ?_⟩
    intro member hmember
    obtain ⟨⟨name, j⟩, -, hj⟩ := exists_of_mem_mapM hpairs (ByName.mem_of_mem_sort hmember)
    obtain ⟨name', -, hj⟩ := Option.bind_eq_some_iff.1 hj
    obtain ⟨value, hvalue, hj⟩ := Option.bind_eq_some_iff.1 hj
    cases hj
    exact ⟨j, hvalue⟩
  | _ => cases h

theorem nodup_contracts? {j? : Option Json} {contracts : List Contract}
    (h : contracts? j? = some contracts) :
    (contracts.map fun c => (c.source, c.name)).Nodup := by
  cases j? with
  | none =>
    cases h
    exact List.nodup_nil
  | some j =>
    obtain ⟨sources, hsources, h⟩ := Option.bind_eq_some_iff.1 h
    cases h
    obtain ⟨hdistinct, hdecoded⟩ := members?_spec hsources
    rw [List.map_flatMap, List.nodup_flatMap]
    constructor
    · rintro ⟨source, contracts⟩ hsource
      obtain ⟨j, hj⟩ := hdecoded _ hsource
      have hnames := (members?_spec hj).1
      rw [List.Nodup, List.pairwise_map] at hnames
      rw [List.Nodup, List.map_map, List.pairwise_map]
      exact hnames.imp fun hne heq => hne (Prod.mk.inj heq).2
    · rw [List.Nodup, List.pairwise_map] at hdistinct
      refine hdistinct.imp ?_
      rintro ⟨source, contracts⟩ ⟨source', contracts'⟩ hne pair hpair hpair'
      obtain ⟨c, hc, rfl⟩ := List.mem_map.1 hpair
      obtain ⟨c', hc', heq⟩ := List.mem_map.1 hpair'
      obtain ⟨member, -, rfl⟩ := List.mem_map.1 hc
      obtain ⟨member', -, rfl⟩ := List.mem_map.1 hc'
      exact hne (Prod.mk.inj heq).1.symm

/-- No two contracts of an output have one source and one name. -/
theorem nodup_contracts {text : String} {output : CompilerOutput}
    (h : ofText? text = some output) :
    (output.contracts.map fun c => (c.source, c.name)).Nodup := by
  obtain ⟨j, -, h⟩ := Option.bind_eq_some_iff.1 h
  obtain ⟨fields, -, h⟩ := Option.bind_eq_some_iff.1 h
  split at h
  · obtain ⟨errors, -, h⟩ := Option.bind_eq_some_iff.1 h
    obtain ⟨contracts, hcontracts, h⟩ := Option.bind_eq_some_iff.1 h
    cases h
    exact nodup_contracts? hcontracts
  · cases h

end SolidityBuild.CompilerOutput
