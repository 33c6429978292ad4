/-! # Named pairs: lists kept in the order of their names -/

namespace SolidityBuild.ByName

/-- The first value of a name. -/
def get? (name : String) : List (String × α) → Option α
  | [] => none
  | (other, v) :: rest => if other = name then some v else get? name rest

/-- One more pair, before the first greater name; an equal name is replaced. -/
def insert (name : String) (v : α) : List (String × α) → List (String × α)
  | [] => [(name, v)]
  | (other, w) :: rest =>
    if name = other then (name, v) :: rest
    else if name < other then (name, v) :: (other, w) :: rest
    else (other, w) :: insert name v rest

/-- The pairs of other names. -/
def erase (name : String) (pairs : List (String × α)) : List (String × α) :=
  pairs.filter fun (other, _) => other ≠ name

/-- Pairs in the order of their names, the last of each name. -/
def sort (pairs : List (String × α)) : List (String × α) :=
  pairs.foldl (fun sorted (name, v) => insert name v sorted) []

/-! ## Look-up -/

theorem get?_eq_lookup (name : String) (pairs : List (String × α)) :
    get? name pairs = pairs.lookup name := by
  induction pairs with
  | nil => rfl
  | cons pair rest ih =>
    obtain ⟨other, v⟩ := pair
    rw [get?, ih, List.lookup_cons]
    by_cases h : other = name
    · rw [if_pos h, beq_iff_eq.2 h.symm]
    · rw [if_neg h, beq_eq_false_iff_ne.2 (Ne.symm h)]

theorem get?_insert_self (name : String) (v : α) (pairs : List (String × α)) :
    get? name (insert name v pairs) = some v := by
  induction pairs with
  | nil => simp [insert, get?]
  | cons pair rest ih =>
    obtain ⟨other, w⟩ := pair
    simp only [insert]
    split
    · simp [get?]
    · rename_i hne
      split
      · simp [get?]
      · simp [get?, ih, Ne.symm hne]

theorem get?_insert_ne {name key : String} (h : key ≠ name) (v : α)
    (pairs : List (String × α)) : get? key (insert name v pairs) = get? key pairs := by
  induction pairs with
  | nil => simp [insert, get?, h.symm]
  | cons pair rest ih =>
    obtain ⟨other, w⟩ := pair
    simp only [insert]
    split
    · rename_i heq
      subst heq
      simp [get?, h.symm]
    · split
      · simp [get?, h.symm]
      · simp [get?, ih]

theorem mem_of_get? {name : String} {v : α} {pairs : List (String × α)}
    (h : get? name pairs = some v) : (name, v) ∈ pairs := by
  rw [get?_eq_lookup, List.lookup_eq_some_iff] at h
  obtain ⟨front, behind, rfl, -⟩ := h
  exact List.mem_append_right _ (List.mem_cons_self ..)

theorem exists_get?_of_mem {name : String} {pairs : List (String × α)}
    (h : name ∈ pairs.map Prod.fst) : ∃ v, get? name pairs = some v := by
  obtain ⟨pair, hpair, rfl⟩ := List.mem_map.1 h
  rw [get?_eq_lookup, ← Option.isSome_iff_exists, List.lookup_isSome_iff]
  exact ⟨pair, hpair, BEq.rfl⟩

/-! ## The order of the names -/

theorem mem_insert {name : String} {v : α} {pairs : List (String × α)} {pair : String × α}
    (h : pair ∈ insert name v pairs) : pair = (name, v) ∨ pair ∈ pairs := by
  induction pairs with
  | nil => exact .inl (List.mem_singleton.1 h)
  | cons head rest ih =>
    obtain ⟨other, w⟩ := head
    simp only [insert] at h
    split at h
    · rcases List.mem_cons.1 h with rfl | h
      · exact .inl rfl
      · exact .inr (List.mem_cons_of_mem _ h)
    · split at h
      · exact List.mem_cons.1 h
      · rcases List.mem_cons.1 h with rfl | h
        · exact .inr (List.mem_cons_self ..)
        · exact (ih h).imp_right (List.mem_cons_of_mem _)

/-- Pairs in the order of their names stay so when one is inserted. -/
theorem pairwise_insert {name : String} {v : α} {pairs : List (String × α)}
    (h : pairs.Pairwise (·.1 < ·.1)) : (insert name v pairs).Pairwise (·.1 < ·.1) := by
  induction pairs with
  | nil => exact List.pairwise_singleton ..
  | cons head rest ih =>
    obtain ⟨other, w⟩ := head
    obtain ⟨hhead, hrest⟩ := List.pairwise_cons.1 h
    by_cases heq : name = other
    · subst heq
      rw [insert, if_pos rfl]
      exact List.pairwise_cons.2 ⟨hhead, hrest⟩
    · by_cases hlt : name < other
      · rw [insert, if_neg heq, if_pos hlt]
        refine List.pairwise_cons.2 ⟨?_, h⟩
        intro pair hpair
        rcases List.mem_cons.1 hpair with rfl | hpair
        · exact hlt
        · exact String.lt_trans hlt (hhead pair hpair)
      · rw [insert, if_neg heq, if_neg hlt]
        refine List.pairwise_cons.2 ⟨?_, ih hrest⟩
        intro pair hpair
        rcases mem_insert hpair with rfl | hpair
        · exact Std.lt_of_le_of_ne (Std.not_lt.1 hlt) (Ne.symm heq)
        · exact hhead pair hpair

theorem mem_of_mem_sort {pairs : List (String × α)} {pair : String × α} (h : pair ∈ sort pairs) :
    pair ∈ pairs := by
  have hfold : ∀ sorted : List (String × α),
      pair ∈ pairs.foldl (fun sorted (name, v) => insert name v sorted) sorted →
        pair ∈ sorted ∨ pair ∈ pairs := by
    clear h
    induction pairs with
    | nil => exact fun _ h => .inl h
    | cons head rest ih =>
      intro sorted hmem
      rcases ih _ hmem with hmem | hmem
      · rcases mem_insert hmem with rfl | hmem
        · exact .inr (List.mem_cons_self ..)
        · exact .inl hmem
      · exact .inr (List.mem_cons_of_mem _ hmem)
  exact (hfold [] h).resolve_left List.not_mem_nil

/-- Sorted pairs have distinct names. -/
theorem nodup_sort (pairs : List (String × α)) : ((sort pairs).map Prod.fst).Nodup := by
  have hsorted : ∀ sorted : List (String × α), sorted.Pairwise (·.1 < ·.1) →
      (pairs.foldl (fun sorted (name, v) => insert name v sorted) sorted).Pairwise
        (·.1 < ·.1) := by
    induction pairs with
    | nil => exact fun _ h => h
    | cons pair rest ih => exact fun sorted h => ih _ (pairwise_insert h)
  rw [List.Nodup, List.pairwise_map]
  exact (hsorted [] List.Pairwise.nil).imp fun h => Std.ne_of_lt h

end SolidityBuild.ByName
