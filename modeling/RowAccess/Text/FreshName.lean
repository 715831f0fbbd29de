/-!
# Fresh names

A name that is already taken is told apart by a number: `name`, `name_2`, `name_3` and so on.
As many names with a number as there are taken names are enough, because not all of them and
the name itself can be taken.

Main results:

- `freshName_eq_self`: a name that is not taken is kept.
- `freshName_not_mem`: the name chosen is not taken.
- `freshName_eq_candidate`: it is the first one tried that is not taken.
- `dot_not_mem_freshName`: a dot-free name stays without a dot.
-/

namespace RowAccess.Text

/-- A name with a number. -/
def withNumber (name : String) (n : Nat) : String := name ++ "_" ++ toString n

/-- The names that are tried: the preferred one, then the same with the numbers from 2 on,
one for each taken name. -/
def candidates (taken : List String) (preferred : String) : List String :=
  preferred :: (List.range taken.length).map fun i => withNumber preferred (i + 2)

/-- The first candidate that is not taken. -/
def freshName (taken : List String) (preferred : String) : String :=
  ((candidates taken preferred).find? fun name => name ∉ taken).getD preferred

/-- A name that is not taken is kept. -/
theorem freshName_eq_self {taken : List String} {preferred : String} (h : preferred ∉ taken) :
    freshName taken preferred = preferred := by
  simp [freshName, candidates, h]

/-- Different numbers make different names. -/
theorem withNumber_inj {name : String} {m n : Nat} :
    withNumber name m = withNumber name n ↔ m = n := by
  constructor
  · intro h
    have digits := congrArg String.toList h
    simp only [withNumber, String.toList_append, List.append_cancel_left_eq] at digits
    have same : Nat.toDigits 10 m = Nat.toDigits 10 n := by simpa using digits
    rw [← @Nat.ofDigitChars_ten_toDigits m, same, Nat.ofDigitChars_ten_toDigits]
  · rintro rfl
    rfl

/-- A name with a number is another name. -/
theorem withNumber_ne_self (name : String) (n : Nat) : withNumber name n ≠ name := by
  intro h
  have := congrArg (List.length ∘ String.toList) h
  simp [withNumber] at this

/-- No candidate is tried twice. -/
theorem nodup_candidates (taken : List String) (preferred : String) :
    (candidates taken preferred).Nodup := by
  refine List.nodup_cons.2 ⟨fun h => ?_, ?_⟩
  · obtain ⟨i, -, hi⟩ := List.mem_map.1 h
    exact withNumber_ne_self preferred (i + 2) hi
  · refine List.Pairwise.map _ (fun i j hij h => hij ?_) List.nodup_range
    exact Nat.add_right_cancel (withNumber_inj.1 h)

/-- The name chosen is not taken. -/
theorem freshName_not_mem (taken : List String) (preferred : String) :
    freshName taken preferred ∉ taken := by
  unfold freshName
  cases h : (candidates taken preferred).find? fun name => name ∉ taken with
  | some name => simpa using List.find?_some h
  | none =>
    have all : candidates taken preferred ⊆ taken := fun name hname => by
      simpa using List.find?_eq_none.1 h name hname
    have bound := (nodup_candidates taken preferred).length_le_of_subset all
    simp only [candidates, List.length_cons, List.length_map, List.length_range] at bound
    exact absurd bound (Nat.not_succ_le_self _)

/-- The name that is tried after so many others. -/
def candidate (preferred : String) : Nat → String
  | 0 => preferred
  | k + 1 => withNumber preferred (k + 2)

theorem candidates_eq (taken : List String) (preferred : String) :
    candidates taken preferred = (List.range (taken.length + 1)).map (candidate preferred) := by
  rw [candidates, List.range_succ_eq_map, List.map_cons, List.map_map]
  rfl

/-- The names are tried one after the other until one is not taken, which takes at most one try
more than there are taken names. -/
theorem freshName_eq_candidate (taken : List String) (preferred : String) :
    ∃ k ≤ taken.length, freshName taken preferred = candidate preferred k ∧
      candidate preferred k ∉ taken ∧ ∀ i < k, candidate preferred i ∈ taken := by
  have fresh := freshName_not_mem taken preferred
  rw [freshName, candidates_eq, List.find?_map] at fresh ⊢
  cases h : (List.range (taken.length + 1)).find?
      ((fun name => decide (name ∉ taken)) ∘ candidate preferred) with
  | none =>
    -- The preferred name itself is tried, so it would be taken.
    have tried := List.find?_eq_none.1 h 0 (List.mem_range.2 (Nat.succ_pos _))
    rw [h] at fresh
    have taken : candidate preferred 0 ∈ taken := by simpa using tried
    exact absurd taken fresh
  | some k =>
    obtain ⟨free, bound, earlier⟩ := List.find?_range_eq_some.1 h
    refine ⟨k, Nat.lt_succ_iff.1 (List.mem_range.1 bound), rfl, of_decide_eq_true free, ?_⟩
    intro i hi
    simpa using earlier i hi

/-- The name chosen is the preferred one, alone or with a number. -/
theorem freshName_eq_or (taken : List String) (preferred : String) :
    freshName taken preferred = preferred ∨
      ∃ n, freshName taken preferred = withNumber preferred n := by
  unfold freshName
  cases h : (candidates taken preferred).find? fun name => name ∉ taken with
  | none => exact .inl rfl
  | some name =>
    rcases List.mem_cons.1 (List.mem_of_find?_eq_some h) with rfl | numbered
    · exact .inl rfl
    · obtain ⟨i, -, rfl⟩ := List.mem_map.1 numbered
      exact .inr ⟨i + 2, rfl⟩

/-- A dot-free name stays without a dot. -/
theorem dot_not_mem_freshName {preferred : String} (h : '.' ∉ preferred.toList)
    (taken : List String) : '.' ∉ (freshName taken preferred).toList := by
  rcases freshName_eq_or taken preferred with same | ⟨n, numbered⟩
  · rw [same]
    exact h
  · have digits : '.' ∉ Nat.toDigits 10 n := by
      intro dot
      have := Nat.isDigit_of_mem_toDigits (by decide) (by decide) dot
      exact absurd this (by decide)
    rw [numbered, withNumber]
    simp [h, digits]

end RowAccess.Text
