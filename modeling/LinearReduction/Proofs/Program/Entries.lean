import LinearReduction.Program.Basic

/-!
# Lists of coefficients

What leaving out, negating and adding coefficients does to a list in which no ordinal occurs twice.
Main statements: membership after each of these changes, and looking up a coefficient as membership.
-/

namespace LinearReduction

namespace Entries

variable {α : Type} {entries : Entries α} {k l : Nat} {value : α}

theorem mem_ordinals : k ∈ entries.ordinals ↔ ∃ value, (k, value) ∈ entries := by
  simp [ordinals]

theorem mem_ordinals_of_mem (listed : (k, value) ∈ entries) : k ∈ entries.ordinals :=
  mem_ordinals.2 ⟨value, listed⟩

theorem mentions_iff : entries.mentions k = true ↔ k ∈ entries.ordinals := by
  simp [mentions, ordinals]

theorem mentions_eq_false_iff : entries.mentions k = false ↔ k ∉ entries.ordinals := by
  rw [← mentions_iff, Bool.not_eq_true]

theorem value_unique (distinct : entries.ordinals.Nodup) {other : α}
    (listed : (k, value) ∈ entries) (also : (k, other) ∈ entries) : value = other := by
  induction entries with
  | nil => cases listed
  | cons first rest inductionHypothesis =>
    obtain ⟨absent, distinct⟩ := List.nodup_cons.1 distinct
    -- The first entry is the only one with its ordinal, so that both entries are the first one or neither is.
    rcases List.mem_cons.1 listed with rfl | listed <;> rcases List.mem_cons.1 also with same | also
    · exact (Prod.mk.inj same).2.symm
    · exact absurd (mem_ordinals_of_mem also) absent
    · rw [← same] at absent
      exact absurd (mem_ordinals_of_mem listed) absent
    · exact inductionHypothesis distinct listed also

theorem lookup_eq_some_iff (distinct : entries.ordinals.Nodup) :
    entries.lookup k = some value ↔ (k, value) ∈ entries := by
  constructor
  · intro found
    obtain ⟨before, after, rfl, _⟩ := List.lookup_eq_some_iff.1 found
    simp
  · intro listed
    cases found : entries.lookup k with
    | none =>
      have absent := List.lookup_eq_none_iff.1 found _ listed
      simp at absent
    | some other =>
      obtain ⟨before, after, rfl, _⟩ := List.lookup_eq_some_iff.1 found
      have also : (k, other) ∈ before ++ (k, other) :: after := by simp
      rw [value_unique distinct listed also]

theorem lookup_eq_none_iff : entries.lookup k = none ↔ k ∉ entries.ordinals := by
  rw [List.lookup_eq_none_iff, mem_ordinals]
  constructor
  · rintro absent ⟨value, listed⟩
    simpa using absent _ listed
  · intro absent entry listed
    rw [bne_iff_ne]
    rintro rfl
    exact absent ⟨entry.2, listed⟩

/-! ## Leaving out a coefficient -/

theorem erase_of_not_mem (absent : k ∉ entries.ordinals) : entries.erase k = entries := by
  apply List.eraseP_of_forall_not
  rintro ⟨l, value⟩ listed same
  obtain rfl : l = k := by simpa using same
  exact absent (mem_ordinals_of_mem listed)

theorem erase_eq_filter (distinct : entries.ordinals.Nodup) (k : Nat) :
    entries.erase k = entries.filter fun entry => !(entry.1 == k) := by
  induction entries with
  | nil => rfl
  | cons first rest inductionHypothesis =>
    obtain ⟨absent, distinct⟩ := List.nodup_cons.1 distinct
    rw [List.filter_cons, ← inductionHypothesis distinct]
    by_cases same : first.1 = k
    · subst same
      have left_out : Entries.erase (first :: rest) first.1 = rest := by simp [Entries.erase]
      rw [left_out, erase_of_not_mem absent]
      simp
    · simp [Entries.erase, same]

theorem ordinals_erase (entries : Entries α) (k : Nat) :
    (entries.erase k).ordinals = entries.ordinals.erase k := by
  induction entries with
  | nil => rfl
  | cons first rest inductionHypothesis =>
    by_cases same : first.1 = k
    · simp [erase, ordinals, same]
    · simp only [erase, ordinals] at inductionHypothesis
      simp [erase, ordinals, same, inductionHypothesis]

theorem nodup_erase (distinct : entries.ordinals.Nodup) (k : Nat) : (entries.erase k).ordinals.Nodup := by
  rw [ordinals_erase]
  exact distinct.erase k

theorem mem_erase (distinct : entries.ordinals.Nodup) :
    (l, value) ∈ entries.erase k ↔ l ≠ k ∧ (l, value) ∈ entries := by
  by_cases same : l = k
  · subst same
    have absent : l ∉ (entries.erase l).ordinals := by
      rw [ordinals_erase]
      exact distinct.not_mem_erase
    simp only [ne_eq, not_true_eq_false, false_and, iff_false]
    exact fun listed => absent (mem_ordinals_of_mem listed)
  · simp [erase, List.mem_eraseP_of_neg, same]

theorem mem_ordinals_erase (distinct : entries.ordinals.Nodup) :
    l ∈ (entries.erase k).ordinals ↔ l ≠ k ∧ l ∈ entries.ordinals := by
  simp only [mem_ordinals, mem_erase distinct, exists_and_left]

/-! ## Negating coefficients -/

section

variable [Neg α]

@[simp] theorem ordinals_negate (entries : Entries α) : entries.negate.ordinals = entries.ordinals := by
  simp [ordinals, negate, Function.comp_def]

@[simp] theorem ordinals_negateAt (entries : Entries α) (k : Nat) :
    (entries.negateAt k).ordinals = entries.ordinals := by
  simp only [ordinals, negateAt, List.map_map]
  apply List.map_congr_left
  rintro ⟨l, value⟩ _
  by_cases same : l = k <;> simp [same]

theorem mem_negate : (l, value) ∈ entries.negate ↔ ∃ other, (l, other) ∈ entries ∧ value = -other := by
  simp only [negate, List.mem_map, Prod.exists, Prod.mk.injEq]
  constructor
  · rintro ⟨_, other, listed, rfl, rfl⟩
    exact ⟨other, listed, rfl⟩
  · rintro ⟨other, listed, rfl⟩
    exact ⟨l, other, listed, rfl, rfl⟩

theorem mem_negateAt : (l, value) ∈ entries.negateAt k ↔
    ∃ other, (l, other) ∈ entries ∧ value = if l = k then -other else other := by
  simp only [negateAt, List.mem_map, Prod.exists]
  constructor
  · rintro ⟨m, other, listed, image⟩
    by_cases same : m = k <;> simp only [same, if_true, if_false, Prod.mk.injEq] at image <;>
      obtain ⟨rfl, rfl⟩ := image
    · exact ⟨other, same ▸ listed, by simp⟩
    · exact ⟨other, listed, by simp [same]⟩
  · rintro ⟨other, listed, rfl⟩
    refine ⟨l, other, listed, ?_⟩
    by_cases same : l = k <;> simp [same]

theorem negateAt_of_not_mem (absent : k ∉ entries.ordinals) : entries.negateAt k = entries := by
  refine (List.map_congr_left ?_).trans (List.map_id entries)
  -- No entry has the ordinal, so that none is negated.
  rintro ⟨l, value⟩ listed
  have apart : l ≠ k := by
    rintro rfl
    exact absent (mem_ordinals_of_mem listed)
  simp [apart]

end

/-! ## Adding a coefficient -/

theorem ordinals_append (entries others : Entries α) :
    Entries.ordinals (entries ++ others) = entries.ordinals ++ others.ordinals := by
  simp [ordinals]

theorem nodup_append_singleton (distinct : entries.ordinals.Nodup) (absent : k ∉ entries.ordinals) :
    Entries.ordinals (entries ++ [(k, value)]) |>.Nodup := by
  simp only [ordinals, List.map_append, List.map_cons, List.map_nil, List.nodup_append]
  refine ⟨distinct, by simp, ?_⟩
  rintro l listed m single same
  simp only [List.mem_singleton] at single
  exact absent (single ▸ same ▸ listed)

end Entries

end LinearReduction
