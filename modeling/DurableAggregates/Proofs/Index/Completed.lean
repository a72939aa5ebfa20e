import DurableAggregates.Proofs.Index.Entries

/-!
# The completed ids of the index

An id is completed when its key is forgotten, and it is live again when it is noted anew. Nothing else makes an id
completed (`isCompleted_of_forget`); the eviction of the oldest ids only takes some away (`isCompleted_of_evict`).
-/

namespace DurableAggregates.ExchangeIndex

variable {x : ExchangeIndex} {key : CorrelationKey} {id i : String}

@[simp] theorem completed_dropId (x : ExchangeIndex) (id : String) (key : CorrelationKey) :
    (x.dropId id key).completed = x.completed := by
  unfold dropId
  split <;> rfl

/-- What is left of a set after some ids were erased was in it before. -/
theorem mem_of_mem_foldl_erase {ids : List String} {completed : Std.ExtTreeSet String compare}
    (h : i ∈ ids.foldl .erase completed) : i ∈ completed := by
  induction ids generalizing completed with
  | nil => exact h
  | cons id ids ih => exact Std.ExtTreeSet.mem_of_mem_erase (ih h)

theorem isCompleted_of_evict (h : x.evict.isCompleted i = true) : x.isCompleted i = true := by
  simp only [isCompleted, evict, Std.ExtTreeSet.contains_iff_mem] at h ⊢
  exact mem_of_mem_foldl_erase h

theorem isCompleted_of_complete (h : (x.complete id).isCompleted i = true) :
    x.isCompleted i = true ∨ i = id := by
  unfold complete at h
  split at h
  · exact .inl h
  · have hi : i ∈ x.completed.insert id := isCompleted_of_evict h
    rw [Std.ExtTreeSet.mem_insert, Std.LawfulEqCmp.compare_eq_iff_eq] at hi
    exact hi.symm.imp_right Eq.symm

/-- A key that is forgotten completes the id that it was noted with and no other. -/
theorem isCompleted_of_forget (h : (x.forget key).isCompleted i = true) :
    x.isCompleted i = true ∨ x.byKey[key]? = some i := by
  unfold forget at h
  cases hk : x.byKey[key]? with
  | none =>
    rw [hk] at h
    exact .inl h
  | some id =>
    rw [hk] at h
    apply (isCompleted_of_complete h).imp
    · intro hi
      rwa [isCompleted, completed_dropId] at hi
    · intro hi
      rw [hi]

theorem isCompleted_of_foldl_forget {gone : List CorrelationKey} (h : (gone.foldl forget x).isCompleted i = true) :
    x.isCompleted i = true ∨ ∃ key ∈ gone, x.byKey[key]? = some i := by
  induction gone generalizing x with
  | nil => exact .inl h
  | cons k gone ih =>
    rcases ih h with hk | ⟨key, hmem, hi⟩
    · exact (isCompleted_of_forget hk).imp_right fun hi => ⟨k, List.mem_cons_self .., hi⟩
    · rw [byKey_forget] at hi
      split at hi
      · cases hi
      · exact .inr ⟨key, List.mem_cons_of_mem k hmem, hi⟩

/-- A list of keys completes the ids of the keys that are not in it. -/
theorem isCompleted_of_retainKeys {stored : KeySet} (h : (x.retainKeys stored).isCompleted i = true) :
    x.isCompleted i = true ∨ ∃ key, stored.contains key = false ∧ x.byKey[key]? = some i := by
  refine (isCompleted_of_foldl_forget h).imp_right fun ⟨key, hmem, hi⟩ => ⟨key, ?_, hi⟩
  simpa using (List.mem_filter.1 hmem).2

@[simp] theorem isCompleted_revive (x : ExchangeIndex) (id i : String) :
    (x.revive id).isCompleted i = (decide (i ≠ id) && x.isCompleted i) := by
  unfold revive
  by_cases h : x.isCompleted id = true
  · rw [if_pos h, isCompleted, Std.ExtTreeSet.contains_erase]
    by_cases hi : i = id
    · simp [hi]
    · simp [hi, Ne.symm hi, isCompleted]
  · rw [if_neg h]
    by_cases hi : i = id
    · simpa [hi] using h
    · simp [hi]

/-- An id that is noted is not completed; no other id becomes completed or live by it. -/
theorem isCompleted_insert (x : ExchangeIndex) (key : CorrelationKey) (id i : String) :
    (x.insert key id).isCompleted i = (decide (i ≠ id) && x.isCompleted i) := by
  unfold insert
  dsimp only
  rw [isCompleted_revive]
  congr 1
  cases hk : x.byKey[key]? with
  | none => rfl
  | some previous =>
    dsimp only
    split
    · rfl
    · rw [isCompleted, completed_dropId]
      rfl

/-- An id that is dropped for another exchange under its key stays as completed as it was. -/
@[simp] theorem isCompleted_forgetId (x : ExchangeIndex) (id i : String) :
    (x.forgetId id).isCompleted i = x.isCompleted i := by
  unfold forgetId
  split
  · next key _ =>
    unfold dropKey
    split <;> rfl
  · rfl

end DurableAggregates.ExchangeIndex
