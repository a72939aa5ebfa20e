import DurableAggregates.Repository.Index

/-!
# The entries of the index

The index keeps its entries twice, by id and by key. What each operation does to either half is a lookup formula
(`keyFor?_insert`, `keyFor?_forget`, `keyFor?_forgetId`, and those of `byKey`). The halves may differ in one direction
only: an entry by id has its counterpart by key (`Paired`), but a key can go on naming an id that was added elsewhere
since. Every operation keeps this.
-/

namespace DurableAggregates.ExchangeIndex

variable {x : ExchangeIndex} {key k : CorrelationKey} {id i : String}

/-! ## The completed ids do not matter -/

@[simp] theorem byId_complete (x : ExchangeIndex) (id : String) : (x.complete id).byId = x.byId := by
  unfold complete evict
  split
  · rfl
  · dsimp only

@[simp] theorem byKey_complete (x : ExchangeIndex) (id : String) : (x.complete id).byKey = x.byKey := by
  unfold complete evict
  split
  · rfl
  · dsimp only

@[simp] theorem byId_revive (x : ExchangeIndex) (id : String) : (x.revive id).byId = x.byId := by
  unfold revive
  split <;> rfl

@[simp] theorem byKey_revive (x : ExchangeIndex) (id : String) : (x.revive id).byKey = x.byKey := by
  unfold revive
  split <;> rfl

/-! ## Lookups -/

@[simp] theorem byKey_dropId (x : ExchangeIndex) (id : String) (key : CorrelationKey) :
    (x.dropId id key).byKey = x.byKey := by
  unfold dropId
  split <;> rfl

theorem byId_dropId (x : ExchangeIndex) (id : String) (key : CorrelationKey) (i : String) :
    (x.dropId id key).byId[i]? = if i = id ∧ x.byId[i]? = some key then none else x.byId[i]? := by
  unfold dropId
  by_cases h : x.byId[id]? = some key
  · rw [if_pos h, Std.ExtTreeMap.getElem?_erase]
    by_cases hi : i = id
    · subst hi
      simp [h]
    · simp [hi, Ne.symm hi]
  · rw [if_neg h, if_neg]
    rintro ⟨rfl, hi⟩
    exact h hi

@[simp] theorem byId_dropKey (x : ExchangeIndex) (key : CorrelationKey) (id : String) :
    (x.dropKey key id).byId = x.byId := by
  unfold dropKey
  split <;> rfl

theorem byKey_dropKey (x : ExchangeIndex) (key : CorrelationKey) (id : String) (k : CorrelationKey) :
    (x.dropKey key id).byKey[k]? = if k = key ∧ x.byKey[k]? = some id then none else x.byKey[k]? := by
  unfold dropKey
  by_cases h : x.byKey[key]? = some id
  · rw [if_pos h, Std.ExtTreeMap.getElem?_erase]
    by_cases hk : k = key
    · subst hk
      simp [h]
    · simp [hk, Ne.symm hk]
  · rw [if_neg h, if_neg]
    rintro ⟨rfl, hk⟩
    exact h hk

theorem byKey_insert (x : ExchangeIndex) (key : CorrelationKey) (id : String) (k : CorrelationKey) :
    (x.insert key id).byKey[k]? = if key = k then some id else x.byKey[k]? := by
  have hc : ∀ y : ExchangeIndex, y.byKey = x.byKey →
      (({ y with byId := y.byId.insert id key, byKey := y.byKey.insert key id } : ExchangeIndex).revive id).byKey[k]? =
        if key = k then some id else x.byKey[k]? := by
    intro y hy
    rw [byKey_revive, hy]
    simp [Std.ExtTreeMap.getElem?_insert]
  unfold insert
  cases hp : x.byKey[key]? with
  | none => exact hc x rfl
  | some previous =>
    refine hc _ ?_
    dsimp only
    split
    · rfl
    · exact byKey_dropId x previous key

/-- The exchange that was added under the key before, if there is one, loses its entry. -/
theorem keyFor?_insert (x : ExchangeIndex) (key : CorrelationKey) (id i : String) :
    (x.insert key id).keyFor? i =
      if id = i then some key else if x.byKey[key]? = some i ∧ x.keyFor? i = some key then none else x.keyFor? i := by
  have hc : ∀ y : ExchangeIndex,
      (({ y with byId := y.byId.insert id key, byKey := y.byKey.insert key id } : ExchangeIndex).revive id).keyFor? i =
        if id = i then some key else y.keyFor? i := by
    intro y
    rw [keyFor?, byId_revive]
    simp [Std.ExtTreeMap.getElem?_insert, keyFor?]
  unfold insert
  dsimp only
  rw [hc]
  by_cases hi : id = i
  · rw [if_pos hi, if_pos hi]
  rw [if_neg hi, if_neg hi]
  cases hp : x.byKey[key]? with
  | none => simp
  | some previous =>
    dsimp only
    by_cases hid : previous = id
    · rw [if_pos hid, if_neg]
      rintro ⟨h, -⟩
      exact hi (hid.symm.trans (Option.some.inj h))
    · rw [if_neg hid, keyFor?, byId_dropId, keyFor?]
      simp only [Option.some.injEq, eq_comm]

theorem byKey_forget (x : ExchangeIndex) (key k : CorrelationKey) :
    (x.forget key).byKey[k]? = if key = k then none else x.byKey[k]? := by
  unfold forget
  cases h : x.byKey[key]? with
  | none =>
    by_cases hk : key = k
    · rw [if_pos hk, ← hk]
      exact h
    · rw [if_neg hk]
  | some id => simp [Std.ExtTreeMap.getElem?_erase]

theorem keyFor?_forget (x : ExchangeIndex) (key : CorrelationKey) (i : String) :
    (x.forget key).keyFor? i = if x.byKey[key]? = some i ∧ x.keyFor? i = some key then none else x.keyFor? i := by
  unfold forget
  cases h : x.byKey[key]? with
  | none => simp
  | some id =>
    dsimp only
    rw [keyFor?, byId_complete, byId_dropId, keyFor?]
    simp only [Option.some.injEq, eq_comm]

theorem keyFor?_forgetId (x : ExchangeIndex) (id i : String) :
    (x.forgetId id).keyFor? i = if id = i then none else x.keyFor? i := by
  unfold forgetId
  cases h : x.byId[id]? with
  | none =>
    by_cases hi : id = i
    · rw [if_pos hi, ← hi]
      exact h
    · rw [if_neg hi]
  | some key => simp [keyFor?, Std.ExtTreeMap.getElem?_erase]

theorem byKey_forgetId (x : ExchangeIndex) (id : String) (k : CorrelationKey) :
    (x.forgetId id).byKey[k]? = if x.keyFor? id = some k ∧ x.byKey[k]? = some id then none else x.byKey[k]? := by
  unfold forgetId
  rw [keyFor?]
  cases h : x.byId[id]? with
  | none => simp
  | some key =>
    dsimp only
    rw [byKey_dropKey]
    simp only [Option.some.injEq, eq_comm]

/-! ## Entries and their counterparts -/

/-- Every entry by id has its counterpart by key. -/
def Paired (x : ExchangeIndex) : Prop := ∀ id key, x.keyFor? id = some key → x.byKey[key]? = some id

theorem paired_empty : Paired {} := by
  intro id key h
  simp [keyFor?] at h

/-- The entry of a key belongs to one id. -/
theorem Paired.id_eq (h : x.Paired) (hi : x.keyFor? id = some key) (hj : x.keyFor? i = some key) : id = i := by
  have hk := h id key hi
  rw [h i key hj] at hk
  exact (Option.some.inj hk).symm

/-- An entry that is left after a key was forgotten is for another key. -/
theorem Paired.keyFor?_forget_eq_some (h : x.Paired) :
    (x.forget key).keyFor? i = some k ↔ x.keyFor? i = some k ∧ k ≠ key := by
  rw [keyFor?_forget]
  constructor
  · intro hi
    split at hi
    · cases hi
    · next hn =>
      refine ⟨hi, fun hk => hn ?_⟩
      subst hk
      exact ⟨h i k hi, hi⟩
  · rintro ⟨hi, hk⟩
    rw [if_neg, hi]
    rintro ⟨-, hj⟩
    rw [hi] at hj
    exact hk (Option.some.inj hj)

theorem Paired.keyFor?_insert_eq_some (h : x.Paired) :
    (x.insert key id).keyFor? i = some k ↔ (i = id ∧ k = key) ∨ (i ≠ id ∧ k ≠ key ∧ x.keyFor? i = some k) := by
  rw [keyFor?_insert]
  by_cases hid : id = i
  · subst hid
    simp [eq_comm]
  · rw [if_neg hid]
    constructor
    · intro hi
      split at hi
      · cases hi
      · next hn =>
        refine .inr ⟨Ne.symm hid, fun hk => hn ?_, hi⟩
        subst hk
        exact ⟨h i k hi, hi⟩
    · rintro (⟨rfl, -⟩ | ⟨-, hk, hi⟩)
      · exact absurd rfl hid
      · rw [if_neg, hi]
        rintro ⟨-, hj⟩
        rw [hi] at hj
        exact hk (Option.some.inj hj)

theorem Paired.insert (h : x.Paired) (key : CorrelationKey) (id : String) : (x.insert key id).Paired := by
  intro i k hi
  rw [byKey_insert]
  rcases h.keyFor?_insert_eq_some.1 hi with ⟨rfl, rfl⟩ | ⟨-, hk, hi⟩
  · rw [if_pos rfl]
  · rw [if_neg hk.symm]
    exact h i k hi

theorem Paired.forget (h : x.Paired) (key : CorrelationKey) : (x.forget key).Paired := by
  intro i k hi
  obtain ⟨hi, hk⟩ := h.keyFor?_forget_eq_some.1 hi
  rw [byKey_forget, if_neg hk.symm]
  exact h i k hi

theorem Paired.forgetId (h : x.Paired) (id : String) : (x.forgetId id).Paired := by
  intro i k hi
  rw [keyFor?_forgetId] at hi
  split at hi
  · cases hi
  · next hid =>
    rw [byKey_forgetId, if_neg]
    · exact h i k hi
    · rintro ⟨hj, -⟩
      exact hid (h.id_eq hj hi)

/-- What every forgetting keeps holds after all keys that are not stored were forgotten. -/
theorem retainKeys_induction {P : ExchangeIndex → Prop} (hx : P x) (hstep : ∀ y key, P y → P (y.forget key))
    (stored : KeySet) : P (x.retainKeys stored) :=
  List.foldlRecOn _ forget hx fun y hy key _ => hstep y key hy

end DurableAggregates.ExchangeIndex
