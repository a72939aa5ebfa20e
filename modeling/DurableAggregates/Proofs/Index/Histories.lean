import DurableAggregates.Proofs.Index.Entries

/-!
# The index answers by its history

A history of the index is a row of operations from the empty index, and the changes that these are made of: dropping
the keys that are not stored is to forget them one after another, in whatever order (`Edit.Makes`). The index says
that an exchange is under a key if and only if the exchange was last noted under that key and nothing has put an end
to it since (`keyFor?_by_history`). One lemma says what a single operation does to an entry (`Edit.Makes.keyFor?_iff`).
-/

namespace DurableAggregates.ExchangeIndex

/-! ## Changes and operations -/

/-- A change of the index. -/
inductive Change where
  | insert (key : CorrelationKey) (id : String)
  | forget (key : CorrelationKey)
  | forgetId (id : String)

def Change.apply : Change → ExchangeIndex → ExchangeIndex
  | .insert key id, x => x.insert key id
  | .forget key, x => x.forget key
  | .forgetId id, x => x.forgetId id

/-- The index after a row of changes, the last first. -/
def after : List Change → ExchangeIndex
  | [] => {}
  | c :: cs => c.apply (after cs)

/-- An operation on the index. -/
inductive Edit where
  | insert (key : CorrelationKey) (id : String)
  | forget (key : CorrelationKey)
  | forgetId (id : String)
  | retainKeys (stored : KeySet)

def Edit.apply : Edit → ExchangeIndex → ExchangeIndex
  | .insert key id, x => x.insert key id
  | .forget key, x => x.forget key
  | .forgetId id, x => x.forgetId id
  | .retainKeys stored, x => x.retainKeys stored

/-- The changes that an operation makes, the first first. Keys that are not stored are forgotten in any order. -/
inductive Edit.Makes (x : ExchangeIndex) : Edit → List Change → Prop where
  | insert (key : CorrelationKey) (id : String) : Makes x (.insert key id) [.insert key id]
  | forget (key : CorrelationKey) : Makes x (.forget key) [.forget key]
  | forgetId (id : String) : Makes x (.forgetId id) [.forgetId id]
  | retainKeys {stored : KeySet} {gone : List CorrelationKey}
      (h : gone.Perm (x.byKey.keys.filter fun key => !stored.contains key)) :
      Makes x (.retainKeys stored) (gone.map .forget)

/-- A history of the index: the operations and the changes that they made, both the last first. -/
inductive Edited : List Edit → List Change → Prop where
  | nil : Edited [] []
  | edit {es : List Edit} {cs : List Change} {e : Edit} {row : List Change} (h : Edited es cs)
      (hrow : e.Makes (after cs) row) : Edited (e :: es) (row.reverse ++ cs)

variable {x : ExchangeIndex} {key k : CorrelationKey} {id i : String} {e : Edit} {row : List Change}
  {es : List Edit} {cs : List Change}

theorem after_append (row cs : List Change) :
    after (row.reverse ++ cs) = row.foldl (fun x c => c.apply x) (after cs) := by
  induction row generalizing cs with
  | nil => rfl
  | cons c row ih =>
    rw [List.reverse_cons, List.append_assoc]
    exact ih (c :: cs)

theorem foldl_forget (gone : List CorrelationKey) (x : ExchangeIndex) :
    (gone.map Change.forget).foldl (fun x c => c.apply x) x = gone.foldl forget x := by
  rw [List.foldl_map]
  rfl

/-- What an operation does is made of changes. -/
theorem Edit.exists_makes (e : Edit) (x : ExchangeIndex) :
    ∃ row, e.Makes x row ∧ row.foldl (fun x c => c.apply x) x = e.apply x := by
  cases e with
  | insert key id => exact ⟨_, .insert key id, rfl⟩
  | forget key => exact ⟨_, .forget key, rfl⟩
  | forgetId id => exact ⟨_, .forgetId id, rfl⟩
  | retainKeys stored => exact ⟨_, .retainKeys (.refl _), foldl_forget ..⟩

theorem Edited.exists_edit (h : Edited es cs) (e : Edit) :
    ∃ cs', Edited (e :: es) cs' ∧ after cs' = e.apply (after cs) := by
  obtain ⟨row, hrow, happly⟩ := e.exists_makes (after cs)
  exact ⟨_, h.edit hrow, (after_append row cs).trans happly⟩

/-- What the operations themselves do is one of the histories. -/
theorem exists_edited (es : List Edit) : ∃ cs, Edited es cs ∧ after cs = es.foldr Edit.apply {} := by
  induction es with
  | nil => exact ⟨[], .nil, rfl⟩
  | cons e es ih =>
    obtain ⟨cs, h, hcs⟩ := ih
    rw [List.foldr_cons, ← hcs]
    exact h.exists_edit e

/-! ## Forgetting a row of keys -/

theorem Paired.foldl_forget (h : x.Paired) (gone : List CorrelationKey) :
    (gone.foldl ExchangeIndex.forget x).Paired :=
  List.foldlRecOn gone ExchangeIndex.forget h fun _ hy key _ => hy.forget key

theorem byKey_foldl_forget (x : ExchangeIndex) (gone : List CorrelationKey) (k : CorrelationKey) :
    (gone.foldl forget x).byKey[k]? = if k ∈ gone then none else x.byKey[k]? := by
  induction gone generalizing x with
  | nil => rw [if_neg List.not_mem_nil]; rfl
  | cons key gone ih =>
    rw [List.foldl_cons, ih, byKey_forget]
    by_cases hk : k ∈ gone
    · rw [if_pos hk, if_pos (List.mem_cons_of_mem key hk)]
    · simp only [List.mem_cons, hk, or_false, if_false, eq_comm]

theorem Paired.keyFor?_foldl_forget_eq_some (h : x.Paired) (gone : List CorrelationKey) :
    (gone.foldl ExchangeIndex.forget x).keyFor? i = some k ↔ x.keyFor? i = some k ∧ k ∉ gone := by
  induction gone generalizing x with
  | nil => simp
  | cons key gone ih =>
    rw [List.foldl_cons, ih (h.forget key), h.keyFor?_forget_eq_some, List.mem_cons, not_or, and_assoc]

/-- The keys that are forgotten are those with an entry that are not stored. -/
theorem mem_gone {stored : KeySet} {gone : List CorrelationKey}
    (h : gone.Perm (x.byKey.keys.filter fun key => !stored.contains key)) :
    k ∈ gone ↔ (∃ id, x.byKey[k]? = some id) ∧ k ∉ stored := by
  rw [h.mem_iff, List.mem_filter, Std.ExtTreeMap.mem_keys, Std.ExtTreeMap.mem_iff_isSome_getElem?,
    Option.isSome_iff_exists, Bool.not_eq_true', ← Bool.not_eq_true, Std.ExtTreeSet.contains_iff_mem]

/-! ## One operation -/

/-- Whether an operation ends that an exchange was last noted under a key, and is there. -/
def Edit.Ends (key : CorrelationKey) (id : String) : Edit → Prop
  | .insert k i => i = id ∨ k = key
  | .forget k => k = key
  | .forgetId i => i = id
  | .retainKeys stored => key ∉ stored

theorem Edit.Makes.paired (h : e.Makes (after cs) row) (hp : (after cs).Paired) :
    (after (row.reverse ++ cs)).Paired := by
  rw [after_append]
  cases h with
  | insert key id => exact hp.insert key id
  | forget key => exact hp.forget key
  | forgetId id => exact hp.forgetId id
  | @retainKeys stored gone _ =>
    rw [ExchangeIndex.foldl_forget]
    exact hp.foldl_forget gone

/-- An exchange is under a key after an operation that has noted it there, or has not ended that it is there. -/
theorem Edit.Makes.keyFor?_iff (h : e.Makes (after cs) row) (hp : (after cs).Paired) :
    (after (row.reverse ++ cs)).keyFor? id = some key ↔
      e = .insert key id ∨ ¬e.Ends key id ∧ (after cs).keyFor? id = some key := by
  rw [after_append]
  cases h with
  | insert k i =>
    show ((after cs).insert k i).keyFor? id = some key ↔ _
    rw [hp.keyFor?_insert_eq_some]
    simp only [Edit.insert.injEq, Ends, not_or, and_assoc, eq_comm, ne_eq]
    exact or_congr and_comm Iff.rfl
  | forget k =>
    show ((after cs).forget k).keyFor? id = some key ↔ _
    rw [hp.keyFor?_forget_eq_some, Ends]
    simp [and_comm, eq_comm]
  | forgetId i =>
    show ((after cs).forgetId i).keyFor? id = some key ↔ _
    rw [keyFor?_forgetId, Ends]
    by_cases hi : i = id <;> simp [hi]
  | @retainKeys stored gone hgone =>
    rw [ExchangeIndex.foldl_forget, hp.keyFor?_foldl_forget_eq_some, mem_gone hgone, Ends]
    constructor
    · rintro ⟨hid, hk⟩
      refine .inr ⟨fun hs => hk ⟨⟨id, hp id key hid⟩, hs⟩, hid⟩
    · rintro (hinsert | ⟨hs, hid⟩)
      · cases hinsert
      · exact ⟨hid, fun hk => hs hk.2⟩

/-! ## Histories -/

/-- The exchange was last noted under the key, and none of the later operations has ended that. -/
def LastUnder (es : List Edit) (id : String) (key : CorrelationKey) : Prop :=
  ∃ later earlier, es = later ++ .insert key id :: earlier ∧ ∀ e ∈ later, ¬e.Ends key id

theorem lastUnder_cons :
    LastUnder (e :: es) id key ↔ e = .insert key id ∨ ¬e.Ends key id ∧ LastUnder es id key := by
  constructor
  · rintro ⟨later, earlier, hes, hlater⟩
    cases later with
    | nil =>
      cases hes
      exact .inl rfl
    | cons e' later =>
      cases hes
      exact .inr ⟨hlater e (List.mem_cons_self ..), later, earlier, rfl,
        fun e he => hlater e (List.mem_cons_of_mem _ he)⟩
  · rintro (rfl | ⟨he, later, earlier, rfl, hlater⟩)
    · exact ⟨[], es, rfl, fun _ h => absurd h List.not_mem_nil⟩
    · exact ⟨e :: later, earlier, rfl, List.forall_mem_cons.2 ⟨he, hlater⟩⟩

theorem Edited.paired (h : Edited es cs) : (after cs).Paired := by
  induction h with
  | nil => exact paired_empty
  | edit _ hrow ih => exact hrow.paired ih

theorem Edited.keyFor?_iff (h : Edited es cs) : (after cs).keyFor? id = some key ↔ LastUnder es id key := by
  induction h with
  | nil => simp [after, keyFor?, LastUnder]
  | edit h hrow ih => rw [hrow.keyFor?_iff h.paired, lastUnder_cons, ih]

/-- What is left of an index when the keys that are not stored have been dropped. -/
structure Retained (stored : KeySet) (x y : ExchangeIndex) : Prop where
  byId : ∀ id key, y.keyFor? id = some key → key ∈ stored
  byKey : ∀ key id, y.byKey[key]? = some id → key ∈ stored
  /-- The answers for stored keys are as before, by id and by key. -/
  keyFor? : ∀ key ∈ stored, ∀ id, y.keyFor? id = some key ↔ x.keyFor? id = some key
  kept : ∀ key ∈ stored, y.byKey[key]? = x.byKey[key]?

theorem Edit.Makes.retained {stored : KeySet} (h : (Edit.retainKeys stored).Makes (after cs) row)
    (hp : (after cs).Paired) : Retained stored (after cs) (after (row.reverse ++ cs)) := by
  have hkey (key : CorrelationKey) : (after (row.reverse ++ cs)).byKey[key]? =
      if key ∈ stored then (after cs).byKey[key]? else none := by
    cases h with
    | retainKeys hgone =>
      rw [after_append, ExchangeIndex.foldl_forget, byKey_foldl_forget]
      by_cases hs : key ∈ stored
      · rw [if_neg (fun hk => ((mem_gone hgone).1 hk).2 hs), if_pos hs]
      · rw [if_neg hs, ite_eq_left_iff]
        intro hk
        exact Option.eq_none_iff_forall_ne_some.2 fun id hid => hk ((mem_gone hgone).2 ⟨⟨id, hid⟩, hs⟩)
  have hid (id : String) (key : CorrelationKey) : (after (row.reverse ++ cs)).keyFor? id = some key ↔
      key ∈ stored ∧ (after cs).keyFor? id = some key := by
    rw [h.keyFor?_iff hp]
    simp [Ends]
  constructor
  · intro id key hk
    exact ((hid id key).1 hk).1
  · intro key id hk
    rw [hkey] at hk
    split at hk
    · assumption
    · cases hk
  · intro key hs id
    rw [hid, and_iff_right hs]
  · intro key hs
    rw [hkey, if_pos hs]

/-- How the answers of an index are given by the operations that made it. -/
structure AnswersFor (es : List Edit) (cs : List Change) : Prop where
  /-- An exchange is found under the key that it was last noted under, until that is ended. -/
  keyFor?_iff : ∀ id key, (after cs).keyFor? id = some key ↔ LastUnder es id key
  byKey : ∀ id key, (after cs).keyFor? id = some key → (after cs).byKey[key]? = some id
  /-- Two exchanges are never found under one key. -/
  unshared : ∀ id i key, (after cs).keyFor? id = some key → (after cs).keyFor? i = some key → id = i
  retained : ∀ stored row, (Edit.retainKeys stored).Makes (after cs) row →
    Retained stored (after cs) (after (row.reverse ++ cs))

/--
Whatever operations made an index, and in whatever order keys that are not stored were dropped, an exchange is found
under a key if and only if it was last noted under that key, and since then neither another exchange was noted under
the key, nor was the key forgotten or the id dropped, nor the key missing when the stored keys were retained.
-/
theorem keyFor?_by_history :
    (∀ es, ∃ cs, Edited es cs ∧ after cs = es.foldr Edit.apply {}) ∧ ∀ es cs, Edited es cs → AnswersFor es cs := by
  refine ⟨exists_edited, fun es cs h => ?_⟩
  constructor
  · intro id key
    exact h.keyFor?_iff
  · exact h.paired
  · intro id i key hid hi
    exact h.paired.id_eq hid hi
  · intro stored row hrow
    exact hrow.retained h.paired

/-- An exchange that moved to a second key is found there, also when the first key is not stored any more. -/
theorem keyFor?_by_history_moved :
    ∃ es cs, Edited es cs ∧
      es = [.retainKeys {⟨"second"⟩}, .insert ⟨"second"⟩ "exchange", .insert ⟨"first"⟩ "exchange"] ∧
      (after cs).keyFor? "exchange" = some ⟨"second"⟩ := by
  obtain ⟨cs, h, -⟩ := keyFor?_by_history.1
    [.retainKeys {⟨"second"⟩}, .insert ⟨"second"⟩ "exchange", .insert ⟨"first"⟩ "exchange"]
  refine ⟨_, cs, h, rfl, ((keyFor?_by_history.2 _ _ h).keyFor?_iff _ _).2 ?_⟩
  refine ⟨[.retainKeys {⟨"second"⟩}], [.insert ⟨"first"⟩ "exchange"], rfl, fun e he => ?_⟩
  rw [List.mem_singleton.1 he]
  show ¬(⟨"second"⟩ : CorrelationKey) ∉ ({⟨"second"⟩} : KeySet)
  decide

end DurableAggregates.ExchangeIndex
