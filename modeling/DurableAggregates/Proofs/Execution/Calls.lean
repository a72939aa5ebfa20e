import DurableAggregates.Proofs.Execution.Basic
import DurableAggregates.Proofs.Order

/-!
# Calls of the store in an environment

What each call answers and what it does to the entries. Reading a key depends on the faults of the moment and on its
own entry only (`result_get`); reading and listing leave all entries alone; a removal that fails leaves them alone,
and one that succeeds takes out one key (`data_after_remove_ok`). A call that is repeated may meet other faults, so of
two readings of an untouched key one can fail and the other not.
-/

namespace DurableAggregates

/-- The snapshot that a stored entry stands for, if it stands for one. -/
def Store.snapshot? (s : Store) (key : CorrelationKey) : Option Snapshot :=
  match s.data[key]? with
  | some bytes => (Snapshot.decode bytes).toOption
  | none => none

/-- The entry of a key stands for no snapshot. -/
def Store.Unreadable (s : Store) (key : CorrelationKey) : Prop :=
  ∃ bytes e, s.data[key]? = some bytes ∧ Snapshot.decode bytes = .error e

/-- All entries stand for snapshots. -/
def Store.Sound (s : Store) : Prop := ∀ (key : CorrelationKey), key ∈ s.data → (s.snapshot? key).isSome

namespace Store

variable {s : Store} {key : CorrelationKey}

theorem decodeEntry_eq_ok_none {entry : Option (List UInt8)} (h : decodeEntry entry = .ok none) : entry = none := by
  cases entry with
  | none => rfl
  | some bytes =>
    simp only [decodeEntry] at h
    split at h <;> cases h

theorem decodeEntry_eq_ok_some {entry : Option (List UInt8)} {x : Snapshot} (h : decodeEntry entry = .ok (some x)) :
    ∃ bytes, entry = some bytes ∧ Snapshot.decode bytes = .ok x := by
  cases entry with
  | none => cases h
  | some bytes =>
    simp only [decodeEntry] at h
    split at h
    · next hd => cases h; exact ⟨bytes, rfl, hd⟩
    · cases h

theorem snapshot?_eq_some {x : Snapshot} :
    s.snapshot? key = some x ↔ ∃ bytes, s.data[key]? = some bytes ∧ Snapshot.decode bytes = .ok x := by
  unfold snapshot?
  cases s.data[key]? with
  | none => simp
  | some bytes => cases h : Snapshot.decode bytes <;> simp [Except.toOption, h]

theorem data_ne_none_of_snapshot? {x : Snapshot} (h : s.snapshot? key = some x) : s.data[key]? ≠ none := by
  obtain ⟨bytes, hb, -⟩ := snapshot?_eq_some.1 h
  rw [hb]
  exact Option.some_ne_none bytes

theorem mem_of_snapshot? {x : Snapshot} (h : s.snapshot? key = some x) : key ∈ s.data := by
  rw [Std.ExtTreeMap.mem_iff_isSome_getElem?]
  exact Option.isSome_iff_ne_none.2 (data_ne_none_of_snapshot? h)

theorem snapshot?_eq_none (h : key ∉ s.data) : s.snapshot? key = none := by
  unfold snapshot?
  rw [Std.ExtTreeMap.getElem?_eq_none h]

theorem Unreadable.snapshot?_eq_none (h : s.Unreadable key) : s.snapshot? key = none := by
  obtain ⟨bytes, e, hb, hd⟩ := h
  simp [snapshot?, hb, hd, Except.toOption]

theorem snapshot?_congr {t : Store} (h : t.data[key]? = s.data[key]?) : t.snapshot? key = s.snapshot? key := by
  unfold snapshot?
  rw [h]

theorem mem_congr {t : Store} (h : t.data[key]? = s.data[key]?) : key ∈ t.data ↔ key ∈ s.data := by
  rw [Std.ExtTreeMap.mem_iff_isSome_getElem?, h, ← Std.ExtTreeMap.mem_iff_isSome_getElem?]

theorem sound_empty : ({} : Store).Sound := fun key hk => by simp at hk

/-- A sound store reads every entry. -/
theorem Sound.decodeEntry (h : s.Sound) (key : CorrelationKey) :
    decodeEntry s.data[key]? = .ok (s.snapshot? key) := by
  cases hb : s.data[key]? with
  | none => simp [Store.decodeEntry, snapshot?, hb]
  | some bytes =>
    have hs := h key (Std.ExtTreeMap.mem_iff_isSome_getElem?.2 (by rw [hb]; rfl))
    cases hd : Snapshot.decode bytes with
    | ok x => simp [Store.decodeEntry, snapshot?, hb, hd, Except.toOption]
    | error e => simp [snapshot?, hb, hd, Except.toOption] at hs

/-! ## Single calls -/

theorem get_eq (s : Store) (key : CorrelationKey) : s.get key =
    match s.fault? .get key with
    | some e => (.error e, { s with calls := { s.calls with gets := s.calls.gets + 1 } })
    | none => (decodeEntry s.data[key]?, { s with calls := { s.calls with gets := s.calls.gets + 1 } }) := rfl

theorem remove_eq (s : Store) (key : CorrelationKey) : s.remove key =
    match s.fault? .remove key with
    | some e => (.error e, { s with calls := { s.calls with removes := s.calls.removes + 1 } })
    | none => (.ok (), { s with
        data := s.data.erase key
        calls := { s.calls with removes := s.calls.removes + 1 } }) := rfl

theorem put_eq (s : Store) (key : CorrelationKey) (v : Snapshot) : s.put key v =
    match s.fault? .put key with
    | some e => (.error e, { s with calls := { s.calls with puts := s.calls.puts + 1 } })
    | none => (decodeEntry s.data[key]?, { s with
        data := s.data.insert key v.encode
        calls := { s.calls with puts := s.calls.puts + 1 } }) := rfl

/-! ## The list of keys -/

theorem mem_listed : key ∈ s.listed ↔ key ∈ s.faults.phantoms ∨ key ∈ s.data := by
  unfold listed
  rw [Std.ExtTreeSet.mem_toList, Std.ExtTreeSet.mem_insertMany_list, List.contains_iff_mem, Std.ExtTreeMap.mem_keys]

theorem nodup_listed : s.listed.Nodup :=
  Std.ExtTreeSet.distinct_toList.imp fun {a b} h e => h (by rw [e]; exact Std.ReflOrd.compare_self)

/-- Without phantoms the keys of the entries are listed, in their order. -/
theorem listed_eq_keys (h : s.faults.phantoms = ∅) : s.listed = s.data.keys := by
  apply eq_of_ordered id Std.ExtTreeSet.ordered_toList Std.ExtTreeMap.ordered_keys
  intro key
  rw [← listed, mem_listed, h, Std.ExtTreeMap.mem_keys]
  simp

end Store

/-! ## Calls now -/

namespace Environment

open Store

variable {env : Environment} {w : World} {key : CorrelationKey}

@[simp] theorem letters_after (c : Store.Call) : (env.after w c).letters = w.letters := rfl

@[simp] theorem handed_after (c : Store.Call) : (env.after w c).handed = w.handed := rfl

/-- The fault that a call meets now. -/
def fault? (env : Environment) (w : World) (call : Store.KeyedCall) (key : CorrelationKey) : Option StoreError :=
  (env.storeNow w).fault? call key

theorem fault?_eq_none_of_healthy (h : env.Healthy) (call : Store.KeyedCall) : env.fault? w call key = none := by
  simp [fault?, Store.fault?, storeNow, h w.moment]

theorem result_get : env.result w (.get key) =
    match env.fault? w .get key with
    | some e => .error e
    | none => decodeEntry w.store.data[key]? := by
  show ((env.storeNow w).get key).1 = _
  rw [Store.get_eq, fault?]
  cases (env.storeNow w).fault? .get key <;> rfl

@[simp] theorem data_after_get : (env.after w (.get key)).store.data = w.store.data := by
  show ((env.storeNow w).get key).2.data = _
  rw [Store.get_eq]
  cases (env.storeNow w).fault? .get key <;> rfl

/-- A reading that finds nothing tells that nothing is stored. -/
theorem data_of_result_get_none (h : env.result w (.get key) = .ok none) : w.store.data[key]? = none := by
  rw [result_get] at h
  split at h
  · cases h
  · exact decodeEntry_eq_ok_none h

/-- A reading that finds a snapshot finds what the entry stands for. -/
theorem snapshot?_of_result_get {x : Snapshot} (h : env.result w (.get key) = .ok (some x)) :
    w.store.snapshot? key = some x := by
  rw [result_get] at h
  split at h
  · cases h
  · exact snapshot?_eq_some.2 (decodeEntry_eq_ok_some h)

@[simp] theorem data_after_keys : (env.after w .keys).store.data = w.store.data := by
  show (env.storeNow w).keys.2.data = _
  unfold Store.keys
  dsimp only
  split <;> rfl

theorem result_keys : env.result w .keys =
    if (env.faults w.moment).unavailable then .error (.unavailable "in-memory store offline")
    else .ok (env.storeNow w).listed := by
  show (env.storeNow w).keys.1 = _
  unfold Store.keys
  dsimp only [storeNow]
  split <;> rfl

/-- The keys that are listed are the stored ones and the phantoms, each once. -/
theorem mem_of_result_keys {stored : List CorrelationKey} (h : env.result w .keys = .ok stored) :
    stored.Nodup ∧ ∀ key, key ∈ stored ↔ key ∈ (env.faults w.moment).phantoms ∨ key ∈ w.store.data := by
  rw [result_keys] at h
  split at h
  · cases h
  · cases h
    exact ⟨nodup_listed, fun key => mem_listed⟩

/-- A removal succeeds unless it meets a fault, and then takes out the key. -/
theorem data_after_remove_ok (h : env.result w (.remove key) = .ok ()) :
    (env.after w (.remove key)).store.data = w.store.data.erase key := by
  replace h : ((env.storeNow w).remove key).1 = .ok () := h
  show ((env.storeNow w).remove key).2.data = _
  rw [Store.remove_eq] at h ⊢
  cases hf : (env.storeNow w).fault? .remove key with
  | none => rfl
  | some e => rw [hf] at h; cases h

theorem data_after_remove_error {e : StoreError} (h : env.result w (.remove key) = .error e) :
    (env.after w (.remove key)).store.data = w.store.data := by
  replace h : ((env.storeNow w).remove key).1 = .error e := h
  show ((env.storeNow w).remove key).2.data = _
  rw [Store.remove_eq] at h ⊢
  cases hf : (env.storeNow w).fault? .remove key with
  | none => rw [hf] at h; cases h
  | some e => rfl

theorem result_put (env : Environment) (w : World) (key : CorrelationKey) (v : Snapshot) :
    env.result w (.put key v) = match env.fault? w .put key with
    | some e => .error e
    | none => decodeEntry w.store.data[key]? := by
  show ((env.storeNow w).put key v).1 = _
  rw [Store.put_eq, fault?]
  cases (env.storeNow w).fault? .put key <;> rfl

/-- The entry that a put replaces cannot be read if the put fails without a fault. -/
theorem unreadable_of_result_put {v : Snapshot} {f : StoreError} (h : env.result w (.put key v) = .error f)
    (hf : env.fault? w .put key = none) : w.store.Unreadable key := by
  rw [result_put, hf] at h
  cases hb : w.store.data[key]? with
  | none =>
    rw [hb] at h
    cases h
  | some bytes =>
    rw [hb] at h
    cases hd : Snapshot.decode bytes with
    | ok x => simp [decodeEntry, hd] at h
    | error g => exact ⟨bytes, g, hb, hd⟩

/-- A put replaces the entry unless it meets a fault. It can still fail then, by the entry that it replaced. -/
theorem data_after_put (env : Environment) (w : World) (key : CorrelationKey) (v : Snapshot) :
    (env.after w (.put key v)).store.data = match env.fault? w .put key with
    | some _ => w.store.data
    | none => w.store.data.insert key v.encode := by
  show ((env.storeNow w).put key v).2.data = _
  rw [Store.put_eq, fault?]
  cases (env.storeNow w).fault? .put key <;> rfl

/-- A put leaves all other keys alone. -/
theorem data_after_put_of_ne {k : CorrelationKey} (hk : k ≠ key) (v : Snapshot) :
    (env.after w (.put key v)).store.data[k]? = w.store.data[k]? := by
  rw [data_after_put]
  split
  · rfl
  · simp [Std.ExtTreeMap.getElem?_insert, hk.symm]

/-- A removal leaves all other keys alone. -/
theorem data_after_remove_of_ne {k : CorrelationKey} (hk : k ≠ key) :
    (env.after w (.remove key)).store.data[k]? = w.store.data[k]? := by
  cases hx : env.result w (.remove key) with
  | error e => rw [data_after_remove_error hx]
  | ok u =>
    rw [data_after_remove_ok hx]
    simp [Std.ExtTreeMap.getElem?_erase, hk.symm]

/-! ### Without faults -/

/-- Without faults only an entry that stands for no snapshot cannot be read. -/
theorem decode_of_result_get {e : StoreError} (h : env.Healthy) (hg : env.result w (.get key) = .error e) :
    ∃ bytes f, w.store.data[key]? = some bytes ∧ Snapshot.decode bytes = .error f := by
  rw [result_get, fault?_eq_none_of_healthy h] at hg
  cases hb : w.store.data[key]? with
  | none => rw [hb] at hg; cases hg
  | some bytes =>
    cases hd : Snapshot.decode bytes with
    | ok v => simp [hb, decodeEntry, hd] at hg
    | error f => exact ⟨bytes, f, rfl, hd⟩

theorem not_healthy_of_result_get {e : StoreError} {v : Snapshot} (hv : w.store.snapshot? key = some v)
    (hg : env.result w (.get key) = .error e) : ¬ env.Healthy := by
  intro h
  obtain ⟨bytes, f, hb, hf⟩ := decode_of_result_get h hg
  obtain ⟨bytes', hb', hv'⟩ := snapshot?_eq_some.1 hv
  rw [hb] at hb'
  cases hb'
  rw [hf] at hv'
  cases hv'

/-- A reading of an entry that stands for a snapshot finds it or meets a fault. -/
theorem result_get_of_snapshot? (env : Environment) {v : Snapshot} (hv : w.store.snapshot? key = some v) :
    env.result w (.get key) = .ok (some v) ∨ ∃ e, env.result w (.get key) = .error e ∧ ¬ env.Healthy := by
  cases hg : env.result w (.get key) with
  | error e => exact .inr ⟨e, rfl, not_healthy_of_result_get hv hg⟩
  | ok found =>
    cases found with
    | none => exact absurd (data_of_result_get_none hg) (Store.data_ne_none_of_snapshot? hv)
    | some x =>
      rw [← snapshot?_of_result_get hg, hv]
      exact .inl rfl

theorem result_get_of_healthy (h : env.Healthy) (hs : w.store.Sound) :
    env.result w (.get key) = .ok (w.store.snapshot? key) := by
  rw [result_get, fault?_eq_none_of_healthy h]
  exact hs.decodeEntry key

theorem result_remove_of_healthy (h : env.Healthy) : env.result w (.remove key) = .ok () := by
  have hf : (env.storeNow w).fault? .remove key = none := fault?_eq_none_of_healthy h ..
  show ((env.storeNow w).remove key).1 = _
  rw [Store.remove_eq, hf]

theorem not_healthy_of_result_keys {e : StoreError} (hk : env.result w .keys = .error e) : ¬ env.Healthy := by
  intro h
  rw [result_keys, h w.moment] at hk
  cases hk

theorem not_healthy_of_result_remove {e : StoreError} (hx : env.result w (.remove key) = .error e) :
    ¬ env.Healthy := by
  intro h
  rw [result_remove_of_healthy h] at hx
  cases hx

theorem result_put_of_healthy (h : env.Healthy) (hs : w.store.Sound) (v : Snapshot) :
    env.result w (.put key v) = .ok (w.store.snapshot? key) := by
  rw [result_put, fault?_eq_none_of_healthy h]
  exact hs.decodeEntry key

theorem data_after_put_of_healthy (h : env.Healthy) (v : Snapshot) :
    (env.after w (.put key v)).store.data = w.store.data.insert key v.encode := by
  rw [data_after_put, fault?_eq_none_of_healthy h]

theorem result_keys_eq_of_healthy (h : env.Healthy) : env.result w .keys = .ok w.store.data.keys := by
  have hl : (env.storeNow w).listed = w.store.data.keys := listed_eq_keys (by rw [storeNow, h w.moment])
  rw [result_keys, h w.moment, hl]
  rfl

theorem result_keys_of_healthy (h : env.Healthy) :
    ∃ stored, env.result w .keys = .ok stored ∧ stored.Nodup ∧ ∀ key, key ∈ stored ↔ key ∈ w.store.data :=
  ⟨_, result_keys_eq_of_healthy h, Std.ExtTreeMap.nodup_keys, fun _ => Std.ExtTreeMap.mem_keys⟩

end Environment

end DurableAggregates
