import DurableAggregates.Proofs.Execution.Calls
import DurableAggregates.Proofs.Execution.Enumeration

/-!
# Confirming an exchange

A confirmation has several ways to locate the key of an exchange, and each depends on the index, on the store, or on
both. They are the cases of `Located` (`locate_exec`); only faults and broken entries make it fail. The search finds a
key if one holds the exchange (`search_exec`). `World.Reads` says that only reading calls lie between two worlds.
-/

namespace DurableAggregates

/-! ## Reading -/

/-- Some reading calls lie between two worlds. -/
structure World.Reads (w v : World) : Prop where
  data : v.store.data = w.store.data
  letters : v.letters = w.letters
  handed : v.handed = w.handed

/-- The snapshot stored under the key has the id. -/
def World.Holds (w : World) (key : CorrelationKey) (id : String) : Prop :=
  ∃ v, w.store.snapshot? key = some v ∧ v.id = id

/-- Nothing stands in the way of a reading. -/
def Environment.Clear (env : Environment) (w : World) : Prop := env.Healthy ∧ w.store.Sound

namespace World

variable {env : Environment} {u v w : World} {key : CorrelationKey} {id : String}

instance (w : World) (key : CorrelationKey) (id : String) : Decidable (w.Holds key id) :=
  decidable_of_iff ((w.store.snapshot? key).any (·.id = id) = true) (by simp [Holds, Option.any_eq_true])

/-- A key that holds an exchange is stored. -/
theorem Holds.mem (h : w.Holds key id) : key ∈ w.store.data := h.elim fun _ hv => Store.mem_of_snapshot? hv.1

/-- Only the stored keys have to be asked. -/
instance (w : World) (id : String) : Decidable (∀ key, ¬ w.Holds key id) :=
  decidable_of_iff (∀ key ∈ w.store.data.keys, ¬ w.Holds key id)
    ⟨fun h key hk => h key (Std.ExtTreeMap.mem_keys.2 hk.mem) hk, fun h key _ => h key⟩

theorem Reads.refl (w : World) : w.Reads w := ⟨rfl, rfl, rfl⟩

theorem Reads.trans (h : u.Reads v) (h' : v.Reads w) : u.Reads w :=
  ⟨h'.data.trans h.data, h'.letters.trans h.letters, h'.handed.trans h.handed⟩

theorem reads_get (env : Environment) (w : World) (key : CorrelationKey) : w.Reads (env.after w (.get key)) :=
  ⟨Environment.data_after_get, rfl, rfl⟩

theorem reads_keys (env : Environment) (w : World) : w.Reads (env.after w .keys) :=
  ⟨Environment.data_after_keys, rfl, rfl⟩

theorem Reads.snapshot? (h : w.Reads v) (key : CorrelationKey) : v.store.snapshot? key = w.store.snapshot? key :=
  Store.snapshot?_congr (by rw [h.data])

theorem Reads.holds (h : w.Reads v) : v.Holds key id ↔ w.Holds key id := by
  unfold Holds
  rw [h.snapshot? key]

theorem Reads.clear (h : w.Reads v) (hc : env.Clear w) : env.Clear v := by
  refine ⟨hc.1, fun key hk => ?_⟩
  rw [h.snapshot? key]
  exact hc.2 key (by rw [← h.data]; exact hk)

theorem Reads.not_clear (h : w.Reads v) (hc : ¬ env.Clear v) : ¬ env.Clear w := fun hw => hc (h.clear hw)

theorem not_holds_of_absent (h : w.store.data[key]? = none) : ¬ w.Holds key id := by
  rintro ⟨v, hv, -⟩
  obtain ⟨bytes, hb, -⟩ := Store.snapshot?_eq_some.1 hv
  rw [h] at hb
  cases hb

theorem not_holds_of_id_ne {v : Snapshot} (h : w.store.snapshot? key = some v) (hne : v.id ≠ id) :
    ¬ w.Holds key id := by
  rintro ⟨u, hu, hi⟩
  rw [h] at hu
  cases hu
  exact hne hi

end World

namespace Environment

variable {env : Environment} {w : World} {key : CorrelationKey}

/-- A reading fails only where something stands in its way. -/
theorem not_clear_of_result_get {e : StoreError} (h : env.result w (.get key) = .error e) : ¬ env.Clear w := by
  intro hc
  rw [result_get_of_healthy hc.1 hc.2] at h
  cases h

theorem not_clear_of_result_keys {e : StoreError} (h : env.result w .keys = .error e) : ¬ env.Clear w :=
  fun hc => not_healthy_of_result_keys h hc.1

end Environment

namespace Repository

open Operation Environment

variable {env : Environment} {s : Setup} {r : Repository} {w : World} {p : Policy} {key : CorrelationKey}
  {id : String}

theorem runningPolicy_exec (h : r.active = some p) : runningPolicy.exec env r w = (.ok p, r, w) := by
  simp only [runningPolicy, exec_bind, exec_getThe, h, exec_pure]

theorem runningPolicy_exec_none (h : r.active = none) : runningPolicy.exec env r w = (.error .notRunning, r, w) := by
  simp only [runningPolicy, exec_bind, exec_getThe, h, exec_throw]

/-! ## Confirming -/

/-- Where the id of a confirmed exchange can be found without the index. -/
inductive Found (env : Environment) (id : String) (w : World) :
    Except RepositoryError (Option CorrelationKey) → Prop where
  /-- The id is a key that is stored. -/
  | named (hk : ⟨id⟩ ∈ w.store.data) : Found env id w (.ok (some ⟨id⟩))
  | held {key : CorrelationKey} (hn : ⟨id⟩ ∉ w.store.data) (hh : w.Holds key id) : Found env id w (.ok (some key))
  | nowhere (hn : ⟨id⟩ ∉ w.store.data) (hh : ∀ key, ¬ w.Holds key id) : Found env id w (.ok none)
  | failed (e : StoreError) (hc : ¬ env.Clear w) : Found env id w (.error (.store e))

/-- How a confirmation locates the key to remove, and the repository it leaves. -/
inductive Located (env : Environment) (id : String) (r : Repository) (w : World) :
    Except RepositoryError (Option CorrelationKey) → Repository → Prop where
  /-- The index is right. -/
  | hit {key : CorrelationKey} (hi : r.index.keyFor? id = some key) (hh : w.Holds key id) :
      Located env id r w (.ok (some key)) r
  /-- The index has a key that is not stored. -/
  | absent {key : CorrelationKey} (hi : r.index.keyFor? id = some key) (hd : w.store.data[key]? = none) :
      Located env id r w (.ok none) (r.forget key)
  /-- The index has a key that holds another exchange. -/
  | stale {key : CorrelationKey} {v : Snapshot} {x : Except RepositoryError (Option CorrelationKey)}
      (hi : r.index.keyFor? id = some key) (hv : w.store.snapshot? key = some v) (hne : v.id ≠ id)
      (hx : Found env id w x) : Located env id r w x { r with index := r.index.forgetId id }
  | completed (hi : r.index.keyFor? id = none) (hc : r.index.isCompleted id = true) : Located env id r w (.ok none) r
  | unknown {x : Except RepositoryError (Option CorrelationKey)} (hi : r.index.keyFor? id = none)
      (hc : r.index.isCompleted id = false) (hx : Found env id w x) : Located env id r w x r
  | failed {key : CorrelationKey} (hi : r.index.keyFor? id = some key) (e : StoreError) (hc : ¬ env.Clear w) :
      Located env id r w (.error (.store e)) r

theorem Found.mem (h : Found env id w (.ok (some key))) : key ∈ w.store.data := by
  cases h with
  | named hk => exact hk
  | held _ hh => exact hh.mem

/-- What is located is stored. -/
theorem Located.mem {t : Repository} (h : Located env id r w (.ok (some key)) t) : key ∈ w.store.data := by
  cases h with
  | hit _ hh => exact hh.mem
  | stale _ _ _ hx => exact hx.mem
  | unknown _ _ hx => exact hx.mem

theorem search_exec (env : Environment) (r : Repository) (w : World) (id : String) (keys : List CorrelationKey) :
    ∃ x v, (search id keys).exec env r w = (x, r, v) ∧ w.Reads v ∧
      ((∃ key, x = .ok (some key) ∧ w.Holds key id) ∨ (x = .ok none ∧ ∀ key ∈ keys, ¬ w.Holds key id) ∨
        ∃ e, x = .error (.store e) ∧ ¬ env.Clear w) := by
  induction keys generalizing w with
  | nil => exact ⟨_, w, rfl, .refl w, .inr (.inl ⟨rfl, fun key hk => by cases hk⟩)⟩
  | cons key keys ih =>
    have hr := World.reads_get env w key
    -- The rest is searched if this key does not hold the id.
    have rest (hn : ¬ w.Holds key id) : ∃ x v, (search id keys).exec env r (env.after w (.get key)) = (x, r, v) ∧
        w.Reads v ∧ ((∃ key, x = .ok (some key) ∧ w.Holds key id) ∨
          (x = .ok none ∧ ∀ k ∈ key :: keys, ¬ w.Holds k id) ∨ ∃ e, x = .error (.store e) ∧ ¬ env.Clear w) := by
      obtain ⟨x, v, he, hv, hx⟩ := ih (env.after w (.get key))
      refine ⟨x, v, he, hr.trans hv, ?_⟩
      rcases hx with ⟨k, hk, hh⟩ | ⟨hk, hh⟩ | ⟨e, hk, hc⟩
      · exact .inl ⟨k, hk, hr.holds.1 hh⟩
      · refine .inr (.inl ⟨hk, fun k hm => ?_⟩)
        rcases List.mem_cons.1 hm with rfl | hm
        · exact hn
        · exact fun h => hh k hm (hr.holds.2 h)
      · exact .inr (.inr ⟨e, hk, hr.not_clear hc⟩)
    simp only [search, exec_bind, fetch_exec]
    cases hg : env.result w (.get key) with
    | error e => exact ⟨_, _, rfl, hr, .inr (.inr ⟨e, rfl, not_clear_of_result_get hg⟩)⟩
    | ok found =>
      cases found with
      | none => exact rest (World.not_holds_of_absent (data_of_result_get_none hg))
      | some v =>
        have hv := snapshot?_of_result_get hg
        simp only [mapError_ok]
        split
        · next hid => exact ⟨_, _, rfl, hr, .inl ⟨key, rfl, v, hv, hid⟩⟩
        · next hid => exact rest (World.not_holds_of_id_ne hv hid)

theorem locateStored_exec {order : KeyOrder} (ho : ∀ keys, (order keys).Perm keys) (env : Environment) (r : Repository)
    (w : World) (id : String) :
    ∃ x v, ((locateStored id).enumerated order).exec env r w = (x, r, v) ∧ w.Reads v ∧ Found env id w x := by
  have hr := World.reads_get env w ⟨id⟩
  simp only [locateStored, enumerated_bind, enumerated_fetch, exec_bind, fetch_exec]
  cases hg : env.result w (.get ⟨id⟩) with
  | error e => exact ⟨_, _, rfl, hr, .failed e (not_clear_of_result_get hg)⟩
  | ok found =>
    cases found with
    | some v => exact ⟨_, _, rfl, hr, .named (Store.mem_of_snapshot? (snapshot?_of_result_get hg))⟩
    | none =>
      have hn : (⟨id⟩ : CorrelationKey) ∉ w.store.data := (getElem?_eq_none_iff ..).1 (data_of_result_get_none hg)
      have hrk := hr.trans (World.reads_keys env _)
      simp only [mapError_ok, enumerated_bind, enumerated_listed, enumerated_search, exec_bind, listed_exec]
      cases hk : env.result (env.after w (.get ⟨id⟩)) .keys with
      | error e => exact ⟨_, _, rfl, hrk, .failed e (hr.not_clear (not_clear_of_result_keys hk))⟩
      | ok keys =>
        obtain ⟨x, v, he, hv, hx⟩ := search_exec env r
          (env.after (env.after w (.get ⟨id⟩)) .keys) id (order keys)
        refine ⟨x, v, he, hrk.trans hv, ?_⟩
        rcases hx with ⟨k, rfl, hh⟩ | ⟨rfl, hh⟩ | ⟨e, rfl, hc⟩
        · exact .held hn (hrk.holds.1 hh)
        · refine .nowhere hn fun k hh' => ?_
          have hmem : k ∈ keys := ((mem_of_result_keys hk).2 k).2 (.inr (by rw [hr.data]; exact hh'.mem))
          exact hh k ((ho keys).mem_iff.2 hmem) (hrk.holds.2 hh')
        · exact .failed e (hrk.not_clear hc)

theorem locate_exec {order : KeyOrder} (ho : ∀ keys, (order keys).Perm keys) (env : Environment) (r : Repository)
    (w : World) (id : String) :
    ∃ x t v, ((locate id).enumerated order).exec env r w = (x, t, v) ∧ w.Reads v ∧ Located env id r w x t := by
  simp only [locate, enumerated_bind, enumerated_getThe, exec_bind, exec_getThe]
  cases hi : r.index.keyFor? id with
  | none =>
    simp only
    split
    · next hc => exact ⟨_, _, _, rfl, .refl w, .completed hi hc⟩
    · next hc =>
      obtain ⟨x, v, he, hv, hx⟩ := locateStored_exec ho env r w id
      exact ⟨x, r, v, he, hv, .unknown hi (by simpa using hc) hx⟩
  | some key =>
    have hr := World.reads_get env w key
    simp only [enumerated_bind, enumerated_fetch, exec_bind, fetch_exec]
    cases hg : env.result w (.get key) with
    | error e => exact ⟨_, _, _, rfl, hr, .failed hi e (not_clear_of_result_get hg)⟩
    | ok found =>
      cases found with
      | none => exact ⟨_, _, _, rfl, hr, .absent hi (data_of_result_get_none hg)⟩
      | some u =>
        have hu := snapshot?_of_result_get hg
        simp only [mapError_ok]
        split
        · next hid => exact ⟨_, _, _, rfl, hr, .hit hi ⟨u, hu, hid⟩⟩
        · next hid =>
          simp only [enumerated_bind, enumerated_modifyThe, exec_bind, exec_modifyThe]
          obtain ⟨x, v, he, hv, hx⟩ := locateStored_exec ho env { r with index := r.index.forgetId id }
            (env.after w (.get key)) id
          refine ⟨x, _, v, he, hr.trans hv, .stale hi hu hid ?_⟩
          cases hx with
          | named hk => exact .named (by rw [← hr.data]; exact hk)
          | held hn hh => exact .held (by rw [← hr.data]; exact hn) (hr.holds.1 hh)
          | nowhere hn hh => exact .nowhere (by rw [← hr.data]; exact hn) fun k h => hh k (hr.holds.2 h)
          | failed e hc => exact .failed e (hr.not_clear hc)

/-- A confirmation ends where nothing is located, and otherwise removes the key, whatever the order of a listing. -/
theorem confirm_enumerated_exec {order : KeyOrder} (ho : ∀ keys, (order keys).Perm keys) (env : Environment)
    (w : World) (id : String) (h : r.active = some p) :
    ∃ x t v, w.Reads v ∧ Located env id r w x t ∧
      ((∃ e, x = .error e ∧ ((confirm id).enumerated order).exec env r w = (.error e, t, v)) ∨
        (x = .ok none ∧ ((confirm id).enumerated order).exec env r w = (.ok (), t, v)) ∨
        (∃ key, x = .ok (some key) ∧ env.result v (.remove key) = .ok () ∧
          ((confirm id).enumerated order).exec env r w =
            (.ok (), (t.forget key).count .confirms, env.after v (.remove key))) ∨
        ∃ key e, x = .ok (some key) ∧ env.result v (.remove key) = .error e ∧
          ((confirm id).enumerated order).exec env r w = (.error (.store e), t, env.after v (.remove key))) := by
  obtain ⟨x, t, v, he, hv, hx⟩ := locate_exec ho env r w id
  refine ⟨x, t, v, hv, hx, ?_⟩
  simp only [confirm, enumerated_bind, enumerated_runningPolicy, exec_bind, runningPolicy_exec h, he]
  rcases x with e | found
  · exact .inl ⟨e, rfl, rfl⟩
  cases found with
  | none => exact .inr (.inl ⟨rfl, rfl⟩)
  | some key =>
    simp only [enumerated_bind, enumerated_erase, enumerated_modifyThe, exec_bind, erase_exec]
    cases hr : env.result v (.remove key) with
    | ok u => exact .inr (.inr (.inl ⟨key, rfl, hr, rfl⟩))
    | error e => exact .inr (.inr (.inr ⟨key, e, rfl, hr, rfl⟩))

/-- A confirmation ends where nothing is located, and otherwise removes the key. -/
theorem confirm_exec (env : Environment) (w : World) (id : String) (h : r.active = some p) :
    ∃ x t v, w.Reads v ∧ Located env id r w x t ∧
      ((∃ e, x = .error e ∧ (confirm id).exec env r w = (.error e, t, v)) ∨
        (x = .ok none ∧ (confirm id).exec env r w = (.ok (), t, v)) ∨
        (∃ key, x = .ok (some key) ∧ env.result v (.remove key) = .ok () ∧
          (confirm id).exec env r w = (.ok (), (t.forget key).count .confirms, env.after v (.remove key))) ∨
        ∃ key e, x = .ok (some key) ∧ env.result v (.remove key) = .error e ∧
          (confirm id).exec env r w = (.error (.store e), t, env.after v (.remove key))) := by
  have ho : ∀ keys, (fun keys => keys : KeyOrder) keys |>.Perm keys := fun keys => .refl keys
  simpa only [enumerated_id] using confirm_enumerated_exec ho env w id h

end Repository

end DurableAggregates
