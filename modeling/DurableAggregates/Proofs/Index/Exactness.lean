import DurableAggregates.Proofs.Index.Accuracy
import DurableAggregates.Proofs.Index.Completed

/-!
# The index of a sole writer is exact

As long as no exchange is stored under two keys at once, the index of a repository that alone writes a store without
faults mirrors the store: by id and by key it has exactly the exchanges that are stored, and none of them counts as
completed (`ExchangeIndex.Exact`). Every action keeps this (`Repository.Follows.exact`, `Site.run_exact`). A pass has
nothing to drop from such an index, and a confirmation never meets an entry that is stale.
-/

namespace DurableAggregates

/-- No exchange is stored under two keys. -/
def World.Unshared (w : World) : Prop := ∀ key k id, w.Holds key id → w.Holds k id → k = key

/-- The index has exactly the exchanges that are stored, and none of them is completed. -/
structure ExchangeIndex.Exact (x : ExchangeIndex) (w : World) : Prop where
  keyFor?_iff : ∀ id key, x.keyFor? id = some key ↔ w.Holds key id
  byKey_iff : ∀ key id, x.byKey[key]? = some id ↔ w.Holds key id
  live : ∀ key id, w.Holds key id → x.isCompleted id = false

/-! ## What is held -/

namespace World

variable {v w : World} {key k : CorrelationKey} {id i : String}

theorem holds_congr (hd : v.store.data[key]? = w.store.data[key]?) : v.Holds key id ↔ w.Holds key id := by
  constructor
  · intro h
    exact h.congr hd.symm
  · intro h
    exact h.congr hd

/-- A key holds one exchange. -/
theorem Holds.id_eq (h : w.Holds key id) (h' : w.Holds key i) : i = id := by
  obtain ⟨x, hx, rfl⟩ := h
  obtain ⟨y, hy, rfl⟩ := h'
  rw [hx] at hy
  cases hy
  rfl

/-- In an empty store nothing is held. -/
theorem not_holds_empty (key : CorrelationKey) (id : String) : ¬ ({} : World).Holds key id :=
  not_holds_of_absent (by simp)

/-- To compare the stored keys is enough. -/
instance (w : World) : Decidable w.Unshared :=
  decidable_of_iff (∀ key ∈ w.store.data.keys, ∀ k ∈ w.store.data.keys,
      (w.store.snapshot? key).map Snapshot.id = (w.store.snapshot? k).map Snapshot.id →
        (w.store.snapshot? key).isSome → k = key) <| by
    constructor
    · intro h key k id hk hk'
      refine h key (Std.ExtTreeMap.mem_keys.2 hk.mem) k (Std.ExtTreeMap.mem_keys.2 hk'.mem) ?_ ?_
      · obtain ⟨x, hx, rfl⟩ := hk
        obtain ⟨y, hy, hid⟩ := hk'
        rw [hx, hy, Option.map_some, Option.map_some, hid]
      · obtain ⟨x, hx, -⟩ := hk
        rw [hx]
        rfl
    · intro h key _ k _ hid hs
      obtain ⟨x, hx⟩ := Option.isSome_iff_exists.1 hs
      rw [hx, Option.map_some, eq_comm, Option.map_eq_some_iff] at hid
      obtain ⟨y, hy, hid⟩ := hid
      exact h key k x.id ⟨x, hx, rfl⟩ ⟨y, hy, hid⟩

end World

/-! ## Changes of the index and of the store -/

namespace ExchangeIndex

variable {x : ExchangeIndex} {v w : World} {key : CorrelationKey} {id : String}

theorem exact_empty : Exact {} {} := by
  have hn := World.not_holds_empty
  constructor
  · intro id key
    simp [keyFor?, hn]
  · intro key id
    simp [hn]
  · intro key id h
    exact absurd h (hn key id)

theorem Exact.paired (h : x.Exact w) : x.Paired := by
  intro id key hi
  rw [h.byKey_iff, ← h.keyFor?_iff]
  exact hi

theorem Exact.unshared (h : x.Exact w) : w.Unshared := by
  intro key k id hk hk'
  rw [← h.keyFor?_iff] at hk hk'
  rw [hk] at hk'
  exact (Option.some.inj hk').symm

theorem Exact.congr (h : x.Exact w) (hd : v.store.data = w.store.data) : x.Exact v := by
  have hh (key : CorrelationKey) (id : String) : v.Holds key id ↔ w.Holds key id :=
    World.holds_congr (by rw [hd])
  constructor
  · intro id key
    rw [hh, h.keyFor?_iff]
  · intro key id
    rw [hh, h.byKey_iff]
  · intro key id hk
    exact h.live key id ((hh key id).1 hk)

/-- A key that is forgotten together with its entry in the store. -/
theorem Exact.forget (h : x.Exact w) (hgone : v.store.data[key]? = none)
    (hd : ∀ k, k ≠ key → v.store.data[k]? = w.store.data[k]?) : (x.forget key).Exact v := by
  have hh (k : CorrelationKey) (i : String) : v.Holds k i ↔ w.Holds k i ∧ k ≠ key := by
    by_cases hk : k = key
    · subst hk
      simp [World.not_holds_of_absent hgone]
    · simp [World.holds_congr (hd k hk), hk]
  constructor
  · intro i k
    rw [h.paired.keyFor?_forget_eq_some, hh, h.keyFor?_iff]
  · intro k i
    rw [byKey_forget, hh, ← h.byKey_iff]
    by_cases hk : key = k
    · simp [hk]
    · simp [hk, Ne.symm hk]
  · intro k i hk
    rw [hh] at hk
    obtain ⟨hw, hne⟩ := hk
    rw [← Bool.not_eq_true]
    intro hc
    rcases isCompleted_of_forget hc with hc | hb
    · rw [h.live k i hw] at hc
      cases hc
    · -- The completed id was the one of the forgotten key, and no exchange has two keys.
      exact hne (h.unshared key k i ((h.byKey_iff key i).1 hb) hw)

/-- A key that got an exchange is noted with it. -/
theorem Exact.insert (h : x.Exact w) (hv : v.Holds key id)
    (hd : ∀ k, k ≠ key → v.store.data[k]? = w.store.data[k]?) (hu : v.Unshared) : (x.insert key id).Exact v := by
  have hkey (i : String) : v.Holds key i ↔ i = id := by
    constructor
    · intro hi
      exact hv.id_eq hi
    · rintro rfl
      exact hv
  have hother {k : CorrelationKey} (hk : k ≠ key) (i : String) : v.Holds k i ↔ w.Holds k i :=
    World.holds_congr (hd k hk)
  constructor
  · intro i k
    rw [h.paired.keyFor?_insert_eq_some]
    by_cases hk : k = key
    · subst hk
      simp [hkey]
    · have hi : v.Holds k i → i ≠ id := by
        rintro hi rfl
        exact hk (hu key k i hv hi)
      rw [h.keyFor?_iff, ← hother hk]
      simp only [hk, and_false, ne_eq, not_false_eq_true, true_and, false_or]
      exact ⟨And.right, fun hh => ⟨hi hh, hh⟩⟩
  · intro k i
    rw [byKey_insert]
    by_cases hk : key = k
    · subst hk
      simp [hkey, eq_comm]
    · rw [if_neg hk, h.byKey_iff, hother (Ne.symm hk)]
  · intro k i hi
    rw [isCompleted_insert]
    by_cases hid : i = id
    · simp [hid]
    · have hk : k ≠ key := by
        rintro rfl
        exact hid ((hkey i).1 hi)
      rw [h.live k i ((hother hk i).1 hi), Bool.and_false]

/-- Of the keys of an exact index none is dropped for not being stored. -/
theorem Exact.retainKeys_eq (h : x.Exact w) {stored : KeySet} (hs : ∀ key, key ∈ w.store.data → key ∈ stored) :
    x.retainKeys stored = x := by
  have hnone : (x.byKey.keys.filter fun key => !stored.contains key) = [] := by
    rw [List.filter_eq_nil_iff]
    intro key hk
    rw [Std.ExtTreeMap.mem_keys, Std.ExtTreeMap.mem_iff_isSome_getElem?] at hk
    obtain ⟨id, hid⟩ := Option.isSome_iff_exists.1 hk
    have hmem := hs key ((h.byKey_iff key id).1 hid).mem
    simpa using hmem
  rw [retainKeys, hnone]
  rfl

end ExchangeIndex

/-! ## Actions -/

namespace Repository

open Environment

variable {env : Environment} {s : Setup} {r t : Repository} {w v : World} {p : Policy} {key : CorrelationKey}
  {id : String} {a : Action}

/-- With an exact index there is no stale hint to drop. -/
theorem Located.eq_of_exact {y : Except RepositoryError (Option CorrelationKey)} (h : Located env id r w y t)
    (hr : r.index.Exact w) : t = r := by
  cases h with
  | hit | completed | unknown | failed => rfl
  | absent hi hd => exact absurd ((hr.keyFor?_iff _ _).1 hi) (World.not_holds_of_absent hd)
  | stale hi hv hne => exact absurd ((hr.keyFor?_iff _ _).1 hi) (World.not_holds_of_id_ne hv hne)

theorem Acted.exact {x : Except RepositoryError Cluster.Answer} (h : Acted env s r w a x t v) (hc : env.Clear w)
    (hu : v.Unshared) (hr : r.index.Exact w) : t.index.Exact v := by
  -- A removed key is gone, and all other keys are as before.
  have hforget {u : World} {key : CorrelationKey} (hx : env.result u (.remove key) = .ok ())
      (hi : r.index.Exact u) : (r.index.forget key).Exact (env.after u (.remove key)) := by
    apply hi.forget
    · rw [data_after_remove_ok hx]
      simp
    · intro k hk
      exact data_after_remove_of_ne hk
  cases h with
  | refused | uncaptured => exact hr
  | quiet _ ht hv =>
    rw [ht.index]
    exact hr.congr hv.data
  | added ha hcap hp => exact hr.insert (holds_of_result_put ‹_› hcap hp) (fun k hk => data_after_put_of_ne hk _) hu
  | unstored ha hcap hp =>
    rw [result_put_of_healthy hc.1 hc.2] at hp
    cases hp
  | removed hx => exact hforget hx hr
  | confirmed hv hl hx =>
    obtain rfl := hl.eq_of_exact hr
    exact hforget hx (hr.congr hv.data)
  | unlocated hv hl | unconfirmed hv hl =>
    obtain rfl := hl.eq_of_exact hr
    exact hr.congr hv.data

theorem Recovered.exact {x : Except RepositoryError Outcome} {u : World} (h : Recovered env s p key r w x t u)
    (hr : r.index.Exact w) : t.index.Exact u := by
  cases h with
  | unread e hg => exact hr.congr data_after_get
  | gone hg =>
    apply hr.forget
    · rw [data_after_get]
      exact data_of_result_get_none hg
    · intro k _
      rw [data_after_get]
  | handed x hg hn =>
    have hi : ((r.observe key s.clock).handedBack s).index = r.index := by
      unfold handedBack
      split <;> rfl
    rw [hi]
    exact hr.congr (by rw [data_handing, data_after_get])
  | refused x hg hn uri ha e hv => exact hr.congr data_after_get
  | kept hf x hg hn hv e u hu => exact hr.congr (by rw [hu.data, data_escalating, data_after_get])
  | moved x hg hn hv u hd hl hh =>
    have hi : ((r.observe key s.clock).escalated (sinkAddress? s p) key).index = r.index.forget key := by
      unfold escalated
      split <;> rfl
    rw [hi]
    apply hr.forget
    · rw [hd]
      simp
    · intro k hk
      rw [hd]
      simp [Std.ExtTreeMap.getElem?_erase, hk.symm]

theorem pass_exact (env : Environment) (w : World) (ha : r.active = some p)
    (hs : p.useRecovery = s.config.useRecovery) (hr : r.index.Exact w) :
    let y := (pass s).exec env r w
    y.2.1.index.Exact y.2.2 := by
  refine pass_index (P := fun i u => i.Exact u) env w ha hs (hr.congr data_after_keys) (fun stored hk => ?_)
    fun _ _ _ _ _ _ hrec h => hrec.exact h
  have hlisted : ∀ key, key ∈ w.store.data → key ∈ (Std.ExtTreeSet.ofList stored compare) := by
    intro key hmem
    rw [Std.ExtTreeSet.mem_ofList, List.contains_iff_mem]
    exact ((mem_of_result_keys hk).2 key).2 (.inr hmem)
  rw [retain, hr.retainKeys_eq hlisted]
  exact hr.congr data_after_keys

/-- Every action of a sole writer that leaves no exchange under two keys leaves the index exact. -/
theorem Follows.exact (hf : r.Follows s) (hc : env.Clear w) (a : Action)
    (hu : ((a.task s).exec env r w).2.2.Unshared) (hr : r.index.Exact w) :
    ((a.task s).exec env r w).2.1.index.Exact ((a.task s).exec env r w).2.2 :=
  hf.act_cases (P := fun t u => t.index.Exact u) hr
    (fun _ ha hp => pass_exact env w ha (Setup.useRecovery_of_policy? hp) hr)
    fun ha => (action_exec env s r w ha).exact hc hu hr

end Repository

/-- In a run that never has an exchange under two keys, the index of a sole writer is exact. -/
theorem Site.run_exact {env : Environment} (he : env.Healthy) (s : Setup) (actions : List Action)
    (hu : ∀ m ∈ Site.history env s {} actions, m.after.world.Unshared) :
    let x := Site.run env s {} actions
    x.repository.index.Exact x.world := by
  let P : List Moment → Site → Prop := fun past x => (∀ m ∈ past, m.after.world.Unshared) →
    x.repository.Follows s ∧ x.world.store.Sound ∧ x.repository.index.Exact x.world
  have hrun : P (Site.history env s {} actions) (Site.run env s {} actions) := by
    apply Site.run_induction
    · exact fun _ => ⟨Repository.follows_new s, Store.sound_empty, ExchangeIndex.exact_empty⟩
    intro past y a ih hpast
    obtain ⟨hf, hs, hx⟩ := ih fun m hm => hpast m (List.mem_append_left _ hm)
    have hlast : (y.act env s a).2.world.Unshared :=
      hpast (y.moment env s a) (List.mem_append_right _ List.mem_cons_self)
    exact ⟨hf.act env y.world a, hf.sound env y.world a hs, hf.exact ⟨he, hs⟩ a hlast hx⟩
  exact (hrun hu).2.2

end DurableAggregates
