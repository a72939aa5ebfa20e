import DurableAggregates.Proofs.Execution.Runs
import DurableAggregates.Proofs.Index.Entries

/-!
# The index of a sole writer

The entries of an index are hints, since others may write the store. A repository that alone writes its store is never
misled by them: the key of every entry holds the exchange (`ExchangeIndex.Accurate`). Every action keeps this, under
any faults and whatever entries the store began with (`Site.run_accurate`). What could go wrong is an entry that
outlives its exchange; it does not, since an add drops the entry of the exchange that it replaces and a key that
leaves the store takes its entry with it.
-/

namespace DurableAggregates

/-- The key of every entry holds the exchange. -/
structure ExchangeIndex.Accurate (x : ExchangeIndex) (w : World) : Prop where
  paired : x.Paired
  held : ∀ id key, x.keyFor? id = some key → w.Holds key id

theorem World.Holds.congr {v w : World} {key : CorrelationKey} {id : String} (h : w.Holds key id)
    (hd : v.store.data[key]? = w.store.data[key]?) : v.Holds key id := by
  obtain ⟨x, hx, hid⟩ := h
  exact ⟨x, by rw [Store.snapshot?_congr hd, hx], hid⟩

/-! ## Changes of the index and of the store -/

namespace ExchangeIndex

variable {x : ExchangeIndex} {v w : World} {key : CorrelationKey} {id : String}

theorem accurate_empty (w : World) : Accurate {} w :=
  ⟨paired_empty, fun id key h => by simp [keyFor?] at h⟩

theorem Accurate.congr (h : x.Accurate w) (hd : v.store.data = w.store.data) : x.Accurate v :=
  ⟨h.paired, fun id key hi => (h.held id key hi).congr (by rw [hd])⟩

/-- A key that is forgotten may lose its entry in the store. -/
theorem Accurate.forget (h : x.Accurate w) (hd : ∀ k, k ≠ key → v.store.data[k]? = w.store.data[k]?) :
    (x.forget key).Accurate v := by
  refine ⟨h.paired.forget key, fun id k hi => ?_⟩
  obtain ⟨hi, hk⟩ := h.paired.keyFor?_forget_eq_some.1 hi
  exact (h.held id k hi).congr (hd k hk)

/-- A key that got another exchange is noted with it. -/
theorem Accurate.insert (h : x.Accurate w) (hv : v.Holds key id)
    (hd : ∀ k, k ≠ key → v.store.data[k]? = w.store.data[k]?) : (x.insert key id).Accurate v := by
  refine ⟨h.paired.insert key id, fun i k hi => ?_⟩
  rcases h.paired.keyFor?_insert_eq_some.1 hi with ⟨rfl, rfl⟩ | ⟨-, hk, hi⟩
  · exact hv
  · exact (h.held i k hi).congr (hd k hk)

theorem Accurate.forgetId (h : x.Accurate w) (id : String) : (x.forgetId id).Accurate w := by
  refine ⟨h.paired.forgetId id, fun i k hi => h.held i k ?_⟩
  rw [keyFor?_forgetId] at hi
  split at hi
  · cases hi
  · exact hi

theorem Accurate.retainKeys (h : x.Accurate w) (stored : KeySet) : (x.retainKeys stored).Accurate w :=
  retainKeys_induction (P := (Accurate · w)) h (fun _ _ hy => hy.forget fun _ _ => rfl) stored

/-- A put over an entry that cannot be read does not concern the index. -/
theorem Accurate.unstored (h : x.Accurate w) {env : Environment} {s : Snapshot} {e : StoreError}
    (hp : env.result w (.put key s) = .error e) : x.Accurate (env.after w (.put key s)) := by
  have hd := Environment.data_after_put env w key s
  cases hf : env.fault? w .put key with
  | some fault =>
    rw [hf] at hd
    exact h.congr hd
  | none =>
    refine ⟨h.paired, fun i k hi => (h.held i k hi).congr (Environment.data_after_put_of_ne ?_ s)⟩
    rintro rfl
    obtain ⟨y, hy, -⟩ := h.held i k hi
    rw [(Environment.unreadable_of_result_put hp hf).snapshot?_eq_none] at hy
    cases hy

end ExchangeIndex

/-! ## Actions -/

namespace Repository

open Environment

variable {env : Environment} {s : Setup} {r t : Repository} {w v : World} {p : Policy} {key : CorrelationKey}
  {id : String} {a : Action}

theorem Located.accurate {y : Except RepositoryError (Option CorrelationKey)} (h : Located env id r w y t)
    (hv : w.Reads v) (hr : r.index.Accurate w) : t.index.Accurate v := by
  cases h with
  | hit | completed | unknown | failed => exact hr.congr hv.data
  | absent => exact hr.forget fun k _ => by rw [hv.data]
  | stale => exact (hr.forgetId id).congr hv.data

/-- What is captured of an exchange that fits is held under the key. -/
theorem holds_of_result_put {e : Exchange} (he : e.Fits) {x : Snapshot} {allow : Bool} (hc : e.capture allow = .ok x)
    {old : Option Snapshot} (hp : env.result w (.put key x) = .ok old) :
    (env.after w (.put key x)).Holds key e.id :=
  ⟨x.asWritten, snapshot?_of_result_put (Exchange.fits_of_capture hc he) hp, (Exchange.capture_eq_ok hc).1⟩

theorem Acted.accurate {x : Except RepositoryError Cluster.Answer} (h : Acted env s r w a x t v)
    (hr : r.index.Accurate w) : t.index.Accurate v := by
  cases h with
  | refused | uncaptured => exact hr
  | quiet _ ht hv =>
    rw [ht.index]
    exact hr.congr hv.data
  | added ha hc hp => exact hr.insert (holds_of_result_put ‹_› hc hp) fun k hk => data_after_put_of_ne hk _
  | unstored ha hc hp => exact hr.unstored hp
  | removed hx => exact hr.forget fun k hk => data_after_remove_of_ne hk
  | confirmed hv hl hx => exact (hl.accurate hv hr).forget fun k hk => data_after_remove_of_ne hk
  | unlocated hv hl | unconfirmed hv hl => exact hl.accurate hv hr

/-! ## Passes -/

theorem Recovered.accurate {x : Except RepositoryError Outcome} {u : World} (h : Recovered env s p key r w x t u)
    (hr : r.index.Accurate w) : t.index.Accurate u := by
  cases h with
  | unread e hg => exact hr.congr data_after_get
  | gone hg => exact hr.forget fun k _ => by rw [data_after_get]
  | handed x hg hn =>
    have hi : ((r.observe key s.clock).handedBack s).index = r.index := by
      unfold handedBack
      split <;> rfl
    rw [hi]
    exact hr.congr (by rw [data_handing, data_after_get])
  | refused x hg hn uri ha e hv => exact hr.congr data_after_get
  | kept hf x hg hn hv e u hu => exact hr.congr (by rw [hu.data, data_escalating, data_after_get])
  | moved x hg hn hv u hd hl hh =>
    have hi : ((r.observe key s.clock).escalated (sinkAddress? s p) key).index = r.index.forget key := by
      unfold escalated
      split <;> rfl
    rw [hi]
    refine hr.forget fun k hk => ?_
    rw [hd]
    simp [Std.ExtTreeMap.getElem?_erase, hk.symm]

theorem pass_accurate (env : Environment) (w : World) (ha : r.active = some p)
    (hs : p.useRecovery = s.config.useRecovery) (hr : r.index.Accurate w) :
    let y := (pass s).exec env r w
    y.2.1.index.Accurate y.2.2 :=
  pass_index (P := fun i u => i.Accurate u) env w ha hs (hr.congr data_after_keys)
    (fun _ _ => (hr.retainKeys _).congr data_after_keys) fun _ _ _ _ _ _ hrec h => hrec.accurate h

/-- Every action of a sole writer leaves the index accurate. -/
theorem Follows.accurate (hf : r.Follows s) (env : Environment) (w : World) (a : Action) (hr : r.index.Accurate w) :
    ((a.task s).exec env r w).2.1.index.Accurate ((a.task s).exec env r w).2.2 :=
  hf.act_cases (P := fun t u => t.index.Accurate u) hr
    (fun _ ha hp => pass_accurate env w ha (Setup.useRecovery_of_policy? hp) hr)
    fun ha => (action_exec env s r w ha).accurate hr

end Repository

/-- In every run of a sole writer the key of every entry of the index holds the exchange. -/
theorem Site.run_accurate (env : Environment) (s : Setup) (w : World) (actions : List Action) :
    let x := Site.run env s { world := w } actions
    x.repository.index.Accurate x.world :=
  (Site.run_induction (x := { world := w })
    (P := fun _ x => x.repository.Follows s ∧ x.repository.index.Accurate x.world)
    ⟨Repository.follows_new s, ExchangeIndex.accurate_empty w⟩
    (fun _ y a hy => ⟨hy.1.act env y.world a, hy.1.accurate env y.world a hy.2⟩) actions).2

end DurableAggregates
