import DurableAggregates.Proofs.Execution.Steps

/-!
# Exhaustion

The number of attempts in a record stops at the largest number that is counted, which lies above every valid budget.
So a row of observations spends a budget exactly if it is long enough, and no later observation takes that back
(`Record.Saturates`). A key beyond its budget whose letters are all refused is therefore in the same position after
every pass: it is offered to the sink once more and stays, under whatever else is done at the repository or by others,
until it is removed or confirmed (`exhaustion_is_permanent`).
-/

namespace DurableAggregates

open Calendar (Instant)

/-! ## Records -/

namespace Record

variable {r : Record} {maximum : Nat}

/-- The record after passes that have seen its key at these times. -/
def observed (r : Record) (times : List Instant) : Record := times.foldl observe r

/-- The numbers of the attempts that observations at these times count. -/
def counts : Record → List Instant → List Nat
  | _, [] => []
  | r, now :: times => (r.observe now).attempts :: (r.observe now).counts times

theorem observed_cons (r : Record) (now : Instant) (times : List Instant) :
    r.observed (now :: times) = (r.observe now).observed times := rfl

theorem attempts_observed (r : Record) (times : List Instant) :
    (r.observed times).attempts = min (r.attempts + times.length) limit := by
  induction times generalizing r with
  | nil => exact (Nat.min_eq_left r.attempts_le).symm
  | cons now times ih =>
    rw [observed_cons, ih, attempts_observe, List.length_cons]
    omega

theorem lastSeen_observed (r : Record) (times : List Instant) :
    (r.observed times).lastSeen = times.getLast?.getD r.lastSeen := by
  induction times generalizing r with
  | nil => rfl
  | cons now times ih =>
    rw [observed_cons, ih, List.getLast?_cons]
    rfl

/-- Every number that is counted is larger than the one before all of them, unless both are the largest of all. -/
theorem lt_of_mem_counts {times : List Instant} {n : Nat} (h : n ∈ r.counts times) :
    r.attempts < n ∨ r.attempts = limit ∧ n = limit := by
  induction times generalizing r with
  | nil => cases h
  | cons now times ih =>
    have hle := r.attempts_le
    have hobserve := r.attempts_observe now
    rcases List.mem_cons.1 h with rfl | h
    · omega
    · have hlater := ih h
      omega

theorem pairwise_counts (r : Record) (times : List Instant) :
    (r.attempts :: r.counts times).Pairwise fun m n => m < n ∨ m = limit ∧ n = limit := by
  induction times generalizing r with
  | nil => exact List.pairwise_singleton ..
  | cons now times ih => exact List.pairwise_cons.2 ⟨fun n hn => lt_of_mem_counts hn, ih (r.observe now)⟩

theorem isExhausted_observed (times : List Instant) (h : r.isExhausted maximum = true) :
    (r.observed times).isExhausted maximum = true := by
  induction times generalizing r with
  | nil => exact h
  | cons now times ih => exact ih (isExhausted_observe now h)

/-- The number of attempts stops above the budget, so nothing but the number of observations counts. -/
theorem isExhausted_observed_iff (h : maximum < limit) (times : List Instant) :
    (r.observed times).isExhausted maximum = true ↔ maximum < r.attempts + times.length := by
  rw [isExhausted, decide_eq_true_eq, attempts_observed]
  omega

/-- What a row of observations makes of a record and its budget. -/
structure Saturates (r : Record) (times : List Instant) (maximum : Nat) : Prop where
  attempts : (r.observed times).attempts = min (r.attempts + times.length) (2 ^ 32 - 1)
  lastSeen : (r.observed times).lastSeen = times.getLast?.getD r.lastSeen
  increasing : (r.attempts :: r.counts times).Pairwise fun m n => m < n ∨ m = 2 ^ 32 - 1 ∧ n = 2 ^ 32 - 1
  spent : (r.observed times).isExhausted maximum = true ↔ maximum < r.attempts + times.length
  permanent : r.isExhausted maximum = true → (r.observed times).isExhausted maximum = true

theorem saturates (r : Record) (times : List Instant) (h : maximum < limit) : r.Saturates times maximum where
  attempts := r.attempts_observed times
  lastSeen := r.lastSeen_observed times
  increasing := r.pairwise_counts times
  spent := isExhausted_observed_iff h times
  permanent := isExhausted_observed times

end Record

/-! ## Which keys are tracked -/

/-- A repository that does not recover keeps no records. -/
theorem Reachable.recovers {s : Setup} {r : Repository} {p : Policy} {key : CorrelationKey} {record : Record}
    (h : Reachable s r) (hp : s.policy? = .ok p) (hr : r.records[key]? = some record) : p.useRecovery = true := by
  by_contra hu
  suffices hnone : r.records[key]? = none by
    rw [hnone] at hr
    cases hr
  clear hr
  induction h with
  | new => simp
  | @act r h env w a ih =>
    refine h.follows.act_cases (P := fun t _ => t.records[key]? = none) ih (fun q ha hq => ?_) fun ha => ?_
    · obtain ⟨y, t, u, he, hpassed⟩ := Repository.pass_exec env w ha (Setup.useRecovery_of_policy? hq)
      rw [hp] at hq
      cases hq
      rw [he]
      -- records are made by passes that recover keys, and there are none where recovery is off
      cases hpassed with
      | unlisted | idle => exact ih
      | completed hu' => exact absurd hu' hu
    · cases (Repository.action_steady env s r w ha).touched key with
      | kept _ hr | stored _ _ _ hr => rw [hr, ih]
      | dropped _ hr => exact hr

/-! ## Which actions take keys out -/

/-- Whether an action can take a key out of the store. -/
def Action.withdraws : Action → Bool
  | .remove _ | .confirm _ => true
  | _ => false

/-- All other actions but a pass leave the keys that are stored. -/
theorem Repository.Acted.stored {env : Environment} {s : Setup} {r t : Repository} {w v : World} {a : Action}
    {x : Except RepositoryError Cluster.Answer} {key : CorrelationKey} (h : Acted env s r w a x t v)
    (ha : a.withdraws = false) (hk : key ∈ w.store.data) : key ∈ v.store.data := by
  have hput (k : CorrelationKey) (v : Snapshot) : key ∈ (env.after w (.put k v)).store.data := by
    rw [Environment.data_after_put]
    split
    · exact hk
    · exact Std.ExtTreeMap.mem_insert.2 (.inr hk)
  cases h with
  | refused | uncaptured => exact hk
  | quiet _ _ hv => rwa [hv.data]
  | added => exact hput _ _
  | unstored => exact hput _ _
  | removed | confirmed | unlocated | unconfirmed => cases ha

/-! ## The step of one key -/

/-- A key that is stored, and beyond its budget after `n` attempts. -/
structure Spent (maximum n : Nat) (b : KeyView) : Prop where
  readable : ∃ bytes v, b.entry = some bytes ∧ Snapshot.decode bytes = .ok v
  counted : ∃ record : Record, b.record = some record ∧ record.attempts = n
  beyond : maximum < n

namespace Spent

variable {env : Environment} {s : Setup} {p : Policy} {uri : String} {key : CorrelationKey} {maximum n : Nat}
  {b c : KeyView} {y : Site} {a : Action}

theorem le_limit (h : Spent maximum n b) : n ≤ Record.limit := by
  obtain ⟨record, -, hn⟩ := h.counted
  rw [← hn]
  exact record.attempts_le

theorem next_eq (h : Spent maximum n b) : b.next = min (n + 1) Record.limit := by
  obtain ⟨record, hr, hn⟩ := h.counted
  rw [KeyView.next, hr, Option.elim_some, hn]

theorem lt_next (h : Spent maximum n b) : maximum < b.next := by
  have hbeyond := h.beyond
  have hle := h.le_limit
  rw [h.next_eq]
  omega

/-- Without faults and with every letter refused, a pass offers the sink one more letter and leaves the key. -/
theorem pass (h : Spent p.maximumRedeliveries n b) (he : env.Healthy) (hf : env.Refusing)
    (hs : Repository.sinkAddress? s p = some uri) {l? : Option Listing} (hk : KeyPass env s p key b l? c) :
    l? = some .failed ∧ ∃ bytes v e record, b.entry = some bytes ∧ Snapshot.decode bytes = .ok v ∧
      record.attempts = b.next ∧ c = { b with
        record := some record
        letters := b.letters ++ [(s.letter uri key v.restore b.next, .error e)] } := by
  obtain ⟨bytes, v, hbytes, hv⟩ := h.readable
  -- the entry can be read, the number is beyond the budget and the letter is refused: one case is left
  cases hk with
  | absent hnone =>
    rw [hbytes] at hnone
    cases hnone
  | unread hread =>
    obtain ⟨bytes', f, hbytes', hd⟩ := hread he
    rw [hbytes] at hbytes'
    cases hbytes'
    rw [hv] at hd
    cases hd
  | handed _ _ _ _ hle => exact absurd h.lt_next (Nat.not_lt.2 hle)
  | refused bytes v hbytes hv _ _ letter e record hr hl =>
    obtain ⟨uri', hs', rfl⟩ := hl
    rw [hs] at hs'
    cases hs'
    exact ⟨rfl, bytes, v, e, record, hbytes, hv, hr, rfl⟩
  | kept _ _ _ _ _ hh => exact absurd he hh
  | moved _ _ _ _ _ hr =>
    refine absurd hf (hr ?_)
    rw [hs]
    exact Option.some_ne_none uri

theorem of_pass (h : Spent p.maximumRedeliveries n b) (he : env.Healthy) (hf : env.Refusing)
    (hs : Repository.sinkAddress? s p = some uri) {l? : Option Listing} (hk : KeyPass env s p key b l? c) :
    Spent p.maximumRedeliveries (min (n + 1) Record.limit) c := by
  obtain ⟨-, bytes, v, e, record, -, -, hr, rfl⟩ := h.pass he hf hs hk
  rw [← h.next_eq]
  exact ⟨h.readable, ⟨record, rfl, hr⟩, h.lt_next⟩

/-- What is known of a key does not depend on what is stored under it. -/
theorem replaced (h : Spent maximum n b) {bytes : List UInt8} {v : Snapshot} (hv : Snapshot.decode bytes = .ok v) :
    Spent maximum n { b with entry := some bytes } := ⟨⟨bytes, v, rfl, hv⟩, h.counted, h.beyond⟩

theorem stored (h : Spent maximum n (y.view key)) : key ∈ y.world.store.data := by
  obtain ⟨bytes, v, hbytes, hv⟩ := h.readable
  exact Store.mem_of_snapshot? (Store.snapshot?_eq_some.2 ⟨bytes, hbytes, hv⟩)

/-- An action that is no pass leaves a key beyond its budget if it leaves the key. -/
theorem of_ne_pass (h : Spent maximum n (y.view key)) (hy : y.repository.Follows s) (ha : a ≠ .pass)
    (hk : a.withdraws = true → key ∈ (y.act env s a).2.world.store.data) :
    Spent maximum n ((y.act env s a).2.view key) := by
  have hstored : key ∈ (y.act env s a).2.world.store.data := by
    cases hw : a.withdraws with
    | true => exact hk hw
    | false => exact (Repository.action_exec env s y.repository y.world ha).stored hw h.stored
  have hentry : ((y.act env s a).2.view key).entry ≠ none :=
    Option.isSome_iff_ne_none.1 (Std.ExtTreeMap.mem_iff_isSome_getElem?.1 hstored)
  have hstep := Site.keyStep hy env a key
  rw [Site.report?_of_ne_pass ha] at hstep
  generalize (y.act env s a).2.view key = c at hentry hstep
  cases hstep with
  | kept => exact h
  | dropped => exact absurd rfl hentry
  | stored v hv => exact h.replaced (Snapshot.decode_encode hv)

/-- Every pass that ends with a report counts. -/
theorem act (h : Spent p.maximumRedeliveries n (y.view key)) (he : env.Healthy) (hf : env.Refusing)
    (hp : s.policy? = .ok p) (hu : p.useRecovery = true) (hs : Repository.sinkAddress? s p = some uri)
    (hy : y.repository.Follows s) (hk : a.withdraws = true → key ∈ (y.act env s a).2.world.store.data) :
    Spent p.maximumRedeliveries (min (n + (y.moment env s a).report?.isSome.toNat) Record.limit)
      ((y.act env s a).2.view key) := by
  by_cases ha : a = .pass
  · subst ha
    cases hrun : y.repository.isRunning with
    | true =>
      obtain ⟨rep, hrep, hkeys⟩ := Site.act_pass_of_healthy he hp hu hy hrun
      obtain ⟨l?, hpass, -⟩ := hkeys key
      have hreport : (y.moment env s .pass).report? = some rep := by
        rw [Moment.report?, Site.moment, hrep]
      rw [hreport]
      exact h.of_pass he hf hs hpass
    | false =>
      -- a stopped repository refuses the pass, and nothing is counted
      have hnone : y.repository.active = none := Option.not_isSome_iff_eq_none.1 (ne_true_of_eq_false hrun)
      have hact : y.act env s .pass = (.error .notRunning, y) := Site.act_of_stopped rfl hnone
      have hreport : (y.moment env s .pass).report? = none := by
        rw [Moment.report?, Site.moment, hact]
      rw [hreport, hact]
      exact (Nat.min_eq_left h.le_limit).symm ▸ h
  · rw [Site.report?_of_ne_pass ha]
    exact (Nat.min_eq_left h.le_limit).symm ▸ h.of_ne_pass hy ha hk

end Spent

/-! ## Runs -/

namespace Site

/--
What becomes of a site while a key is neither removed nor confirmed, with the number of passes that have ended: the
store has no faults and the sink refuses every letter, any actions are taken at the repository, and others do anything
that leaves an entry of the key that can be read.
-/
inductive Outstanding (s : Setup) (key : CorrelationKey) (x : Site) : Nat → Site → Prop where
  | refl : Outstanding s key x 0 x
  | act {n : Nat} {y : Site} (h : Outstanding s key x n y) (env : Environment) (he : env.Healthy) (hf : env.Refusing)
      (a : Action) (hk : a.withdraws = true → key ∈ (y.act env s a).2.world.store.data) :
      Outstanding s key x (n + (y.moment env s a).report?.isSome.toNat) (y.act env s a).2
  | others {n : Nat} {y : Site} (h : Outstanding s key x n y) (w : World) (hk : (w.store.snapshot? key).isSome) :
      Outstanding s key x n { y with world := w }

/-- A stored key is beyond its budget after a number of attempts, and every pass offers the sink one more letter. -/
structure Escalates (s : Setup) (p : Policy) (uri : String) (key : CorrelationKey) (attempts : Nat) (y : Site) :
    Prop where
  stored : key ∈ y.world.store.data
  beyond : p.maximumRedeliveries < attempts
  state : y.repository.stateOf key = .pending attempts
  asked : ∀ env : Environment, env.Healthy → y.repository.isRunning = true →
    (y.act env s (.state key)).1 = .ok (.state (some (.pending attempts)))
  passed : ∀ env : Environment, env.Healthy → env.Refusing → y.repository.isRunning = true →
    ∃ v rep e, y.world.store.snapshot? key = some v ∧ (y.act env s .pass).1 = .ok (.report rep) ∧
      (∀ l, key ∈ rep.list l ↔ l = .failed) ∧
      ((y.act env s .pass).2.view key).entry = (y.view key).entry ∧
      ((y.act env s .pass).2.view key).handed = (y.view key).handed ∧
      ((y.act env s .pass).2.view key).letters = (y.view key).letters ++
        [({ uri, key, exchange := v.restore, attempts := min (attempts + 1) (2 ^ 32 - 1), escalatedAt := s.clock },
          .error e)]

variable {s : Setup} {p : Policy} {uri : String} {key : CorrelationKey} {n m : Nat} {x y : Site}

/-- A key beyond its budget stays so, and every pass counts. -/
theorem Outstanding.spent (h : Outstanding s key x m y) (hp : s.policy? = .ok p) (hu : p.useRecovery = true)
    (hs : Repository.sinkAddress? s p = some uri) (hx : x.repository.Follows s)
    (hspent : Spent p.maximumRedeliveries n (x.view key)) :
    y.repository.Follows s ∧ Spent p.maximumRedeliveries (min (n + m) Record.limit) (y.view key) := by
  induction h with
  | refl => exact ⟨hx, (Nat.min_eq_left hspent.le_limit).symm ▸ hspent⟩
  | @act m y h env he hf a hk ih =>
    obtain ⟨hy, hn⟩ := ih
    refine ⟨hy.act env y.world a, ?_⟩
    have hact := hn.act he hf hp hu hs hy hk
    have hcount (k : Nat) : min (min (n + m) Record.limit + k) Record.limit = min (n + (m + k)) Record.limit := by
      omega
    rwa [hcount] at hact
  | @others m y h w hk ih =>
    obtain ⟨hy, hn⟩ := ih
    obtain ⟨v, hv⟩ := Option.isSome_iff_exists.1 hk
    obtain ⟨bytes, hbytes, hd⟩ := Store.snapshot?_eq_some.1 hv
    exact ⟨hy, ⟨bytes, v, hbytes, hd⟩, hn.counted, hn.beyond⟩

/-- A key beyond its budget is pending, and the next pass offers it to the sink. -/
theorem escalates (hspent : Spent p.maximumRedeliveries n (y.view key)) (hp : s.policy? = .ok p)
    (hu : p.useRecovery = true) (hs : Repository.sinkAddress? s p = some uri) (hy : y.repository.Follows s) :
    y.Escalates s p uri key n := by
  have hstate : y.repository.stateOf key = .pending n := by
    obtain ⟨record, hr, hn⟩ := hspent.counted
    have hpos := hspent.beyond
    have hr : y.repository.records[key]? = some record := hr
    rw [Repository.stateOf, hr]
    show record.state = _
    rw [Record.state, hn, if_neg (by omega)]
  refine ⟨hspent.stored, hspent.beyond, hstate, fun env he hrun => ?_, fun env he hf hrun => ?_⟩
  · obtain ⟨q, hq⟩ := Option.isSome_iff_exists.1 hrun
    obtain ⟨bytes, v, hbytes, hd⟩ := hspent.readable
    have hv : y.world.store.snapshot? key = some v := Store.snapshot?_eq_some.2 ⟨bytes, hbytes, hd⟩
    rcases Environment.result_get_of_snapshot? env hv with hget | ⟨e, -, hfaulty⟩
    · rw [Site.act_state env s hq, hget, ← hstate]
      rfl
    · exact absurd he hfaulty
  · obtain ⟨rep, hrep, hkeys⟩ := Site.act_pass_of_healthy he hp hu hy hrun
    obtain ⟨l?, hpass, hl⟩ := hkeys key
    obtain ⟨rfl, bytes, v, e, record, hbytes, hd, -, hc⟩ := hspent.pass he hf hs hpass
    refine ⟨v, rep, e, Store.snapshot?_eq_some.2 ⟨bytes, hbytes, hd⟩, hrep, fun l => ?_, ?_, ?_, ?_⟩
    · rw [hl, Option.some.injEq, eq_comm]
    · rw [hc]
    · rw [hc]
    · rw [hc, hspent.next_eq]
      rfl

end Site

/--
Exhaustion is permanent. Under every valid budget, observations count up to the largest number and never beyond or
back, and a budget that is spent stays spent. So at every repository that actions lead to, a stored key beyond its
budget is offered to the sink by every later pass and stays pending with one more attempt, as long as the store has no
faults, the sink refuses every letter, and the key is neither removed nor confirmed: no pass hands it back, and it is
never in flight again, however many passes there are.
-/
theorem exhaustion_is_permanent :
    (∀ (c : Config) (p : Policy), c.policy? = .ok p →
      ∀ (r : Record) (times : List Instant), r.Saturates times p.maximumRedeliveries) ∧
    ∀ (s : Setup) (p : Policy) (uri : String), s.policy? = .ok p → p.deadLetterUri = some uri →
      ∀ (x : Site) (key : CorrelationKey) (r : Record), Reachable s x.repository →
        (x.world.store.snapshot? key).isSome → x.repository.records[key]? = some r →
        r.isExhausted p.maximumRedeliveries = true →
        ∀ n y, Site.Outstanding s key x n y → y.Escalates s p uri key (min (r.attempts + n) (2 ^ 32 - 1)) := by
  refine ⟨fun c p hp r times => r.saturates times (Config.maximumRedeliveries_lt hp), ?_⟩
  intro s p uri hp huri x key r hx hk hr hexhausted n y hrun
  have hu : p.useRecovery = true := hx.recovers hp hr
  have hs : Repository.sinkAddress? s p = some uri := by rw [Setup.sinkAddress?_eq hp hu, huri]
  obtain ⟨v, hv⟩ := Option.isSome_iff_exists.1 hk
  obtain ⟨bytes, hbytes, hd⟩ := Store.snapshot?_eq_some.1 hv
  have hspent : Spent p.maximumRedeliveries r.attempts (x.view key) :=
    ⟨⟨bytes, v, hbytes, hd⟩, ⟨r, hr, rfl⟩, of_decide_eq_true hexhausted⟩
  obtain ⟨hy, hn⟩ := hrun.spent hp hu hs hx.follows hspent
  exact Site.escalates hn hp hu hs hy

/-- A key without redeliveries whose letter was refused twice is offered to the sink by the next pass as well. -/
theorem exhaustion_is_permanent_refused :
    let s : Setup := { config := { maximumRedeliveries := 0, deadLetterUri := some "direct:dead" }, hasSink := true }
    let env : Environment := { sink := fun _ _ => .error (.rejected "full") }
    let actions : List Action :=
      [.start, .add ⟨"key"⟩ { id := "exchange" } (Exchange.fits_of_id (by decide)), .pass]
    let y := ((Site.run env s {} actions).act env s .pass).2
    ((Record.new ⟨"key"⟩ .year2025).observed [.year2025]).isExhausted 0 = true ∧
      (y.act env s (.state ⟨"key"⟩)).1 = .ok (.state (some (.pending 2))) ∧
      ∃ rep, (y.act env s .pass).1 = .ok (.report rep) ∧ ⟨"key"⟩ ∈ rep.failed ∧ ⟨"key"⟩ ∉ rep.redelivered := by
  intro s env actions
  dsimp only
  have he : env.Healthy := fun _ => rfl
  have hf : env.Refusing := fun _ _ => ⟨_, rfl⟩
  have hp : s.policy? = .ok
      { useRecovery := true, interval := 5000, maximumRedeliveries := 0, deadLetterUri := some "direct:dead",
        allowSerializedHeaders := false, shutdownTimeout := 30000 } := rfl
  have hx : Reachable s (Site.run env s {} actions).repository := Site.run_reachable actions
  have hk : ((Site.run env s {} actions).world.store.snapshot? ⟨"key"⟩).isSome := by decide +kernel
  have hr : (Site.run env s {} actions).repository.records[(⟨"key"⟩ : CorrelationKey)]? =
      some { key := ⟨"key"⟩, attempts := 1, lastSeen := s.clock } := by decide +kernel
  have hreport : ((Site.run env s {} actions).moment env s .pass).report?.isSome = true := by decide +kernel
  have hrefl : Site.Outstanding s ⟨"key"⟩ (Site.run env s {} actions) 0 _ := .refl
  have hrun := hrefl.act env he hf .pass (fun h => by cases h)
  rw [hreport] at hrun
  have hrunning : ((Site.run env s {} actions).act env s .pass).2.repository.isRunning = true := by decide +kernel
  obtain ⟨hrecords, hsites⟩ := exhaustion_is_permanent
  have h := hsites s _ "direct:dead" hp rfl _ ⟨"key"⟩ _ hx hk hr rfl _ _ hrun
  obtain ⟨v, rep, e, -, hrep, hl, -⟩ := h.passed env he hf hrunning
  have hobserved := hrecords s.config _ (Setup.policy?_eq_ok hp).1 (Record.new ⟨"key"⟩ .year2025) [.year2025]
  exact ⟨hobserved.spent.2 (by decide), h.asked env he hrunning, rep, hrep, (hl .failed).2 rfl,
    fun hmem => nomatch (hl .redelivered).1 hmem⟩

end DurableAggregates
