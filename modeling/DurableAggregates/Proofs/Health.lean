import DurableAggregates.Proofs.Budget.Redelivery
import DurableAggregates.Proofs.DeadLetters

/-!
# The health of a repository and the store

A repository that alone writes a store without faults tells by its health what has become of the store, although it
keeps records, letters, the policy and the last error apart from it. Its records are those of the stored keys that an
enabled pass has seen since they were stored, and a record is above the budget if the sink refused the last letter for
the key (`Kept`). Both can be told from the history alone (`passesSince`, `refusedLast`), as can whether the last start
has failed (`startFailed`, `Diagnosed`). The main result is `health_matches_store`.
-/

namespace DurableAggregates

/-! ## What the history tells -/

/-- Whether the sink refused the last letter for the key, if it was stored ever since, with what was known before. -/
def KeyView.refusedLast (b c : KeyView) (refused : Bool) : Bool :=
  match c.entry, (c.letters.drop b.letters.length).getLast? with
  | none, _ => false
  | some _, some (_, answer) => !answer.isOk
  | some _, none => refused

/-- Whether the sink refused the last letter for the key, and the key has been stored ever since. -/
def refusedLast (key : CorrelationKey) (past : List Moment) : Bool :=
  past.foldl (fun refused m => (m.before.view key).refusedLast (m.after.view key) refused) false

theorem refusedLast_concat (key : CorrelationKey) (past : List Moment) (m : Moment) :
    refusedLast key (past ++ [m]) = (m.before.view key).refusedLast (m.after.view key) (refusedLast key past) := by
  rw [refusedLast, List.foldl_append]
  rfl

/-- Whether the last start has failed, with what was known before. -/
def Moment.startFailed (m : Moment) (failed : Bool) : Bool :=
  match m.action, m.answer with
  | .start, .error _ => true
  | .start, .ok _ => false
  | _, _ => failed

/-- Whether the last start has failed. -/
def startFailed (past : List Moment) : Bool := past.foldl (fun failed m => m.startFailed failed) false

theorem startFailed_concat (past : List Moment) (m : Moment) :
    startFailed (past ++ [m]) = m.startFailed (startFailed past) := by
  rw [startFailed, List.foldl_append]
  rfl

/-! ## The record of one key -/

/-- Whether a record is above the budget of the policy. -/
def Setup.exceeds (s : Setup) (record : Record) : Prop :=
  ∃ p, s.policy? = .ok p ∧ record.isExhausted p.maximumRedeliveries = true

theorem Setup.exceeds_iff {s : Setup} {p : Policy} (hp : s.policy? = .ok p) (record : Record) :
    s.exceeds record ↔ p.maximumRedeliveries < record.attempts := by
  constructor
  · rintro ⟨q, hq, h⟩
    rw [hp] at hq
    cases hq
    exact of_decide_eq_true h
  · intro h
    exact ⟨p, hp, decide_eq_true h⟩

/-- A repository keeps the record of a stored key that a pass has seen, and its number tells of a refused letter. -/
structure Kept (s : Setup) (n : Nat) (refused : Bool) (b : KeyView) : Prop where
  readable : ∀ bytes, b.entry = some bytes → ∃ v, Snapshot.decode bytes = .ok v
  tracked : b.record ≠ none ↔ b.entry ≠ none ∧ s.config.useRecovery = true ∧ 0 < n
  above : (∃ record, b.record = some record ∧ s.exceeds record) ↔ refused = true

namespace Kept

variable {env : Environment} {s : Setup} {p : Policy} {key : CorrelationKey} {n : Nat} {refused : Bool}
  {b c : KeyView}

theorem of_absent (he : b.entry = none) (hr : b.record = none) (n : Nat) : Kept s n false b := by
  refine ⟨fun bytes h => ?_, ?_, ?_⟩
  · rw [he] at h
    cases h
  · simp [he, hr]
  · simp [hr]

theorem record_of_absent (h : Kept s n refused b) (he : b.entry = none) : b.record = none := by
  by_contra hr
  exact (h.tracked.1 hr).1 he

theorem refused_of_absent (h : Kept s n refused b) (he : b.entry = none) : refused = false := by
  rw [Bool.eq_false_iff]
  intro hx
  obtain ⟨record, hr, -⟩ := h.above.2 hx
  rw [h.record_of_absent he] at hr
  cases hr

/-- The record of a refused letter is above the budget, and the next attempt is no redelivery either. -/
theorem not_refused (h : Kept s n refused b) (hp : s.policy? = .ok p) (hn : b.next ≤ p.maximumRedeliveries) :
    refused = false := by
  rw [Bool.eq_false_iff]
  intro hx
  obtain ⟨record, hr, hover⟩ := h.above.2 hx
  have hlt := (Setup.exceeds_iff hp record).1 hover
  have hmax := Setup.maximumRedeliveries_lt hp
  rw [KeyView.next, hr, Option.elim_some] at hn
  omega

/-- Another entry for the key changes nothing. -/
theorem stored (h : Kept s n refused b) {v : Snapshot} (hv : v.Fits) :
    Kept s (b.since { b with entry := some v.encode } false n) refused { b with entry := some v.encode } := by
  refine ⟨fun bytes hx => ?_, ?_, h.above⟩
  · cases hx
    exact ⟨_, Snapshot.decode_encode hv⟩
  · show b.record ≠ none ↔ some v.encode ≠ none ∧ s.config.useRecovery = true ∧ 0 < _
    unfold KeyView.since
    by_cases hb : b.entry = none
    · simp [hb, h.record_of_absent hb]
    · simp [hb, h.tracked]

/-- A pass that ends sees every stored key; a letter that it sends is accepted, or the record is above the budget. -/
theorem passed (h : Kept s n refused b) (he : env.Healthy) (hp : s.policy? = .ok p) (hu : p.useRecovery = true)
    {l? : Option Listing} (hk : KeyPass env s p key b l? c) :
    Kept s (b.since c true n) (b.refusedLast c refused) c := by
  have hs : s.config.useRecovery = true := by rw [← Setup.useRecovery_of_policy? hp, hu]
  cases hk with
  | absent hb =>
    rw [show b.refusedLast { b with record := none } refused = false by simp [KeyView.refusedLast, hb]]
    refine .of_absent ?_ rfl _
    exact hb
  | unread hf =>
    obtain ⟨bytes, f, hb, hd⟩ := hf he
    obtain ⟨v, hv⟩ := h.readable bytes hb
    rw [hd] at hv
    cases hv
  | handed bytes v hb hv hn record hr =>
    have hno := h.not_refused hp hn
    refine ⟨h.readable, ?_, ?_⟩
    · simp [KeyView.since, hb, hs]
    · have hin : ¬ s.exceeds record := by
        rw [Setup.exceeds_iff hp, hr]
        omega
      simp [KeyView.refusedLast, hb, hno, hin]
  | refused bytes v hb hv hn hf letter e record hr =>
    refine ⟨h.readable, ?_, ?_⟩
    · simp [KeyView.since, hb, hs]
    · have hover : s.exceeds record := by
        rw [Setup.exceeds_iff hp, hr]
        exact hn
      simp [KeyView.refusedLast, hb, hover, Except.isOk, Except.toBool]
  | kept bytes v hb hv hn hf => exact absurd he hf
  | moved bytes v => exact .of_absent rfl rfl _

/-- Every action keeps what is known of a key. -/
theorem step (h : Kept s n refused b) (he : env.Healthy) {rep? : Option Report} (hk : KeyStep env s key b rep? c) :
    Kept s (b.since c rep?.isSome n) (b.refusedLast c refused) c := by
  have hsame (b : KeyView) (h : Kept s n refused b) : b.refusedLast b refused = refused := by
    unfold KeyView.refusedLast
    cases hb : b.entry with
    | none => simp [h.refused_of_absent hb]
    | some bytes => simp
  cases hk with
  | kept =>
    rw [hsame b h, KeyView.since, if_neg (fun hx => hx.2 hx.1)]
    exact h
  | dropped => exact .of_absent rfl rfl _
  | stored v hv =>
    have hrefused : b.refusedLast { b with entry := some v.encode } refused = refused := by simp [KeyView.refusedLast]
    rw [hrefused]
    exact h.stored hv
  | idle p hp hu rep =>
    have hs : s.config.useRecovery = false := by rw [← Setup.useRecovery_of_policy? hp, hu]
    rw [hsame b h]
    refine ⟨h.readable, ?_, h.above⟩
    have htracked := h.tracked
    simp only [hs, Bool.false_eq_true, false_and, and_false] at htracked ⊢
    exact htracked
  | passed p hp hu rep l? c hk => exact h.passed he hp hu hk

end Kept

/-- In a run of a repository that alone writes a store without faults, the record of a key tells of the store. -/
theorem kept_run {env : Environment} (he : env.Healthy) (s : Setup) (actions : List Action) (key : CorrelationKey) :
    let past := Site.history env s {} actions
    Kept s (passesSince key past) (refusedLast key past) ((Site.run env s {} actions).view key) := by
  refine (Site.run_induction (x := {})
    (P := fun past x => x.repository.Follows s ∧ Kept s (passesSince key past) (refusedLast key past) (x.view key))
    ⟨Repository.follows_new s, ?_⟩ ?_ actions).2
  · exact .of_absent (by simp [Site.view, Repository.view]) (by simp [Site.view, Repository.view]) 0
  · rintro past x a ⟨hf, hk⟩
    refine ⟨hf.act env x.world a, ?_⟩
    rw [passesSince_concat, refusedLast_concat]
    exact hk.step he (Site.keyStep hf env a key)

/-! ## The last error -/

namespace Repository

open Environment

variable {env : Environment} {s : Setup} {p : Policy} {r : Repository} {w : World} {key : CorrelationKey}

theorem Recovered.lastError {x : Except RepositoryError Outcome} {t : Repository} {u : World}
    (h : Recovered env s p key r w x t u) : t.lastError = r.lastError := by
  cases h with
  | handed => unfold handedBack; split <;> rfl
  | moved => unfold escalated; split <;> rfl
  | unread | gone | refused | kept => rfl

@[simp] theorem lastError_noting (r : Repository) (x : Except RepositoryError Outcome) :
    (r.noting x).lastError = r.lastError := by
  cases x <;> rfl

/-- A pass is no lifecycle matter. -/
theorem Follows.lastError_pass (hf : r.Follows s) (env : Environment) (w : World) :
    ((pass s).exec env r w).2.1.lastError = r.lastError := by
  cases ha : r.active with
  | none =>
    unfold pass
    rw [Operation.exec_bind_error (runningPolicy_exec_none ha)]
  | some p =>
    rcases pass_induction env w ha (Setup.useRecovery_of_policy? (hf p ha))
      (P := fun _ _ t _ => t.lastError = r.lastError)
      (fun _ _ _ r' _ x t _ _ h hr => by rw [lastError_noting, hr.lastError, h]) (fun _ _ => rfl) with
      ⟨e, -, he⟩ | ⟨-, n, he⟩ | ⟨-, stored, rep, t, u, -, he, h⟩
    · rw [he]
    · rw [he]
    · rw [he]
      exact h

end Repository

/-- The last error is of the last start if that has failed, and a running repository has started. -/
structure Diagnosed (failed : Bool) (r : Repository) : Prop where
  unhealthy : r.lastError.any (·.unhealthy) = failed
  running : r.isRunning = true → failed = false

namespace Diagnosed

open Repository

variable {env : Environment} {s : Setup} {failed : Bool} {x : Site}

theorem of_same {r t : Repository} (h : Diagnosed failed r) (ha : t.active = r.active)
    (hl : t.lastError = r.lastError) : Diagnosed failed t := by
  refine ⟨by rw [hl, h.unhealthy], fun hr => h.running ?_⟩
  rwa [isRunning, ha] at hr

theorem start (h : Diagnosed failed x.repository) (env : Environment) (s : Setup) :
    Diagnosed ((x.moment env s .start).startFailed failed) (x.act env s .start).2.repository := by
  rcases start_exec env s x.repository x.world with ⟨hr, hx⟩ | ⟨e, f, -, hx, hr, hf⟩ | ⟨p, -, hx⟩
  · rw [Site.moment, Site.act_of_exec rfl hx]
    show Diagnosed false x.repository
    rw [← h.running hr]
    exact h
  · rw [Site.moment, Site.act_of_exec rfl hx]
    refine ⟨hf, fun hx => ?_⟩
    replace hx : x.repository.isRunning = true := hx
    rw [hr] at hx
    cases hx
  · rw [Site.moment, Site.act_of_exec rfl hx]
    exact ⟨rfl, fun _ => rfl⟩

theorem stop (h : Diagnosed failed x.repository) (env : Environment) (s : Setup) :
    Diagnosed failed (x.act env s .stop).2.repository := by
  obtain ⟨y, e, hx, he⟩ := stop_exec env x.repository x.world
  rw [Site.act_of_exec rfl hx]
  refine ⟨?_, fun hr => by cases hr⟩
  rcases he with rfl | ⟨hr, f, rfl⟩
  · exact h.unhealthy
  · rw [h.running hr]
    rfl

theorem step (h : Diagnosed failed x.repository) (hf : x.repository.Follows s) (env : Environment) (a : Action) :
    Diagnosed ((x.moment env s a).startFailed failed) (x.act env s a).2.repository := by
  by_cases hstart : a = .start
  · subst hstart
    exact h.start env s
  have hsame : (x.moment env s a).startFailed failed = failed := by
    unfold Site.moment Moment.startFailed
    cases a with
    | start => exact absurd rfl hstart
    | _ => rfl
  rw [hsame]
  by_cases hstop : a = .stop
  · subst hstop
    exact h.stop env s
  by_cases hpass : a = .pass
  · subst hpass
    rw [Site.act_pass]
    refine h.of_same ?_ (hf.lastError_pass env x.world)
    rcases hf.pass_cases env x.world with ⟨-, he⟩ | ⟨p, y, t, u, -, -, he, hp⟩
    · rw [he]
    · rw [he]
      exact hp.active
  · have hl : a.isLifecycle = false := by
      cases a with
      | start => exact absurd rfl hstart
      | stop => exact absurd rfl hstop
      | _ => rfl
    obtain ⟨ha, hl⟩ := (action_exec env s x.repository x.world hpass).lifecycle hl
    exact h.of_same ha hl

end Diagnosed

theorem diagnosed_run (env : Environment) (s : Setup) (actions : List Action) :
    Diagnosed (startFailed (Site.history env s {} actions)) (Site.run env s {} actions).repository := by
  refine (Site.run_induction (x := {})
    (P := fun past x => x.repository.Follows s ∧ Diagnosed (startFailed past) x.repository)
    ⟨Repository.follows_new s, ⟨rfl, fun h => by cases h⟩⟩ ?_ actions).2
  rintro past x a ⟨hf, h⟩
  refine ⟨hf.act env x.world a, ?_⟩
  rw [startFailed_concat]
  exact h.step hf env a

/-! ## The health -/

namespace Repository

/-- Some key is above the budget. -/
def Overdue (s : Setup) (r : Repository) : Prop :=
  ∃ (key : CorrelationKey) (record : Record), r.records[key]? = some record ∧ s.exceeds record

theorem exhausted_pos {s : Setup} {p : Policy} (hp : s.policy? = .ok p) (r : Repository) :
    0 < r.exhausted p.maximumRedeliveries ↔ r.Overdue s := by
  rw [exhausted, List.countP_pos_iff]
  constructor
  · rintro ⟨⟨key, record⟩, hm, h⟩
    exact ⟨key, record, Std.ExtTreeMap.mem_toList_iff_getElem?_eq_some.1 hm, p, hp, h⟩
  · rintro ⟨key, record, hm, hover⟩
    exact ⟨(key, record), Std.ExtTreeMap.mem_toList_iff_getElem?_eq_some.2 hm,
      decide_eq_true ((Setup.exceeds_iff hp record).1 hover)⟩

theorem not_overdue {s : Setup} {e : ConfigError} (hp : s.policy? = .error e) (r : Repository) : ¬ r.Overdue s := by
  rintro ⟨key, record, -, p, hq, -⟩
  rw [hp] at hq
  cases hq

/-- A failed start counts before keys above the budget, and these before a repository that is not running. -/
theorem health_status (r : Repository) (s : Setup) :
    ((r.health s).status = .unhealthy ↔ r.lastError.any (·.unhealthy) = true) ∧
    ((r.health s).status = .degraded ↔
      r.lastError.any (·.unhealthy) = false ∧ (r.Overdue s ∨ r.isRunning = false)) := by
  have hany : r.lastError.any (·.unhealthy) = (r.lastError.filter (·.unhealthy)).isSome := by
    cases r.lastError with
    | none => rfl
    | some e => cases he : e.unhealthy <;> simp [he]
  rw [hany]
  unfold health
  cases r.lastError.filter (·.unhealthy) with
  | some e => simp [HealthCheck.withMetadata, HealthCheck.unhealthy]
  | none =>
    cases hp : s.policy? with
    | error e =>
      cases r.isRunning <;>
        simp [not_overdue hp r, HealthCheck.withMetadata, HealthCheck.degraded, HealthCheck.healthy]
    | ok p =>
      rw [← exhausted_pos hp r]
      by_cases hw : 0 < r.exhausted p.maximumRedeliveries
      · simp [hw, HealthCheck.withMetadata, HealthCheck.degraded]
      · cases r.isRunning <;> simp [hw, HealthCheck.withMetadata, HealthCheck.degraded, HealthCheck.healthy]

end Repository

/-- Two maps of which one has the keys of the other for which a test holds. -/
theorem size_eq_countP {α β : Type} (t : KeyMap α) (m : KeyMap β) (f : CorrelationKey → Bool)
    (h : ∀ key, key ∈ t ↔ key ∈ m ∧ f key = true) : t.size = m.keys.countP f := by
  have hperm : t.keys.Perm (m.keys.filter f) := by
    rw [List.perm_ext_iff_of_nodup Std.ExtTreeMap.nodup_keys (Std.ExtTreeMap.nodup_keys.filter f)]
    intro key
    rw [List.mem_filter, Std.ExtTreeMap.mem_keys, Std.ExtTreeMap.mem_keys]
    exact h key
  rw [← Std.ExtTreeMap.length_keys, hperm.length_eq, List.countP_eq_length_filter]

/--
The health of a repository that alone writes a store without faults, whatever the sink answers. A key has a record if
it is stored and an enabled pass has ended since it was last stored anew. The record is above the budget if the sink
refused the last letter for the key and the key has been stored ever since. The health tells how many letters the sink
has accepted and how many keys have a record. It is unhealthy if the last start has failed, otherwise degraded if some
record is above the budget or the repository is not running, and otherwise healthy.
-/
theorem health_matches_store {env : Environment} (he : env.Healthy) (s : Setup) (actions : List Action) :
    let x := Site.run env s {} actions
    let past := Site.history env s {} actions
    let health := x.repository.health s
    (∀ key, key ∈ x.repository.records ↔
      key ∈ x.world.store.data ∧ s.config.useRecovery = true ∧ 0 < passesSince key past) ∧
    (∀ key, (∃ record, x.repository.records[key]? = some record ∧ s.exceeds record) ↔
      key ∈ x.world.store.data ∧ refusedLast key past = true) ∧
    health.metadata? "dead_lettered" = some (toString x.world.accepted.length) ∧
    health.metadata? "tracked_keys" = some (toString
      (x.world.store.data.keys.countP fun key => s.config.useRecovery && 0 < passesSince key past)) ∧
    (health.status = .unhealthy ↔ startFailed past = true) ∧
    (health.status = .degraded ↔ startFailed past = false ∧
      ((∃ key ∈ x.world.store.data, refusedLast key past = true) ∨ x.repository.isRunning = false)) := by
  intro x past health
  have hkept (key : CorrelationKey) : Kept s (passesSince key past) (refusedLast key past) (x.view key) :=
    kept_run he s actions key
  have hrecords (key : CorrelationKey) : key ∈ x.repository.records ↔
      key ∈ x.world.store.data ∧ s.config.useRecovery = true ∧ 0 < passesSince key past := by
    rw [Std.ExtTreeMap.mem_iff_isSome_getElem?, Std.ExtTreeMap.mem_iff_isSome_getElem?, Option.isSome_iff_ne_none,
      Option.isSome_iff_ne_none]
    exact (hkept key).tracked
  have habove (key : CorrelationKey) : (∃ record, x.repository.records[key]? = some record ∧ s.exceeds record) ↔
      key ∈ x.world.store.data ∧ refusedLast key past = true := by
    refine (hkept key).above.trans ⟨fun hr => ⟨?_, hr⟩, And.right⟩
    rw [Std.ExtTreeMap.mem_iff_isSome_getElem?, Option.isSome_iff_ne_none]
    intro hd
    rw [(hkept key).refused_of_absent hd] at hr
    cases hr
  have hletters : x.repository.deadLettered = x.world.accepted.length := by
    obtain ⟨-, htotal, hsettled⟩ := letters_counted env s {} actions
    have hnone : past.flatMap (·.unsettled) = [] := List.flatMap_eq_nil_iff.2 (hsettled he)
    replace htotal : x.repository.deadLettered + (past.flatMap (·.unsettled)).length = x.world.accepted.length := htotal
    rwa [hnone] at htotal
  have hdiagnosed : Diagnosed (startFailed past) x.repository := diagnosed_run env s actions
  obtain ⟨hunhealthy, hdegraded⟩ := Repository.health_status x.repository s
  refine ⟨hrecords, habove, ?_, ?_, ?_, ?_⟩
  · rw [Repository.health_deadLettered, hletters]
  · have hsize := size_eq_countP x.repository.records x.world.store.data
      (fun key => s.config.useRecovery && 0 < passesSince key past)
      fun key => by rw [hrecords, Bool.and_eq_true, decide_eq_true_iff]
    rw [Repository.health_tracked, hsize]
  · rw [← hdiagnosed.unhealthy]
    exact hunhealthy
  · rw [← hdiagnosed.unhealthy]
    refine hdegraded.trans (and_congr_right fun _ => or_congr_left ?_)
    exact exists_congr habove

/-- A key whose letter was refused makes the repository degraded. -/
theorem health_of_refused_letter :
    let s : Setup := { config := { maximumRedeliveries := 0, deadLetterUri := some "direct:dead" }, hasSink := true }
    let env : Environment := { sink := fun _ _ => .error (.rejected "no") }
    let actions : List Action := [.start, .add ⟨"key"⟩ { id := "exchange" } (Exchange.fits_of_id (by decide)), .pass]
    let x := Site.run env s {} actions
    (x.repository.health s).status = .degraded ∧ (x.repository.health s).metadata? "tracked_keys" = some "1" ∧
      ∃ record, x.repository.records[(⟨"key"⟩ : CorrelationKey)]? = some record ∧ s.exceeds record := by
  intro s env actions
  dsimp only
  have hkey : (⟨"key"⟩ : CorrelationKey) ∈ (Site.run env s {} actions).world.store.data := by decide +kernel
  have hrefused : refusedLast ⟨"key"⟩ (Site.history env s {} actions) = true := by decide +kernel
  have hstart : startFailed (Site.history env s {} actions) = false := by decide +kernel
  have hcount : (Site.run env s {} actions).world.store.data.keys.countP (fun key =>
    s.config.useRecovery && 0 < passesSince key (Site.history env s {} actions)) = 1 := by decide +kernel
  obtain ⟨-, habove, -, htracked, -, hdegraded⟩ := health_matches_store (fun _ => rfl : env.Healthy) s actions
  rw [hcount] at htracked
  exact ⟨hdegraded.2 ⟨hstart, .inl ⟨_, hkey, hrefused⟩⟩, htracked, (habove _).2 ⟨hkey, hrefused⟩⟩

end DurableAggregates
