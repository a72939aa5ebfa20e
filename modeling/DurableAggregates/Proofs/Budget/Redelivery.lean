import DurableAggregates.Proofs.Execution.Steps

/-!
# The redelivery budget

A repository that alone writes a store without faults hands a stored key back once in every pass until the budget is
spent, and the next pass moves it out. What it knows of a key is the number of passes since the key was last stored
anew, and that number can be told from the history alone (`passesSince`): the record of the key has counted it
(`Budgeted`), through replaced entries, stops and starts. The main result is `redelivery_budget`.
-/

namespace DurableAggregates

/-- The passes since the key was last stored anew: none if that is now, one more if a pass has ended. -/
def KeyView.since (b c : KeyView) (ended : Bool) (n : Nat) : Nat :=
  if b.entry = none ∧ c.entry ≠ none then 0 else if ended then n + 1 else n

def Moment.since (key : CorrelationKey) (n : Nat) (m : Moment) : Nat :=
  (m.before.view key).since (m.after.view key) m.report?.isSome n

/-- How many passes have ended with a report since the key was last stored where nothing was stored before. -/
def passesSince (key : CorrelationKey) (past : List Moment) : Nat := past.foldl (Moment.since key) 0

theorem passesSince_concat (key : CorrelationKey) (past : List Moment) (m : Moment) :
    passesSince key (past ++ [m]) = m.since key (passesSince key past) := by
  rw [passesSince, List.foldl_append]
  rfl

/-! ## The step of one key -/

/-- Without faults a pass leaves nothing of a key that is not stored. -/
theorem KeyPass.of_absent {env : Environment} {s : Setup} {p : Policy} {key : CorrelationKey} {b c : KeyView}
    {l? : Option Listing} (h : KeyPass env s p key b l? c) (he : env.Healthy) (hb : b.entry = none) :
    c.entry = none ∧ c.record = none := by
  cases h with
  | absent => exact ⟨hb, rfl⟩
  | moved => exact ⟨rfl, rfl⟩
  | unread hf =>
    obtain ⟨bytes, f, hs, -⟩ := hf he
    rw [hb] at hs
    cases hs
  | handed bytes v hs | refused bytes v hs | kept bytes v hs =>
    rw [hb] at hs
    cases hs

/-- A key that is stored has seen `n` passes and is not beyond the budget; one that is not has no record. -/
structure Budgeted (maximum n : Nat) (b : KeyView) : Prop where
  absent : b.entry = none → b.record = none
  readable : ∀ bytes, b.entry = some bytes → ∃ v, Snapshot.decode bytes = .ok v
  counted : b.entry ≠ none → b.record.elim 0 Record.attempts = n
  within : b.entry ≠ none → n ≤ maximum

namespace Budgeted

variable {env : Environment} {s : Setup} {p : Policy} {key : CorrelationKey} {n : Nat} {b c : KeyView}

theorem of_absent {maximum : Nat} (he : b.entry = none) (hr : b.record = none) : Budgeted maximum n b := by
  refine ⟨fun _ => hr, fun bytes h => ?_, fun h => absurd he h, fun h => absurd he h⟩
  rw [he] at h
  cases h

/-- The next attempt comes after as many as the passes that the key has seen. -/
theorem next_eq (h : Budgeted p.maximumRedeliveries n b) (hp : s.policy? = .ok p) (hb : b.entry ≠ none) :
    b.next = n + 1 := by
  have hmax := Setup.maximumRedeliveries_lt hp
  have hn := h.within hb
  rw [KeyView.next, h.counted hb]
  omega

/--
Without faults and refusals, a pass hands back a stored key that is within its budget and moves out one that has
spent it.
-/
theorem pass_cases (h : Budgeted p.maximumRedeliveries n b) (he : env.Healthy) (ha : env.Accepting)
    (hp : s.policy? = .ok p) {l? : Option Listing} (hk : KeyPass env s p key b l? c) (hb : b.entry ≠ none) :
    ∃ bytes v, b.entry = some bytes ∧ Snapshot.decode bytes = .ok v ∧
      ((n + 1 ≤ p.maximumRedeliveries ∧ l? = some .redelivered ∧ ∃ record : Record, record.attempts = n + 1 ∧
          c = { b with
            record := some record
            handed := b.handed ++ Repository.handBacks s p key v (n + 1) }) ∨
        (n = p.maximumRedeliveries ∧ l? = some (Repository.lastListing s p) ∧
          c = { b with
            entry := none
            record := none
            letters := b.letters ++ Repository.accepted s p key v (n + 1) })) := by
  have hnext := h.next_eq hp hb
  have hn := h.within hb
  cases hk with
  | absent hnone => exact absurd hnone hb
  | unread hf record hr =>
    obtain ⟨bytes, f, hbytes, hd⟩ := hf he
    obtain ⟨v, hv⟩ := h.readable bytes hbytes
    rw [hd] at hv
    cases hv
  | handed bytes v hbytes hv hle record hr =>
    rw [hnext] at hle hr ⊢
    exact ⟨bytes, v, hbytes, hv, .inl ⟨hle, rfl, record, hr, rfl⟩⟩
  | refused bytes v hbytes hv hlt hf => exact absurd ha hf
  | kept bytes v hbytes hv hlt hf => exact absurd he hf
  | moved bytes v hbytes hv hlt =>
    rw [hnext] at hlt ⊢
    exact ⟨bytes, v, hbytes, hv, .inr ⟨by omega, rfl, rfl⟩⟩

/-- What a stored key has seen does not depend on what is stored. -/
theorem replaced (h : Budgeted p.maximumRedeliveries n b) {v : Snapshot} (hv : v.Fits) (hb : b.entry ≠ none) :
    Budgeted p.maximumRedeliveries n { b with entry := some v.encode } := by
  refine ⟨fun hx => absurd hx (Option.some_ne_none _), fun bytes hx => ?_, fun _ => h.counted hb,
    fun _ => h.within hb⟩
  cases hx
  exact ⟨_, Snapshot.decode_encode hv⟩

/-- A key that is stored anew has seen no pass. -/
theorem anew (h : Budgeted p.maximumRedeliveries n b) {v : Snapshot} (hv : v.Fits) (hb : b.entry = none) :
    Budgeted p.maximumRedeliveries 0 { b with entry := some v.encode } := by
  refine ⟨fun hx => absurd hx (Option.some_ne_none _), fun bytes hx => ?_, fun _ => ?_, fun _ => Nat.zero_le _⟩
  · cases hx
    exact ⟨_, Snapshot.decode_encode hv⟩
  · show b.record.elim 0 Record.attempts = 0
    rw [h.absent hb]
    rfl

/-- Every action counts. -/
theorem step (h : Budgeted p.maximumRedeliveries n b) (he : env.Healthy) (ha : env.Accepting)
    (hp : s.policy? = .ok p) (hu : p.useRecovery = true) {rep? : Option Report} (hk : KeyStep env s key b rep? c) :
    Budgeted p.maximumRedeliveries (b.since c rep?.isSome n) c := by
  unfold KeyView.since
  cases rep? with
  | none =>
    cases hk with
    | kept =>
      rw [if_neg (fun hx => hx.2 hx.1)]
      exact h
    | dropped => exact .of_absent rfl rfl
    | stored v hv =>
      by_cases hb : b.entry = none
      · rw [if_pos ⟨hb, Option.some_ne_none _⟩]
        exact h.anew hv hb
      · rw [if_neg (fun hx => hb hx.1)]
        exact h.replaced hv hb
  | some rep =>
    obtain ⟨l?, hkey, -⟩ := hk.of_report hp hu
    by_cases hb : b.entry = none
    · obtain ⟨he, hr⟩ := hkey.of_absent he hb
      exact .of_absent he hr
    · obtain ⟨bytes, v, hbytes, hv, ⟨hn, -, record, hr, hc⟩ | ⟨hn, -, hc⟩⟩ := h.pass_cases he ha hp hkey hb
      · subst hc
        rw [if_neg (fun hx => hb hx.1)]
        exact ⟨fun hx => absurd hx hb, h.readable, fun _ => hr, fun _ => hn⟩
      · subst hc
        exact .of_absent rfl rfl

end Budgeted

/-! ## Runs -/

/-- In a run of a repository that alone writes a store without faults every key is within its budget. -/
theorem budgeted_run {env : Environment} (he : env.Healthy) (ha : env.Accepting) {s : Setup} {p : Policy}
    (hp : s.policy? = .ok p) (hu : p.useRecovery = true) (actions : List Action) (key : CorrelationKey) :
    Budgeted p.maximumRedeliveries (passesSince key (Site.history env s {} actions))
      ((Site.run env s {} actions).view key) := by
  refine (Site.run_induction (x := {})
    (P := fun past x => x.repository.Follows s ∧ Budgeted p.maximumRedeliveries (passesSince key past) (x.view key))
    ⟨Repository.follows_new s, ?_⟩ ?_ actions).2
  · exact .of_absent (by simp [Site.view, Repository.view]) (by simp [Site.view, Repository.view])
  · rintro past x a ⟨hf, hb⟩
    refine ⟨hf.act env x.world a, ?_⟩
    rw [passesSince_concat]
    exact hb.step he ha hp hu (Site.keyStep hf env a key)

/-- The state of a key tells the passes that it has seen. -/
theorem stateOf_eq {r : Repository} {w : World} {key : CorrelationKey} {maximum n : Nat}
    (h : Budgeted maximum n (r.view w key)) (hk : key ∈ w.store.data) :
    r.stateOf key = if n = 0 then .inFlight else .pending n := by
  have hc : (r.records[key]?).elim 0 Record.attempts = n :=
    h.counted (Option.isSome_iff_ne_none.1 (Std.ExtTreeMap.mem_iff_isSome_getElem?.1 hk))
  unfold Repository.stateOf
  cases hr : r.records[key]? with
  | none =>
    rw [hr] at hc
    have hn : n = 0 := hc.symm
    rw [if_pos hn]
  | some record =>
    rw [hr] at hc
    simp only [Option.elim_some] at hc
    rw [← hc]
    rfl

theorem toInt_ofNat_of_lt_limit {n : Nat} (h : n < Record.limit) : (Int64.ofNat n).toInt = n := by
  refine Int64.toInt_ofNat_of_lt ?_
  unfold Record.limit at h
  omega

/-- The exchange of a snapshot as its redelivery with number `c` of at most `d`. -/
def redelivered (v : Snapshot) (key : CorrelationKey) (c d : Int64) : Exchange :=
  { v.restore with
    headers := ((v.restore.headers.insert "AggregationRedelivered" (.bool true)).insert
      "AggregationRedeliveryCounter" (.int c)).insert "AggregationRedeliveryMaxCounter" (.int d)
    properties := v.restore.properties.insert "AggregationCorrelationKey" (.text key.text) }

theorem handBacks_eq {s : Setup} {p : Policy} (hp : s.policy? = .ok p) {n : Nat} (hn : n ≤ p.maximumRedeliveries)
    (key : CorrelationKey) (v : Snapshot) : ∃ c d : Int64, c.toInt = n ∧ d.toInt = p.maximumRedeliveries ∧
      Repository.handBacks s p key v n = if s.hasEngine then [(key, redelivered v key c d)] else [] := by
  have hmax := Setup.maximumRedeliveries_lt hp
  exact ⟨.ofNat n, .ofNat p.maximumRedeliveries, toInt_ofNat_of_lt_limit (Nat.lt_of_le_of_lt hn hmax),
    toInt_ofNat_of_lt_limit hmax, rfl⟩

/-- With an address the last attempt is a letter. -/
theorem last_of_uri {s : Setup} {p : Policy} (hp : s.policy? = .ok p) (hu : p.useRecovery = true) {uri : String}
    (huri : p.deadLetterUri = some uri) (key : CorrelationKey) (v : Snapshot) (n : Nat) :
    Repository.lastListing s p = .deadLettered ∧
      Repository.accepted s p key v n = [(s.letter uri key v.restore n, .ok ())] := by
  have ha : Repository.sinkAddress? s p = some uri := by rw [Setup.sinkAddress?_eq hp hu, huri]
  rw [Repository.lastListing, Repository.accepted, ha]
  exact ⟨rfl, rfl⟩

/-- Without one the exchange is dropped. -/
theorem last_of_no_uri {s : Setup} {p : Policy} (hp : s.policy? = .ok p) (hu : p.useRecovery = true)
    (huri : p.deadLetterUri = none) (key : CorrelationKey) (v : Snapshot) (n : Nat) :
    Repository.lastListing s p = .discarded ∧ Repository.accepted s p key v n = [] := by
  have ha : Repository.sinkAddress? s p = none := by rw [Setup.sinkAddress?_eq hp hu, huri]
  rw [Repository.lastListing, Repository.accepted, ha]
  exact ⟨rfl, rfl⟩

/--
The law of the redelivery budget. In every run of a repository that alone writes a store without faults, whose sink
accepts every letter, let `n` be the passes that a key has seen since it was last stored anew. The state of the key
tells `n`, and the next pass hands the key back once as redelivery `n + 1` and keeps it while `n` is within the
budget; the task that this begins gives the exchange to the engine exactly once. When `n` is the budget the pass moves
the key out: with exactly one letter of its exchange and of the number of attempts if there is an address, and
otherwise without one.
-/
theorem redelivery_budget {env : Environment} (he : env.Healthy) (ha : env.Accepting) {s : Setup} {p : Policy}
    (hp : s.policy? = .ok p) (hu : p.useRecovery = true) (actions : List Action) (key : CorrelationKey) :
    let x := Site.run env s {} actions
    let y := (x.act env s .pass).2
    let n := passesSince key (Site.history env s {} actions)
    x.repository.isRunning = true →
      (x.act env s (.state key)).1 = .ok (.state (
        if key ∈ x.world.store.data then some (if n = 0 then .inFlight else .pending n) else none)) ∧
      ∃ rep, (x.act env s .pass).1 = .ok (.report rep) ∧
        (key ∈ x.world.store.data → n ≤ p.maximumRedeliveries ∧
          ∃ v, x.world.store.snapshot? key = some v ∧
            (n + 1 ≤ p.maximumRedeliveries →
              key ∈ rep.redelivered ∧ (y.view key).entry = (x.view key).entry ∧
              (y.view key).letters = (x.view key).letters ∧
              ∃ c d : Int64, c.toInt = n + 1 ∧ d.toInt = p.maximumRedeliveries ∧
                (y.view key).handed = (x.view key).handed ++
                  (if s.hasEngine then [(key, redelivered v key c d)] else []) ∧
                Procedure.AsksOnce (Cluster.redelivery key (redelivered v key c d)).run
                  (.deliver key (redelivered v key c d))) ∧
            (n = p.maximumRedeliveries →
              key ∉ y.world.store.data ∧ (y.view key).handed = (x.view key).handed ∧
              (∀ uri, p.deadLetterUri = some uri → key ∈ rep.deadLettered ∧
                (y.view key).letters = (x.view key).letters ++
                  [({ uri, key, exchange := v.restore, attempts := p.maximumRedeliveries + 1,
                      escalatedAt := s.clock }, .ok ())]) ∧
              (p.deadLetterUri = none → key ∈ rep.discarded ∧ (y.view key).letters = (x.view key).letters))) := by
  intro x y n hr
  have hb : Budgeted p.maximumRedeliveries n (x.view key) := budgeted_run he ha hp hu actions key
  have hf : x.repository.Follows s := Site.run_follows actions
  have hs : x.world.store.Sound := Site.run_sound Store.sound_empty actions
  obtain ⟨q, hq⟩ := Option.isSome_iff_exists.1 hr
  refine ⟨?_, ?_⟩
  · rw [Site.act_state env s hq, Environment.result_get_of_healthy he hs]
    by_cases hk : key ∈ x.world.store.data
    · obtain ⟨v, hv⟩ := Option.isSome_iff_exists.1 (hs key hk)
      rw [if_pos hk, hv, ← stateOf_eq hb hk]
      rfl
    · rw [if_neg hk, Store.snapshot?_eq_none hk]
      rfl
  · obtain ⟨rep, hrep, hkeys⟩ := Site.act_pass_of_healthy he hp hu hf hr
    refine ⟨rep, hrep, fun hk => ?_⟩
    have hentry : (x.view key).entry ≠ none := Option.isSome_iff_ne_none.1 (Std.ExtTreeMap.mem_iff_isSome_getElem?.1 hk)
    obtain ⟨l?, hpass, hl⟩ := hkeys key
    obtain ⟨bytes, v, hbytes, hv, hcase⟩ := hb.pass_cases he ha hp hpass hentry
    refine ⟨hb.within hentry, v, Store.snapshot?_eq_some.2 ⟨bytes, hbytes, hv⟩, fun hn => ?_, fun hn => ?_⟩
    · obtain ⟨-, rfl, record, -, hc⟩ | ⟨hn', -⟩ := hcase
      · obtain ⟨c, d, hcount, hmax, hback⟩ := handBacks_eq hp hn key v
        rw [hc]
        exact ⟨(hl .redelivered).2 rfl, rfl, rfl, c, d, hcount, hmax, congrArg (_ ++ ·) hback,
          Cluster.redelivery_asksOnce key _⟩
      · omega
    · obtain ⟨hn', -⟩ | ⟨-, rfl, hc⟩ := hcase
      · omega
      rw [hc]
      refine ⟨fun hk' => ?_, rfl, fun uri huri => ?_, fun huri => ?_⟩
      · have hnone : (y.view key).entry = none := by rw [hc]
        exact Option.isSome_iff_ne_none.1 (Std.ExtTreeMap.mem_iff_isSome_getElem?.1 hk') hnone
      · obtain ⟨hlast, hletter⟩ := last_of_uri hp hu huri key v (n + 1)
        refine ⟨(hl .deadLettered).2 (by rw [hlast]), ?_⟩
        rw [hletter, hn]
        rfl
      · obtain ⟨hlast, hletter⟩ := last_of_no_uri hp hu huri key v (n + 1)
        refine ⟨(hl .discarded).2 (by rw [hlast]), ?_⟩
        rw [hletter]
        exact List.append_nil _

/-- A key whose only redelivery was begun by a pass is dead-lettered by the next one. -/
theorem redelivery_budget_spent :
    let s : Setup :=
      { config := { maximumRedeliveries := 1, deadLetterUri := some "direct:dead" }
        hasEngine := true
        hasSink := true }
    let actions : List Action :=
      [.start, .add ⟨"key"⟩ { id := "exchange" } (Exchange.fits_of_id (by decide)), .pass]
    let x := Site.run {} s {} actions
    (x.act {} s (.state ⟨"key"⟩)).1 = .ok (.state (some (.pending 1))) ∧
      ∃ rep, (x.act {} s .pass).1 = .ok (.report rep) ∧ ⟨"key"⟩ ∈ rep.deadLettered ∧
        (⟨"key"⟩ : CorrelationKey) ∉ (x.act {} s .pass).2.world.store.data := by
  intro s actions
  dsimp only
  have he : Environment.Healthy {} := fun _ => rfl
  have ha : Environment.Accepting {} := fun _ _ => rfl
  have hp : s.policy? = .ok
      { useRecovery := true, interval := 5000, maximumRedeliveries := 1, deadLetterUri := some "direct:dead",
        allowSerializedHeaders := false, shutdownTimeout := 30000 } := rfl
  have hr : (Site.run {} s {} actions).repository.isRunning = true := by decide +kernel
  have hk : (⟨"key"⟩ : CorrelationKey) ∈ (Site.run {} s {} actions).world.store.data := by decide +kernel
  have hn : passesSince ⟨"key"⟩ (Site.history {} s {} actions) = 1 := by decide +kernel
  obtain ⟨hstate, rep, hrep, h⟩ := redelivery_budget he ha hp rfl actions ⟨"key"⟩ hr
  obtain ⟨-, v, -, -, hspent⟩ := h hk
  obtain ⟨hgone, -, hdead, -⟩ := hspent hn
  rw [hn, if_pos hk] at hstate
  exact ⟨hstate, rep, hrep, (hdead "direct:dead" rfl).1, hgone⟩

end DurableAggregates
