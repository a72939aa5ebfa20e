import DurableAggregates.Proofs.Execution.Reactions
import DurableAggregates.Proofs.Execution.Runs

/-!
# Aggregates that arrive during an escalation

While the sink takes the letter of a key whose budget is spent, something else may be stored under that key. The pass
reads the key again and removes it only if it holds the exchange of the letter. It compares the ids and nothing else:
what arrived survives if it has another id, and is removed if it has the same one, whatever else differs
(`arrival_survives_iff`).
-/

namespace DurableAggregates

namespace Repository

open Operation Environment

variable {sink : Reaction} {env : Environment} {s : Setup} {p : Policy} {key k : CorrelationKey} {r : Repository}
  {w : World}

/-! ## The other keys -/

theorem spares_fetch (sink : Reaction) (env : Environment) (key k : CorrelationKey) :
    (fetch k).Spares sink env key :=
  .of_through (through_fetch k) fun r w => by
    rw [fetch_exec]
    exact ⟨by rw [data_after_get], rfl, rfl⟩

theorem spares_erase (hk : key ≠ k) : (erase k).Spares sink env key :=
  .of_through (through_erase k) fun r w => by
    rw [erase_exec]
    exact ⟨data_after_remove_of_ne hk, rfl, rfl⟩

theorem spares_recoverable (sink : Reaction) (env : Environment) (s : Setup) (key k : CorrelationKey) :
    (recoverable s k).Spares sink env key := by
  unfold recoverable
  split
  · exact .bind (spares_fetch sink env key k) fun _ => .pure _
  · exact .pure none

theorem spares_eraseIfCurrent (hk : key ≠ k) (id : String) : (eraseIfCurrent k id).Spares sink env key := by
  refine .bind (spares_fetch sink env key k) fun current => ?_
  split
  · exact .bind (spares_erase hk) fun _ => .pure true
  · exact .bind (.modify (fun r => by simp [supersede, Std.ExtTreeMap.getElem?_erase, hk.symm]) fun _ => rfl)
      fun _ => .pure false

/-- What an operation does with a letter is what its sink does. -/
theorem forward_through_exec (env : Environment) (r : Repository) (w : World) (letter : DeadLetter) :
    ((forward letter).through sink).exec env r w =
      (((sink letter).exec env r w).1.mapError .deadLetter, ((sink letter).exec env r w).2.1,
        ((sink letter).exec env r w).2.2) := by
  have hask : (Procedure.ask (.forward letter)).through sink = sink letter := Procedure.through_ask (.forward letter)
  simp only [forward, through_bind, through_lift]
  rw [hask, exec_bind_ok (exec_lift (sink letter))]
  cases ((sink letter).exec env r w).1 <;> rfl

variable (hsink : ∀ letter : DeadLetter, letter.key ≠ key → ∀ r w,
  Untouched key r w ((sink letter).exec env r w).2.1 ((sink letter).exec env r w).2.2)

include hsink in
theorem spares_escalate (hk : key ≠ k) (e : Exchange) (n : Nat) :
    (escalate s p k e n).Spares sink env key := by
  unfold escalate
  cases sinkAddress? s p with
  | none =>
    refine .bind (spares_eraseIfCurrent hk e.id) fun erased => ?_
    split
    · exact .bind (.modify (fun _ => records_forget_of_ne hk) fun _ => rfl) fun _ => .pure _
    · exact .pure _
  | some uri =>
    refine .bind (.of_through rfl fun r w => ?_) fun _ => .bind (spares_eraseIfCurrent hk e.id) fun erased => ?_
    · rw [forward_through_exec]
      exact hsink _ hk.symm r w
    · have hrest : Operation.Spares sink env key (do
          modifyThe Repository fun r => { r with deadLettered := r.deadLettered + 1 }.count .deadLetters
          return Outcome.deadLettered) := .bind (.modify (fun _ => rfl) fun _ => rfl) fun _ => .pure _
      split
      · exact .bind (.modify (fun _ => records_forget_of_ne hk) fun _ => rfl) fun _ => hrest
      · exact hrest

theorem spares_handBack (e : Exchange) : (handBack s k e).Spares sink env key := by
  unfold handBack
  split
  · exact .bind (.modify (fun _ => rfl) fun _ => rfl) fun _ _ _ => ⟨rfl, rfl, rfl⟩
  · exact .pure _

include hsink in
theorem spares_recoverKey (hk : key ≠ k) : (recoverKey s p k).Spares sink env key := by
  unfold recoverKey
  refine .bind (.modify (fun _ => records_observe_of_ne hk) fun _ => rfl) fun _ => .bind .get fun r =>
    .bind (spares_recoverable sink env s key k) fun found => ?_
  cases found with
  | none => exact .bind (.modify (fun _ => records_forget_of_ne hk) fun _ => rfl) fun _ => .pure _
  | some e =>
    dsimp only
    split
    · exact spares_escalate hsink hk e _
    · exact .bind (.lift (spares_handBack _)) fun _ => .bind (.modify (fun _ => rfl) fun _ => rfl) fun _ => .pure _

variable (sink) in
/-- A pass goes on with the next key whatever the sink did. -/
theorem recoverNext_through_exec (env : Environment) (s : Setup) (p : Policy) (rep : Report) (r : Repository)
    (w : World) (k : CorrelationKey) :
    let y := ((recoverKey s p k).through sink).exec env r w
    Procedure.exec ((recoverNext s p rep k).through sink) env r w = (rep.add k y.1, y.2.1.noting y.1, y.2.2) := by
  intro y
  have hy : Procedure.exec (Procedure.through sink (recoverKey s p k).run) env r w = y := rfl
  simp only [recoverNext, Procedure.through_bind, Procedure.exec_bind, hy]
  cases y.1 <;> rfl

include hsink in
/-- What a pass does with other keys leaves the key alone, and where it is listed stays so. -/
theorem foldlM_others (s : Setup) (p : Policy) {keys : List CorrelationKey} (hk : key ∉ keys) (rep : Report)
    (r : Repository) (w : World) :
    ∃ rep' t u, Procedure.exec ((keys.foldlM (recoverNext s p) rep).through sink) env r w = (rep', t, u) ∧
      Untouched key r w t u ∧ ∀ l, key ∈ rep.list l → key ∈ rep'.list l := by
  induction keys generalizing rep r w with
  | nil => exact ⟨rep, r, w, rfl, .refl key r w, fun _ h => h⟩
  | cons k keys ih =>
    obtain ⟨hne, hk⟩ := not_or.1 (fun h => hk (List.mem_cons.2 h))
    let y := ((recoverKey s p k).through sink).exec env r w
    have hkey : Untouched key r w (y.2.1.noting y.1) y.2.2 := by
      obtain ⟨he, hr, ha⟩ : Untouched key r w y.2.1 y.2.2 := spares_recoverKey hsink hne r w
      refine ⟨he, ?_, by rw [active_noting, ha]⟩
      rw [← hr]
      cases y.1 <;> rfl
    obtain ⟨rep', t, u, he, hu, hl⟩ := ih hk (rep.add k y.1) (y.2.1.noting y.1) y.2.2
    refine ⟨rep', t, u, ?_, hkey.trans hu, fun l h => hl l (Report.mem_list_add rep h k y.1)⟩
    rw [List.foldlM_cons, Procedure.through_bind, Procedure.exec_bind, recoverNext_through_exec]
    exact he

/-! ## The key whose budget is spent -/

/-- The entry is removed if it stands for the exchange with the id, and otherwise it is left alone. -/
theorem eraseIfCurrent_of_healthy (he : env.Healthy) (r : Repository) {v : Snapshot}
    (hv : w.store.snapshot? key = some v) (id : String) :
    ∃ u, (eraseIfCurrent key id).exec env r w =
        (.ok (decide (v.id = id)), if v.id = id then r else r.supersede key id, u) ∧
      u.store.data[key]? = if v.id = id then none else w.store.data[key]? := by
  have hg := (result_get_of_snapshot? env hv).resolve_right fun ⟨_, _, hf⟩ => hf he
  simp only [eraseIfCurrent, exec_bind, fetch_exec, hg, mapError_ok, Option.any_some]
  by_cases hid : v.id = id
  · rw [if_pos (decide_eq_true hid), if_pos hid]
    simp only [exec_bind, erase_exec, result_remove_of_healthy he, mapError_ok, exec_pure]
    refine ⟨_, by rw [decide_eq_true hid], ?_⟩
    rw [data_after_remove_ok (result_remove_of_healthy he), if_pos hid]
    simp
  · rw [if_neg (by simpa using hid), if_neg hid]
    simp only [exec_bind, exec_modifyThe, exec_pure]
    refine ⟨_, by rw [decide_eq_false hid], ?_⟩
    rw [data_after_get, if_neg hid]

end Repository

/--
The sink accepts the letter of an exchange while that is stored, and meanwhile stores another snapshot under its key.
With the letters of other keys it leaves that key alone.
-/
structure Arrives (sink : Reaction) (env : Environment) (p : Policy)
    (letter : DeadLetter) (old new : Snapshot) : Prop where
  accepts : ∀ r w, r.active = some p → w.store.snapshot? letter.key = some old →
    ∃ t u, (sink letter).exec env r w = (.ok (), t, u) ∧ u.store.data[letter.key]? = some new.encode
  spares : ∀ l : DeadLetter, l.key ≠ letter.key → ∀ r w,
    Untouched letter.key r w ((sink l).exec env r w).2.1 ((sink l).exec env r w).2.2

namespace Repository

open Operation Environment

variable {sink : Reaction} {env : Environment} {s : Setup} {p : Policy}
  {key : CorrelationKey} {r : Repository} {w : World} {v x : Snapshot} {uri : String}

theorem recoverKey_arrival (he : env.Healthy) (hs : s.config.useRecovery = true) (ha : sinkAddress? s p = some uri)
    (hr : r.active = some p) (hv : w.store.snapshot? key = some v)
    (hn : p.maximumRedeliveries < r.nextAttempt key) (hx : x.Fits)
    (hsink : Arrives sink env p (s.letter uri key v.restore (r.nextAttempt key)) v x) :
    ∃ t u, ((recoverKey s p key).through sink).exec env r w = (.ok .deadLettered, t, u) ∧
      u.store.data[key]? = if x.id = v.id then none else some x.encode := by
  have hg := (result_get_of_snapshot? env hv).resolve_right fun ⟨_, _, hf⟩ => hf he
  obtain ⟨t, u, hletter, hu⟩ := hsink.accepts (r.observe key s.clock) (env.after w (.get key)) hr
    (by rw [← hv]; exact (World.reads_get env w key).snapshot? key)
  replace hu : u.store.data[key]? = some x.encode := hu
  have hforward : ((forward (s.letter uri key v.restore (r.nextAttempt key))).through sink).exec env
      (r.observe key s.clock) (env.after w (.get key)) = (.ok (), t, u) := by
    rw [forward_through_exec, hletter]
    rfl
  obtain ⟨u', herase, hu'⟩ := eraseIfCurrent_of_healthy he t
    (Store.snapshot?_of_encode hx hu) v.id
  rw [Snapshot.id_asWritten] at herase hu'
  have hescalate : ∃ t', ((escalate s p key v.restore (r.nextAttempt key)).through sink).exec env
      (r.observe key s.clock) (env.after w (.get key)) = (.ok .deadLettered, t', u') := by
    simp only [escalate, ha, through_bind, through_eraseIfCurrent]
    by_cases hid : x.id = v.id
    · rw [decide_eq_true hid] at herase
      exact ⟨_, (exec_bind_ok hforward).trans (exec_bind_ok herase)⟩
    · rw [decide_eq_false hid] at herase
      exact ⟨_, (exec_bind_ok hforward).trans (exec_bind_ok herase)⟩
  obtain ⟨t', hescalate⟩ := hescalate
  refine ⟨t', u', ?_, by rw [hu', hu]⟩
  simp only [recoverKey, through_bind, exec_bind, through_modifyThe, exec_modifyThe, through_getThe, exec_getThe,
    attempts_recordOf_observe, through_recoverable, recoverable_exec, hs, if_true, hg, mapError_ok, Except.map,
    Option.map_some]
  rw [if_pos hn, hescalate]

theorem nextAttempt_congr {r t : Repository} (h : t.records[key]? = r.records[key]?) :
    t.nextAttempt key = r.nextAttempt key := by
  rw [nextAttempt, nextAttempt, h]

theorem foldlM_arrival (he : env.Healthy) (hs : s.config.useRecovery = true) (ha : sinkAddress? s p = some uri)
    (hr : r.active = some p) (hv : w.store.snapshot? key = some v) (hn : p.maximumRedeliveries < r.nextAttempt key)
    (hx : x.Fits) (hsink : Arrives sink env p (s.letter uri key v.restore (r.nextAttempt key)) v x)
    {keys : List CorrelationKey} (hnodup : keys.Nodup) (hkey : key ∈ keys) (rep : Report) :
    ∃ rep' t u, Procedure.exec ((keys.foldlM (recoverNext s p) rep).through sink) env r w = (rep', t, u) ∧
      key ∈ rep'.deadLettered ∧ u.store.data[key]? = if x.id = v.id then none else some x.encode := by
  obtain ⟨first, rest, rfl⟩ := List.append_of_mem hkey
  have hfirst : key ∉ first := fun h => (List.nodup_append.1 hnodup).2.2 key h key List.mem_cons_self rfl
  have hrest : key ∉ rest := (List.nodup_cons.1 (List.nodup_append.1 hnodup).2.1).1
  have hspares : ∀ l : DeadLetter, l.key ≠ key → ∀ r w,
      Untouched key r w ((sink l).exec env r w).2.1 ((sink l).exec env r w).2.2 := hsink.spares
  -- The keys before it leave the key as it is, so it is the same letter that the sink waits for.
  obtain ⟨rep₁, t₁, u₁, he₁, h₁, -⟩ := foldlM_others hspares s p hfirst rep r w
  have hnext : t₁.nextAttempt key = r.nextAttempt key := nextAttempt_congr h₁.record
  obtain ⟨t₂, u₂, he₂, hd⟩ := recoverKey_arrival he hs ha (h₁.active.trans hr)
    (by rw [Store.snapshot?_congr h₁.entry, hv]) (by rw [hnext]; exact hn) hx (by rw [hnext]; exact hsink)
  have hnow := recoverNext_through_exec sink env s p rep₁ t₁ u₁ key
  rw [he₂] at hnow
  -- The keys after it leave alone what has become of it.
  obtain ⟨rep₃, t₃, u₃, he₃, h₃, hl⟩ := foldlM_others hspares s p hrest (rep₁.add key (.ok .deadLettered)) t₂ u₂
  refine ⟨rep₃, t₃, u₃, ?_, hl .deadLettered ?_, by rw [h₃.entry, hd]⟩
  · rw [List.foldlM_append, Procedure.through_bind, Procedure.exec_bind, he₁, List.foldlM_cons,
      Procedure.through_bind, Procedure.exec_bind, hnow]
    exact he₃
  · simp [Report.add, Report.record, Report.list]

end Repository

/--
A pass on a store without faults meets a key whose budget is spent, and while the sink takes its letter something else
is stored under that key. The pass lists the key as dead lettered. What arrived is stored afterwards, byte for byte, if
it has another id than the exchange of the letter; with the same id it is removed, whatever else differs.
-/
theorem arrival_survives_iff {env : Environment} (he : env.Healthy) {s : Setup} {p : Policy}
    (hp : s.policy? = .ok p) (hu : p.useRecovery = true) {uri : String}
    (ha : Repository.sinkAddress? s p = some uri) {r : Repository} (hr : r.active = some p) {w : World}
    {key : CorrelationKey} {v x : Snapshot} (hv : w.store.snapshot? key = some v)
    (hn : p.maximumRedeliveries < r.nextAttempt key) (hx : x.Fits)
    {sink : Reaction}
    (hsink : Arrives sink env p (s.letter uri key v.restore (r.nextAttempt key)) v x) :
    ∃ rep t u, ((Repository.pass s).through sink).exec env r w = (.ok rep, t, u) ∧ key ∈ rep.deadLettered ∧
      u.store.data[key]? = if x.id = v.id then none else some x.encode := by
  have hs : s.config.useRecovery = true := by rw [← Setup.useRecovery_of_policy? hp, hu]
  obtain ⟨stored, hk, hnodup, hmem⟩ := Environment.result_keys_of_healthy (w := w) he
  have hstored : key ∈ stored := (hmem key).2 (Store.mem_of_snapshot? hv)
  have hnext : (r.retain (.ofList stored compare)).nextAttempt key = r.nextAttempt key :=
    Repository.nextAttempt_congr (by rw [Repository.records_retain, if_pos hstored])
  obtain ⟨rep, t, u, hexec, hlisted, hd⟩ := Repository.foldlM_arrival he hs ha
    (r := r.retain (.ofList stored compare)) (w := env.after w .keys) hr
    (by rw [← hv]; exact (World.reads_keys env w).snapshot? key) (by rw [hnext]; exact hn) hx
    (by rw [hnext]; exact hsink) hnodup hstored { scanned := stored.length }
  refine ⟨rep, t.count .passes, u, ?_, hlisted, hd⟩
  simp only [Repository.pass, Operation.through_bind, Repository.through_runningPolicy, Operation.exec_bind,
    Repository.runningPolicy_exec hr, Operation.through_holding, Operation.exec_holding, Repository.passOver,
    Repository.through_listed, Repository.listed_exec, hk, mapError_ok, hu, if_true, Operation.through_modifyThe,
    Operation.exec_modifyThe, Operation.through_lift, Operation.exec_lift, hexec]
  rfl

/-! ## A sink that puts -/

theorem putDirectly_exec (env : Environment) (r : Repository) (w : World) (key : CorrelationKey) {e : Exchange}
    {x : Snapshot} (hc : e.capture true = .ok x) : (Cluster.putDirectly key e).exec env r w =
      ((env.result w (.put key x)).mapError .store, r, env.after w (.put key x)) := by
  simp only [Cluster.putDirectly, hc]
  show (monadLift (Procedure.call (.put key x)) >>= Operation.ofStore).exec env r w = _
  rw [Operation.exec_bind_ok (Repository.exec_put key x), Operation.exec_ofStore]

/-- A sink that puts an exchange under the key of every letter lets it arrive, if the store has no faults. -/
theorem arrives_of_put {env : Environment} (he : env.Healthy) (p : Policy) (letter : DeadLetter) (v : Snapshot)
    {e : Exchange} {x : Snapshot} (hc : e.capture true = .ok x) :
    Arrives ({ reaction := some (.put e) } : Cluster.Sink).react env p letter v x := by
  have hput (l : DeadLetter) (r : Repository) (w : World) :
      (({ reaction := some (.put e) } : Cluster.Sink).react l).exec env r w =
        ((((env.result w (.put l.key x)).mapError RepositoryError.store).map fun _ => ()).mapError
          fun f => .rejected f.message, r, env.after w (.put l.key x)) := by
    have hreact : ((do let _ ← Cluster.putDirectly l.key e) : Operation Unit).exec env r w =
        (((env.result w (.put l.key x)).mapError .store).map fun _ => (), r, env.after w (.put l.key x)) := by
      rw [Operation.exec_bind_pure, putDirectly_exec env r w l.key hc]
    simp only [Cluster.Sink.react, Procedure.exec_bind, Procedure.exec_pure]
    rw [show Procedure.exec (ExceptT.run (do let _ ← Cluster.putDirectly l.key e)) env r w = _ from hreact]
  refine ⟨fun r w _ hv => ?_, fun l hl r w => ?_⟩
  · refine ⟨r, env.after w (.put letter.key x), ?_, ?_⟩
    · obtain ⟨bytes, hb, hd⟩ := Store.snapshot?_eq_some.1 hv
      rw [hput, Environment.result_put, Environment.fault?_eq_none_of_healthy he, hb]
      simp [Store.decodeEntry, hd, Except.map]
    · rw [Environment.data_after_put_of_healthy he x]
      simp
  · rw [hput]
    exact ⟨Environment.data_after_put_of_ne hl.symm x, rfl, rfl⟩

/-- What a sink stores under the key of its letter is stored after the pass. -/
theorem arrival_survives :
    let s : Setup := { config := { maximumRedeliveries := 0, deadLetterUri := some "direct:dead" }, hasSink := true }
    let sink : Cluster.Sink := { reaction := some (.put { id := "second" }) }
    let x := Site.run {} s {} [.start, .add ⟨"key"⟩ { id := "first" } (Exchange.fits_of_id (by decide))]
    ∃ rep t u, ((Repository.pass s).through sink.react).exec {} x.repository x.world = (.ok rep, t, u) ∧
      ⟨"key"⟩ ∈ rep.deadLettered ∧ u.Holds ⟨"key"⟩ "second" := by
  intro s sink x
  have hcapture (id : String) : ({ id } : Exchange).capture true = .ok { id } := rfl
  have hold : ({ id := "first" } : Snapshot).Fits :=
    Exchange.fits_of_capture (hcapture _) (Exchange.fits_of_id (by decide))
  have hnew : ({ id := "second" } : Snapshot).Fits :=
    Exchange.fits_of_capture (hcapture _) (Exchange.fits_of_id (by decide))
  have hstored : x.world.store.snapshot? ⟨"key"⟩ = some { id := "first" } :=
    Store.snapshot?_of_encode hold (by decide +kernel)
  have he : ({} : Environment).Healthy := fun _ => rfl
  have hp : s.policy? = .ok _ := rfl
  obtain ⟨rep, t, u, hexec, hlisted, hd⟩ := arrival_survives_iff he hp rfl rfl
    (rfl : x.repository.active = some _) hstored (by decide +kernel) hnew (arrives_of_put he _ _ _ (hcapture "second"))
  exact ⟨rep, t, u, hexec, hlisted, _, Store.snapshot?_of_encode hnew hd, rfl⟩

/-- A sink stores another snapshot with the id of the forwarded one, and the pass removes it. -/
theorem arrival_with_same_id_is_removed :
    let s : Setup := { config := { maximumRedeliveries := 0, deadLetterUri := some "direct:dead" }, hasSink := true }
    let old : Snapshot := { id := "exchange" }
    let new : Snapshot := { id := "exchange", body := .text "new" }
    let sink : Cluster.Sink := { reaction := some (.put { id := "exchange", body := .text "new" }) }
    let x := Site.run {} s {} [.start, .add ⟨"key"⟩ { id := "exchange" } (Exchange.fits_of_id (by decide))]
    let y := ((Repository.pass s).through sink.react).exec {} x.repository x.world
    (∀ p, Arrives sink.react {} p (s.letter "direct:dead" ⟨"key"⟩ old.restore 1) old new) ∧
      x.world.store.data[(⟨"key"⟩ : CorrelationKey)]? = some old.encode ∧ new.body ≠ old.body ∧
      y.1.isOk = true ∧ y.2.2.store.data[(⟨"key"⟩ : CorrelationKey)]? = none :=
  ⟨fun p => arrives_of_put (fun _ => rfl) p _ _ rfl, by decide +kernel⟩

end DurableAggregates
