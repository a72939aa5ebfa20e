import DurableAggregates.Proofs.Interleaving.Conduct

/-!
# Turns keep order

Between two turns there is one task for each redelivery that is outstanding, and one scheduler task as long as the
scheduler is alive; while a scheduler is being closed, who closed it holds the lifecycle lock and goes on at its end
(`Staged`). Together with the order of the tasks (`Ordered`) that makes a view `Tended`. Whatever a task does in its
turn, the view is tended afterwards (`Tended.turn`).
-/

namespace DurableAggregates.Cluster

variable {s : Setup} {n k j : Nat} {t x y : Task} {v w u : View} {l : Lock} {new : Multiset Task}
  {q : Request} {next : q.Answer → Operation Answer} {b : Operation Answer} {r : Repository}

/-! ## Schedulers and redeliveries -/

/-- What counts of a scheduler for its stage. -/
def SchedulerState.stage (st : SchedulerState) : SchedulerPhase × Bool × Option Task := (st.phase, st.closing, st.waiting)

/-- How the tasks of a node stand to its scheduler and to the redeliveries that are outstanding. -/
structure View.Staged (s : Setup) (v : View) : Prop where
  inFlight : v.node.repository.inFlight = v.tasks.countP (·.role = .redelivery)
  /-- There is one scheduler while it is alive, and none else. -/
  schedulers : v.tasks.countP (·.role = .scheduler) = if v.node.join? = none then 1 else 0
  /-- As long as a scheduler is not being closed the repository runs. -/
  opened : ∀ st, v.node.scheduler = some st → st.closing = false →
    st.waiting = none ∧ v.node.repository.active ≠ none
  /-- While it is being closed the repository does not run, and who closed it holds the lock and goes on at its end. -/
  closed : ∀ st, v.node.scheduler = some st → st.closing = true → v.node.repository.active = none ∧
    ∃ y ∈ v.tasks, v.node.lifecycle.holder = some y.id ∧ y.role = .awaited ∧ Halting s y.body ∧
      if st.phase = .alive then st.waiting = some y else st.waiting = none ∧ y ∈ v.queued
  halting : ∀ y ∈ v.tasks, Halting s y.body → v.node.lifecycle.holder = some y.id ∧
    ∃ st, v.node.scheduler = some st ∧ st.closing = true

theorem Node.join?_eq_none {z : Node} : z.join? = none ↔ ∃ st, z.scheduler = some st ∧ st.phase = .alive := by
  unfold Node.join?
  cases z.scheduler with
  | none => simp
  | some st => cases hp : st.phase <;> simp [hp]

namespace View.Staged

/-- A turn that concerns no scheduler. -/
theorem trade (h : (v.put t).Staged s) (htasks : w.tasks = new + v.tasks) (hqueued : ∀ y ∈ v.queued, y ∈ w.queued)
    (hnew : ∀ x ∈ new, ¬Halting s x.body) (hroles : new.countP (·.role = .scheduler) = if t.role = .scheduler then 1 else 0)
    (hflight : w.node.repository.inFlight + (if t.role = .redelivery then 1 else 0) =
      v.node.repository.inFlight + new.countP (·.role = .redelivery))
    (hscheduler : w.node.scheduler.map SchedulerState.stage = v.node.scheduler.map SchedulerState.stage)
    (hkeeps : Policy.Keeps (v.within .lifecycle t) v.node.repository.active w.node.repository.active)
    (hinside : v.within .lifecycle t = true → ∀ st, v.node.scheduler = some st → st.closing = false)
    (hholder : v.within .lifecycle t = false → ∀ i, v.node.lifecycle.holder = some i →
      w.node.lifecycle.holder = some i) : w.Staged s := by
  have hold (st : SchedulerState) (hst : w.node.scheduler = some st) : ∃ st', v.node.scheduler = some st' ∧
      st'.phase = st.phase ∧ st'.closing = st.closing ∧ st'.waiting = st.waiting := by
    rw [hst] at hscheduler
    obtain ⟨st', hst', he⟩ := Option.map_eq_some_iff.1 hscheduler.symm
    simp only [SchedulerState.stage, Prod.mk.injEq] at he
    exact ⟨st', hst', he⟩
  have hjoin : w.node.join? = none ↔ v.node.join? = none := by
    rw [Node.join?_eq_none, Node.join?_eq_none]
    constructor
    · rintro ⟨st, hst, hp⟩
      obtain ⟨st', hst', he, -⟩ := hold st hst
      exact ⟨st', hst', he.trans hp⟩
    · rintro ⟨st, hst, hp⟩
      rw [hst] at hscheduler
      obtain ⟨st', hst', he⟩ := Option.map_eq_some_iff.1 hscheduler
      exact ⟨st', hst', (congrArg (·.1) he).trans hp⟩
  have hflight' := h.inFlight
  have hschedulers := h.schedulers
  rw [Ordered.tasks_put, Multiset.countP_cons] at hflight' hschedulers
  have hheld (st : SchedulerState) (hst : v.node.scheduler = some st) (hclosed : st.closing = true) :
      v.within .lifecycle t = false := by
    refine Bool.eq_false_iff.2 fun hin => ?_
    exact absurd ((hinside hin st hst).symm.trans hclosed) Bool.false_ne_true
  refine ⟨?_, ?_, fun st hst hopen => ?_, fun st hst hclosed => ?_, fun y hy hhalting => ?_⟩
  · rw [htasks, Multiset.countP_add]
    have hleft : (v.put t).node = v.node := rfl
    rw [hleft] at hflight'
    omega
  · rw [htasks, Multiset.countP_add, hroles, Nat.add_comm, hschedulers]
    exact if_congr hjoin.symm rfl rfl
  · obtain ⟨st', hst', -, hc, hw⟩ := hold st hst
    obtain ⟨hwaiting, hactive⟩ := h.opened st' hst' (hc.trans hopen)
    refine ⟨hw ▸ hwaiting, ?_⟩
    rcases hkeeps with hk | ⟨-, hk, -⟩
    · rw [hk]
      exact hactive
    · exact absurd hk hactive
  · obtain ⟨st', hst', hp, hc, hw⟩ := hold st hst
    obtain ⟨hactive, y, hy, hy', hrole, hhalting, hstage⟩ := h.closed st' hst' (hc.trans hclosed)
    have hout := hheld st' hst' (hc.trans hclosed)
    have hne : y ≠ t := by
      rintro rfl
      refine Bool.false_ne_true (hout.symm.trans (decide_eq_true (List.mem_append_left _ ?_)))
      exact Option.mem_toList.2 hy'
    rw [Ordered.tasks_put] at hy
    have hin := (Multiset.mem_cons.1 hy).resolve_left hne
    rw [hout] at hkeeps
    refine ⟨(hkeeps.resolve_right fun hk => nomatch hk.1).trans hactive, y, ?_, hholder hout _ hy', hrole, hhalting, ?_⟩
    · rw [htasks]
      exact Multiset.mem_add.2 (.inr hin)
    · rw [hp, hw] at hstage
      split at hstage
      · rename_i hp
        rw [if_pos hp]
        exact hstage
      · rename_i hp
        rw [if_neg hp]
        exact ⟨hstage.1, hqueued y ((Multiset.mem_cons.1 hstage.2).resolve_left hne)⟩
  · rw [htasks] at hy
    have hy := (Multiset.mem_add.1 hy).resolve_left fun hy => hnew y hy hhalting
    obtain ⟨hid, st, hst, hclosed⟩ := h.halting y (by rw [Ordered.tasks_put]; exact Multiset.mem_cons_of_mem hy) hhalting
    have hst' := congrArg (Option.map SchedulerState.stage) hst
    rw [show (v.put t).node = v.node from rfl, ← hscheduler] at hst'
    obtain ⟨st', hst', he⟩ := Option.map_eq_some_iff.1 hst'
    exact ⟨hholder (hheld st hst hclosed) _ hid, st', hst', (congrArg (·.2.1) he).trans hclosed⟩

/-- Who is inside the lock and does not ask for the end of the scheduler is not in the way of one that is closed. -/
theorem open_of_inside (h : (v.put t).Staged s) (ho : (v.put t).Ordered s n k) (ht : ¬Halting s t.body)
    (hin : v.within .lifecycle t = true) (st : SchedulerState) (hst : v.node.scheduler = some st) :
    st.closing = false := by
  refine Bool.eq_false_iff.2 fun hclosed => ht ?_
  obtain ⟨-, y, hy, hy', -, hhalting, -⟩ := h.closed st hst hclosed
  have hid : y.id = t.id := Option.some.inj (hy'.symm.trans (ho.holder hin))
  rw [Ordered.tasks_put] at hy
  obtain rfl := (Multiset.mem_cons.1 hy).resolve_right fun hy => ho.id_ne hy hid
  exact hhalting

end View.Staged

/-! ## Turns -/

theorem within_pass (s : Setup) : (Repository.pass s).Within Request.isRound := by
  have hplain {α : Type} {x : Operation α} (hx : x.Within Request.isPlain) : x.Within Request.isRound :=
    hx.mono Request.isRound_of_isPlain
  refine .bind (hplain Repository.plain_runningPolicy) fun p => ?_
  exact Procedure.Within.bind (.ask rfl) fun _ => .bind (hplain (Repository.plain_passOver s p)) fun _ =>
    .bind (.ask rfl) fun _ => .pure _

theorem within_round (s : Setup) : (round s).Within Request.isRound := by
  refine .bind (.lift (.bind (.ask rfl) fun goes => ?_)) fun _ => .pure _
  cases goes with
  | true => exact .bind (within_pass s) fun _ => .pure _
  | false => exact .pure _

/-- Between two turns the tasks of a node do what is allowed, and stand as they should to its scheduler. -/
structure View.Tended (s : Setup) (n k : Nat) (v : View) : Prop where
  ordered : v.Ordered s n k
  staged : v.Staged s

theorem ite_role {role : Role} (hx : x.role = t.role) :
    Multiset.countP (fun y : Task => y.role = role) {x} = if t.role = role then 1 else 0 := by
  rw [← Multiset.cons_zero, Multiset.countP_cons, Multiset.countP_zero, hx, Nat.zero_add]

namespace View.Tended

variable (h : (v.put t).Tended s n k)
include h

/-- A task goes on after something that concerns neither the lifecycle lock nor the scheduler. -/
theorem back (ht : Trades t v {x} w) (hqueued : ∀ y ∈ v.queued, y ∈ w.queued) (hid : x.id = t.id)
    (hn : x.node = t.node) (hrole : x.role = t.role) (hlifecycle : w.node.lifecycle = v.node.lifecycle)
    (hscheduler : w.node.scheduler.map SchedulerState.stage = v.node.scheduler.map SchedulerState.stage)
    (hleaves : Leaves (v.within .lifecycle t) v.node.repository w.node.repository) (hhalt : ¬Halting s t.body)
    (hc : x.Conducts s (v.within .lifecycle t) (w.within .pass t)) : w.Tended s n k := by
  have hin : w.within .lifecycle t = v.within .lifecycle t := by
    rw [within, within]
    exact congrArg (fun a : LockState => decide (t.id ∈ a.ids)) hlifecycle
  refine ⟨h.ordered.back ht hid hn (hin ▸ .conducts hc), h.staged.trade ht.tasks hqueued
    (fun y hy => Multiset.mem_singleton.1 hy ▸ hc.not_halting) (ite_role hrole) ?_ hscheduler
    hleaves.1 (h.staged.open_of_inside h.ordered hhalt) fun _ i hi => hlifecycle ▸ hi⟩
  rw [ite_role hrole, hleaves.2]

/-- A task goes on after a request that concerns no lock and no scheduler. -/
theorem continues (hrun : t.body.run v.node.repository = .asking q r fun a => (next a).run)
    (hfree : q.isFree = true) (haside : t.role ≠ .redelivery → q.isAside = true) {z : Node}
    (hsetup : z.setup = v.node.setup)
    (hlock : ∀ l, z.lock l = v.node.lock l) (hscheduler : z.scheduler = v.node.scheduler) (hr : z.repository = r)
    (hb : Continues q next b) (p : Pause) : ((v.set z).put { t with body := b, pause := p }).Tended s n k := by
  have hhalt : ¬Halting s t.body := not_halting hrun fun hq => by
    rw [hq] at hfree
    cases hfree
  obtain ⟨hleaves, hc⟩ := (h.ordered.self.2.2.of_not_halting hhalt).continues hrun hfree haside
  have hwaiters : z.waiters = v.node.waiters := by
    have hl := hlock .lifecycle
    have hp := hlock .pass
    simp only [Node.lock] at hl hp
    rw [Node.waiters, Node.waiters, hscheduler, hl, hp]
  have hin : (v.set z).within .pass t = v.within .pass t := by
    rw [within, within]
    exact congrArg (fun a : LockState => decide (t.id ∈ a.ids)) (hlock .pass)
  refine h.back (((Trades.refl t v).set hsetup hlock hwaiters).put _) (fun y hy => Multiset.mem_cons_of_mem hy) rfl rfl
    rfl (hlock .lifecycle) (congrArg _ hscheduler) (hr ▸ hleaves) hhalt ?_
  exact hin ▸ hc _ rfl hb

/-- A task goes on after something that concerns no lock; perhaps a redelivery has begun. -/
theorem forwards {letter : DeadLetter} {next : Except DeadLetterError Unit → Operation Answer}
    (hrun : t.body.run v.node.repository = .asking (.forward letter) r fun a => (next a).run)
    (letters : List DeadLetter) (failures : Nat) {y : Procedure (Except DeadLetterError Unit)} (hy : y.Modest) :
    (((v.leave r).set { (v.leave r).node with letters, failures }).resume t do next (← y)).Tended s n k := by
  have hhalt : ¬Halting s t.body := not_halting hrun Request.noConfusion
  obtain ⟨-, hleaves, hc⟩ := (h.ordered.self.2.2.of_not_halting hhalt).forwards hrun
  have ht : Trades t v 0 ((v.leave r).set { (v.leave r).node with letters, failures }) :=
    ((Trades.refl t v).leave r).set rfl (by rintro (_ | _) <;> rfl) rfl
  exact h.back (ht.resume t _) (fun y hy => Multiset.mem_cons_of_mem hy) rfl rfl rfl rfl rfl hleaves hhalt
    (hc _ rfl ⟨y, hy, rfl⟩)

theorem dispatches {key : CorrelationKey} {e : Exchange} {next : Unit → Operation Answer}
    (hrun : t.body.run v.node.repository = .asking (.dispatch key e) r fun a => (next a).run) :
    (((v.leave r).put { id := k, node := t.node, role := .redelivery, body := redelivery key e }).resume t
      (next ())).Tended s n (k + 1) := by
  have hhalt : ¬Halting s t.body := not_halting hrun Request.noConfusion
  obtain ⟨-, hengine, hk, hr, hc⟩ := (h.ordered.self.2.2.of_not_halting hhalt).dispatches hrun
  let x : Task := { t with body := next (), pause := .nothing }
  let y : Task := { id := k, node := t.node, role := .redelivery, body := redelivery key e }
  have hx : x.Conducts s (v.within .lifecycle t) (v.within .pass t) := hc x rfl rfl
  have hy : y.Conducts s false false := .redelivery rfl (.inr ⟨hengine, key, e, handing_redelivery key e⟩)
  have ht : Trades t v (x ::ₘ {y}) (((v.leave r).put y).resume t (next ())) :=
    (((Trades.refl t v).leave r).put y).resume t _
  have hroles (role : Role) : Multiset.countP (fun z : Task => z.role = role) (x ::ₘ {y}) =
      (if t.role = role then 1 else 0) + if y.role = role then 1 else 0 := by
    rw [← Multiset.singleton_add, Multiset.countP_add, ite_role (x := x) (t := t) rfl, ite_role (x := y) (t := y) rfl]
  refine ⟨h.ordered.begun ht rfl rfl (.conducts hx) rfl rfl hy, h.staged.trade ht.tasks
    (fun z hz => Multiset.mem_cons_of_mem (Multiset.mem_cons_of_mem hz)) (fun z hz => ?_) ?_ ?_ rfl hk
    (h.staged.open_of_inside h.ordered hhalt) fun _ i hi => hi⟩
  · rcases Multiset.mem_cons.1 hz with rfl | hz
    · exact hx.not_halting
    · rw [Multiset.mem_singleton.1 hz]
      exact hy.not_halting
  · rw [hroles]
    rfl
  · rw [hroles]
    show r.inFlight + _ = v.node.repository.inFlight + _
    rw [hr]
    have hone : (if y.role = .redelivery then 1 else 0) = 1 := rfl
    omega

/-- A task gets a lock, or waits for it. -/
theorem acquires {next : Unit → Operation Answer}
    (hrun : t.body.run v.node.repository = .asking (.acquire l) r fun a => (next a).run) :
    ((v.leave r).acquire t l (next ())).Tended s n k := by
  have hhalt : ¬Halting s t.body := not_halting hrun Request.noConfusion
  obtain ⟨hout, ⟨hk, hr⟩, -, hc⟩ := (h.ordered.self.2.2.of_not_halting hhalt).acquires hrun
  have hout : v.within l t = false := by
    cases l with
    | lifecycle => exact hout
    | pass => exact hout
  have hf : ((v.leave r).node.lock l).Fair := (lock_leave v r l).symm ▸ h.ordered.fair l
  have hids : t.id ∉ ((v.leave r).node.lock l).ids := (lock_leave v r l).symm ▸ of_decide_eq_false hout
  obtain ⟨p, ht⟩ := trades_acquire hf hids (next ())
  have ht := ((Trades.refl t v).leave r).trans ht
  rw [add_zero] at ht
  have hwithin (m : Lock) : ((v.leave r).acquire t l (next ())).within m t = (v.within m t || l == m) := by
    rw [within, within, node_acquire, Node.lock_setLock]
    split
    · rename_i hm
      subst hm
      rw [hf.ids_join, lock_leave]
      simp
    · rename_i hm
      rw [lock_leave]
      cases l <;> cases m <;> simp at hm ⊢
  have hx : Task.Conducts s { t with body := next (), pause := p }
      (((v.leave r).acquire t l (next ())).within .lifecycle t) (((v.leave r).acquire t l (next ())).within .pass t) := by
    rw [hwithin, hwithin]
    exact hc _ rfl rfl
  refine ⟨h.ordered.back ht rfl rfl (.conducts hx), h.staged.trade ht.tasks (fun y hy => ?_)
    (fun y hy => Multiset.mem_singleton.1 hy ▸ hx.not_halting) (ite_role rfl) ?_ ?_ ?_
    (h.staged.open_of_inside h.ordered hhalt) fun _ i hi => ?_⟩
  · unfold View.acquire
    dsimp only
    split
    · exact Multiset.mem_cons_of_mem hy
    · exact hy
  · rw [ite_role rfl, node_acquire, Node.repository_setLock, repository_leave, hr]
  · rw [node_acquire, Node.scheduler_setLock, scheduler_leave]
  · rw [node_acquire, Node.repository_setLock, repository_leave]
    exact hk
  · -- Nobody gets the lifecycle lock while another has it.
    have hi : (v.leave r).node.lifecycle.holder = some i := hi
    cases l with
    | lifecycle =>
      rw [node_acquire]
      show ((v.leave r).node.lifecycle.join _).holder = some i
      rw [LockState.join, hi]
    | pass =>
      rw [node_acquire]
      exact hi

/-- A task gives back a lock. -/
theorem releases {next : Unit → Operation Answer}
    (hrun : t.body.run v.node.repository = .asking (.release l) r fun a => (next a).run) :
    (((v.leave r).release l).resume t (next ())).Tended s n k := by
  have hhalt : ¬Halting s t.body := not_halting hrun Request.noConfusion
  obtain ⟨hin, ⟨hk, hr⟩, hc⟩ := (h.ordered.self.2.2.of_not_halting hhalt).releases hrun
  have hin : v.within l t = true := by
    cases l with
    | lifecycle => exact hin
    | pass => exact hin
  have hf : ((v.leave r).node.lock l).Fair := (lock_leave v r l).symm ▸ h.ordered.fair l
  have hholder : ((v.leave r).node.lock l).holder = some t.id := (lock_leave v r l).symm ▸ h.ordered.holder hin
  have ht : Trades t v {{ t with body := next (), pause := .nothing }}
      (((v.leave r).release l).resume t (next ())) := by
    have ht := (((Trades.refl t v).leave r).trans (trades_release hf hholder)).resume t (next ())
    rw [add_zero] at ht
    exact ht
  have hwithin (m : Lock) : ((v.leave r).release l).within m t = (v.within m t && l != m) := by
    rw [within, within, node_release, Node.lock_setLock]
    split
    · rename_i hm
      subst hm
      have hnodup := hf.nodup
      rw [hf.ids_pass, LockState.ids, hholder]
      rw [LockState.ids, hholder] at hnodup
      simpa using (List.nodup_cons.1 hnodup).1
    · rename_i hm
      rw [lock_leave]
      cases l <;> cases m <;> simp at hm ⊢
  have hx : Task.Conducts s { t with body := next (), pause := .nothing }
      (((v.leave r).release l).within .lifecycle t) (((v.leave r).release l).within .pass t) := by
    rw [hwithin, hwithin]
    exact hc _ rfl rfl
  refine ⟨h.ordered.back ht rfl rfl (.conducts hx), h.staged.trade ht.tasks (fun y hy => ?_)
    (fun y hy => Multiset.mem_singleton.1 hy ▸ hx.not_halting) (ite_role rfl) ?_ ?_ ?_
    (h.staged.open_of_inside h.ordered hhalt) fun hout i hi => ?_⟩
  · refine Multiset.mem_cons_of_mem ?_
    unfold View.release
    dsimp only
    split
    · exact hy
    · exact Multiset.mem_cons_of_mem hy
  · show ((v.leave r).release l).node.repository.inFlight + _ = _
    rw [ite_role rfl, node_release, Node.repository_setLock, repository_leave, hr]
  · show Option.map _ ((v.leave r).release l).node.scheduler = _
    rw [node_release, Node.scheduler_setLock, scheduler_leave]
  · show Policy.Keeps _ _ ((v.leave r).release l).node.repository.active
    rw [node_release, Node.repository_setLock, repository_leave]
    exact hk
  · show ((v.leave r).release l).node.lifecycle.holder = _
    cases l with
    | lifecycle => exact absurd (hout.symm.trans hin) Bool.false_ne_true
    | pass =>
      rw [node_release]
      exact hi

/-- There is no scheduler while the repository does not run and a task inside the lock asks for no scheduler's end. -/
theorem none_of_inside (hin : v.within .lifecycle t = true) (hhalt : ¬Halting s t.body)
    (ha : v.node.repository.active = none) : v.node.scheduler = none := by
  cases hst : v.node.scheduler with
  | none => rfl
  | some st => exact absurd ha (h.staged.opened st hst (h.staged.open_of_inside h.ordered hhalt hin st hst)).2

theorem none_of_launch {interval : Nat} {next : Unit → Operation Answer}
    (hrun : t.body.run v.node.repository = .asking (.launch interval) r fun a => (next a).run) :
    v.node.scheduler = none := by
  have hhalt : ¬Halting s t.body := not_halting hrun Request.noConfusion
  obtain ⟨-, hin, ha, -⟩ := (h.ordered.self.2.2.of_not_halting hhalt).launches hrun
  exact h.none_of_inside hin hhalt ha

/-- A scheduler is launched. -/
theorem launches {interval : Nat} {next : Unit → Operation Answer}
    (hrun : t.body.run v.node.repository = .asking (.launch interval) r fun a => (next a).run) (now : Nat) :
    ((((v.leave r).setScheduler (some { ticker := .starting now interval })).put
      { id := k, node := t.node, role := .scheduler, body := round v.node.setup }).resume t (next ())).Tended s n
        (k + 1) := by
  have hhalt : ¬Halting s t.body := not_halting hrun Request.noConfusion
  obtain ⟨hrole, hin, hp, ha, hr, hc⟩ := (h.ordered.self.2.2.of_not_halting hhalt).launches hrun
  have hnone : v.node.scheduler = none := h.none_of_launch hrun
  let x : Task := { t with body := next (), pause := .nothing }
  let y : Task := { id := k, node := t.node, role := .scheduler, body := round v.node.setup }
  have hx : x.Conducts s (v.within .lifecycle t) (v.within .pass t) := hc x rfl rfl
  have hsetup : v.node.setup = s := h.ordered.setup
  have hy : y.Conducts s false false := .scheduler rfl (within_round _) (hsetup ▸ guarded_round v.node.setup)
  have hst : Trades t (v.leave r) 0 ((v.leave r).setScheduler (some { ticker := .starting now interval })) :=
    trades_setScheduler t _ 0 (by rw [scheduler_leave, hnone]; rfl)
  have ht := ((((Trades.refl t v).leave r).trans hst).put y).resume t (next ())
  rw [add_zero] at ht
  have hflight := h.staged.inFlight
  have hschedulers := h.staged.schedulers
  have hjoin : v.node.join? = some (.ok ()) := by rw [Node.join?, hnone]
  rw [Ordered.tasks_put, Multiset.countP_cons] at hflight hschedulers
  rw [show (v.put t).node.join? = some (.ok ()) from hjoin] at hschedulers
  have hcount (role : Role) : Multiset.countP (fun z : Task => z.role = role) (x ::ₘ y ::ₘ 0) =
      (if t.role = role then 1 else 0) + if y.role = role then 1 else 0 := by
    rw [← Multiset.singleton_add, Multiset.countP_add, Multiset.cons_zero, ite_role (x := x) (t := t) rfl,
      ite_role (x := y) (t := y) rfl]
  refine ⟨h.ordered.begun ht rfl rfl (.conducts hx) rfl rfl hy, ?_, ?_, fun st hst _ => ?_, fun st hst hclosed => ?_,
    fun z hz hhalting => ?_⟩
  · rw [ht.tasks, Multiset.countP_add, hcount]
    show r.inFlight = _
    rw [hr]
    have hnot : (if y.role = .redelivery then 1 else 0) = 0 := rfl
    have hleft : (v.put t).node = v.node := rfl
    rw [hleft] at hflight
    omega
  · rw [ht.tasks, Multiset.countP_add, hcount]
    show _ = 1
    have hone : (if y.role = .scheduler then 1 else 0) = 1 := rfl
    have hzero : (if some (Except.ok () : Except String Unit) = none then 1 else 0) = 0 := rfl
    omega
  · cases hst
    exact ⟨rfl, ha⟩
  · cases hst
    cases hclosed
  · rw [ht.tasks] at hz
    rcases Multiset.mem_add.1 hz with hz | hz
    · rcases Multiset.mem_cons.1 hz with rfl | hz
      · exact absurd hhalting hx.not_halting
      · rw [Multiset.cons_zero, Multiset.mem_singleton] at hz
        exact absurd (hz ▸ hhalting) hy.not_halting
    · obtain ⟨-, st, hst, -⟩ := h.staged.halting z (Ordered.tasks_put v t ▸ Multiset.mem_cons_of_mem hz) hhalting
      rw [show (v.put t).node.scheduler = none from hnone] at hst
      cases hst

/-- A task that asks for the end of a scheduler holds the lock, and goes on conducting itself as it may. -/
theorem halts {next : Except String Unit → Operation Answer}
    (hrun : t.body.run v.node.repository = .asking .halt r fun a => (next a).run) :
    t.role = .awaited ∧ v.within .lifecycle t = true ∧ r.active = none ∧
      r.inFlight = v.node.repository.inFlight ∧ ∀ x : Task, x.role = t.role →
        (x.body = asking .halt next → Halting s x.body ∧ x.Stands s (v.within .lifecycle t) (v.within .pass t)) ∧
          ∀ a, x.body = next a → x.Conducts s (v.within .lifecycle t) (v.within .pass t) := by
  have hstands := h.ordered.self.2.2
  cases hstands with
  | conducts hc => exact hc.halts hrun
  | halts hin hrole hhalting hguarded =>
    have ht : t ∈ (v.put t).tasks := Ordered.tasks_put v t ▸ Multiset.mem_cons_self ..
    obtain ⟨-, st, hst, hclosed⟩ := h.staged.halting t ht hhalting
    have hg := hguarded v.node.repository
    rw [hrun] at hg
    obtain ⟨hr, hg⟩ := run_guarded_aside hg rfl
    obtain ⟨next', hrun', hl⟩ := hhalting
    rw [hrun'] at hrun
    injection hrun with _ hr' hnext
    obtain rfl : next' = next := funext fun a => congrFun hnext a
    refine ⟨hrole, hin, hr' ▸ (h.staged.closed st hst hclosed).1, hr, fun x hx => ⟨fun hb => ?_, fun a hb => ?_⟩⟩
    · have hhalting : Halting s x.body := ⟨next', fun r => by rw [hb]; rfl, hl⟩
      exact ⟨hhalting, .halts hin (hx.trans hrole) hhalting (hb ▸ fun r => .aside rfl rfl hg)⟩
    · exact .awaited (hx.trans hrole) (hin ▸ hb ▸ hl a) (hb ▸ hg a)

/-- Who is inside the lock when it asks for the end of a scheduler is the one that closed it, if any did. -/
theorem not_halting_others (hin : v.within .lifecycle t = true) (hy : y ∈ v.tasks) : ¬Halting s y.body := by
  intro hhalting
  obtain ⟨hid, -⟩ := h.staged.halting y (Ordered.tasks_put v t ▸ Multiset.mem_cons_of_mem hy) hhalting
  exact h.ordered.id_ne hy (Option.some.inj (hid.symm.trans (h.ordered.holder hin)))

/-- Nobody waits for the end of a scheduler when another task asks for it. -/
theorem waiting_of_halt {next : Except String Unit → Operation Answer}
    (hrun : t.body.run v.node.repository = .asking .halt r fun a => (next a).run) :
    v.node.scheduler.bind (·.waiting) = none := by
  obtain ⟨-, hin, -⟩ := h.halts hrun
  cases hst : v.node.scheduler with
  | none => rfl
  | some st =>
    by_cases hclosed : st.closing = true
    · obtain ⟨-, y, -, hid, -, -, hstage⟩ := h.staged.closed st hst hclosed
      by_cases hphase : st.phase = .alive
      · -- Who closed it holds the lock and waits, but the task holds the lock and goes on.
        rw [if_pos hphase] at hstage
        have hy : y ∈ v.tasks := Multiset.mem_add.2 (.inr (mem_waiters.2 (.inr (.inr ⟨st, hst, hstage⟩))))
        exact absurd (Option.some.inj (hid.symm.trans (h.ordered.holder hin))) (h.ordered.id_ne hy)
      · rw [if_neg hphase] at hstage
        exact hstage.1
    · exact (h.staged.opened st hst (Bool.eq_false_iff.2 hclosed)).1

/-- A scheduler that has ended is forgotten. -/
theorem joins {next : Except String Unit → Operation Answer} {a : Except String Unit}
    (hrun : t.body.run v.node.repository = .asking .halt r fun a => (next a).run)
    (ha : v.node.join? = some a) : (((v.leave r).setScheduler none).resume t (next a)).Tended s n k := by
  obtain ⟨hrole, hin, hactive, hr, hc⟩ := h.halts hrun
  let x : Task := { t with body := next a, pause := .nothing }
  have hx : x.Conducts s (v.within .lifecycle t) (v.within .pass t) := (hc x rfl).2 a rfl
  have hwaiting := h.waiting_of_halt hrun
  have hst : Trades t (v.leave r) 0 ((v.leave r).setScheduler none) :=
    trades_setScheduler t _ 0 (by rw [scheduler_leave, hwaiting]; rfl)
  have ht : Trades t v {x} (((v.leave r).setScheduler none).resume t (next a)) := by
    have ht := (((Trades.refl t v).leave r).trans hst).resume t (next a)
    rw [add_zero] at ht
    exact ht
  have hflight := h.staged.inFlight
  have hschedulers := h.staged.schedulers
  rw [Ordered.tasks_put, Multiset.countP_cons] at hflight hschedulers
  rw [show (v.put t).node.join? = some a from ha] at hschedulers
  refine ⟨h.ordered.back ht rfl rfl (.conducts hx), ?_, ?_, (fun st hst => nomatch hst), (fun st hst => nomatch hst),
    fun z hz hhalting => ?_⟩
  · rw [ht.tasks, Multiset.countP_add, ite_role (x := x) (t := t) rfl]
    show r.inFlight = _
    rw [hr]
    exact hflight.trans (Nat.add_comm _ _)
  · rw [ht.tasks, Multiset.countP_add, ite_role (x := x) (t := t) rfl]
    exact (Nat.add_comm _ _).trans hschedulers
  · rw [ht.tasks] at hz
    rcases Multiset.mem_add.1 hz with hz | hz
    · exact absurd (Multiset.mem_singleton.1 hz ▸ hhalting) hx.not_halting
    · exact absurd hhalting (h.not_halting_others hin hz)

/-- A scheduler is told to end. -/
theorem closes {next : Except String Unit → Operation Answer} {st : SchedulerState}
    (hrun : t.body.run v.node.repository = .asking .halt r fun a => (next a).run)
    (hst : v.node.scheduler = some st) (hphase : st.phase = .alive) :
    ((v.leave r).setScheduler (some { st with
      closing := true, waiting := some { t with body := asking .halt next, pause := .nothing } })).Tended s n k := by
  obtain ⟨hrole, hin, hactive, hr, hc⟩ := h.halts hrun
  let x : Task := { t with body := asking .halt next, pause := .nothing }
  obtain ⟨hhalting, hstands⟩ := (hc x rfl).1 rfl
  have hheld := h.ordered.holder hin
  have hwaiting := h.waiting_of_halt hrun
  have hset : Trades t (v.leave r) {x} ((v.leave r).setScheduler (some { st with closing := true, waiting := some x })) :=
    trades_setScheduler t _ {x} (by rw [scheduler_leave, hwaiting]; rfl)
  have ht := ((Trades.refl t v).leave r).trans hset
  rw [add_zero] at ht
  have hflight := h.staged.inFlight
  have hschedulers := h.staged.schedulers
  rw [Ordered.tasks_put, Multiset.countP_cons] at hflight hschedulers
  rw [show (v.put t).node.join? = none from Node.join?_eq_none.2 ⟨st, hst, hphase⟩, if_pos rfl] at hschedulers
  have hx : x ∈ ((v.leave r).setScheduler (some { st with closing := true, waiting := some x })).tasks := by
    rw [ht.tasks]
    exact Multiset.mem_add.2 (.inl (Multiset.mem_singleton_self x))
  refine ⟨h.ordered.back ht rfl rfl hstands, ?_, ?_, fun st' hst' hopen' => ?_, fun st' hst' _ => ?_,
    fun z hz hhalting => ?_⟩
  · rw [ht.tasks, Multiset.countP_add, ite_role (x := x) (t := t) rfl]
    show r.inFlight = _
    rw [hr]
    exact hflight.trans (Nat.add_comm _ _)
  · have hjoin : ((v.leave r).setScheduler (some { st with closing := true, waiting := some x })).node.join? = none :=
      Node.join?_eq_none.2 ⟨_, rfl, hphase⟩
    rw [ht.tasks, Multiset.countP_add, ite_role (x := x) (t := t) rfl, hjoin, if_pos rfl]
    exact (Nat.add_comm _ _).trans hschedulers
  · cases hst'
    cases hopen'
  · cases hst'
    exact ⟨hactive, x, hx, hheld, hrole, hhalting, by rw [if_pos hphase]⟩
  · rw [ht.tasks] at hz
    rcases Multiset.mem_add.1 hz with hz | hz
    · rw [Multiset.mem_singleton.1 hz]
      exact ⟨hheld, _, rfl, rfl⟩
    · exact absurd hhalting (h.not_halting_others hin hz)

/-- A scheduler asks for its next tick. -/
theorem ticks {next : Bool → Operation Answer} (hrun : t.body.run v.node.repository = .asking .tick r fun a => (next a).run)
    {st : Option SchedulerState} (hst : st.map SchedulerState.stage = v.node.scheduler.map SchedulerState.stage)
    (hb : b = asking .tick next ∨ ∃ a, b = next a) (p : Pause) :
    (((v.leave r).setScheduler st).put { t with body := b, pause := p }).Tended s n k := by
  have hhalt : ¬Halting s t.body := not_halting hrun Request.noConfusion
  obtain ⟨hleaves, hc⟩ := (h.ordered.self.2.2.of_not_halting hhalt).ticks hrun
  have hset : Trades t (v.leave r) 0 ((v.leave r).setScheduler st) := by
    refine trades_setScheduler t _ 0 ?_
    have hwaiting := congrArg (fun x => x.bind (·.2.2)) hst
    simp only [Option.bind_map] at hwaiting
    rw [scheduler_leave, zero_add]
    exact congrArg (fun x => Multiset.ofList (Option.toList x)) hwaiting
  have ht : Trades t v {{ t with body := b, pause := p }}
      (((v.leave r).setScheduler st).put { t with body := b, pause := p }) := by
    have ht := (((Trades.refl t v).leave r).trans hset).put { t with body := b, pause := p }
    rw [add_zero] at ht
    exact ht
  exact h.back ht (fun y hy => Multiset.mem_cons_of_mem hy) rfl rfl rfl rfl hst hleaves hhalt (hc _ rfl hb)

/-! ### The ends of tasks -/

/-- A task that is no scheduler leaves, outside all locks. -/
theorem leaves {u : View} (hu : Trades t v 0 u) (hqueued : ∀ y ∈ v.queued, y ∈ u.queued)
    (hout : ∀ l, u.within l t = false) (hrole : t.role ≠ .scheduler) (hhalt : ¬Halting s t.body)
    (hscheduler : u.node.scheduler = v.node.scheduler)
    (hkeeps : Policy.Keeps (v.within .lifecycle t) v.node.repository.active u.node.repository.active)
    (hflight : u.node.repository.inFlight = v.node.repository.inFlight - if t.role = .redelivery then 1 else 0)
    (hholder : v.within .lifecycle t = false → ∀ i, v.node.lifecycle.holder = some i →
      u.node.lifecycle.holder = some i) : u.Tended s n k := by
  refine ⟨h.ordered.gone hu hout, h.staged.trade hu.tasks hqueued (fun x hx => absurd hx (Multiset.notMem_zero x))
    ?_ ?_ (congrArg _ hscheduler) hkeeps (h.staged.open_of_inside h.ordered hhalt) hholder⟩
  · rw [if_neg hrole]
    exact Multiset.countP_zero _
  · have hbefore := h.staged.inFlight
    rw [Ordered.tasks_put, Multiset.countP_cons, show (v.put t).node = v.node from rfl] at hbefore
    rw [hflight, Multiset.countP_zero]
    omega

/-- A scheduler leaves, outside all locks, and who waits for its end goes on. -/
theorem ends {u : View} (hu : Trades t v 0 u)
    (hout : ∀ l, u.within l t = false) (hrole : t.role = .scheduler)
    (hscheduler : u.node.scheduler = v.node.scheduler)
    (hactive : u.node.repository.active = v.node.repository.active)
    (hflight : u.node.repository.inFlight = v.node.repository.inFlight)
    (hholder : ∀ i, v.node.lifecycle.holder = some i → u.node.lifecycle.holder = some i) {phase : SchedulerPhase}
    (hphase : phase ≠ .alive) : (u.endScheduler phase).Tended s n k := by
  have hbefore := h.staged.inFlight
  have hschedulers := h.staged.schedulers
  rw [Ordered.tasks_put, Multiset.countP_cons, show (v.put t).node = v.node from rfl, hrole] at hbefore hschedulers
  have hjoin : v.node.join? = none := by
    refine Decidable.byContradiction fun hjoin => ?_
    rw [if_neg hjoin, if_pos rfl] at hschedulers
    exact Nat.succ_ne_zero _ hschedulers
  rw [if_pos hjoin, if_pos rfl, Nat.add_eq_right] at hschedulers
  obtain ⟨st, hst, halive⟩ := Node.join?_eq_none.1 hjoin
  have ht : Trades t v 0 (u.endScheduler phase) := hu.trans (trades_endScheduler t u phase)
  have hnode : (u.endScheduler phase).node =
      { u.node with scheduler := some { st with phase, waiting := none } } := by
    unfold View.endScheduler
    rw [hscheduler, hst]
    dsimp only
    split <;> rfl
  have hnew : (u.endScheduler phase).node.join? ≠ none := fun hj => by
    obtain ⟨st', hst', hp⟩ := Node.join?_eq_none.1 hj
    rw [hnode] at hst'
    cases hst'
    exact hphase hp
  have htasks : (u.endScheduler phase).tasks = v.tasks := ht.tasks.trans (zero_add _)
  have hwithin (l : Lock) : (u.endScheduler phase).within l t = u.within l t := by
    rw [within, within, hnode]
    cases l <;> rfl
  refine ⟨h.ordered.gone ht fun l => (hwithin l).trans (hout l), ?_, ?_, fun st' hst' hopen => ?_,
    fun st' hst' hclosed => ?_, fun y hy hhalting => ?_⟩
  · rw [htasks, hnode]
    exact hflight.trans hbefore
  · rw [htasks, if_neg hnew]
    exact hschedulers
  · rw [hnode] at hst' ⊢
    cases hst'
    exact ⟨rfl, hactive ▸ (h.staged.opened st hst hopen).2⟩
  · rw [hnode] at hst'
    cases hst'
    obtain ⟨ha, y, hy, hid, hrole', hhalting, hstage⟩ := h.staged.closed st hst hclosed
    have hne : y ≠ t := by
      rintro rfl
      exact Role.noConfusion (hrole.symm.trans hrole')
    rw [Ordered.tasks_put] at hy
    rw [if_pos halive] at hstage
    refine ⟨?_, y, htasks ▸ (Multiset.mem_cons.1 hy).resolve_left hne, ?_, hrole', hhalting, ?_⟩
    · rw [hnode]
      exact hactive.trans ha
    · rw [hnode]
      exact hholder _ hid
    · rw [if_neg hphase]
      refine ⟨rfl, ?_⟩
      unfold View.endScheduler
      rw [hscheduler, hst]
      dsimp only
      rw [hstage]
      exact Multiset.mem_cons_self ..
  · rw [htasks] at hy
    obtain ⟨hid, st', hst', hclosed⟩ := h.staged.halting y (Ordered.tasks_put v t ▸ Multiset.mem_cons_of_mem hy) hhalting
    have he : st' = st := Option.some.inj (hst'.symm.trans hst)
    subst he
    rw [hnode]
    exact ⟨hholder _ hid, _, rfl, hclosed⟩

/-- The body of a task has finished. -/
theorem finishes {result : Except RepositoryError Answer} (hrun : t.body.run v.node.repository = .finished result r) :
    ((v.leave r).finish t result).Tended s n k := by
  have hhalt : ¬Halting s t.body := by
    rintro ⟨next, hrun', -⟩
    rw [hrun'] at hrun
    cases hrun
  have hstands := h.ordered.self.2.2.of_not_halting hhalt
  obtain ⟨hlifecycle, hpass, hactive, hflight⟩ := hstands.finishes hrun
  have hu : Trades t v 0 (v.leave r) := (Trades.refl t v).leave r
  have hout (l : Lock) : (v.leave r).within l t = false := by
    cases l with
    | lifecycle => exact hlifecycle
    | pass => exact hpass
  have hends {phase : SchedulerPhase} (hrole : t.role = .scheduler) (hphase : phase ≠ .alive) :
      ((v.leave r).endScheduler phase).Tended s n k := by
    rw [if_neg fun hr => Role.noConfusion (hrole.symm.trans hr)] at hflight
    exact h.ends hu hout hrole rfl hactive hflight (fun _ hi => hi) hphase
  have hleaves (hrole : t.role ≠ .scheduler) : (v.leave r).Tended s n k :=
    h.leaves hu (fun _ hy => hy) hout hrole hhalt rfl (.inl hactive) hflight fun _ _ hi => hi
  unfold View.finish
  split
  · rename_i hrole
    exact hleaves (by rw [hrole]; exact Role.noConfusion)
  · rename_i hrole
    exact hleaves (by rw [hrole]; exact Role.noConfusion)
  · rename_i hrole
    rw [if_neg fun hr => Role.noConfusion (hrole.symm.trans hr)] at hflight
    refine h.back (hu.resume t _) (fun y hy => Multiset.mem_cons_of_mem hy) rfl rfl rfl rfl rfl
      ⟨.inl hactive, hflight⟩ hhalt ?_
    have hw : ((v.leave r).resume t (round (v.leave r).node.setup)).within .pass t = false := hpass
    rw [hw, hlifecycle]
    exact .scheduler hrole (within_round _) (h.ordered.setup ▸ guarded_round _)
  · rename_i hrole _
    exact hends hrole SchedulerPhase.noConfusion

omit h in
theorem node_surrender (v : View) (t : Task) (l : Lock) :
    (v.surrender t l).node.repository = v.node.repository ∧ (v.surrender t l).node.scheduler = v.node.scheduler ∧
      (∀ m, m ≠ l → (v.surrender t l).node.lock m = v.node.lock m) ∧
      ((v.node.lock l).holder ≠ some t.id → (v.surrender t l).node = v.node) ∧
      ∀ y ∈ v.queued, y ∈ (v.surrender t l).queued := by
  unfold View.surrender
  split
  · rename_i hin
    rw [node_release]
    refine ⟨Node.repository_setLock .., Node.scheduler_setLock .., fun m hm => ?_, fun hne => absurd hin hne,
      fun y hy => ?_⟩
    · rw [Node.lock_setLock, if_neg hm]
    · unfold View.release
      dsimp only
      split
      · exact hy
      · exact Multiset.mem_cons_of_mem hy
  · exact ⟨rfl, rfl, fun _ _ => rfl, fun _ => rfl, fun _ hy => hy⟩

omit h in
/-- Who has surrendered a lock is outside. -/
theorem within_surrender (hf : (v.node.lock l).Fair)
    (hin : v.within l t = true → (v.node.lock l).holder = some t.id) : (v.surrender t l).within l t = false := by
  unfold View.surrender
  split
  · rename_i hholder
    have hnodup := hf.nodup
    rw [within, node_release, Node.lock_setLock, if_pos rfl, hf.ids_pass, LockState.ids, hholder]
    rw [LockState.ids, hholder] at hnodup
    simpa using (List.nodup_cons.1 hnodup).1
  · rename_i hholder
    exact Bool.eq_false_iff.2 fun h => hholder (hin h)

/-- A task surrenders its locks. -/
theorem surrenders (r : Repository) : Trades t v 0 (((v.leave r).surrender t .pass).surrender t .lifecycle) := by
  have hfair (l : Lock) : ((v.leave r).node.lock l).Fair := (lock_leave v r l).symm ▸ h.ordered.fair l
  have hpass := trades_surrender (t := t) (hfair .pass)
  exact (((Trades.refl t v).leave r).trans hpass).trans (trades_surrender (hpass.locks.fair hfair .lifecycle))

/-- A task crashes in a store call. -/
theorem crashes {call : Store.Call} {f : call.Result → Operation Answer}
    (hrun : t.body.run v.node.repository = .asking (.store call) r fun a => (f a).run) :
    ((v.leave r).crash t).Tended s n k := by
  have hhalt : ¬Halting s t.body := not_halting hrun Request.noConfusion
  obtain ⟨⟨hkeeps, hflight⟩, -⟩ := (h.ordered.self.2.2.of_not_halting hhalt).continues hrun rfl fun _ => rfl
  have hfair (l : Lock) : ((v.leave r).node.lock l).Fair := (lock_leave v r l).symm ▸ h.ordered.fair l
  have hholder (l : Lock) (hin : (v.leave r).within l t = true) : ((v.leave r).node.lock l).holder = some t.id := by
    rw [lock_leave]
    exact h.ordered.holder (by rw [within, lock_leave] at hin; exact hin)
  -- First the lock of passes is surrendered, then the lifecycle lock.
  obtain ⟨hr₁, hs₁, hl₁, -, hq₁⟩ := node_surrender (v.leave r) t .pass
  obtain ⟨hr₂, hs₂, hl₂, hn₂, hq₂⟩ := node_surrender ((v.leave r).surrender t .pass) t .lifecycle
  have hlock₁ := hl₁ .lifecycle Lock.noConfusion
  have hfair₁ : (((v.leave r).surrender t .pass).node.lock .lifecycle).Fair := hlock₁ ▸ hfair .lifecycle
  let u := ((v.leave r).surrender t .pass).surrender t .lifecycle
  have hu : Trades t v 0 u := h.surrenders r
  have hout (l : Lock) : u.within l t = false := by
    cases l with
    | lifecycle =>
      refine within_surrender hfair₁ fun hin => ?_
      rw [hlock₁]
      exact hholder .lifecycle (by rw [within, hlock₁] at hin; exact hin)
    | pass =>
      have hw := within_surrender (hfair .pass) (hholder .pass)
      rw [within] at hw ⊢
      exact (congrArg (fun a : LockState => decide (t.id ∈ a.ids)) (hl₂ .pass Lock.noConfusion)).trans hw
  have hrepository : u.node.repository = r := hr₂.trans hr₁
  have hscheduler : u.node.scheduler = v.node.scheduler := hs₂.trans hs₁
  have hqueued : ∀ y ∈ v.queued, y ∈ u.queued := fun y hy => hq₂ y (hq₁ y hy)
  have hlifecycle (hw : v.within .lifecycle t = false) (i : Nat) (hi : v.node.lifecycle.holder = some i) :
      u.node.lifecycle.holder = some i := by
    have hi' : (((v.leave r).surrender t .pass).node.lock .lifecycle).holder = some i := by
      rw [hlock₁, lock_leave]
      exact hi
    have hne : (((v.leave r).surrender t .pass).node.lock .lifecycle).holder ≠ some t.id := fun hh => by
      refine Bool.false_ne_true (hw.symm.trans (decide_eq_true (List.mem_append_left _ (Option.mem_toList.2 ?_))))
      exact hi.trans (hi'.symm.trans hh)
    show (u.node.lock .lifecycle).holder = some i
    rw [hn₂ hne]
    exact hi'
  cases hrole : t.role with
  | awaited =>
    rw [show (v.leave r).crash t = u by unfold View.crash; rw [hrole]]
    refine h.leaves hu hqueued hout (by rw [hrole]; exact Role.noConfusion) hhalt hscheduler (hrepository ▸ hkeeps) ?_
      hlifecycle
    rw [hrepository, hflight, hrole]
    rfl
  | redelivery =>
    rw [show (v.leave r).crash t = u.leave u.node.repository.endRedelivery by unfold View.crash; rw [hrole]]
    refine h.leaves (hu.leave _) hqueued (fun l => ?_) (by rw [hrole]; exact Role.noConfusion) hhalt hscheduler
      (hrepository ▸ hkeeps) ?_ hlifecycle
    · rw [within, lock_leave]
      exact hout l
    · rw [hrole]
      show u.node.repository.inFlight - 1 = _
      rw [hrepository, hflight]
      rfl
  | scheduler =>
    rw [show (v.leave r).crash t = u.endScheduler (.crashed s!"task N panicked with message \"{crashText}\"") by
      unfold View.crash; rw [hrole]]
    have hw := h.ordered.self.2.2.outside (by rw [hrole]; exact Role.noConfusion)
    rw [hw] at hkeeps
    exact h.ends hu hout hrole hscheduler (hrepository ▸ hkeeps.resolve_right fun hk => Bool.false_ne_true hk.1)
      (hrepository ▸ hflight) (hlifecycle hw) SchedulerPhase.noConfusion

omit h in
theorem noting_node (x : Node) (e : RouteError) : (x.noting e).setup = x.setup ∧ (∀ l, (x.noting e).lock l = x.lock l) ∧
    (x.noting e).scheduler = x.scheduler ∧ (x.noting e).repository = x.repository := by
  unfold Node.noting
  split
  · exact ⟨rfl, fun l => by cases l <;> rfl, rfl, rfl⟩
  · exact ⟨rfl, fun _ => rfl, rfl, rfl⟩

/-- Whatever a task does in its turn, the tasks of its node stand as they should afterwards. -/
theorem turn {rs : List Result} (ht : v.Turn t k w j rs) : w.Tended s n j := by
  cases ht with
  | finished hrun => exact h.finishes hrun
  | crashed hrun => exact h.crashes (f := fun a => ExceptT.mk _) hrun
  | @answered q r next _ _ hrun ha =>
    have hback {q : Request} {r : Repository} {next : q.Answer → Operation Answer} {b : Operation Answer}
        (hrun : t.body.run v.node.repository = .asking q r fun a => (next a).run) (hfree : q.isFree = true)
        (haside : t.role ≠ .redelivery → q.isAside = true) (hb : Continues q next b) (p : Pause) :
        ((v.leave r).put { t with body := b, pause := p }).Tended s n k :=
      h.continues (z := (v.leave r).node) hrun hfree haside rfl (lock_leave v r) rfl rfl hb p
    -- Who hands an exchange over is a redelivery.
    have hdeliver {key : CorrelationKey} {e : Exchange} {next : Except RedeliveryError Unit → Operation Answer}
        (hrun : t.body.run v.node.repository = .asking (.deliver key e) r fun a => (next a).run)
        (hrole : t.role ≠ .redelivery) : (Request.deliver key e).isAside = true :=
      absurd ((h.ordered.self.2.2.of_not_halting (not_halting hrun Request.noConfusion)).delivers hrun).1 hrole
    cases ha with
    | slow hq _ =>
      cases q with
      | store => exact hback hrun rfl (fun _ => rfl) (.inl rfl) .delay
      | deliver => exact hback hrun rfl (hdeliver hrun) (.inl rfl) .delay
      | _ => cases hq
    | called a => exact hback hrun rfl (fun _ => rfl) (.answered (q := .store _) a) .nothing
    | slept => exact hback hrun rfl (fun _ => rfl) (.answered (q := .sleep _) ()) .nothing
    | forwarded letters failures hy => exact h.forwards hrun letters failures hy
    | undelivered _ a => exact hback hrun rfl (hdeliver hrun) (.answered (q := .deliver _ _) a) .nothing
    | @delivered key e _ _ y hy =>
      exact h.continues (z := { (v.leave r).node with delivered := (key, e) :: (v.leave r).node.delivered }) hrun rfl
        (hdeliver hrun) rfl (fun l => by cases l <;> rfl) rfl rfl (.inr ⟨y, hy, rfl⟩) .nothing
    | dispatched => exact h.dispatches hrun
    | @reported e _ =>
      obtain ⟨hsetup, hlock, hscheduler, hr⟩ := noting_node (v.leave r).node e
      exact h.continues (z := (v.leave r).node.noting e) hrun rfl (fun _ => rfl) hsetup
        (fun l => (hlock l).trans (lock_leave v r l)) hscheduler hr (.answered (q := .report e) ()) .nothing
    | acquired => exact h.acquires hrun
    | released => exact h.releases hrun
    | launched now => exact h.launches hrun now
    | joined ha => exact h.joins hrun ha
    | closing hs hphase => exact h.closes hrun hs hphase
    | ticked ticker goes _ =>
      refine h.ticks hrun ?_ (.inr ⟨goes, rfl⟩) .nothing
      rw [Option.map_map]
      rfl
    | dozing hs hopen => exact h.ticks hrun rfl (.inl rfl) .tick

end View.Tended

/-! ## Tasks after a turn -/

/-- What a task of a node has become after its turn. -/
inductive Task.Goes (z : Node) (t : Task) : Task → Prop where
  | answered {q : Request} {r : Repository} {next : q.Answer → Operation Answer}
      (hrun : t.body.run z.repository = .asking q r fun a => (next a).run) (a : q.Answer) (p : Pause) :
      Goes z t { t with body := next a, pause := p }
  | reacted {q : Request} (hq : q.isReacted = true) {r : Repository} {next : q.Answer → Operation Answer}
      (hrun : t.body.run z.repository = .asking q r fun a => (next a).run) {y : Procedure q.Answer} (hy : y.Modest) :
      Goes z t { t with body := do next (← y), pause := .nothing }
  | delayed {q : Request} (hq : q.isSlow = true) (hp : t.pause ≠ .delay) {r : Repository}
      {next : q.Answer → Operation Answer} (hrun : t.body.run z.repository = .asking q r fun a => (next a).run) :
      Goes z t { t with body := asking q next, pause := .delay }
  /-- It waits for the scheduler to end. -/
  | halting {r : Repository} {next : Except String Unit → Operation Answer}
      (hrun : t.body.run z.repository = .asking .halt r fun a => (next a).run) :
      Goes z t { t with body := asking .halt next, pause := .nothing }
  /-- It waits for its next tick. -/
  | dozing {r : Repository} {next : Bool → Operation Answer}
      (hrun : t.body.run z.repository = .asking .tick r fun a => (next a).run) :
      Goes z t { t with body := asking .tick next, pause := .tick }
  /-- It is a scheduler that goes on with another round. -/
  | again (hrole : t.role = .scheduler) {r : Repository}
      (hrun : t.body.run z.repository = .finished (.ok (.flag true)) r) :
      Goes z t { t with body := round z.setup, pause := .nothing }

/-- What a task of a node has begun in its turn. -/
inductive Task.Begins (z : Node) (k : Nat) (t : Task) : Task → Prop where
  | dispatched {key : CorrelationKey} {e : Exchange} {r : Repository} {next : Unit → Operation Answer}
      (hrun : t.body.run z.repository = .asking (.dispatch key e) r fun a => (next a).run) :
      Begins z k t { id := k, node := t.node, role := .redelivery, body := redelivery key e }
  | launched {interval : Nat} {r : Repository} {next : Unit → Operation Answer}
      (hrun : t.body.run z.repository = .asking (.launch interval) r fun a => (next a).run) :
      Begins z k t { id := k, node := t.node, role := .scheduler, body := round z.setup }

/-- Which tasks come from one in its turn: none if it has ended, itself, or itself and another. -/
inductive Task.Yields (z : Node) (k : Nat) (t : Task) : Multiset Task → Nat → List Result → Prop where
  | ended {rs : List Result} : Yields z k t 0 k rs
  | goes {x : Task} (hx : t.Goes z x) : Yields z k t {x} k []
  | begins {x y : Task} (hx : t.Goes z x) (hy : t.Begins z k y) : Yields z k t (x ::ₘ {y}) (k + 1) []

namespace View.Tended

variable (h : (v.put t).Tended s n k)
include h

/-- After a turn there are the tasks from before and those that come from the one whose turn it was. -/
theorem trades {rs : List Result} (ht : v.Turn t k w j rs) : ∃ new, Trades t v new w ∧ t.Yields v.node k new j rs := by
  have hleft (r : Repository) : Trades t v 0 (v.leave r) := (Trades.refl t v).leave r
  have hended {w : View} {rs : List Result} (hw : Trades t v 0 w) :
      ∃ new, Trades t v new w ∧ t.Yields v.node k new k rs := ⟨0, hw, .ended⟩
  have hgoes {w : View} {x : Task} (hx : t.Goes v.node x) (hw : Trades t v {x} w) :
      ∃ new, Trades t v new w ∧ t.Yields v.node k new k [] := ⟨_, hw, .goes hx⟩
  have hbegins {w : View} {y : Task} {b : Operation Answer} (hx : t.Goes v.node { t with body := b, pause := .nothing })
      (hy : t.Begins v.node k y) (hw : Trades t v {y} w) :
      ∃ new, Trades t v new (w.resume t b) ∧ t.Yields v.node k new (k + 1) [] := ⟨_, hw.resume t b, .begins hx hy⟩
  cases ht with
  | @finished result r hrun =>
    unfold View.finish
    split
    · exact hended (hleft r)
    · exact hended (hleft r)
    · rename_i hrole
      rw [show t.noted (.ofExcept (.ok (.flag true))) = [] from if_neg (by rw [hrole]; exact Role.noConfusion)]
      exact hgoes (.again hrole hrun) ((hleft r).resume t _)
    · exact hended ((hleft r).trans (trades_endScheduler t _ _))
  | @crashed r next hrun =>
    unfold View.crash
    dsimp only
    split
    · exact hended (h.surrenders r)
    · exact hended ((h.surrenders r).leave _)
    · exact hended ((h.surrenders r).trans (trades_endScheduler t _ _))
  | @answered q r next _ _ hrun ha =>
    have hback (body : Operation Answer) (p : Pause) : Trades t v {{ t with body, pause := p }}
        ((v.leave r).put { t with body, pause := p }) := (hleft r).put _
    cases ha with
    | slow hq hp => exact hgoes (.delayed hq hp hrun) (hback _ _)
    | called a => exact hgoes (.answered hrun a _) (hback _ _)
    | slept => exact hgoes (.answered hrun () _) (hback _ _)
    | undelivered _ a => exact hgoes (.answered hrun a _) (hback _ _)
    | dozing => exact hgoes (.dozing hrun) (hback _ _)
    | forwarded letters failures hy =>
      have hset : Trades t v 0 ((v.leave r).set { (v.leave r).node with letters, failures }) :=
        (hleft r).set rfl (by rintro (_ | _) <;> rfl) rfl
      exact hgoes (.reacted rfl hrun hy) (hset.resume t _)
    | @delivered key e _ _ _ hy =>
      have hset : Trades t v 0
          ((v.leave r).set { (v.leave r).node with delivered := (key, e) :: (v.leave r).node.delivered }) :=
        (hleft r).set rfl (by rintro (_ | _) <;> rfl) rfl
      exact hgoes (.reacted rfl hrun hy) (hset.resume t _)
    | @reported e _ =>
      obtain ⟨hsetup, hlock, hscheduler, -⟩ := noting_node (v.leave r).node e
      have hwaiters : ((v.leave r).node.noting e).waiters = (v.leave r).node.waiters := by
        unfold Node.noting
        split <;> rfl
      exact hgoes (.answered hrun () _) (((hleft r).set hsetup hlock hwaiters).resume t _)
    | dispatched => exact hbegins (.answered hrun () _) (.dispatched hrun) ((hleft r).put _)
    | @acquired l next =>
      have hhalt : ¬Halting s t.body := not_halting hrun Request.noConfusion
      obtain ⟨hout, -⟩ := (h.ordered.self.2.2.of_not_halting hhalt).acquires hrun
      have hout : t.id ∉ ((v.leave r).node.lock l).ids := by
        rw [lock_leave]
        cases l with
        | lifecycle => exact of_decide_eq_false hout
        | pass => exact of_decide_eq_false hout
      obtain ⟨p, hacquire⟩ := trades_acquire ((lock_leave v r l).symm ▸ h.ordered.fair l) hout (next ())
      have hw := (hleft r).trans hacquire
      rw [add_zero] at hw
      exact hgoes (.answered hrun () p) hw
    | @released l next =>
      have hhalt : ¬Halting s t.body := not_halting hrun Request.noConfusion
      obtain ⟨hin, -⟩ := (h.ordered.self.2.2.of_not_halting hhalt).releases hrun
      have hin : v.within l t = true := by
        cases l with
        | lifecycle => exact hin
        | pass => exact hin
      have hholder : ((v.leave r).node.lock l).holder = some t.id := (lock_leave v r l).symm ▸ h.ordered.holder hin
      have hw := (hleft r).trans (trades_release ((lock_leave v r l).symm ▸ h.ordered.fair l) hholder)
      rw [add_zero] at hw
      exact hgoes (.answered hrun () _) (hw.resume t _)
    | @launched interval _ now =>
      have hset := trades_setScheduler t (v.leave r) 0 (x := some { ticker := .starting now interval })
        (by rw [scheduler_leave, h.none_of_launch hrun]; rfl)
      have hw := (hleft r).trans hset
      rw [add_zero] at hw
      exact hbegins (.answered hrun () _) (.launched hrun) (hw.put _)
    | @joined _ a =>
      have hset := trades_setScheduler t (v.leave r) 0 (x := none) (by rw [scheduler_leave, h.waiting_of_halt hrun]; rfl)
      have hw := (hleft r).trans hset
      rw [add_zero] at hw
      exact hgoes (.answered hrun a _) (hw.resume t _)
    | @closing next st hs _ =>
      have hset := trades_setScheduler t (v.leave r) {{ t with body := asking .halt next, pause := .nothing }}
        (x := some { st with closing := true, waiting := some { t with body := asking .halt next, pause := .nothing } })
        (by rw [scheduler_leave, h.waiting_of_halt hrun]; rfl)
      have hw := (hleft r).trans hset
      rw [add_zero] at hw
      exact hgoes (.halting hrun) hw
    | ticked ticker goes =>
      have hset := trades_setScheduler t (v.leave r) 0 (x := (v.leave r).node.scheduler.map fun st =>
        { st with ticker := ticker st.ticker }) (by rw [Option.bind_map]; exact (zero_add _).symm)
      have hw := (hleft r).trans hset
      rw [add_zero] at hw
      exact hgoes (.answered hrun goes _) (hw.resume t _)

end View.Tended

/-- A task keeps its number, its node and its role. -/
theorem Task.Goes.same {z : Node} (h : t.Goes z x) : x.id = t.id ∧ x.node = t.node ∧ x.role = t.role := by
  cases h <;> exact ⟨rfl, rfl, rfl⟩

theorem Task.Begins.fresh {z : Node} (h : t.Begins z k y) : y.id = k ∧ y.node = t.node ∧ y.role ≠ .awaited := by
  cases h <;> exact ⟨rfl, rfl, Role.noConfusion⟩

theorem Task.Yields.mem {z : Node} {rs : List Result} (h : t.Yields z k new j rs) (hx : x ∈ new) :
    t.Goes z x ∧ rs = [] ∨ t.Begins z k x ∧ j = k + 1 := by
  cases h with
  | ended => exact absurd hx (Multiset.notMem_zero x)
  | goes hg =>
    rw [Multiset.mem_singleton.1 hx]
    exact .inl ⟨hg, rfl⟩
  | begins hg hb =>
    rcases Multiset.mem_cons.1 hx with rfl | hx
    · exact .inl ⟨hg, rfl⟩
    · rw [Multiset.mem_singleton.1 hx]
      exact .inr ⟨hb, rfl⟩

end DurableAggregates.Cluster
