import DurableAggregates.Proofs.Interleaving.Stops
import DurableAggregates.Proofs.Shutdown.Bystanders

/-!
# Handovers

Every exchange that a pass dispatches is handed over once. `Tracked` keeps beside a cluster what its nodes have
dispatched; that is always what the engine was given, together with what redeliveries still owe it
(`Tracked.balance`). A node whose repository does not run, where nobody is in a pass and no redelivery is outstanding,
is `Idle`, and hands nothing over before the next start (`delivered_of_idle`).
-/

namespace DurableAggregates.Cluster

open Relation (ReflTransGen)

variable {s : Setup} {n m i k j : Nat} {c d e : Cluster} {t x : Task} {tail : List Task} {v w : View}
  {rs : List Result} {f : Nat → Cluster} {sent : Nat → Multiset (CorrelationKey × Exchange)}

/-! ## What is owed -/

/-- The exchange that a task hands over next. -/
def Task.owes (t : Task) : Multiset (CorrelationKey × Exchange) :=
  match t.body.run {} with
  | .asking (.deliver key e) _ _ => {(key, e)}
  | _ => 0

/-- The exchange that a task dispatches next. -/
def Task.sends (t : Task) (r : Repository) : Multiset (CorrelationKey × Exchange) :=
  match t.body.run r with
  | .asking (.dispatch key e) _ _ => {(key, e)}
  | _ => 0

/-- What the redeliveries of a node still have to hand over. -/
def View.owed (v : View) : Multiset (CorrelationKey × Exchange) := v.tasks.bind Task.owes

/-- What is dispatched at a node when the cluster proceeds. -/
def dispatching (c : Cluster) (n : Nat) : Multiset (CorrelationKey × Exchange) :=
  match c.ready with
  | [] => 0
  | t :: _ => if t.node = n then t.sends (c.node n).repository else 0

/-- The redeliveries of a node that have begun and not ended. -/
def outstanding (c : Cluster) (n : Nat) : Nat := (c.view n).tasks.countP (·.role = .redelivery)

theorem owes_of_handing {key : CorrelationKey} {e : Exchange} (h : Handing key e t.body) : t.owes = {(key, e)} := by
  obtain ⟨next, hrun, -⟩ := h
  rw [Task.owes, hrun]

theorem owes_of_parting (h : Parting t.body) : t.owes = 0 := by
  have hp := h {}
  unfold Task.owes
  split
  · next hrun =>
    rw [hrun] at hp
    cases hp
  · rfl

/-- Only redeliveries owe something. -/
theorem Task.Stands.owes {inside passing : Bool} (h : t.Stands s inside passing) (hrole : t.role ≠ .redelivery) :
    t.owes = 0 := by
  unfold Task.owes
  split
  · next hrun =>
    exact absurd ((h.of_not_halting (not_halting hrun Request.noConfusion)).delivers hrun).1 hrole
  · rfl

/-- A redelivery has handed its exchange over, or is to. -/
theorem Task.Conducts.hands {inside passing : Bool} (h : t.Conducts s inside passing) (hrole : t.role = .redelivery) :
    Parting t.body ∨ s.hasEngine = true ∧ ∃ key e, Handing key e t.body := by
  cases h with
  | awaited hrole' => exact absurd (hrole.symm.trans hrole') Role.noConfusion
  | scheduler hrole' => exact absurd (hrole.symm.trans hrole') Role.noConfusion
  | redelivery _ hbody => exact hbody

namespace View

@[simp] theorem delivered_release (v : View) (l : Lock) : (v.release l).node.delivered = v.node.delivered := by
  rw [node_release]
  cases l <;> rfl

@[simp] theorem delivered_surrender (v : View) (t : Task) (l : Lock) :
    (v.surrender t l).node.delivered = v.node.delivered := by
  unfold View.surrender
  split
  · exact delivered_release v l
  · rfl

@[simp] theorem delivered_endScheduler (v : View) (p : SchedulerPhase) :
    (v.endScheduler p).node.delivered = v.node.delivered := by
  unfold View.endScheduler
  split
  · rfl
  · dsimp only
    split <;> rfl

/-- The engine is given something by who hands it over. -/
theorem Turn.delivered (ht : v.Turn t k w j rs)
    (hrun : ∀ key e r next, t.body.run v.node.repository ≠ .asking (.deliver key e) r next) :
    w.node.delivered = v.node.delivered := by
  cases ht with
  | finished =>
    unfold View.finish
    split
    · rfl
    · rfl
    · rfl
    · exact delivered_endScheduler _ _
  | crashed =>
    unfold View.crash
    dsimp only
    split
    · simp [View.leave, View.set]
    · simp [View.leave, View.set]
    · simp [View.leave, View.set]
  | answered hrun' ha =>
    cases ha with
    | delivered => exact absurd hrun' (hrun _ _ _ _)
    | reported =>
      show (Node.noting _ _).delivered = _
      unfold Node.noting
      split <;> rfl
    | acquired =>
      rename_i l next
      rw [node_acquire]
      cases l <;> rfl
    | released => exact delivered_release _ _
    | _ => rfl

theorem owed_put (v : View) (t : Task) : (v.put t).owed = t.owes + v.owed := by
  rw [owed, Ordered.tasks_put, Multiset.cons_bind]
  rfl

end View

/-- A redelivery that has handed its exchange over does so no more. -/
theorem Parting.goes {z : Node} (h : Parting t.body) (hg : t.Goes z x) (hrole : t.role = .redelivery) :
    Parting x.body := by
  have hp := h z.repository
  cases hg with
  | answered hrun a =>
    rw [hrun] at hp
    cases hp with
    | asking _ hnext => exact hnext a
  | reacted hq hrun =>
    rw [hrun] at hp
    cases hp
    cases hq
  | delayed _ _ hrun =>
    rw [hrun] at hp
    cases hp with
    | asking _ hnext => exact fun r => .asking rfl hnext
  | halting hrun =>
    rw [hrun] at hp
    cases hp
  | dozing hrun =>
    rw [hrun] at hp
    cases hp
  | again hscheduler => exact absurd (hrole.symm.trans hscheduler) Role.noConfusion

namespace View.Tended

variable (h : (v.put t).Tended s n k)
include h

/-- A task that hands nothing over owes nothing before its turn and after. -/
theorem owes_turn (hrun : ∀ key e r next, t.body.run v.node.repository ≠ .asking (.deliver key e) r next)
    (ht : v.Turn t k w j rs) : t.owes = 0 ∧ ∀ x ∈ w.tasks, t.Goes v.node x → x.owes = 0 := by
  have hstands := h.ordered.self.2.2
  by_cases hrole : t.role = .redelivery
  · have hconducts := hstands.of_role (by rw [hrole]; exact Role.noConfusion)
    have hparting : Parting t.body := (hconducts.hands hrole).resolve_right
      fun ⟨_, key, e, next, hdeliver, _⟩ => hrun key e _ _ (hdeliver _)
    exact ⟨owes_of_parting hparting, fun x _ hg => owes_of_parting (hparting.goes hg hrole)⟩
  · refine ⟨hstands.owes hrole, fun x hx hg => ?_⟩
    have hw := (h.turn ht).ordered.conduct x hx
    exact hw.owes (by rw [hg.same.2.2]; exact hrole)

/-- Who hands an exchange over owes it, and nothing afterwards; in between it may take its time. -/
theorem balance_deliver {key : CorrelationKey} {e : Exchange} {r : Repository}
    {next : Except RedeliveryError Unit → Repository → Run (Except RepositoryError Answer)} (ht : v.Turn t k w j rs)
    (hrun : t.body.run v.node.repository = .asking (.deliver key e) r next) :
    Multiset.ofList w.node.delivered + w.owed = Multiset.ofList v.node.delivered + (v.put t).owed := by
  have hhalt : ¬Halting s t.body := not_halting hrun Request.noConfusion
  obtain ⟨-, hengine, hhanding⟩ := (h.ordered.self.2.2.of_not_halting hhalt).delivers hrun
  have hengine : v.node.engine.isSome = true := by
    rw [← hengine, ← h.ordered.setup]
    rfl
  have howes := owes_of_handing hhanding
  obtain ⟨next', hrun', hparting⟩ := hhanding
  have hsame := hrun.symm.trans (hrun' v.node.repository)
  injection hsame with _ hr hnext
  subst hnext
  have ha := ht.of_asking hrun Request.noConfusion
  rw [owed_put, howes]
  cases ha with
  | slow =>
    have hagain : Handing key e (asking (.deliver key e) fun a => ExceptT.mk (next' a).run) :=
      ⟨next', fun r => rfl, hparting⟩
    rw [owed_put, owes_of_handing hagain]
    rfl
  | undelivered hnone =>
    have hnone : v.node.engine = none := hnone
    rw [hnone] at hengine
    cases hengine
  | @delivered _ _ _ _ y hy =>
    have hdone : Parting (do let a ← y; ExceptT.mk (next' a).run : Operation Answer) := fun u => by
      rw [run_lift_bind]
      exact (hy u).parting hparting
    rw [View.resume, owed_put, owes_of_parting hdone, zero_add]
    show Multiset.ofList ((key, e) :: v.node.delivered) + v.owed = _
    rw [← Multiset.cons_coe, ← Multiset.singleton_add]
    ac_rfl

/-- Who dispatches an exchange begins a redelivery that owes it. -/
theorem balance_dispatch {key : CorrelationKey} {e : Exchange} {r : Repository}
    {next : Unit → Repository → Run (Except RepositoryError Answer)} (ht : v.Turn t k w j rs)
    (hrun : t.body.run v.node.repository = .asking (.dispatch key e) r next) :
    w.node.delivered = v.node.delivered ∧ w.owed = {(key, e)} + (v.put t).owed := by
  obtain ⟨howes, hnext⟩ := h.owes_turn (fun _ _ _ _ hrun' => nomatch hrun.symm.trans hrun') ht
  have ha := ht.of_asking hrun Request.noConfusion
  cases ha with
  | slow hq => cases hq
  | dispatched =>
    refine ⟨rfl, ?_⟩
    have hgoes := @Task.Goes.answered v.node t (.dispatch key e) _ (fun a => ExceptT.mk (next a)) hrun () .nothing
    have hrest := hnext _ (mem_resume _ t _) hgoes
    rw [View.resume, owed_put, hrest, owed_put, owes_of_handing (handing_redelivery key e), owed_put, howes, zero_add,
      zero_add]
    rfl

/-- In a turn what is dispatched is added to what was given to the engine or is owed to it. -/
theorem balance_turn (ht : v.Turn t k w j rs) : Multiset.ofList w.node.delivered + w.owed =
    t.sends v.node.repository + (Multiset.ofList v.node.delivered + (v.put t).owed) := by
  by_cases hdeliver : ∃ key e r next, t.body.run v.node.repository = .asking (.deliver key e) r next
  · obtain ⟨key, e, r, next, hrun⟩ := hdeliver
    rw [h.balance_deliver ht hrun, Task.sends, hrun, zero_add]
  by_cases hdispatch : ∃ key e r next, t.body.run v.node.repository = .asking (.dispatch key e) r next
  · obtain ⟨key, e, r, next, hrun⟩ := hdispatch
    obtain ⟨hsame, howed⟩ := h.balance_dispatch ht hrun
    rw [hsame, howed, Task.sends, hrun]
    ac_rfl
  · -- Nobody who goes on or begins owes anything.
    simp only [not_exists] at hdeliver hdispatch
    obtain ⟨howes, hnext⟩ := h.owes_turn hdeliver ht
    obtain ⟨new, hw, hnew⟩ := h.trades ht
    have hsends : t.sends v.node.repository = 0 := by
      unfold Task.sends
      split
      · next hrun => exact absurd hrun (hdispatch _ _ _ _)
      · rfl
    have hnone : new.bind Task.owes = 0 := by
      refine (Multiset.bind_congr fun x hx => ?_).trans (Multiset.bind_zero new)
      have hx' : x ∈ w.tasks := hw.tasks ▸ Multiset.mem_add.2 (.inl hx)
      rcases hnew.mem hx with ⟨hgoes, -⟩ | ⟨hbegins, -⟩
      · exact hnext x hx' hgoes
      · cases hbegins with
        | dispatched hrun => exact absurd hrun (hdispatch _ _ _ _)
        | launched => exact ((h.turn ht).ordered.conduct _ hx').owes Role.noConfusion
    rw [ht.delivered hdeliver, hsends, zero_add, owed_put, howes, zero_add, View.owed, hw.tasks, Multiset.add_bind,
      hnone, zero_add]
    rfl

end View.Tended

/-! ## Courses -/

/--
A cluster that comes about in order from one where nothing has begun and no engine was given anything, and what its
nodes have dispatched on the way.
-/
inductive Tracked : Cluster → (Nat → Multiset (CorrelationKey × Exchange)) → Prop where
  | initial {c : Cluster} (h : c.Initial) (hd : ∀ x ∈ c.nodes, x.delivered = []) : Tracked c fun _ => 0
  | proceed {c d : Cluster} {sent : Nat → Multiset (CorrelationKey × Exchange)} (h : Tracked c sent) (hv : c.Veers d) :
      Tracked d.proceed fun n => c.dispatching n + sent n
  | begin {c : Cluster} {sent : Nat → Multiset (CorrelationKey × Exchange)} (h : Tracked c sent) {x : Step}
      (hx : x.Known c.nodes.length) : Tracked (c.begin x).2 sent

theorem Tracked.reached (h : c.Tracked sent) : c.Reached := by
  induction h with
  | initial h => exact .initial h
  | proceed _ hv ih => exact ih.proceed hv
  | begin _ hx ih => exact ih.begin hx

theorem Tracked.tended (h : c.Tracked sent) : c.Tended := h.reached.possible.tended

theorem View.owed_drift (hq : w.queued = v.queued) (hx : v.node.Drifts w.node) : w.owed = v.owed := by
  rw [View.owed, View.tasks_drift hq hx]
  rfl

theorem Node.Drifts.delivered {x y : Node} (h : x.Drifts y) : y.delivered = x.delivered := by rw [h.same]

/-- What is dispatched does not depend on the ways of the store and the collaborators. -/
theorem Veers.dispatching (hv : c.Veers d) (n : Nat) : d.dispatching n = c.dispatching n := by
  rw [Cluster.dispatching, Cluster.dispatching, hv.ready, (hv.drifts.nodes n).repository]

theorem balance_proceed (h : c.Tended) (n : Nat) (hn : n < c.nodes.length) :
    Multiset.ofList (c.proceed.node n).delivered + (c.proceed.view n).owed =
      c.dispatching n + (Multiset.ofList (c.node n).delivered + (c.view n).owed) := by
  cases hr : c.ready with
  | nil =>
    have hd := drifts_wakeNext c
    rw [Cluster.proceed, hr, List.isEmpty_nil, if_pos rfl, dispatching, hr, (hd.nodes n).delivered,
      View.owed_drift (hd.queued_view n) (hd.nodes n), zero_add]
  | cons t tail =>
    rw [Cluster.proceed, hr, List.isEmpty_cons, if_neg Bool.false_ne_true, dispatching, hr]
    dsimp only
    obtain ⟨-, v, w, k, rs, hview, hv, hturn, hb⟩ := h.turn hr
    by_cases hne : t.node = n
    · subst hne
      have hnode : c.node t.node = v.node := congrArg View.node hview
      rw [if_pos rfl, hb.node_eq, hb.here, hview, hnode]
      exact hv.balance_turn hturn
    · have he := hb.elsewhere n (Ne.symm hne)
      rw [if_neg hne, show c.step.node n = c.node n from congrArg View.node he, he, zero_add]

/-- Only tasks that somebody waits for are begun from outside. -/
theorem begun_from_outside (c : Cluster) (x : Step) (n : Nat) :
    ((c.begin x).2.node n).delivered = (c.node n).delivered ∧
      ∃ new, ((c.begin x).2.view n).tasks = new + (c.view n).tasks ∧ ∀ y ∈ new, y.role = .awaited := by
  have hspawn {c' : Cluster} (m : Nat) (body : Operation Answer)
      (hdelivered : (c'.node n).delivered = (c.node n).delivered) (htasks : (c'.view n).tasks = (c.view n).tasks) :
      ((c'.spawn m .awaited body).node n).delivered = (c.node n).delivered ∧
        ∃ new, ((c'.spawn m .awaited body).view n).tasks = new + (c.view n).tasks ∧ ∀ y ∈ new, y.role = .awaited := by
    refine ⟨hdelivered, ?_⟩
    have hb := (Becomes.refl c' m).spawn .awaited body
    by_cases hne : n = m
    · subst hne
      refine ⟨{{ id := c'.next, node := n, role := .awaited, body }}, ?_, fun y hy => ?_⟩
      · rw [hb.here, View.Ordered.tasks_put, htasks]
        rfl
      · rw [Multiset.mem_singleton.1 hy]
    · refine ⟨0, ?_, fun y hy => absurd hy (Multiset.notMem_zero y)⟩
      rw [hb.elsewhere n hne, htasks, zero_add]
  induction x with
  | node m x => exact hspawn m _ rfl rfl
  | store x => exact hspawn 0 _ rfl rfl
  | advance time => exact hspawn 0 _ rfl rfl
  | look l => exact hspawn 0 _ rfl rfl
  | change x =>
    have hd := drifts_change c x
    exact hspawn 0 _ (hd.nodes n).delivered (hd.tasks n)
  | background x ih => exact ih
  | join number => exact ⟨rfl, 0, (zero_add _).symm, fun y hy => absurd hy (Multiset.notMem_zero y)⟩

/-- What was dispatched was given to the engine once, or is owed to it. -/
theorem Tracked.balance (h : c.Tracked sent) (hn : n < c.nodes.length) :
    Multiset.ofList (c.node n).delivered + (c.view n).owed = sent n := by
  induction h with
  | @initial c h hd =>
    have hnone : (c.node n).delivered = [] := by
      rw [Cluster.node]
      cases hx : c.nodes[n]? with
      | none => rfl
      | some x => exact hd x (List.mem_of_getElem? hx)
    rw [hnone, View.owed, h.tasks]
    rfl
  | @proceed c d sent h hv ih =>
    have hd := hv.drifts
    have htended := h.tended.drift hd
    rw [(htended.bounds (happens_proceed d)).1] at hn
    rw [balance_proceed htended n hn, hv.dispatching, (hd.nodes n).delivered,
      View.owed_drift (hd.queued_view n) (hd.nodes n), ih (hd.known ▸ hn)]
  | @begin c sent h x hx ih =>
    have htended := h.tended.begin hx
    have hlength := (h.tended.bounds (.begin x hx)).1
    obtain ⟨hdelivered, new, htasks, hnew⟩ := begun_from_outside c x n
    have hnone : new.bind Task.owes = 0 := by
      refine (Multiset.bind_congr fun y hy => ?_).trans (Multiset.bind_zero new)
      have hy' : y ∈ ((c.begin x).2.view n).tasks := htasks ▸ Multiset.mem_add.2 (.inl hy)
      exact ((htended.views n hn).ordered.conduct y hy').owes (by rw [hnew y hy]; exact Role.noConfusion)
    rw [hdelivered, View.owed, htasks, Multiset.add_bind, hnone, zero_add]
    exact ih (hlength ▸ hn)

/-- On an uninterrupted course what is dispatched adds up. -/
theorem Tracked.uninterrupted (h : (f 0).Tracked sent) (hf : Uninterrupted f) (j : Nat) :
    (f j).Tracked fun n => (∑ k ∈ Finset.range j, (f k).dispatching n) + sent n := by
  induction j with
  | zero => simpa using h
  | succ j ih =>
    obtain ⟨d, hv, hd⟩ := hf j
    have hnext := ih.proceed hv
    rw [← hd] at hnext
    convert hnext using 2 with n
    rw [Finset.sum_range_succ]
    ac_rfl

/-- What is outstanding is counted by the repository. -/
theorem Tended.outstanding_eq (h : c.Tended) (hn : n < c.nodes.length) :
    (c.node n).repository.inFlight = c.outstanding n := (h.views n hn).staged.inFlight

/-- Where no redelivery is outstanding nothing is owed. -/
theorem Tended.owed_eq_zero (h : c.Tended) (hn : n < c.nodes.length) (hnone : c.outstanding n = 0) :
    (c.view n).owed = 0 := by
  refine (Multiset.bind_congr fun x hx => ?_).trans (Multiset.bind_zero _)
  exact ((h.views n hn).ordered.conduct x hx).owes (Multiset.countP_eq_zero.1 hnone x hx)

/-! ## Idle nodes -/

/-- The repository does not run, nobody is in a pass, and no redelivery is outstanding. -/
structure View.Idle (v : View) : Prop where
  active : v.node.repository.active = none
  passes : (v.node.lock .pass).ids = []
  none : ∀ x ∈ v.tasks, x.role ≠ .redelivery

theorem View.Tended.idle_turn (h : (v.put t).Tended s n k) (ht : v.Turn t k w j rs) (hi : (v.put t).Idle)
    (ha : w.node.repository.active = none) : w.Idle ∧ w.node.delivered = v.node.delivered := by
  have hrole : t.role ≠ .redelivery := hi.none t (mem_put v t)
  have hids : (v.node.lock .pass).ids = [] := hi.passes
  have hconducts {q : Request} {r : Repository} {next : q.Answer → Repository → Run (Except RepositoryError Answer)}
      (hrun : t.body.run v.node.repository = .asking q r next) (hq : q ≠ .halt) :
      t.Conducts s (v.within .lifecycle t) (v.within .pass t) := h.ordered.self.2.2.of_not_halting (not_halting hrun hq)
  refine ⟨⟨ha, ?_, fun x hx hx' => ?_⟩, ht.delivered fun key e r next hrun => ?_⟩
  · exact List.subset_nil.1 (hids ▸ h.passes_turn ht ha)
  · rcases h.mem_tasks ht hx with hx | ⟨hgoes, -⟩ | ⟨hbegins, -⟩
    · exact hi.none x (mem_put_of_mem hx) hx'
    · exact hrole (hgoes.same.2.2.symm.trans hx')
    · cases hbegins with
      | dispatched hrun =>
        have hin := ((hconducts hrun Request.noConfusion).dispatches hrun).1
        rw [View.within, hids] at hin
        cases hin
      | launched => cases hx'
  · exact hrole ((hconducts hrun Request.noConfusion).delivers hrun).1

theorem View.Idle.unstarted {a : List (CorrelationKey × Exchange)} (h : c.Tended) (hn : n < c.nodes.length)
    (hd : Unstarted n c d) (hi : (c.view n).Idle ∧ (c.node n).delivered = a) :
    (d.view n).Idle ∧ (d.node n).delivered = a := by
  refine h.happens_view hn hd.happens (I := fun v => v.Idle ∧ v.node.delivered = a) hi (fun v w hq hx hv => ?_)
    (fun v y _ hrole hv => ?_) fun v t rs hview hv ht => ?_
  · refine ⟨⟨hx.repository ▸ hv.1.active, hx.lock .pass ▸ hv.1.passes, ?_⟩, hx.delivered.trans hv.2⟩
    exact View.tasks_drift hq hx ▸ hv.1.none
  · refine ⟨⟨hv.1.active, hv.1.passes, fun x hx => ?_⟩, hv.2⟩
    rcases View.mem_tasks_put hx with rfl | hx
    · rw [hrole]
      exact Role.noConfusion
    · exact hv.1.none x hx
  · have hnode : c.node n = v.node := congrArg View.node hview
    obtain ⟨hidle, hsame⟩ := hv.idle_turn ht (hview ▸ hi.1) (hd.still hi.1.active)
    exact ⟨hidle, hsame.trans (hnode ▸ hi.2)⟩

/-- An idle node hands nothing over as long as its repository is not started, whatever is called. -/
theorem delivered_of_idle (h : c.Tended) (hn : n < c.nodes.length) (hi : (c.view n).Idle)
    (hd : ReflTransGen (Unstarted n) c d) : (d.node n).delivered = (c.node n).delivered :=
  (h.course (fun _ _ h => Unstarted.happens h) (fun _ _ ht hlength _ hde => View.Idle.unstarted ht (hlength ▸ hn) hde)
    ⟨hi, rfl⟩ hd).2.2.2.2

end DurableAggregates.Cluster
