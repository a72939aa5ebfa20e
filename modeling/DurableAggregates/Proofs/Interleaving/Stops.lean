import DurableAggregates.Proofs.Interleaving.Effects

/-!
# Stops

A stop takes the lifecycle lock, ends the scheduler of a running repository while it holds the lock, and gives it back
(`Run.Ceasing`). Whatever else happens at the node, the stop is `Stopping` until it has given back the lock, and at that
moment the repository does not run and there is no scheduler (`Node.Quiet`). A node stays quiet until its repository is
started again, so a stop that has returned has left it quiet (`quiet_of_stop`).
-/

namespace DurableAggregates

open Cluster (Answer NodeStep)
open Relation (ReflTransGen)

variable {α β : Type}

/-! ## What a stop does -/

/--
A run that takes the lifecycle lock, unless it is `inside`, and ends the scheduler of a running repository before it
gives the lock back; perhaps it has `halted` it. Afterwards it concerns neither the lock nor a scheduler.
-/
inductive Run.Ceasing : Bool → Bool → Run α → Prop where
  | acquire {r : Repository} {next : Unit → Repository → Run α} (h : ∀ t, Ceasing true false (next () t)) :
      Ceasing false false (.asking (.acquire .lifecycle) r next)
  | halt {r : Repository} (hr : r.active = none) {next : Except String Unit → Repository → Run α}
      (h : ∀ a t, t.active = none → Ceasing true true (next a t)) : Ceasing true false (.asking .halt r next)
  | report {e : RouteError} {r : Repository} (hr : r.active = none) {next : Unit → Repository → Run α}
      (h : ∀ t, t.active = none → Ceasing true true (next () t)) : Ceasing true true (.asking (.report e) r next)
  | release {halted : Bool} {r : Repository} (hr : r.active = none) {next : Unit → Repository → Run α}
      (h : ∀ t, (next () t).Confined Request.isFree (fun _ => True) t.active) :
      Ceasing true halted (.asking (.release .lifecycle) r next)

theorem Run.Ceasing.bind {inside halted : Bool} {x : Run α} {f : α → Repository → Run β} (hx : x.Ceasing inside halted)
    (hf : ∀ a t, (f a t).Confined Request.isFree (fun _ => True) t.active) : (x.bind f).Ceasing inside halted := by
  induction hx with
  | acquire _ ih => exact .acquire ih
  | halt hr _ ih => exact .halt hr ih
  | report hr _ ih => exact .report hr ih
  | release hr h => exact .release hr fun t => (h t).bind fun a u _ => hf a u

theorem Repository.ceasing_halt (r : Repository) :
    ((Operation.holding .lifecycle Repository.halt).run r).Ceasing false false := by
  refine .acquire fun t => ?_
  -- The result is returned after the lock was given back.
  have hlast (result : Except RepositoryError (Option Halted)) (u : Repository) :
      Run.Confined Request.isFree (fun _ => True) u.active (Run.finished result u) := .finished trivial rfl
  obtain ⟨active⟩ := t
  cases active with
  | none => exact .release rfl fun u => hlast _ u
  | some policy =>
    refine .halt rfl fun joined u hu => ?_
    cases joined with
    | ok a => exact .release hu fun u => hlast _ u
    | error detail =>
      refine .report (r := { u with lastError := some (Repository.stopFailure (.schedulerJoin detail)) }) hu fun u hu => ?_
      exact .release hu fun u => hlast _ u

theorem Cluster.ceasing_stop (s : Setup) (r : Repository) : ((NodeStep.stop.task s).run r).Ceasing false false := by
  have hstop : (Repository.stop.run r).Ceasing false false := by
    refine (Repository.ceasing_halt r).bind fun halted t => ?_
    cases halted with
    | error e => exact .finished trivial rfl
    | ok halted =>
      cases halted with
      | none => exact .finished trivial rfl
      | some h =>
        refine (Repository.free_drain _ t).bind fun a u _ => ?_
        cases a with
        | error e => exact .finished trivial rfl
        | ok a =>
          cases h.crash with
          | none => exact .finished trivial rfl
          | some detail => exact .finished trivial rfl
  refine hstop.bind fun a t => ?_
  cases a with
  | ok a => exact .finished trivial rfl
  | error e => exact .finished trivial rfl

namespace Cluster

variable {s : Setup} {n i k j : Nat} {c d e : Cluster} {t x : Task} {v w : View} {rs : List Result}

/-- A node whose repository does not run and that has no scheduler. -/
structure Node.Quiet (z : Node) : Prop where
  active : z.repository.active = none
  scheduler : z.scheduler = none

/-- How far a stop with a number has come that has not given back the lifecycle lock. -/
inductive View.Stopping (i : Nat) (v : View) : Prop where
  | calling {x : Task} (hx : x ∈ v.tasks) (hid : x.id = i) (hrole : x.role = .awaited)
      (hout : i ∉ (v.node.lock .lifecycle).ids) (h : ∀ r, (x.body.run r).Ceasing false false)
  /-- It holds the lock, or waits for it. -/
  | locking {x : Task} (hx : x ∈ v.tasks) (hid : x.id = i) (hrole : x.role = .awaited)
      (hin : i ∈ (v.node.lock .lifecycle).ids) (h : ∀ r, (x.body.run r).Ceasing true false)
  /-- It waits for the scheduler to end. -/
  | closing {x : Task} (hx : x ∈ v.tasks) (hid : x.id = i) (hrole : x.role = .awaited)
      (hheld : v.node.lifecycle.holder = some i) (hactive : v.node.repository.active = none)
      (h : ∀ r : Repository, r.active = none → (x.body.run r).Ceasing true false)
  | halted {x : Task} (hx : x ∈ v.tasks) (hid : x.id = i) (hrole : x.role = .awaited)
      (hheld : v.node.lifecycle.holder = some i) (hquiet : v.node.Quiet)
      (h : ∀ r : Repository, r.active = none → (x.body.run r).Ceasing true true)

/-- A stop with a number that has given back the lifecycle lock, or has ended. -/
structure View.Stopped (i : Nat) (v : View) : Prop where
  out : i ∉ (v.node.lock .lifecycle).ids
  free : ∀ x ∈ v.tasks, x.id = i → x.role = .awaited ∧ x.body.Within Request.isFree

namespace View.Tended

variable (h : (v.put t).Tended s n k)
include h

/-- Who gives back the lifecycle lock is outside of it afterwards. -/
theorem stopped_of_release {r : Repository} {next : Unit → Operation Answer} (hrole : t.role = .awaited)
    (hin : v.within .lifecycle t = true)
    (hc : ∀ u, ((next ()).run u).Confined Request.isFree (fun _ => True) u.active) :
    (((v.leave r).release .lifecycle).resume t (next ())).Stopped t.id := by
  have hf : ((v.leave r).node.lock .lifecycle).Fair := h.ordered.fair .lifecycle
  have hheld : ((v.leave r).node.lock .lifecycle).holder = some t.id := h.ordered.holder hin
  refine ⟨notMem_ids_release hf hheld, fun x hx hid => ?_⟩
  rcases mem_tasks_put hx with rfl | hx
  · exact ⟨hrole, hc⟩
  · rw [tasks_release] at hx
    exact absurd hid (h.ordered.id_ne hx)

/-- A stop that holds the lock ends the scheduler, or finds that the repository does not run. -/
theorem stopping_inside (ht : v.Turn t k w j rs) (hrole : t.role = .awaited) (hin : v.within .lifecycle t = true)
    (hc : (t.body.run v.node.repository).Ceasing true false) :
    w.Stopping t.id ∨ w.Stopped t.id ∧ w.node.Quiet := by
  have hheld := h.ordered.holder hin
  generalize hrun : t.body.run v.node.repository = run at hc
  cases hc with
  | @halt r hr next hnext =>
    have ha := ht.of_asking hrun Request.noConfusion
    cases ha with
    | slow hq => cases hq
    | joined => exact .inl (.halted (mem_resume _ t _) rfl hrole hheld ⟨hr, rfl⟩ (hnext _))
    | closing hs hphase =>
      refine .inl (.closing (View.mem_tasks.2 (.inr (mem_waiters.2 (.inr (.inr ⟨_, rfl, rfl⟩))))) rfl hrole hheld hr ?_)
      exact fun u hu => .halt hu hnext
  | @release _ r hr next hnext =>
    have ha := ht.of_asking hrun Request.noConfusion
    cases ha with
    | slow hq => cases hq
    | released =>
      have hhalt : ¬Halting s t.body := not_halting hrun Request.noConfusion
      obtain ⟨-, ⟨hkeeps, -⟩, -⟩ := (h.ordered.self.2.2.of_not_halting hhalt).releases
        (f := fun a => ExceptT.mk (next a)) hrun
      have hactive : v.node.repository.active = none := by
        rcases hkeeps with hkeeps | ⟨-, hnone, -⟩
        · rw [← hkeeps, hr]
        · exact hnone
      refine .inr ⟨h.stopped_of_release hrole hin hnext, ?_, ?_⟩
      · rw [node_resume, repository_release]
        exact hr
      · rw [node_resume, scheduler_release]
        exact h.none_of_inside hin hhalt hactive

theorem stopping_turn (ht : v.Turn t k w j rs) (hi : (v.put t).Stopping i) :
    w.Stopping i ∨ w.Stopped i ∧ w.node.Quiet := by
  -- Another task than the stop has its turn.
  have hother {x : Task} (hx : x ∈ (v.put t).tasks) (hid : x.id = i) (hne : i ≠ t.id) : x ∈ w.tasks := by
    refine h.mem_turn ht ((mem_tasks_put hx).resolve_left fun he => hne ?_)
    rw [← hid, he]
  have houtside (hheld : v.node.lifecycle.holder = some i) (hne : i ≠ t.id) : v.within .lifecycle t = false :=
    Bool.eq_false_iff.2 fun hin => hne (Option.some.inj (hheld.symm.trans (h.ordered.holder hin)))
  have hself {x : Task} (hx : x ∈ (v.put t).tasks) (hid : x.id = i) (he : i = t.id) : x = t :=
    h.eq_of_id hx (hid.trans he)
  cases hi with
  | @calling x hx hid hrole hout hc =>
    by_cases he : i = t.id
    · obtain rfl := hself hx hid he
      subst hid
      generalize hrun : x.body.run v.node.repository = run
      have hc' := hc v.node.repository
      rw [hrun] at hc'
      cases hc' with
      | @acquire r next hnext =>
        have ha := ht.of_asking hrun Request.noConfusion
        cases ha with
        | slow hq => cases hq
        | acquired =>
          obtain ⟨p, htasks⟩ := tasks_acquire (v.leave r) x .lifecycle (ExceptT.mk (next ()))
          have hf : ((v.leave r).node.lock .lifecycle).Fair := h.ordered.fair .lifecycle
          refine .inl (.locking (x := { x with body := ExceptT.mk (next ()), pause := p }) ?_ rfl hrole
            (mem_ids_acquire hf _) hnext)
          rw [htasks]
          exact Multiset.mem_add.2 (.inl (Multiset.mem_singleton_self _))
    · exact .inl (.calling (hother hx hid he) hid hrole (fun hin => hout ((h.ids_turn ht .lifecycle he).1 hin)) hc)
  | @locking x hx hid hrole hin hc =>
    by_cases he : i = t.id
    · obtain rfl := hself hx hid he
      subst hid
      exact h.stopping_inside ht hrole (decide_eq_true hin) (hc _)
    · exact .inl (.locking (hother hx hid he) hid hrole ((h.ids_turn ht .lifecycle he).2 hin) hc)
  | @closing x hx hid hrole hheld hactive hc =>
    by_cases he : i = t.id
    · obtain rfl := hself hx hid he
      subst hid
      exact h.stopping_inside ht hrole (decide_eq_true (mem_ids_of_holder (l := .lifecycle) hheld)) (hc _ hactive)
    · have hout := houtside hheld he
      exact .inl (.closing (hother hx hid he) hid hrole (h.holder_turn ht hout hheld)
        ((h.active_turn ht hout).trans hactive) hc)
  | @halted x hx hid hrole hheld hquiet hc =>
    by_cases he : i = t.id
    · obtain rfl := hself hx hid he
      subst hid
      have hin : v.within .lifecycle x = true := decide_eq_true (mem_ids_of_holder (l := .lifecycle) hheld)
      have hc' := hc _ hquiet.active
      generalize hrun : x.body.run v.node.repository = run
      rw [show (v.put x).node = v.node from rfl, hrun] at hc'
      cases hc' with
      | @report e r hr next hnext =>
        have ha := ht.of_asking hrun Request.noConfusion
        cases ha with
        | slow hq => cases hq
        | reported =>
          obtain ⟨-, hlock, hscheduler, hrepository⟩ := noting_node (v.leave r).node e
          refine .inl (.halted (mem_resume _ x _) rfl hrole ?_ ⟨?_, ?_⟩ hnext)
          · exact (congrArg LockState.holder (hlock .lifecycle)).trans hheld
          · exact (congrArg Repository.active hrepository).trans hr
          · exact hscheduler.trans hquiet.scheduler
      | @release _ r hr next hnext =>
        have ha := ht.of_asking hrun Request.noConfusion
        cases ha with
        | slow hq => cases hq
        | released =>
          refine .inr ⟨h.stopped_of_release hrole hin hnext, ?_, ?_⟩
          · rw [node_resume, repository_release]
            exact hr
          · rw [node_resume, scheduler_release]
            exact hquiet.scheduler
    · have hout := houtside hheld he
      have hactive := (h.active_turn ht hout).trans hquiet.active
      exact .inl (.halted (hother hx hid he) hid hrole (h.holder_turn ht hout hheld)
        ⟨hactive, h.scheduler_turn ht hquiet.scheduler hactive⟩ hc)

/-- A task that has given back the lifecycle lock and concerns it no longer stays outside. -/
theorem stopped_turn (ht : v.Turn t k w j rs) (hi : (v.put t).Stopped i) (hlt : i < k) : w.Stopped i := by
  by_cases he : i = t.id
  · subst he
    obtain ⟨hrole, hfree⟩ := hi.free t (mem_put v t) rfl
    have hconfined := hfree v.node.repository
    refine ⟨?_, fun x hx hid => ?_⟩
    · rcases h.lock_turn ht .lifecycle with hl | ⟨_, _, -, hrun, -⟩ | ⟨hheld, -⟩
      · rw [hl]
        exact hi.out
      · rw [hrun] at hconfined
        cases hconfined with
        | asking hq => cases hq
      · exact absurd (mem_ids_of_holder hheld) hi.out
    · have hgoes := h.goes_of_mem ht hx hid
      refine ⟨hgoes.same.2.2.trans hrole, ?_⟩
      cases hgoes with
      | answered hrun a p =>
        rw [hrun] at hconfined
        cases hconfined with
        | asking _ _ hnext => exact hnext a
      | reacted _ hrun hy =>
        rw [hrun] at hconfined
        cases hconfined with
        | asking _ _ hnext =>
          intro r
          rw [run_lift_bind]
          exact ((hy r).confined fun _ => rfl).bind fun a u _ => hnext a u
      | delayed _ _ hrun =>
        rw [hrun] at hconfined
        cases hconfined with
        | asking hq _ hnext => exact fun r => .asking hq rfl hnext
      | halting hrun =>
        rw [hrun] at hconfined
        cases hconfined with
        | asking hq => cases hq
      | dozing hrun =>
        rw [hrun] at hconfined
        cases hconfined with
        | asking hq => cases hq
      | again hscheduler => exact absurd (hrole.symm.trans hscheduler) Role.noConfusion
  · refine ⟨fun hin => hi.out ((h.ids_turn ht .lifecycle he).1 hin), fun x hx hid => ?_⟩
    rcases h.mem_tasks ht hx with hx | ⟨hgoes, -⟩ | ⟨hbegins, -⟩
    · exact hi.free x (mem_put_of_mem hx) hid
    · exact absurd (hid.symm.trans hgoes.same.1) he
    · exact absurd (hid.symm.trans hbegins.fresh.1) hlt.ne

end View.Tended

/-! ## Courses -/

/-- Something happens, and a repository that does not run is not started by it. -/
structure Unstarted (n : Nat) (c d : Cluster) : Prop where
  happens : c.Happens d
  still : (c.node n).repository.active = none → (d.node n).repository.active = none

theorem Node.Quiet.drift {y z : Node} (h : y.Quiet) (hd : y.Drifts z) : z.Quiet :=
  ⟨hd.repository ▸ h.active, hd.scheduler ▸ h.scheduler⟩

/-- A quiet node has no task that is a scheduler. -/
theorem Tended.unscheduled_of_quiet (h : c.Tended) (hn : n < c.nodes.length) (hq : (c.node n).Quiet)
    (hx : x ∈ (c.view n).tasks) : x.role ≠ .scheduler := by
  have hcount := (h.views n hn).staged.schedulers
  have hjoin : (c.view n).node.join? = some (.ok ()) := by
    show (c.node n).join? = _
    rw [Node.join?, hq.scheduler]
  rw [hjoin, if_neg (Option.some_ne_none _)] at hcount
  exact Multiset.countP_eq_zero.1 hcount x hx

theorem View.Stopping.drift (h : v.Stopping i) (hq : w.queued = v.queued) (hd : v.node.Drifts w.node) :
    w.Stopping i := by
  have htasks := View.tasks_drift hq hd
  have hl := hd.lock .lifecycle
  cases h with
  | calling hx hid hrole hout hc => exact .calling (htasks ▸ hx) hid hrole (hl ▸ hout) hc
  | locking hx hid hrole hin hc => exact .locking (htasks ▸ hx) hid hrole (hl ▸ hin) hc
  | closing hx hid hrole hheld hactive hc =>
    exact .closing (htasks ▸ hx) hid hrole (hl.symm ▸ hheld : (w.node.lock .lifecycle).holder = _)
      (hd.repository ▸ hactive) hc
  | halted hx hid hrole hheld hquiet hc =>
    exact .halted (htasks ▸ hx) hid hrole (hl.symm ▸ hheld : (w.node.lock .lifecycle).holder = _) (hquiet.drift hd) hc

theorem View.Stopping.put (h : v.Stopping i) (y : Task) : (v.put y).Stopping i := by
  cases h with
  | calling hx hid hrole hout hc => exact .calling (mem_put_of_mem hx) hid hrole hout hc
  | locking hx hid hrole hin hc => exact .locking (mem_put_of_mem hx) hid hrole hin hc
  | closing hx hid hrole hheld hactive hc => exact .closing (mem_put_of_mem hx) hid hrole hheld hactive hc
  | halted hx hid hrole hheld hquiet hc => exact .halted (mem_put_of_mem hx) hid hrole hheld hquiet hc

/-- A stop goes on until it has given back the lock, whatever happens. -/
theorem stopping_happens (h : c.Tended) (hn : n < c.nodes.length) (hd : c.Happens d) (hi : i < c.next)
    (hs : (c.view n).Stopping i ∨ (c.view n).Stopped i) : (d.view n).Stopping i ∨ (d.view n).Stopped i := by
  refine h.happens_view hn hd (I := fun v => v.Stopping i ∨ v.Stopped i) hs (fun v w hq hx hs => ?_)
    (fun v y hid _ hs => ?_) fun v t rs hview hv ht => ?_
  · refine hs.imp (·.drift hq hx) fun hs => ⟨hx.lock .lifecycle ▸ hs.out, fun x hmem => hs.free x ?_⟩
    exact View.tasks_drift hq hx ▸ hmem
  · refine hs.imp (·.put y) fun hs => ⟨hs.out, fun x hmem hid' => ?_⟩
    rcases View.mem_tasks_put hmem with rfl | hmem
    · exact absurd (hid'.symm.trans hid) hi.ne
    · exact hs.free x hmem hid'
  · rw [hview] at hs
    rcases hs with hs | hs
    · exact (hv.stopping_turn ht hs).imp_right And.left
    · exact .inr (hv.stopped_turn ht hs hi)

/-- A quiet node stays quiet as long as its repository is not started. -/
theorem Node.Quiet.unstarted (hs : (c.node n).Quiet) (h : c.Tended) (hn : n < c.nodes.length)
    (hd : Unstarted n c d) : (d.node n).Quiet := by
  refine h.happens_view hn hd.happens (I := fun v => v.node.Quiet) hs (fun v w _ hx hs => hs.drift hx)
    (fun _ _ _ _ hs => hs) fun v t rs hview hv ht => ?_
  have hnode : c.node n = v.node := congrArg View.node hview
  have hactive := hd.still hs.active
  exact ⟨hactive, hv.scheduler_turn ht (hnode ▸ hs.scheduler) hactive⟩

/-- As long as a repository is not started, a stop that has given back the lock has left the node quiet. -/
theorem View.Stopping.unstarted (hs : (c.view n).Stopping i) (h : c.Tended) (hn : n < c.nodes.length)
    (hd : c.Happens d) : (d.view n).Stopping i ∨ (d.node n).Quiet := by
  refine h.happens_view hn hd (I := fun v => v.Stopping i ∨ v.node.Quiet) (.inl hs)
    (fun v w hq hx hs => hs.imp (·.drift hq hx) (·.drift hx)) (fun v y _ _ hs => hs.imp_left (·.put y))
    fun v t rs hview hv ht => ?_
  exact (hv.stopping_turn ht (hview ▸ hs)).imp_right And.right

/-- A stop waits for the lifecycle lock at its begin. -/
theorem Possible.stopping_begin (h : c.Possible) (hn : n < c.nodes.length) :
    ((c.begin (.node n .stop)).2.view n).Stopping c.next := by
  have hv := (h.tended.views n hn).ordered
  have hb : (c.begin (.node n .stop)).2.view n =
      (c.view n).put { id := c.next, node := n, role := .awaited, body := NodeStep.stop.task (c.node n).setup } :=
    ((Becomes.refl c n).spawn .awaited _).here
  rw [hb]
  refine .calling (View.mem_put _ _) rfl rfl (fun hin => ?_) (ceasing_stop (c.node n).setup)
  obtain ⟨y, hy, hid⟩ := hv.known .lifecycle _ hin
  exact absurd (hv.numbered y hy) (Nat.not_lt_of_le (by rw [hid]))

/-- A stop that has got the lock and has a result has left the node quiet, if it was not started since. -/
theorem quiet_of_stop {m : Cluster} (hc : c.Possible) (hn : n < c.nodes.length)
    (hm : ReflTransGen Happens (c.begin (.node n .stop)).2 m) (hheld : (m.node n).lifecycle.holder = some c.next)
    (hd : ReflTransGen (Unstarted n) m d) (hresult : d.result? c.next ≠ none) :
    d.Tended ∧ n < d.nodes.length ∧ (d.node n).Quiet := by
  have hb := hc.tended.begin (x := .node n .stop) hn
  obtain ⟨htended, hlength, hnext, hstop⟩ := hb.course (fun _ _ => id)
    (P := fun e => (e.view n).Stopping c.next ∨ (e.view n).Stopped c.next)
    (fun d e hd hlength hnext hde => stopping_happens hd (hlength ▸ hn) hde hnext) (.inl (hc.stopping_begin hn)) hm
  have hstopping := hstop.resolve_right fun hs => hs.out (View.mem_ids_of_holder (l := .lifecycle) hheld)
  have hm : n < m.nodes.length := hlength ▸ hn
  obtain ⟨htended, hlength, -, hquiet⟩ := htended.course (fun _ _ h => Unstarted.happens h)
    (P := fun e => (e.view n).Stopping c.next ∨ (e.node n).Quiet)
    (fun d e hd hlength _ hde hs => hs.elim (·.unstarted hd (hlength ▸ hm) hde.happens)
      fun hs => .inr (hs.unstarted hd (hlength ▸ hm) hde)) (.inl hstopping) hd
  have hd : n < d.nodes.length := hlength ▸ hm
  refine ⟨htended, hd, hquiet.resolve_left fun hs => hresult ?_⟩
  -- As long as the stop is under way it has no result.
  cases hs with
  | calling hx hid => exact hid ▸ htended.pending n hd _ hx
  | locking hx hid => exact hid ▸ htended.pending n hd _ hx
  | closing hx hid => exact hid ▸ htended.pending n hd _ hx
  | halted hx hid => exact hid ▸ htended.pending n hd _ hx

/-- A course on which nothing comes from outside. -/
theorem unstarted_proceed {k : Nat} (h : ∀ j < k, ((proceed^[j] c).node n).repository.isRunning = false →
    ((proceed^[j + 1] c).node n).repository.isRunning = false) : ReflTransGen (Unstarted n) c (proceed^[k] c) := by
  induction k with
  | zero => exact .refl
  | succ k ih =>
    have hlast := h k (Nat.lt_succ_self k)
    rw [Function.iterate_succ_apply'] at hlast ⊢
    refine (ih fun j hj => h j (Nat.lt_succ_of_lt hj)).tail ⟨happens_proceed _, fun hnone => ?_⟩
    refine Repository.active_eq_none (Bool.eq_false_iff.1 (hlast ?_))
    rw [Repository.isRunning, hnone]
    rfl

end Cluster

end DurableAggregates
