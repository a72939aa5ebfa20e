import DurableAggregates.Proofs.Interleaving.Courses

/-!
# Effects of turns

What a turn can do to the policy, the scheduler and the locks of its node. Only a task inside the lifecycle lock makes
the repository run or launches a scheduler, and only a task of a running repository asks for the lock of passes.
-/

namespace DurableAggregates.Cluster

variable {s : Setup} {n k j : Nat} {t x y : Task} {v w u : View} {l : Lock} {rs : List Result} {r : Repository}
  {inside passing : Bool}

/-! ## Nodes of views -/

namespace View

@[simp] theorem node_put (v : View) (t : Task) : (v.put t).node = v.node := rfl

@[simp] theorem node_resume (v : View) (t : Task) (b : Operation Answer) : (v.resume t b).node = v.node := rfl

@[simp] theorem repository_release (v : View) (l : Lock) : (v.release l).node.repository = v.node.repository := by
  rw [node_release, Node.repository_setLock]

@[simp] theorem scheduler_release (v : View) (l : Lock) : (v.release l).node.scheduler = v.node.scheduler := by
  rw [node_release, Node.scheduler_setLock]

@[simp] theorem repository_acquire (v : View) (t : Task) (l : Lock) (b : Operation Answer) :
    (v.acquire t l b).node.repository = v.node.repository := by
  rw [node_acquire, Node.repository_setLock]

@[simp] theorem scheduler_acquire (v : View) (t : Task) (l : Lock) (b : Operation Answer) :
    (v.acquire t l b).node.scheduler = v.node.scheduler := by
  rw [node_acquire, Node.scheduler_setLock]

@[simp] theorem repository_surrender (v : View) (t : Task) (l : Lock) :
    (v.surrender t l).node.repository = v.node.repository := (Tended.node_surrender v t l).1

@[simp] theorem scheduler_surrender (v : View) (t : Task) (l : Lock) :
    (v.surrender t l).node.scheduler = v.node.scheduler := (Tended.node_surrender v t l).2.1

@[simp] theorem repository_endScheduler (v : View) (p : SchedulerPhase) :
    (v.endScheduler p).node.repository = v.node.repository := by
  unfold View.endScheduler
  split
  · rfl
  · dsimp only
    split <;> rfl

@[simp] theorem lock_endScheduler (v : View) (p : SchedulerPhase) (l : Lock) :
    (v.endScheduler p).node.lock l = v.node.lock l := by
  unfold View.endScheduler
  split
  · rfl
  · dsimp only
    split <;> cases l <;> rfl

theorem scheduler_endScheduler (h : v.node.scheduler = none) (p : SchedulerPhase) :
    (v.endScheduler p).node.scheduler = none := by
  unfold View.endScheduler
  rw [h]
  exact h

@[simp] theorem lock_setScheduler (v : View) (st : Option SchedulerState) (l : Lock) :
    (v.setScheduler st).node.lock l = v.node.lock l := by
  cases l <;> rfl

theorem mem_ids_acquire {l : Lock} (hf : (v.node.lock l).Fair) (b : Operation Answer) :
    t.id ∈ ((v.acquire t l b).node.lock l).ids := by
  rw [node_acquire, Node.lock_setLock, if_pos rfl, hf.ids_join]
  exact List.mem_append_right _ (List.mem_singleton_self _)

theorem notMem_ids_release {l : Lock} {i : Nat} (hf : (v.node.lock l).Fair) (hheld : (v.node.lock l).holder = some i) :
    i ∉ ((v.release l).node.lock l).ids := by
  rw [node_release, Node.lock_setLock, if_pos rfl, hf.ids_pass]
  have hnodup := hf.nodup
  rw [LockState.ids, hheld] at hnodup ⊢
  exact (List.nodup_cons.1 hnodup).1

theorem mem_ids_of_holder {l : Lock} {i : Nat} (h : (v.node.lock l).holder = some i) : i ∈ (v.node.lock l).ids :=
  List.mem_append_left _ (Option.mem_toList.2 h)

theorem mem_resume (v : View) (t : Task) (b : Operation Answer) :
    { t with body := b, pause := .nothing } ∈ (v.resume t b).tasks :=
  Ordered.tasks_put v _ ▸ Multiset.mem_cons_self ..

theorem mem_put (v : View) (t : Task) : t ∈ (v.put t).tasks := Ordered.tasks_put v t ▸ Multiset.mem_cons_self ..

theorem mem_put_of_mem (hx : x ∈ v.tasks) : x ∈ (v.put t).tasks :=
  Ordered.tasks_put v t ▸ Multiset.mem_cons_of_mem hx

end View

/-! ## Policies -/

/-- Who is outside the lifecycle lock leaves the policy of the repository as it is. -/
theorem Task.Stands.keeps_asking (h : t.Stands s false passing) {r₀ : Repository} {q : Request}
    {next : q.Answer → Repository → Run (Except RepositoryError Answer)}
    (hrun : t.body.run r₀ = .asking q r next) : r.active = r₀.active := by
  cases h with
  | halts hin => cases hin
  | conducts hc =>
    cases hc with
    | awaited _ hlawful _ =>
      have hl := hlawful r₀
      rw [hrun] at hl
      generalize r₀.active = p at hl
      generalize hin : false = inside at hl
      cases hl with
      | free _ hk _ => exact hk.resolve_right fun hk => absurd (hin.trans hk.1) Bool.false_ne_true
      | acquire ha _ => exact ha
      | release => cases hin
      | launch => cases hin
      | halt => cases hin
    | scheduler _ hround _ =>
      have hl := hround r₀
      rw [hrun] at hl
      cases hl with
      | asking _ hk _ => exact hk
    | redelivery _ hbody =>
      rcases hbody with hbody | ⟨-, key, e, next', hrun', -⟩
      · have hp := hbody r₀
        rw [hrun] at hp
        cases hp with
        | asking hr _ => exact congrArg Prod.fst hr
      · rw [hrun'] at hrun
        cases hrun
        rfl

theorem Task.Stands.keeps_finished (h : t.Stands s inside passing) {r₀ : Repository}
    {result : Except RepositoryError Answer} (hrun : t.body.run r₀ = .finished result r) : r.active = r₀.active := by
  have hhalt : ¬Halting s t.body := by
    rintro ⟨next, hrun', -⟩
    rw [hrun'] at hrun
    cases hrun
  exact ((h.of_not_halting hhalt).finishes hrun).2.2.1

namespace View

/-- After a turn the repository has the policy with which the task has left it. -/
theorem Turn.left (h : v.Turn t k w j rs) :
    ∃ r, w.node.repository.active = r.active ∧
      ((∃ result, t.body.run v.node.repository = .finished result r) ∨
        ∃ q next, t.body.run v.node.repository = .asking q r next) := by
  cases h with
  | @finished result r hrun =>
    refine ⟨r, ?_, .inl ⟨result, hrun⟩⟩
    unfold View.finish
    split <;> simp
  | @answered q r next _ _ hrun ha =>
    refine ⟨r, ?_, .inr ⟨q, _, hrun⟩⟩
    cases ha with
    | reported =>
      show ((v.leave r).node.noting _).repository.active = _
      rw [(Tended.noting_node _ _).2.2.2]
      rfl
    | _ => simp [View.setScheduler, View.set]
  | @crashed r next hrun =>
    refine ⟨r, ?_, .inr ⟨_, _, hrun⟩⟩
    unfold View.crash
    dsimp only
    split <;> simp [Repository.endRedelivery]

/-- A task that asks for anything but the keys is answered, or waits. -/
theorem Turn.of_asking {q : Request} {next : q.Answer → Repository → Run (Except RepositoryError Answer)}
    (ht : v.Turn t k w j rs) (hrun : t.body.run v.node.repository = .asking q r next) (hq : q ≠ .store .keys) :
    (v.leave r).Answered t k q (fun a => ExceptT.mk (next a)) w j := by
  cases ht with
  | finished hrun' => exact nomatch hrun.symm.trans hrun'
  | crashed hrun' =>
    have hsame := hrun.symm.trans hrun'
    injection hsame with hq'
    exact absurd hq' hq
  | @answered q' r' next' _ _ hrun' ha =>
    have hsame := hrun'.symm.trans hrun
    injection hsame with hq' hr hnext
    subst hq' hr
    obtain rfl : (fun a => (next' a).run) = next := funext fun a => congrFun (eq_of_heq hnext) a
    exact ha

namespace Tended

variable (h : (v.put t).Tended s n k)
include h

/-- Only a task inside the lifecycle lock changes the policy. -/
theorem active_turn (ht : v.Turn t k w j rs) (hout : v.within .lifecycle t = false) :
    w.node.repository.active = v.node.repository.active := by
  have hstands := h.ordered.self.2.2
  rw [hout] at hstands
  obtain ⟨r, hr, ⟨result, hrun⟩ | ⟨q, next, hrun⟩⟩ := ht.left
  · exact hr.trans (hstands.keeps_finished hrun)
  · exact hr.trans (hstands.keeps_asking hrun)

/-! ## Locks -/

omit h in
theorem lock_surrender (v : View) (t : Task) (m l : Lock) : (v.surrender t m).node.lock l = v.node.lock l ∨
    (v.node.lock l).holder = some t.id ∧ (v.surrender t m).node.lock l = (v.node.lock l).pass := by
  unfold View.surrender
  split
  · rename_i hheld
    rw [node_release, Node.lock_setLock]
    split
    · rename_i hl
      subst hl
      exact .inr ⟨hheld, rfl⟩
    · exact .inl rfl
  · exact .inl rfl

theorem tasks_crash (r : Repository) : ((v.leave r).crash t).tasks = v.tasks := by
  have hu := (h.surrenders r).tasks
  rw [zero_add] at hu
  unfold View.crash
  dsimp only
  split
  · exact hu
  · exact hu
  · exact ((trades_endScheduler t _ _).tasks.trans (zero_add _)).trans hu

/-- What a turn does to a lock: the task asks for it, or gives it back when it asks to or crashes, or nothing. -/
theorem lock_turn (ht : v.Turn t k w j rs) (l : Lock) : w.node.lock l = v.node.lock l ∨
    (∃ (next : Unit → Operation Answer) (x : Task), x.id = t.id ∧
      t.body.run v.node.repository = .asking (.acquire l) w.node.repository (fun a => (next a).run) ∧
      w.node.lock l = (v.node.lock l).join x) ∨
    (v.node.lock l).holder = some t.id ∧ w.node.lock l = (v.node.lock l).pass ∧
      ((∃ next, t.body.run v.node.repository = .asking (.release l) w.node.repository next) ∨
        ∀ x ∈ w.tasks, x.id ≠ t.id) := by
  cases ht with
  | @finished result r hrun =>
    refine .inl ?_
    unfold View.finish
    split <;> simp
  | @answered q r next _ _ hrun ha =>
    cases ha with
    | reported =>
      refine .inl ?_
      show ((v.leave r).node.noting _).lock l = _
      rw [(noting_node _ _).2.1, lock_leave]
    | @acquired m next =>
      rw [node_acquire, Node.lock_setLock]
      split
      · rename_i hl
        subst hl
        refine .inr (.inl ⟨next, { t with body := next () }, rfl, ?_, by rw [lock_leave]⟩)
        rw [Node.repository_setLock]
        exact hrun
      · exact .inl (lock_leave v r l)
    | @released m next =>
      rw [node_resume, node_release, Node.lock_setLock]
      split
      · rename_i hl
        subst hl
        have hhalt : ¬Halting s t.body := not_halting hrun Request.noConfusion
        obtain ⟨hin, -⟩ := (h.ordered.self.2.2.of_not_halting hhalt).releases hrun
        refine .inr (.inr ⟨h.ordered.holder ?_, by rw [lock_leave], .inl ⟨fun a => (next a).run, ?_⟩⟩)
        · cases l with
          | lifecycle => exact hin
          | pass => exact hin
        · rw [Node.repository_setLock]
          exact hrun
      · exact .inl (lock_leave v r l)
    | _ => exact .inl (by cases l <;> rfl)
  | @crashed r next hrun =>
    have hboth : (((v.leave r).surrender t .pass).surrender t .lifecycle).node.lock l = v.node.lock l ∨
        (v.node.lock l).holder = some t.id ∧
          (((v.leave r).surrender t .pass).surrender t .lifecycle).node.lock l = (v.node.lock l).pass := by
      rw [← lock_leave v r l]
      have hfirst := (node_surrender (v.leave r) t .pass).2.2.1
      have hsecond := (node_surrender ((v.leave r).surrender t .pass) t .lifecycle).2.2.1
      cases l with
      | lifecycle =>
        rw [← hfirst .lifecycle Lock.noConfusion]
        exact lock_surrender _ t .lifecycle .lifecycle
      | pass =>
        rw [hsecond .pass Lock.noConfusion]
        exact lock_surrender _ t .pass .pass
    have hcrash : ((v.leave r).crash t).node.lock l =
        (((v.leave r).surrender t .pass).surrender t .lifecycle).node.lock l := by
      unfold View.crash
      dsimp only
      split <;> simp
    rw [hcrash]
    refine hboth.imp_right fun ⟨hheld, hl⟩ => .inr ⟨hheld, hl, .inr fun x hx => ?_⟩
    rw [h.tasks_crash] at hx
    exact h.ordered.id_ne hx

/-- A task outside the lifecycle lock leaves it to who holds it. -/
theorem holder_turn (ht : v.Turn t k w j rs) (hout : v.within .lifecycle t = false) {i : Nat}
    (hi : v.node.lifecycle.holder = some i) : w.node.lifecycle.holder = some i := by
  have hi : (v.node.lock .lifecycle).holder = some i := hi
  show (w.node.lock .lifecycle).holder = some i
  rcases h.lock_turn ht .lifecycle with hl | ⟨_, x, -, -, hl⟩ | ⟨hheld, -⟩
  · rw [hl, hi]
  · rw [hl, LockState.join, hi]
  · refine absurd (hout.symm.trans (decide_eq_true ?_)) Bool.false_ne_true
    exact List.mem_append_left _ (Option.mem_toList.2 hheld)

/-- Nobody asks for the lock of passes of a repository that does not run. -/
theorem passes_turn (ht : v.Turn t k w j rs) (ha : w.node.repository.active = none) :
    (w.node.lock .pass).ids ⊆ (v.node.lock .pass).ids := by
  have hf : (v.node.lock .pass).Fair := h.ordered.fair .pass
  rcases h.lock_turn ht .pass with hl | ⟨next, x, hid, hrun, -⟩ | ⟨-, hl, -⟩
  · rw [hl]
    exact fun _ => id
  · have hhalt : ¬Halting s t.body := not_halting hrun Request.noConfusion
    obtain ⟨-, -, hrunning, -⟩ := (h.ordered.self.2.2.of_not_halting hhalt).acquires hrun
    have hrunning := hrunning rfl
    rw [Repository.isRunning, ha] at hrunning
    cases hrunning
  · rw [hl, hf.ids_pass]
    exact (List.tail_sublist _).subset

/-! ## Schedulers -/

/-- Only a task that starts the repository launches a scheduler. -/
theorem scheduler_turn (ht : v.Turn t k w j rs) (hnone : v.node.scheduler = none)
    (ha : w.node.repository.active = none) : w.node.scheduler = none := by
  cases ht with
  | @finished result r hrun =>
    unfold View.finish
    split
    · exact hnone
    · exact hnone
    · exact hnone
    · exact scheduler_endScheduler (v := v.leave r) hnone _
  | @answered q r next _ _ hrun ha' =>
    cases ha' with
    | reported =>
      show ((v.leave r).node.noting _).scheduler = _
      rw [(noting_node _ _).2.2.1]
      exact hnone
    | launched =>
      have hhalt : ¬Halting s t.body := not_halting hrun Request.noConfusion
      exact absurd ha ((h.ordered.self.2.2.of_not_halting hhalt).launches hrun).2.2.2.1
    | closing hs => exact absurd (hs.symm.trans hnone) (Option.some_ne_none _)
    | ticked => exact Option.map_eq_none_iff.2 hnone
    | joined => rfl
    | acquired => rw [scheduler_acquire, scheduler_leave, hnone]
    | released => rw [node_resume, scheduler_release, scheduler_leave, hnone]
    | _ => exact hnone
  | @crashed r next hrun =>
    have hu : (((v.leave r).surrender t .pass).surrender t .lifecycle).node.scheduler = none := by simpa using hnone
    unfold View.crash
    dsimp only
    split
    · exact hu
    · exact hu
    · exact scheduler_endScheduler hu _

/-! ## The task whose turn it is -/

/-- The task with the number of the one whose turn it is. -/
theorem eq_of_id (hx : x ∈ (v.put t).tasks) (hid : x.id = t.id) : x = t :=
  (mem_tasks_put hx).resolve_right fun hx => h.ordered.id_ne hx hid

/-- In a turn only the task whose turn it is changes. -/
theorem mem_turn (ht : v.Turn t k w j rs) (hx : x ∈ v.tasks) : x ∈ w.tasks := by
  obtain ⟨new, hw, -⟩ := h.trades ht
  rw [hw.tasks]
  exact Multiset.mem_add.2 (.inr hx)

/-- What the task whose turn it was has become, if it has not ended. -/
theorem goes_of_mem (ht : v.Turn t k w j rs) (hx : x ∈ w.tasks) (hid : x.id = t.id) : t.Goes v.node x := by
  rcases h.mem_tasks ht hx with hx | ⟨hgoes, -⟩ | ⟨hbegins, -⟩
  · exact absurd hid (h.ordered.id_ne hx)
  · exact hgoes
  · exact absurd (hid.symm.trans hbegins.fresh.1) h.ordered.self.2.1.ne

/-- Other tasks than the one whose turn it is are inside a lock afterwards if they were before. -/
theorem ids_turn (ht : v.Turn t k w j rs) (l : Lock) {i : Nat} (hi : i ≠ t.id) :
    i ∈ (w.node.lock l).ids ↔ i ∈ (v.node.lock l).ids := by
  obtain ⟨new, hw, -⟩ := h.trades ht
  exact hw.locks.others l i hi

end Tended

end View

/-! ## What happens at a node -/

/-- Whatever happens, the tasks of a node stay, one begins that somebody waits for, or one of them has its turn. -/
theorem Tended.happens_view {c d : Cluster} (h : c.Tended) (hn : n < c.nodes.length) (hd : c.Happens d)
    {I : View → Prop} (hI : I (c.view n))
    (hdrift : ∀ v w : View, w.queued = v.queued → v.node.Drifts w.node → I v → I w)
    (hbegin : ∀ (v : View) (y : Task), y.id = c.next → y.role = .awaited → I v → I (v.put y))
    (hturn : ∀ (v : View) (t : Task) (rs : List Result), c.view n = v.put t → (v.put t).Tended (c.node n).setup n c.next →
      v.Turn t c.next (d.view n) d.next rs → I (d.view n)) : I (d.view n) := by
  cases hd with
  | drift hd => exact hdrift _ _ (hd.queued_view n) (hd.nodes n) hI
  | step =>
    cases hr : c.ready with
    | nil =>
      rw [Cluster.step, hr]
      exact hI
    | cons t tail =>
      obtain ⟨-, v, w, k, rs, hview, hv, hw, hb⟩ := h.turn hr
      by_cases hne : n = t.node
      · subst hne
        rw [← hb.here, ← hb.next] at hw
        exact hturn v t rs hview hv hw
      · rw [hb.elsewhere n hne]
        exact hI
  | begin x hx =>
    have hspawn {c' : Cluster} (hnext : c'.next = c.next) (m : Nat) (body : Operation Answer) (hI : I (c'.view n)) :
        I ((c'.spawn m .awaited body).view n) := by
      have hb := (Becomes.refl c' m).spawn .awaited body
      by_cases hne : n = m
      · subst hne
        rw [hb.here]
        exact hbegin _ _ hnext rfl hI
      · rw [hb.elsewhere n hne]
        exact hI
    induction x with
    | node m x => exact hspawn rfl m _ hI
    | store x => exact hspawn rfl 0 _ hI
    | advance time => exact hspawn rfl 0 _ hI
    | look l => exact hspawn rfl 0 _ hI
    | change x =>
      have hd := drifts_change c x
      exact hspawn hd.next 0 _ (hdrift _ _ (hd.queued_view n) (hd.nodes n) hI)
    | background x ih => exact ih hx fun v t rs _ hv hw => hturn v t rs ‹_› hv hw
    | join number => exact hI

end DurableAggregates.Cluster
