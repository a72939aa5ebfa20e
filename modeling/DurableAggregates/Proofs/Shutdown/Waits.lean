import DurableAggregates.Proofs.Shutdown.Bystanders

/-!
# Waiting for one's turn

On an uninterrupted course a task that is due at a time has its next turn at exactly that time (`Uninterrupted.served`),
and a scheduler that is being closed comes to its end, at which the task that waits for it can go on
(`Uninterrupted.closes`).
-/

namespace DurableAggregates.Cluster

variable {s : Setup} {n m i k a j time : Nat} {c d e : Cluster} {t x y : Task} {tail : List Task} {v w : View}
  {f : Nat → Cluster} {st : SchedulerState}

/-! ## Tasks by their numbers -/

theorem View.Ordered.nodup (h : v.Ordered s n k) : v.tasks.Nodup := h.distinct.of_map _

/-- A task that waits for something of its node is not in a queue. -/
theorem View.Ordered.not_queued (h : v.Ordered s n k) (hx : x ∈ v.node.waiters) : x ∉ v.queued := fun hq =>
  Multiset.disjoint_left.1 (Multiset.nodup_add.1 h.nodup).2.2 hq hx

theorem View.Ordered.eq_of_id (h : v.Ordered s n k) (hx : x ∈ v.tasks) (hy : y ∈ v.tasks) (hid : x.id = y.id) :
    x = y := Multiset.inj_on_of_nodup_map h.distinct x hx y hy hid

theorem Tended.eq_of_id (h : c.Tended) (hx : x ∈ c.crowd) (hy : y ∈ c.crowd) (hid : x.id = y.id) : x = y := by
  obtain ⟨m, hm, hx⟩ := mem_crowd.1 hx
  obtain ⟨n, hn, hy⟩ := mem_crowd.1 hy
  obtain rfl := h.apart m n hm hn x hx y hy hid
  exact (h.views m hm).ordered.eq_of_id hx hy hid

theorem Tended.mem_crowd_of_queued (h : c.Tended) (hx : x ∈ c.queued) : x ∈ c.crowd :=
  mem_crowd.2 ⟨x.node, h.known x hx, View.mem_tasks.2 (.inl (mem_queued_view.2 ⟨hx, rfl⟩))⟩

/-- A task that can go on does not sleep. -/
theorem Tended.awake (h : c.Tended) (hx : x ∈ c.ready) : x ∉ c.sleeping.map (·.2) := by
  intro hs
  have hq : x ∈ c.queued := Multiset.mem_add.2 (.inl hx)
  have hnodup := (Multiset.nodup_add.1 (h.views x.node (h.known x hq)).ordered.nodup).1
  have hq : (c.queued.filter (·.node = x.node)).Nodup := hnodup
  rw [queued, Multiset.filter_add, Multiset.nodup_add] at hq
  exact Multiset.disjoint_left.1 hq.2.2 (Multiset.mem_filter.2 ⟨hx, rfl⟩) (Multiset.mem_filter.2 ⟨hs, rfl⟩)

/-! ## Turns at their time -/

/-- A task that is due has its turn then; until then others get on. -/
theorem Uninterrupted.served (hf : Uninterrupted f) (h : (f a).Winding n i)
    (ha : ((f a).node n).repository.active = none) (hx : Due time x (f a)) (hid : x.id = i) (hp : x.pause ≠ .tick) :
    ∃ b, a ≤ b ∧ (f b).ready.head? = some x ∧ (f b).now = time ∧ Aside n i (f a) (f b) ∧
      ∀ j, a ≤ j → j < b → Aside n i (f a) (f j) := by
  have hstep (j : Nat) (_ : a ≤ j) (hj : Aside n i (f a) (f j) ∧ Due time x (f j)) :
      (f j).ready.head? = some x ∨
        (Aside n i (f a) (f (j + 1)) ∧ Due time x (f (j + 1))) ∧ (f (j + 1)).Spends (f j) := by
    obtain ⟨haside, hdue⟩ := hj
    by_cases hhead : (f j).ready.head? = some x
    · exact .inl hhead
    · obtain ⟨d, hv, hd⟩ := hf j
      have hw := haside.winding
      have hdue' : Due time x d := by
        rw [Due, hv.ready, hv.now, hv.sleeping]
        exact hdue
      have hother (t : Task) (tail : List Task) (hr : (f j).ready = t :: tail) : t.id ≠ i := fun ht => by
        have hmem : t ∈ (f j).queued := Multiset.mem_add.2 (.inl (by rw [hr]; exact List.mem_cons_self ..))
        refine hhead ?_
        rw [hr, hw.tended.eq_of_id (hw.tended.mem_crowd_of_queued hmem)
          (hw.tended.mem_crowd_of_queued hdue.mem_queued) (ht.trans hid.symm)]
        rfl
      have hrest (hr : (f j).ready = []) : (f j).sleeping ≠ [] := fun hs => by
        have hmem := hdue.mem_queued
        rw [queued, hr, hs] at hmem
        exact absurd hmem (Multiset.notMem_zero x)
      obtain ⟨hnext, hless⟩ := Aside.proceed hw haside.active hv hother hrest
      refine .inr ⟨⟨hd ▸ haside.trans hnext, ?_⟩, hd ▸ hless⟩
      rw [hd]
      exact hdue'.proceed (hv.inOrder hw.inOrder) hp (by rw [hv.ready]; exact hhead)
  obtain ⟨b, hab, hhead, ⟨haside, hdue⟩, hall⟩ := eventually ⟨.refl h ha, hx⟩ hstep
  refine ⟨b, hab, hhead, ?_, haside, fun j hle hlt => (hall j hle hlt).1.1⟩
  have hmem : x ∈ (f b).ready := List.mem_of_mem_head? hhead
  exact (hdue.resolve_right fun hs => haside.winding.tended.awake hmem (List.mem_map.2 ⟨_, hs.1, rfl⟩)).2

/-! ## The end of a scheduler -/

/-- Who holds a lock does not wait for it. -/
theorem LockState.Fair.id_ne {l : LockState} (h : l.Fair) (hj : l.holder = some j) (hx : x ∈ l.waiting) : x.id ≠ j := by
  have hnodup := h.nodup
  rw [LockState.ids, hj] at hnodup
  exact fun he => (List.nodup_cons.1 hnodup).1 (he ▸ List.mem_map_of_mem hx)

theorem Task.Stands.guarded {inside passing : Bool} (h : t.Stands s inside passing) (hrole : t.role = .awaited) :
    t.body.Guarded s.hasEngine passing false := by
  cases h with
  | halts _ _ _ hguarded => exact hguarded
  | conducts hc =>
    cases hc with
    | awaited _ _ hguarded => exact hguarded
    | scheduler hrole' => exact absurd (hrole.symm.trans hrole') Role.noConfusion
    | redelivery hrole' => exact absurd (hrole.symm.trans hrole') Role.noConfusion

/-- The task that waits for the end of a scheduler that is being closed holds the lifecycle lock. -/
theorem View.Tended.closer (h : v.Tended s n k) (ha : v.node.repository.active = none)
    (hst : v.node.scheduler = some st) (hphase : st.phase = .alive) : ∃ y ∈ v.tasks, st.waiting = some y ∧
      v.node.lifecycle.holder = some y.id ∧ y.role = .awaited := by
  have hclosing : st.closing = true :=
    Bool.eq_true_of_not_eq_false fun hopen => (h.staged.opened st hst hopen).2 ha
  obtain ⟨-, y, hy, hheld, hrole, -, hstage⟩ := h.staged.closed st hst hclosing
  rw [if_pos hphase] at hstage
  exact ⟨y, hy, hstage, hheld, hrole⟩

/-- While a task waits for the end of a scheduler, someone can go on or sleeps. -/
theorem Winding.queued_ne_zero (h : c.Winding n i) (ha : (c.node n).repository.active = none)
    (hst : (c.node n).scheduler = some st) (hphase : st.phase = .alive) (hx : st.waiting = some x) (hid : x.id = i)
    (hout : ∀ engine, ¬x.body.Guarded engine true false) : c.queued ≠ 0 := by
  intro hnone
  obtain ⟨hordered, hstaged⟩ := h.tended.views n h.known
  obtain ⟨y, hy, hwaiting, hheld, hrole⟩ := (h.tended.views n h.known).closer ha hst hphase
  obtain rfl : x = y := Option.some.inj (hx.symm.trans hwaiting)
  have hqueued : (c.view n).queued = 0 := by rw [view, hnone]; rfl
  -- All tasks wait, and none but that one for anything but the lock of passes.
  have hall (z : Task) (hz : z ∈ (c.view n).tasks) : z = x ∨ z ∈ (c.node n).pass.waiting := by
    rcases View.mem_tasks.1 hz with hq | hw
    · rw [hqueued] at hq
      exact absurd hq (Multiset.notMem_zero z)
    · rcases mem_waiters.1 hw with hl | hp | ⟨st', hst', hz'⟩
      · have hin : z.id ∈ ((c.view n).node.lock .lifecycle).ids :=
          List.mem_append_right _ (List.mem_map_of_mem hl)
        have hstands := hordered.conduct z hz
        rw [show (c.view n).within .lifecycle z = true from decide_eq_true hin] at hstands
        have hawaited : z.role = .awaited :=
          Decidable.byContradiction fun hne => Bool.noConfusion (hstands.outside hne)
        have hzi : z.id = i := by
          rcases h.alone z (mem_crowd.2 ⟨n, h.known, hz⟩) with hzi | hr | ⟨hr, -⟩
          · exact hzi
          · exact absurd (hawaited.symm.trans hr) Role.noConfusion
          · exact absurd (hawaited.symm.trans hr) Role.noConfusion
        exact absurd (hzi.trans hid.symm) ((hordered.fair .lifecycle).id_ne hheld hl)
      · exact .inr hp
      · obtain rfl := Option.some.inj (hst.symm.trans hst')
        exact .inl (Option.some.inj (hz'.symm.trans hx))
  have hcount := hstaged.schedulers
  have hjoin : (c.view n).node.join? = none := Node.join?_eq_none.2 ⟨st, hst, hphase⟩
  rw [if_pos hjoin] at hcount
  obtain ⟨z, hz, hscheduler⟩ := Multiset.countP_pos.1 (hcount ▸ Nat.zero_lt_one)
  have hz := (hall z hz).resolve_left fun he => Role.noConfusion (hscheduler.symm.trans (he ▸ hrole))
  have hfair : (c.node n).pass.Fair := hordered.fair .pass
  cases hholder : (c.node n).pass.holder with
  | none =>
    rw [hfair.free hholder] at hz
    cases hz
  | some j =>
    have hj : j ∈ ((c.view n).node.lock .pass).ids := View.mem_ids_of_holder (l := .pass) hholder
    obtain ⟨z', hz', rfl⟩ := hordered.known .pass j hj
    rcases hall z' hz' with rfl | hw
    · have hstands := hordered.conduct z' hz'
      rw [show (c.view n).within .pass z' = true from decide_eq_true hj] at hstands
      exact hout _ (hstands.guarded hrole)
    · exact hfair.id_ne hholder hw rfl

/-- At the end of a scheduler that is being closed the task that waits for it gets into the queue. -/
theorem Winding.resumed (h : c.Winding n i) (ha : (c.node n).repository.active = none)
    (hst : (c.node n).scheduler = some st) (hphase : st.phase ≠ .alive) (hx : x ∈ (c.view n).tasks)
    (hheld : (c.node n).lifecycle.holder = some x.id) : x ∈ c.queued := by
  obtain ⟨hordered, hstaged⟩ := h.tended.views n h.known
  have hclosing : st.closing = true := Bool.eq_true_of_not_eq_false fun hopen => (hstaged.opened st hst hopen).2 ha
  obtain ⟨-, y, hy, hheld', -, -, hstage⟩ := hstaged.closed st hst hclosing
  rw [if_neg hphase] at hstage
  obtain rfl := hordered.eq_of_id hx hy (Option.some.inj (hheld.symm.trans hheld'))
  exact (mem_queued_view.1 hstage.2).1

/-- A scheduler that is being closed ends, and then the task that waits for it can go on; until then others get on. -/
theorem Uninterrupted.closes (hf : Uninterrupted f) (h : (f a).Winding n i)
    (ha : ((f a).node n).repository.active = none) (hst : ((f a).node n).scheduler = some st)
    (hphase : st.phase = .alive) (hx : st.waiting = some x) (hid : x.id = i)
    (hout : ∀ engine, ¬x.body.Guarded engine true false) :
    ∃ b, a ≤ b ∧ ((f b).node n).join? ≠ none ∧ x ∈ (f b).ready ∧ Aside n i (f a) (f b) ∧
      ∀ j, a ≤ j → j < b → Aside n i (f a) (f j) ∧ ((f j).node n).join? = none := by
  obtain ⟨y, hy, hwaiting, hheld, -⟩ := (h.tended.views n h.known).closer ha hst hphase
  obtain rfl : x = y := Option.some.inj (hx.symm.trans hwaiting)
  have hstep (j : Nat) (_ : a ≤ j)
      (hj : Aside n i (f a) (f j) ∧ (((f j).node n).join? ≠ none → x ∈ (f j).ready)) :
      ((f j).node n).join? ≠ none ∨ (Aside n i (f a) (f (j + 1)) ∧
        (((f (j + 1)).node n).join? ≠ none → x ∈ (f (j + 1)).ready)) ∧ (f (j + 1)).Spends (f j) := by
    obtain ⟨haside, -⟩ := hj
    by_cases hjoin : ((f j).node n).join? = none
    · have hw := haside.winding
      have htended := hw.tended.views n hw.known
      obtain ⟨stj, hstj, hphasej⟩ := Node.join?_eq_none.1 hjoin
      have hxj : stj.waiting = some x := by
        obtain ⟨y, hy', hwaiting, hheld', -⟩ := htended.closer haside.active hstj hphasej
        have hheld' : ((f j).node n).lifecycle.holder = some y.id := hheld'
        rw [haside.lifecycle] at hheld'
        rw [hwaiting, htended.ordered.eq_of_id hy' (haside.tasks x hy hid) (Option.some.inj (hheld'.symm.trans hheld))]
      have hwaits : x ∉ (f j).queued := fun hq => by
        have hmem : x ∈ ((f j).view n).node.waiters := mem_waiters.2 (.inr (.inr ⟨stj, hstj, hxj⟩))
        refine htended.ordered.not_queued hmem (mem_queued_view.2 ⟨hq, ?_⟩)
        exact htended.ordered.housed x (View.mem_tasks.2 (.inr hmem))
      have hother (t : Task) (tail : List Task) (hr : (f j).ready = t :: tail) : t.id ≠ i := fun ht => by
        have hmem : t ∈ (f j).queued := Multiset.mem_add.2 (.inl (by rw [hr]; exact List.mem_cons_self ..))
        have hxc : x ∈ (f j).crowd := mem_crowd.2 ⟨n, hw.known, haside.tasks x hy hid⟩
        refine hwaits ?_
        rw [← hw.tended.eq_of_id (hw.tended.mem_crowd_of_queued hmem) hxc (ht.trans hid.symm)]
        exact hmem
      have hrest (hr : (f j).ready = []) : (f j).sleeping ≠ [] := fun hs =>
        hw.queued_ne_zero haside.active hstj hphasej hxj hid hout (by rw [queued, hr, hs]; rfl)
      obtain ⟨d, hv, hd⟩ := hf j
      obtain ⟨hnext, hless⟩ := Aside.proceed hw haside.active hv hother hrest
      rw [hd]
      refine .inr ⟨⟨haside.trans hnext, fun hjoin' => ?_⟩, hless⟩
      have haside' := haside.trans hnext
      cases hr : d.ready with
      | nil =>
        -- Time has passed, which ends no scheduler.
        have hproceed : d.proceed = d.wakeNext := by
          rw [Cluster.proceed, hr]
          rfl
        have hscheduler := ((drifts_wakeNext d).nodes n).scheduler.trans (hv.drifts.nodes n).scheduler
        rw [hproceed, Node.join?, hscheduler] at hjoin'
        exact absurd hjoin hjoin'
      | cons t tail =>
        have hproceed : d.proceed = d.step := by
          rw [Cluster.proceed, hr]
          rfl
        have hsome := haside'.scheduler (by rw [hst]; exact Option.some_ne_none _)
        obtain ⟨st', hst'⟩ := Option.ne_none_iff_exists'.1 hsome
        have hqueued := haside'.winding.resumed haside'.active hst'
          (fun hp => hjoin' (Node.join?_eq_none.2 ⟨st', hst', hp⟩)) (haside'.tasks x hy hid)
          (by rw [haside'.lifecycle]; exact hheld)
        rw [hproceed] at hqueued ⊢
        refine (Multiset.mem_add.1 hqueued).resolve_right fun hs => ?_
        obtain ⟨z, hz, rfl⟩ := List.mem_map.1 hs
        rcases (keeps_step hr).dozed z hz with hz | hz
        · refine hwaits (Multiset.mem_add.2 (.inr (List.mem_map.2 ⟨z, ?_, rfl⟩)))
          rw [← hv.sleeping]
          exact hz
        · exact hother t tail (hv.ready ▸ hr) (hz.symm.trans hid)
    · exact .inl hjoin
  have hstart : ((f a).node n).join? = none := Node.join?_eq_none.2 ⟨st, hst, hphase⟩
  obtain ⟨b, hab, hjoin, ⟨haside, hready⟩, hall⟩ :=
    eventually ⟨.refl h ha, fun hj => absurd hstart hj⟩ hstep
  refine ⟨b, hab, hjoin, hready hjoin, haside, fun j hle hlt => ?_⟩
  obtain ⟨⟨hj, -⟩, hnot⟩ := hall j hle hlt
  exact ⟨hj, Decidable.byContradiction hnot⟩

end DurableAggregates.Cluster
