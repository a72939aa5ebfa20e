import DurableAggregates.Proofs.Schedule.Stages

/-!
# Steps of a schedule

Whatever task goes on, the sign that it gives fits to the windows that have been seen, and the node is at a stage again
(`Scheduled.step`). A task outside the lifecycle lock changes nothing of the schedule; one that is inside may launch a
scheduler or close it; the scheduler begins and ends passes while it is open, and ends when it is closed; then the task
that closed it goes on.
-/

namespace DurableAggregates.Cluster

open Schedule (Sign Window)

variable {s : Setup} {n : Nat} {c d : Cluster} {ws : List Window} {special inside : Option Task} {held : Bool}
  {t x : Task} {tail : List Task} {r : Repository} {body : Operation Answer}

/-- The windows after a sign. -/
def seen (now : Nat) (ws : List Window) : Option Sign → Option (List Window)
  | none => some ws
  | some sign => Window.see ws (now, sign)

/-- The sign fits, and the node is at a stage again. -/
def Proceeds (s : Setup) (n : Nat) (ws : List Window) (now : Nat) (sign : Option Sign) (d : Cluster) : Prop :=
  ∃ vs, seen now ws sign = some vs ∧ Scheduled s n d vs

/-! ## Taking a task from the queue -/

theorem node_taken (hn : n < c.nodes.length) (tail : List Task) (r : Repository) :
    (c.taken tail n r).node n = { c.node n with repository := r } :=
  node_modifyNode (c := { c with ready := tail }) hn _

theorem Sound.taken (h : c.Sound) : (c.taken tail n r).Sound :=
  Sound.modifyNode (c := { c with ready := tail }) ⟨h.housed, h.sorted, h.crashing⟩ (h.housed n)

theorem crew_taken (hn : t.node < c.nodes.length) (hr : c.ready = t :: tail) (r : Repository) :
    c.crew t.node = t ::ₘ (c.taken tail t.node r).crew t.node := by
  rw [crew, crew, node_taken hn]
  show Multiset.filter _ (Multiset.ofList c.ready + _) + _ =
    t ::ₘ (Multiset.filter _ (Multiset.ofList tail + _) + _)
  rw [hr, ← Multiset.cons_coe, Multiset.cons_add, filter_node_cons rfl, Multiset.cons_add]
  rfl

theorem crew_taken_eq (hn : n < c.nodes.length) (tail : List Task) (r r' : Repository) :
    (c.taken tail n r).crew n = (c.taken tail n r').crew n := by
  rw [crew, crew, node_taken hn, node_taken hn]
  rfl

theorem Settled.taken (h : Settled s n c ws special held) (hr : c.ready = t :: tail) (ht : t.role ≠ .scheduler)
    (hk : Policy.Keeps held (c.node n).repository.active r.active) :
    Settled s n (c.taken tail n r) ws special held := by
  have hnode := node_taken h.known tail r
  have hpop : Stage s n { c with ready := tail } ws special held := by
    refine h.stage.keep rfl rfl rfl rfl (fun x hx _ hrole => ?_) fun _ he _ => he
    rw [hr] at hx
    rcases List.mem_cons.1 hx with rfl | hx
    · exact absurd hrole ht
    · exact hx
  exact ⟨h.sound.taken, (length_modifyNode ..).symm ▸ h.known, by rw [hnode]; exact h.setup,
    by rw [hnode]; exact h.queue, h.windows, hpop.keeps h.known hk⟩

theorem Settled.grow (h : Settled s n c ws special held) {new : Multiset Task} (hg : Grows n c new d) :
    Settled s n d ws special held := by
  obtain ⟨hsetup, hrepository, hlifecycle, hscheduler⟩ := Node.frame_eq hg.frame
  refine ⟨hg.sound, by rw [hg.known]; exact h.known, hsetup.trans h.setup,
    by rw [hlifecycle]; exact h.queue, by rw [hg.now]; exact h.windows, ?_⟩
  exact h.stage.keep hg.now hscheduler (by rw [hrepository]) (by rw [hlifecycle])
    (fun x hx _ _ => hg.ready x hx) hg.sleeping

/-- More tasks outside the lock. -/
theorem Scheduled.grow (h : Scheduled s n c ws) {new : Multiset Task} (hg : Grows n c new d)
    (hnew : ∀ t ∈ new, t.node = n → Citizen s false t) : Scheduled s n d ws := by
  obtain ⟨special, inside, hs, hm⟩ := h
  refine ⟨special, inside, hs.grow hg, ?_⟩
  rw [hg.crew]
  refine hm.add fun t ht => ?_
  obtain ⟨hin, hn⟩ := Multiset.mem_filter.1 ht
  exact hnew t hin hn

theorem crew_resume (c : Cluster) (t : Task) (body : Operation Answer) :
    (c.resume t body).crew t.node = { t with body, pause := .nothing } ::ₘ c.crew t.node := by
  rw [crew, crew, queued_resume, filter_node_cons (t := { t with body, pause := .nothing }) rfl, Multiset.cons_add]
  rfl

theorem crew_enqueue (c : Cluster) (t : Task) : (c.enqueue t).crew t.node = t ::ₘ c.crew t.node := by
  rw [crew, crew, queued_enqueue, filter_node_cons rfl, Multiset.cons_add]
  rfl

theorem Scheduled.resume (h : Scheduled s t.node c ws) (ht : t.role ≠ .scheduler) (hbody : body.Lawful s false false) :
    Scheduled s t.node (c.resume t body) ws := by
  obtain ⟨_, _, hs, -⟩ := id h
  refine h.grow (.resume hs.sound t body) fun x hx _ => ?_
  rw [Multiset.mem_singleton.1 hx]
  exact ⟨ht, hbody⟩

/-- A task goes on inside the lock. -/
theorem Settled.resume (hs : Settled s t.node c ws special true) (hm : Manned s (c.crew t.node) special none)
    (ht : t.role ≠ .scheduler) (hbody : body.Lawful s true false) : Scheduled s t.node (c.resume t body) ws := by
  refine ⟨special, some { t with body, pause := .nothing }, hs.grow (.resume hs.sound t body), ?_⟩
  rw [crew_resume]
  exact hm.enter ⟨ht, hbody⟩

/-- A task is back in the crew. -/
theorem Returns.crew {q : Request} {next : q.Answer → Operation Answer} (h : Returns t.node c t q next d) (s : Setup) :
    ∃ x more new, Grows t.node c new d ∧ d.crew t.node = x ::ₘ (c.crew t.node + more) ∧ x.node = t.node ∧
      x.role = t.role ∧ Resumes q next x.body ∧ ∀ y ∈ more, Citizen s false y := by
  obtain ⟨x, more, hg, hx, hrole, hb, hmore⟩ := h
  refine ⟨x, more.filter (·.node = t.node), _, hg, ?_, hx, hrole, hb, fun y hy => ?_⟩
  · rw [hg.crew, filter_node_cons hx, Multiset.add_cons]
  · obtain ⟨-, hrole, hbody⟩ := hmore y (Multiset.mem_of_mem_filter hy)
    exact ⟨by rw [hrole]; exact Role.noConfusion, Operation.Within.lawful hbody⟩

theorem shows_of_isFree {q : Request} (hq : q.isFree = true) (x : Node) (now : Nat) : x.shows now q = none := by
  cases q with
  | launch | halt | tick => cases hq
  | _ => rfl

/-! ## Tasks outside the lock -/

/-- The end of a task that is no scheduler concerns nobody. -/
theorem grows_finish (h : c.Sound) (ht : t.role ≠ .scheduler) (result : Except RepositoryError Answer) :
    Grows n c 0 (c.finish t result) := by
  unfold finish
  split
  · exact .same h rfl rfl rfl rfl rfl
  · exact .same h rfl rfl rfl rfl rfl
  · rename_i hrole
    exact absurd hrole ht
  · rename_i hrole _
    exact absurd hrole ht

theorem shows_of_role (ht : t.role ≠ .scheduler) (result : Except RepositoryError Answer) : t.shows result = none := by
  unfold Task.shows
  split
  · exact if_neg ht
  · rfl

/-- Where nobody holds the lock no task is inside. -/
theorem Stage.held_eq (h : Stage s n c ws special held) (hl : (c.node n).lifecycle.holder = none) : held = false := by
  cases h with
  | idle _ _ _ h => rw [← h, hl]; rfl
  | serving _ h _ =>
    rw [hl] at h
    exact (Bool.or_eq_false_iff.1 h.symm).2
  | ended => rfl

section Locks

variable (hs : Settled s n c ws special held)
include hs

theorem Settled.setLock {l : LockState} {held' : Bool} (hl : ∀ t ∈ l.waiting, t.node = n ∧ Citizen s true t)
    (hstage : Stage s n (c.modifyNode n (·.setLock .lifecycle l)) ws special held') :
    Settled s n (c.modifyNode n (·.setLock .lifecycle l)) ws special held' := by
  have hnode := node_modifyNode hs.known (·.setLock .lifecycle l)
  refine ⟨hs.sound.modifyNode (housed_setLock (hs.sound.housed n) (fun t ht => (hl t ht).1) _),
    (length_modifyNode ..).symm ▸ hs.known, ?_, ?_, hs.windows, hstage⟩
  · rw [hnode]
    exact hs.setup
  · rw [hnode]
    exact fun t ht => (hl t ht).2

theorem crew_setLock (l : LockState) : (c.modifyNode n (·.setLock .lifecycle l)).crew n = c.crew n := by
  rw [crew, crew, node_modifyNode hs.known]
  rfl

theorem waiting_lifecycle : ∀ t ∈ (c.node n).lifecycle.waiting, t.node = n ∧ Citizen s true t :=
  fun t ht => ⟨hs.sound.housed_lock n .lifecycle t ht, hs.queue t ht⟩

end Locks

theorem Scheduled.acquire (hs : Settled s t.node c ws special inside.isSome)
    (hm : Manned s (c.crew t.node) special inside) (ht : t.role ≠ .scheduler) (hbody : body.Lawful s true false) :
    Scheduled s t.node (c.acquire t .lifecycle body) ws := by
  have hnode (l : LockState) := node_modifyNode hs.known (·.setLock .lifecycle l)
  have hwaiting := waiting_lifecycle hs
  unfold DurableAggregates.Cluster.acquire
  dsimp only
  split
  · rename_i hfree
    have hin : inside = none := Option.not_isSome_iff_eq_none.1 (Bool.eq_false_iff.1 (hs.stage.held_eq hfree))
    subst hin
    have hset : Settled s t.node _ ws special true :=
      hs.setLock (l := { (c.node t.node).lifecycle with holder := some t.id }) hwaiting
        (hs.stage.relock (.inr hfree) rfl (by rw [hnode]; rfl) (by rw [hnode]; rfl) (by rw [hnode]; rfl)
          (fun _ => id) rfl)
    refine hset.resume ?_ ht hbody
    · rw [crew_setLock hs]
      exact hm
  · refine ⟨special, inside, hs.setLock (fun x hx => ?_) ?_, ?_⟩
    · rcases List.mem_append.1 hx with hx | hx
      · exact hwaiting x hx
      · rw [List.mem_singleton.1 hx]
        exact ⟨rfl, ht, hbody⟩
    · exact hs.stage.keep rfl (by rw [hnode]; rfl) (by rw [hnode]; rfl) (by rw [hnode]; rfl) (fun _ hx _ _ => hx)
        fun _ he _ => he
    · rw [crew_setLock hs]
      exact hm

/-- The lock goes to the next task, if one waits. -/
theorem Scheduled.release (hs : Settled s n c ws special true) (hm : Manned s (c.crew n) special none) :
    Scheduled s n (c.release n .lifecycle) ws := by
  have hnode (l : LockState) := node_modifyNode hs.known (·.setLock .lifecycle l)
  have hwaiting := waiting_lifecycle hs
  unfold DurableAggregates.Cluster.release
  dsimp only
  split
  · refine ⟨special, none, hs.setLock hwaiting ?_, ?_⟩
    · exact hs.stage.relock (.inl rfl) rfl (by rw [hnode]; rfl) (by rw [hnode]; rfl) (by rw [hnode]; rfl)
        (fun _ => id) rfl
    · rw [crew_setLock hs]
      exact hm
  · rename_i t rest hw
    have hw : (c.node n).lifecycle.waiting = t :: rest := hw
    rw [hw] at hwaiting
    obtain ⟨rfl, ht⟩ := hwaiting t (List.mem_cons_self ..)
    have hset : Settled s t.node _ ws special true := hs.setLock (l := { holder := some t.id, waiting := rest })
      (fun x hx => hwaiting x (List.mem_cons_of_mem _ hx))
      (hs.stage.relock (.inl rfl) rfl (by rw [hnode]; rfl) (by rw [hnode]; rfl) (by rw [hnode]; rfl) (fun _ => id) rfl)
    refine ⟨special, some t, hset.grow (.enqueue hset.sound t), ?_⟩
    rw [crew_enqueue, crew_setLock hs]
    exact hm.enter ht

/-- What a task outside the lock does concerns no schedule. -/
theorem step_outside (hs : Settled s t.node c ws special inside.isSome) (hr : c.ready = t :: tail)
    (hm : ∀ r, Manned s ((c.taken tail t.node r).crew t.node) special inside) (ht : Citizen s false t) :
    Scheduled s t.node c.step ws ∧ c.sign t.node = none := by
  have hrun := ht.lawful (c.node t.node).repository
  have htaken (r : Repository) (hk : Policy.Keeps false (c.node t.node).repository.active r.active) :
      Settled s t.node (c.taken tail t.node r) ws special inside.isSome := hs.taken hr ht.role hk.of_false
  cases hx : t.body.run (c.node t.node).repository with
  | finished result r =>
    rw [hx] at hrun
    obtain ⟨hstep, hsign⟩ := step_finished hr hx
    rw [hstep, hsign]
    cases hrun with
    | finished hk =>
      have hscheduled : Scheduled s t.node (c.taken tail t.node r) ws := ⟨special, inside, htaken r hk, hm r⟩
      refine ⟨hscheduled.grow (grows_finish (htaken r hk).sound ht.role result) fun x hx => ?_,
        shows_of_role ht.role result⟩
      exact absurd hx (Multiset.notMem_zero x)
  | asking q r next =>
    rw [hx] at hrun
    obtain ⟨hstep, hsign⟩ := step_asking hr (fun a => ExceptT.mk (next a)) hx
    rw [hstep, hsign]
    cases hrun with
    | free hq hk h =>
      obtain ⟨x, more, new, hg, hcrew, -, hrole, hb, hmore⟩ :=
        (returns_answer (htaken r hk).sound (htaken r hk).known hq fun a => ExceptT.mk (next a)).crew s
      refine ⟨⟨special, inside, (htaken r hk).grow hg, ?_⟩, shows_of_isFree hq _ _⟩
      rw [hcrew, ← Multiset.add_cons]
      refine (hm r).add fun y hy => ?_
      rcases Multiset.mem_cons.1 hy with rfl | hy
      · exact ⟨hrole ▸ ht.role, hb.lawful h⟩
      · exact hmore y hy
    | acquire hk h => exact ⟨Scheduled.acquire (htaken r (.inl hk)) (hm r) ht.role h, rfl⟩

/-! ## Tasks inside the lock -/

/-- The repository, the scheduler, the windows and the stage change, and nothing else. -/
theorem Settled.turn {vs : List Window} {special' : Option Task} {held' : Bool} {st : Option SchedulerState}
    (hs : Settled s n c ws special held) (hsound : d.Sound) (hnow : d.now = c.now)
    (hknown : d.nodes.length = c.nodes.length)
    (hframe : (d.node n).frame = ((c.node n).setup, r, (c.node n).lifecycle, st)) (hvs : ∀ w ∈ vs, Fair s c.now w)
    (hstage : Stage s n d vs special' held') : Settled s n d vs special' held' := by
  obtain ⟨hsetup, -, hlifecycle, -⟩ := Node.frame_eq hframe
  exact ⟨hsound, by rw [hknown]; exact hs.known, hsetup.trans hs.setup,
    by rw [hlifecycle]; exact hs.queue, by rw [hnow]; exact hvs, hstage⟩

theorem length_taken (c : Cluster) (tail : List Task) (n : Nat) (r : Repository) :
    (c.taken tail n r).nodes.length = c.nodes.length := length_modifyNode ..

theorem scheduler_taken (hn : n < c.nodes.length) (tail : List Task) (r : Repository) :
    ((c.taken tail n r).node n).scheduler = (c.node n).scheduler := by
  rw [node_taken hn]

theorem frame_taken (hn : n < c.nodes.length) (tail : List Task) (r : Repository) :
    ((c.taken tail n r).node n).frame = ((c.node n).setup, r, (c.node n).lifecycle, (c.node n).scheduler) := by
  rw [node_taken hn]
  rfl

/-- Another scheduler, or none, for a node whose task has been taken. -/
theorem frame_setScheduler (hn : n < c.nodes.length) (tail : List Task) (r : Repository)
    (st : Option SchedulerState) : (((c.taken tail n r).setScheduler n st).node n).frame =
      ((c.node n).setup, r, (c.node n).lifecycle, st) := by
  rw [setScheduler, node_modifyNode (by rw [length_taken]; exact hn), node_taken hn]
  rfl

theorem length_setScheduler (c : Cluster) (tail : List Task) (n : Nat) (r : Repository)
    (st : Option SchedulerState) : ((c.taken tail n r).setScheduler n st).nodes.length = c.nodes.length :=
  (length_modifyNode ..).trans (length_taken ..)

theorem crew_setScheduler (hn : n < c.nodes.length) (tail : List Task) (r : Repository)
    (st : Option SchedulerState) : ((c.taken tail n r).setScheduler n st).crew n = (c.taken tail n r).crew n := by
  rw [setScheduler, crew, crew, node_modifyNode (by rw [length_taken]; exact hn)]
  rfl

theorem Sound.setScheduler (h : c.Sound) {st : Option SchedulerState}
    (hst : ∀ a t, st = some a → a.waiting = some t → t.node = n) : (c.setScheduler n st).Sound :=
  h.modifyNode (housed_scheduler (h.housed n) hst)

/-- A repository that was not running and schedules passes gets a scheduler. -/
theorem launch_inside (hs : Settled s n c ws special true) (hp : (c.node n).repository.active = none)
    (hm : Manned s ((c.taken tail n r).crew n) special none) {o : Policy} (ho : s.policy? = .ok o)
    (hsch : o.schedulesPasses = true) (hr : r.active = some o) :
    ∃ w x, Window.see ws (c.now, .launched o.interval) = some (w :: ws) ∧
      Settled s n ((c.taken tail n r).answerLaunch n o.interval) (w :: ws) (some x) true ∧
      Manned s (((c.taken tail n r).answerLaunch n o.interval).crew n) (some x) none := by
  let st : SchedulerState := { ticker := .starting c.now o.interval }
  let w : Window := { since := c.now, interval := o.interval }
  let x : Task := { id := c.next, node := n, role := .scheduler, body := round ((c.taken tail n r).node n).setup }
  have hsound : ((c.taken tail n r).setScheduler n (some st)).Sound :=
    hs.sound.taken.setScheduler fun a t ha ht => by
      cases ha
      cases ht
  have hg : Grows n ((c.taken tail n r).setScheduler n (some st)) {x} ((c.taken tail n r).answerLaunch n o.interval) :=
    .spawn hsound n .scheduler _
  have hframe := hg.frame.trans (frame_setScheduler hs.known tail r (some st))
  obtain ⟨-, hrepository, hlifecycle, hscheduler⟩ := Node.frame_eq hframe
  have hserving : Serving s n ((c.taken tail n r).answerLaunch n o.interval) st x w :=
    { node := rfl
      role := rfl
      scheduler := hscheduler
      phase := rfl
      interval := rfl
      joined := rfl
      closed := rfl
      running := fun _ => ⟨rfl, o, by rw [hrepository]; exact hr, hsch⟩
      stopping := fun h => absurd h Bool.false_ne_true
      body := .inl ⟨ticking_round _, rfl⟩
      awake := fun _ _ => .inl (List.mem_append_right _ (List.mem_singleton_self _))
      paced := fun _ _ => ⟨0, .launched c.now o.interval⟩ }
  -- A start finds no policy, and so no scheduler: the last window is joined, and another may begin.
  obtain ⟨rfl, hj, hl⟩ := hs.stage.idle_of_inactive hp
  refine ⟨w, x, Window.see_launched hj _ _, hs.turn hg.sound rfl (hg.known.trans ?_) hframe (fun v hv => ?_)
    (.serving hserving ?_ ?_), ?_⟩
  · exact length_setScheduler ..
  · rcases List.mem_cons.1 hv with rfl | hv
    · exact ⟨⟨o, ho, hsch, rfl⟩, fun h => absurd rfl h⟩
    · exact hs.windows v hv
  · rw [hlifecycle]
    exact hl
  · exact fun h => absurd h Bool.false_ne_true
  · rw [hg.crew_put rfl, crew_setScheduler hs.known]
    exact hm.appoint x

theorem Sound.wakeScheduler (h : c.Sound) (n : Nat) : (c.wakeScheduler n).Sound :=
  ⟨h.housed, h.sorted.sublist List.filter_sublist, h.crashing⟩

/-- A window that is closed while its scheduler is at work. -/
theorem Serving.close {st : SchedulerState} {w : Window} (h : Serving s n c st x w) (hopen : st.closing = false)
    (hw : Fair s c.now w) : w.closed = none ∧ Fair s c.now { w with closed := some c.now } := by
  have hclosed := h.closed_eq_none hopen
  refine ⟨hclosed, hw.policy, fun _ hq => ?_⟩
  have hquick : w.Quick c.now := ⟨hq.passes, hq.running⟩
  obtain ⟨k, hp⟩ := h.paced hopen hquick
  exact (hp.punctual hquick (by rw [hclosed]; rfl)).close hclosed

/-- A scheduler that is told to end, and the task that waits for its end. -/
theorem halt_serving {st : SchedulerState} {w : Window} (hs : Settled s t.node c (w :: ws) (some x) true)
    (hr : r.active = none) (ht : t.role ≠ .scheduler)
    (hm : Manned s ((c.taken tail t.node r).crew t.node) (some x) none) {next : Except String Unit → Operation Answer}
    (hnext : ∀ a, (next a).Lawful s true false) (h : Serving s t.node c st x w) (hopen : st.closing = false)
    (hl : (c.node t.node).lifecycle.holder.isSome = true) :
    Scheduled s t.node (((c.taken tail t.node r).setScheduler t.node (some { st with
      closing := true, waiting := some { t with body := asking .halt next, pause := .nothing } })).wakeScheduler t.node)
      ({ w with closed := some c.now } :: ws) := by
  let y : Task := { t with body := asking .halt next, pause := .nothing }
  let closing : SchedulerState := { st with closing := true, waiting := some y }
  have hsound : ((c.taken tail t.node r).setScheduler t.node (some closing)).Sound :=
    hs.sound.taken.setScheduler fun a z ha hz => by
      cases ha
      cases hz
      rfl
  have hframe := frame_setScheduler hs.known tail r (some closing)
  obtain ⟨-, hrepository, hlifecycle, hscheduler⟩ := Node.frame_eq hframe
  have hserving : Serving s t.node (((c.taken tail t.node r).setScheduler t.node (some closing)).wakeScheduler t.node)
      closing x { w with closed := some c.now } :=
    { node := h.node
      role := h.role
      scheduler := hscheduler
      phase := h.phase
      interval := h.interval
      joined := h.joined
      closed := rfl
      running := fun hx => nomatch hx
      stopping := fun _ => ⟨(congrArg (·.active) hrepository).trans hr, y, rfl, ht, next, fun _ => rfl, hnext⟩
      body := h.body.imp_right fun hb => hb.imp_right fun hb => ⟨hb.1, hb.2.1, rfl⟩
      awake := fun hx => nomatch hx
      paced := fun hx => nomatch hx }
  obtain ⟨-, hfair⟩ := h.close hopen (hs.windows w (List.mem_cons_self ..))
  refine ⟨some x, none, hs.turn (hsound.wakeScheduler t.node) rfl (length_setScheduler ..)
    hframe (fun v hv => ?_) (.serving hserving ?_ fun _ => rfl), ?_⟩
  · rcases List.mem_cons.1 hv with rfl | hv
    · exact hfair
    · exact hs.windows v (List.mem_cons_of_mem _ hv)
  · exact (congrArg (·.holder.isSome) hlifecycle).trans hl
  · have hcrew : (((c.taken tail t.node r).setScheduler t.node (some closing)).wakeScheduler t.node).crew t.node =
        (c.taken tail t.node r).crew t.node := by
      rw [crew, queued_wakeScheduler]
      exact crew_setScheduler hs.known ..
    rw [hcrew]
    exact hm

/-- Who ends a scheduler waits for it, and goes on where there is none. -/
theorem halt_inside (hs : Settled s t.node c ws special true) (hr : r.active = none) (ht : t.role ≠ .scheduler)
    (hm : Manned s ((c.taken tail t.node r).crew t.node) special none) {next : Except String Unit → Operation Answer}
    (hnext : ∀ a, (next a).Lawful s true false) :
    Proceeds s t.node ws c.now ((c.node t.node).shows c.now .halt) ((c.taken tail t.node r).answerHalt t next) := by
  have hframe := frame_taken hs.known tail r
  obtain ⟨-, hrepository, hlifecycle, hscheduler⟩ := Node.frame_eq hframe
  unfold answerHalt
  rw [hscheduler]
  cases hs.stage with
  | idle hn _ hj hl =>
    rw [hn, Node.shows, hn]
    have hstage : Stage s t.node (c.taken tail t.node r) ws none true := by
      refine .idle (hscheduler.trans hn) (fun p hp => ?_) hj (by rw [hlifecycle]; exact hl)
      rw [hrepository, hr] at hp
      cases hp
    have hset := hs.turn hs.sound.taken rfl (length_taken ..) hframe hs.windows hstage
    exact ⟨ws, rfl, hset.resume hm ht (hnext _)⟩
  | @serving ws _ st x w h hl hc =>
    have hopen : st.closing = false := Bool.eq_false_iff.2 fun h => by cases hc h
    rw [h.scheduler, Node.shows, h.scheduler]
    dsimp only [Option.bind]
    rw [h.phase, hopen]
    have hscheduled := halt_serving hs hr ht hm hnext h hopen (hl.trans (Bool.or_true _))
    rw [h.phase] at hscheduled
    exact ⟨{ w with closed := some c.now } :: ws, if_pos (h.closed_eq_none hopen), hscheduled⟩

/-- What a task inside the lock does fits to the windows. -/
theorem step_inside (hs : Settled s t.node c ws special true) (hr : c.ready = t :: tail)
    (hm : ∀ r, Manned s ((c.taken tail t.node r).crew t.node) special none) (ht : Citizen s true t) :
    Proceeds s t.node ws c.now (c.sign t.node) c.step := by
  have hrun := ht.lawful (c.node t.node).repository
  have htaken (r : Repository) (hk : Policy.Keeps true (c.node t.node).repository.active r.active) :
      Settled s t.node (c.taken tail t.node r) ws special true := hs.taken hr ht.role hk
  generalize hp : (c.node t.node).repository.active = p at hrun htaken
  cases hx : t.body.run (c.node t.node).repository with
  | finished result r =>
    rw [hx] at hrun
    cases hrun
  | asking q r next =>
    rw [hx] at hrun
    obtain ⟨hstep, hsign⟩ := step_asking hr (fun a => ExceptT.mk (next a)) hx
    rw [hstep, hsign]
    cases hrun with
    | free hq hk h =>
      obtain ⟨x, more, new, hg, hcrew, -, hrole, hb, hmore⟩ :=
        (returns_answer (htaken r hk).sound (htaken r hk).known hq fun a => ExceptT.mk (next a)).crew s
      rw [shows_of_isFree hq]
      refine ⟨ws, rfl, special, some x, (htaken r hk).grow hg, ?_⟩
      rw [hcrew]
      exact ((hm r).add hmore).enter ⟨hrole ▸ ht.role, hb.lawful h⟩
    | release hk h =>
      have hfree := Scheduled.release (htaken r hk) (hm r)
      exact ⟨ws, rfl, hfree.resume ht.role h⟩
    | launch ho hsch hactive h =>
      obtain ⟨w, x, hsee, hset, hman⟩ := launch_inside hs hp (hm r) ho hsch hactive
      exact ⟨w :: ws, hsee, hset.resume hman ht.role h⟩
    | halt hactive h => exact halt_inside hs hactive ht.role (hm r) h

/-! ## The scheduler -/

theorem Fair.ended {now begin : Nat} {w : Window} (h : Fair s now w) (hr : w.running = some begin) :
    Fair s now { w with running := none, passes := w.passes ++ [(begin, now)] } :=
  ⟨h.policy, fun hc hq => (Window.punctual_ended hr now now).2 (h.punctual hc (hq.of_ended hr))⟩

theorem finish_round (hx : x.role = .scheduler) :
    c.finish x (.ok (.flag true)) = c.resume x (round (c.node x.node).setup) := by
  unfold finish
  rw [hx]

theorem finish_last (hx : x.role = .scheduler) : c.finish x (.ok (.flag false)) = c.endScheduler x.node .ended := by
  unfold finish
  rw [hx]

section Scheduler

variable {st : SchedulerState} {w : Window} (hs : Settled s x.node c (w :: ws) (some x) inside.isSome)
  (h : Serving s x.node c st x w) (hl : (c.node x.node).lifecycle.holder.isSome = (st.closing || inside.isSome))
  (hc : st.closing = true → inside.isSome = false)
include hs h hl hc

/-- The ticker, the task and the window change, and the stage remains. -/
theorem Settled.serve {ticker : Schedule.Ticker} {y : Task} {v : Window} (hsound : d.Sound) (hnow : d.now = c.now)
    (hknown : d.nodes.length = c.nodes.length)
    (hframe : (d.node x.node).frame =
      ((c.node x.node).setup, r, (c.node x.node).lifecycle, some { st with ticker }))
    (hactive : r.active = (c.node x.node).repository.active) (hi : ticker.interval = st.ticker.interval)
    (hy : y.node = x.node ∧ y.role = x.role) (hv : (v.interval, v.closed, v.joined) = (w.interval, w.closed, w.joined))
    (hfair : Fair s c.now v)
    (hbody : Ticking y.body ∧ v.running = none ∨ Passing y.body ∧ v.running ≠ none ∨
      Ending y.body ∧ v.running = none ∧ st.closing = true)
    (hawake : st.closing = false → v.running = none → y ∈ d.ready ∨ (ticker.due, y) ∈ d.sleeping)
    (hpaced : st.closing = false → v.Quick c.now → ∃ k, v.Paced ticker.due c.now k) :
    Settled s x.node d (v :: ws) (some y) inside.isSome := by
  obtain ⟨-, hrepository, hlifecycle, hscheduler⟩ := Node.frame_eq hframe
  have hserving : Serving s x.node d { st with ticker } y v :=
    { node := hy.1
      role := hy.2.trans h.role
      scheduler := hscheduler
      phase := h.phase
      interval := hi.trans (h.interval.trans (congrArg (·.1) hv).symm)
      joined := (congrArg (·.2.2) hv).trans h.joined
      closed := (congrArg (·.2.1.isSome) hv).trans h.closed
      running := by rw [hrepository, hactive]; exact h.running
      stopping := by rw [hrepository, hactive]; exact h.stopping
      body := hbody
      awake := hawake
      paced := by rw [hnow]; exact hpaced }
  refine hs.turn hsound hnow hknown hframe (fun u hu => ?_) (.serving hserving ?_ hc)
  · rcases List.mem_cons.1 hu with rfl | hu
    · exact hfair
    · exact hs.windows u (List.mem_cons_of_mem _ hu)
  · rw [hlifecycle]
    exact hl

variable (hr : c.ready = x :: tail) (hm : ∀ r, Manned s ((c.taken tail x.node r).crew x.node) none inside)
include hr hm

/-- A scheduler in a pass goes on with it, or begins another round. -/
theorem step_passing (hb : Passing x.body) (hw : w.running ≠ none) :
    Proceeds s x.node (w :: ws) c.now (c.sign x.node) c.step := by
  have hrun := hb (c.node x.node).repository
  have hframe (r : Repository) := frame_taken hs.known tail r
  rw [h.scheduler] at hframe
  have hfair := hs.windows w (List.mem_cons_self ..)
  cases hx : x.body.run (c.node x.node).repository with
  | finished result r =>
    rw [hx] at hrun
    obtain ⟨hstep, hsign⟩ := step_finished hr hx
    rw [hstep, hsign]
    cases hrun with
    | finished hresult hactive =>
      obtain ⟨begin, hbegin⟩ := Option.ne_none_iff_exists'.1 hw
      rw [hresult, finish_round h.role]
      have hg := Grows.resume (n := x.node) (c := c.taken tail x.node r) hs.sound.taken x
        (round ((c.taken tail x.node r).node x.node).setup)
      let y : Task := { x with body := round ((c.taken tail x.node r).node x.node).setup, pause := .nothing }
      refine ⟨{ w with running := none, passes := w.passes ++ [(begin, c.now)] } :: ws, ?_, some y, inside,
        hs.serve h hl hc hg.sound rfl (hg.known.trans (length_taken ..)) (hg.frame.trans (hframe r)) hactive rfl
          ⟨rfl, rfl⟩ rfl (hfair.ended hbegin) (.inl ⟨ticking_round _, rfl⟩) (fun _ _ => .inl (List.mem_cons_self ..))
          fun ho hq => ?_, ?_⟩
      · rw [Task.shows, if_pos h.role, seen, Window.see, hbegin]
      · obtain ⟨k, hp⟩ := h.paced ho (hq.of_ended hbegin)
        exact ⟨k, hp.ended hbegin (hq.passes (begin, c.now) (List.mem_append_right _ (List.mem_singleton_self _)))⟩
      · rw [crew_resume]
        exact (hm r).appoint _
  | asking q r next =>
    rw [hx] at hrun
    obtain ⟨hstep, hsign⟩ := step_asking hr (fun a => ExceptT.mk (next a)) hx
    rw [hstep, hsign]
    cases hrun with
    | asking hq hactive h' =>
      have hknown := (length_taken c tail x.node r).symm ▸ hs.known
      obtain ⟨y, more, new, hg, hcrew, hy, hrole, hb, hmore⟩ :=
        (returns_answer hs.sound.taken hknown hq fun a => ExceptT.mk (next a)).crew s
      rw [shows_of_isFree hq]
      refine ⟨w :: ws, rfl, some y, inside, hs.serve h hl hc hg.sound hg.now (hg.known.trans (length_taken ..))
        (hg.frame.trans (hframe r)) hactive rfl ⟨hy, hrole⟩ rfl hfair (.inr (.inl ⟨hb.passing h', hw⟩))
        (fun _ hn => absurd hn hw) h.paced, ?_⟩
      rw [hcrew]
      exact ((hm r).add hmore).appoint y

section Ticks

variable {next : Bool → Operation Answer} (hw : w.running = none)
include hw

omit hr in
/-- A closed scheduler is told to end. -/
theorem tick_closing (hclosing : st.closing = true) (hend : Ending (next false)) :
    Proceeds s x.node (w :: ws) c.now none
      ((c.taken tail x.node (c.node x.node).repository).resume x (next false)) := by
  have hframe := frame_taken hs.known tail (c.node x.node).repository
  rw [h.scheduler] at hframe
  have hg := Grows.resume (n := x.node) (c := c.taken tail x.node (c.node x.node).repository) hs.sound.taken x
    (next false)
  refine ⟨w :: ws, rfl, some { x with body := next false, pause := .nothing }, inside,
    hs.serve h hl hc hg.sound rfl (hg.known.trans (length_taken ..)) (hg.frame.trans hframe) rfl rfl ⟨rfl, rfl⟩ rfl
      (hs.windows w (List.mem_cons_self ..)) (.inr (.inr ⟨hend, hw, hclosing⟩)) (fun ho => ?_) h.paced, ?_⟩
  · rw [hclosing] at ho
    cases ho
  · rw [crew_resume]
    exact (hm _).appoint _

omit hr in
/-- A scheduler whose ticker is due begins a pass. -/
theorem tick_due (hopen : st.closing = false) (hdue : st.ticker.isDue c.now = true) (hpass : Passing (next true)) :
    Proceeds s x.node (w :: ws) c.now (some .began)
      (((c.taken tail x.node (c.node x.node).repository).setScheduler x.node
        (some { st with ticker := st.ticker.serve c.now })).resume x (next true)) := by
  have hclosed := h.closed_eq_none hopen
  have hfair := hs.windows w (List.mem_cons_self ..)
  have hsound : ((c.taken tail x.node (c.node x.node).repository).setScheduler x.node
      (some { st with ticker := st.ticker.serve c.now })).Sound :=
    hs.sound.taken.setScheduler fun a z ha hz => by
      cases ha
      exact waiting_node hs.sound h.scheduler hz
  have hg := Grows.resume (n := x.node) hsound x (next true)
  refine ⟨{ w with running := some c.now } :: ws, if_pos ⟨hw, hclosed⟩,
    some { x with body := next true, pause := .nothing }, inside,
    hs.serve h hl hc hg.sound rfl (hg.known.trans (length_setScheduler ..))
      (hg.frame.trans (frame_setScheduler hs.known tail _ _)) rfl rfl ⟨rfl, rfl⟩ rfl
      ⟨hfair.policy, fun hn => absurd hclosed hn⟩ (.inr (.inl ⟨hpass, Option.some_ne_none _⟩))
      (fun _ hn => nomatch hn) (fun ho hq => ?_), ?_⟩
  · obtain ⟨k, hp⟩ := h.paced ho ⟨hq.passes, fun b hb => by rw [hw] at hb; cases hb⟩
    exact ⟨k + 1, hp.served h.interval hw (of_decide_eq_true hdue)⟩
  · rw [crew_resume, crew_setScheduler hs.known]
    exact (hm _).appoint _

omit hr in
/-- A scheduler whose ticker is not due sleeps until it is. -/
theorem tick_early (hend : Ending (next false)) (hpass : Passing (next true)) :
    Proceeds s x.node (w :: ws) c.now none
      ((c.taken tail x.node (c.node x.node).repository).sleepUntil st.ticker.due
        { x with body := asking .tick next, pause := .tick }) := by
  have hframe := frame_taken hs.known tail (c.node x.node).repository
  rw [h.scheduler] at hframe
  have hg := Grows.sleepUntil (n := x.node) (c := c.taken tail x.node (c.node x.node).repository) hs.sound.taken
    st.ticker.due { x with body := asking .tick next, pause := .tick }
  refine ⟨w :: ws, rfl, some { x with body := asking .tick next, pause := .tick }, inside,
    hs.serve h hl hc hg.sound rfl (hg.known.trans (length_taken ..)) (hg.frame.trans hframe) rfl rfl ⟨rfl, rfl⟩ rfl
      (hs.windows w (List.mem_cons_self ..)) (.inl ⟨⟨next, fun _ => rfl, hend, hpass⟩, hw⟩)
      (fun _ _ => .inr (List.mem_append_right _ (List.mem_cons_self ..))) h.paced, ?_⟩
  rw [hg.crew_put rfl]
  exact (hm _).appoint _

end Ticks

/-- A scheduler begins a pass when its ticker is due, and none after it was closed. -/
theorem step_ticking (hb : Ticking x.body) (hw : w.running = none) :
    Proceeds s x.node (w :: ws) c.now (c.sign x.node) c.step := by
  obtain ⟨next, hrun, hend, hpass⟩ := hb
  obtain ⟨hstep, hsign⟩ := step_asking (q := .tick) hr next (hrun _)
  have hscheduler : ((c.taken tail x.node (c.node x.node).repository).node x.node).scheduler = some st :=
    (scheduler_taken hs.known tail _).trans h.scheduler
  rw [hstep, hsign, Node.shows, h.scheduler]
  show Proceeds _ _ _ _ (if _ then _ else _) (answerTick _ _ _)
  unfold answerTick
  rw [hscheduler]
  dsimp only
  by_cases hclosing : st.closing = true
  · rw [if_neg (by simp [hclosing]), if_pos hclosing]
    exact tick_closing hs h hl hc hm hw hclosing hend
  rw [if_neg hclosing]
  show Proceeds _ _ _ _ _ (if st.ticker.isDue c.now = true then _ else _)
  by_cases hdue : st.ticker.isDue c.now = true
  · rw [if_pos (by simp [hclosing, hdue]), if_pos hdue]
    exact tick_due hs h hl hc hm hw (Bool.eq_false_iff.2 hclosing) hdue hpass
  · rw [if_neg (by simp [hdue]), if_neg hdue]
    exact tick_early hs h hl hc hm hw hend hpass

/-- A scheduler that was closed ends, and the task that waits for that is to go on. -/
theorem step_ending (hb : Ending x.body) (hw : w.running = none) (hclosing : st.closing = true) :
    Proceeds s x.node (w :: ws) c.now (c.sign x.node) c.step := by
  obtain ⟨hstep, hsign⟩ := step_finished hr (hb _)
  obtain ⟨hactive, y, hy, hrole, hhalting⟩ := h.stopping hclosing
  obtain rfl := Option.not_isSome_iff_eq_none.1 (Bool.eq_false_iff.1 (hc hclosing))
  have hyn : y.node = x.node := waiting_node hs.sound h.scheduler hy
  have hscheduler : ((c.taken tail x.node (c.node x.node).repository).node x.node).scheduler = some st :=
    (scheduler_taken hs.known tail _).trans h.scheduler
  rw [hstep, hsign, finish_last h.role, endScheduler, hscheduler]
  dsimp only
  rw [hy]
  let st' : SchedulerState := { st with phase := .ended, waiting := none }
  have hsound : ((c.taken tail x.node (c.node x.node).repository).setScheduler x.node (some st')).Sound :=
    hs.sound.taken.setScheduler fun a z ha hz => by
      cases ha
      cases hz
  have hg := Grows.enqueue (n := x.node) hsound y
  have hframe := hg.frame.trans (frame_setScheduler hs.known tail _ _)
  obtain ⟨-, hrepository, hlifecycle, hscheduler⟩ := Node.frame_eq hframe
  refine ⟨w :: ws, rfl, some y, none, hs.turn hg.sound rfl
    (hg.known.trans (length_setScheduler ..)) hframe hs.windows (.ended ?_ ?_), ?_⟩
  · exact
      { role := hrole
        halting := hhalting
        scheduler := ⟨st', hscheduler, rfl, rfl⟩
        active := (congrArg (·.active) hrepository).trans hactive
        running := hw
        joined := h.joined
        closed := fun hn => by
          have hclosed := h.closed
          rw [hn, hclosing] at hclosed
          cases hclosed }
  · rw [hlifecycle, hl, hclosing]
    rfl
  · rw [hg.crew_put hyn, crew_setScheduler hs.known]
    exact (hm _).appoint y

end Scheduler

/-- The task that closed a scheduler goes on when it has ended. -/
theorem step_over {w : Window} (hs : Settled s x.node c (w :: ws) (some x) false) (h : Over s x.node c x w)
    (hl : (c.node x.node).lifecycle.holder.isSome = true)
    (hr : c.ready = x :: tail) (hm : ∀ r, Manned s ((c.taken tail x.node r).crew x.node) none none) :
    Proceeds s x.node (w :: ws) c.now (c.sign x.node) c.step := by
  obtain ⟨next, hrun, hnext⟩ := h.halting
  obtain ⟨hstep, hsign⟩ := step_asking (q := .halt) hr next (hrun _)
  obtain ⟨st, hst, hphase, -⟩ := h.scheduler
  have hscheduler : ((c.taken tail x.node (c.node x.node).repository).node x.node).scheduler = some st :=
    (scheduler_taken hs.known tail _).trans hst
  rw [hstep, hsign, Node.shows, hst]
  show Proceeds _ _ _ _ _ (answerHalt _ _ _)
  unfold answerHalt
  rw [hscheduler]
  dsimp only [Option.bind]
  rw [hphase]
  have hsound : ((c.taken tail x.node (c.node x.node).repository).setScheduler x.node none).Sound :=
    hs.sound.taken.setScheduler fun a z ha _ => nomatch ha
  have hframe := frame_setScheduler hs.known tail (c.node x.node).repository none
  obtain ⟨-, hrepository, hlifecycle, hgone⟩ := Node.frame_eq hframe
  refine ⟨{ w with joined := true } :: ws, if_pos ⟨h.closed, h.running, h.joined⟩, Settled.resume
    (hs.turn hsound rfl (length_setScheduler ..) hframe (fun v hv => ?_)
      (.idle hgone (fun p hp => ?_) (fun v hv => ?_) (by rw [hlifecycle]; exact hl))) ?_ h.role (hnext _)⟩
  · rcases List.mem_cons.1 hv with rfl | hv
    · have hfair := hs.windows w (List.mem_cons_self ..)
      exact ⟨hfair.policy, fun hn hq => hfair.punctual hn ⟨hq.passes, hq.running⟩⟩
    · exact hs.windows v (List.mem_cons_of_mem _ hv)
  · rw [hrepository, h.active] at hp
    cases hp
  · cases hv
    rfl
  · rw [crew_setScheduler hs.known]
    exact hm _

/-! ## Tasks of other nodes -/

theorem crew_pop_of_ne (hr : c.ready = t :: tail) (hn : n ≠ t.node) : c.crew n = crew { c with ready := tail } n := by
  show Multiset.filter _ (Multiset.ofList c.ready + _) + _ = Multiset.filter _ (Multiset.ofList tail + _) + _
  rw [hr, ← Multiset.cons_coe, Multiset.cons_add, filter_node_cons_of_ne hn]
  rfl

theorem Settled.pop_of_ne (hs : Settled s n c ws special held) (hr : c.ready = t :: tail) (hn : n ≠ t.node) :
    Settled s n { c with ready := tail } ws special held := by
  refine ⟨⟨hs.sound.housed, hs.sound.sorted, hs.sound.crashing⟩, hs.known, hs.setup, hs.queue, hs.windows,
    hs.stage.keep rfl rfl rfl rfl (fun x hx hxn _ => ?_) fun _ he _ => he⟩
  rw [hr] at hx
  rcases List.mem_cons.1 hx with rfl | hx
  · exact absurd hxn.symm hn
  · exact hx

/-! ## All tasks -/

/-- Whatever task goes on fits to the windows. -/
theorem Scheduled.step (h : Scheduled s n c ws) (hr : c.ready ≠ []) : Proceeds s n ws c.now (c.sign n) c.step := by
  obtain ⟨t, tail, hr⟩ := List.exists_cons_of_ne_nil hr
  by_cases hn : n = t.node
  · subst hn
    obtain ⟨special, inside, hs, hm⟩ := h
    have hcrew (r : Repository) := crew_taken_eq hs.known tail (c.node t.node).repository r
    rw [crew_taken hs.known hr (c.node t.node).repository] at hm
    -- The task is the one that the stage is about, the one inside the lock, or any other.
    rcases hm.pop with ⟨rfl, hrest⟩ | ⟨rfl, ht, hrest⟩ | ⟨ht, hrest⟩
    · have hrest (r : Repository) := hcrew r ▸ hrest
      have hstage := hs.stage
      generalize hheld : inside.isSome = held at hstage
      cases hstage with
      | @serving _ _ st _ w h hl hc =>
        subst hheld
        rcases h.body with ⟨hb, hw⟩ | ⟨hb, hw⟩ | ⟨hb, hw, hclosing⟩
        · exact step_ticking hs h hl hc hr hrest hb hw
        · exact step_passing hs h hl hc hr hrest hb hw
        · exact step_ending hs h hl hc hr hrest hb hw hclosing
      | ended h hl =>
        obtain rfl := Option.not_isSome_iff_eq_none.1 (Bool.eq_false_iff.1 hheld)
        exact step_over hs h hl hr hrest
    · exact step_inside hs hr (fun r => hcrew r ▸ hrest) ht
    · obtain ⟨hstep, hsign⟩ := step_outside hs hr (fun r => hcrew r ▸ hrest) ht
      rw [hsign]
      exact ⟨ws, rfl, hstep⟩
  · rw [sign_of_ne hr hn]
    obtain ⟨special, inside, hs, hm⟩ := h
    rw [crew_pop_of_ne hr hn] at hm
    have hpop : Scheduled s n { c with ready := tail } ws := ⟨special, inside, hs.pop_of_ne hr hn, hm⟩
    exact ⟨ws, rfl, hpop.grow (grows_step_of_ne hs.sound hr hn) fun x hx => absurd hx (Multiset.notMem_zero x)⟩

end DurableAggregates.Cluster
