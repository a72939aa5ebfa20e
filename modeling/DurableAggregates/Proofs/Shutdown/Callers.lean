import DurableAggregates.Proofs.Interleaving.Stops
import DurableAggregates.Proofs.Shutdown.Waits

/-!
# The turns of a caller

What happens on an uninterrupted course when it is the turn of the only task that somebody waits for (`Heads`): most
requests are answered at once and it goes on (`Turned`), after a sleep it goes on when the time has passed
(`Uninterrupted.sleeps`), and at its end it has a result (`Uninterrupted.finishes`). `Passage` says how much time passes
between two of its turns and what the monitor is told, and adds up.
-/

namespace DurableAggregates.Cluster

variable {n i j k a b time time' : Nat} {c d : Cluster} {tail : List Task} {f : Nat → Cluster} {q : Request}
  {r : Repository} {body body' : Operation Answer} {es es' : List RouteError} {st : Option SchedulerState}

/-! ## Passages -/

/-- What the monitor of a node has heard after it was told of errors, the last first. -/
def told (es : List RouteError) (heard : Bool × List RouteError) : Bool × List RouteError :=
  (heard.1, if heard.1 then es ++ heard.2 else heard.2)

@[simp] theorem told_nil (heard : Bool × List RouteError) : told [] heard = heard := by
  simp [told]

theorem told_told (es es' : List RouteError) (heard : Bool × List RouteError) :
    told es' (told es heard) = told (es' ++ es) heard := by
  obtain ⟨monitored, reports⟩ := heard
  cases monitored <;> simp [told]

theorem heard_noting (x : Node) (e : RouteError) : (x.noting e).heard = told [e] x.heard := by
  unfold Node.noting Node.heard told
  split <;> simp_all

/-- Between two points of a course some time passes, the monitor is told of errors, and a task gets no result. -/
structure Passage (f : Nat → Cluster) (n i a b time : Nat) (es : List RouteError) : Prop where
  le : a ≤ b
  now : (f b).now = (f a).now + time
  heard : ((f b).node n).heard = told es ((f a).node n).heard
  pending : ∀ j, a ≤ j → j < b → (f j).result? i = none

theorem Passage.refl (f : Nat → Cluster) (n i a : Nat) : Passage f n i a a 0 [] :=
  ⟨Nat.le_refl a, rfl, (told_nil _).symm, fun _ hle hlt => absurd hlt (Nat.not_lt_of_le hle)⟩

theorem Passage.trans (h : Passage f n i a b time es) (h' : Passage f n i b k time' es') :
    Passage f n i a k (time + time') (es' ++ es) where
  le := h.le.trans h'.le
  now := by rw [h'.now, h.now, Nat.add_assoc]
  heard := by rw [h'.heard, h.heard, told_told]
  pending j hle hlt := (Nat.lt_or_ge j b).elim (h.pending j hle) fun hge => h'.pending j hge hlt

/-! ## Callers -/

/-- A task that is under way has no result. -/
theorem Winding.pending (h : c.Winding n i) {x : Task} (hx : x ∈ (c.view n).tasks) (hid : x.id = i) :
    c.result? i = none := hid ▸ h.tended.pending n h.known x hx

/-- While others have their turns nobody tells the monitor anything, and the task that waits has no result. -/
theorem Aside.passage {x : Task} (hb : Aside n i (f a) (f b)) (hx : x ∈ ((f a).view n).tasks) (hid : x.id = i)
    (hle : a ≤ b) (h : ∀ j, a ≤ j → j < b → Aside n i (f a) (f j)) (hnow : (f b).now = (f a).now + time) :
    Passage f n i a b time [] where
  le := hle
  now := hnow
  heard := by rw [told_nil, hb.heard]
  pending j hj hlt := (h j hj hlt).winding.pending ((h j hj hlt).tasks x hx hid) hid

/-- A task for whose result somebody waits. -/
def caller (n i : Nat) (body : Operation Answer) : Task := { id := i, node := n, role := .awaited, body }

/-- It is the turn of the only task that somebody waits for. -/
structure Heads (n i : Nat) (body : Operation Answer) (c : Cluster) : Prop where
  winding : c.Winding n i
  head : ∃ tail, c.ready = caller n i body :: tail

theorem mem_tasks_of_ready {x : Task} (hx : x ∈ c.ready) : x ∈ (c.view x.node).tasks :=
  View.mem_tasks.2 (.inl (mem_queued_view.2 ⟨Multiset.mem_add.2 (.inl hx), rfl⟩))

namespace Heads

variable (h : Heads n i body c)
include h

theorem mem : caller n i body ∈ (c.view n).tasks := by
  obtain ⟨tail, hr⟩ := h.head
  exact mem_tasks_of_ready (x := caller n i body) (hr ▸ List.mem_cons_self ..)

theorem pending : c.result? i = none := h.winding.pending h.mem rfl

theorem veers (hv : c.Veers d) : Heads n i body d :=
  ⟨h.winding.drift hv.drifts (hv.inOrder h.winding.inOrder), by rw [hv.ready]; exact h.head⟩

/-- Nobody else is inside the lifecycle lock that the task asks for. -/
theorem lifecycle_free {next : Unit → Operation Answer}
    (hrun : body.run (c.node n).repository = .asking (.acquire .lifecycle) r fun a => (next a).run) :
    (c.node n).lifecycle.holder = none := by
  obtain ⟨hordered, -⟩ := h.winding.tended.views n h.winding.known
  refine Option.eq_none_iff_forall_ne_some.2 fun k hk => ?_
  have hin : k ∈ ((c.view n).node.lock .lifecycle).ids := View.mem_ids_of_holder (l := .lifecycle) hk
  obtain ⟨x, hx, rfl⟩ := hordered.known .lifecycle k hin
  have hinside : (c.view n).within .lifecycle x = true := decide_eq_true hin
  have hx' := hordered.conduct x hx
  rw [hinside] at hx'
  have hrole : x.role = .awaited := Decidable.byContradiction fun hne => Bool.noConfusion (hx'.outside hne)
  have hid : x.id = i := by
    rcases h.winding.alone x (mem_crowd.2 ⟨n, h.winding.known, hx⟩) with hid | hr | ⟨hr, -⟩
    · exact hid
    · exact absurd (hrole.symm.trans hr) Role.noConfusion
    · exact absurd (hrole.symm.trans hr) Role.noConfusion
  obtain rfl : x = caller n i body := hordered.eq_of_id hx h.mem hid
  have hconducts := hx'.of_not_halting (not_halting hrun Request.noConfusion)
  exact absurd (hconducts.acquires hrun).1 Bool.noConfusion

/-- A task that goes on at once heads the queue again. -/
theorem goes {next : q.Answer → Operation Answer} (hr : c.ready = caller n i body :: tail)
    (hrun : body.run (c.node n).repository = .asking q r fun a => (next a).run) (hq : ∀ interval, q ≠ .launch interval)
    (hd : (c.taken tail n r).answer (caller n i body) q next = d.resume (caller n i body) body') :
    Heads n i body' c.step ∧ c.step.node n = d.node n := by
  have hstep : c.step = d.resume (caller n i body) body' := (step_asking hr next hrun).1.trans hd
  refine ⟨⟨h.winding.step hr fun interval r' next' hrun' => ?_, d.ready, by rw [hstep]; rfl⟩, by rw [hstep]; rfl⟩
  cases hrun.symm.trans hrun'
  exact hq interval rfl

end Heads

/-! ## Requests that are answered at once -/

/-- The task goes on in no time, and the repository and the scheduler are as it has left them. -/
structure Turned (f : Nat → Cluster) (n i j : Nat) (body : Operation Answer) (es : List RouteError) (r : Repository)
    (st : Option SchedulerState) : Prop where
  heads : Heads n i body (f (j + 1))
  passage : Passage f n i j (j + 1) 0 es
  repository : ((f (j + 1)).node n).repository = r
  scheduler : ((f (j + 1)).node n).scheduler = st

theorem heard_setLock (x : Node) (l : Lock) (s : LockState) : (x.setLock l s).heard = x.heard := by
  cases l <;> rfl

theorem Veers.heard (hv : c.Veers d) (n : Nat) : (d.node n).heard = (c.node n).heard := by
  rw [(hv.drifts.nodes n).same]
  rfl

theorem Node.Drifts.join? {x y : Node} (h : x.Drifts y) : y.join? = x.join? := by
  rw [Node.join?, Node.join?, h.scheduler]

theorem known_taken (hn : n < c.nodes.length) (tail : List Task) (r : Repository) :
    n < (c.taken tail n r).nodes.length := by
  rw [taken, setRepository, length_modifyNode]
  exact hn

theorem node_release (hn : n < c.nodes.length) (l : Lock) : ∃ s, (c.release n l).node n = (c.node n).setLock l s := by
  unfold Cluster.release
  dsimp only
  split
  · exact ⟨_, node_modifyNode hn _⟩
  · exact ⟨_, node_modifyNode hn _⟩

namespace Uninterrupted

variable (hf : Uninterrupted f) (h : Heads n i body (f j))
include hf h

/-- When it is its turn, a task has it next. -/
theorem takes :
    ∃ d tail, (f j).Veers d ∧ Heads n i body d ∧ d.ready = caller n i body :: tail ∧ f (j + 1) = d.step := by
  obtain ⟨d, hv, hd⟩ := hf j
  have hheads := h.veers hv
  obtain ⟨tail, hr⟩ := hheads.head
  refine ⟨d, tail, hv, hheads, hr, ?_⟩
  rw [hd, Cluster.proceed, hr]
  rfl

/-- A turn takes no time. -/
theorem passes (hheard : ((f (j + 1)).node n).heard = told es ((f j).node n).heard) : Passage f n i j (j + 1) 0 es := by
  obtain ⟨d, tail, hv, -, -, hstep⟩ := hf.takes h
  refine ⟨Nat.le_succ j, ?_, hheard, fun k hle hlt => ?_⟩
  · rw [hstep, now_step, hv.now, Nat.add_zero]
  · rw [Nat.le_antisymm (Nat.le_of_lt_succ hlt) hle]
    exact h.pending

theorem turned {next : q.Answer → Operation Answer}
    (hrun : body.run ((f j).node n).repository = .asking q r fun a => (next a).run)
    (hq : ∀ interval, q ≠ .launch interval)
    (hanswer : ∀ d tail, Heads n i body d → ((f j).node n).Drifts (d.node n) →
      ∃ e : Cluster, (d.taken tail n r).answer (caller n i body) q next = e.resume (caller n i body) body' ∧
        (e.node n).heard = told es (d.node n).heard ∧ (e.node n).repository = r ∧ (e.node n).scheduler = st) :
    Turned f n i j body' es r st := by
  obtain ⟨d, tail, hv, hheads, hr, hstep⟩ := hf.takes h
  obtain ⟨e, he, hheard, hrepository, hscheduler⟩ := hanswer d tail hheads (hv.drifts.nodes n)
  rw [← (hv.drifts.nodes n).repository] at hrun
  obtain ⟨hheads', hnode⟩ := hheads.goes hr hrun hq he
  rw [← hstep] at hheads' hnode
  exact ⟨hheads', hf.passes h (by rw [hnode, hheard, hv.heard]), by rw [hnode, hrepository], by rw [hnode, hscheduler]⟩

theorem acquires (next : Unit → Operation Answer)
    (hrun : body.run ((f j).node n).repository = .asking (.acquire .lifecycle) r fun a => (next a).run) :
    Turned f n i j (next ()) [] r ((f j).node n).scheduler := by
  refine hf.turned h hrun (fun _ => Request.noConfusion) fun d tail hheads hd => ?_
  rw [← hd.repository] at hrun
  have hnode := node_taken hheads.winding.known tail r
  have hfree : (((d.taken tail n r).node (caller n i body).node).lock .lifecycle).holder = none := by
    rw [show (caller n i body).node = n from rfl, hnode]
    exact hheads.lifecycle_free hrun
  refine ⟨(d.taken tail n r).modifyNode n (·.setLock .lifecycle
    { ((d.taken tail n r).node n).lock .lifecycle with holder := some i }), ?_, ?_⟩
  · show Cluster.acquire _ _ _ _ = _
    unfold Cluster.acquire
    dsimp only
    rw [hfree]
    rfl
  · rw [node_modifyNode (known_taken hheads.winding.known tail r), heard_setLock, Node.repository_setLock,
      Node.scheduler_setLock, hnode, told_nil]
    exact ⟨rfl, rfl, hd.scheduler⟩

theorem reports {e : RouteError} (next : Unit → Operation Answer)
    (hrun : body.run ((f j).node n).repository = .asking (.report e) r fun a => (next a).run) :
    Turned f n i j (next ()) [e] r ((f j).node n).scheduler := by
  refine hf.turned h hrun (fun _ => Request.noConfusion) fun d tail hheads hd => ?_
  have hnode := node_taken hheads.winding.known tail r
  have hn := known_taken hheads.winding.known tail r
  obtain ⟨-, -, hscheduler, hrepository⟩ := View.Tended.noting_node { d.node n with repository := r } e
  refine ⟨(d.taken tail n r).answerReport n e, rfl, ?_⟩
  rw [answerReport, node_modifyNode hn, hnode]
  exact ⟨heard_noting _ e, hrepository, hscheduler.trans hd.scheduler⟩

theorem releases {l : Lock} (next : Unit → Operation Answer)
    (hrun : body.run ((f j).node n).repository = .asking (.release l) r fun a => (next a).run) :
    Turned f n i j (next ()) [] r ((f j).node n).scheduler := by
  refine hf.turned h hrun (fun _ => Request.noConfusion) fun d tail hheads hd => ?_
  have hnode := node_taken hheads.winding.known tail r
  have hn := known_taken hheads.winding.known tail r
  obtain ⟨s, hs⟩ := node_release hn l
  refine ⟨(d.taken tail n r).release n l, rfl, ?_⟩
  rw [hs, heard_setLock, Node.repository_setLock, Node.scheduler_setLock, hnode, told_nil]
  exact ⟨rfl, rfl, hd.scheduler⟩

/-- Who asks for the end of a scheduler that has ended gets to know how. -/
theorem joins {next : Except String Unit → Operation Answer} {outcome : Except String Unit}
    (hrun : body.run ((f j).node n).repository = .asking .halt r fun a => (next a).run)
    (hjoin : ((f j).node n).join? = some outcome) : Turned f n i j (next outcome) [] r none := by
  refine hf.turned h hrun (fun _ => Request.noConfusion) fun d tail hheads hd => ?_
  have hnode := node_taken hheads.winding.known tail r
  have hn := known_taken hheads.winding.known tail r
  have hset : (((d.taken tail n r).setScheduler n none).node n).heard = told [] (d.node n).heard ∧
      (((d.taken tail n r).setScheduler n none).node n).repository = r ∧
      (((d.taken tail n r).setScheduler n none).node n).scheduler = none := by
    rw [setScheduler, node_modifyNode hn, hnode, told_nil]
    exact ⟨rfl, rfl, rfl⟩
  have hscheduler : ((d.taken tail n r).node (caller n i body).node).scheduler = (d.node n).scheduler := by
    rw [show (caller n i body).node = n from rfl, hnode]
  rw [← hd.join?, Node.join?] at hjoin
  show ∃ e : Cluster, (d.taken tail n r).answerHalt _ _ = _ ∧ _
  unfold answerHalt
  rw [hscheduler]
  cases hs : (d.node n).scheduler with
  | none =>
    rw [hs] at hjoin
    cases hjoin
    refine ⟨d.taken tail n r, rfl, ?_⟩
    rw [hnode, told_nil]
    exact ⟨rfl, rfl, hs⟩
  | some st =>
    rw [hs] at hjoin
    dsimp only at hjoin ⊢
    cases hphase : st.phase with
    | alive =>
      rw [hphase] at hjoin
      cases hjoin
    | ended =>
      rw [hphase] at hjoin
      cases hjoin
      exact ⟨_, rfl, hset⟩
    | crashed detail =>
      rw [hphase] at hjoin
      cases hjoin
      exact ⟨_, rfl, hset⟩

/-! ## Waiting -/

/-- A task that sleeps has its next turn when the time has passed. -/
theorem sleeps (next : Unit → Operation Answer) (htime : time ≠ 0)
    (hrun : body.run ((f j).node n).repository = .asking (.sleep time) ((f j).node n).repository fun a => (next a).run)
    (hq : ((f j).node n).Quiet) :
    ∃ b, Heads n i (next ()) (f b) ∧ Passage f n i j b time [] ∧ ((f b).node n).Quiet := by
  obtain ⟨d, tail, hv, hheads, hr, hstep⟩ := hf.takes h
  have hd := hv.drifts.nodes n
  rw [← hd.repository] at hrun
  have hsleep : d.step = (d.taken tail n (d.node n).repository).sleepUntil (d.now + time) (caller n i (next ())) := by
    rw [(step_asking (t := caller n i body) hr (q := .sleep time) next hrun).1]
    show (if time = 0 then _ else _) = _
    rw [if_neg htime]
    rfl
  have hwinding : d.step.Winding n i := hheads.winding.step hr fun _ _ _ hrun' => nomatch hrun.symm.trans hrun'
  have hnode : d.step.node n = d.node n := by
    rw [hsleep]
    exact node_taken hheads.winding.known tail _
  have hquiet : (d.step.node n).Quiet := hnode ▸ hq.drift hd
  have hdue : Due (d.now + time) (caller n i (next ())) d.step := by
    rw [hsleep]
    exact .inr ⟨List.mem_append_right _ (List.mem_cons_self ..), Nat.le_add_right ..⟩
  rw [← hstep] at hwinding hquiet hdue hnode
  obtain ⟨b, hab, hhead, hnow, haside, hall⟩ := hf.served hwinding hquiet.active hdue rfl Pause.noConfusion
  have hmem : caller n i (next ()) ∈ ((f (j + 1)).view n).tasks :=
    View.mem_tasks.2 (.inl (mem_queued_view.2 ⟨hdue.mem_queued, rfl⟩))
  have hturn : Passage f n i j (j + 1) 0 [] := hf.passes h (by rw [hnode, hv.heard, told_nil])
  have hwait : Passage f n i (j + 1) b time [] :=
    haside.passage hmem rfl hab hall (by rw [hnow, hturn.now, hv.now, Nat.add_zero])
  have hjoin : ((f (j + 1)).node n).join? ≠ none := by
    rw [Node.join?, hquiet.scheduler]
    exact Option.some_ne_none _
  refine ⟨b, ⟨haside.winding, List.head?_eq_some_iff.1 hhead⟩, ?_, haside.active, ?_⟩
  · simpa using hturn.trans hwait
  · exact (haside.ended hjoin).1.trans hquiet.scheduler

/-- Who closes a scheduler waits for its end, and then goes on at once. -/
theorem halts {next : Except String Unit → Operation Answer}
    (hrun : body.run ((f j).node n).repository = .asking .halt r fun a => (next a).run) (hr : r.active = none)
    (halive : ((f j).node n).join? = none) (hout : ∀ engine, ¬Operation.Guarded engine true false (asking .halt next)) :
    ∃ a b, (∀ k, j ≤ k → k < a → ((f k).node n).join? = none) ∧ ((f a).node n).join? ≠ none ∧
      (∃ time, Passage f n i j a time []) ∧ Passage f n i a b 0 [] ∧ Heads n i (asking .halt next) (f b) ∧
      ((f b).node n).repository.active = none ∧ ((f b).node n).scheduler = ((f a).node n).scheduler := by
  obtain ⟨d, tail, hv, hheads, hready, hstep⟩ := hf.takes h
  have hd := hv.drifts.nodes n
  rw [← hd.repository] at hrun
  obtain ⟨st, hst, hphase⟩ := Node.join?_eq_none.1 (hd.join?.trans halive)
  have hhalt : d.step = ((d.taken tail n r).setScheduler n (some { st with
      closing := true, waiting := some (caller n i (asking .halt next)) })).wakeScheduler n := by
    rw [(step_asking (t := caller n i body) hready (q := .halt) next hrun).1]
    show answerHalt _ _ _ = _
    unfold answerHalt
    rw [show (caller n i body).node = n from rfl, node_taken hheads.winding.known]
    dsimp only
    rw [hst]
    dsimp only
    rw [hphase]
    rfl
  have hwinding : d.step.Winding n i := hheads.winding.step hready fun _ _ _ hrun' => nomatch hrun.symm.trans hrun'
  have hnode : d.step.node n = { d.node n with
      repository := r
      scheduler := some { st with closing := true, waiting := some (caller n i (asking .halt next)) } } := by
    rw [hhalt]
    show ((d.taken tail n r).setScheduler n _).node n = _
    rw [setScheduler, node_modifyNode (known_taken hheads.winding.known tail r), node_taken hheads.winding.known]
  rw [← hstep] at hwinding hnode
  have hactive : ((f (j + 1)).node n).repository.active = none := by rw [hnode]; exact hr
  have hscheduler : ((f (j + 1)).node n).scheduler =
      some { st with closing := true, waiting := some (caller n i (asking .halt next)) } := by rw [hnode]
  have hmem : caller n i (asking .halt next) ∈ ((f (j + 1)).view n).tasks :=
    View.mem_tasks.2 (.inr (mem_waiters.2 (.inr (.inr ⟨_, hscheduler, rfl⟩))))
  obtain ⟨a, hja, hjoin, hready, haside, hall⟩ := hf.closes hwinding hactive hscheduler hphase rfl rfl hout
  obtain ⟨b, hab, hhead, hnow, haside', hall'⟩ :=
    hf.served haside.winding haside.active (.inl ⟨hready, rfl⟩) rfl Pause.noConfusion
  have hturn : Passage f n i j (j + 1) 0 [] := hf.passes h (by rw [hnode, told_nil, ← hv.heard]; rfl)
  have hwait := haside.passage hmem rfl hja (fun k hk hlt => (hall k hk hlt).1) (Nat.add_sub_of_le haside.now).symm
  refine ⟨a, b, fun k hle hlt => ?_, hjoin, ⟨_, hturn.trans hwait⟩,
    haside'.passage (mem_tasks_of_ready (x := caller n i (asking .halt next)) hready) rfl hab hall' hnow,
    ⟨haside'.winding, List.head?_eq_some_iff.1 hhead⟩, haside'.active, (haside'.ended hjoin).1⟩
  rcases Nat.eq_or_lt_of_le hle with rfl | hle
  · exact halive
  · exact (hall k hle hlt).2

/-- At its end a task has a result. -/
theorem finishes {result : Except RepositoryError Answer}
    (hrun : body.run ((f j).node n).repository = .finished result r) :
    (f (j + 1)).result? i = some (.ofExcept result) ∧ (f (j + 1)).Winding n i ∧ Passage f n i j (j + 1) 0 [] ∧
      ((f (j + 1)).node n).repository = r ∧ ((f (j + 1)).node n).scheduler = ((f j).node n).scheduler := by
  obtain ⟨d, tail, hv, hheads, hready, hstep⟩ := hf.takes h
  have hd := hv.drifts.nodes n
  rw [← hd.repository] at hrun
  have hfinish : d.step = (d.taken tail n r).finish (caller n i body) result :=
    (step_finished (t := caller n i body) hready hrun).1
  have hwinding : d.step.Winding n i := hheads.winding.step hready fun _ _ _ hrun' => nomatch hrun.symm.trans hrun'
  have hnode : d.step.node n = { d.node n with repository := r } := by
    rw [hfinish]
    exact node_taken hheads.winding.known tail r
  have hresult : d.step.result? i = some (.ofExcept result) := by
    rw [hfinish]
    show ((i, Result.ofExcept result) :: d.results).lookup i = _
    rw [List.lookup_cons, beq_self_eq_true]
  rw [← hstep] at hwinding hnode hresult
  exact ⟨hresult, hwinding, hf.passes h (by rw [hnode, told_nil, ← hv.heard]; rfl), by rw [hnode],
    by rw [hnode]; exact hd.scheduler⟩

end Uninterrupted

/-! ## After the end -/

/-- A result stays. -/
theorem Tended.result_proceed (h : c.Tended) {result : Result} (hr : c.result? i = some result) :
    c.proceed.result? i = some result := by
  cases hready : c.ready with
  | nil =>
    rw [Cluster.proceed, hready, List.isEmpty_nil, if_pos rfl, result?, (drifts_wakeNext c).results]
    exact hr
  | cons t tail =>
    obtain ⟨hn, v, w, k, rs, hview, -, -, hb⟩ := h.turn hready
    have hpending := h.pending t.node hn t (hview ▸ View.mem_put v t)
    have hne : i ≠ t.id := fun he => by
      rw [he, hpending] at hr
      cases hr
    rw [Cluster.proceed, hready, List.isEmpty_cons, if_neg Bool.false_ne_true, result?, hb.results,
      lookup_noted t _ _ hne]
    exact hr

/-- What happens after the end of the task does not concern it. -/
theorem Uninterrupted.after (hf : Uninterrupted f) (h : (f b).Winding n i)
    (ha : ((f b).node n).repository.active = none) {result : Result} (hr : (f b).result? i = some result)
    (hle : b ≤ j) : Aside n i (f b) (f j) ∧ (f j).result? i = some result := by
  induction j, hle using Nat.le_induction with
  | base => exact ⟨.refl h ha, hr⟩
  | succ j _ ih =>
    obtain ⟨haside, hr⟩ := ih
    obtain ⟨d, hv, hd⟩ := hf j
    have htended := haside.winding.tended
    have hhead (t : Task) (tail : List Task) (ht : (f j).ready = t :: tail) : t.id ≠ i := fun hid => by
      have hn := htended.known t (Multiset.mem_add.2 (.inl (by rw [ht]; exact List.mem_cons_self ..)))
      have hpending := htended.pending t.node hn t (mem_tasks_of_ready (by rw [ht]; exact List.mem_cons_self ..))
      rw [hid, hr] at hpending
      cases hpending
    rw [hd]
    refine ⟨haside.trans (.moves haside.winding haside.active hv hhead), (htended.drift hv.drifts).result_proceed ?_⟩
    rw [result?, hv.drifts.results]
    exact hr

end DurableAggregates.Cluster
