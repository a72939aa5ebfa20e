import DurableAggregates.Proofs.Schedule.Steps

/-!
# Histories

Whatever may happen to a cluster in which no call crashes: tasks are begun at any time, they go on one after another in
the order of the queue, and time passes when no task can go on. In any such `History` the signs of the schedule of a
node are in the order of time, and fit to each other (`History.scheduled`).
-/

namespace DurableAggregates.Cluster

open Schedule (Sign Window)

variable {s : Setup} {n : Nat} {c d : Cluster} {ws : List Window} {log : List (Nat × Sign)}

/-! ## Time passes -/

theorem Fair.later {now later : Nat} {w : Window} (h : Fair s now w) (hle : now ≤ later) : Fair s later w :=
  ⟨h.policy, fun hc hq => (h.punctual hc (hq.of_le hle)).of_closed hc later⟩

theorem wakeNext_of_cons {time : Nat} {t : Task} {rest : List (Nat × Task)} (hs : c.sleeping = (time, t) :: rest) :
    c.wakeNext = { c with
      now := max c.now time
      ready := c.ready ++ (c.sleeping.takeWhile (·.1 ≤ time)).map (·.2)
      sleeping := c.sleeping.dropWhile (·.1 ≤ time) } := by
  rw [wakeNext, hs]

/-- When no task can go on, a scheduler that is not in a pass sleeps until its ticker is due. -/
theorem Serving.wake {st : SchedulerState} {x : Task} {w : Window} (h : Serving s n c st x w) (hsound : c.Sound)
    (hr : c.ready = []) {time : Nat} {t : Task} {rest : List (Nat × Task)} (hs : c.sleeping = (time, t) :: rest) :
    Serving s n c.wakeNext st x w := by
  have hasleep (ho : st.closing = false) (hn : w.running = none) : (st.ticker.due, x) ∈ c.sleeping := by
    refine (h.awake ho hn).resolve_left fun hx => ?_
    rw [hr] at hx
    cases hx
  rw [wakeNext_of_cons hs]
  refine { h with awake := fun ho hn => ?_, paced := fun ho hq => ?_ }
  · have hx := hasleep ho hn
    rw [← List.takeWhile_append_dropWhile (p := (·.1 ≤ time)) (l := c.sleeping)] at hx
    rcases List.mem_append.1 hx with hx | hx
    · exact .inl (List.mem_append_right _ (List.mem_map.2 ⟨_, hx, rfl⟩))
    · exact .inr hx
  · have hle : c.now ≤ max c.now time := Nat.le_max_left ..
    obtain ⟨k, hp⟩ := h.paced ho (hq.of_le hle)
    -- The first sleeper wakes no later than the scheduler, so its ticker is not missed.
    refine ⟨k, hp.wait hle fun hn => Nat.max_le.2 ⟨hp.le_due hn, ?_⟩⟩
    have hsorted := hsound.sorted
    have hx := hasleep ho hn
    rw [hs] at hsorted hx
    rcases List.mem_cons.1 hx with hx | hx
    · exact Nat.le_of_eq (congrArg (·.1) hx).symm
    · exact (List.pairwise_cons.1 hsorted).1 _ hx

theorem Settled.wake {special : Option Task} {held : Bool} (h : Settled s n c ws special held) (hr : c.ready = [])
    {time : Nat} {t : Task} {rest : List (Nat × Task)} (hs : c.sleeping = (time, t) :: rest) :
    Settled s n c.wakeNext ws special held := by
  have hwake := wakeNext_of_cons hs
  have hnode : c.wakeNext.node n = c.node n := by
    rw [hwake]
    rfl
  refine ⟨?_, ?_, by rw [hnode]; exact h.setup, by rw [hnode]; exact h.queue, fun w hw => ?_, ?_⟩
  · rw [hwake]
    exact ⟨h.sound.housed, h.sound.sorted.sublist (List.dropWhile_sublist _), h.sound.crashing⟩
  · rw [hwake]
    exact h.known
  · rw [hwake]
    exact (h.windows w hw).later (Nat.le_max_left ..)
  · cases h.stage with
    | idle hs ha hj hl => exact .idle (by rw [hnode]; exact hs) (by rw [hnode]; exact ha) hj (by rw [hnode]; exact hl)
    | serving hserving hl hc => exact .serving (hserving.wake h.sound hr hs) (by rw [hnode]; exact hl) hc
    | ended hover hl =>
      refine .ended { hover with scheduler := ?_, active := ?_ } (by rw [hnode]; exact hl)
      · rw [hnode]
        exact hover.scheduler
      · rw [hnode]
        exact hover.active

theorem Scheduled.wake (h : Scheduled s n c ws) (hr : c.ready = []) : Scheduled s n c.wakeNext ws := by
  cases hs : c.sleeping with
  | nil =>
    rw [wakeNext, hs]
    exact h
  | cons e rest =>
    obtain ⟨special, inside, hset, hm⟩ := h
    have hcrew : c.wakeNext.crew n = c.crew n := by
      rw [crew, crew, queued_wakeNext, wakeNext, hs]
      rfl
    exact ⟨special, inside, hset.wake hr hs, hcrew ▸ hm⟩

/-! ## Tasks are begun -/

/-- Whether a step makes calls crash from then on. -/
def Step.crashes : Step → Bool
  | .change (.setCrashing crashing) => crashing
  | .background x => x.crashes
  | _ => false

theorem grows_change (h : c.Sound) {x : Change} (hx : (Step.change x).crashes = false) : Grows n c 0 (c.change x) := by
  cases x with
  | failSink m count => exact .modifyNode h rfl rfl rfl
  | setCrashing crashing =>
    have hcrashing : crashing = false := hx
    exact .same h rfl rfl rfl rfl (hcrashing.trans h.crashing.symm)
  | _ => exact .same h rfl rfl rfl rfl rfl

theorem Scheduled.spawn (h : Scheduled s n c ws) (m : Nat) {body : Operation Answer}
    (hb : m = n → body.Lawful s false false) : Scheduled s n (c.spawn m .awaited body) ws := by
  obtain ⟨_, _, hs, -⟩ := id h
  refine h.grow (.spawn hs.sound m .awaited body) fun t ht hn => ?_
  rw [Multiset.mem_singleton.1 ht] at hn ⊢
  exact ⟨Role.noConfusion, hb hn⟩

/-- What a step begins is lawful. -/
theorem Scheduled.begin (h : Scheduled s n c ws) {x : Step} (hx : x.crashes = false) :
    Scheduled s n (c.begin x).2 ws := by
  obtain ⟨_, _, hs, -⟩ := id h
  induction x with
  | node m x =>
    refine h.spawn m fun hm => ?_
    rw [hm, hs.setup]
    exact x.lawful_task s
  | store x => exact h.spawn 0 fun _ => Operation.Within.lawful x.free_task
  | advance time => exact h.spawn 0 fun _ => Operation.Within.lawful (.bind (.lift (.ask rfl)) fun _ => .pure _)
  | look l => exact h.spawn 0 fun _ => Operation.Within.lawful (.pure _)
  | change x =>
    have hchanged := h.grow (grows_change hs.sound hx) fun t ht => absurd ht (Multiset.notMem_zero t)
    exact hchanged.spawn 0 fun _ => Operation.Within.lawful (.pure _)
  | background x ih => exact ih hx
  | join number => exact h

/-! ## Histories -/

/-- A cluster in which nothing has begun yet. -/
structure Fresh (c : Cluster) : Prop where
  ready : c.ready = []
  sleeping : c.sleeping = []
  crashing : c.crashing = false
  nodes : ∀ x ∈ c.nodes, x.repository.active = none ∧ x.lifecycle = {} ∧ x.pass = {} ∧ x.scheduler = none

/--
What may happen to a cluster, with the signs of the schedule of a node: the next task goes on, time passes if no task
can go on, and at any time a step may be begun and may be left to run in the background.
-/
inductive History (n : Nat) (c₀ : Cluster) : List (Nat × Sign) → Cluster → Prop where
  | start : History n c₀ [] c₀
  | step {log : List (Nat × Sign)} {c : Cluster} (h : History n c₀ log c) (hr : c.ready ≠ []) :
      History n c₀ (log ++ (c.sign n).toList.map (c.now, ·)) c.step
  | wake {log : List (Nat × Sign)} {c : Cluster} (h : History n c₀ log c) (hr : c.ready = []) :
      History n c₀ log c.wakeNext
  | begin {log : List (Nat × Sign)} {c : Cluster} (h : History n c₀ log c) {x : Step} (hx : x.crashes = false) :
      History n c₀ log (c.begin x).2
  | note {log : List (Nat × Sign)} {c : Cluster} (h : History n c₀ log c) (background : List Nat) :
      History n c₀ log { c with background }

theorem Fresh.node (h : c.Fresh) (m : Nat) : (c.node m).repository.active = none ∧ (c.node m).lifecycle = {} ∧
    (c.node m).pass = {} ∧ (c.node m).scheduler = none := by
  rw [Cluster.node]
  cases hm : c.nodes[m]? with
  | none => exact ⟨rfl, rfl, rfl, rfl⟩
  | some x => exact h.nodes x (List.mem_of_getElem? hm)

theorem Fresh.scheduled (h : c.Fresh) (hn : n < c.nodes.length) : Scheduled (c.node n).setup n c [] := by
  obtain ⟨hactive, hlifecycle, hpass, hscheduler⟩ := h.node n
  have hsound : c.Sound := by
    refine ⟨fun m t ht => ?_, by rw [h.sleeping]; exact .nil, h.crashing⟩
    obtain ⟨-, hlifecycle, hpass, hscheduler⟩ := h.node m
    rw [Node.waiters, hlifecycle, hpass, hscheduler] at ht
    cases ht
  refine ⟨none, none, ⟨hsound, hn, rfl, fun t ht => ?_, fun w hw => absurd hw List.not_mem_nil,
    .idle hscheduler (fun p hp => ?_) (fun w hw => by cases hw) ?_⟩,
    ⟨0, ?_, fun t ht => absurd ht (Multiset.notMem_zero t)⟩, fun t ht => by cases ht⟩
  · rw [hlifecycle] at ht
    cases ht
  · rw [hactive] at hp
    cases hp
  · rw [hlifecycle]
    rfl
  · rw [crew, queued, h.ready, h.sleeping, hpass]
    rfl

/-! ### Signs in the order of time -/

theorem now_release (c : Cluster) (m : Nat) (l : Lock) : (c.release m l).now = c.now := by
  unfold release
  dsimp only
  split <;> rfl

theorem now_surrender (c : Cluster) (t : Task) (l : Lock) : (c.surrender t l).now = c.now := by
  unfold surrender
  split
  · exact now_release c t.node l
  · rfl

theorem now_endScheduler (c : Cluster) (m : Nat) (phase : SchedulerPhase) : (c.endScheduler m phase).now = c.now := by
  unfold endScheduler
  split
  · rfl
  · dsimp only
    split <;> rfl

theorem now_crash (c : Cluster) (t : Task) : (c.crash t).now = c.now := by
  have hlocks : ((c.surrender t .pass).surrender t .lifecycle).now = c.now := by
    rw [now_surrender, now_surrender]
  unfold crash
  dsimp only
  split
  · exact hlocks
  · exact hlocks
  · rw [now_endScheduler]
    exact hlocks

theorem now_finish (c : Cluster) (t : Task) (result : Except RepositoryError Answer) :
    (c.finish t result).now = c.now := by
  unfold finish
  split
  · rfl
  · rfl
  · rfl
  · exact now_endScheduler ..

theorem now_answer (c : Cluster) (t : Task) (q : Request) (next : q.Answer → Operation Answer) :
    (c.answer t q next).now = c.now := by
  cases q with
  | store call =>
    show (c.answerStore t call next).now = _
    unfold answerStore
    split
    · rfl
    · split
      · split
        · exact now_crash c t
        · rfl
      · rfl
  | forward letter =>
    show (c.answerForward t letter next).now = _
    unfold answerForward
    dsimp only
    split
    · rfl
    · split
      · rfl
      · split <;> rfl
  | deliver key e =>
    show (c.answerDeliver t key e next).now = _
    unfold answerDeliver
    dsimp only
    split
    · rfl
    · split <;> rfl
  | dispatch | report | launch => rfl
  | acquire l =>
    show (c.acquire t l (next ())).now = _
    unfold acquire
    dsimp only
    split <;> rfl
  | release l => exact now_release c t.node l
  | halt =>
    show (c.answerHalt t next).now = _
    unfold answerHalt
    split
    · rfl
    · split <;> rfl
  | tick =>
    show (c.answerTick t next).now = _
    unfold answerTick
    split
    · rfl
    · split
      · rfl
      · split <;> rfl
  | sleep time =>
    unfold answer
    dsimp only
    split <;> rfl

/-- A step takes no time. -/
theorem now_step (c : Cluster) : c.step.now = c.now := by
  unfold step
  split
  · rfl
  · dsimp only
    split
    · exact now_finish ..
    · exact now_answer ..

theorem now_begin (c : Cluster) (x : Step) : (c.begin x).2.now = c.now := by
  induction x with
  | change x => cases x <;> rfl
  | background x ih => exact ih
  | _ => rfl

theorem now_le_wakeNext (c : Cluster) : c.now ≤ c.wakeNext.now := by
  unfold wakeNext
  split
  · exact Nat.le_refl _
  · exact Nat.le_max_left ..

theorem History.chronological {c₀ : Cluster} (h : History n c₀ log c) : Window.Chronological log c.now := by
  induction h with
  | start => exact ⟨.nil, fun x hx => absurd hx List.not_mem_nil⟩
  | step h hr ih =>
    rw [now_step]
    refine ih.append (Nat.le_refl _) fun x hx => ?_
    obtain ⟨sign, -, rfl⟩ := List.mem_map.1 hx
    rfl
  | wake h hr ih => exact ih.later (now_le_wakeNext _)
  | begin h hx ih =>
    rw [now_begin]
    exact ih
  | note h background ih => exact ih

/-- What has been seen of a history fits. -/
theorem History.scheduled {c₀ : Cluster} (h : History n c₀ log c) (h₀ : c₀.Fresh) (hn : n < c₀.nodes.length) :
    ∃ ws, Window.read log = some ws ∧ Scheduled (c₀.node n).setup n c ws := by
  induction h with
  | start => exact ⟨[], rfl, h₀.scheduled hn⟩
  | @step log c h hr ih =>
    obtain ⟨ws, hread, hs⟩ := ih
    obtain ⟨vs, hseen, hs⟩ := hs.step hr
    refine ⟨vs, ?_, hs⟩
    cases hsign : c.sign n with
    | none =>
      rw [hsign] at hseen
      cases hseen
      rw [Option.toList_none, List.map_nil, List.append_nil]
      exact hread
    | some sign =>
      rw [hsign] at hseen
      exact (Window.read_concat hread _).trans hseen
  | wake h hr ih =>
    obtain ⟨ws, hread, hs⟩ := ih
    exact ⟨ws, hread, hs.wake hr⟩
  | begin h hx ih =>
    obtain ⟨ws, hread, hs⟩ := ih
    exact ⟨ws, hread, hs.begin hx⟩
  | note h background ih =>
    obtain ⟨ws, hread, hs⟩ := ih
    obtain ⟨_, _, hset, -⟩ := id hs
    exact ⟨ws, hread, hs.grow (.same hset.sound rfl rfl rfl rfl rfl) fun t ht => absurd ht (Multiset.notMem_zero t)⟩

/-- What happens if nothing is begun: tasks go on while they can, and then time passes. -/
def onwards (c : Cluster) (n : Nat) : Nat → List (Nat × Sign) × Cluster
  | 0 => ([], c)
  | k + 1 =>
    if c.ready.isEmpty then c.wakeNext.onwards n k
    else
      let (more, d) := c.step.onwards n k
      ((c.sign n).toList.map (c.now, ·) ++ more, d)

theorem History.onwards {c₀ : Cluster} (h : History n c₀ log c) (k : Nat) :
    History n c₀ (log ++ (c.onwards n k).1) (c.onwards n k).2 := by
  induction k generalizing log c with
  | zero =>
    rw [Cluster.onwards, List.append_nil]
    exact h
  | succ k ih =>
    rw [Cluster.onwards]
    split
    · rename_i hr
      exact ih (h.wake (List.isEmpty_iff.1 hr))
    · rename_i hr
      have hnext := ih (h.step fun hn => hr (List.isEmpty_iff.2 hn))
      rw [List.append_assoc] at hnext
      exact hnext

end DurableAggregates.Cluster
