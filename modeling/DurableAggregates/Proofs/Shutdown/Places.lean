import DurableAggregates.Proofs.Interleaving.Courses

/-!
# Places in the queues

A task that can go on does so before time passes, and one that waits for a time goes on at exactly that time: a step
only adds tasks to the queues (`Keeps`), and time passes, when no task can go on, up to the first time that somebody
waits for. So a task that is `Due` at a time stays so until it has its turn (`due_proceed`).
-/

namespace DurableAggregates.Cluster

variable {c d e : Cluster} {i n time : Nat} {t x : Task} {l : Lock} {tail : List Task}

/-- Those who sleep are in the order in which they wake. -/
def InOrder (c : Cluster) : Prop := c.sleeping.Pairwise (·.1 ≤ ·.1)

/-- A task that can go on at a time, or wakes then. -/
def Due (time : Nat) (t : Task) (c : Cluster) : Prop :=
  t ∈ c.ready ∧ c.now = time ∨ (time, t) ∈ c.sleeping ∧ c.now ≤ time

/--
Between two clusters no time has passed and nobody has lost a place in a queue, but those who waited for a tick, and
nobody but the task with a number has begun to sleep.
-/
structure Keeps (i : Nat) (c d : Cluster) : Prop where
  now : d.now = c.now
  ready : ∀ x ∈ c.ready, x ∈ d.ready
  sleeping : ∀ x ∈ c.sleeping, x.2.pause ≠ .tick → x ∈ d.sleeping
  dozed : ∀ x ∈ d.sleeping, x ∈ c.sleeping ∨ x.2.id = i
  sorted : c.InOrder → d.InOrder

namespace Keeps

theorem trans (h : Keeps i c d) (h' : Keeps i d e) : Keeps i c e where
  now := h'.now.trans h.now
  ready x hx := h'.ready x (h.ready x hx)
  sleeping x hx hp := h'.sleeping x (h.sleeping x hx hp) hp
  dozed x hx := (h'.dozed x hx).elim (h.dozed x) .inr
  sorted hs := h'.sorted (h.sorted hs)

/-- The queue of those that can go on has grown. -/
theorem grown (hnow : d.now = c.now) (hready : ∀ x ∈ c.ready, x ∈ d.ready) (hsleeping : d.sleeping = c.sleeping) :
    Keeps i c d :=
  ⟨hnow, hready, fun _ hx _ => hsleeping ▸ hx, fun _ hx => .inl (hsleeping ▸ hx),
    fun h => show d.sleeping.Pairwise _ from hsleeping ▸ h⟩

theorem same (hnow : d.now = c.now) (hready : d.ready = c.ready) (hsleeping : d.sleeping = c.sleeping) : Keeps i c d :=
  grown hnow (fun _ hx => hready ▸ hx) hsleeping

theorem refl (c : Cluster) : Keeps i c c := same rfl rfl rfl

variable (h : Keeps i c d)
include h

theorem resume (t : Task) (body : Operation Answer) : Keeps i c (d.resume t body) :=
  h.trans (grown rfl (fun _ => List.mem_cons_of_mem _) rfl)

theorem enqueue (t : Task) : Keeps i c (d.enqueue t) := h.trans (grown rfl (fun _ => List.mem_append_left _) rfl)

theorem spawn (n : Nat) (role : Role) (body : Operation Answer) : Keeps i c (d.spawn n role body) :=
  h.trans (grown rfl (fun _ => List.mem_append_left _) rfl)

theorem modifyNode (n : Nat) (f : Node → Node) : Keeps i c (d.modifyNode n f) := h.trans (same rfl rfl rfl)

theorem setScheduler (n : Nat) (s : Option SchedulerState) : Keeps i c (d.setScheduler n s) := h.modifyNode n _

theorem sleepUntil (time : Nat) (hid : t.id = i) : Keeps i c (d.sleepUntil time t) := by
  have hparts := List.takeWhile_append_dropWhile (p := fun x : Nat × Task => x.1 ≤ time) (l := d.sleeping)
  refine h.trans ⟨rfl, fun _ => id, fun x hx _ => ?_, fun x hx => ?_, fun hs => ?_⟩
  · rw [← hparts] at hx
    rcases List.mem_append.1 hx with hx | hx
    · exact List.mem_append_left _ hx
    · exact List.mem_append_right _ (List.mem_cons_of_mem _ hx)
  · rcases List.mem_append.1 hx with hx | hx
    · exact .inl (hparts ▸ List.mem_append_left _ hx)
    · rcases List.mem_cons.1 hx with rfl | hx
      · exact .inr hid
      · exact .inl (hparts ▸ List.mem_append_right _ hx)
  · have htake (x : Nat × Task) (hx : x ∈ d.sleeping.takeWhile (·.1 ≤ time)) : x.1 ≤ time := by
      simpa using List.all_eq_true.1 List.all_takeWhile x hx
    have hdrop (x : Nat × Task) (hx : x ∈ d.sleeping.dropWhile (·.1 ≤ time)) : time ≤ x.1 :=
      Nat.le_of_lt (lt_of_mem_dropWhile hs hx)
    refine List.pairwise_append.2 ⟨hs.sublist (List.takeWhile_sublist _), ?_, fun x hx y hy => ?_⟩
    · exact List.pairwise_cons.2 ⟨hdrop, hs.sublist (List.dropWhile_sublist _)⟩
    · rcases List.mem_cons.1 hy with rfl | hy
      · exact htake x hx
      · exact Nat.le_trans (htake x hx) (hdrop y hy)

theorem wakeScheduler (n : Nat) : Keeps i c (d.wakeScheduler n) := by
  refine h.trans ⟨rfl, fun _ => List.mem_append_left _, fun x hx hp => List.mem_filter.2 ⟨hx, ?_⟩,
    fun x hx => .inl (List.mem_of_mem_filter hx), fun hs => hs.sublist List.filter_sublist⟩
  rw [Task.awaitsTick, beq_eq_false_iff_ne.2 hp, Bool.and_false]
  rfl

theorem release (n : Nat) (l : Lock) : Keeps i c (d.release n l) := by
  unfold Cluster.release
  dsimp only
  split
  · exact h.modifyNode n _
  · exact (h.modifyNode n _).enqueue _

theorem acquire (t : Task) (l : Lock) (body : Operation Answer) : Keeps i c (d.acquire t l body) := by
  unfold Cluster.acquire
  dsimp only
  split
  · exact (h.modifyNode _ _).resume t body
  · exact h.modifyNode _ _

theorem surrender (t : Task) (l : Lock) : Keeps i c (d.surrender t l) := by
  unfold Cluster.surrender
  split
  · exact h.release _ l
  · exact h

theorem endScheduler (n : Nat) (phase : SchedulerPhase) : Keeps i c (d.endScheduler n phase) := by
  unfold Cluster.endScheduler
  split
  · exact h
  · dsimp only
    split
    · exact (h.setScheduler n _).enqueue _
    · exact h.setScheduler n _

theorem finish (t : Task) (result : Except RepositoryError Answer) : Keeps i c (d.finish t result) := by
  unfold Cluster.finish
  split
  · exact h.trans (same rfl rfl rfl)
  · exact h
  · exact h.resume t _
  · exact h.endScheduler _ _

theorem crash (t : Task) : Keeps i c (d.crash t) := by
  have hlocks := (h.surrender t .pass).surrender t .lifecycle
  unfold Cluster.crash
  dsimp only
  split
  · exact hlocks.trans (same rfl rfl rfl)
  · exact hlocks.modifyNode _ _
  · exact hlocks.endScheduler _ _

theorem answer (hid : t.id = i) (q : Request) (next : q.Answer → Operation Answer) : Keeps i c (d.answer t q next) := by
  have hstore (store : Store) : Keeps i c { d with store } := h.trans (same rfl rfl rfl)
  cases q with
  | store call =>
    show Keeps i c (d.answerStore t call next)
    unfold answerStore
    split
    · exact sleepUntil (t := { t with body := _, pause := _ }) h _ hid
    · split
      · split
        · exact h.crash t
        · exact (hstore _).resume t _
      · exact (hstore _).resume t _
  | forward letter =>
    show Keeps i c (d.answerForward t letter next)
    unfold answerForward
    dsimp only
    split
    · exact h.resume t _
    · split
      · exact h.resume t _
      · split
        · exact (h.modifyNode _ _).resume t _
        · exact (h.modifyNode _ _).resume t _
  | deliver key e =>
    show Keeps i c (d.answerDeliver t key e next)
    unfold answerDeliver
    dsimp only
    split
    · exact h.resume t _
    · split
      · exact sleepUntil (t := { t with body := _, pause := _ }) h _ hid
      · exact (h.modifyNode _ _).resume t _
  | dispatch key e => exact (h.spawn _ _ _).resume t _
  | report e => exact (h.modifyNode _ _).resume t _
  | launch interval => exact ((h.setScheduler _ _).spawn _ _ _).resume t _
  | acquire l => exact h.acquire t l _
  | release l => exact (h.release _ l).resume t _
  | halt =>
    show Keeps i c (d.answerHalt t next)
    unfold answerHalt
    split
    · exact h.resume t _
    · split
      · exact (h.setScheduler _ _).resume t _
      · exact (h.setScheduler _ _).resume t _
      · exact (h.setScheduler _ _).wakeScheduler _
  | tick =>
    show Keeps i c (d.answerTick t next)
    unfold answerTick
    split
    · exact h.resume t _
    · split
      · exact h.resume t _
      · split
        · exact (h.setScheduler _ _).resume t _
        · exact sleepUntil (t := { t with body := _, pause := _ }) h _ hid
  | sleep time =>
    unfold Cluster.answer
    dsimp only
    split
    · exact h.resume t _
    · exact sleepUntil (t := { t with body := _, pause := _ }) h _ hid

end Keeps

/-- In a step only the task whose turn it is loses its place. -/
theorem keeps_step (hr : c.ready = t :: tail) : Keeps t.id { c with ready := tail } c.step := by
  have hleft (r : Repository) : Keeps t.id { c with ready := tail } (c.taken tail t.node r) :=
    (Keeps.refl _).modifyNode _ _
  cases hrun : t.body.run (c.node t.node).repository with
  | finished result r =>
    rw [(step_finished hr hrun).1]
    exact (hleft r).finish t result
  | asking q r next =>
    rw [(step_asking hr (fun a => ExceptT.mk (next a)) hrun).1]
    exact (hleft r).answer rfl q _

theorem InOrder.step (h : c.InOrder) : c.step.InOrder := by
  cases hr : c.ready with
  | nil =>
    rw [Cluster.step, hr]
    exact h
  | cons t tail => exact (keeps_step hr).sorted h

theorem InOrder.wakeNext (h : c.InOrder) : c.wakeNext.InOrder := by
  unfold Cluster.wakeNext
  split
  · exact h
  · exact h.sublist (List.dropWhile_sublist _)

theorem InOrder.proceed (h : c.InOrder) : c.proceed.InOrder := by
  unfold Cluster.proceed
  split
  · exact h.wakeNext
  · exact h.step

/-- A task that is due has its turn, or stays due. -/
theorem Due.proceed (h : Due time x c) (hs : c.InOrder) (hp : x.pause ≠ .tick) (hx : c.ready.head? ≠ some x) :
    Due time x c.proceed := by
  cases hr : c.ready with
  | nil =>
    -- Nobody can go on, so the task sleeps, and the first sleeper wakes no later.
    rw [Cluster.proceed, hr, List.isEmpty_nil, if_pos rfl]
    have hasleep := h.resolve_left fun hx => by rw [hr] at hx; cases hx.1
    cases hsleeping : c.sleeping with
    | nil =>
      rw [hsleeping] at hasleep
      cases hasleep.1
    | cons e rest =>
      obtain ⟨first, y⟩ := e
      rw [wakeNext_of_cons hsleeping]
      have hle : first ≤ time := by
        have hs : c.sleeping.Pairwise (·.1 ≤ ·.1) := hs
        have hmem := hasleep.1
        rw [hsleeping] at hs hmem
        rcases List.mem_cons.1 hmem with he | hmem
        · exact Nat.le_of_eq (congrArg (·.1) he).symm
        · exact (List.pairwise_cons.1 hs).1 _ hmem
      have hnow : max c.now first ≤ time := Nat.max_le.2 ⟨hasleep.2, hle⟩
      have hmem := hasleep.1
      rw [← List.takeWhile_append_dropWhile (p := fun x : Nat × Task => x.1 ≤ first) (l := c.sleeping)] at hmem
      rcases List.mem_append.1 hmem with hmem | hmem
      · have htime : time ≤ first := by simpa using List.all_eq_true.1 List.all_takeWhile _ hmem
        refine .inl ⟨List.mem_append_right _ (List.mem_map.2 ⟨_, hmem, rfl⟩), ?_⟩
        exact Nat.le_antisymm hnow (Nat.le_trans htime (Nat.le_max_right ..))
      · exact .inr ⟨hmem, hnow⟩
  | cons t tail =>
    rw [Cluster.proceed, hr, List.isEmpty_cons, if_neg Bool.false_ne_true]
    have hkeeps := keeps_step hr
    rcases h with ⟨hmem, hnow⟩ | ⟨hmem, hnow⟩
    · rw [hr] at hmem hx
      have hmem := (List.mem_cons.1 hmem).resolve_left fun he => hx (by rw [he]; rfl)
      exact .inl ⟨hkeeps.ready x hmem, hkeeps.now.trans hnow⟩
    · exact .inr ⟨hkeeps.sleeping _ hmem hp, hkeeps.now.trans_le hnow⟩

/-- A task that is due is in a queue. -/
theorem Due.mem_queued (h : Due time x c) : x ∈ c.queued := by
  rcases h with ⟨hx, -⟩ | ⟨hx, -⟩
  · exact Multiset.mem_add.2 (.inl hx)
  · exact Multiset.mem_add.2 (.inr (List.mem_map.2 ⟨_, hx, rfl⟩))

end DurableAggregates.Cluster
