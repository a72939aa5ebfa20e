import DurableAggregates.Proofs.Execution.Adequacy
import DurableAggregates.Proofs.Schedule.Bodies
import Mathlib.Data.Multiset.Filter

/-!
# Crews

The crew of a node are its tasks that can go on, or wait for time to pass or for the lock of passes. What a task does
to other nodes, and what it asks for beside the lifecycle lock and the scheduler of its own, only makes a crew grow
(`Grows`): a free request brings the task back with what it does then, and perhaps a redelivery (`returns_answer`), and
no step of another node brings anybody (`grows_step_of_ne`).
-/

namespace DurableAggregates.Cluster

variable {c d e : Cluster} {n m : Nat} {t : Task} {body : Operation Answer} {l : Lock}

/-! ## Nodes -/

theorem node_modifyNode_eq (c : Cluster) (m : Nat) (f : Node → Node) (n : Nat) :
    (c.modifyNode m f).node n = if n = m ∧ m < c.nodes.length then f (c.node m) else c.node n := by
  simp only [node, modifyNode, List.getElem?_modify]
  by_cases hn : m = n
  · subst hn
    by_cases hm : m < c.nodes.length
    · simp [hm]
    · simp [hm]
  · simp [hn, Ne.symm hn]

theorem node_modifyNode_of_ne (hn : n ≠ m) (f : Node → Node) : (c.modifyNode m f).node n = c.node n := by
  rw [node_modifyNode_eq, if_neg fun h => hn h.1]

theorem length_modifyNode (c : Cluster) (m : Nat) (f : Node → Node) :
    (c.modifyNode m f).nodes.length = c.nodes.length := List.length_modify ..

/-- The tasks that wait for something of the node. -/
def Node.waiters (x : Node) : List Task :=
  x.lifecycle.waiting ++ x.pass.waiting ++ (x.scheduler.bind (·.waiting)).toList

/-- What the schedule of a node depends on, beside its crew. -/
def Node.frame (x : Node) : Setup × Repository × LockState × Option SchedulerState :=
  (x.setup, x.repository, x.lifecycle, x.scheduler)

theorem Node.frame_eq {x : Node} {setup : Setup} {r : Repository} {l : LockState} {st : Option SchedulerState}
    (h : x.frame = (setup, r, l, st)) :
    x.setup = setup ∧ x.repository = r ∧ x.lifecycle = l ∧ x.scheduler = st := by
  simpa only [Node.frame, Prod.mk.injEq] using h

/-- Tasks wait at their own nodes only, those that sleep are in order, and no call crashes. -/
structure Sound (c : Cluster) : Prop where
  housed : ∀ n, ∀ t ∈ (c.node n).waiters, t.node = n
  sorted : c.sleeping.Pairwise (·.1 ≤ ·.1)
  crashing : c.crashing = false

theorem Sound.modifyNode (h : c.Sound) {f : Node → Node} (hf : ∀ t ∈ (f (c.node m)).waiters, t.node = m) :
    (c.modifyNode m f).Sound := by
  refine ⟨fun k t ht => ?_, h.sorted, h.crashing⟩
  rw [node_modifyNode_eq] at ht
  split at ht
  · rename_i hk
    rw [hk.1]
    exact hf t ht
  · exact h.housed k t ht

/-! ## Growing crews -/

/-- The tasks that can go on or wait for time to pass. -/
def queued (c : Cluster) : Multiset Task := Multiset.ofList c.ready + Multiset.ofList (c.sleeping.map (·.2))

/-- The tasks of a node that can go on, or wait for time to pass or for the lock of passes. -/
def crew (c : Cluster) (n : Nat) : Multiset Task :=
  c.queued.filter (·.node = n) + Multiset.ofList (c.node n).pass.waiting

theorem filter_node_cons (h : t.node = n) (ts : Multiset Task) :
    (t ::ₘ ts).filter (·.node = n) = t ::ₘ ts.filter (·.node = n) := Multiset.filter_cons_of_pos ts h

theorem filter_node_cons_of_ne (h : n ≠ t.node) (ts : Multiset Task) :
    (t ::ₘ ts).filter (·.node = n) = ts.filter (·.node = n) := Multiset.filter_cons_of_neg ts h.symm

theorem queued_resume (c : Cluster) (t : Task) (body : Operation Answer) :
    (c.resume t body).queued = { t with body, pause := .nothing } ::ₘ c.queued := by
  rw [queued, queued, ← Multiset.cons_add, Multiset.cons_coe]
  rfl

theorem queued_enqueue (c : Cluster) (t : Task) : (c.enqueue t).queued = t ::ₘ c.queued := by
  rw [queued, queued, ← Multiset.cons_add, Multiset.cons_coe]
  exact congrArg (· + _) (Multiset.coe_eq_coe.2 (List.perm_append_singleton t c.ready))

theorem queued_sleepUntil (c : Cluster) (time : Nat) (t : Task) : (c.sleepUntil time t).queued = t ::ₘ c.queued := by
  rw [queued, queued, ← Multiset.add_cons, Multiset.cons_coe]
  refine congrArg (_ + ·) (Multiset.coe_eq_coe.2 ?_)
  have h : (c.sleeping.takeWhile (·.1 ≤ time) ++ (time, t) :: c.sleeping.dropWhile (·.1 ≤ time)).Perm
    ((time, t) :: (c.sleeping.takeWhile (·.1 ≤ time) ++ c.sleeping.dropWhile (·.1 ≤ time))) := List.perm_middle
  rw [List.takeWhile_append_dropWhile] at h
  exact h.map (·.2)

theorem queued_wakeScheduler (c : Cluster) (n : Nat) : (c.wakeScheduler n).queued = c.queued := by
  have hsplit := List.filter_append_perm (·.awaitsTick n) (c.sleeping.map (·.2))
  have hstay : (c.wakeScheduler n).sleeping.map (·.2) = (c.sleeping.map (·.2)).filter (!·.awaitsTick n) := by
    rw [List.filter_map]
    rfl
  rw [queued, queued, hstay, Multiset.coe_add, Multiset.coe_add]
  refine Multiset.coe_eq_coe.2 ?_
  show (c.ready ++ _ ++ _).Perm _
  rw [List.append_assoc]
  exact hsplit.append_left c.ready

theorem queued_wakeNext (c : Cluster) : c.wakeNext.queued = c.queued := by
  unfold wakeNext
  split
  · rfl
  · rename_i time t rest h
    rw [queued, queued, Multiset.coe_add, Multiset.coe_add]
    dsimp only
    rw [List.append_assoc, ← List.map_append, List.takeWhile_append_dropWhile]

/-- Those that go on sleeping wake later. -/
theorem lt_of_mem_dropWhile {l : List (Nat × Task)} (h : l.Pairwise (·.1 ≤ ·.1)) {time : Nat} {x : Nat × Task}
    (hx : x ∈ l.dropWhile (·.1 ≤ time)) : time < x.1 := by
  induction h with
  | nil => cases hx
  | @cons y l hy _ ih =>
    rw [List.dropWhile_cons] at hx
    split at hx
    · exact ih hx
    · rename_i hlt
      have hlt : time < y.1 := by simpa using hlt
      rcases List.mem_cons.1 hx with rfl | hx
      · exact hlt
      · exact Nat.lt_of_lt_of_le hlt (hy x hx)

theorem Sound.sleepUntil (h : c.Sound) (time : Nat) (t : Task) : (c.sleepUntil time t).Sound := by
  refine ⟨h.housed, ?_, h.crashing⟩
  have htake (x : Nat × Task) (hx : x ∈ c.sleeping.takeWhile (·.1 ≤ time)) : x.1 ≤ time := by
    simpa using List.all_eq_true.1 List.all_takeWhile x hx
  have hdrop (x : Nat × Task) (hx : x ∈ c.sleeping.dropWhile (·.1 ≤ time)) : time ≤ x.1 :=
    Nat.le_of_lt (lt_of_mem_dropWhile h.sorted hx)
  refine List.pairwise_append.2 ⟨h.sorted.sublist (List.takeWhile_sublist _), ?_, fun x hx y hy => ?_⟩
  · exact List.pairwise_cons.2 ⟨hdrop, h.sorted.sublist (List.dropWhile_sublist _)⟩
  · rcases List.mem_cons.1 hy with rfl | hy
    · exact htake x hx
    · exact Nat.le_trans (htake x hx) (hdrop y hy)

/-- Between two clusters the crew of a node has grown, and nothing else has changed for its schedule. -/
structure Grows (n : Nat) (c : Cluster) (new : Multiset Task) (d : Cluster) : Prop where
  sound : d.Sound
  now : d.now = c.now
  known : d.nodes.length = c.nodes.length
  frame : (d.node n).frame = (c.node n).frame
  crew : d.crew n = c.crew n + new.filter (·.node = n)
  ready : ∀ t ∈ c.ready, t ∈ d.ready
  sleeping : ∀ x ∈ c.sleeping, x.2.node = n → x ∈ d.sleeping

namespace Grows

variable {new more : Multiset Task}

theorem trans (h : Grows n c new d) (h' : Grows n d more e) : Grows n c (new + more) e where
  sound := h'.sound
  now := h'.now.trans h.now
  known := h'.known.trans h.known
  frame := h'.frame.trans h.frame
  crew := by rw [h'.crew, h.crew, Multiset.filter_add, Multiset.add_assoc]
  ready t ht := h'.ready t (h.ready t ht)
  sleeping x hx hn := h'.sleeping x (h.sleeping x hx hn) hn

/-- Nothing changes but what no schedule depends on. -/
theorem same (h : c.Sound) (hnow : d.now = c.now) (hnodes : d.nodes = c.nodes) (hready : d.ready = c.ready)
    (hsleeping : d.sleeping = c.sleeping) (hcrashing : d.crashing = c.crashing) : Grows n c 0 d := by
  have hnode (k : Nat) : d.node k = c.node k := by rw [node, node, hnodes]
  refine ⟨⟨fun k t ht => h.housed k t (hnode k ▸ ht), hsleeping ▸ h.sorted, hcrashing ▸ h.crashing⟩, hnow,
    by rw [hnodes], by rw [hnode], ?_, fun t ht => hready ▸ ht, fun x hx _ => hsleeping ▸ hx⟩
  rw [Cluster.crew, Cluster.crew, queued, hnode, hready, hsleeping]
  exact (Multiset.add_zero _).symm

/-- One more task of any node. -/
theorem put (h : d.Sound) (hnow : d.now = c.now) (hnodes : d.nodes = c.nodes) (hqueued : d.queued = t ::ₘ c.queued)
    (hready : ∀ t ∈ c.ready, t ∈ d.ready) (hsleeping : ∀ x ∈ c.sleeping, x ∈ d.sleeping) : Grows n c {t} d := by
  have hnode : d.node n = c.node n := by rw [node, node, hnodes]
  refine ⟨h, hnow, by rw [hnodes], by rw [hnode], ?_, hready, fun x hx _ => hsleeping x hx⟩
  rw [Cluster.crew, Cluster.crew, hnode, hqueued, ← Multiset.singleton_add, Multiset.filter_add, Multiset.add_assoc,
    Multiset.add_comm]

theorem resume (h : c.Sound) (t : Task) (body : Operation Answer) :
    Grows n c {{ t with body, pause := .nothing }} (c.resume t body) :=
  .put ⟨h.housed, h.sorted, h.crashing⟩ rfl rfl (queued_resume c t body) (fun _ => List.mem_cons_of_mem _) fun _ => id

theorem enqueue (h : c.Sound) (t : Task) : Grows n c {t} (c.enqueue t) :=
  .put ⟨h.housed, h.sorted, h.crashing⟩ rfl rfl (queued_enqueue c t) (fun _ => List.mem_append_left _) fun _ => id

theorem sleepUntil (h : c.Sound) (time : Nat) (t : Task) : Grows n c {t} (c.sleepUntil time t) := by
  refine .put (h.sleepUntil time t) rfl rfl (queued_sleepUntil c time t) (fun _ => id) fun x hx => ?_
  rw [← List.takeWhile_append_dropWhile (p := (·.1 ≤ time)) (l := c.sleeping)] at hx
  rcases List.mem_append.1 hx with hx | hx
  · exact List.mem_append_left _ hx
  · exact List.mem_append_right _ (List.mem_cons_of_mem _ hx)

theorem spawn (h : c.Sound) (m : Nat) (role : Role) (body : Operation Answer) :
    Grows n c {{ id := c.next, node := m, role, body }} (c.spawn m role body) :=
  .put ⟨h.housed, h.sorted, h.crashing⟩ rfl rfl (queued_enqueue { c with next := c.next + 1 } _)
    (fun _ => List.mem_append_left _) fun _ => id

/-- A node changes in what no schedule depends on. -/
theorem modifyNode (h : c.Sound) {f : Node → Node} (hwaiters : (f (c.node m)).waiters = (c.node m).waiters)
    (hframe : (f (c.node m)).frame = (c.node m).frame)
    (hpass : (f (c.node m)).pass.waiting = (c.node m).pass.waiting) : Grows n c 0 (c.modifyNode m f) := by
  have hnode : ((c.modifyNode m f).node n).frame = (c.node n).frame ∧
      ((c.modifyNode m f).node n).pass.waiting = (c.node n).pass.waiting := by
    rw [node_modifyNode_eq]
    split
    · rename_i hn
      rw [hn.1]
      exact ⟨hframe, hpass⟩
    · exact ⟨rfl, rfl⟩
  refine ⟨h.modifyNode fun t ht => h.housed m t (hwaiters ▸ ht), rfl, length_modifyNode .., hnode.1, ?_, fun _ => id,
    fun _ hx _ => hx⟩
  rw [Cluster.crew, Cluster.crew, hnode.2]
  exact (Multiset.add_zero _).symm

/-- Another node changes. -/
theorem modifyNode_of_ne (h : c.Sound) (hn : n ≠ m) {f : Node → Node}
    (hwaiters : ∀ t ∈ (f (c.node m)).waiters, t.node = m) : Grows n c 0 (c.modifyNode m f) := by
  have hnode := node_modifyNode_of_ne (c := c) hn f
  refine ⟨h.modifyNode hwaiters, rfl, length_modifyNode .., by rw [hnode], ?_, fun _ => id, fun _ hx _ => hx⟩
  rw [Cluster.crew, Cluster.crew, hnode]
  exact (Multiset.add_zero _).symm

theorem crew_put (h : Grows n c {t} d) (hn : t.node = n) : d.crew n = t ::ₘ c.crew n := by
  rw [h.crew, Multiset.add_comm, ← Multiset.cons_zero, filter_node_cons hn, Multiset.filter_zero, Multiset.cons_add,
    Multiset.zero_add]

/-- Tasks of other nodes do not count. -/
theorem of_ne (h : Grows n c new d) (hn : ∀ t ∈ new, n ≠ t.node) : Grows n c 0 d where
  sound := h.sound
  now := h.now
  known := h.known
  frame := h.frame
  crew := by rw [h.crew, Multiset.filter_eq_nil.2 fun t ht ht' => hn t ht ht'.symm]; rfl
  ready := h.ready
  sleeping := h.sleeping

end Grows

/-! ## Requests that any task may make -/

/-- A task has come back for its request, or to go on after it, and has perhaps begun redeliveries. -/
def Returns (n : Nat) (c : Cluster) (t : Task) (q : Request) (next : q.Answer → Operation Answer) (d : Cluster) :
    Prop :=
  ∃ x more, Grows n c (x ::ₘ more) d ∧ x.node = t.node ∧ x.role = t.role ∧ Resumes q next x.body ∧
    ∀ y ∈ more, y.node = t.node ∧ y.role = .redelivery ∧ y.body.Within Request.isFree

section Answers

variable {q : Request} {next : q.Answer → Operation Answer}

theorem Returns.of_ne (h : Returns n c t q next d) (hn : n ≠ t.node) : Grows n c 0 d := by
  obtain ⟨x, more, hg, hx, -, -, hmore⟩ := h
  refine hg.of_ne fun y hy => ?_
  rcases Multiset.mem_cons.1 hy with rfl | hy
  · rw [hx]
    exact hn
  · rw [(hmore y hy).1]
    exact hn

/-- The task goes on with an answer after something that concerns no schedule. -/
theorem Returns.resume {more : Multiset Task} (h : Grows n c more d)
    (hmore : ∀ y ∈ more, y.node = t.node ∧ y.role = .redelivery ∧ y.body.Within Request.isFree)
    {b : Operation Answer} (hb : Resumes q next b) : Returns n c t q next (d.resume t b) := by
  refine ⟨{ t with body := b, pause := .nothing }, more, ?_, rfl, rfl, hb, hmore⟩
  rw [← Multiset.singleton_add, Multiset.add_comm]
  exact h.trans (.resume h.sound t b)

theorem Returns.answered (h : Grows n c 0 d) {b : Operation Answer} (hb : Resumes q next b) :
    Returns n c t q next (d.resume t b) :=
  .resume h (fun _ hy => absurd hy (Multiset.notMem_zero _)) hb

theorem Returns.sleep (h : c.Sound) {x : Task} (hn : x.node = t.node) (hr : x.role = t.role)
    (hb : Resumes q next x.body) (time : Nat) : Returns n c t q next (c.sleepUntil time x) :=
  ⟨x, 0, .sleepUntil h time x, hn, hr, hb, fun _ hy => absurd hy (Multiset.notMem_zero _)⟩

end Answers

theorem returns_store (h : c.Sound) (call : Store.Call) (next : call.Result → Operation Answer) :
    Returns n c t (.store call) next (c.answerStore t call next) := by
  have hnow (store : Store) (a : call.Result) :
      Returns n c t (.store call) next ({ c with store }.resume t (next a)) :=
    .answered (d := { c with store }) (.same h rfl rfl rfl rfl rfl) (.answered (q := .store call) a)
  unfold answerStore
  split
  · exact .sleep h rfl rfl (.asking rfl) _
  · split
    · rw [if_neg (by rw [h.crashing]; exact Bool.false_ne_true)]
      exact hnow _ _
    · exact hnow _ _

theorem returns_forward (h : c.Sound) (letter : DeadLetter) (next : Except DeadLetterError Unit → Operation Answer) :
    Returns n c t (.forward letter) next (c.answerForward t letter next) := by
  have hquiet : Grows n c 0 c := .same h rfl rfl rfl rfl rfl
  unfold answerForward
  dsimp only
  split
  · exact .answered hquiet (.answered _)
  · rename_i sink _
    split
    · exact .answered hquiet (.answered _)
    · split
      · exact .answered (.modifyNode h rfl rfl rfl) (.answered _)
      · exact .answered (.modifyNode h rfl rfl rfl) ⟨_, free_react sink letter, rfl⟩

theorem returns_deliver (h : c.Sound) (key : CorrelationKey) (e : Exchange)
    (next : Except RedeliveryError Unit → Operation Answer) :
    Returns n c t (.deliver key e) next (c.answerDeliver t key e next) := by
  unfold answerDeliver
  dsimp only
  split
  · exact .answered (.same h rfl rfl rfl rfl rfl) (.answered _)
  · rename_i engine _
    split
    · exact .sleep h rfl rfl (.asking rfl) _
    · exact .answered (.modifyNode h rfl rfl rfl) ⟨_, free_engine_react engine key e, rfl⟩

theorem returns_dispatch (h : c.Sound) (key : CorrelationKey) (e : Exchange) (next : Unit → Operation Answer) :
    Returns n c t (.dispatch key e) next ((c.spawn t.node .redelivery (redelivery key e)).resume t (next ())) := by
  refine .resume (.spawn h t.node .redelivery (redelivery key e)) (fun y hy => ?_) (.answered (q := .dispatch key e) ())
  rw [Multiset.mem_singleton.1 hy]
  exact ⟨rfl, rfl, free_redelivery key e⟩

theorem returns_report (h : c.Sound) (e : RouteError) (next : Unit → Operation Answer) :
    Returns n c t (.report e) next ((c.answerReport t.node e).resume t (next ())) := by
  refine .answered (.modifyNode h ?_ ?_ ?_) (.answered (q := .report e) ())
  all_goals
    split <;> rfl

theorem mem_waiters {x : Node} : t ∈ x.waiters ↔
    t ∈ x.lifecycle.waiting ∨ t ∈ x.pass.waiting ∨ ∃ s, x.scheduler = some s ∧ s.waiting = some t := by
  simp [Node.waiters, Option.bind_eq_some_iff]

theorem housed_setLock {x : Node} (hx : ∀ t ∈ x.waiters, t.node = n) {s : LockState}
    (hs : ∀ t ∈ s.waiting, t.node = n) (l : Lock) : ∀ t ∈ (x.setLock l s).waiters, t.node = n := by
  intro t ht
  cases l with
  | lifecycle =>
    rcases mem_waiters.1 ht with ht | ht | ht
    · exact hs t ht
    · exact hx t (mem_waiters.2 (.inr (.inl ht)))
    · exact hx t (mem_waiters.2 (.inr (.inr ht)))
  | pass =>
    rcases mem_waiters.1 ht with ht | ht | ht
    · exact hx t (mem_waiters.2 (.inl ht))
    · exact hs t ht
    · exact hx t (mem_waiters.2 (.inr (.inr ht)))

theorem Sound.housed_lock (h : c.Sound) (n : Nat) (l : Lock) : ∀ t ∈ ((c.node n).lock l).waiting, t.node = n := by
  intro t ht
  cases l with
  | lifecycle => exact h.housed n t (mem_waiters.2 (.inl ht))
  | pass => exact h.housed n t (mem_waiters.2 (.inr (.inl ht)))

theorem returns_acquire (h : c.Sound) (hn : t.node < c.nodes.length) (next : Unit → Operation Answer) :
    Returns t.node c t (.acquire .pass) next (c.acquire t .pass (next ())) := by
  unfold acquire
  dsimp only
  split
  · exact .answered (.modifyNode h rfl rfl rfl) (.answered (q := .acquire .pass) ())
  · refine ⟨{ t with body := next () }, 0, ⟨h.modifyNode ?_, rfl, length_modifyNode .., ?_, ?_, fun _ => id,
      fun _ hx _ => hx⟩, rfl, rfl, .answered (q := .acquire .pass) (), fun _ hy => absurd hy (Multiset.notMem_zero _)⟩
    · refine housed_setLock (h.housed _) (fun y hy => ?_) _
      rcases List.mem_append.1 hy with hy | hy
      · exact h.housed_lock _ .pass y hy
      · rw [List.mem_singleton.1 hy]
    · rw [node_modifyNode hn]
      rfl
    · rw [crew, crew, node_modifyNode hn, filter_node_cons (t := { t with body := next () }) rfl,
        Multiset.filter_zero]
      show _ + Multiset.ofList ((c.node t.node).pass.waiting ++ [_]) = _
      rw [← Multiset.coe_add, ← Multiset.add_assoc]
      rfl

theorem grows_release (h : c.Sound) (hn : n < c.nodes.length) : Grows n c 0 (c.release n .pass) := by
  unfold release
  dsimp only
  split
  · exact .modifyNode h rfl rfl rfl
  · rename_i t rest hw
    have hwaiting : (c.node n).pass.waiting = t :: rest := hw
    have hhoused := h.housed_lock n .pass
    rw [hw] at hhoused
    have hsound : (c.modifyNode n (·.setLock .pass { holder := some t.id, waiting := rest })).Sound :=
      h.modifyNode (housed_setLock (h.housed n) (fun y hy => hhoused y (List.mem_cons_of_mem _ hy)) _)
    refine ⟨⟨hsound.housed, hsound.sorted, hsound.crashing⟩, rfl, length_modifyNode .., ?_, ?_,
      fun _ => List.mem_append_left _, fun _ hx _ => hx⟩
    · show Node.frame (node (c.modifyNode n _) n) = _
      rw [node_modifyNode hn]
      rfl
    · have hnode : ((c.modifyNode n (·.setLock .pass { holder := some t.id, waiting := rest })).enqueue t).node n =
        (c.node n).setLock .pass { holder := some t.id, waiting := rest } := node_modifyNode hn _
      rw [crew, crew, hnode, queued_enqueue, filter_node_cons (hhoused t (List.mem_cons_self ..)), hwaiting,
        Multiset.filter_zero, Multiset.add_zero, ← Multiset.cons_coe, Multiset.add_cons, Multiset.cons_add]
      rfl

/-- A task has come back when its free request was answered. -/
theorem returns_answer (h : c.Sound) (hn : t.node < c.nodes.length) {q : Request} (hq : q.isFree = true)
    (next : q.Answer → Operation Answer) : Returns t.node c t q next (c.answer t q next) := by
  have hquiet : Grows t.node c 0 c := .same h rfl rfl rfl rfl rfl
  cases q with
  | store call => exact returns_store h call next
  | forward letter => exact returns_forward h letter next
  | dispatch key e => exact returns_dispatch h key e next
  | deliver key e => exact returns_deliver h key e next
  | report e => exact returns_report h e next
  | acquire l =>
    cases l with
    | pass => exact returns_acquire h hn next
    | lifecycle => cases hq
  | release l =>
    cases l with
    | pass => exact .answered (grows_release h hn) (.answered (q := .release .pass) ())
    | lifecycle => cases hq
  | sleep time =>
    unfold answer
    dsimp only
    split
    · exact .answered hquiet (.answered (q := .sleep time) ())
    · exact .sleep h rfl rfl (.answered (q := .sleep time) ()) _
  | launch | halt | tick => cases hq

/-! ## Tasks of other nodes -/

theorem Grows.put_of_ne {x : Task} (h : Grows n c 0 d) (h' : Grows n d {x} e) (hn : n ≠ x.node) : Grows n c 0 e :=
  h.trans (h'.of_ne fun y hy => by rw [Multiset.mem_singleton.1 hy]; exact hn)

theorem Grows.resume_of_ne (h : Grows n c 0 d) (hn : n ≠ t.node) (body : Operation Answer) :
    Grows n c 0 (d.resume t body) := h.put_of_ne (.resume h.sound t body) hn

theorem housed_scheduler {x : Node} (hx : ∀ t ∈ x.waiters, t.node = n) {s : Option SchedulerState}
    (hs : ∀ st t, s = some st → st.waiting = some t → t.node = n) :
    ∀ t ∈ ({ x with scheduler := s } : Node).waiters, t.node = n := by
  intro t ht
  rcases mem_waiters.1 ht with ht | ht | ⟨st, hst, ht⟩
  · exact hx t (mem_waiters.2 (.inl ht))
  · exact hx t (mem_waiters.2 (.inr (.inl ht)))
  · exact hs st t hst ht

section Others

variable (h : c.Sound)
include h

theorem grows_setScheduler_of_ne (hn : n ≠ m) {s : Option SchedulerState}
    (hs : ∀ st t, s = some st → st.waiting = some t → t.node = m) : Grows n c 0 (c.setScheduler m s) :=
  .modifyNode_of_ne h hn (housed_scheduler (h.housed m) hs)

theorem grows_wakeScheduler_of_ne (hn : n ≠ m) : Grows n c 0 (c.wakeScheduler m) := by
  refine ⟨⟨h.housed, h.sorted.sublist List.filter_sublist, h.crashing⟩, rfl, rfl, rfl, ?_,
    fun _ => List.mem_append_left _, fun x hx hxn => List.mem_filter.2 ⟨hx, ?_⟩⟩
  · rw [crew, crew, queued_wakeScheduler]
    exact (Multiset.add_zero _).symm
  · simp [Task.awaitsTick, hxn, hn]

theorem grows_acquire_of_ne (hn : n ≠ t.node) (l : Lock) (body : Operation Answer) :
    Grows n c 0 (c.acquire t l body) := by
  have hlock (s : LockState) (hs : ∀ x ∈ s.waiting, x.node = t.node) :
      Grows n c 0 (c.modifyNode t.node (·.setLock l s)) :=
    .modifyNode_of_ne h hn (housed_setLock (h.housed _) hs l)
  unfold acquire
  dsimp only
  split
  · exact (hlock { (c.node t.node).lock l with holder := some t.id } (h.housed_lock _ l)).resume_of_ne hn body
  · refine hlock _ fun x hx => ?_
    rcases List.mem_append.1 hx with hx | hx
    · exact h.housed_lock _ l x hx
    · rw [List.mem_singleton.1 hx]

theorem grows_release_of_ne (hn : n ≠ m) (l : Lock) : Grows n c 0 (c.release m l) := by
  have hlock (s : LockState) (hs : ∀ x ∈ s.waiting, x.node = m) : Grows n c 0 (c.modifyNode m (·.setLock l s)) :=
    .modifyNode_of_ne h hn (housed_setLock (h.housed _) hs l)
  have hhoused := h.housed_lock m l
  unfold release
  dsimp only
  split
  · exact hlock _ hhoused
  · rename_i t rest hw
    rw [hw] at hhoused
    have hg := hlock { holder := some t.id, waiting := rest } fun x hx => hhoused x (List.mem_cons_of_mem _ hx)
    exact hg.put_of_ne (.enqueue hg.sound t) (by rw [hhoused t (List.mem_cons_self ..)]; exact hn)

theorem grows_launch_of_ne (hn : n ≠ m) (interval : Nat) : Grows n c 0 (c.answerLaunch m interval) := by
  have hg : Grows n c 0 (c.setScheduler m (some { ticker := .starting c.now interval })) :=
    grows_setScheduler_of_ne h hn fun st t hst ht => by cases hst; cases ht
  exact hg.put_of_ne (.spawn hg.sound m .scheduler _) hn

theorem grows_halt_of_ne (hn : n ≠ t.node) (next : Except String Unit → Operation Answer) :
    Grows n c 0 (c.answerHalt t next) := by
  have hquiet : Grows n c 0 c := .same h rfl rfl rfl rfl rfl
  have hgone : Grows n c 0 (c.setScheduler t.node none) :=
    grows_setScheduler_of_ne h hn fun st x hst => nomatch hst
  unfold answerHalt
  split
  · exact hquiet.resume_of_ne hn _
  · rename_i s _
    split
    · exact hgone.resume_of_ne hn _
    · exact hgone.resume_of_ne hn _
    · let waiting := { t with body := asking .halt next, pause := .nothing }
      have hg := grows_setScheduler_of_ne h hn (m := t.node)
          (s := some { s with closing := true, waiting := some waiting }) fun st x hst hx => by
        cases hst
        cases hx
        rfl
      exact hg.trans (grows_wakeScheduler_of_ne hg.sound hn)

theorem waiting_node {s : SchedulerState} (hs : (c.node m).scheduler = some s) {x : Task} (hx : s.waiting = some x) :
    x.node = m :=
  h.housed m x (mem_waiters.2 (.inr (.inr ⟨s, hs, hx⟩)))

theorem grows_tick_of_ne (hn : n ≠ t.node) (next : Bool → Operation Answer) : Grows n c 0 (c.answerTick t next) := by
  have hquiet : Grows n c 0 c := .same h rfl rfl rfl rfl rfl
  unfold answerTick
  split
  · exact hquiet.resume_of_ne hn _
  · rename_i s hs
    split
    · exact hquiet.resume_of_ne hn _
    · split
      · refine Grows.resume_of_ne (grows_setScheduler_of_ne h hn fun st x hst hx => ?_) hn _
        cases hst
        exact waiting_node h hs hx
      · exact hquiet.put_of_ne (.sleepUntil h _ _) hn

theorem grows_endScheduler_of_ne (hn : n ≠ m) (phase : SchedulerPhase) : Grows n c 0 (c.endScheduler m phase) := by
  have hset (s : SchedulerState) : Grows n c 0 (c.setScheduler m (some { s with phase, waiting := none })) :=
    grows_setScheduler_of_ne h hn fun st x hst hx => by cases hst; cases hx
  unfold endScheduler
  split
  · exact .same h rfl rfl rfl rfl rfl
  · rename_i s hs
    dsimp only
    split
    · rename_i x hx
      exact (hset s).put_of_ne (.enqueue (hset s).sound x) (by rw [waiting_node h hs hx]; exact hn)
    · exact hset s

/-- No request of another node brings anybody. -/
theorem grows_answer_of_ne (hn : n ≠ t.node) (q : Request) (next : q.Answer → Operation Answer) :
    Grows n c 0 (c.answer t q next) := by
  have hquiet : Grows n c 0 c := .same h rfl rfl rfl rfl rfl
  cases q with
  | store call => exact (returns_store h call next).of_ne hn
  | forward letter => exact (returns_forward h letter next).of_ne hn
  | dispatch key e => exact (returns_dispatch h key e next).of_ne hn
  | deliver key e => exact (returns_deliver h key e next).of_ne hn
  | report e => exact (returns_report h e next).of_ne hn
  | acquire l => exact grows_acquire_of_ne h hn l _
  | release l => exact (grows_release_of_ne h hn l).resume_of_ne hn _
  | launch interval => exact (grows_launch_of_ne h hn interval).resume_of_ne hn _
  | halt => exact grows_halt_of_ne h hn next
  | tick => exact grows_tick_of_ne h hn next
  | sleep time =>
    unfold answer
    dsimp only
    split
    · exact hquiet.resume_of_ne hn _
    · exact hquiet.put_of_ne (.sleepUntil h _ _) hn

theorem grows_finish_of_ne (hn : n ≠ t.node) (result : Except RepositoryError Answer) :
    Grows n c 0 (c.finish t result) := by
  unfold finish
  split
  · exact .same h rfl rfl rfl rfl rfl
  · exact .same h rfl rfl rfl rfl rfl
  · exact Grows.resume_of_ne (.same h rfl rfl rfl rfl rfl) hn _
  · exact grows_endScheduler_of_ne h hn _

/-- A step of another node brings nobody. -/
theorem grows_step_of_ne {rest : List Task} (hr : c.ready = t :: rest) (hn : n ≠ t.node) :
    Grows n { c with ready := rest } 0 c.step := by
  have hpop : Sound { c with ready := rest } := ⟨h.housed, h.sorted, h.crashing⟩
  have hset (r : Repository) : Grows n { c with ready := rest } 0 (setRepository { c with ready := rest } t.node r) :=
    .modifyNode_of_ne hpop hn (hpop.housed t.node)
  unfold step
  rw [hr]
  dsimp only
  split
  · rename_i result r _
    exact (hset r).trans (grows_finish_of_ne (hset r).sound hn result)
  · rename_i q r next _
    exact (hset r).trans (grows_answer_of_ne (hset r).sound hn q _)

end Others

end DurableAggregates.Cluster
