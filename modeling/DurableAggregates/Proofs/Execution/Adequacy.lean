import DurableAggregates.Proofs.Execution.Basic
import DurableAggregates.Proofs.Execution.Plain

/-!
# Execution is what a cluster does

In a calm cluster, where no call takes time and the collaborators only note what they are given, a task of a node goes
on until it has finished, and its result, its repository and the store are those of `Operation.exec` in the
environment of the node (`begin_exec`). Redeliveries that it begins queue up behind it. A plain run is carried through
one request after another (`Goes.plain`); a pass is one between the acquisition and the release of its lock.
-/

namespace DurableAggregates

namespace Cluster

/-- Nothing makes a task of the node wait, and its sink does not react. -/
structure Calm (c : Cluster) (n : Nat) : Prop where
  known : n < c.nodes.length
  delays : c.delays = {}
  crashing : c.crashing = false
  failures : (c.node n).failures = 0
  quiet : ∀ k, (c.node n).sink = some k → k.reaction = none

/-- How the surroundings of a node in a calm cluster behave while one of its tasks goes on. -/
def environment (c : Cluster) (n : Nat) : Environment where
  faults := fun _ => c.store.faults
  sink := fun _ letter =>
    match (c.node n).sink with
    | none => .error (.unreachable letter.uri "no sink")
    | some k => if k.refused.contains letter.key then .error (.rejected s!"no thanks to {letter.key.text}") else .ok ()

/-- The tasks that redeliver what a task of a node has handed back. -/
def redeliveries (first n : Nat) (handed : List (CorrelationKey × Exchange)) : List Task :=
  handed.mapIdx fun i (key, e) => { id := first + i, node := n, role := .redelivery, body := redelivery key e }

/-- The node with another repository and with the letters that its sink has accepted. -/
def Node.after (node : Node) (r : Repository) (w : World) : Node :=
  { node with repository := r, letters := w.accepted.reverse ++ node.letters }

/-- The cluster when a task of a node has come to a repository and a world. -/
def after (c : Cluster) (n : Nat) (r : Repository) (w : World) : Cluster :=
  { c with
    store := w.store
    nodes := c.nodes.modify n (·.after r w)
    ready := c.ready ++ redeliveries c.next n w.handed
    next := c.next + w.handed.length }

variable {c : Cluster} {n : Nat} {r s : Repository} {w : World} {t : Task} {body : Operation Answer}

theorem nodes_modify_congr {f g : Node → Node} (h : f (c.node n) = g (c.node n)) :
    c.nodes.modify n f = c.nodes.modify n g := by
  refine List.ext_getElem? fun i => ?_
  rw [List.getElem?_modify, List.getElem?_modify]
  by_cases hi : n = i
  · subst hi
    cases hn : c.nodes[n]? with
    | none => rfl
    | some m =>
      have hc : c.node n = m := by rw [node, hn]; rfl
      rw [hc] at h
      simp [h]
  · simp [hi]

theorem node_after (hn : n < c.nodes.length) : (c.after n r w).node n = (c.node n).after r w := by
  simp [node, after, hn]

theorem after_start : c.after n (c.node n).repository { store := c.store } = c := by
  have hn : c.nodes.modify n (·.after (c.node n).repository { store := c.store }) = c.nodes.modify n id :=
    nodes_modify_congr rfl
  rw [after, hn, List.modify_id]
  simp [redeliveries]

theorem setRepository_after : (c.after n r w).setRepository n s = c.after n s w := by
  unfold setRepository modifyNode after
  rw [List.modify_modify_eq]
  rfl

theorem redeliveries_concat (first n : Nat) (handed : List (CorrelationKey × Exchange)) (key : CorrelationKey)
    (e : Exchange) : redeliveries first n (handed ++ [(key, e)]) = redeliveries first n handed ++
      [{ id := first + handed.length, node := n, role := .redelivery, body := redelivery key e }] := by
  rw [redeliveries, List.mapIdx_concat]
  rfl

/-! ## Single steps -/

theorem step_resume (hn : t.node < c.nodes.length) : ((c.after t.node r w).resume t body).step =
    match body.run r with
    | .finished x s => (c.after t.node s w).finish { t with body, pause := .nothing } x
    | .asking q s next =>
      (c.after t.node s w).answer { t with body, pause := .nothing } q fun a => ExceptT.mk (next a) := by
  show (match body.run ((c.after t.node r w).node t.node).repository with
    | .finished x s => ((c.after t.node r w).setRepository t.node s).finish { t with body, pause := .nothing } x
    | .asking q s next => ((c.after t.node r w).setRepository t.node s).answer { t with body, pause := .nothing } q
        fun a => ExceptT.mk (next a)) = _
  simp only [node_after hn, Node.after, setRepository_after]

/-- Calls leave the faults of a store alone. -/
theorem faults_perform (m : Store) (call : Store.Call) : (m.perform call).2.faults = m.faults := by
  cases call with
  | put key v => simp only [Store.perform, Store.put]; split <;> rfl
  | get key => simp only [Store.perform, Store.get]; split <;> rfl
  | remove key => simp only [Store.perform, Store.remove]; split <;> rfl
  | keys => simp only [Store.perform, Store.keys]; split <;> rfl

theorem faults_answer (hw : w.store.faults = c.store.faults) (q : Request) :
    ((c.environment n).answer w q).2.store.faults = c.store.faults := by
  cases q with
  | store call => exact faults_perform _ call
  | _ => exact hw

/-- A store call is made now. -/
theorem answerStore_calm (h : c.Calm t.node) (hw : w.store.faults = c.store.faults) (call : Store.Call)
    (next : call.Result → Operation Answer) :
    (c.after t.node r w).answerStore { t with body, pause := .nothing } call next =
      (c.after t.node r ((c.environment t.node).after w call)).resume t
        (next ((c.environment t.node).result w call)) := by
  have hnow : (c.environment t.node).storeNow w = w.store := by
    show { w.store with faults := c.store.faults } = w.store
    rw [← hw]
  have hdelay : (c.after t.node r w).delays.of call = 0 := by
    show c.delays.of call = 0
    rw [h.delays]
    cases call <;> rfl
  have hcrash : (c.after t.node r w).crashing = false := h.crashing
  unfold answerStore
  rw [hdelay, if_neg (fun hx => absurd hx.2 (Nat.lt_irrefl 0)), Environment.result, Environment.after, hnow]
  cases call with
  | keys =>
    show (if (c.after t.node r w).crashing = true then _ else _) = _
    rw [if_neg (by simp [hcrash])]
    rfl
  | put | get | remove => rfl

theorem after_refused (letter : DeadLetter) (e : DeadLetterError) :
    c.after n r { w with letters := w.letters ++ [(letter, .error e)] } = c.after n r w := by
  have ha : World.accepted { w with letters := w.letters ++ [(letter, .error e)] } = w.accepted := by
    simp [World.accepted, Except.isOk, Except.toBool]
  simp only [after, Node.after, ha]

theorem after_accepted (letter : DeadLetter) :
    (c.after n r w).modifyNode n ({ · with letters := letter :: (w.accepted.reverse ++ (c.node n).letters) }) =
      c.after n r { w with letters := w.letters ++ [(letter, .ok ())] } := by
  have ha : World.accepted { w with letters := w.letters ++ [(letter, .ok ())] } = w.accepted ++ [letter] := by
    simp [World.accepted, Except.isOk, Except.toBool]
  simp only [modifyNode, after, List.modify_modify_eq, Node.after, ha]
  rw [nodes_modify_congr]
  simp

/-- The sink notes a letter or refuses it. -/
theorem answerForward_calm (h : c.Calm t.node) (letter : DeadLetter)
    (next : Except DeadLetterError Unit → Operation Answer) :
    (c.after t.node r w).answerForward { t with body, pause := .nothing } letter next =
      (c.after t.node r ((c.environment t.node).offering w letter)).resume t
        (next ((c.environment t.node).verdict w letter)) := by
  unfold answerForward Environment.offering Environment.verdict environment
  rw [node_after h.known]
  dsimp only [Node.after]
  cases hk : (c.node t.node).sink with
  | none =>
    dsimp only
    rw [after_refused]
    rfl
  | some k =>
    dsimp only
    by_cases hr : k.refused.contains letter.key = true
    · rw [if_pos hr, if_pos hr, after_refused]
      rfl
    · rw [if_neg hr, if_neg hr, h.failures, if_neg (Nat.lt_irrefl 0), after_accepted]
      have hreact : (do next (← k.react letter) : Operation Answer) = next (.ok ()) := by
        unfold Sink.react
        rw [h.quiet k hk]
        rfl
      rw [hreact]
      rfl

/-- A plain request is answered at once, as the environment of the node answers it. -/
theorem answer_plain (h : c.Calm t.node) (hw : w.store.faults = c.store.faults) {q : Request}
    (hq : q.isPlain = true) (next : q.Answer → Operation Answer) :
    (c.after t.node r w).answer { t with body, pause := .nothing } q next =
      (c.after t.node r ((c.environment t.node).answer w q).2).resume t
        (next ((c.environment t.node).answer w q).1) := by
  cases q with
  | store call => exact answerStore_calm h hw call next
  | forward letter => exact answerForward_calm h letter next
  | dispatch key e =>
    show ((c.after t.node r w).spawn t.node .redelivery (redelivery key e)).resume t (next ()) =
      (c.after t.node r { w with handed := w.handed ++ [(key, e)] }).resume t (next ())
    have hs : (c.after t.node r w).spawn t.node .redelivery (redelivery key e) =
        c.after t.node r { w with handed := w.handed ++ [(key, e)] } := by
      simp only [spawn, enqueue, after, redeliveries_concat, List.length_append, List.append_assoc]
      rfl
    rw [hs]
  | _ => cases hq

/-! ## Whole tasks -/

/-- Some number of steps leads from one cluster to another. -/
def Goes (c d : Cluster) : Prop := ∃ k, steps k c = d

theorem steps_of_idle (hc : c.ready = []) (k : Nat) : steps k c = c := by
  cases k with
  | zero => rfl
  | succ k => rw [steps, hc]; rfl

theorem steps_add (j k : Nat) (c : Cluster) : steps (j + k) c = steps k (steps j c) := by
  induction j generalizing c with
  | zero => rw [Nat.zero_add]; rfl
  | succ j ih =>
    cases hc : c.ready with
    | nil => rw [steps_of_idle hc, steps_of_idle hc, steps_of_idle hc]
    | cons t rest =>
      have hs (k : Nat) : steps (k + 1) c = steps k c.step := by rw [steps, hc]; rfl
      rw [Nat.add_right_comm, hs, hs, ih]

theorem Goes.trans {d e : Cluster} (h : Goes c d) (h' : Goes d e) : Goes c e := by
  obtain ⟨j, rfl⟩ := h
  obtain ⟨k, rfl⟩ := h'
  exact ⟨j + k, steps_add j k c⟩

theorem Goes.step (t : Task) (body : Operation Answer) : Goes (c.resume t body) (c.resume t body).step := ⟨1, rfl⟩

/-- A task goes through a plain run, request by request, to whatever it does after it. -/
theorem Goes.plain {α : Type} (h : c.Calm t.node) {x : Run α} {P : α → Prop} {p : Option Policy}
    (hx : x.Confined Request.isPlain P p)
    (f : α → Repository → Run (Except RepositoryError Answer)) (body : Operation Answer) (r : Repository) (w : World)
    (hw : w.store.faults = c.store.faults) (hb : body.run r = x.bind f) :
    ∃ body' r', Goes ((c.after t.node r w).resume t body)
        ((c.after t.node r' (x.exec (c.environment t.node) w).2.2).resume t body') ∧
      body'.run r' = f (x.exec (c.environment t.node) w).1 (x.exec (c.environment t.node) w).2.1 ∧
      (x.exec (c.environment t.node) w).2.2.store.faults = c.store.faults := by
  induction hx generalizing body r w with
  | finished => exact ⟨body, r, ⟨0, rfl⟩, hb, hw⟩
  | @asking p q hq s hr next hplain ih =>
    let y := (c.environment t.node).answer w q
    obtain ⟨body', r', hg, hb', hw'⟩ := ih y.1 s (ExceptT.mk fun u => (next y.1 u).bind f) s y.2
      (faults_answer hw q) rfl
    refine ⟨body', r', .trans (.step t body) ?_, hb', hw'⟩
    have hstep : ((c.after t.node r w).resume t body).step =
        (c.after t.node s y.2).resume t (ExceptT.mk fun u => (next y.1 u).bind f) := by
      rw [step_resume h.known, hb]
      exact answer_plain h hw hq _
    rw [hstep]
    exact hg

/-- A task that does something plain comes to the result of its execution. -/
theorem Goes.exec (h : c.Calm t.node) {P : Except RepositoryError Answer → Prop} {p : Option Policy}
    (hbody : (t.body.run (c.node t.node).repository).Confined Request.isPlain P p) (hpause : t.pause = .nothing) :
    let y := t.body.exec (c.environment t.node) (c.node t.node).repository { store := c.store }
    ∃ body, Goes { c with ready := t :: c.ready }
      ((c.after t.node y.2.1 y.2.2).finish { t with body, pause := .nothing } y.1) := by
  intro y
  have hstart : { c with ready := t :: c.ready } =
      (c.after t.node (c.node t.node).repository { store := c.store }).resume t t.body := by
    rw [after_start, resume, ← hpause]
  obtain ⟨body, r, hg, hb, -⟩ := Goes.plain h hbody .finished t.body
    (c.node t.node).repository { store := c.store } rfl (Run.bind_finished _).symm
  refine ⟨body, ?_⟩
  rw [hstart]
  refine hg.trans ?_
  have hs := Goes.step (c := c.after t.node r y.2.2) t body
  rw [step_resume h.known, hb] at hs
  exact hs

/-! ## Locks -/

variable {l : Lock} {m : LockState}

theorem node_modifyNode (hn : n < c.nodes.length) (f : Node → Node) : (c.modifyNode n f).node n = f (c.node n) := by
  simp [node, modifyNode, hn]

theorem sink_setLock (m : LockState) (x : Node) : (x.setLock l m).sink = x.sink := by
  cases l <;> rfl

theorem Calm.setLock (h : c.Calm n) (l : Lock) (m : LockState) : (c.modifyNode n (·.setLock l m)).Calm n := by
  have hn : (c.modifyNode n (·.setLock l m)).node n = (c.node n).setLock l m := node_modifyNode h.known _
  refine ⟨?_, h.delays, h.crashing, ?_, fun k hk => h.quiet k ?_⟩
  · show n < (c.nodes.modify n _).length
    rw [List.length_modify]
    exact h.known
  · rw [hn, ← h.failures]
    cases l <;> rfl
  · rwa [hn, sink_setLock] at hk

theorem environment_setLock (hn : n < c.nodes.length) (l : Lock) (m : LockState) :
    (c.modifyNode n (·.setLock l m)).environment n = c.environment n := by
  unfold environment
  rw [node_modifyNode hn, sink_setLock]
  rfl

theorem lock_after (hn : n < c.nodes.length) : ((c.after n r w).node n).lock l = (c.node n).lock l := by
  rw [node_after hn]
  cases l <;> rfl

theorem setLock_after : (c.after n r w).modifyNode n (·.setLock l m) =
    (c.modifyNode n (·.setLock l m)).after n r w := by
  unfold modifyNode after
  simp only [List.modify_modify_eq]
  congr 2
  funext x
  cases l <;> rfl

/-- A lock that was free is so again after it was set and given back. -/
theorem setLock_setLock (hl : (c.node n).lock l = {}) :
    (c.modifyNode n (·.setLock l m)).modifyNode n (·.setLock l {}) = c := by
  have hm : (c.nodes.modify n (·.setLock l m)).modify n (·.setLock l {}) = c.nodes.modify n id := by
    rw [List.modify_modify_eq]
    refine nodes_modify_congr ?_
    show ((c.node n).setLock l m).setLock l {} = c.node n
    rw [← hl]
    cases l <;> rfl
  unfold modifyNode
  dsimp only
  rw [hm, List.modify_id]

theorem acquire_free (hn : t.node < c.nodes.length) (hl : (c.node t.node).lock l = {}) (body' : Operation Answer) :
    (c.after t.node r w).acquire { t with body, pause := .nothing } l body' =
      ((c.modifyNode t.node (·.setLock l { holder := some t.id })).after t.node r w).resume t body' := by
  unfold acquire
  dsimp only
  rw [lock_after hn, hl, setLock_after]
  rfl

theorem release_held (hn : n < c.nodes.length) (hl : (c.node n).lock l = {}) (id : Nat) :
    ((c.modifyNode n (·.setLock l { holder := some id })).after n r w).release n l = c.after n r w := by
  have hlock : (((c.modifyNode n (·.setLock l { holder := some id })).after n r w).node n).lock l =
      { holder := some id } := by
    rw [lock_after (by show n < (c.nodes.modify n _).length; rw [List.length_modify]; exact hn), node_modifyNode hn]
    cases l <;> rfl
  unfold release
  dsimp only
  rw [hlock, setLock_after]
  dsimp only
  rw [setLock_setLock hl]

/-- A task that does something plain while it holds a lock that was free comes to the result of its execution. -/
theorem Goes.holding {α : Type} (h : c.Calm t.node) (hl : (c.node t.node).lock l = {}) (hpause : t.pause = .nothing)
    {x : Procedure α} (hx : x.Within Request.isPlain) (g : α → Except RepositoryError Answer)
    (hbody : t.body.run (c.node t.node).repository = .asking (.acquire l) (c.node t.node).repository fun _ s =>
      (x s).bind fun a s => .asking (.release l) s fun _ s => .finished (g a) s) :
    let y := t.body.exec (c.environment t.node) (c.node t.node).repository { store := c.store }
    ∃ body, Goes { c with ready := t :: c.ready }
      ((c.after t.node y.2.1 y.2.2).finish { t with body, pause := .nothing } y.1) := by
  intro y
  let r := (c.node t.node).repository
  let z := (x r).exec (c.environment t.node) { store := c.store }
  have hy : y = (g z.1, z.2.1, z.2.2) := by
    show (t.body.run r).exec (c.environment t.node) { store := c.store } = _
    rw [hbody]
    show ((x r).bind _).exec (c.environment t.node) { store := c.store } = _
    rw [Run.exec_bind]
    rfl
  let d := c.modifyNode t.node (·.setLock l { holder := some t.id })
  let inside : Operation Answer :=
    ExceptT.mk fun s => (x s).bind fun a s => .asking (.release l) s fun _ s => .finished (g a) s
  have hstart : { c with ready := t :: c.ready } = (c.after t.node r { store := c.store }).resume t t.body := by
    rw [after_start, resume, ← hpause]
  have hacquire : ((c.after t.node r { store := c.store }).resume t t.body).step =
      (d.after t.node r { store := c.store }).resume t inside := by
    rw [step_resume h.known, hbody]
    exact acquire_free h.known hl inside
  obtain ⟨body, s, hg, hb, -⟩ := Goes.plain (h.setLock l { holder := some t.id }) (hx r)
    (fun a s => .asking (.release l) s fun _ s => .finished (g a) s) inside r { store := c.store } rfl rfl
  rw [environment_setLock h.known] at hg hb
  let last : Operation Answer := ExceptT.mk fun s => .finished (g z.1) s
  have hrelease : ((d.after t.node s z.2.2).resume t body).step = (c.after t.node z.2.1 z.2.2).resume t last := by
    rw [step_resume (h.setLock l _).known, hb]
    show ((d.after t.node z.2.1 z.2.2).release t.node l).resume t last = _
    rw [release_held h.known hl]
  have hend : ((c.after t.node z.2.1 z.2.2).resume t last).step =
      (c.after t.node z.2.1 z.2.2).finish { t with body := last, pause := .nothing } (g z.1) := by
    rw [step_resume h.known]
    rfl
  refine ⟨last, ?_⟩
  rw [hstart, hy]
  have h1 := Goes.step (c := c.after t.node r { store := c.store }) t t.body
  have h2 := Goes.step (c := d.after t.node s z.2.2) t body
  have h3 := Goes.step (c := c.after t.node z.2.1 z.2.2) t last
  rw [hacquire] at h1
  rw [hrelease] at h2
  rw [hend] at h3
  exact ((h1.trans hg).trans h2).trans h3

/-! ## Steps of a script -/

theorem pass_task_run (s : Setup) (r : Repository) : (NodeStep.pass.task s).run r =
    ((Repository.runningPolicy.run r).bind fun a r' =>
      (ExceptT.bindCont (fun p => Operation.holding .pass (Repository.passOver s p)) a) r').bind fun a r' =>
        (ExceptT.bindCont (fun rep => (pure (Answer.report rep) : Operation Answer)) a) r' := rfl

/-- A pass of a running repository holds its lock while it goes over the keys. -/
theorem pass_run {p : Policy} (ha : r.active = some p) (s : Setup) :
    (NodeStep.pass.task s).run r = .asking (.acquire .pass) r fun _ r' =>
      ((Repository.passOver s p).run r').bind fun a r' =>
        .asking (.release .pass) r' fun _ r' => .finished (a.map .report) r' := by
  rw [pass_task_run, Repository.runningPolicy_run ha]
  refine congrArg (Run.asking (.acquire .pass) r) (funext fun _ => funext fun r' => ?_)
  show ((((Repository.passOver s p).run r').bind fun a r' => .asking (.release .pass) r' fun _ r' =>
    .finished a r').bind _) = _
  rw [Run.bind_bind]
  refine congrArg (Run.bind _) (funext fun a => funext fun r' => ?_)
  cases a <;> rfl

/-- A pass of a repository that is not running finishes at once. -/
theorem pass_run_none (ha : r.active = none) (s : Setup) :
    (NodeStep.pass.task s).run r = .finished (.error .notRunning) r := by
  rw [pass_task_run, Repository.runningPolicy_run_none ha]
  rfl

/--
A step of a script that is an operation on a node, but no start and no stop, leads a calm cluster whose tasks all wait
to the result of its execution.
-/
theorem begin_exec (h : c.Calm n) (hready : c.ready = []) (hl : (c.node n).pass = {}) {x : NodeStep}
    (hstart : x ≠ .start) (hstop : x ≠ .stop) :
    let y := (x.task (c.node n).setup).exec (c.environment n) (c.node n).repository { store := c.store }
    Goes (c.begin (.node n x)).2
      { { c with next := c.next + 1 }.after n y.2.1 y.2.2 with results := (c.next, .ofExcept y.1) :: c.results } := by
  intro y
  let d := { c with next := c.next + 1 }
  let t : Task := { id := c.next, node := n, role := .awaited, body := x.task (c.node n).setup }
  have hd : d.Calm t.node := ⟨h.known, h.delays, h.crashing, h.failures, h.quiet⟩
  have hbegin : (c.begin (.node n x)).2 = { d with ready := t :: d.ready } := by
    show { d with ready := d.ready ++ [t] } = _
    have hr : d.ready = [] := hready
    rw [hr]
    rfl
  rw [hbegin]
  by_cases hpass : x = .pass
  · subst hpass
    cases ha : (c.node n).repository.active with
    | none =>
      have hplain : (t.body.run (d.node t.node).repository).Confined Request.isPlain (fun _ => True) none := by
        show ((NodeStep.pass.task (c.node n).setup).run (c.node n).repository).Confined _ _ _
        rw [pass_run_none ha]
        exact .finished trivial ha
      obtain ⟨body, hg⟩ := Goes.exec hd hplain rfl
      exact hg
    | some p =>
      obtain ⟨body, hg⟩ := Goes.holding (l := .pass) hd hl rfl (Repository.plain_passOver (c.node n).setup p)
        (fun a => a.map .report) (pass_run ha (c.node n).setup)
      exact hg
  · obtain ⟨body, hg⟩ := Goes.exec hd (NodeStep.plain_task (c.node n).setup hstart hstop hpass _) rfl
    exact hg

end Cluster

end DurableAggregates
