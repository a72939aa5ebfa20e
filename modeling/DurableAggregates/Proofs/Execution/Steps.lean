import DurableAggregates.Proofs.Execution.Runs

/-!
# Actions as steps of one key

For one key every action of a site is a step of its view, and `KeyStep` has the cases: nothing happens, the key is
dropped, it gets an entry, or a pass deals with it (`Site.keyStep`). What is to be shown of a key over whole runs
needs no more of the repository than these cases.
-/

namespace DurableAggregates

/-- The report of a pass that ended with one. -/
def Moment.report? (m : Moment) : Option Report :=
  match m.action, m.answer with
  | .pass, .ok (.report rep) => some rep
  | _, _ => none

/-- What concerns a key at a site. -/
def Site.view (x : Site) (key : CorrelationKey) : KeyView := x.repository.view x.world key

/-- What an action does with a key, and the report if it is a pass that ended with one. -/
inductive KeyStep (env : Environment) (s : Setup) (key : CorrelationKey) (b : KeyView) :
    Option Report → KeyView → Prop where
  | kept : KeyStep env s key b none b
  | dropped : KeyStep env s key b none { b with entry := none, record := none }
  | stored (v : Snapshot) (hv : v.Fits) : KeyStep env s key b none { b with entry := some v.encode }
  /-- A pass where recovery is off. -/
  | idle (p : Policy) (hp : s.policy? = .ok p) (hu : p.useRecovery = false) (rep : Report)
      (hl : ∀ l, key ∉ rep.list l) : KeyStep env s key b (some rep) b
  | passed (p : Policy) (hp : s.policy? = .ok p) (hu : p.useRecovery = true) (rep : Report) (l? : Option Listing)
      (c : KeyView) (h : KeyPass env s p key b l? c) (hl : ∀ l, key ∈ rep.list l ↔ l? = some l) :
      KeyStep env s key b (some rep) c

/-- Where recovery is on, a pass that ends with a report deals with the key. -/
theorem KeyStep.of_report {env : Environment} {s : Setup} {p : Policy} {key : CorrelationKey} {b c : KeyView}
    {rep : Report} (h : KeyStep env s key b (some rep) c) (hp : s.policy? = .ok p) (hu : p.useRecovery = true) :
    ∃ l?, KeyPass env s p key b l? c ∧ ∀ l, key ∈ rep.list l ↔ l? = some l := by
  cases h with
  | idle q hq hqu =>
    rw [hp] at hq
    cases hq
    rw [hu] at hqu
    cases hqu
  | passed q hq hqu rep l? c hkey hl =>
    rw [hp] at hq
    cases hq
    exact ⟨l?, hkey, hl⟩

theorem Report.mem_list {rep : Report} {key : CorrelationKey} {l? : Option Listing}
    (h : ∀ l, (rep.list l).count key = if l? = some l then 1 else 0) (l : Listing) :
    key ∈ rep.list l ↔ l? = some l := by
  rw [← List.count_pos_iff, h]
  split
  · exact ⟨fun _ => ‹_›, fun _ => Nat.one_pos⟩
  · exact ⟨fun hp => absurd hp (Nat.lt_irrefl 0), fun hl => absurd hl ‹_›⟩

namespace Site

open Repository

variable {env : Environment} {s : Setup} {x : Site} {a : Action} {key : CorrelationKey}

theorem report?_of_ne_pass (h : a ≠ .pass) : (x.moment env s a).report? = none := by
  unfold moment Moment.report?
  cases a with
  | pass => exact absurd rfl h
  | _ => rfl

theorem act_eq (env : Environment) (s : Setup) (x : Site) (a : Action) :
    x.act env s a = (((a.task s).exec env x.repository x.world).1,
      ⟨((a.task s).exec env x.repository x.world).2.1, ((a.task s).exec env x.repository x.world).2.2⟩) := rfl

/-- The answer to an action is made of the result of the operation that it asks for. -/
theorem act_of_exec {α : Type} {o : Operation α} {g : α → Cluster.Answer} {y : Except RepositoryError α}
    {t : Repository} {u : World} (ht : a.task s = o >>= fun b => pure (g b))
    (ho : o.exec env x.repository x.world = (y, t, u)) : x.act env s a = (y.map g, ⟨t, u⟩) := by
  rw [act_eq, ht, Operation.exec_bind_pure, ho]

/-- What asks for the policy first is refused by a repository that does not run, and changes nothing. -/
theorem act_of_stopped {α : Type} {f : Policy → Operation α} {g : α → Cluster.Answer}
    (ht : a.task s = (runningPolicy >>= f) >>= fun b => pure (g b)) (ha : x.repository.active = none) :
    x.act env s a = (.error .notRunning, x) := by
  have hexec : (runningPolicy >>= f).exec env x.repository x.world = (.error .notRunning, x.repository, x.world) :=
    Operation.exec_bind_error (runningPolicy_exec_none ha)
  rw [act_of_exec ht hexec]
  rfl

theorem act_state (env : Environment) (s : Setup) {p : Policy} (ha : x.repository.active = some p)
    (key : CorrelationKey) : (x.act env s (.state key)).1 =
      (((env.result x.world (.get key)).mapError .store).map
        (·.map fun _ => x.repository.stateOf key)).map .state := by
  rw [act_of_exec rfl (recoveryState?_exec ha)]

theorem act_pass (env : Environment) (s : Setup) (x : Site) :
    x.act env s .pass = ((((Repository.pass s).exec env x.repository x.world).1).map .report,
      ⟨((Repository.pass s).exec env x.repository x.world).2.1,
        ((Repository.pass s).exec env x.repository x.world).2.2⟩) :=
  act_of_exec rfl rfl

theorem act_confirm (env : Environment) (s : Setup) (x : Site) (id : String) :
    x.act env s (.confirm id) =
      (((Repository.confirm id).exec env x.repository x.world).1.map fun _ => .done,
        ⟨((Repository.confirm id).exec env x.repository x.world).2.1,
          ((Repository.confirm id).exec env x.repository x.world).2.2⟩) :=
  act_of_exec rfl rfl

theorem report?_pass (env : Environment) (s : Setup) (x : Site) :
    (x.moment env s .pass).report? = ((Repository.pass s).exec env x.repository x.world).1.toOption := by
  unfold moment
  rw [act_pass]
  cases ((Repository.pass s).exec env x.repository x.world).1 <;> rfl

/-- Without faults a pass of a running repository that recovers ends with a report. -/
theorem act_pass_of_healthy (he : env.Healthy) {p : Policy} (hp : s.policy? = .ok p) (hu : p.useRecovery = true)
    (hf : x.repository.Follows s) (hr : x.repository.isRunning = true) :
    ∃ rep, (x.act env s .pass).1 = .ok (.report rep) ∧ ∀ key, ∃ l?,
      KeyPass env s p key (x.view key) l? ((x.act env s .pass).2.view key) ∧
        ∀ l, key ∈ rep.list l ↔ l? = some l := by
  obtain ⟨q, hq⟩ := Option.isSome_iff_exists.1 hr
  rw [act_pass]
  rcases hf.pass_cases env x.world with ⟨hn, -⟩ | ⟨p', y, t, u, -, hp', hy, h⟩
  · rw [hn] at hq
    cases hq
  rw [hp] at hp'
  cases hp'
  rw [hy]
  cases h with
  | unlisted e hh => exact absurd he hh
  | idle hi =>
    rw [hu] at hi
    cases hi
  | completed _ rep _ _ _ hkeys =>
    refine ⟨rep, rfl, fun key => ?_⟩
    obtain ⟨l?, h, hl⟩ := hkeys key
    exact ⟨l?, h, Report.mem_list hl⟩

/-- An action is a step of the view of every key. -/
theorem keyStep (hf : x.repository.Follows s) (env : Environment) (a : Action) (key : CorrelationKey) :
    KeyStep env s key (x.view key) (x.moment env s a).report? ((x.act env s a).2.view key) := by
  by_cases ha : a = .pass
  · subst ha
    rw [report?_pass, act_pass]
    rcases hf.pass_cases env x.world with ⟨-, he⟩ | ⟨p, y, t, u, -, hp, he, h⟩
    · rw [he]
      exact .kept
    rw [he]
    have hkeys : x.repository.view (env.after x.world .keys) key = x.view key :=
      view_eq (by rw [Environment.data_after_keys]) rfl rfl rfl
    cases h with
    | unlisted e hh =>
      show KeyStep env s key (x.view key) none (x.repository.view (env.after x.world .keys) key)
      rw [hkeys]
      exact .kept
    | idle hu n =>
      show KeyStep env s key (x.view key) _ (x.repository.view (env.after x.world .keys) key)
      rw [hkeys]
      exact .idle p hp hu _ fun l => by cases l <;> exact List.not_mem_nil
    | completed hu rep t u ha hkeys =>
      obtain ⟨l?, h, hl⟩ := hkeys key
      exact .passed p hp hu rep l? _ h (Report.mem_list hl)
  · rw [report?_of_ne_pass ha]
    have h := action_steady env s x.repository x.world ha
    have hview (entry : Option (List UInt8)) (record : Option Record)
        (hd : (x.act env s a).2.world.store.data[key]? = entry)
        (hr : (x.act env s a).2.repository.records[key]? = record) :
        (x.act env s a).2.view key = { x.view key with entry, record } := by
      have hl : (x.act env s a).2.world.letters = x.world.letters := h.letters
      have hh : (x.act env s a).2.world.handed = x.world.handed := h.handed
      rw [view, Repository.view, hd, hr, hl, hh]
      rfl
    cases h.touched key with
    | kept hd hr =>
      rw [hview _ _ hd hr]
      exact .kept
    | dropped hd hr =>
      rw [hview _ _ hd hr]
      exact .dropped
    | stored v hv hd hr =>
      rw [hview _ _ hd hr]
      exact .stored v hv

end Site

end DurableAggregates
