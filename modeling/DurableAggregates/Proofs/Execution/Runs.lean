import DurableAggregates.Proofs.Execution.Actions
import DurableAggregates.Proofs.Execution.Passes

/-!
# Runs

A `Site` is a repository with the world it works on, a `Fleet` is any number of repositories that share one world;
both go on one action after another. `Site.history` notes every action with its answer and the sites around it, so
what has happened can be counted. `Reachable` are the repositories that actions lead to, whatever the store, its
faults and the collaborators do in between. A repository always follows the policy of its setup (`Reachable.follows`),
and a store whose entries can be read keeps that property (`Repository.Follows.sound`).
-/

namespace DurableAggregates

/-- The repositories that actions lead to, whatever else happens to the world in between. -/
inductive Reachable (s : Setup) : Repository → Prop where
  | new : Reachable s {}
  | act {r : Repository} (h : Reachable s r) (env : Environment) (w : World) (a : Action) :
      Reachable s ((a.task s).exec env r w).2.1

/-- A running repository has the policy of its setup. -/
def Repository.Follows (s : Setup) (r : Repository) : Prop := ∀ p, r.active = some p → s.policy? = .ok p

/-- The parts of a valid policy are those of the configuration. -/
theorem Config.policy?_eq_ok {c : Config} {p : Policy} (h : c.policy? = .ok p) :
    p.useRecovery = c.useRecovery ∧ p.maximumRedeliveries = c.maximumRedeliveries.toInt.toNat ∧
      p.deadLetterUri = c.deadLetterUri := by
  unfold policy? at h
  split at h
  · cases h
  split at h
  · cases h
  · cases h
    exact ⟨rfl, rfl, rfl⟩

/-- A budget is far from the largest number that is counted. -/
theorem Config.maximumRedeliveries_lt {c : Config} {p : Policy} (h : c.policy? = .ok p) :
    p.maximumRedeliveries < Record.limit := by
  rw [(Config.policy?_eq_ok h).2.1]
  have := c.maximumRedeliveries.toInt_lt
  unfold Record.limit
  omega

theorem Config.interval_of_policy? {c : Config} {p : Policy} (h : c.policy? = .ok p) :
    p.interval = c.recoveryIntervalMillis.toInt.toNat := by
  unfold policy? at h
  split at h
  · cases h
  split at h
  · cases h
  · cases h
    rfl

namespace Setup

variable {s : Setup} {p : Policy}

theorem policy?_eq_ok (h : s.policy? = .ok p) :
    s.config.policy? = .ok p ∧ ∀ uri, p.deadLetterUri = some uri → p.useRecovery = true → s.hasSink = true := by
  unfold policy? at h
  cases hc : s.config.policy? with
  | error e => rw [hc] at h; cases h
  | ok q =>
    rw [hc] at h
    simp only at h
    split at h
    · next uri hu =>
      split at h
      · cases h
      · next hs =>
        cases h
        refine ⟨rfl, fun _ _ hr => ?_⟩
        simpa [hr] using hs
    · next hu =>
      cases h
      refine ⟨rfl, fun uri h => ?_⟩
      rw [hu] at h
      cases h

theorem useRecovery_of_policy? (h : s.policy? = .ok p) : p.useRecovery = s.config.useRecovery :=
  (Config.policy?_eq_ok (policy?_eq_ok h).1).1

theorem interval_of_policy? (h : s.policy? = .ok p) : p.interval = s.config.recoveryIntervalMillis.toInt.toNat :=
  Config.interval_of_policy? (policy?_eq_ok h).1

theorem maximumRedeliveries_lt (h : s.policy? = .ok p) : p.maximumRedeliveries < Record.limit :=
  Config.maximumRedeliveries_lt (policy?_eq_ok h).1

/-- A running repository that recovers has a sink for its address. -/
theorem sinkAddress?_eq (h : s.policy? = .ok p) (hr : p.useRecovery = true) :
    Repository.sinkAddress? s p = p.deadLetterUri := by
  unfold Repository.sinkAddress?
  cases hu : p.deadLetterUri with
  | none => simp
  | some uri => rw [if_pos ((policy?_eq_ok h).2 uri hu hr)]

end Setup

namespace Repository

variable {env : Environment} {s : Setup} {r : Repository} {w : World} {p : Policy}

theorem follows_new (s : Setup) : ({} : Repository).Follows s := fun _ hp => nomatch hp

theorem Passed.active {x : Except RepositoryError Report} {t : Repository} {u : World}
    (h : Passed env s p r w x t u) : t.active = r.active := by
  cases h with
  | unlisted | idle => rfl
  | completed hp rep t u ha h => exact ha

/-- A pass is refused by a repository that is not running, and otherwise ends as a pass does. -/
theorem Follows.pass_cases (hf : r.Follows s) (env : Environment) (w : World) :
    (r.active = none ∧ (pass s).exec env r w = (.error .notRunning, r, w)) ∨
    ∃ p x t u, r.active = some p ∧ s.policy? = .ok p ∧ (pass s).exec env r w = (x, t, u) ∧
      Passed env s p r w x t u := by
  cases ha : r.active with
  | none =>
    refine .inl ⟨rfl, ?_⟩
    unfold pass
    rw [Operation.exec_bind_error (runningPolicy_exec_none ha)]
  | some p =>
    obtain ⟨x, t, u, he, h⟩ := pass_exec env w ha (Setup.useRecovery_of_policy? (hf p ha))
    exact .inr ⟨p, x, t, u, rfl, hf p ha, he, h⟩

theorem Follows.of_active {t : Repository} (hf : r.Follows s)
    (h : t.active = r.active ∨ t.active = none ∨ ∃ p, s.policy? = .ok p ∧ t.active = some p) : t.Follows s := by
  intro q hq
  rcases h with h | h | ⟨p, hp, h⟩
  · exact hf q (by rw [← h, hq])
  · rw [h] at hq
    cases hq
  · rw [h] at hq
    cases hq
    exact hp

/-- What holds before an action holds after it if a pass of a running repository and every other action keep it. -/
theorem Follows.act_cases {P : Repository → World → Prop} (hf : r.Follows s) {a : Action} (h : P r w)
    (hpass : ∀ p, r.active = some p → s.policy? = .ok p →
      P ((pass s).exec env r w).2.1 ((pass s).exec env r w).2.2)
    (hother : a ≠ .pass → P ((a.task s).exec env r w).2.1 ((a.task s).exec env r w).2.2) :
    P ((a.task s).exec env r w).2.1 ((a.task s).exec env r w).2.2 := by
  by_cases ha : a = .pass
  · subst ha
    show let y := (pass s >>= fun rep => pure (Cluster.Answer.report rep)).exec env r w; P y.2.1 y.2.2
    rw [Operation.exec_bind_pure]
    cases hp : r.active with
    | none =>
      rw [pass, Operation.exec_bind_error (runningPolicy_exec_none hp)]
      exact h
    | some p => exact hpass p hp (hf p hp)
  · exact hother ha

/-- Every action leaves a repository that follows the policy. -/
theorem Follows.act (hf : r.Follows s) (env : Environment) (w : World) (a : Action) :
    Repository.Follows s ((a.task s).exec env r w).2.1 := by
  refine hf.act_cases (P := fun t _ => t.Follows s) hf (fun p ha hp => ?_) fun ha => ?_
  · obtain ⟨x, t, u, he, h⟩ := pass_exec env w ha (Setup.useRecovery_of_policy? hp)
    rw [he]
    exact hf.of_active (.inl h.active)
  · exact hf.of_active (action_steady env s r w ha).active

end Repository

theorem Reachable.follows {s : Setup} {r : Repository} (h : Reachable s r) : r.Follows s := by
  induction h with
  | new => exact Repository.follows_new s
  | act h env w a ih => exact ih.act env w a

/-! ## Sound stores -/

theorem KeyPass.entry {env : Environment} {s : Setup} {p : Policy} {key : CorrelationKey} {b c : KeyView}
    {l? : Option Listing} (h : KeyPass env s p key b l? c) : c.entry = b.entry ∨ c.entry = none := by
  cases h with
  | absent | unread | handed | refused | kept => exact .inl rfl
  | moved => exact .inr rfl

namespace Repository

variable {env : Environment} {s : Setup} {r : Repository} {w : World} {p : Policy}

/-- A pass adds no key and changes no entry. -/
theorem Passed.entry {x : Except RepositoryError Report} {t : Repository} {u : World}
    (h : Passed env s p r w x t u) (key : CorrelationKey) :
    u.store.data[key]? = w.store.data[key]? ∨ u.store.data[key]? = none := by
  cases h with
  | unlisted | idle => exact .inl (by rw [Environment.data_after_keys])
  | completed hp rep t u ha h =>
    obtain ⟨l?, hk, -⟩ := h key
    exact hk.entry

theorem sound_of_steady {t : Repository} {u : World} (h : Steady s r w t u) (hw : w.store.Sound) : u.store.Sound := by
  intro key hk
  cases h.touched key with
  | kept hd hr =>
    rw [Store.snapshot?_congr hd]
    exact hw key ((Store.mem_congr hd).1 hk)
  | dropped hd hr => exact absurd hk ((getElem?_eq_none_iff ..).1 hd)
  | stored v hv hd hr =>
    rw [Store.snapshot?_of_encode hv hd]
    rfl

theorem Passed.sound {x : Except RepositoryError Report} {t : Repository} {u : World}
    (h : Passed env s p r w x t u) (hw : w.store.Sound) : u.store.Sound := by
  intro key hk
  rcases h.entry key with hd | hd
  · rw [Store.snapshot?_congr hd]
    exact hw key ((Store.mem_congr hd).1 hk)
  · exact absurd hk ((getElem?_eq_none_iff ..).1 hd)

/-- Entries that can be read stay so, and new ones can be read. -/
theorem Follows.sound (hf : r.Follows s) (env : Environment) (w : World) (a : Action) (hw : w.store.Sound) :
    ((a.task s).exec env r w).2.2.store.Sound := by
  refine hf.act_cases (P := fun _ u => u.store.Sound) hw (fun p ha hp => ?_) fun ha => ?_
  · obtain ⟨x, t, u, he, h⟩ := pass_exec env w ha (Setup.useRecovery_of_policy? hp)
    rw [he]
    exact h.sound hw
  · exact sound_of_steady (action_steady env s r w ha) hw

end Repository

/-! ## Several repositories -/

/-- Any number of repositories that share one world. -/
structure Fleet where
  repository : Nat → Repository := fun _ => {}
  world : World := {}

namespace Fleet

/-- The answer of one repository to an action, and the fleet after it. -/
def act (env : Environment) (setup : Nat → Setup) (f : Fleet) (i : Nat) (a : Action) :
    Except RepositoryError Cluster.Answer × Fleet :=
  let (answer, r, w) := (a.task (setup i)).exec env (f.repository i) f.world
  (answer, { repository := fun j => if j = i then r else f.repository j, world := w })

/-- The fleet after a row of actions, each on one of the repositories. -/
def run (env : Environment) (setup : Nat → Setup) (f : Fleet) (steps : List (Nat × Action)) : Fleet :=
  steps.foldl (fun f step => (f.act env setup step.1 step.2).2) f

/-- In every run all repositories follow their policies and the entries of the store can be read. -/
theorem run_invariant (env : Environment) (setup : Nat → Setup) {w : World} (hw : w.store.Sound)
    (steps : List (Nat × Action)) :
    (∀ i, ((run env setup { world := w } steps).repository i).Follows (setup i)) ∧
      (run env setup { world := w } steps).world.store.Sound := by
  suffices h : ∀ f : Fleet, (∀ i, (f.repository i).Follows (setup i)) → f.world.store.Sound →
      (∀ i, ((run env setup f steps).repository i).Follows (setup i)) ∧ (run env setup f steps).world.store.Sound from
    h { world := w } (fun i => Repository.follows_new (setup i)) hw
  induction steps with
  | nil => exact fun f hf hs => ⟨hf, hs⟩
  | cons step steps ih =>
    intro f hf hs
    refine ih (f.act env setup step.1 step.2).2 (fun i => ?_) ((hf step.1).sound env f.world step.2 hs)
    show Repository.Follows (setup i) (if i = step.1 then _ else _)
    by_cases hi : i = step.1
    · rw [if_pos hi, hi]
      exact (hf step.1).act env f.world step.2
    · rw [if_neg hi]
      exact hf i

end Fleet

/-! ## One repository -/

/-- A repository with the world it works on. -/
structure Site where
  repository : Repository := {}
  world : World := {}

/-- An action with its answer and the sites before and after it. -/
structure Moment where
  action : Action
  answer : Except RepositoryError Cluster.Answer
  before : Site
  after : Site

namespace Site

/-- The answer to an action and the site after it. -/
def act (env : Environment) (s : Setup) (x : Site) (a : Action) : Except RepositoryError Cluster.Answer × Site :=
  let (answer, r, w) := (a.task s).exec env x.repository x.world
  (answer, ⟨r, w⟩)

def moment (env : Environment) (s : Setup) (x : Site) (a : Action) : Moment :=
  ⟨a, (x.act env s a).1, x, (x.act env s a).2⟩

/-- The site after a row of actions. -/
def run (env : Environment) (s : Setup) (x : Site) (actions : List Action) : Site :=
  actions.foldl (fun x a => (x.act env s a).2) x

/-- What happens during a row of actions, the first first. -/
def history (env : Environment) (s : Setup) : Site → List Action → List Moment
  | _, [] => []
  | x, a :: actions => x.moment env s a :: history env s (x.act env s a).2 actions

variable {env : Environment} {s : Setup}

/-- What holds at the beginning and is kept by every action holds of every run and its history. -/
theorem run_induction {P : List Moment → Site → Prop} {x : Site} (h0 : P [] x)
    (hstep : ∀ past y a, P past y → P (past ++ [y.moment env s a]) (y.act env s a).2) (actions : List Action) :
    P (history env s x actions) (run env s x actions) := by
  suffices h : ∀ past y, P past y → P (past ++ history env s y actions) (run env s y actions) from h [] x h0
  induction actions with
  | nil =>
    intro past y hy
    rw [history, List.append_nil]
    exact hy
  | cons a actions ih =>
    intro past y hy
    have h := ih (past ++ [y.moment env s a]) (y.act env s a).2 (hstep past y a hy)
    rw [List.append_assoc] at h
    exact h

theorem run_reachable {w : World} (actions : List Action) :
    Reachable s (run env s { world := w } actions).repository :=
  run_induction (P := fun _ x => Reachable s x.repository) .new (fun _ y a hy => hy.act env y.world a) actions

/-- In every run the repository follows its policy, and a store that can be read stays so. -/
theorem run_follows {w : World} (actions : List Action) : (run env s { world := w } actions).repository.Follows s :=
  (run_reachable actions).follows

theorem run_sound {w : World} (hw : w.store.Sound) (actions : List Action) :
    (run env s { world := w } actions).world.store.Sound :=
  (run_induction (x := { world := w }) (P := fun _ x => x.repository.Follows s ∧ x.world.store.Sound)
    ⟨Repository.follows_new s, hw⟩ (fun _ y a hy => ⟨hy.1.act env y.world a, hy.1.sound env y.world a hy.2⟩) actions).2

end Site

end DurableAggregates
