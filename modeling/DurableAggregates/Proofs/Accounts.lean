import DurableAggregates.Proofs.Execution.Counting
import DurableAggregates.Proofs.Execution.Steps

/-!
# Reports and counters account for every key

A report comes from one end for each listed key. So its lists have no duplicates and no key in common, and with the
skipped keys they add up to what was scanned (`Report.Accounts`), whatever the store and the sink answer and whatever
else happens to the repository during the pass. What a pass counts is what its report says. Over a whole run the
counters of a repository are the numbers of successful calls and the summed lengths of the lists of its reports
(`counters_account`).
-/

namespace DurableAggregates

/-! ## Reports -/

/-- Every scanned key has exactly one outcome. -/
structure Report.Accounts (rep : Report) (scanned : List CorrelationKey) : Prop where
  /-- The report is made of one end for each key. -/
  ends : ∃ ends : List (CorrelationKey × Except RepositoryError Outcome), ends.map (·.1) = scanned ∧
    rep = ({ scanned := scanned.length } : Report).addAll ends
  nodup : ∀ l, (rep.list l).Nodup
  disjoint : ∀ l m, l ≠ m → (rep.list l).Disjoint (rep.list m)
  subset : ∀ l, rep.list l ⊆ scanned
  scanned : rep.scanned = scanned.length
  total : rep.redelivered.length + rep.deadLettered.length + rep.discarded.length + rep.failed.length + rep.skipped =
    rep.scanned

namespace Report

variable {rep : Report} {ends : List (CorrelationKey × Except RepositoryError Outcome)}

theorem list_addAll (rep : Report) (ends : List (CorrelationKey × Except RepositoryError Outcome)) (l : Listing) :
    (rep.addAll ends).list l = rep.list l ++ (ends.filter fun e => listing? e.2 = some l).map (·.1) := by
  induction ends generalizing rep with
  | nil => simp [addAll]
  | cons e ends ih =>
    show ((rep.add e.1 e.2).addAll ends).list l = _
    rw [ih, list_add, List.append_assoc, List.filter_cons]
    by_cases hl : listing? e.2 = some l <;> simp [hl]

theorem scanned_add (rep : Report) (key : CorrelationKey) (x : Except RepositoryError Outcome) :
    (rep.add key x).scanned = rep.scanned := by
  rcases x with e | o
  · rfl
  · cases o <;> rfl

theorem accounted_add (rep : Report) (key : CorrelationKey) (x : Except RepositoryError Outcome) :
    (rep.add key x).accounted = rep.accounted + 1 := by
  cases x with
  | ok o => exact accounted_record rep key o
  | error e => exact accounted_recordFailure rep key

theorem scanned_addAll (rep : Report) (ends : List (CorrelationKey × Except RepositoryError Outcome)) :
    (rep.addAll ends).scanned = rep.scanned ∧ (rep.addAll ends).accounted = rep.accounted + ends.length := by
  induction ends generalizing rep with
  | nil => exact ⟨rfl, rfl⟩
  | cons e ends ih =>
    obtain ⟨hs, ha⟩ := ih (rep.add e.1 e.2)
    refine ⟨hs.trans (scanned_add rep e.1 e.2), ha.trans ?_⟩
    rw [accounted_add, List.length_cons]
    omega

/-- One end for each of some distinct keys makes an account of them. -/
theorem accounts_addAll (hn : (ends.map (·.1)).Nodup) :
    (({ scanned := ends.length } : Report).addAll ends).Accounts (ends.map (·.1)) := by
  have hlist (l : Listing) : (({ scanned := ends.length } : Report).addAll ends).list l =
      (ends.filter fun e => listing? e.2 = some l).map (·.1) := by
    rw [list_addAll]
    cases l <;> rfl
  obtain ⟨hscanned, haccounted⟩ := scanned_addAll { scanned := ends.length } ends
  refine ⟨⟨ends, rfl, by rw [List.length_map]⟩, fun l => ?_, fun l m hne => ?_, fun l => ?_, ?_, ?_⟩
  · rw [hlist]
    exact hn.sublist (List.filter_sublist.map _)
  · rw [hlist, hlist]
    intro key hl hm
    obtain ⟨e, he, rfl⟩ := List.mem_map.1 hl
    obtain ⟨f, hf, hfe⟩ := List.mem_map.1 hm
    obtain ⟨he, hel⟩ := List.mem_filter.1 he
    obtain ⟨hf, hfm⟩ := List.mem_filter.1 hf
    obtain rfl : f = e := List.inj_on_of_nodup_map hn hf he hfe
    simp only [decide_eq_true_eq] at hel hfm
    rw [hel] at hfm
    exact hne (Option.some.inj hfm)
  · rw [hlist]
    exact (List.filter_sublist.map _).subset
  · rw [hscanned, List.length_map]
  · exact haccounted.trans (by rw [hscanned]; exact Nat.zero_add _)

end Report

/-! ## One action -/

namespace Moment

/-- An exchange was added. -/
def hasAdded (m : Moment) : Bool := m.action.isAdd && m.answer.isOk

/-- A key was removed on demand. -/
def hasRemoved (m : Moment) : Bool :=
  match m.action with
  | .remove _ => m.answer.isOk
  | _ => false

/-- A key has left the store by a confirmation. -/
def hasConfirmed (m : Moment) : Bool :=
  match m.action with
  | .confirm _ => m.before.world.store.data.keys.any fun key => !m.after.world.store.data.contains key
  | _ => false

/-- A pass of a repository that recovers has come to its end. -/
def hasRecovered (s : Setup) (m : Moment) : Bool := m.report?.isSome && s.config.useRecovery

/-- The keys that the report of a pass lists. -/
def listed (l : Listing) (m : Moment) : List CorrelationKey := m.report?.elim [] (·.list l)

/-- What an action has to count; `rejected` tells whether it is a redelivery that the engine rejected. -/
def earned (s : Setup) (rejected : Bool) (m : Moment) : Tally where
  adds := m.hasAdded.toNat
  removes := m.hasRemoved.toNat
  confirms := m.hasConfirmed.toNat
  passes := (m.hasRecovered s).toNat
  redeliveries := (m.listed .redelivered).length
  failures := (m.listed .failed).length + rejected.toNat
  deadLetters := (m.listed .deadLettered).length
  discards := (m.listed .discarded).length

end Moment

/-- An action of a repository in the world that it finds, whatever others have done to it before. -/
structure Occasion where
  env : Environment := {}
  world : World := {}
  action : Action

namespace Occasion

/-- What happens to a repository on an occasion. -/
def moment (s : Setup) (r : Repository) (o : Occasion) : Moment := Site.moment o.env s ⟨r, o.world⟩ o.action

/-- A redelivery that the engine rejects. -/
def rejected (o : Occasion) : Bool :=
  match o.action with
  | .redelivery key e => !(o.env.engine o.world.moment key e).isOk
  | _ => false

/-- The tally of the repository grows by what the action has to count. -/
def Tallied (s : Setup) (r : Repository) (o : Occasion) : Prop :=
  (o.moment s r).after.repository.tally = r.tally + (o.moment s r).earned s o.rejected

variable {env : Environment} {s : Setup} {r t : Repository} {w u : World} {a : Action}
  {x : Except RepositoryError Cluster.Answer}

theorem tallied_of_act (hact : Site.act env s ⟨r, w⟩ a = (x, ⟨t, u⟩))
    (h : t.tally = r.tally + (Moment.mk a x ⟨r, w⟩ ⟨t, u⟩).earned s (Occasion.rejected ⟨env, w, a⟩)) :
    Tallied s r ⟨env, w, a⟩ := by
  unfold Tallied moment Site.moment
  rw [hact]
  exact h

/-- What has nothing to count leaves the tally alone. -/
theorem tallied_of_quiet (hact : Site.act env s ⟨r, w⟩ a = (x, ⟨t, u⟩)) (ht : t.tally = r.tally)
    (h : (Moment.mk a x ⟨r, w⟩ ⟨t, u⟩).earned s (Occasion.rejected ⟨env, w, a⟩) = {}) : Tallied s r ⟨env, w, a⟩ :=
  tallied_of_act hact (by rw [h, ht, Tally.add_zero])

end Occasion

namespace Repository

open Operation Environment Occasion Site

variable {env : Environment} {s : Setup} {r : Repository} {w u : World} {p : Policy} {key : CorrelationKey}
  {id : String}

theorem tallied_start : Tallied s r ⟨env, w, .start⟩ := by
  rcases start_exec env s r w with ⟨-, hx⟩ | ⟨e, f, -, hx, -⟩ | ⟨p, -, hx⟩
  all_goals exact tallied_of_quiet (act_of_exec rfl hx) rfl rfl

theorem tallied_stop : Tallied s r ⟨env, w, .stop⟩ := by
  obtain ⟨x, e, hx, -⟩ := stop_exec env r w
  exact tallied_of_quiet (act_of_exec rfl hx) rfl rfl

theorem tallied_add {e : Exchange} (he : e.Fits) : Tallied s r ⟨env, w, .add key e he⟩ := by
  cases ha : r.active with
  | none => exact tallied_of_quiet (act_of_stopped rfl ha) rfl rfl
  | some p =>
    rcases add_exec env w key ha e with ⟨fault, -, hx⟩ | ⟨v, -, ⟨f, -, hx⟩ | ⟨old, -, hx⟩⟩
    · exact tallied_of_quiet (act_of_exec rfl hx) rfl rfl
    · exact tallied_of_quiet (act_of_exec rfl hx) rfl rfl
    · exact tallied_of_act (act_of_exec rfl hx) (Tally.count_eq_add _ .adds)

theorem tallied_remove : Tallied s r ⟨env, w, .remove key⟩ := by
  cases ha : r.active with
  | none => exact tallied_of_quiet (act_of_stopped rfl ha) rfl rfl
  | some p =>
    rcases remove_exec env w key ha with ⟨-, hx⟩ | ⟨e, -, hx⟩
    · exact tallied_of_act (act_of_exec rfl hx) (Tally.count_eq_add _ .removes)
    · exact tallied_of_quiet (act_of_exec rfl hx) rfl rfl

theorem tallied_confirm : Tallied s r ⟨env, w, .confirm id⟩ := by
  have hearned (x : Except RepositoryError Cluster.Answer) (t : Repository) (u : World)
      (hd : u.store.data = w.store.data) : (Moment.mk (.confirm id) x ⟨r, w⟩ ⟨t, u⟩).earned s false = {} := by
    have hnone : (Moment.mk (.confirm id) x ⟨r, w⟩ ⟨t, u⟩).hasConfirmed = false := by
      simp only [Moment.hasConfirmed, hd, List.any_eq_false, Bool.not_eq_true, Bool.not_eq_false']
      exact fun key hk => Std.ExtTreeMap.mem_keys.1 hk
    show ({ confirms := Bool.toNat _ } : Tally) = _
    rw [hnone]
    rfl
  cases ha : r.active with
  | none => exact tallied_of_quiet (act_of_stopped rfl ha) rfl (hearned _ _ _ rfl)
  | some p =>
    obtain ⟨x, t, v, hv, hl, hx⟩ := confirm_exec env w id ha
    have ht : t.tally = r.tally := hl.tally
    rcases hx with ⟨e, rfl, hx⟩ | ⟨rfl, hx⟩ | ⟨key, rfl, hrem, hx⟩ | ⟨key, e, rfl, hrem, hx⟩
    · exact tallied_of_quiet (act_of_exec rfl hx) ht (hearned _ _ _ hv.data)
    · exact tallied_of_quiet (act_of_exec rfl hx) ht (hearned _ _ _ hv.data)
    · refine tallied_of_act (act_of_exec rfl hx) ?_
      have hgone : (Moment.mk (.confirm id) (.ok .done) ⟨r, w⟩
          ⟨(t.forget key).count .confirms, env.after v (.remove key)⟩).hasConfirmed = true := by
        simp only [Moment.hasConfirmed, List.any_eq_true, data_after_remove_ok hrem, hv.data]
        exact ⟨key, Std.ExtTreeMap.mem_keys.2 hl.mem, by simp⟩
      show t.tally.count .confirms = r.tally + ({ confirms := Bool.toNat _ } : Tally)
      rw [ht, Tally.count_eq_add]
      exact congrArg (fun b => r.tally + ({ confirms := Bool.toNat b } : Tally)) hgone.symm
    · exact tallied_of_quiet (act_of_exec rfl hx) ht (hearned _ _ _ (hv.remove_error hrem).data)

theorem tallied_redelivery {e : Exchange} : Tallied s r ⟨env, w, .redelivery key e⟩ := by
  have hact (t : Repository) (hx : Procedure.exec (redelivery key e) env r w = (⟨⟩, t, w)) :
      Site.act env s ⟨r, w⟩ (.redelivery key e) = (.ok .done, ⟨t, w⟩) := by
    have hlift : (monadLift (redelivery key e) : Operation Unit).exec env r w = (.ok ⟨⟩, t, w) := by
      rw [exec_lift, hx]
    exact act_of_exec (s := s) (x := ⟨r, w⟩) (a := .redelivery key e) (g := fun _ => .done) rfl hlift
  have hdeliver : (Procedure.ask (.deliver key e)).exec env r w = (env.engine w.moment key e, r, w) := rfl
  cases h : env.engine w.moment key e with
  | ok u =>
    have hx : Procedure.exec (redelivery key e) env r w = (⟨⟩, r.endRedelivery, w) := by
      simp only [redelivery, Procedure.exec_bind, hdeliver, h]
      rfl
    have hrejected : rejected ⟨env, w, .redelivery key e⟩ = false := by
      show (!(env.engine w.moment key e).isOk) = false
      rw [h]
      rfl
    exact tallied_of_quiet (hact _ hx) rfl (by rw [hrejected]; rfl)
  | error f =>
    have hx : Procedure.exec (redelivery key e) env r w = (⟨⟩, (r.count .failures).endRedelivery, w) := by
      simp only [redelivery, Procedure.exec_bind, hdeliver, h]
      rfl
    have hrejected : rejected ⟨env, w, .redelivery key e⟩ = true := by
      show (!(env.engine w.moment key e).isOk) = true
      rw [h]
      rfl
    exact tallied_of_act (hact _ hx) (by rw [hrejected]; exact Tally.count_eq_add _ .failures)

theorem tallied_pass (hf : r.Follows s) : Tallied s r ⟨env, w, .pass⟩ := by
  cases ha : r.active with
  | none =>
    have hx : (pass s).exec env r w = (.error .notRunning, r, w) := exec_bind_error (runningPolicy_exec_none ha)
    exact tallied_of_quiet (act_of_exec rfl hx) rfl rfl
  | some p =>
    obtain ⟨⟨x, t, u⟩, hx⟩ : ∃ y, (pass s).exec env r w = y := ⟨_, rfl⟩
    have hpass : ((pass s).run r).Counts (fun _ _ => True) (Reported _ p) r.tally := counts_pass s ha
    obtain ⟨n, hn, hr⟩ := hpass.exec (fun _ _ => trivial : ∀ v q, (fun _ _ => True : Answers) q (env.answer v q).1) w
    rw [show Run.exec env ((pass s).run r) w = (x, t, u) from hx] at hn hr
    have hu := Setup.useRecovery_of_policy? (hf p ha)
    refine tallied_of_act (act_of_exec rfl hx) (hn.trans (congrArg (r.tally + ·) ?_))
    cases hr with
    | failed e => rfl
    | idle hp stored =>
      rw [hp] at hu
      simp only [Moment.earned, Moment.hasRecovered, ← hu, Bool.and_false]
      rfl
    | recovered hp ends hl rep hrep =>
      rw [hp] at hu
      simp only [Moment.earned, Moment.hasRecovered, ← hu, Bool.and_true]
      rfl

/-- Every action is counted for what it does. -/
theorem Follows.tallied (hf : r.Follows s) (o : Occasion) : Tallied s r o := by
  obtain ⟨env, w, a⟩ := o
  cases a with
  | start => exact tallied_start
  | stop => exact tallied_stop
  | add key e he => exact tallied_add he
  | remove key => exact tallied_remove
  | confirm id => exact tallied_confirm
  | redelivery key e => exact tallied_redelivery
  | pass => exact tallied_pass hf
  | get key =>
    cases ha : r.active with
    | none => exact tallied_of_quiet (act_of_stopped rfl ha) rfl rfl
    | some p => exact tallied_of_quiet (act_of_exec rfl (get?_exec ha)) rfl rfl
  | recover key =>
    cases ha : r.active with
    | none => exact tallied_of_quiet (act_of_stopped rfl ha) rfl rfl
    | some p =>
      have hx := recover_exec env s w key ha
      split at hx
      · exact tallied_of_quiet (act_of_exec rfl hx) rfl rfl
      · exact tallied_of_quiet (act_of_exec rfl hx) rfl rfl
  | keys =>
    cases ha : r.active with
    | none => exact tallied_of_quiet (act_of_stopped rfl ha) rfl rfl
    | some p => exact tallied_of_quiet (act_of_exec rfl (keys_exec ha)) rfl rfl
  | scan =>
    cases ha : r.active with
    | none => exact tallied_of_quiet (act_of_stopped rfl ha) rfl rfl
    | some p => exact tallied_of_quiet (act_of_exec rfl (keys_exec ha)) rfl rfl
  | state key =>
    cases ha : r.active with
    | none => exact tallied_of_quiet (act_of_stopped rfl ha) rfl rfl
    | some p => exact tallied_of_quiet (act_of_exec rfl (recoveryState?_exec ha)) rfl rfl

/-! ## Runs -/

/-- The repository after a row of occasions. -/
def after (s : Setup) (r : Repository) (occasions : List Occasion) : Repository :=
  occasions.foldl (fun r o => (o.moment s r).after.repository) r

/-- What happens on a row of occasions, the first first. -/
def moments (s : Setup) : Repository → List Occasion → List Moment
  | _, [] => []
  | r, o :: occasions => o.moment s r :: moments s (o.moment s r).after.repository occasions

end Repository

/-- The counters have grown by what has happened, and by nothing else. -/
structure Tally.Accounts (s : Setup) (before after : Tally) (moments : List Moment) (rejections : Nat) : Prop where
  adds : after.adds = before.adds + moments.countP Moment.hasAdded
  removes : after.removes = before.removes + moments.countP Moment.hasRemoved
  confirms : after.confirms = before.confirms + moments.countP Moment.hasConfirmed
  redeliveries : after.redeliveries = before.redeliveries + (moments.flatMap (·.listed .redelivered)).length
  deadLetters : after.deadLetters = before.deadLetters + (moments.flatMap (·.listed .deadLettered)).length
  discards : after.discards = before.discards + (moments.flatMap (·.listed .discarded)).length
  failures : after.failures = before.failures + (moments.flatMap (·.listed .failed)).length + rejections
  passes : after.passes = before.passes + moments.countP (Moment.hasRecovered s)

namespace Tally.Accounts

variable {s : Setup} {t u v : Tally} {moments : List Moment} {n : Nat}

theorem nil (s : Setup) (t : Tally) : Accounts s t t [] 0 := ⟨rfl, rfl, rfl, rfl, rfl, rfl, rfl, rfl⟩

/-- What one action has counted and what all others after it have counted is what all have counted. -/
theorem cons {m : Moment} {rejected : Bool} (hm : u = t + m.earned s rejected) (h : Accounts s u v moments n) :
    Accounts s t v (m :: moments) (n + rejected.toNat) := by
  subst hm
  have hcount (p : Moment → Bool) : (m :: moments).countP p = (p m).toNat + moments.countP p := by
    rw [List.countP_cons, Nat.add_comm]
    cases p m <;> rfl
  have hsum (l : Listing) : ((m :: moments).flatMap (·.listed l)).length =
      (m.listed l).length + (moments.flatMap (·.listed l)).length := by
    rw [List.flatMap_cons, List.length_append]
  refine ⟨h.adds.trans ?_, h.removes.trans ?_, h.confirms.trans ?_, h.redeliveries.trans ?_, h.deadLetters.trans ?_,
    h.discards.trans ?_, ?_, h.passes.trans ?_⟩
  · rw [hcount, ← Nat.add_assoc]
    rfl
  · rw [hcount, ← Nat.add_assoc]
    rfl
  · rw [hcount, ← Nat.add_assoc]
    rfl
  · rw [hsum, ← Nat.add_assoc]
    rfl
  · rw [hsum, ← Nat.add_assoc]
    rfl
  · rw [hsum, ← Nat.add_assoc]
    rfl
  · have hm : (t + m.earned s rejected).failures = t.failures + ((m.listed .failed).length + rejected.toNat) := rfl
    rw [h.failures, hm, hsum]
    omega
  · rw [hcount, ← Nat.add_assoc]
    rfl

end Tally.Accounts

/-- Over every row of occasions the tally of a repository grows by what has happened. -/
theorem Repository.Follows.accounts {s : Setup} {r : Repository} (hf : r.Follows s) (occasions : List Occasion) :
    Tally.Accounts s r.tally (r.after s occasions).tally (r.moments s occasions)
      (occasions.countP Occasion.rejected) := by
  induction occasions generalizing r with
  | nil => exact .nil s r.tally
  | cons o occasions ih =>
    have h := Tally.Accounts.cons (hf.tallied o) (ih (hf.act o.env o.world o.action))
    have hrejected : (o :: occasions).countP Occasion.rejected =
        occasions.countP Occasion.rejected + o.rejected.toNat := by
      rw [List.countP_cons]
      cases o.rejected <;> rfl
    rwa [← hrejected] at h

/-- A listing answers with these keys, or fails; everything else may be answered by anything. -/
def Lists (stored : List CorrelationKey) : Answers
  | .store .keys, answer => ∀ keys, answer = .ok keys → keys = stored
  | _, _ => True

/-- What a pass with this policy over these keys comes to: its result, and what it counts. -/
def PassAccounts (p : Policy) (stored : List CorrelationKey) : Except RepositoryError Report → Tally → Prop
  | .ok rep, counted =>
    if p.useRecovery then rep.Accounts stored ∧ counted = rep.tally.count .passes else counted = {}
  | .error _, counted => counted = {}

/--
Reports and counters account for every key. Let a running repository make a pass over the keys that the store lists,
each once; whatever the store and the sink answer, and whatever happens to the repository and the store meanwhile: if
recovery is on and the pass ends with a report, then every listed key has exactly one outcome in it, and what the pass
has counted is the pass itself and the lengths of its lists; if recovery is off or the pass fails, it has counted
nothing. Over every run of a repository, whatever happens to the world in between, the counters are the numbers of
successful additions and removals, of confirmations by which a key left the store, and of passes that came to their
end with recovery on, and the summed lengths of the lists of the reports, with the redeliveries that the engine
rejected among the failures.
-/
theorem counters_account (s : Setup) :
    (∀ (r : Repository) (p : Policy) (stored : List CorrelationKey), r.active = some p → stored.Nodup →
      ((Repository.pass s).run r).Counts (Lists stored) (PassAccounts p stored) r.tally) ∧
    ∀ occasions : List Occasion,
      Tally.Accounts s {} (({} : Repository).after s occasions).tally (({} : Repository).moments s occasions)
        (occasions.countP Occasion.rejected) := by
  refine ⟨fun r p stored ha hn => ?_, (Repository.follows_new s).accounts⟩
  refine (Repository.counts_pass s ha).mono fun result counted h => ?_
  cases h with
  | failed e => rfl
  | idle hp keys =>
    rw [PassAccounts, hp]
    rfl
  | recovered hp ends hl rep hrep =>
    obtain rfl := hl _ rfl
    rw [PassAccounts, hp]
    subst hrep
    exact ⟨Report.accounts_addAll hn, rfl⟩

/-- A key is redelivered and rejected by the engine; a pass over two keys accounts for both. -/
theorem counters_account_rejected :
    let s : Setup := { hasEngine := true }
    let e : Exchange := { id := "exchange" }
    let add : Action := .add ⟨"key"⟩ e (Exchange.fits_of_id (by decide))
    let x := Site.run {} s {} [.start, add]
    let rejecting : Environment := { engine := fun _ _ _ => .error (.rejected "no") }
    let tally := (({} : Repository).after s [{ action := .start }, { action := add }, { world := x.world, action := .pass },
      { env := rejecting, world := x.world, action := .redelivery ⟨"key"⟩ e }]).tally
    (tally.adds = 1 ∧ tally.redeliveries = 1 ∧ tally.failures = 1 ∧ tally.passes = 1) ∧
      ∃ p, x.repository.active = some p ∧ p.useRecovery = true ∧
        ((Repository.pass s).run x.repository).Counts (Lists [⟨"key"⟩, ⟨"other"⟩])
          (PassAccounts p [⟨"key"⟩, ⟨"other"⟩]) x.repository.tally := by
  intro s e add x rejecting tally
  have h := (counters_account s).2 [{ action := .start }, { action := add }, { world := x.world, action := .pass },
    { env := rejecting, world := x.world, action := .redelivery ⟨"key"⟩ e }]
  refine ⟨⟨h.adds.trans (by decide +kernel), h.redeliveries.trans (by decide +kernel),
    h.failures.trans (by decide +kernel), h.passes.trans (by decide +kernel)⟩, ?_⟩
  obtain ⟨p, hp⟩ : ∃ p, x.repository.active = some p := ⟨_, rfl⟩
  have hu : p.useRecovery = true := (Setup.useRecovery_of_policy? (Site.run_follows _ p hp)).trans rfl
  have hn : [(⟨"key"⟩ : CorrelationKey), ⟨"other"⟩].Nodup := by decide
  have hpass := (counters_account s).1 x.repository p _ hp hn
  exact ⟨p, hp, hu, hpass⟩

end DurableAggregates
