import DurableAggregates.Proofs.KeyIndependence

/-!
# What a procedure counts itself

While a request is open other procedures may count too. `Run.Counts` speaks of the growth of the counters between a
request and the next one only, so what it says of a procedure holds whatever else goes on and whatever is answered. It
goes through sequencing (`Operation.Counts.bind`). For a pass the cases of `Reported` are what it comes to: the report
is made of one end for each listed key, and the counters grow by what the report says (`counts_pass`).
-/

namespace DurableAggregates

/-! ## Tallies -/

namespace Tally

theorem zero_add (t : Tally) : ({} : Tally) + t = t := ext_get fun c => by
  rw [get_add]
  cases c <;> exact Nat.zero_add _

theorem add_zero (t : Tally) : t + ({} : Tally) = t := ext_get fun c => by
  rw [get_add]
  cases c <;> rfl

theorem add_assoc (t u v : Tally) : t + u + v = t + (u + v) :=
  ext_get fun c => by simp only [get_add, Nat.add_assoc]

theorem count_eq_add (t : Tally) (c : Counter) : t.count c = t + ({} : Tally).count c := ext_get fun d => by
  rw [get_add, get_count, get_count]
  cases d <;> simp [get]

end Tally

/-! ## Runs that count -/

/-- Which answers to a request are possible. -/
abbrev Answers := (q : Request) → q.Answer → Prop

/--
Whatever possible answers come and whatever happens to the repository meanwhile, the run ends with a result and has
counted itself what `Q` says; `before` is the tally with which it began.
-/
inductive Run.Counts {α : Type} (possible : Answers) : Run α → (α → Tally → Prop) → Tally → Prop where
  | finished {a : α} {r : Repository} {Q : α → Tally → Prop} {before n : Tally} (hr : r.tally = before + n)
      (h : Q a n) : Counts possible (.finished a r) Q before
  | asking {q : Request} {r : Repository} {next : q.Answer → Repository → Run α} {Q : α → Tally → Prop}
      {before n : Tally} (hr : r.tally = before + n)
      (h : ∀ a s, possible q a → Counts possible (next a s) (fun b m => Q b (n + m)) s.tally) :
      Counts possible (.asking q r next) Q before

variable {α β : Type} {possible : Answers}

namespace Run.Counts

variable {x : Run α} {P Q : α → Tally → Prop} {before : Tally}

theorem mono (hx : x.Counts possible P before) (h : ∀ a n, P a n → Q a n) : x.Counts possible Q before := by
  induction hx generalizing Q with
  | finished hr hP => exact .finished hr (h _ _ hP)
  | asking hr hnext ih => exact .asking hr fun a s ha => ih a s ha fun b m => h b _

/-- What was counted already may be counted in. -/
theorem shift {r : Repository} {n : Tally} (hr : r.tally = before + n)
    (hx : x.Counts possible (fun a m => Q a (n + m)) r.tally) : x.Counts possible Q before := by
  cases hx with
  | finished ht hQ => exact .finished (by rw [ht, hr, Tally.add_assoc]) hQ
  | asking ht hnext =>
    refine .asking (by rw [ht, hr, Tally.add_assoc]) fun a s ha => (hnext a s ha).mono fun b k hQ => ?_
    rwa [Tally.add_assoc]

theorem bind {f : α → Repository → Run β} {R : β → Tally → Prop} (hx : x.Counts possible P before)
    (hf : ∀ a r n, P a n → (f a r).Counts possible (fun b m => R b (n + m)) r.tally) :
    (x.bind f).Counts possible R before := by
  induction hx generalizing R with
  | finished hr hP => exact shift hr (hf _ _ _ hP)
  | @asking q r next P before n hr hnext ih =>
    refine .asking hr fun a s ha => ih a s ha fun b t m hP => ?_
    refine (hf b t (n + m) hP).mono fun c k hR => ?_
    rwa [← Tally.add_assoc]

/-- When nothing else goes on, the tally grows by what the run counts. -/
theorem exec {env : Environment} (hx : x.Counts possible Q before)
    (hp : ∀ w q, possible q (env.answer w q).1) (w : World) :
    ∃ n, (x.exec env w).2.1.tally = before + n ∧ Q (x.exec env w).1 n := by
  induction x generalizing Q before w with
  | finished a r =>
    cases hx with
    | finished hr hQ => exact ⟨_, hr, hQ⟩
  | asking q r next ih =>
    cases hx with
    | @asking _ _ _ _ _ n hr hnext =>
      obtain ⟨m, hm, hQ⟩ := ih _ r (hnext _ r (hp w q)) (env.answer w q).2
      exact ⟨n + m, by rw [Run.exec, hm, hr, Tally.add_assoc], hQ⟩

end Run.Counts

/-! ## Procedures and operations -/

def Procedure.Counts (possible : Answers) (x : Procedure α) (Q : α → Tally → Prop) : Prop :=
  ∀ r, (x r).Counts possible Q r.tally

def Operation.Counts (possible : Answers) (x : Operation α) (Q : Except RepositoryError α → Tally → Prop) : Prop :=
  Procedure.Counts possible x.run Q

/-- The operation counts nothing. -/
def Operation.Silent (possible : Answers) (x : Operation α) : Prop := x.Counts possible fun _ n => n = {}

namespace Procedure.Counts

variable {Q : α → Tally → Prop}

theorem pure {a : α} (h : Q a {}) : Procedure.Counts possible (Pure.pure a) Q :=
  fun r => .finished (Tally.add_zero r.tally).symm h

theorem mono {P : α → Tally → Prop} {x : Procedure α} (hx : x.Counts possible P) (h : ∀ a n, P a n → Q a n) :
    x.Counts possible Q := fun r => (hx r).mono h

theorem bind {x : Procedure α} {f : α → Procedure β} {P : α → Tally → Prop} {R : β → Tally → Prop}
    (hx : x.Counts possible P) (hf : ∀ a n, P a n → (f a).Counts possible fun b m => R b (n + m)) :
    (x >>= f).Counts possible R :=
  fun r => (hx r).bind fun a s n hP => hf a n hP s

theorem ask {q : Request} {Q : q.Answer → Tally → Prop} (h : ∀ a, possible q a → Q a {}) :
    (Procedure.ask q).Counts possible Q := fun r => by
  refine .asking (Tally.add_zero r.tally).symm fun a s ha => .finished (Tally.add_zero s.tally).symm ?_
  rw [Tally.zero_add]
  exact h a ha

theorem modify {f : Repository → Repository} {Q : PUnit → Tally → Prop} {n : Tally}
    (hf : ∀ r, (f r).tally = r.tally + n) (h : Q ⟨⟩ n) : Procedure.Counts possible (modifyThe Repository f) Q :=
  fun r => .finished (hf r) h

end Procedure.Counts

namespace Operation

variable {Q : Except RepositoryError α → Tally → Prop}

namespace Counts

theorem pure {a : α} (h : Q (.ok a) {}) : Operation.Counts possible (Pure.pure a) Q := Procedure.Counts.pure h

theorem fail {e : RepositoryError} (h : Q (.error e) {}) : Operation.Counts possible (throw e : Operation α) Q :=
  Procedure.Counts.pure h

theorem mono {P : Except RepositoryError α → Tally → Prop} {x : Operation α} (hx : x.Counts possible P)
    (h : ∀ y n, P y n → Q y n) : x.Counts possible Q := Procedure.Counts.mono hx h

theorem bind {x : Operation β} {f : β → Operation α} {P : Except RepositoryError β → Tally → Prop}
    (hx : x.Counts possible P) (hok : ∀ b n, P (.ok b) n → (f b).Counts possible fun y m => Q y (n + m))
    (herror : ∀ e n, P (.error e) n → Q (.error e) n) : (x >>= f).Counts possible Q := by
  refine Procedure.Counts.bind hx fun y n hP => ?_
  cases y with
  | ok b => exact hok b n hP
  | error e => exact fail (by rw [Tally.add_zero]; exact herror e n hP)

theorem modify {f : Repository → Repository} {Q : Except RepositoryError PUnit → Tally → Prop} {n : Tally}
    (hf : ∀ r, (f r).tally = r.tally + n) (h : Q (.ok ⟨⟩) n) : Operation.Counts possible (modifyThe Repository f) Q :=
  fun r => .finished (hf r) h

/-- What was counted is followed by the rest. -/
theorem counting {f : Repository → Repository} {g : PUnit → Operation α} (c : Counter)
    (hf : ∀ r, (f r).tally = r.tally.count c)
    (hg : (g ⟨⟩).Counts possible fun y m => Q y (({} : Tally).count c + m)) :
    (modifyThe Repository f >>= g).Counts possible Q := by
  have hcount : Operation.Counts possible (modifyThe Repository f)
      fun y n => y = .ok ⟨⟩ ∧ n = ({} : Tally).count c :=
    modify (fun r => (hf r).trans (Tally.count_eq_add _ _)) ⟨rfl, rfl⟩
  refine hcount.bind (fun _ n h => ?_) fun e n h => ?_
  · obtain ⟨-, rfl⟩ := h
    exact hg
  · cases h.1

theorem lift {x : Procedure α} (hx : x.Counts possible fun a n => Q (.ok a) n) :
    Operation.Counts possible (monadLift x : Operation α) Q :=
  Procedure.Counts.bind hx fun a n hn => Procedure.Counts.pure (by rw [Tally.add_zero]; exact hn)

/-- A procedure always has a result to go on with. -/
theorem lift_bind {x : Procedure β} {f : β → Operation α} {P : β → Tally → Prop} (hx : x.Counts possible P)
    (hf : ∀ b n, P b n → (f b).Counts possible fun y m => Q y (n + m)) :
    ((monadLift x : Operation β) >>= f).Counts possible Q := by
  have hlift : Operation.Counts possible (monadLift x : Operation β) fun y n => ∃ b, y = .ok b ∧ P b n :=
    lift (hx.mono fun b n h => ⟨b, rfl, h⟩)
  refine hlift.bind (fun b n h => ?_) fun e n h => ?_
  · obtain ⟨_, hb, hP⟩ := h
    cases hb
    exact hf b n hP
  · obtain ⟨_, hb, -⟩ := h
    cases hb

theorem holding {l : Lock} {x : Operation α} (hx : x.Counts possible Q) :
    (Operation.holding l x).Counts possible Q := by
  refine Procedure.Counts.bind (.ask fun _ _ => rfl) fun _ n hn => ?_
  cases hn
  refine Procedure.Counts.bind hx fun y n hQ => ?_
  refine Procedure.Counts.bind (.ask fun _ _ => rfl) fun _ m hm => .pure ?_
  cases hm
  rwa [Tally.add_zero, Tally.add_zero, Tally.zero_add]

end Counts

namespace Silent

theorem bind {x : Operation β} {f : β → Operation α} (hx : x.Silent possible) (herror : ∀ e, Q (.error e) {})
    (hok : ∀ b, (f b).Counts possible Q) : (x >>= f).Counts possible Q :=
  Counts.bind hx
    (fun b n hn => by
      cases hn
      exact (hok b).mono fun y m h => by rwa [Tally.zero_add])
    fun e n hn => by
      cases hn
      exact herror e

theorem and_then {x : Operation β} {f : β → Operation α} (hx : x.Silent possible) (hf : ∀ b, (f b).Silent possible) :
    (x >>= f).Silent possible := hx.bind (fun _ => rfl) hf

theorem pure (a : α) : Operation.Silent possible (Pure.pure a) := Counts.pure rfl

theorem fail (e : RepositoryError) : Operation.Silent possible (throw e : Operation α) := Counts.fail rfl

theorem modify {f : Repository → Repository} (hf : ∀ r, (f r).tally = r.tally) :
    Operation.Silent possible (modifyThe Repository f) :=
  Counts.modify (fun r => by rw [hf, Tally.add_zero]) rfl

theorem get : Operation.Silent possible (getThe Repository) :=
  fun r => .finished (Tally.add_zero r.tally).symm rfl

theorem ask (q : Request) : Operation.Silent possible (monadLift (Procedure.ask q)) :=
  Counts.lift (.ask fun _ _ => rfl)

theorem ofStore (x : Except StoreError α) : Operation.Silent possible (Operation.ofStore x) := by
  cases x with
  | ok a => exact pure a
  | error e => exact fail (.store e)

end Silent

end Operation

/-! ## Recovering a key -/

/-- What is counted for a key with this outcome. -/
def Outcome.tally (o : Outcome) : Tally :=
  match counter? (.ok o) with
  | some c => ({} : Tally).count c
  | none => {}

/-- What the lists of a report say about the counters. -/
def Report.tally (rep : Report) : Tally where
  redeliveries := rep.redelivered.length
  failures := rep.failed.length
  deadLetters := rep.deadLettered.length
  discards := rep.discarded.length

theorem Report.tally_record (rep : Report) (key : CorrelationKey) (o : Outcome) :
    (rep.record key o).tally = rep.tally + o.tally := Tally.ext_get fun c => by
  rw [Tally.get_add]
  cases o <;> cases c <;> simp [record, tally, Outcome.tally, counter?, Tally.get, Tally.count]

theorem Report.tally_recordFailure (rep : Report) (key : CorrelationKey) :
    (rep.recordFailure key).tally = rep.tally + ({} : Tally).count .failures := Tally.ext_get fun c => by
  rw [Tally.get_add]
  cases c <;> simp [recordFailure, tally, Tally.get, Tally.count]

namespace Repository

open Operation

variable {s : Setup} {p : Policy} {key : CorrelationKey} {id : String}

theorem silent_fetch (key : CorrelationKey) : (fetch key).Silent possible := .and_then (.ask _) .ofStore

theorem silent_erase (key : CorrelationKey) : (erase key).Silent possible := .and_then (.ask _) .ofStore

theorem silent_recoverable (s : Setup) (key : CorrelationKey) : (recoverable s key).Silent possible := by
  unfold recoverable
  split
  · exact .and_then (silent_fetch key) fun _ => .pure _
  · exact .pure none

theorem silent_eraseIfCurrent (key : CorrelationKey) (id : String) : (eraseIfCurrent key id).Silent possible := by
  refine .and_then (silent_fetch key) fun current => ?_
  show Silent possible (if current.any (·.id = id) = true then _ else _)
  split
  · exact .and_then (silent_erase key) fun _ => .pure true
  · exact .and_then (.modify fun _ => rfl) fun _ => .pure false

theorem silent_forward (letter : DeadLetter) : (forward letter).Silent possible := by
  refine .and_then (.ask _) fun answer => ?_
  cases answer with
  | ok u => exact .pure _
  | error e => exact .fail _

theorem silent_handBack (s : Setup) (key : CorrelationKey) (e : Exchange) :
    Silent possible (monadLift (handBack s key e)) := by
  refine .lift ?_
  unfold handBack
  split
  · refine .bind (.modify (Q := fun _ n => n = {}) (fun r => (Tally.add_zero _).symm) rfl) fun _ n hn => ?_
    cases hn
    exact .ask fun _ _ => rfl
  · exact .pure rfl

/-- What the recovery of a key counts: its outcome, and nothing where it fails. -/
def Earned : Except RepositoryError Outcome → Tally → Prop
  | .ok o, n => n = o.tally
  | .error _, n => n = {}

theorem counts_escalate (s : Setup) (p : Policy) (key : CorrelationKey) (e : Exchange) (n : Nat) :
    (escalate s p key e n).Counts possible Earned := by
  unfold escalate
  cases sinkAddress? s p with
  | some uri =>
    refine Silent.bind (silent_forward _) (fun _ => rfl) fun _ => ?_
    refine Silent.bind (silent_eraseIfCurrent key e.id) (fun _ => rfl) fun erased => ?_
    have hcounted : Operation.Counts possible (do
        modifyThe Repository fun r => { r with deadLettered := r.deadLettered + 1 }.count .deadLetters
        return Outcome.deadLettered) Earned := .counting .deadLetters (fun _ => rfl) (.pure (Tally.add_zero _))
    cases erased with
    | true => exact Silent.bind (.modify fun _ => rfl) (fun _ => rfl) fun _ => hcounted
    | false => exact hcounted
  | none =>
    refine Silent.bind (silent_eraseIfCurrent key e.id) (fun _ => rfl) fun erased => ?_
    cases erased with
    | true => exact .counting .discards (fun _ => rfl) (.pure (Tally.add_zero _))
    | false => exact .pure rfl

/-- Also where the key was replaced meanwhile, its outcome is counted and nothing else. -/
theorem counts_recoverKey (s : Setup) (p : Policy) (key : CorrelationKey) :
    (recoverKey s p key).Counts possible Earned := by
  refine Silent.bind (.modify fun _ => rfl) (fun _ => rfl) fun _ => ?_
  refine Silent.bind .get (fun _ => rfl) fun r => ?_
  refine Silent.bind (silent_recoverable s key) (fun _ => rfl) fun found => ?_
  cases found with
  | none => exact Silent.bind (.modify fun _ => rfl) (fun _ => rfl) fun _ => .pure rfl
  | some e =>
    show Operation.Counts possible (if p.maximumRedeliveries < (r.recordOf key s.clock).attempts then _ else _) Earned
    split
    · exact counts_escalate s p key e _
    · exact Silent.bind (silent_handBack s key _) (fun _ => rfl)
        fun _ => .counting .redeliveries (fun _ => rfl) (.pure (Tally.add_zero _))

end Repository

/-! ## Passes -/

/-- The report with the ends of some more keys. -/
def Report.addAll (rep : Report) (ends : List (CorrelationKey × Except RepositoryError Outcome)) : Report :=
  ends.foldl (fun rep e => rep.add e.1 e.2) rep

/-- What a pass with this policy comes to: its result, and what it counts. -/
inductive Reported (possible : Answers) (p : Policy) : Except RepositoryError Report → Tally → Prop where
  | failed (e : RepositoryError) : Reported possible p (.error e) {}
  /-- Recovery is off. -/
  | idle (hp : p.useRecovery = false) (stored : List CorrelationKey) :
      Reported possible p (.ok { scanned := stored.length }) {}
  /-- Every listed key has come to one end. -/
  | recovered (hp : p.useRecovery = true) (ends : List (CorrelationKey × Except RepositoryError Outcome))
      (hl : possible (.store .keys) (.ok (ends.map (·.1)))) (rep : Report)
      (hrep : rep = ({ scanned := ends.length } : Report).addAll ends) :
      Reported possible p (.ok rep) (rep.tally.count .passes)

namespace Repository

open Operation

/-- A key gets one end, which is entered into the report and counted. -/
theorem counts_recoverNext (s : Setup) (p : Policy) (rep : Report) (key : CorrelationKey) :
    (recoverNext s p rep key).Counts possible fun rep' n =>
      rep'.tally = rep.tally + n ∧ ∃ x, rep' = rep.addAll [(key, x)] := by
  refine Procedure.Counts.bind (counts_recoverKey s p key) fun x n hx => ?_
  cases x with
  | ok o =>
    cases hx
    exact .pure ⟨by rw [Report.tally_record, Tally.add_zero], .ok o, rfl⟩
  | error e =>
    cases hx
    have hfailure : Procedure.Counts possible (modifyThe Repository fun r => r.count .failures)
        fun _ n => n = ({} : Tally).count .failures := .modify (fun r => Tally.count_eq_add r.tally .failures) rfl
    refine hfailure.bind fun _ n hn => ?_
    cases hn
    exact .pure ⟨by rw [Report.tally_recordFailure, Tally.add_zero, Tally.zero_add], .error e, rfl⟩

theorem counts_foldlM (s : Setup) (p : Policy) (keys : List CorrelationKey) (rep : Report) :
    (keys.foldlM (recoverNext s p) rep).Counts possible fun rep' n =>
      rep'.tally = rep.tally + n ∧ ∃ ends, ends.map (·.1) = keys ∧ rep' = rep.addAll ends := by
  induction keys generalizing rep with
  | nil => exact Procedure.Counts.pure ⟨(Tally.add_zero _).symm, [], rfl, rfl⟩
  | cons key keys ih =>
    rw [List.foldlM_cons]
    refine (counts_recoverNext s p rep key).bind fun rep' n h => ?_
    obtain ⟨hn, x, rfl⟩ := h
    refine (ih _).mono fun rep'' m h => ?_
    obtain ⟨hm, ends, hends, rfl⟩ := h
    exact ⟨by rw [hm, hn, Tally.add_assoc], (key, x) :: ends, congrArg (key :: ·) hends, rfl⟩

theorem counts_listed : listed.Counts possible fun x n =>
    n = {} ∧ ∀ stored, x = .ok stored → possible (.store .keys) (.ok stored) := by
  refine .lift_bind (.ask (Q := fun a n => n = {} ∧ possible (.store .keys) a) fun a ha => ⟨rfl, ha⟩) fun a n h => ?_
  obtain ⟨rfl, ha⟩ := h
  cases a with
  | ok stored =>
    refine .pure ⟨Tally.zero_add _, fun _ hs => ?_⟩
    cases hs
    exact ha
  | error e => exact .fail ⟨Tally.zero_add _, fun _ hs => nomatch hs⟩

theorem counts_passOver (s : Setup) (p : Policy) : (passOver s p).Counts possible (Reported possible p) := by
  refine Counts.bind counts_listed (fun stored n h => ?_) fun e n h => ?_
  · obtain ⟨rfl, hstored⟩ := h
    refine Counts.mono ?_ fun y m h => (Tally.zero_add m).symm ▸ h
    show Operation.Counts possible (if p.useRecovery = true then _ else _) (Reported possible p)
    split
    · next hp =>
      refine Silent.bind (.modify fun _ => rfl) .failed fun _ => ?_
      refine .lift_bind (counts_foldlM s p stored _) fun rep n h => ?_
      obtain ⟨hn, ends, rfl, hrep⟩ := h
      have hrecovered : Reported possible p (.ok rep) (rep.tally.count .passes) := by
        refine .recovered hp ends (hstored _ rfl) rep ?_
        rw [hrep, List.length_map]
      refine .counting .passes (fun _ => rfl) (.pure ?_)
      rw [Tally.add_zero, ← Tally.count_eq_add]
      rwa [hn, show Report.tally { scanned := _ } = {} from rfl, Tally.zero_add] at hrecovered
    · next hp => exact .pure (.idle (by simpa using hp) stored)
  · cases h.1
    exact .failed e

/-- A pass of a running repository gives every listed key one end and counts what its report says. -/
theorem counts_pass (s : Setup) {r : Repository} {p : Policy} (ha : r.active = some p) :
    ((pass s).run r).Counts possible (Reported possible p) r.tally := by
  have hpass : (pass s).run r = (holding .pass (passOver s p)).run r := by
    cases r
    cases ha
    rfl
  rw [hpass]
  exact Counts.holding (counts_passOver s p) r

end Repository

end DurableAggregates
