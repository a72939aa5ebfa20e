import DurableAggregates.Proofs.Confirmation
import DurableAggregates.Proofs.CompletedIds
import DurableAggregates.Proofs.Traffic.Orderly

/-!
# Confirmations and outdated answers

An exchange was added, its key still holds it, and a confirmation ignores it. That takes a call which was told before
the put that the key is not stored, and which goes on with this answer after the add has returned; no other course of
calls leads there (`Traffic.added_confirmed_unless_outdated`). A pass whose list of keys is older than the add is such a
call (`Traffic.outdated_listing_swallows_confirmation`).
-/

namespace DurableAggregates

namespace Traffic

open Cluster (Answer)

variable {n : Naming} {env : Environment} {s : Setup} {w : World} {a : Action} {key : CorrelationKey} {id : String}
  {t u y : Traffic} {x : Turn} {j m : Nat} {c : Call}

/-! ## What a turn does to the calls -/

/-- A call is where it was, or was served, or has gone on. -/
theorem Turned.getElem? (hu : Turned env s t x u) (hc : u.calls[m]? = some c) :
    t.calls[m]? = some c ∨
    (∃ a q next, x = .serve m ∧ t.waits q = false ∧ t.calls[m]? = some ⟨a, .asking q next⟩ ∧
      c = ⟨a, .answered q (env.answer t.world q).1 next⟩) ∨
    ∃ z, c.stage = (pause z).1 := by
  cases hu with
  | called a =>
    rw [List.getElem?_append] at hc
    split at hc
    · exact .inl hc
    · rw [List.getElem?_singleton] at hc
      split at hc
      · cases hc
        exact .inr (.inr ⟨_, rfl⟩)
      · cases hc
  | served hi hw =>
    rw [List.getElem?_set] at hc
    split at hc
    · rename_i hm
      subst hm
      split at hc
      · cases hc
        exact .inr (.inl ⟨_, _, _, rfl, hw, hi, rfl⟩)
      · cases hc
    · exact .inl hc
  | resumed hi =>
    rw [List.getElem?_set] at hc
    split at hc
    · split at hc
      · cases hc
        exact .inr (.inr ⟨_, rfl⟩)
      · cases hc
    · exact .inl hc
  | idle => exact .inl hc

theorem not_denies_pause {z : Run (Except RepositoryError Answer)} (hc : c.stage = (pause z).1) :
    c.denies key = false := by
  unfold Call.denies
  rw [hc]
  cases z <;> rfl

theorem changes_serve {a : Action} {q : Request} {next : q.Answer → Repository → Run (Except RepositoryError Answer)}
    (hc : t.calls[m]? = some ⟨a, .asking q next⟩) (hw : t.waits q = false) :
    t.changes env key (.serve m) = q.changes key (env.answer t.world q).1 := by
  simp only [changes, hc, hw, Bool.not_false, Bool.true_and]

/-- While a key is stored and does not change, no call is told that it is not stored. -/
theorem Turned.denies (hu : Turned env s t x u) (hk : key ∈ t.world.store.data) (hx : t.changes env key x = false)
    (hc : u.calls[m]? = some c) (hd : c.denies key = true) : t.calls[m]? = some c := by
  rcases hu.getElem? hc with hc | ⟨a, q, next, rfl, hw, hm, rfl⟩ | ⟨z, hz⟩
  · exact hc
  · rw [changes_serve hm hw] at hx
    exact absurd (hd.symm.trans (Environment.denies_answer hk hx)) Bool.noConfusion
  · exact absurd (hd.symm.trans (not_denies_pause hz)) Bool.noConfusion

theorem Turned.data (hu : Turned env s t x u) (h : t.Orderly n s) (hx : t.changes env key x = false) :
    u.world.store.data[key]? = t.world.store.data[key]? := by
  cases hu with
  | served hc hw =>
    rw [changes_serve hc hw] at hx
    exact Environment.data_answer h.keeps hx
  | called | resumed | idle => rfl

/-- A call that was told at first that the key is not stored has gone on with that. -/
def HeededDenial (key : CorrelationKey) (t u : Traffic) : Prop :=
  ∃ (m : Nat) (c : Call), t.calls[m]? = some c ∧ c.denies key = true ∧ u.calls[m]? ≠ some c

/-- An id becomes completed when a call goes on that was told that its key is not stored. -/
theorem Turned.completes (hu : Turned env s t x u) (h : t.Orderly n s) (hid : n.key? id = some key)
    (hnot : t.repository.index.isCompleted id = false) (hc : u.repository.index.isCompleted id = true) :
    HeededDenial key t u := by
  cases hu with
  | called a =>
    obtain ⟨-, -, hi⟩ := heeds_pause (Action.tidy s a (· = t.repository.index) t.repository h.follows rfl)
    rw [← hi] at hnot
    exact absurd (hnot.symm.trans hc) Bool.false_ne_true
  | @resumed m a q z next hm =>
    obtain ⟨-, hnext⟩ := (h.call_of_getElem? hm).heeds
    obtain ⟨-, -, hi⟩ := heeds_pause (hnext z t.repository h.follows)
    have hd : Call.denies ⟨a, .answered q z next⟩ key = true := h.tracks.denied hid hi hnot hc
    refine ⟨m, _, hm, hd, fun hsame => ?_⟩
    rw [List.getElem?_set_self (List.getElem?_eq_some_iff.1 hm).1] at hsame
    rw [← Option.some.inj hsame, not_denies_pause rfl] at hd
    cases hd
  | served | idle => exact absurd (hnot.symm.trans hc) Bool.false_ne_true

/-- A call that waits for its turn to go on stays where it is. -/
theorem Turned.stays (hu : Turned env s t x u) {a : Action} {q : Request} {z : q.Answer}
    {next : q.Answer → Repository → Run (Except RepositoryError Answer)}
    (hj : t.calls[j]? = some ⟨a, .answered q z next⟩) (hx : x ≠ .resume j) : u.calls[j]? = t.calls[j]? := by
  cases hu with
  | called => exact List.getElem?_append_left (List.getElem?_eq_some_iff.1 hj).1
  | served hm =>
    refine List.getElem?_set_ne ?_
    rintro rfl
    rw [hj] at hm
    cases hm
  | resumed => exact List.getElem?_set_ne fun hm => hx (by rw [hm])
  | idle => rfl

theorem stays_run {a : Action} {q : Request} {z : q.Answer}
    {next : q.Answer → Repository → Run (Except RepositoryError Answer)}
    (hj : t.calls[j]? = some ⟨a, .answered q z next⟩) {turns : List Turn} (hturns : .resume j ∉ turns) :
    (t.run env s turns).calls[j]? = some ⟨a, .answered q z next⟩ := by
  induction turns generalizing t with
  | nil => exact hj
  | cons x turns ih =>
    obtain ⟨hx, hturns⟩ := not_or.1 (List.mem_cons.not.1 hturns)
    exact ih (((turned env s t x).stays hj (Ne.symm hx)).trans hj) hturns

/-! ## While a key does not change -/

/-- What becomes of traffic while a key that is stored does not change. -/
structure Leads (n : Naming) (s : Setup) (key : CorrelationKey) (t u : Traffic) : Prop where
  orderly : u.Orderly n s
  same : u.world.store.data[key]? = t.world.store.data[key]?
  /-- Nobody is told anew that the key is not stored. -/
  older : ∀ (m : Nat) (c : Call), u.calls[m]? = some c → c.denies key = true → t.calls[m]? = some c
  completes : ∀ id, n.key? id = some key → u.repository.index.isCompleted id = true →
    t.repository.index.isCompleted id = true ∨ HeededDenial key t u

namespace Leads

theorem refl (h : t.Orderly n s) : Leads n s key t t := ⟨h, rfl, fun _ _ hc _ => hc, fun _ _ hc => .inl hc⟩

theorem turned (h : Leads n s key y t) (hk : key ∈ y.world.store.data) (hn : ∀ a, x = .call a → n.Allows a)
    (hx : t.changes env key x = false) (hu : Turned env s t x u) : Leads n s key y u := by
  have hk : key ∈ t.world.store.data := (Store.mem_congr h.same).2 hk
  refine ⟨h.orderly.turned hn hu, (hu.data h.orderly hx).trans h.same,
    fun m c hc hd => h.older m c (hu.denies hk hx hc hd) hd, fun id hid hc => ?_⟩
  cases hnot : t.repository.index.isCompleted id with
  | true =>
    -- A call that has used its denial does not get it back, since nobody is told so anew.
    refine (h.completes id hid hnot).imp_right ?_
    rintro ⟨m, c, hm, hd, hgone⟩
    exact ⟨m, c, hm, hd, fun hsame => hgone (hu.denies hk hx hsame hd)⟩
  | false =>
    obtain ⟨m, c, hm, hd, hgone⟩ := hu.completes h.orderly hid hnot hc
    exact .inr ⟨m, c, h.older m c hm hd, hd, hgone⟩

theorem run (h : Leads n s key y t) (hk : key ∈ y.world.store.data) {turns : List Turn}
    (hn : ∀ a, .call a ∈ turns → n.Allows a) (hq : t.quiet env s key turns = true) :
    Leads n s key y (t.run env s turns) := by
  induction turns generalizing t with
  | nil => exact h
  | cons x turns ih =>
    obtain ⟨hx, hq⟩ := Bool.and_eq_true_iff.1 hq
    have hturn : Leads n s key y (t.turn env s x) :=
      h.turned hk (fun a ha => hn a (ha ▸ List.mem_cons_self ..)) (by simpa using hx) (Traffic.turned env s t x)
    exact ih hturn (fun a ha => hn a (List.mem_cons_of_mem x ha)) hq

end Leads

/-! ## Adding -/

/-- An add has got the answer to its put of an exchange with the id. -/
def HasPut (id : String) (j : Nat) (t : Traffic) : Prop :=
  ∃ key e he v old next, t.calls[j]? = some ⟨.add key e he, .answered (.store (.put key v)) (.ok old) next⟩ ∧ v.id = id

theorem HasPut.run (h : HasPut id j t) {turns : List Turn} (hturns : .resume j ∉ turns) :
    HasPut id j (t.run env s turns) := by
  obtain ⟨key, e, he, v, old, next, hj, hv⟩ := h
  exact ⟨key, e, he, v, old, next, stays_run hj hturns, hv⟩

/-- An add that goes on after its put notes the id, which is not completed then, and returns with success. -/
theorem HasPut.noted (hj : HasPut id j t) (h : t.Orderly n s) :
    (t.resume j).repository.index.isCompleted id = false ∧ (t.resume j).succeeded j = true := by
  obtain ⟨key, e, he, v, old, next, hj, rfl⟩ := hj
  have hcall := h.call_of_getElem? hj
  obtain ⟨-, -, hi⟩ := heeds_pause (hcall.heeds.2 (.ok old) t.repository h.follows)
  rw [resume_eq hj]
  constructor
  · dsimp only
    generalize (pause (next (.ok old) t.repository)).2.index = i at hi
    cases hi with
    | same hq => exact absurd rfl (hq key v)
    | stored => simp [ExchangeIndex.isCompleted_insert]
  · cases hcall.brief rfl t.repository with
    | asking hdone =>
      obtain ⟨y, r, hy, hok⟩ := hdone (.ok old) t.repository
      unfold succeeded
      rw [hy, List.getElem?_set_self (List.getElem?_eq_some_iff.1 hj).1]
      cases y with
      | ok b => rfl
      | error f => exact nomatch hok rfl

/-- After the put of an add the key holds the exchange. -/
theorem holds_of_adds (h : t.Orderly n s) (hadd : t.adds env key id j = true) :
    n.key? id = some key ∧ HasPut id j (t.serve env j) ∧ (t.serve env j).world.Holds key id := by
  unfold adds at hadd
  split at hadd
  · rename_i k e he k' v next hj
    obtain ⟨hkey, hok⟩ := Bool.and_eq_true_iff.1 hadd
    obtain ⟨rfl, rfl⟩ := of_decide_eq_true hkey
    have hcall := h.call_of_getElem? hj
    obtain ⟨⟨e', he', ha, hv, hfits⟩, -⟩ := hcall.heeds
    cases ha
    rw [serve_eq hj rfl]
    have hlt : j < t.calls.length := (List.getElem?_eq_some_iff.1 hj).1
    cases hx : env.result t.world (.put k v) with
    | error f =>
      rw [hx] at hok
      cases hok
    | ok old =>
      refine ⟨hcall.allowed, ⟨k, e, he, v, old, next, ?_, hv⟩, _, Environment.snapshot?_of_result_put hfits hx, hv⟩
      rw [← hx]
      exact List.getElem?_set_self hlt
  · cases hadd

/-! ## Confirming -/

/-- A key that holds an exchange is located if the id is not taken for completed without being indexed. -/
theorem located_of_holds {env : Environment} {r v : Repository} {z : Except RepositoryError (Option CorrelationKey)}
    (hr : n.Tracks r.index) (hw : n.Keeps w.store) (he : env.Healthy) (hh : w.Holds key id)
    (hc : r.index.isCompleted id = true → r.index.keyFor? id = some key) (hz : Repository.Located env id r w z v) :
    v = r ∧ z = .ok (some key) := by
  have hclear : env.Clear w := ⟨he, hw.sound⟩
  have hid {k : CorrelationKey} (hk : w.Holds k id) : n.key? id = some k := by
    obtain ⟨v, hv, rfl⟩ := hk
    exact hw.key?_of_snapshot? hv
  have own {k : CorrelationKey} (hk : n.key? id = some k) : k = key := Option.some.inj (hk.symm.trans (hid hh))
  cases hz with
  | hit hi => exact ⟨rfl, by rw [own (hr.key?_of_keyFor? hi)]⟩
  | absent hi hd =>
    obtain rfl := own (hr.key?_of_keyFor? hi)
    exact absurd hh (World.not_holds_of_absent hd)
  | stale hi hv hne =>
    obtain rfl := own (hr.key?_of_keyFor? hi)
    exact absurd hh (World.not_holds_of_id_ne hv hne)
  | completed hi hdone => exact nomatch hi.symm.trans (hc hdone)
  | failed _ _ hf => exact absurd hclear hf
  | unknown _ _ hx =>
    refine ⟨rfl, ?_⟩
    cases hx with
    | held _ hk => rw [own (hid hk)]
    | nowhere _ hk => exact absurd hh (hk key)
    | failed _ hf => exact absurd hclear hf
    | named hk =>
      obtain ⟨v, -, hv⟩ := hw _ hk
      exact nomatch (n.apart _ _ hv).symm.trans (hid hh)

/--
What the confirmation of an exchange comes to which the add `j` has put under a key that still holds it: `y` is right
after the put, `z` right after the return, and `u` is now.
-/
structure Confirms (s : Setup) (key : CorrelationKey) (id : String) (j : Nat) (y z u : Traffic) : Prop where
  added : z.succeeded j = true
  held : u.world.Holds key id
  /-- If the id is completed and not indexed, a call that was told before the put has gone on since the return. -/
  outdated : u.repository.index.isCompleted id = true → u.repository.index.keyFor? id ≠ some key →
    ∃ (m : Nat) (c : Call), y.calls[m]? = some c ∧ z.calls[m]? = some c ∧ c.denies key = true ∧ u.calls[m]? ≠ some c
  /-- Otherwise a confirmation that nothing disturbs removes the key. -/
  removes : (u.repository.index.isCompleted id = true → u.repository.index.keyFor? id = some key) →
    ∀ calm : Environment, calm.Healthy → u.repository.isRunning = true → ∃ k,
      let v := run calm s u (.call (.confirm id) :: alone u.calls.length k)
      v.succeeded u.calls.length = true ∧ v.world.store.data = u.world.store.data.erase key
  /-- If the id is completed and not indexed, a confirmation returns at once and has done nothing. -/
  ignores : u.repository.index.isCompleted id = true → u.repository.index.keyFor? id ≠ some key →
    u.repository.isRunning = true →
      u.call s (.confirm id) = { u with calls := u.calls ++ [⟨.confirm id, .returned (.ok .done)⟩] }

/-- A confirmation that locates a key removes it when nothing comes between. -/
theorem confirm_alone {p : Policy} (hp : t.repository.active = some p) (he : env.Healthy)
    (h : ∀ z r, Repository.Located env id t.repository t.world z r → r = t.repository ∧ z = .ok (some key)) :
    ∃ k, let v := run env s t (.call (.confirm id) :: alone t.calls.length k)
      v.succeeded t.calls.length = true ∧ v.world.store.data = t.world.store.data.erase key := by
  have hplain : ((Action.confirm id).task s).Within Request.isPlain :=
    .bind (Repository.plain_confirm id) fun _ => .pure _
  obtain ⟨k, hk⟩ := run_call_alone env hplain t
  obtain ⟨w, hexec, hd⟩ := Repository.confirm_of_located hp he h
  have htask : ((Action.confirm id).task s).exec env t.repository t.world =
      (.ok .done, (t.repository.forget key).count .confirms, w) := by
    show (Repository.confirm id >>= fun _ => pure Answer.done).exec env t.repository t.world = _
    rw [Operation.exec_bind_pure, hexec]
    rfl
  refine ⟨k, ?_⟩
  rw [hk, htask]
  refine ⟨?_, hd⟩
  unfold succeeded
  rw [List.getElem?_concat_length]

/-- A confirmation of an id that is completed and not indexed asks nobody. -/
theorem confirm_call {p : Policy} (hp : t.repository.active = some p)
    (hi : t.repository.index.keyFor? id = none) (hc : t.repository.index.isCompleted id = true) :
    t.call s (.confirm id) = { t with calls := t.calls ++ [⟨.confirm id, .returned (.ok .done)⟩] } := by
  have hrun : ((Action.confirm id).task s).run t.repository = .finished (.ok .done) t.repository := by
    show (((Repository.confirm id).run t.repository).bind _) = _
    rw [Repository.confirm_completed hp hi hc]
    rfl
  unfold call
  rw [hrun]
  rfl

/--
As long as nothing changes a key after an exchange was added under it, a confirmation of the exchange removes the key,
whatever calls interleave and wherever, unless one of them was told before that the key is not stored and goes on with
this outdated answer afterwards.
-/
theorem added_confirmed_unless_outdated (hw : n.Keeps w.store) {before between after : List Turn}
    (hn : ∀ a, .call a ∈ before ++ between ++ after → n.Allows a) (hj : .resume j ∉ between) :
    let x := run env s { world := w } before
    let y := x.serve env j
    let z := (run env s y between).resume j
    let u := run env s z after
    x.adds env key id j = true → y.quiet env s key between = true → z.quiet env s key after = true →
      Confirms s key id j y z u := by
  intro x y z u hadd hbetween hafter
  simp only [List.mem_append] at hn
  have hx : x.Orderly n s := (Orderly.start s hw).run fun a ha => hn a (.inl (.inl ha))
  obtain ⟨hid, hput, hheld⟩ := holds_of_adds hx hadd
  have hy : y.Orderly n s := hx.turn (x := .serve j) fun a ha => by cases ha
  -- The id may be completed up to the note, so what completes it is looked for from there on.
  have hv := (Leads.refl hy).run hheld.mem (fun a ha => hn a (.inl (.inr ha))) hbetween
  have hz : Leads n s key y z := hv.turned (x := .resume j) hheld.mem (fun a ha => by cases ha) rfl (turned env s _ _)
  obtain ⟨hnoted, hadded⟩ := (hput.run hj).noted hv.orderly
  have hu := (Leads.refl hz.orderly).run (hheld.congr hz.same).mem (fun a ha => hn a (.inr ha)) hafter
  have hnow : u.world.Holds key id := hheld.congr (hu.same.trans hz.same)
  refine ⟨hadded, hnow, fun hc _ => ?_, fun hc calm he hp => ?_, fun hc hne hp => ?_⟩
  · obtain ⟨m, c, hm, hd, hgone⟩ := (hu.completes id hid hc).resolve_left (ne_true_of_eq_false hnoted)
    exact ⟨m, c, hz.older m c hm hd, hm, hd, hgone⟩
  · obtain ⟨p, hp⟩ := Option.isSome_iff_exists.1 hp
    exact confirm_alone hp he fun z v => located_of_holds hu.orderly.tracks hu.orderly.keeps he hnow hc
  · obtain ⟨p, hp⟩ := Option.isSome_iff_exists.1 hp
    refine confirm_call hp ?_ hc
    cases hk : u.repository.index.keyFor? id with
    | none => rfl
    | some k =>
      refine absurd ?_ hne
      rw [hk, Option.some.inj ((hu.orderly.tracks.key?_of_keyFor? hk).symm.trans hid)]

/-! ## A pass and an add -/

/-- A pass is told that nothing is stored, and a client calls to add an exchange. -/
def listedThenCalled : List Turn :=
  [.call .start, .serve 0, .resume 0, .serve 0, .resume 0, .call .pass, .serve 1, .resume 1, .serve 1,
    .call (.add ⟨"key"⟩ { id := "exchange" } (Exchange.fits_of_id (by decide)))]

/-- A pass that drops what it was not told of before the add notes its exchange does no harm. -/
theorem added_confirmed_early_listing :
    let key : CorrelationKey := ⟨"key"⟩
    let s : Setup := { config := { recoveryIntervalMillis := 0 } }
    let x := run {} s {} listedThenCalled
    let y := x.serve {} 2
    let z := (run {} s y [.resume 1]).resume 2
    let u := run {} s z [.serve 1, .resume 1]
    x.adds {} key "exchange" 2 = true ∧ y.calls[1]?.any (·.denies key) = true ∧
      Confirms s key "exchange" 2 y z u ∧
      ∃ k, key ∉ (run {} s u (.call (.confirm "exchange") :: alone u.calls.length k)).world.store.data := by
  intro key s x y z u
  let n : Naming :=
    { key? := fun id => if id = "exchange" then some key else none
      apart := fun id k h => by
        split at h
        · cases h
          decide
        · cases h }
  have hconfirms : Confirms s key "exchange" 2 y z u :=
    added_confirmed_unless_outdated (n := n) (w := {}) n.keeps_empty
      (by simp [listedThenCalled, key, n, Naming.Allows]) (by simp) (by decide +kernel) (by decide +kernel)
      (by decide +kernel)
  have hnot : u.repository.index.isCompleted "exchange" = false := by decide +kernel
  obtain ⟨k, -, hd⟩ := hconfirms.removes (by rw [hnot]; exact fun h => nomatch h) {} (fun _ => rfl) (by decide +kernel)
  refine ⟨by decide +kernel, by decide +kernel, hconfirms, k, ?_⟩
  rw [hd]
  simp

/--
A pass that goes on after the add has returned, with nothing listed, completes the exchange: the confirmation returns
as if all were well, and the key goes on holding the exchange.
-/
theorem outdated_listing_swallows_confirmation :
    let key : CorrelationKey := ⟨"key"⟩
    let s : Setup := { config := { recoveryIntervalMillis := 0 } }
    let x := run {} s {} listedThenCalled
    let z := (x.serve {} 2).resume 2
    let u := run {} s z [.resume 1]
    let v := u.call s (.confirm "exchange")
    x.adds {} key "exchange" 2 = true ∧ z.succeeded 2 = true ∧ z.quiet {} s key [.resume 1] = true ∧
      u.repository.isRunning = true ∧ u.repository.index.isCompleted "exchange" = true ∧
      u.repository.index.keyFor? "exchange" = none ∧ v.succeeded 3 = true ∧ v.world.Holds key "exchange" := by
  decide +kernel

end Traffic

end DurableAggregates
