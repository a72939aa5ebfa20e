import DurableAggregates.Proofs.Traffic.Reactions

/-!
# Orderly traffic

Where every exchange id is used under one key only, the entries of the store and of the index are under the keys of
their ids, whatever the turns (`Orderly.run`). So an id becomes completed in one way only: a call goes on with an
answer that denies the key of the id (`Naming.Tracks.denied`). Such answers are given while the key is not stored, or
by the removal that takes it out (`Environment.denies_answer`).
-/

namespace DurableAggregates

variable {env : Environment} {s : Setup} {a : Action} {q : Request} {w : World} {key k : CorrelationKey} {id : String}
  {i j : ExchangeIndex}

/-! ## Ids and their keys -/

/-- Under which key an id is used, if it is used at all. -/
structure Naming where
  key? : String → Option CorrelationKey
  /-- The text of such a key is not used as an id. -/
  apart : ∀ id key, key? id = some key → key? key.text = none

namespace Naming

variable {n : Naming}

/-- Whether an action adds an exchange under the key of its id, if it adds one. -/
def Allows (n : Naming) : Action → Prop
  | .add key e _ => n.key? e.id = some key
  | _ => True

/-- Every entry stands for an exchange whose id is used under the key. -/
def Keeps (n : Naming) (x : Store) : Prop := ∀ key ∈ x.data, ∃ v, x.snapshot? key = some v ∧ n.key? v.id = some key

/-- The index has every id under the key of the id only. -/
structure Tracks (n : Naming) (x : ExchangeIndex) : Prop where
  paired : x.Paired
  named : ∀ key id, x.byKey[key]? = some id → n.key? id = some key

/-! ### The index -/

namespace Tracks

theorem empty (n : Naming) : n.Tracks {} := ⟨ExchangeIndex.paired_empty, fun key id h => by simp at h⟩

theorem insert (h : n.Tracks i) (hid : n.key? id = some key) : n.Tracks (i.insert key id) := by
  refine ⟨h.paired.insert key id, fun k x hk => ?_⟩
  rw [ExchangeIndex.byKey_insert] at hk
  split at hk
  · cases hk
    subst key
    exact hid
  · exact h.named k x hk

theorem forget (h : n.Tracks i) (key : CorrelationKey) : n.Tracks (i.forget key) := by
  refine ⟨h.paired.forget key, fun k x hk => ?_⟩
  rw [ExchangeIndex.byKey_forget] at hk
  split at hk
  · cases hk
  · exact h.named k x hk

theorem forgetId (h : n.Tracks i) (id : String) : n.Tracks (i.forgetId id) := by
  refine ⟨h.paired.forgetId id, fun k x hk => ?_⟩
  rw [ExchangeIndex.byKey_forgetId] at hk
  split at hk
  · cases hk
  · exact h.named k x hk

/-- An id that is indexed is so under its own key. -/
theorem key?_of_keyFor? (h : n.Tracks i) (hi : i.keyFor? id = some key) : n.key? id = some key :=
  h.named key id (h.paired id key hi)

theorem heeded {x : q.Answer} (h : n.Tracks i) (hj : q.Heeded a i x j) (hq : a.Mandates q) (ha : n.Allows a) :
    n.Tracks j := by
  cases hj with
  | same | unstored => exact h
  | stored =>
    obtain ⟨e, he, rfl, hid, -⟩ := hq
    refine h.insert ?_
    rw [hid]
    exact ha
  | removed | absent => exact h.forget _
  | other id => exact h.forgetId id
  | listed => exact ExchangeIndex.retainKeys_induction h (fun _ k hy => hy.forget k) _

/-- An id becomes completed only by an answer that denies its key. -/
theorem denied {x : q.Answer} (h : n.Tracks i) (hid : n.key? id = some key) (hj : q.Heeded a i x j)
    (hnot : i.isCompleted id = false) (hc : j.isCompleted id = true) : q.denies a key x = true := by
  have own {k : CorrelationKey} (hk : i.byKey[k]? = some id) : k = key :=
    Option.some.inj ((h.named k id hk).symm.trans hid)
  have forgotten {k : CorrelationKey} (hf : (i.forget k).isCompleted id = true) : k = key := by
    refine own ((ExchangeIndex.isCompleted_of_forget hf).resolve_left ?_)
    rw [hnot]
    exact Bool.false_ne_true
  cases hj with
  | same | unstored => exact absurd hc (by rw [hnot]; exact Bool.false_ne_true)
  | stored =>
    rw [ExchangeIndex.isCompleted_insert, hnot, Bool.and_false] at hc
    cases hc
  | removed | absent => exact decide_eq_true (forgotten hc)
  | other =>
    rw [ExchangeIndex.isCompleted_forgetId, hnot] at hc
    cases hc
  | @listed stored ha =>
    rcases ExchangeIndex.isCompleted_of_retainKeys hc with hc | ⟨k, hk, hi⟩
    · rw [hnot] at hc
      cases hc
    · rw [own hi, Std.ExtTreeSet.contains_ofList] at hk
      exact Bool.and_eq_true_iff.2 ⟨ha, by rw [hk]; rfl⟩

end Tracks

/-! ### The store -/

theorem keeps_empty (n : Naming) : n.Keeps {} := fun key hk => by simp at hk

namespace Keeps

variable {x y : Store}

theorem sound (h : n.Keeps x) : x.Sound := fun key hk => by
  obtain ⟨v, hv, -⟩ := h key hk
  rw [hv]
  rfl

theorem key?_of_snapshot? {v : Snapshot} (h : n.Keeps x) (hv : x.snapshot? key = some v) : n.key? v.id = some key := by
  obtain ⟨u, hu, hid⟩ := h key (Store.mem_of_snapshot? hv)
  rw [hv] at hu
  cases hu
  exact hid

/-- Only the entries that have changed have to be looked at. -/
theorem of_changed (h : n.Keeps x) (hy : ∀ key ∈ y.data, y.data[key]? = x.data[key]? ∨
    ∃ v, y.snapshot? key = some v ∧ n.key? v.id = some key) : n.Keeps y := by
  intro key hk
  rcases hy key hk with hd | hv
  · rw [Store.snapshot?_congr hd]
    exact h key ((Store.mem_congr hd).1 hk)
  · exact hv

theorem congr (h : n.Keeps x) (hd : y.data = x.data) : n.Keeps y := h.of_changed fun key _ => .inl (by rw [hd])

theorem put (h : n.Keeps w.store) {v : Snapshot} (hv : v.Fits) (hid : n.key? v.id = some key) :
    n.Keeps (env.after w (.put key v)).store := by
  refine h.of_changed fun k _ => ?_
  by_cases hk : k = key
  · subst hk
    have hd := Environment.data_after_put env w k v
    split at hd
    · exact .inl (by rw [hd])
    · exact .inr ⟨v.asWritten, Store.snapshot?_of_encode hv (by rw [hd]; simp), hid⟩
  · exact .inl (Environment.data_after_put_of_ne hk v)

theorem remove (h : n.Keeps w.store) : n.Keeps (env.after w (.remove key)).store := by
  refine h.of_changed fun k hk => .inl ?_
  cases hx : env.result w (.remove key) with
  | error e => rw [Environment.data_after_remove_error hx]
  | ok u =>
    rw [Environment.data_after_remove_ok hx, Std.ExtTreeMap.mem_erase] at hk
    rw [Environment.data_after_remove_ok hx, Std.ExtTreeMap.getElem?_erase, if_neg hk.1]

/-- What an allowed action asks for keeps the entries under the keys of their ids. -/
theorem answer (h : n.Keeps w.store) (hq : a.Mandates q) (ha : n.Allows a) : n.Keeps (env.answer w q).2.store := by
  cases q with
  | store c =>
    cases c with
    | put key v =>
      obtain ⟨e, he, rfl, hid, hv⟩ := hq
      refine h.put hv ?_
      rw [hid]
      exact ha
    | get key => exact h.congr Environment.data_after_get
    | remove key => exact h.remove
    | keys => exact h.congr Environment.data_after_keys
  | _ => exact h

end Keeps

end Naming

namespace Environment

variable {n : Naming}

/-- A request that does not change a key leaves its entry alone. -/
theorem data_answer (h : n.Keeps w.store) (hq : q.changes key (env.answer w q).1 = false) :
    (env.answer w q).2.store.data[key]? = w.store.data[key]? := by
  cases q with
  | store c =>
    cases c with
    | put k v =>
      by_cases hk : key = k
      · subst hk
        show (env.after w (.put key v)).store.data[key]? = w.store.data[key]?
        cases hx : env.result w (.put key v) with
        | ok old =>
          rw [show (env.answer w (.store (.put key v))).1 = .ok old from hx] at hq
          simp [Request.changes] at hq
        | error e =>
          cases hf : env.fault? w .put key with
          | some f => rw [data_after_put, hf]
          | none =>
            have hnone := (unreadable_of_result_put hx hf).snapshot?_eq_none
            obtain ⟨bytes, _, hb, -⟩ := unreadable_of_result_put hx hf
            obtain ⟨v, hv, -⟩ := h key (Std.ExtTreeMap.mem_iff_isSome_getElem?.2 (by rw [hb]; rfl))
            rw [hnone] at hv
            cases hv
      · exact data_after_put_of_ne hk v
    | get k => exact congrArg (·[key]?) data_after_get
    | keys => exact congrArg (·[key]?) data_after_keys
    | remove k =>
      show (env.after w (.remove k)).store.data[key]? = w.store.data[key]?
      cases hx : env.result w (.remove k) with
      | error e => rw [data_after_remove_error hx]
      | ok u =>
        rw [show (env.answer w (.store (.remove k))).1 = .ok u from hx] at hq
        exact data_after_remove_of_ne fun hk => by simp [Request.changes, hk] at hq
  | _ => rfl

/-- While a key is stored, only a removal of it is answered as if it were not. -/
theorem denies_answer (hk : key ∈ w.store.data) (hq : q.changes key (env.answer w q).1 = false) :
    q.denies a key (env.answer w q).1 = false := by
  cases q with
  | store c =>
    cases c with
    | put k v => cases hx : env.result w (.put k v) <;> rfl
    | remove k =>
      show Request.denies a key (.store (.remove k)) (env.result w (.remove k)) = false
      replace hq : Request.changes key (.store (.remove k)) (env.result w (.remove k)) = false := hq
      cases hx : env.result w (.remove k) with
      | error e => rfl
      | ok u =>
        rw [hx] at hq
        exact hq
    | get k =>
      show Request.denies a key (.store (.get k)) (env.result w (.get k)) = false
      cases hx : env.result w (.get k) with
      | error e => rfl
      | ok found =>
        cases found with
        | some v => rfl
        | none =>
          refine decide_eq_false fun h => ?_
          subst h
          exact (getElem?_eq_none_iff ..).1 (data_of_result_get_none hx) hk
    | keys =>
      show Request.denies a key (.store .keys) (env.result w .keys) = false
      cases hx : env.result w .keys with
      | error e => rfl
      | ok stored =>
        have hmem : key ∈ stored := ((mem_of_result_keys hx).2 key).2 (.inr hk)
        show (a.sweeps && !stored.contains key) = false
        rw [List.contains_iff_mem.2 hmem]
        simp
  | _ => rfl

end Environment

/-! ## Turns -/

namespace Traffic

open Cluster (Answer)

variable {n : Naming} {t u : Traffic} {x : Turn} {m : Nat} {c : Call}

/-- What a turn comes to. -/
inductive Turned (env : Environment) (s : Setup) (t : Traffic) : Turn → Traffic → Prop where
  | called (a : Action) : Turned env s t (.call a) { t with
      repository := (pause ((a.task s).run t.repository)).2
      calls := t.calls ++ [⟨a, (pause ((a.task s).run t.repository)).1⟩] }
  | served {m : Nat} {a : Action} {q : Request} {next : q.Answer → Repository → Run (Except RepositoryError Answer)}
      (hc : t.calls[m]? = some ⟨a, .asking q next⟩) (hw : t.waits q = false) : Turned env s t (.serve m) { t with
        world := (env.answer t.world q).2
        calls := t.calls.set m ⟨a, .answered q (env.answer t.world q).1 next⟩
        held := locks t.held q }
  | resumed {m : Nat} {a : Action} {q : Request} {x : q.Answer}
      {next : q.Answer → Repository → Run (Except RepositoryError Answer)}
      (hc : t.calls[m]? = some ⟨a, .answered q x next⟩) : Turned env s t (.resume m) { t with
        repository := (pause (next x t.repository)).2
        calls := t.calls.set m ⟨a, (pause (next x t.repository)).1⟩ }
  /-- The call cannot go on. -/
  | idle (x : Turn) : Turned env s t x t

theorem turned (env : Environment) (s : Setup) (t : Traffic) (x : Turn) : Turned env s t x (t.turn env s x) := by
  cases x with
  | call a => exact .called a
  | serve m =>
    show Turned env s t (.serve m) (t.serve env m)
    unfold serve
    split
    · rename_i hc
      split
      · exact .idle _
      · rename_i hw
        exact .served hc (Bool.eq_false_iff.2 hw)
    · exact .idle _
  | resume m =>
    show Turned env s t (.resume m) (t.resume m)
    unfold resume
    split
    · rename_i hc
      exact .resumed hc
    · exact .idle _

/-- A call that has got to this stage heeds every answer from here on. -/
def Stage.Heeds (s : Setup) (a : Action) : Stage → Prop
  | .asking q next | .answered q _ next =>
    a.Mandates q ∧ ∀ x r, r.Follows s → (next x r).Heeds s a (q.Heeded a r.index x)
  | .returned _ => True

/-- An add that has got to this stage returns when its put is answered. -/
def Stage.Brief : Stage → Prop
  | .asking q next | .answered q _ next => ∀ r, (Run.asking q r next).Brief
  | .returned _ => True

theorem heeds_pause {now : ExchangeIndex → Prop} {y : Run (Except RepositoryError Answer)} (h : y.Heeds s a now) :
    (pause y).1.Heeds s a ∧ (pause y).2.Follows s ∧ now (pause y).2.index := by
  cases h with
  | finished hr hi => exact ⟨trivial, hr, hi⟩
  | asking hr hi hq h => exact ⟨⟨hq, h⟩, hr, hi⟩

theorem brief_pause {y : Run (Except RepositoryError Answer)} (h : y.Brief) : (pause y).1.Brief := by
  cases h with
  | finished => trivial
  | asking h => exact fun _ => .asking h

/-- What is true of every call as long as ids are used under their own keys. -/
structure Call.Orderly (n : Naming) (s : Setup) (c : Call) : Prop where
  allowed : n.Allows c.action
  heeds : c.stage.Heeds s c.action
  brief : c.action.isAdd = true → c.stage.Brief

/-- Ids are used under their own keys only, in the store, in the index and by all calls. -/
structure Orderly (n : Naming) (s : Setup) (t : Traffic) : Prop where
  follows : t.repository.Follows s
  tracks : n.Tracks t.repository.index
  keeps : n.Keeps t.world.store
  calls : ∀ c ∈ t.calls, c.Orderly n s

namespace Orderly

theorem start (s : Setup) (hw : n.Keeps w.store) : Orderly n s { world := w } where
  follows := Repository.follows_new s
  tracks := .empty n
  keeps := hw
  calls := fun c hc => by cases hc

theorem call_of_getElem? (h : t.Orderly n s) (hc : t.calls[m]? = some c) : c.Orderly n s :=
  h.calls c (List.mem_of_getElem? hc)

/-- The other calls stay where they are. -/
theorem calls_set (h : t.Orderly n s) (hc : c.Orderly n s) (m : Nat) : ∀ d ∈ t.calls.set m c, d.Orderly n s := by
  intro d hd
  rcases List.mem_or_eq_of_mem_set hd with hd | rfl
  · exact h.calls d hd
  · exact hc

theorem turned (h : t.Orderly n s) (hx : ∀ a, x = .call a → n.Allows a) (hu : Turned env s t x u) : u.Orderly n s := by
  cases hu with
  | called a =>
    obtain ⟨hstage, hr, hi⟩ := heeds_pause (Action.tidy s a (· = t.repository.index) t.repository h.follows rfl)
    refine ⟨hr, by rw [hi]; exact h.tracks, h.keeps, fun c hc => ?_⟩
    rcases List.mem_append.1 hc with hc | hc
    · exact h.calls c hc
    · rw [List.mem_singleton.1 hc]
      exact ⟨hx a rfl, hstage, fun ha => brief_pause (Action.brief ha s t.repository)⟩
  | @served m a q next hc =>
    have hcall := h.call_of_getElem? hc
    have hserved : Call.Orderly n s ⟨a, .answered q (env.answer t.world q).1 next⟩ :=
      ⟨hcall.allowed, hcall.heeds, hcall.brief⟩
    exact ⟨h.follows, h.tracks, h.keeps.answer hcall.heeds.1 hcall.allowed, h.calls_set hserved m⟩
  | @resumed m a q x next hc =>
    have hcall := h.call_of_getElem? hc
    obtain ⟨hq, hnext⟩ := hcall.heeds
    obtain ⟨hstage, hr, hi⟩ := heeds_pause (hnext x t.repository h.follows)
    have hgone : Call.Orderly n s ⟨a, (pause (next x t.repository)).1⟩ := by
      refine ⟨hcall.allowed, hstage, fun ha => ?_⟩
      cases hcall.brief ha t.repository with
      | asking hdone =>
        obtain ⟨y, r, hy, -⟩ := hdone x t.repository
        rw [hy]
        trivial
    exact ⟨hr, h.tracks.heeded hi hq hcall.allowed, h.keeps, h.calls_set hgone m⟩
  | idle => exact h

theorem turn (h : t.Orderly n s) (hx : ∀ a, x = .call a → n.Allows a) : (t.turn env s x).Orderly n s :=
  h.turned hx (Traffic.turned env s t x)

theorem run (h : t.Orderly n s) {turns : List Turn} (hx : ∀ a, .call a ∈ turns → n.Allows a) :
    (t.run env s turns).Orderly n s := by
  induction turns generalizing t with
  | nil => exact h
  | cons x turns ih =>
    have hturn : (t.turn env s x).Orderly n s := h.turn fun a ha => hx a (ha ▸ List.mem_cons_self ..)
    exact ih hturn fun a ha => hx a (List.mem_cons_of_mem x ha)

end Orderly

end Traffic

end DurableAggregates
