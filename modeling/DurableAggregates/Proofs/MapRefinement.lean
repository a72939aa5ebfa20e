import DurableAggregates.Proofs.Execution.Steps

/-!
# A repository is a map of exchanges

Between recovery passes a repository on a store without faults is nothing but a finite map from keys to exchanges that
can be opened and closed. `OpenMap` is this map: it knows nothing of snapshots in binary form, of an index or of
records. What an add stores is made of the capture of the exchange; what cannot be captured is refused. A plain map
stores the capture restored (`Snapshot.restore`). A store returns it with its timestamps as they are written
(`Snapshot.returned`), which is the same unless a timestamp lies in a leap second within a minute.

A store stands for the map of what its entries decode to (`Store.exchanges`). One call leads from a site that shows a
map to a site that shows the map after the call, with the same answer (`Shows.act`); so all answers of a repository are
those of the map (`answers_of_map`), however many calls there are.
-/

namespace DurableAggregates

open Cluster (Answer)

/-! ## Maps that are opened and closed -/

/-- A call that concerns aggregates. -/
inductive DataCall where
  /-- An exchange has lengths that fit. -/
  | add (key : CorrelationKey) (e : Exchange) (fits : e.Fits)
  | get (key : CorrelationKey)
  | remove (key : CorrelationKey)
  | recover (key : CorrelationKey)
  | keys
  | scan

/-- A call that is no recovery pass and no confirmation. -/
inductive MapCall where
  | start
  | stop
  | data (c : DataCall)

def DataCall.action : DataCall → Action
  | .add key e fits => .add key e fits
  | .get key => .get key
  | .remove key => .remove key
  | .recover key => .recover key
  | .keys => .keys
  | .scan => .scan

def MapCall.action : MapCall → Action
  | .start => .start
  | .stop => .stop
  | .data c => c.action

/-- What a map of exchanges answers to a call that concerns aggregates, and the map after it. -/
def DataCall.perform (stored : Snapshot → Exchange) (p : Policy) (entries : KeyMap Exchange) :
    DataCall → Except RepositoryError Answer × KeyMap Exchange
  | .add key e _ =>
    match e.capture p.allowSerializedHeaders with
    | .error fault => (.error (.serialization fault), entries)
    | .ok v => (.ok (.exchange entries[key]?), entries.insert key (stored v))
  | .get key => (.ok (.exchange entries[key]?), entries)
  | .remove key => (.ok .done, entries.erase key)
  | .recover key => (.ok (.exchange (if p.useRecovery then entries[key]? else none)), entries)
  | .keys | .scan => (.ok (.keys entries.keys), entries)

structure OpenMap where
  isOpen : Bool := false
  entries : KeyMap Exchange := ∅

namespace OpenMap

variable (stored : Snapshot → Exchange)

/-- What the map answers to a call, and the map after it. A closed map refuses all that concerns aggregates. -/
def act (p : Policy) (m : OpenMap) : MapCall → Except RepositoryError Answer × OpenMap
  | .start => (.ok .done, { m with isOpen := true })
  | .stop => (.ok .done, { m with isOpen := false })
  | .data c =>
    if m.isOpen then ((c.perform stored p m.entries).1, { m with entries := (c.perform stored p m.entries).2 })
    else (.error .notRunning, m)

/-- The answers to a row of calls, the first first. -/
def answers (p : Policy) : OpenMap → List MapCall → List (Except RepositoryError Answer)
  | _, [] => []
  | m, c :: calls => (m.act stored p c).1 :: answers p (m.act stored p c).2 calls

/-- The map after a row of calls. -/
def run (p : Policy) (m : OpenMap) (calls : List MapCall) : OpenMap :=
  calls.foldl (fun m c => (m.act stored p c).2) m

end OpenMap

/-! ## What storing does to an exchange -/

/-- The exchange that a store returns for a snapshot that was put. -/
def Snapshot.returned (s : Snapshot) : Exchange := s.asWritten.restore

/-- What is added has no timestamp in a leap second within a minute. -/
def MapCall.Regular : MapCall → Prop
  | .data (.add _ e _) => e.Regular
  | _ => True

theorem MapCall.act_of_regular {c : MapCall} (h : c.Regular) (p : Policy) (m : OpenMap) :
    m.act Snapshot.returned p c = m.act Snapshot.restore p c := by
  cases c with
  | start | stop => rfl
  | data c =>
    cases c with
    | add key e fits =>
      simp only [OpenMap.act, DataCall.perform]
      cases hc : e.capture p.allowSerializedHeaders with
      | error fault => rfl
      | ok v =>
        have hv : v.asWritten = v := Snapshot.asWritten_eq_self_iff.2 (Exchange.regular_of_capture hc h)
        simp only [Snapshot.returned, hv]
    | _ => rfl

/-- A map in which storing changes timestamps answers as a plain one where there is nothing to change. -/
theorem OpenMap.answers_of_regular {calls : List MapCall} (h : ∀ c ∈ calls, c.Regular) (p : Policy) (m : OpenMap) :
    m.answers Snapshot.returned p calls = m.answers Snapshot.restore p calls := by
  induction calls generalizing m with
  | nil => rfl
  | cons c calls ih =>
    rw [OpenMap.answers, OpenMap.answers, MapCall.act_of_regular (h c List.mem_cons_self),
      ih fun c hc => h c (List.mem_cons_of_mem _ hc)]

/-! ## What a store stands for -/

namespace Store

variable {s t : Store} {key : CorrelationKey}

/-- The exchanges that the entries stand for. -/
def exchanges (s : Store) : KeyMap Exchange :=
  s.data.filterMap fun _ bytes => (Snapshot.decode bytes).toOption.map Snapshot.restore

theorem getElem?_exchanges (s : Store) (key : CorrelationKey) :
    s.exchanges[key]? = (s.snapshot? key).map Snapshot.restore := by
  rw [exchanges, Std.ExtTreeMap.getElem?_filterMap', snapshot?]
  cases s.data[key]? <;> rfl

theorem exchanges_congr (h : t.data = s.data) : t.exchanges = s.exchanges := by
  rw [exchanges, h, exchanges]

theorem exchanges_insert {v : Snapshot} (hv : v.Fits) (h : t.data = s.data.insert key v.encode) :
    t.exchanges = s.exchanges.insert key v.returned := by
  apply Std.ExtTreeMap.ext_getElem?
  intro k
  rw [getElem?_exchanges, Std.ExtTreeMap.getElem?_insert]
  split
  · next hk =>
    have hk : key = k := Std.LawfulEqOrd.eq_of_compare hk
    have hd : t.snapshot? k = some v.asWritten := snapshot?_of_encode hv (by rw [h, hk, Std.ExtTreeMap.getElem?_insert_self])
    rw [hd]
    rfl
  · next hk =>
    have hd : t.data[k]? = s.data[k]? := by rw [h, Std.ExtTreeMap.getElem?_insert, if_neg hk]
    rw [snapshot?_congr hd, getElem?_exchanges]

theorem exchanges_erase (h : t.data = s.data.erase key) : t.exchanges = s.exchanges.erase key := by
  apply Std.ExtTreeMap.ext_getElem?
  intro k
  rw [getElem?_exchanges, Std.ExtTreeMap.getElem?_erase]
  split
  · next hk =>
    have hd : k ∉ t.data := by
      rw [h, ← Std.LawfulEqOrd.eq_of_compare hk]
      simp
    rw [snapshot?_eq_none hd]
    rfl
  · next hk =>
    have hd : t.data[k]? = s.data[k]? := by rw [h, Std.ExtTreeMap.getElem?_erase, if_neg hk]
    rw [snapshot?_congr hd, getElem?_exchanges]

/-- Where all entries can be read, the stored keys are those of the map. -/
theorem Sound.keys_exchanges (h : s.Sound) : s.exchanges.keys = s.data.keys := by
  apply eq_of_ordered id Std.ExtTreeMap.ordered_keys Std.ExtTreeMap.ordered_keys
  intro key
  rw [Std.ExtTreeMap.mem_keys, Std.ExtTreeMap.mem_keys, Std.ExtTreeMap.mem_iff_isSome_getElem?, getElem?_exchanges,
    Option.isSome_map]
  constructor
  · intro hk
    obtain ⟨x, hx⟩ := Option.isSome_iff_exists.1 hk
    exact mem_of_snapshot? hx
  · exact h key

end Store

/-! ## One call -/

/-- A site shows a map: the entries stand for it, and the repository runs while it is open. -/
structure Shows (p : Policy) (x : Site) (m : OpenMap) : Prop where
  sound : x.world.store.Sound
  entries : x.world.store.exchanges = m.entries
  active : x.repository.active = if m.isOpen then some p else none
  /-- No redelivery is outstanding. -/
  idle : x.repository.inFlight = 0

namespace Shows

open Repository Environment

variable {env : Environment} {s : Setup} {p : Policy} {x : Site} {m : OpenMap}

theorem isRunning (h : Shows p x m) : x.repository.isRunning = m.isOpen := by
  rw [Repository.isRunning, h.active]
  cases m.isOpen <;> rfl

theorem follows (h : Shows p x m) (hp : s.policy? = .ok p) : x.repository.Follows s := by
  intro q hq
  rw [h.active] at hq
  split at hq
  · cases hq
    exact hp
  · cases hq

/-- What a reading finds, as an exchange. -/
theorem result_get (h : Shows p x m) (he : env.Healthy) (key : CorrelationKey) :
    ((env.result x.world (.get key)).mapError RepositoryError.store).map (·.map Snapshot.restore) =
      .ok m.entries[key]? := by
  rw [result_get_of_healthy he h.sound, ← h.entries, Store.getElem?_exchanges]
  rfl

theorem result_keys (h : Shows p x m) (he : env.Healthy) :
    (env.result x.world .keys).mapError RepositoryError.store = .ok m.entries.keys := by
  rw [result_keys_eq_of_healthy he, ← h.entries, h.sound.keys_exchanges]
  rfl

/-- A call that only reads leaves a site that shows the same map. -/
theorem of_data (h : Shows p x m) {u : World} (hd : u.store.data = x.world.store.data) :
    Shows p ⟨x.repository, u⟩ m where
  sound := by
    intro key hk
    have hkey : u.store.snapshot? key = x.world.store.snapshot? key := Store.snapshot?_congr (by rw [hd])
    rw [hkey]
    exact h.sound key (by rwa [← hd])
  entries := (Store.exchanges_congr hd).trans h.entries
  active := h.active
  idle := h.idle

/-- A running repository answers to what concerns aggregates as the map does. -/
theorem data (h : Shows p x m) (he : env.Healthy) (hp : s.policy? = .ok p) (ho : m.isOpen = true) (c : DataCall) :
    (x.act env s c.action).1 = (c.perform Snapshot.returned p m.entries).1 ∧
      Shows p (x.act env s c.action).2 { m with entries := (c.perform Snapshot.returned p m.entries).2 } := by
  have ha : x.repository.active = some p := by rw [h.active, if_pos ho]
  have hsound (a : Action) : (x.act env s a).2.world.store.Sound := (h.follows hp).sound env x.world a h.sound
  cases c with
  | add key e fits =>
    have hs := hsound (.add key e fits)
    rcases add_exec env x.world key ha e with ⟨fault, hc, hx⟩ | ⟨v, hc, ⟨f, hr, -⟩ | ⟨old, hr, hx⟩⟩
    · simp only [DataCall.perform, hc]
      rw [DataCall.action, Site.act_of_exec rfl hx]
      exact ⟨rfl, h⟩
    · rw [result_put_of_healthy he h.sound] at hr
      cases hr
    · have hold : old = x.world.store.snapshot? key := by
        rw [result_put_of_healthy he h.sound] at hr
        cases hr
        rfl
      simp only [DataCall.perform, hc]
      rw [Site.act_of_exec rfl hx] at hs
      rw [DataCall.action, Site.act_of_exec rfl hx]
      constructor
      · rw [hold, ← h.entries, Store.getElem?_exchanges]
        rfl
      · refine ⟨hs, ?_, h.active, h.idle⟩
        rw [← h.entries]
        exact Store.exchanges_insert (Exchange.fits_of_capture hc fits) (data_after_put_of_healthy he v)
  | get key =>
    rw [DataCall.action, Site.act_of_exec rfl (get?_exec ha), h.result_get he]
    exact ⟨rfl, h.of_data data_after_get⟩
  | remove key =>
    have hs := hsound (.remove key)
    rcases remove_exec env x.world key ha with ⟨hr, hx⟩ | ⟨f, hr, -⟩
    · rw [Site.act_of_exec rfl hx] at hs
      rw [DataCall.action, Site.act_of_exec rfl hx]
      refine ⟨rfl, hs, ?_, h.active, h.idle⟩
      rw [DataCall.perform, ← h.entries]
      exact Store.exchanges_erase (data_after_remove_ok hr)
    · exact absurd he (not_healthy_of_result_remove hr)
  | recover key =>
    have hx := recover_exec env s x.world key ha
    rw [DataCall.action, DataCall.perform, Setup.useRecovery_of_policy? hp]
    by_cases hu : s.config.useRecovery = true
    · rw [if_pos hu] at hx
      rw [Site.act_of_exec rfl hx, h.result_get he, if_pos hu]
      exact ⟨rfl, h.of_data data_after_get⟩
    · rw [if_neg hu] at hx
      rw [Site.act_of_exec rfl hx, if_neg hu]
      exact ⟨rfl, h⟩
  | keys =>
    rw [DataCall.action, Site.act_of_exec rfl (keys_exec ha), h.result_keys he]
    exact ⟨rfl, h.of_data data_after_keys⟩
  | scan =>
    rw [DataCall.action, Site.act_of_exec rfl (keys_exec ha), h.result_keys he]
    exact ⟨rfl, h.of_data data_after_keys⟩

/-- A repository that does not run refuses all that concerns aggregates, and nothing at all is touched. -/
theorem act_of_stopped (ha : x.repository.active = none) (c : DataCall) :
    x.act env s c.action = (.error .notRunning, x) := by
  cases c <;> exact Site.act_of_stopped rfl ha

/-- Every call is answered as the map answers it, and leaves what shows the map after it. -/
theorem act (h : Shows p x m) (he : env.Healthy) (hend : ∀ n, env.ending n = .ok ()) (hp : s.policy? = .ok p)
    (c : MapCall) : (x.act env s c.action).1 = (m.act Snapshot.returned p c).1 ∧
      Shows p (x.act env s c.action).2 (m.act Snapshot.returned p c).2 := by
  cases c with
  | start =>
    rcases start_exec env s x.repository x.world with ⟨hr, hx⟩ | ⟨e, f, hq, -⟩ | ⟨q, hq, hx⟩
    · rw [h.isRunning] at hr
      rw [MapCall.action, Site.act_of_exec rfl hx]
      refine ⟨rfl, h.sound, h.entries, ?_, h.idle⟩
      rw [h.active, hr]
      rfl
    · rw [hp] at hq
      cases hq
    · rw [hp] at hq
      cases hq
      rw [MapCall.action, Site.act_of_exec rfl hx]
      exact ⟨rfl, h.sound, h.entries, rfl, h.idle⟩
  | stop =>
    rw [MapCall.action, Site.act_of_exec rfl (stop_exec_idle h.idle (hend _))]
    exact ⟨rfl, h.sound, h.entries, rfl, h.idle⟩
  | data c =>
    rw [MapCall.action, OpenMap.act]
    split
    · next ho => exact h.data he hp ho c
    · next ho =>
      have ha : x.repository.active = none := by rw [h.active, if_neg ho]
      rw [act_of_stopped ha]
      exact ⟨rfl, h⟩

/-! ## Rows of calls -/

theorem answers (h : Shows p x m) (he : env.Healthy) (hend : ∀ n, env.ending n = .ok ()) (hp : s.policy? = .ok p)
    (calls : List MapCall) :
    (Site.history env s x (calls.map MapCall.action)).map (·.answer) = m.answers Snapshot.returned p calls ∧
      Shows p (Site.run env s x (calls.map MapCall.action)) (m.run Snapshot.returned p calls) := by
  induction calls generalizing x m with
  | nil => exact ⟨rfl, h⟩
  | cons c calls ih =>
    obtain ⟨hanswer, hnext⟩ := h.act he hend hp c
    obtain ⟨hanswers, hrun⟩ := ih hnext
    refine ⟨?_, hrun⟩
    rw [List.map_cons, Site.history, List.map_cons, hanswers, OpenMap.answers, ← hanswer]
    rfl

end Shows

/--
A repository with a policy, on a store without faults whose entries can all be read, answers to every row of calls
without recovery passes as a map of exchanges does that begins with what the entries stand for and keeps timestamps as
they are written. If no exchange that is added has a timestamp in a leap second within a minute, these are the answers
of a plain map. Equality of exchanges is equality of all their parts, of numbers bit by bit. Afterwards the store
stands for the entries of the map; while the repository does not run, what concerns aggregates is refused and changes
nothing, not even what is counted.
-/
theorem answers_of_map {env : Environment} (he : env.Healthy) (hend : ∀ n, env.ending n = .ok ()) {s : Setup}
    {p : Policy} (hp : s.policy? = .ok p) {w : World} (hw : w.store.Sound) (calls : List MapCall) :
    let m : OpenMap := { entries := w.store.exchanges }
    let actions := calls.map MapCall.action
    let answers := (Site.history env s { world := w } actions).map (·.answer)
    let x := Site.run env s { world := w } actions
    let y := m.run Snapshot.returned p calls
    answers = m.answers Snapshot.returned p calls ∧
      ((∀ c ∈ calls, c.Regular) → answers = m.answers Snapshot.restore p calls) ∧
      x.world.store.exchanges = y.entries ∧ x.repository.isRunning = y.isOpen ∧
      (x.repository.isRunning = false → ∀ c : DataCall, x.act env s c.action = (.error .notRunning, x)) := by
  intro m actions answers x y
  have hshows : Shows p { world := w } m := ⟨hw, rfl, rfl, rfl⟩
  obtain ⟨hanswers, hrun⟩ := hshows.answers he hend hp calls
  refine ⟨hanswers, fun hc => hanswers.trans (OpenMap.answers_of_regular hc p m), hrun.entries, hrun.isRunning, ?_⟩
  intro hr c
  have ha : x.repository.active = none := by rw [hrun.active, ← hrun.isRunning, hr, if_neg Bool.false_ne_true]
  exact Shows.act_of_stopped ha c

/-- A NaN comes back with its payload, also after a stop and another start. -/
theorem answers_of_map_nan :
    let e : Exchange := { id := "exchange", body := .float ⟨0x7ff8_0000_0000_0001⟩ }
    let fits : e.Fits := { Exchange.fits_of_id (show textFits "exchange" by decide) with body := trivial }
    let actions : List Action := [.start, .add ⟨"key"⟩ e fits, .stop, .get ⟨"key"⟩, .start, .get ⟨"key"⟩, .keys]
    (Site.history {} {} {} actions).map (·.answer) =
      [.ok .done, .ok (.exchange none), .ok .done, .error .notRunning, .ok .done, .ok (.exchange (some e)),
        .ok (.keys [⟨"key"⟩])] := by
  intro e fits actions
  have hp : ({} : Setup).policy? = .ok ⟨true, 5000, 3, none, false, 30000⟩ := by decide
  have he : ({} : Environment).Healthy := fun _ => rfl
  have hw : ({} : World).store.Sound := Store.sound_empty
  let calls : List MapCall :=
    [.start, .data (.add ⟨"key"⟩ e fits), .stop, .data (.get ⟨"key"⟩), .start, .data (.get ⟨"key"⟩), .data .keys]
  have hc : ∀ c ∈ calls, c.Regular := by
    have hregular : e.Regular := ⟨entriesRegular_empty _, entriesRegular_empty _, trivial⟩
    simp [calls, MapCall.Regular, hregular]
  obtain ⟨-, hanswers, -⟩ := answers_of_map he (fun _ => rfl) hp hw calls
  exact (hanswers hc).trans rfl

/-- A timestamp in a leap second within a minute comes back in the next second, as from no plain map. -/
theorem answers_within_minute :
    let p : Policy := ⟨true, 5000, 3, none, false, 30000⟩
    let e : Exchange := { id := "exchange", body := .timestamp ⟨4, 1_333_333_333, by decide, by decide, by decide⟩ }
    let next : Exchange := { id := "exchange", body := .timestamp ⟨5, 333_333_333, by decide, by decide, by decide⟩ }
    let fits : e.Fits := { Exchange.fits_of_id (show textFits "exchange" by decide) with body := trivial }
    let calls : List MapCall := [.start, .data (.add ⟨"key"⟩ e fits), .data (.get ⟨"key"⟩)]
    let answers := (Site.history {} {} {} (calls.map MapCall.action)).map (·.answer)
    ({} : Setup).policy? = .ok p ∧ answers = [.ok .done, .ok (.exchange none), .ok (.exchange (some next))] ∧
      answers ≠ ({} : OpenMap).answers Snapshot.restore p calls := by
  intro p e next fits calls answers
  have hp : ({} : Setup).policy? = .ok p := by decide
  have hshows : Shows p {} {} := ⟨Store.sound_empty, rfl, rfl, rfl⟩
  have hanswers : answers = [.ok .done, .ok (.exchange none), .ok (.exchange (some next))] :=
    (hshows.answers (fun _ => rfl) (fun _ => rfl) hp calls).1.trans rfl
  refine ⟨hp, hanswers, fun h => ?_⟩
  have hplain : ({} : OpenMap).answers Snapshot.restore p calls =
      [.ok .done, .ok (.exchange none), .ok (.exchange (some e))] := rfl
  rw [hanswers, hplain] at h
  simp [next, e] at h

end DurableAggregates
