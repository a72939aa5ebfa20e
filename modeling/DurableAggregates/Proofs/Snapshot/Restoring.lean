import DurableAggregates.Proofs.Snapshot.Policy

/-!
# Capturing and restoring

Restoring a snapshot and capturing what comes of it gives the snapshot back, less the sealed headers and properties
where the policy does not allow them (`Snapshot.capture_restore`). The other way round an exchange is restored to an
equal one exactly if it has no live object, no NaN and nothing that the policy drops. Both are parts of
`capture_restore_inverse`.
-/

namespace DurableAggregates

/-! ## Values -/

def SnapshotValue.isSealed : SnapshotValue → Bool
  | .sealed _ => true
  | _ => false

def Value.isSealed : Value → Bool
  | .sealed _ => true
  | _ => false

def Value.isLive : Value → Bool
  | .live _ => true
  | _ => false

@[simp] theorem SnapshotValue.seal_toValue (x : SnapshotValue) : x.toValue.seal = .ok x := by
  cases x <;> rfl

@[simp] theorem SnapshotValue.captureBody_toValue (x : SnapshotValue) : x.toValue.captureBody = .ok x := by
  simp only [Value.captureBody, seal_toValue]

theorem SnapshotValue.captureError?_toValue (x : SnapshotValue) (part : Section) (allow : Bool) (name : String) :
    x.toValue.captureError? part allow name = none := by
  simp only [Value.captureError?, seal_toValue, ite_self]

theorem SnapshotValue.kept?_toValue (x : SnapshotValue) (allow : Bool) :
    x.toValue.kept? allow = if allow || !x.isSealed then some x else none := by
  cases x <;> cases allow <;> rfl

/-- The stored form of a value agrees with it, unless the value is live or a NaN. -/
theorem Value.agrees_of_seal {v : Value} {x : SnapshotValue} (h : v.seal = .ok x) :
    x.toValue.agrees v = true ↔ v.isLive = false ∧ v.isNaN = false := by
  cases v with
  | live o =>
    simp only [Value.seal] at h
    split at h
    · cases h; simp [SnapshotValue.toValue, agrees, isLive]
    · cases h
  | _ => cases h; simp only [SnapshotValue.toValue, agrees_self_iff, isLive, true_and]

/-! ## Headers and properties -/

/-- The entries that are not sealed. -/
def withoutSealed (captured : Entries SnapshotValue) : Entries SnapshotValue :=
  captured.filter fun _ x => !x.isSealed

/-- Restored entries can be captured; where the policy does not allow them, the sealed ones are lost. -/
theorem captureEntries_restore (part : Section) (allow : Bool) (captured : Entries SnapshotValue) :
    captureEntries part allow (captured.map fun _ x => x.toValue) =
      .ok (if allow then captured else withoutSealed captured) := by
  have hn : captureEntries part allow (captured.map fun _ x => x.toValue) =
      .ok ((captured.map fun _ x => x.toValue).filterMap fun _ v => v.kept? allow) := by
    refine captureAlong_of_none (.refl _) fun name v hv => ?_
    rw [Std.ExtTreeMap.getElem?_map, Option.map_eq_some_iff] at hv
    obtain ⟨x, -, rfl⟩ := hv
    exact x.captureError?_toValue part allow name
  have hk : (captured.map fun _ x => x.toValue).filterMap (fun _ v => v.kept? allow) =
      if allow then captured else withoutSealed captured := by
    apply Std.ExtTreeMap.ext_getElem?
    intro name
    rw [Std.ExtTreeMap.getElem?_filterMap', Std.ExtTreeMap.getElem?_map]
    cases allow with
    | false =>
      rw [if_neg Bool.false_ne_true, withoutSealed, Std.ExtTreeMap.getElem?_filter']
      cases captured[name]? with
      | none => rfl
      | some x => simp only [Option.map_some, Option.bind_some, SnapshotValue.kept?_toValue, Bool.false_or,
          Option.filter_some]
    | true =>
      rw [if_pos rfl]
      cases captured[name]? with
      | none => rfl
      | some x => simp only [Option.map_some, Option.bind_some, SnapshotValue.kept?_toValue, Bool.true_or, if_true]
  rw [hn, hk]

/-- Lists of entries that agree have agreeing values at every name. -/
theorem exists_of_entriesAgree {l m : List (String × Value)} (h : entriesAgree l m = true) {name : String} {w : Value}
    (hw : (name, w) ∈ m) : ∃ v, (name, v) ∈ l ∧ v.agrees w = true := by
  induction l generalizing m with
  | nil =>
    cases m with
    | nil => cases hw
    | cons y m => cases h
  | cons x l ih =>
    cases m with
    | nil => cases h
    | cons y m =>
      simp only [entriesAgree, Bool.and_eq_true, beq_iff_eq] at h
      obtain ⟨⟨hn, hv⟩, hr⟩ := h
      rcases List.mem_cons.1 hw with rfl | hw
      · obtain rfl : x.1 = name := hn
        exact ⟨x.2, List.mem_cons_self, hv⟩
      · obtain ⟨v, hm, ha⟩ := ih hr hw
        exact ⟨v, List.mem_cons_of_mem _ hm, ha⟩

theorem entriesAgree_self {l : List (String × Value)} (h : ∀ x ∈ l, x.2.isNaN = false) : entriesAgree l l = true := by
  induction l with
  | nil => rfl
  | cons x l ih =>
    obtain ⟨hx, hl⟩ := List.forall_mem_cons.1 h
    simp only [entriesAgree, Bool.and_eq_true, beq_self_eq_true, true_and]
    exact ⟨(Value.agrees_self_iff _).2 hx, ih hl⟩

/-- A header or property that comes back as it was: not live, no NaN, and not dropped. -/
def Value.Survives (allow : Bool) (v : Value) : Prop :=
  v.isLive = false ∧ v.isNaN = false ∧ (allow = true ∨ v.isSealed = false)

theorem Value.kept?_of_survives {v : Value} {allow : Bool} (h : v.Survives allow) :
    ∃ x, v.kept? allow = some x ∧ x.toValue = v := by
  obtain ⟨hl, -, ha⟩ := h
  cases v with
  | live o => cases hl
  | «sealed» v =>
    obtain rfl : allow = true := by simpa [isSealed] using ha
    exact ⟨.sealed v, rfl, rfl⟩
  | _ => exact ⟨_, rfl, rfl⟩

theorem Value.survives_of_kept? {v : Value} {allow : Bool} {x : SnapshotValue} (h : v.kept? allow = some x)
    (ha : x.toValue.agrees v = true) : v.Survives allow := by
  obtain ⟨hl, hn⟩ := (agrees_of_seal (seal_of_kept? h)).1 ha
  refine ⟨hl, hn, ?_⟩
  cases v with
  | «sealed» v => cases allow with
    | true => exact .inl rfl
    | false => cases h
  | _ => exact .inr rfl

/-- Captured entries come back as they were exactly if every one of them does. -/
theorem entriesAgree_restore_iff {part : Section} {allow : Bool} {entries : Entries Value}
    {captured : Entries SnapshotValue} (h : captureEntries part allow entries = .ok captured) :
    entriesAgree (captured.map fun _ x => x.toValue).toList entries.toList = true ↔
      ∀ (name : String) (v : Value), entries[name]? = some v → v.Survives allow := by
  have hlook (name : String) : (captured.map fun _ x => x.toValue)[name]? =
      (entries[name]?.bind fun v => v.kept? allow).map SnapshotValue.toValue := by
    rw [captureEntries_eq_ok h, Std.ExtTreeMap.getElem?_map, Std.ExtTreeMap.getElem?_filterMap']
  constructor
  · intro ha name v hv
    obtain ⟨w, hw, hwv⟩ := exists_of_entriesAgree ha (Std.ExtTreeMap.mem_toList_iff_getElem?_eq_some.2 hv)
    rw [Std.ExtTreeMap.mem_toList_iff_getElem?_eq_some, hlook, hv, Option.bind_some, Option.map_eq_some_iff] at hw
    obtain ⟨x, hx, rfl⟩ := hw
    exact Value.survives_of_kept? hx hwv
  · intro hs
    have he : (captured.map fun _ x => x.toValue) = entries := by
      apply Std.ExtTreeMap.ext_getElem?
      intro name
      rw [hlook]
      cases hv : entries[name]? with
      | none => rfl
      | some v =>
        obtain ⟨x, hx, hxv⟩ := Value.kept?_of_survives (hs name v hv)
        rw [Option.bind_some, hx, Option.map_some, hxv]
    rw [he]
    apply entriesAgree_self
    rintro ⟨name, v⟩ hm
    exact (hs name v (Std.ExtTreeMap.mem_toList_iff_getElem?_eq_some.1 hm)).2.1

/-! ## Snapshots and exchanges -/

/-- The snapshot without its sealed headers and properties. -/
def Snapshot.withoutSealed (s : Snapshot) : Snapshot :=
  { s with
    headers := DurableAggregates.withoutSealed s.headers
    properties := DurableAggregates.withoutSealed s.properties }

theorem Snapshot.capture_restore (s : Snapshot) (allow : Bool) :
    s.restore.capture allow = .ok (if allow then s else s.withoutSealed) := by
  unfold Exchange.capture restore
  simp only [captureEntries_restore, SnapshotValue.captureBody_toValue]
  cases allow <;> rfl

theorem KeptBy.withoutSealed {entries : Entries Value} {captured : Entries SnapshotValue}
    (h : KeptBy false entries captured) : withoutSealed captured = captured := by
  apply Std.ExtTreeMap.ext_getElem?
  intro name
  rw [DurableAggregates.withoutSealed, Std.ExtTreeMap.getElem?_filter']
  cases hx : captured[name]? with
  | none => rfl
  | some x =>
    have hm : name ∈ captured := Std.ExtTreeMap.mem_iff_isSome_getElem?.2 (by rw [hx]; rfl)
    obtain ⟨v, hv, hk | hk⟩ := (h.occurs name).1 hm
    · have hs := h.stored name v x hv hx
      cases hs with
      | primitive _ same => cases x with
        | «sealed» x => cases same; cases hk
        | _ => rfl
      | «sealed» | live => cases hk
    · cases hk

/-- What was captured is captured again, under the same flag. -/
theorem Exchange.capture_restore_capture {e : Exchange} {allow : Bool} {s : Snapshot} (h : e.capture allow = .ok s) :
    s.restore.capture allow = .ok s := by
  have hk := ((captured_by_policy e allow).2 _ (captured_by_policy e allow).1).keeps s h
  rw [s.capture_restore]
  cases allow with
  | true => rfl
  | false =>
    rw [if_neg Bool.false_ne_true, Snapshot.withoutSealed, hk.headers.withoutSealed, hk.properties.withoutSealed]

/-- Some header or property of the exchange is of this kind. -/
def Exchange.Names (e : Exchange) (kind : Value → Bool) : Prop :=
  ∃ (name : String) (v : Value), (e.headers[name]? = some v ∨ e.properties[name]? = some v) ∧ kind v = true

/-- Some header, some property or the body of the exchange is of this kind. -/
def Exchange.Holds (e : Exchange) (kind : Value → Bool) : Prop := e.Names kind ∨ kind e.body = true

/-- An exchange comes back as it was exactly if all its headers and properties do, and its body is sound. -/
theorem Exchange.agrees_restore_iff {e : Exchange} {allow : Bool} {s : Snapshot} (h : e.capture allow = .ok s) :
    s.restore.agrees e = true ↔
      (∀ (name : String) (v : Value), e.headers[name]? = some v ∨ e.properties[name]? = some v → v.Survives allow) ∧
        e.body.isLive = false ∧ e.body.isNaN = false := by
  obtain ⟨hid, hh, hp, hb, hx⟩ := capture_eq_ok h
  simp only [agrees, Bool.and_eq_true, beq_iff_eq, Snapshot.restore, hid, hx, true_and, and_true,
    entriesAgree_restore_iff hh, entriesAgree_restore_iff hp, Value.agrees_of_seal (Value.captureBody_eq_ok hb)]
  constructor
  · rintro ⟨⟨hh, hp⟩, hb⟩
    exact ⟨fun name v hv => hv.elim (hh name v) (hp name v), hb⟩
  · rintro ⟨he, hb⟩
    exact ⟨⟨fun name v hv => he name v (.inl hv), fun name v hv => he name v (.inr hv)⟩, hb⟩

theorem Exchange.names_survive_iff {e : Exchange} {allow : Bool} :
    (∀ (name : String) (v : Value), e.headers[name]? = some v ∨ e.properties[name]? = some v → v.Survives allow) ↔
      ¬ e.Names Value.isLive ∧ ¬ e.Names Value.isNaN ∧ (allow = true ∨ ¬ e.Names Value.isSealed) := by
  constructor
  · intro h
    refine ⟨?_, ?_, ?_⟩
    · rintro ⟨name, v, hv, hk⟩
      exact Bool.false_ne_true ((h name v hv).1.symm.trans hk)
    · rintro ⟨name, v, hv, hk⟩
      exact Bool.false_ne_true ((h name v hv).2.1.symm.trans hk)
    · cases allow with
      | true => exact .inl rfl
      | false =>
        refine .inr ?_
        rintro ⟨name, v, hv, hk⟩
        have hs := (h name v hv).2.2.resolve_left Bool.false_ne_true
        exact Bool.false_ne_true (hs.symm.trans hk)
  · rintro ⟨hl, hn, hs⟩ name v hv
    exact ⟨Bool.eq_false_iff.2 fun hk => hl ⟨name, v, hv, hk⟩, Bool.eq_false_iff.2 fun hk => hn ⟨name, v, hv, hk⟩,
      hs.imp_right fun hs => Bool.eq_false_iff.2 fun hk => hs ⟨name, v, hv, hk⟩⟩

/-- **Capture and restore are inverse up to what is lost.** A restored snapshot is captured as it was, less its sealed
headers and properties where these are not allowed; so what has been captured once is captured again unchanged. A
captured exchange is restored to an equal one exactly if it holds no live object and no NaN, and names nothing sealed
unless that is allowed. -/
theorem capture_restore_inverse :
    (∀ s : Snapshot, s.restore.capture true = .ok s ∧ s.restore.capture false = .ok s.withoutSealed) ∧
      ∀ (e : Exchange) (allow : Bool) (s : Snapshot), e.capture allow = .ok s →
        s.restore.capture allow = .ok s ∧
          (s.restore.agrees e = true ↔
            ¬ e.Holds Value.isLive ∧ ¬ e.Holds Value.isNaN ∧ (allow = true ∨ ¬ e.Names Value.isSealed)) := by
  refine ⟨fun s => ⟨s.capture_restore true, s.capture_restore false⟩, fun e allow s h => ?_⟩
  refine ⟨Exchange.capture_restore_capture h, ?_⟩
  rw [Exchange.agrees_restore_iff h, Exchange.names_survive_iff]
  simp only [Exchange.Holds, not_or, Bool.not_eq_true]
  constructor
  · rintro ⟨⟨hl, hn, hs⟩, hbl, hbn⟩
    exact ⟨⟨hl, hbl⟩, ⟨hn, hbn⟩, hs⟩
  · rintro ⟨⟨hl, hbl⟩, ⟨hn, hbn⟩, hs⟩
    exact ⟨⟨hl, hn, hs⟩, hbl, hbn⟩

/-- A live object that can be serialized comes back sealed: captured, captured again unchanged, and not equal. -/
theorem capture_restore_inverse_live :
    let e : Exchange := ({ id := "m" } : Exchange).setBody (.live ⟨1, "Order", .ok [7]⟩)
    let s : Snapshot := { id := "m", body := .sealed ⟨"Order", [7]⟩ }
    e.capture true = .ok s ∧ s.restore.capture true = .ok s ∧ s.restore.agrees e = false := by
  intro e s
  have h : e.capture true = .ok s := rfl
  obtain ⟨hs, ha⟩ := capture_restore_inverse.2 e true s h
  refine ⟨h, hs, Bool.eq_false_iff.2 fun hr => (ha.1 hr).1 (.inr rfl)⟩

end DurableAggregates
