import DurableAggregates.Proofs.Snapshot.RoundTrip

/-!
# What the policy keeps

A live object without a serialized form is *unsealable*; it is the only value that a capture can fail on. The main
theorem, `Exchange.captured_by_policy`, says when a capture fails, which error it reports and what a snapshot holds.

Headers come in the order of their names, properties in any: `Exchange.Captures` is a capture that takes the
properties in some order, and `Exchange.capture` is one of them. Which property an error names depends on the order;
whether there is an error, and the snapshot, do not.
-/

namespace DurableAggregates

/-! ## Values -/

/-- The value is a live object of this type, and has no serialized form for this reason. -/
def Value.Unsealable (v : Value) (typeName reason : String) : Prop :=
  ∃ o, v = .live o ∧ o.typeName = typeName ∧ o.serialized = .error reason

/-- What a snapshot has for a value: a primitive or sealed one as it is, a live object by its type and its bytes. -/
inductive Value.StoredAs : Value → SnapshotValue → Prop
  | primitive {v : Value} {x : SnapshotValue} (kind : v.isPrimitive = true) (same : x.toValue = v) : v.StoredAs x
  | sealed (v : SealedValue) : StoredAs (.sealed v) (.sealed v)
  | live {o : LiveObject} {form : List UInt8} (serialized : o.serialized = .ok form) :
      StoredAs (.live o) (.sealed ⟨o.typeName, form⟩)

theorem Value.seal_eq_error {v : Value} {typeName reason : String} :
    v.seal = .error (typeName, reason) ↔ v.Unsealable typeName reason := by
  constructor
  · intro h
    cases v with
    | live o =>
      simp only [Value.seal] at h
      split at h
      · cases h
      · next hs => cases h; exact ⟨o, rfl, rfl, hs⟩
    | _ => cases h
  · rintro ⟨o, rfl, rfl, hs⟩
    simp only [Value.seal, hs]

theorem Value.storedAs_of_seal {v : Value} {x : SnapshotValue} (h : v.seal = .ok x) : v.StoredAs x := by
  cases v with
  | live o =>
    simp only [Value.seal] at h
    split at h
    · next hs => cases h; exact .live hs
    · cases h
  | sealed v => cases h; exact .sealed v
  | _ => cases h; exact .primitive rfl rfl

theorem Value.captureBody_eq_error {v : Value} {fault : SnapshotError} (h : v.captureBody = .error fault) :
    ∃ typeName reason, v.Unsealable typeName reason ∧ fault = .notSerializable .body "body" typeName reason := by
  unfold captureBody at h
  split at h
  · cases h
  · next typeName reason hs => cases h; exact ⟨typeName, reason, seal_eq_error.1 hs, rfl⟩

theorem Value.Unsealable.isPrimitive {v : Value} {typeName reason : String} (h : v.Unsealable typeName reason) :
    v.isPrimitive = false := by
  obtain ⟨o, rfl, -⟩ := h
  rfl

/-- Only a value that is kept and unsealable is an error. -/
theorem Value.captureError?_eq_some {v : Value} {part : Section} {allow : Bool} {name : String}
    {fault : SnapshotError} : v.captureError? part allow name = some fault ↔
      allow = true ∧ ∃ typeName reason, v.Unsealable typeName reason ∧
        fault = .notSerializable part name typeName reason := by
  unfold captureError? isKept
  constructor
  · intro h
    split at h
    · next hk =>
      split at h
      · cases h
      · next typeName reason hs =>
        cases h
        have hu := seal_eq_error.1 hs
        rw [hu.isPrimitive, Bool.false_or] at hk
        exact ⟨hk, typeName, reason, hu, rfl⟩
    · cases h
  · rintro ⟨rfl, typeName, reason, hu, rfl⟩
    rw [Bool.or_true, if_pos rfl, seal_eq_error.2 hu]

/-- Where nothing is wrong with it, a value is kept exactly if it is primitive or everything is. -/
theorem Value.exists_kept? {v : Value} {part : Section} {allow : Bool} {name : String}
    (h : v.captureError? part allow name = none) :
    (∃ x, v.kept? allow = some x) ↔ v.isPrimitive = true ∨ allow = true := by
  unfold captureError? isKept at h
  unfold kept? isKept
  rw [← Bool.or_eq_true]
  split at h
  · next hk =>
    rw [if_pos hk]
    split at h
    · next x hs => exact ⟨fun _ => hk, fun _ => ⟨x, by rw [hs]; rfl⟩⟩
    · cases h
  · next hk =>
    rw [if_neg hk]
    exact ⟨fun ⟨_, hx⟩ => (by cases hx), fun h => absurd h hk⟩

/-! ## Headers and properties -/

/-- The entry of this name is unsealable. -/
def Unstorable (entries : Entries Value) (name typeName reason : String) : Prop :=
  ∃ v, entries[name]? = some v ∧ v.Unsealable typeName reason

/-- The captured entries are those that the policy keeps, each in its stored form. -/
structure KeptBy (allow : Bool) (entries : Entries Value) (captured : Entries SnapshotValue) : Prop where
  occurs : ∀ name, name ∈ captured ↔ ∃ v, entries[name]? = some v ∧ (v.isPrimitive = true ∨ allow = true)
  stored : ∀ (name : String) (v : Value) (x : SnapshotValue), entries[name]? = some v →
    captured[name]? = some x → v.StoredAs x

/-- The capture of entries that come in the order of `row`. -/
def captureAlong (part : Section) (allow : Bool) (entries : Entries Value) (row : List (String × Value)) :
    Except SnapshotError (Entries SnapshotValue) :=
  match row.findSome? fun (name, v) => v.captureError? part allow name with
  | some e => .error e
  | none => .ok (entries.filterMap fun _ v => v.kept? allow)

theorem captureEntries_eq_captureAlong (part : Section) (allow : Bool) (entries : Entries Value) :
    captureEntries part allow entries = captureAlong part allow entries entries.toList :=
  rfl

section Row

variable {part : Section} {allow : Bool} {entries : Entries Value} {row : List (String × Value)}

/-- What is in the row is in the map. -/
theorem mem_row_iff (hr : row.Perm entries.toList) {name : String} {v : Value} :
    (name, v) ∈ row ↔ entries[name]? = some v := by
  rw [hr.mem_iff, Std.ExtTreeMap.mem_toList_iff_getElem?_eq_some]

theorem captureAlong_eq_error {fault : SnapshotError} (h : captureAlong part allow entries row = .error fault) :
    ∃ (before : List (String × Value)) (name : String) (v : Value) (after : List (String × Value)),
      row = before ++ (name, v) :: after ∧ v.captureError? part allow name = some fault ∧
        ∀ x ∈ before, x.2.captureError? part allow x.1 = none := by
  unfold captureAlong at h
  split at h
  · next hs =>
    cases h
    obtain ⟨before, ⟨name, v⟩, after, hrow, hv, hb⟩ := List.findSome?_eq_some_iff.1 hs
    exact ⟨before, name, v, after, hrow, hv, hb⟩
  · cases h

/-- An error of a row is an entry that must be kept and is unsealable. -/
theorem unstorable_of_captureAlong (hr : row.Perm entries.toList) {fault : SnapshotError}
    (h : captureAlong part allow entries row = .error fault) :
    allow = true ∧ ∃ name typeName reason, Unstorable entries name typeName reason ∧
      fault = .notSerializable part name typeName reason := by
  obtain ⟨before, name, v, after, rfl, hv, -⟩ := captureAlong_eq_error h
  obtain ⟨ha, typeName, reason, hu, rfl⟩ := Value.captureError?_eq_some.1 hv
  exact ⟨ha, name, typeName, reason, ⟨v, (mem_row_iff hr).1 (by simp), hu⟩, rfl⟩

theorem captureAlong_eq_ok {captured : Entries SnapshotValue} (hr : row.Perm entries.toList)
    (h : captureAlong part allow entries row = .ok captured) :
    captured = entries.filterMap (fun _ v => v.kept? allow) ∧
      ∀ (name : String) (v : Value), entries[name]? = some v → v.captureError? part allow name = none := by
  unfold captureAlong at h
  split at h
  · cases h
  · next hn =>
    cases h
    exact ⟨rfl, fun name v hv => List.findSome?_eq_none_iff.1 hn (name, v) ((mem_row_iff hr).2 hv)⟩

theorem captureAlong_of_none (hr : row.Perm entries.toList)
    (h : ∀ (name : String) (v : Value), entries[name]? = some v → v.captureError? part allow name = none) :
    captureAlong part allow entries row = .ok (entries.filterMap fun _ v => v.kept? allow) := by
  cases hc : captureAlong part allow entries row with
  | error fault =>
    obtain ⟨before, name, v, after, hrow, hv, -⟩ := captureAlong_eq_error hc
    have hmem : (name, v) ∈ row := by simp [hrow]
    rw [h name v ((mem_row_iff hr).1 hmem)] at hv
    cases hv
  | ok captured => rw [(captureAlong_eq_ok hr hc).1]

/-- A row without error has nothing unsealable that must be kept. -/
theorem not_unstorable_of_captureAlong {captured : Entries SnapshotValue} (hr : row.Perm entries.toList)
    (h : captureAlong part allow entries row = .ok captured) (ha : allow = true) (name typeName reason : String) :
    ¬ Unstorable entries name typeName reason := by
  rintro ⟨v, hv, hu⟩
  have hn := (captureAlong_eq_ok hr h).2 name v hv
  rw [Value.captureError?_eq_some.2 ⟨ha, typeName, reason, hu, rfl⟩] at hn
  cases hn

theorem keptBy_of_captureAlong {captured : Entries SnapshotValue} (hr : row.Perm entries.toList)
    (h : captureAlong part allow entries row = .ok captured) : KeptBy allow entries captured := by
  obtain ⟨rfl, hn⟩ := captureAlong_eq_ok hr h
  constructor
  · intro name
    rw [Std.ExtTreeMap.mem_iff_isSome_getElem?, Std.ExtTreeMap.getElem?_filterMap', Option.isSome_iff_exists]
    simp only [Option.bind_eq_some_iff]
    constructor
    · rintro ⟨x, v, hv, hx⟩
      exact ⟨v, hv, (Value.exists_kept? (hn name v hv)).1 ⟨x, hx⟩⟩
    · rintro ⟨v, hv, hk⟩
      obtain ⟨x, hx⟩ := (Value.exists_kept? (hn name v hv)).2 hk
      exact ⟨x, v, hv, hx⟩
  · intro name v x hv hx
    rw [Std.ExtTreeMap.getElem?_filterMap', hv, Option.bind_some] at hx
    exact Value.storedAs_of_seal (Value.seal_of_kept? hx)

/-- In the order of names, the error is the first. -/
theorem first_of_captureEntries {name typeName reason : String}
    (h : captureEntries part allow entries = .error (.notSerializable part name typeName reason))
    {earlier typeName' reason' : String} (hc : compare earlier name = .lt) :
    ¬ Unstorable entries earlier typeName' reason' := by
  rintro ⟨w, hw, hu'⟩
  obtain ⟨before, name', v, after, hrow, hv, hb⟩ := captureAlong_eq_error h
  obtain ⟨ha, _, _, _, hf⟩ := Value.captureError?_eq_some.1 hv
  obtain rfl : name = name' := by injection hf
  have hself : compare name name = .eq := Std.ReflCmp.compare_self
  have hs : (before ++ (name, v) :: after).Pairwise fun x y => compare x.1 y.1 = .lt := by
    rw [← hrow, ← List.pairwise_map (f := Prod.fst) (R := fun x y => compare x y = .lt),
      Std.ExtTreeMap.map_fst_toList_eq_keys]
    exact Std.ExtTreeMap.ordered_keys
  have hmem : (earlier, w) ∈ before ++ (name, v) :: after := by
    rw [← hrow, Std.ExtTreeMap.mem_toList_iff_getElem?_eq_some]
    exact hw
  rcases List.mem_append.1 hmem with hm | hm
  · have hn := hb _ hm
    rw [Value.captureError?_eq_some.2 ⟨ha, typeName', reason', hu', rfl⟩] at hn
    cases hn
  · rcases List.mem_cons.1 hm with he | hm
    · injection he with he
      rw [he, hself] at hc
      cases hc
    · have hgt := (List.pairwise_cons.1 (List.pairwise_append.1 hs).2.1).1 _ hm
      rw [Std.TransCmp.lt_trans hgt hc] at hself
      cases hself

end Row

/-! ## Exchanges -/

namespace Exchange

/-- The error that a capture may report: the first header that fails, else a property that fails, else the body. -/
inductive Reports (e : Exchange) (allow : Bool) : SnapshotError → Prop
  | header {name typeName reason : String} (allowed : allow = true)
      (fails : Unstorable e.headers name typeName reason)
      (first : ∀ earlier typeName' reason', compare earlier name = .lt →
        ¬ Unstorable e.headers earlier typeName' reason') :
      e.Reports allow (.notSerializable .header name typeName reason)
  | property {name typeName reason : String} (allowed : allow = true)
      (headers : ∀ name' typeName' reason', ¬ Unstorable e.headers name' typeName' reason')
      (fails : Unstorable e.properties name typeName reason) :
      e.Reports allow (.notSerializable .property name typeName reason)
  | body {typeName reason : String}
      (entries : allow = true → ∀ name' typeName' reason',
        ¬ Unstorable e.headers name' typeName' reason' ∧ ¬ Unstorable e.properties name' typeName' reason')
      (fails : e.body.Unsealable typeName reason) :
      e.Reports allow (.notSerializable .body "body" typeName reason)

/-- What the snapshot of an exchange holds. -/
structure KeptIn (e : Exchange) (allow : Bool) (s : Snapshot) : Prop where
  id : s.id = e.id
  exception : s.exception = e.exception
  headers : KeptBy allow e.headers s.headers
  properties : KeptBy allow e.properties s.properties
  body : e.body.StoredAs s.body

/-- A capture of the exchange that takes its properties in some order has this result. -/
def Captures (e : Exchange) (allow : Bool) (result : Except SnapshotError Snapshot) : Prop :=
  ∃ row, row.Perm e.properties.toList ∧ result = do
    let headers ← captureEntries .header allow e.headers
    let properties ← captureAlong .property allow e.properties row
    let body ← e.body.captureBody
    return { id := e.id, headers, properties, body, exception := e.exception }

/-- What the policy says of the result of a capture. -/
structure Policy (e : Exchange) (allow : Bool) (result : Except SnapshotError Snapshot) : Prop where
  fails : (∃ fault, result = .error fault) ↔
    (∃ typeName reason, e.body.Unsealable typeName reason) ∨
      allow = true ∧ ∃ name typeName reason,
        Unstorable e.headers name typeName reason ∨ Unstorable e.properties name typeName reason
  reports : ∀ fault, result = .error fault → e.Reports allow fault
  keeps : ∀ s, result = .ok s → e.KeptIn allow s

theorem captures_capture (e : Exchange) (allow : Bool) : e.Captures allow (e.capture allow) :=
  ⟨e.properties.toList, .refl _, rfl⟩

/-- An error of the policy has the cause that it names. -/
theorem Reports.unstorable {e : Exchange} {allow : Bool} {fault : SnapshotError} (h : e.Reports allow fault) :
    (∃ typeName reason, e.body.Unsealable typeName reason) ∨
      allow = true ∧ ∃ name typeName reason,
        Unstorable e.headers name typeName reason ∨ Unstorable e.properties name typeName reason := by
  cases h with
  | header allowed fails => exact .inr ⟨allowed, _, _, _, .inl fails⟩
  | property allowed _ fails => exact .inr ⟨allowed, _, _, _, .inr fails⟩
  | body _ fails => exact .inl ⟨_, _, fails⟩

theorem policy_of_error {e : Exchange} {allow : Bool} {fault : SnapshotError} (h : e.Reports allow fault) :
    e.Policy allow (.error fault) where
  fails := ⟨fun _ => h.unstorable, fun _ => ⟨fault, rfl⟩⟩
  reports fault' hf := by cases hf; exact h
  keeps s hs := by cases hs

theorem policy_of_ok {e : Exchange} {allow : Bool} {row : List (String × Value)} {s : Snapshot}
    (hr : row.Perm e.properties.toList) (hid : s.id = e.id) (hx : s.exception = e.exception)
    (hh : captureEntries .header allow e.headers = .ok s.headers)
    (hp : captureAlong .property allow e.properties row = .ok s.properties) (hb : e.body.captureBody = .ok s.body) :
    e.Policy allow (.ok s) where
  fails := by
    constructor
    · rintro ⟨fault, hf⟩
      cases hf
    · rintro (⟨typeName, reason, hu⟩ | ⟨ha, name, typeName, reason, hu | hu⟩)
      · have hs := Value.seal_eq_error.2 hu
        rw [Value.captureBody_eq_ok hb] at hs
        cases hs
      · exact absurd hu (not_unstorable_of_captureAlong (.refl _) hh ha _ _ _)
      · exact absurd hu (not_unstorable_of_captureAlong hr hp ha _ _ _)
  reports fault hf := by cases hf
  keeps s' hs := by
    cases hs
    exact ⟨hid, hx, keptBy_of_captureAlong (.refl _) hh, keptBy_of_captureAlong hr hp,
      Value.storedAs_of_seal (Value.captureBody_eq_ok hb)⟩

/-- **What the policy keeps.** A capture fails exactly if the body is unsealable, or a header or property is and must
be kept; the error names the first such header, else such a property, else the body. A snapshot holds the id, the
exception, the entries that are primitive or allowed, each in its stored form, and always the body. -/
theorem captured_by_policy (e : Exchange) (allow : Bool) :
    e.Captures allow (e.capture allow) ∧ ∀ result, e.Captures allow result → e.Policy allow result := by
  refine ⟨captures_capture e allow, ?_⟩
  rintro _ ⟨row, hr, rfl⟩
  -- the three sections in the order in which they are captured; the first error is the result
  cases hh : captureEntries .header allow e.headers with
  | error fault =>
    obtain ⟨ha, name, typeName, reason, hu, rfl⟩ := unstorable_of_captureAlong (.refl _) hh
    exact policy_of_error (.header ha hu fun _ _ _ hc => first_of_captureEntries hh hc)
  | ok headers =>
    have hnh := not_unstorable_of_captureAlong (.refl _) hh
    cases hp : captureAlong .property allow e.properties row with
    | error fault =>
      obtain ⟨ha, name, typeName, reason, hu, rfl⟩ := unstorable_of_captureAlong hr hp
      exact policy_of_error (.property ha (hnh ha) hu)
    | ok properties =>
      have hnp := not_unstorable_of_captureAlong hr hp
      cases hb : e.body.captureBody with
      | error fault =>
        obtain ⟨typeName, reason, hu, rfl⟩ := Value.captureBody_eq_error hb
        exact policy_of_error (.body (fun ha n t r => ⟨hnh ha n t r, hnp ha n t r⟩) hu)
      | ok body => exact policy_of_ok hr rfl rfl hh hp hb

/-- Two headers and a property that cannot be stored, set in the other order than that of their names. -/
def handles : Exchange :=
  let handle (n : Nat) : Value := .live ⟨n, "Handle", .error "live handle"⟩
  ((({ id := "m" } : Exchange).setHeader "b" (handle 1)).setHeader "a" (handle 2)).setProperty "c" (handle 3)

/-- The first of them by name is reported. -/
theorem captured_by_policy_handles : handles.Policy true (handles.capture true) ∧
    handles.capture true = .error (.notSerializable .header "a" "Handle" "live handle") :=
  ⟨(captured_by_policy handles true).2 _ (captured_by_policy handles true).1, rfl⟩

end Exchange

end DurableAggregates
