import DurableAggregates.Calendar.Written
import DurableAggregates.Snapshot.Basic

/-!
# Timestamps as they are written

The text of a timestamp names another instant if the timestamp lies in a leap second within a minute. So what the
binary form of a snapshot says of it is `Snapshot.asWritten`, the snapshot with its timestamps as they are written.
That is the snapshot itself if all its timestamps are regular, and only then (`Snapshot.asWritten_eq_self_iff`).
-/

namespace DurableAggregates

def entriesRegular {α : Type} (regular : α → Prop) (entries : Entries α) : Prop :=
  ∀ (name : String) (v : α), entries[name]? = some v → regular v

theorem entriesRegular_empty {α : Type} (regular : α → Prop) : entriesRegular regular ∅ := fun name v h => by
  simp at h

/-! ## Exchanges -/

def Value.Regular : Value → Prop
  | .timestamp t => t.Regular
  | _ => True

/-- No timestamp of an exchange lies in a leap second within a minute. -/
structure Exchange.Regular (e : Exchange) : Prop where
  headers : entriesRegular Value.Regular e.headers
  properties : entriesRegular Value.Regular e.properties
  body : e.body.Regular

/-! ## Snapshots -/

namespace SnapshotValue

def Regular : SnapshotValue → Prop
  | .timestamp t => t.Regular
  | _ => True

/-- The value that the binary form says. -/
def asWritten : SnapshotValue → SnapshotValue
  | .timestamp t => .timestamp t.asWritten
  | v => v

theorem asWritten_eq_self_iff {v : SnapshotValue} : v.asWritten = v ↔ v.Regular := by
  cases v with
  | timestamp t =>
    rw [asWritten, timestamp.injEq]
    exact Calendar.Instant.asWritten_eq_self_iff
  | _ => exact iff_of_true rfl trivial

end SnapshotValue

/-- Entries are as they are written if all of them are regular. -/
theorem map_asWritten_eq_self_iff {entries : Entries SnapshotValue} :
    (entries.map fun _ v => v.asWritten) = entries ↔ entriesRegular SnapshotValue.Regular entries := by
  constructor
  · intro h name v hv
    have hname : (entries.map fun _ v => v.asWritten)[name]? = some v := by rw [h, hv]
    rw [Std.ExtTreeMap.getElem?_map, hv, Option.map_some, Option.some.injEq] at hname
    exact SnapshotValue.asWritten_eq_self_iff.1 hname
  · intro h
    apply Std.ExtTreeMap.ext_getElem?
    intro name
    rw [Std.ExtTreeMap.getElem?_map]
    cases hv : entries[name]? with
    | none => rfl
    | some v => rw [Option.map_some, SnapshotValue.asWritten_eq_self_iff.2 (h name v hv)]

namespace Snapshot

/-- No timestamp lies in a leap second within a minute. -/
structure Regular (s : Snapshot) : Prop where
  headers : entriesRegular SnapshotValue.Regular s.headers
  properties : entriesRegular SnapshotValue.Regular s.properties
  body : s.body.Regular

/-- The snapshot that the binary form says. -/
def asWritten (s : Snapshot) : Snapshot :=
  { s with
    headers := s.headers.map fun _ v => v.asWritten
    properties := s.properties.map fun _ v => v.asWritten
    body := s.body.asWritten }

@[simp] theorem id_asWritten (s : Snapshot) : s.asWritten.id = s.id := rfl

theorem asWritten_eq_self_iff {s : Snapshot} : s.asWritten = s ↔ s.Regular := by
  constructor
  · intro h
    exact ⟨map_asWritten_eq_self_iff.1 (congrArg headers h), map_asWritten_eq_self_iff.1 (congrArg properties h),
      SnapshotValue.asWritten_eq_self_iff.1 (congrArg body h)⟩
  · intro h
    rw [asWritten, map_asWritten_eq_self_iff.2 h.headers, map_asWritten_eq_self_iff.2 h.properties,
      SnapshotValue.asWritten_eq_self_iff.2 h.body]

end Snapshot

end DurableAggregates
