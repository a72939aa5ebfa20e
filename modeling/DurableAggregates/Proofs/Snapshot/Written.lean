import DurableAggregates.Proofs.Order
import DurableAggregates.Proofs.Snapshot.RoundTrip

/-!
# Snapshots as they are written

A `Written` is a snapshot as a byte string spells it: maps are lists of entries, in any order and with names that may
repeat, and a timestamp is some text. `Written.encode` is its binary form, and `Written.snapshot?` the snapshot that it
spells, if its timestamps can be read. These forms are all that the decoder accepts (`decodeWithRest_eq_ok`), and it
accepts all of them that fit (`decodeWithRest_written`); each of its other checks, of tags, lengths and UTF-8, refuses
what no form has. A byte string begins with at most one form (`Written.encode_append_inj`), so it says how it is
spelled.
-/

namespace DurableAggregates

open Calendar (Instant)

/-! ## Forms -/

def SnapshotValue.isTimestamp : SnapshotValue → Bool
  | .timestamp _ => true
  | _ => false

theorem SnapshotValue.regular_of_isTimestamp {v : SnapshotValue} (h : v.isTimestamp = false) : v.Regular := by
  cases v with
  | timestamp t => cases h
  | _ => trivial

/-- A value as it is written. -/
inductive WrittenValue where
  | plain (v : SnapshotValue) (h : v.isTimestamp = false)
  /-- A timestamp with its text. -/
  | timestamp (text : String)

namespace WrittenValue

def encode : WrittenValue → List UInt8
  | .plain v _ => Snapshot.encodeValue v
  | .timestamp text => Snapshot.littleEndian 4 6 ++ Snapshot.encodeText text

def Fits : WrittenValue → Prop
  | .plain v _ => v.Fits
  | .timestamp text => textFits text

/-- The value that is spelled, if it can be read. -/
def value? : WrittenValue → Option SnapshotValue
  | .plain v _ => some v
  | .timestamp text => (Instant.read text.toList).toOption.map .timestamp

/-- The form in which the encoder writes a value. -/
def ofValue : SnapshotValue → WrittenValue
  | .null => .plain .null rfl
  | .bool b => .plain (.bool b) rfl
  | .int n => .plain (.int n) rfl
  | .float x => .plain (.float x) rfl
  | .text s => .plain (.text s) rfl
  | .bytes b => .plain (.bytes b) rfl
  | .timestamp t => .timestamp (.ofList t.text)
  | .sealed v => .plain (.sealed v) rfl

/-- A timestamp has the text that the encoder writes for its instant. -/
def Usual : WrittenValue → Prop
  | .plain _ _ => True
  | .timestamp text => ∀ t, Instant.read text.toList = .ok t → text = .ofList t.text

@[simp] theorem encode_ofValue (v : SnapshotValue) : (ofValue v).encode = Snapshot.encodeValue v := by
  cases v <;> rfl

@[simp] theorem value?_ofValue (v : SnapshotValue) : (ofValue v).value? = some v.asWritten := by
  cases v with
  | timestamp t =>
    rw [ofValue, value?, String.toList_ofList, Instant.read_text]
    rfl
  | _ => rfl

theorem fits_ofValue {v : SnapshotValue} (h : v.Fits) : (ofValue v).Fits := by
  cases v with
  | timestamp t => exact Snapshot.textFits_instant t
  | _ => exact h

theorem usual_ofValue (v : SnapshotValue) : (ofValue v).Usual := by
  cases v with
  | timestamp t =>
    intro u hu
    rw [String.toList_ofList, Instant.read_text] at hu
    cases hu
    rw [Instant.text_asWritten]
  | _ => trivial

/-- A timestamp spells the instant that its text is read as. -/
theorem value?_timestamp_eq_some {text : String} {v : SnapshotValue} :
    (timestamp text).value? = some v ↔ ∃ t, Instant.read text.toList = .ok t ∧ v = .timestamp t := by
  rw [value?]
  cases Instant.read text.toList with
  | error e => simp [Except.toOption]
  | ok t => simp [Except.toOption, eq_comm]

/-- A form that is spelled as usual is the encoder's. -/
theorem eq_ofValue {f : WrittenValue} {v : SnapshotValue} (h : f.value? = some v) (hu : f.Usual) : f = ofValue v := by
  cases f with
  | plain w hw =>
    obtain rfl : w = v := Option.some.inj h
    cases w with
    | timestamp t => cases hw
    | _ => rfl
  | timestamp text =>
    obtain ⟨t, hr, rfl⟩ := value?_timestamp_eq_some.1 h
    rw [hu t hr, ofValue]

/-- Only regular timestamps are spelled. -/
theorem regular_of_value? {f : WrittenValue} {v : SnapshotValue} (h : f.value? = some v) : v.Regular := by
  cases f with
  | plain w hw =>
    obtain rfl : w = v := Option.some.inj h
    exact SnapshotValue.regular_of_isTimestamp hw
  | timestamp text =>
    obtain ⟨t, hr, rfl⟩ := value?_timestamp_eq_some.1 h
    exact Instant.regular_of_read hr

theorem fits_of_value? {f : WrittenValue} {v : SnapshotValue} (h : f.value? = some v) (hf : f.Fits) : v.Fits := by
  cases f with
  | plain w hw =>
    obtain rfl : w = v := Option.some.inj h
    exact hf
  | timestamp text =>
    obtain ⟨t, -, rfl⟩ := value?_timestamp_eq_some.1 h
    trivial

end WrittenValue

/-- An entry of a map as it is written. -/
abbrev WrittenEntry := String × WrittenValue

namespace WrittenEntry

def encode (x : WrittenEntry) : List UInt8 := Snapshot.encodeText x.1 ++ x.2.encode

def Fits (x : WrittenEntry) : Prop := textFits x.1 ∧ x.2.Fits

/-- Puts the value that is spelled into a map. -/
def putInto (entries : Entries SnapshotValue) (x : WrittenEntry) : Option (Entries SnapshotValue) :=
  x.2.value?.map fun v => entries.insert x.1 v

/-- The first entry is put into the map before the others. -/
theorem foldlM_cons_eq_some {x : WrittenEntry} {l : List WrittenEntry} {m m' : Entries SnapshotValue} :
    (x :: l).foldlM putInto m = some m' ↔
      ∃ v, x.2.value? = some v ∧ l.foldlM putInto (m.insert x.1 v) = some m' := by
  rw [List.foldlM_cons, Option.bind_eq_bind, Option.bind_eq_some_iff]
  constructor
  · rintro ⟨n, hn, h⟩
    obtain ⟨v, hv, rfl⟩ := Option.map_eq_some_iff.1 hn
    exact ⟨v, hv, h⟩
  · rintro ⟨v, hv, h⟩
    exact ⟨m.insert x.1 v, by rw [putInto, hv, Option.map_some], h⟩

end WrittenEntry

structure Written where
  id : String
  headers : List WrittenEntry
  properties : List WrittenEntry
  body : WrittenValue
  exception : Option String

namespace Written

def encodeEntries (l : List WrittenEntry) : List UInt8 :=
  Snapshot.littleEndian 8 l.length ++ l.flatMap WrittenEntry.encode

def encode (f : Written) : List UInt8 :=
  Snapshot.encodeText f.id ++ encodeEntries f.headers ++ encodeEntries f.properties ++ f.body.encode ++
    Snapshot.encodeOption f.exception

def entriesFit (l : List WrittenEntry) : Prop := l.length < lengthBound ∧ ∀ x ∈ l, x.Fits

structure Fits (f : Written) : Prop where
  id : textFits f.id
  headers : entriesFit f.headers
  properties : entriesFit f.properties
  body : f.body.Fits
  exception : ∀ text, f.exception = some text → textFits text

/-- The map that a list of entries spells. -/
def entries? (l : List WrittenEntry) : Option (Entries SnapshotValue) := l.foldlM WrittenEntry.putInto ∅

/-- The snapshot that is spelled, if all timestamps can be read. -/
def snapshot? (f : Written) : Option Snapshot := do
  let headers ← entries? f.headers
  let properties ← entries? f.properties
  let body ← f.body.value?
  return { id := f.id, headers, properties, body, exception := f.exception }

theorem snapshot?_eq_some {f : Written} {s : Snapshot} (h : f.snapshot? = some s) :
    s.id = f.id ∧ entries? f.headers = some s.headers ∧ entries? f.properties = some s.properties ∧
      f.body.value? = some s.body ∧ s.exception = f.exception := by
  simp only [snapshot?, Option.bind_eq_bind, Option.bind_eq_some_iff, Option.pure_def, Option.some.injEq] at h
  obtain ⟨headers, hh, properties, hp, body, hb, rfl⟩ := h
  exact ⟨rfl, hh, hp, hb, rfl⟩

end Written

/-! ## The decoder accepts nothing else -/

namespace Snapshot

section Inversion

variable {σ ε α β : Type}

theorem bind_eq_ok {x : StateT σ (Except ε) α} {f : α → StateT σ (Except ε) β} {s u : σ} {b : β}
    (h : (x >>= f) s = .ok (b, u)) : ∃ a t, x s = .ok (a, t) ∧ f a t = .ok (b, u) := by
  replace h : (x s >>= fun p => f p.1 p.2) = .ok (b, u) := h
  cases hx : x s with
  | error e =>
    rw [hx] at h
    cases h
  | ok p =>
    rw [hx] at h
    exact ⟨p.1, p.2, rfl, h⟩

theorem map_eq_ok {x : StateT σ (Except ε) α} {f : α → β} {s u : σ} {b : β}
    (h : (do return f (← x) : StateT σ (Except ε) β) s = .ok (b, u)) : ∃ a, x s = .ok (a, u) ∧ b = f a := by
  obtain ⟨a, t, hx, hb⟩ := bind_eq_ok h
  cases hb
  exact ⟨a, hx, rfl⟩

end Inversion

variable {b r : List UInt8}

theorem take_eq_ok {n : Nat} {fault : CodecFault} {bytes : List UInt8} (h : take n fault b = .ok (bytes, r)) :
    bytes.length = n ∧ b = bytes ++ r := by
  unfold take at h
  split at h
  · cases h
  · next hn =>
    cases h
    refine ⟨?_, (List.take_append_drop n b).symm⟩
    rw [List.length_take]
    omega

theorem littleEndian_ofLittleEndian (bytes : List UInt8) :
    littleEndian bytes.length (ofLittleEndian bytes) = bytes := by
  induction bytes with
  | nil => rfl
  | cons a bytes ih =>
    have ha := a.toNat_lt
    have hlow : UInt8.ofNat (a.toNat + 256 * ofLittleEndian bytes) = a := by
      rw [← UInt8.toNat_inj, UInt8.toNat_ofNat']
      omega
    have hrest : (a.toNat + 256 * ofLittleEndian bytes) / 256 = ofLittleEndian bytes := by omega
    rw [List.length_cons, ofLittleEndian, littleEndian, hlow, hrest, ih]

theorem ofLittleEndian_lt (bytes : List UInt8) : ofLittleEndian bytes < Nat.pow 256 bytes.length := by
  induction bytes with
  | nil => exact Nat.one_pos
  | cons a bytes ih =>
    have ha := a.toNat_lt
    show _ < Nat.pow 256 bytes.length * 256
    rw [ofLittleEndian]
    omega

theorem decodeNat_eq_ok {w n : Nat} (h : decodeNat w b = .ok (n, r)) :
    n < Nat.pow 256 w ∧ b = littleEndian w n ++ r := by
  obtain ⟨bytes, ht, rfl⟩ := map_eq_ok h
  obtain ⟨rfl, rfl⟩ := take_eq_ok ht
  exact ⟨ofLittleEndian_lt bytes, by rw [littleEndian_ofLittleEndian]⟩

theorem decodeText_eq_ok {s : String} (h : decodeText b = .ok (s, r)) : textFits s ∧ b = encodeText s ++ r := by
  obtain ⟨n, b', hn, hnext⟩ := bind_eq_ok h
  obtain ⟨bytes, b'', ht, hlast⟩ := bind_eq_ok hnext
  obtain ⟨hlt, rfl⟩ := decodeNat_eq_ok hn
  obtain ⟨rfl, rfl⟩ := take_eq_ok ht
  cases hs : Text.Utf8.decode bytes with
  | error fault =>
    rw [hs] at hlast
    cases hlast
  | ok t =>
    rw [hs] at hlast
    cases hlast
    have he : Text.Utf8.encode s = bytes := Text.Utf8.encode_of_decode hs
    constructor
    · rw [textFits, ← Text.Utf8.length_encode, he]
      exact hlt
    · rw [encodeText, he, List.append_assoc]

theorem decodeBytes_eq_ok {x : List UInt8} (h : decodeBytes b = .ok (x, r)) : bytesFit x ∧ b = encodeBytes x ++ r := by
  obtain ⟨n, b', hn, hnext⟩ := bind_eq_ok h
  obtain ⟨hlt, rfl⟩ := decodeNat_eq_ok hn
  obtain ⟨rfl, rfl⟩ := take_eq_ok hnext
  exact ⟨hlt, by rw [encodeBytes, List.append_assoc]⟩

theorem decodeBool_eq_ok {x : Bool} (h : decodeBool b = .ok (x, r)) : b = encodeBool x ++ r := by
  obtain ⟨n, b', hn, hnext⟩ := bind_eq_ok h
  obtain ⟨-, rfl⟩ := decodeNat_eq_ok hn
  split at hnext
  · cases hnext
    rfl
  · cases hnext
    rfl
  · cases hnext

theorem decodeOption_eq_ok {x : Option String} (h : decodeOption b = .ok (x, r)) :
    (∀ s, x = some s → textFits s) ∧ b = encodeOption x ++ r := by
  obtain ⟨n, b', hn, hnext⟩ := bind_eq_ok h
  obtain ⟨-, rfl⟩ := decodeNat_eq_ok hn
  split at hnext
  · cases hnext
    exact ⟨fun s hs => (nomatch hs), rfl⟩
  · obtain ⟨s, ht, rfl⟩ := map_eq_ok hnext
    obtain ⟨hs, rfl⟩ := decodeText_eq_ok ht
    refine ⟨fun t ht => ?_, rfl⟩
    cases ht
    exact hs
  · cases hnext

theorem decodeInstant_eq_ok {t : Instant} (h : decodeInstant b = .ok (t, r)) :
    ∃ text, textFits text ∧ Instant.read text.toList = .ok t ∧ b = encodeText text ++ r := by
  obtain ⟨text, b', ht, hnext⟩ := bind_eq_ok h
  obtain ⟨hfits, rfl⟩ := decodeText_eq_ok ht
  cases hr : Instant.read text.toList with
  | error fault =>
    rw [hr] at hnext
    cases hnext
  | ok u =>
    rw [hr] at hnext
    cases hnext
    exact ⟨text, hfits, hr, rfl⟩

theorem decodeValue_eq_ok {v : SnapshotValue} (h : decodeValue b = .ok (v, r)) :
    ∃ f : WrittenValue, f.Fits ∧ f.value? = some v ∧ b = f.encode ++ r := by
  obtain ⟨tag, b', ht, hnext⟩ := bind_eq_ok h
  obtain ⟨-, rfl⟩ := decodeNat_eq_ok ht
  split at hnext
  · cases hnext
    exact ⟨.plain .null rfl, trivial, rfl, rfl⟩
  · obtain ⟨x, hx, rfl⟩ := map_eq_ok hnext
    rw [decodeBool_eq_ok hx]
    exact ⟨.plain (.bool x) rfl, trivial, rfl, rfl⟩
  · obtain ⟨n, hn, rfl⟩ := map_eq_ok hnext
    obtain ⟨hlt, rfl⟩ := decodeNat_eq_ok hn
    refine ⟨.plain (.int (UInt64.ofNat n).toInt64) rfl, trivial, rfl, ?_⟩
    have hback : (UInt64.ofNat n).toNat = n := UInt64.toNat_ofNat_of_lt' hlt
    simp only [WrittenValue.encode, encodeValue, UInt64.toUInt64_toInt64, hback, List.append_assoc]
  · obtain ⟨n, hn, rfl⟩ := map_eq_ok hnext
    obtain ⟨hlt, rfl⟩ := decodeNat_eq_ok hn
    refine ⟨.plain (.float ⟨.ofNat n⟩) rfl, trivial, rfl, ?_⟩
    have hback : (UInt64.ofNat n).toNat = n := UInt64.toNat_ofNat_of_lt' hlt
    simp only [WrittenValue.encode, encodeValue, hback, List.append_assoc]
  · obtain ⟨s, hs, rfl⟩ := map_eq_ok hnext
    obtain ⟨hfits, rfl⟩ := decodeText_eq_ok hs
    refine ⟨.plain (.text s) rfl, hfits, rfl, ?_⟩
    simp only [WrittenValue.encode, encodeValue, List.append_assoc]
  · obtain ⟨x, hx, rfl⟩ := map_eq_ok hnext
    obtain ⟨hfits, rfl⟩ := decodeBytes_eq_ok hx
    refine ⟨.plain (.bytes x) rfl, hfits, rfl, ?_⟩
    simp only [WrittenValue.encode, encodeValue, List.append_assoc]
  · obtain ⟨t, hx, rfl⟩ := map_eq_ok hnext
    obtain ⟨text, hfits, hread, rfl⟩ := decodeInstant_eq_ok hx
    refine ⟨.timestamp text, hfits, WrittenValue.value?_timestamp_eq_some.2 ⟨t, hread, rfl⟩, ?_⟩
    rw [WrittenValue.encode, List.append_assoc]
  · obtain ⟨name, b'', hn, hlast⟩ := bind_eq_ok hnext
    obtain ⟨x, hx, rfl⟩ := map_eq_ok hlast
    obtain ⟨hname, rfl⟩ := decodeText_eq_ok hn
    obtain ⟨hbytes, rfl⟩ := decodeBytes_eq_ok hx
    refine ⟨.plain (.sealed ⟨name, x⟩) rfl, ⟨hname, hbytes⟩, rfl, ?_⟩
    simp only [WrittenValue.encode, encodeValue, List.append_assoc]
  · cases hnext

theorem decodeEntriesInto_eq_ok {n : Nat} {m m' : Entries SnapshotValue}
    (h : decodeEntriesInto n m b = .ok (m', r)) :
    ∃ l : List WrittenEntry, l.length = n ∧ (∀ x ∈ l, x.Fits) ∧ l.foldlM WrittenEntry.putInto m = some m' ∧
      b = l.flatMap WrittenEntry.encode ++ r := by
  induction n generalizing m b with
  | zero =>
    cases h
    exact ⟨[], rfl, fun x hx => (nomatch hx), rfl, rfl⟩
  | succ n ih =>
    obtain ⟨name, b', hn, hnext⟩ := bind_eq_ok h
    obtain ⟨v, b'', hv, hlast⟩ := bind_eq_ok hnext
    obtain ⟨hname, rfl⟩ := decodeText_eq_ok hn
    obtain ⟨f, hf, hvalue, rfl⟩ := decodeValue_eq_ok hv
    obtain ⟨l, rfl, hl, hfold, rfl⟩ := ih hlast
    refine ⟨(name, f) :: l, rfl, ?_, ?_, ?_⟩
    · intro x hx
      rcases List.mem_cons.1 hx with rfl | hx
      · exact ⟨hname, hf⟩
      · exact hl x hx
    · exact WrittenEntry.foldlM_cons_eq_some.2 ⟨v, hvalue, hfold⟩
    · simp only [List.flatMap_cons, WrittenEntry.encode, List.append_assoc]

theorem decodeEntries_eq_ok {m : Entries SnapshotValue} (h : decodeEntries b = .ok (m, r)) :
    ∃ l, Written.entriesFit l ∧ Written.entries? l = some m ∧ b = Written.encodeEntries l ++ r := by
  obtain ⟨n, b', hn, hnext⟩ := bind_eq_ok h
  obtain ⟨hlt, rfl⟩ := decodeNat_eq_ok hn
  obtain ⟨l, rfl, hl, hfold, rfl⟩ := decodeEntriesInto_eq_ok hnext
  exact ⟨l, ⟨hlt, hl⟩, hfold, by rw [Written.encodeEntries, List.append_assoc]⟩

/-- What the decoder accepts is a form that fits. -/
theorem decodeWithRest_eq_ok {s : Snapshot} (h : decodeWithRest b = .ok (s, r)) :
    ∃ f : Written, f.Fits ∧ f.snapshot? = some s ∧ b = f.encode ++ r := by
  replace h : decodeSnapshot b = .ok (s, r) := h
  obtain ⟨id, b₁, hid, h₁⟩ := bind_eq_ok h
  obtain ⟨headers, b₂, hh, h₂⟩ := bind_eq_ok h₁
  obtain ⟨properties, b₃, hp, h₃⟩ := bind_eq_ok h₂
  obtain ⟨body, b₄, hb, h₄⟩ := bind_eq_ok h₃
  obtain ⟨exception, hx, rfl⟩ := map_eq_ok h₄
  obtain ⟨hidFits, rfl⟩ := decodeText_eq_ok hid
  obtain ⟨lh, hhFits, hhRead, rfl⟩ := decodeEntries_eq_ok hh
  obtain ⟨lp, hpFits, hpRead, rfl⟩ := decodeEntries_eq_ok hp
  obtain ⟨f, hbFits, hbRead, rfl⟩ := decodeValue_eq_ok hb
  obtain ⟨hxFits, rfl⟩ := decodeOption_eq_ok hx
  refine ⟨⟨id, lh, lp, f, exception⟩, ⟨hidFits, hhFits, hpFits, hbFits, hxFits⟩, ?_, ?_⟩
  · simp only [Written.snapshot?, hhRead, hpRead, hbRead]
    rfl
  · simp only [Written.encode, List.append_assoc]

/-! ## The decoder accepts every form that can be read -/

theorem decodeValue_written {f : WrittenValue} {v : SnapshotValue} (hf : f.Fits) (hv : f.value? = some v)
    (t : List UInt8) : decodeValue (f.encode ++ t) = .ok (v, t) := by
  cases f with
  | plain w hw =>
    have hd := decodeValue_encodeValue hf t
    rw [SnapshotValue.asWritten_eq_self_iff.2 (SnapshotValue.regular_of_isTimestamp hw)] at hd
    obtain rfl : w = v := Option.some.inj hv
    exact hd
  | timestamp text =>
    obtain ⟨i, hr, rfl⟩ := WrittenValue.value?_timestamp_eq_some.1 hv
    rw [WrittenValue.encode, decodeValue, List.append_assoc, bind_of_eq_ok (decodeNat_littleEndian (by decide) _)]
    exact bind_of_eq_ok (decodeInstant_of_read hf hr t)

theorem decodeEntriesInto_written {l : List WrittenEntry} (hl : ∀ x ∈ l, x.Fits) {m m' : Entries SnapshotValue}
    (h : l.foldlM WrittenEntry.putInto m = some m') (t : List UInt8) :
    decodeEntriesInto l.length m (l.flatMap WrittenEntry.encode ++ t) = .ok (m', t) := by
  induction l generalizing m with
  | nil =>
    obtain rfl : m = m' := Option.some.inj h
    rfl
  | cons x l ih =>
    obtain ⟨hname, hvalue⟩ := hl x List.mem_cons_self
    obtain ⟨v, hv, h⟩ := WrittenEntry.foldlM_cons_eq_some.1 h
    rw [List.length_cons, List.flatMap_cons, decodeEntriesInto, WrittenEntry.encode]
    simp only [List.append_assoc]
    rw [bind_of_eq_ok (decodeText_encodeText hname _), bind_of_eq_ok (decodeValue_written hvalue hv _)]
    exact ih (fun y hy => hl y (List.mem_cons_of_mem _ hy)) h

theorem decodeEntries_written {l : List WrittenEntry} (hl : Written.entriesFit l) {m : Entries SnapshotValue}
    (h : Written.entries? l = some m) (t : List UInt8) :
    decodeEntries (Written.encodeEntries l ++ t) = .ok (m, t) := by
  rw [Written.encodeEntries, decodeEntries, List.append_assoc, bind_of_eq_ok (decodeNat_littleEndian hl.1 _)]
  exact decodeEntriesInto_written hl.2 h t

/-- Decoding takes just the form from the front. -/
theorem decodeWithRest_written {f : Written} {s : Snapshot} (hf : f.Fits) (h : f.snapshot? = some s)
    (t : List UInt8) : decodeWithRest (f.encode ++ t) = .ok (s, t) := by
  obtain ⟨hid, hh, hp, hb, hx⟩ := Written.snapshot?_eq_some h
  obtain ⟨id, headers, properties, body, exception⟩ := s
  obtain rfl : id = f.id := hid
  obtain rfl : exception = f.exception := hx
  show decodeSnapshot _ = _
  unfold decodeSnapshot Written.encode
  simp only [List.append_assoc]
  rw [bind_of_eq_ok (decodeText_encodeText hf.id _), bind_of_eq_ok (decodeEntries_written hf.headers hh _),
    bind_of_eq_ok (decodeEntries_written hf.properties hp _), bind_of_eq_ok (decodeValue_written hf.body hb _)]
  exact bind_of_eq_ok (decodeOption_encodeOption hf.exception t)

end Snapshot

/-! ## What a list of entries spells -/

namespace Written

variable {l : List WrittenEntry} {m m' : Entries SnapshotValue}

/-- The last of the entries with a name counts. -/
theorem getElem?_of_foldlM (h : l.foldlM WrittenEntry.putInto m = some m') (name : String) :
    m'[name]? = (l.reverse.lookup name).elim m[name]? WrittenValue.value? := by
  induction l generalizing m with
  | nil =>
    obtain rfl : m = m' := Option.some.inj h
    rfl
  | cons x l ih =>
    obtain ⟨v, hv, h⟩ := WrittenEntry.foldlM_cons_eq_some.1 h
    rw [ih h, List.reverse_cons, List.lookup_append]
    cases l.reverse.lookup name with
    | some f => rfl
    | none =>
      obtain ⟨key, f⟩ := x
      rw [List.lookup_cons, Option.none_or, Option.elim_none, Std.ExtTreeMap.getElem?_insert]
      by_cases hk : key = name
      · subst hk
        simp [hv]
      · have hb : (name == key) = false := by simpa using Ne.symm hk
        simp [hb, hk]

theorem getElem?_of_entries? (h : entries? l = some m) (name : String) :
    m[name]? = (l.reverse.lookup name).bind WrittenValue.value? := by
  rw [getElem?_of_foldlM h]
  cases l.reverse.lookup name with
  | none => simp
  | some f => rfl

theorem size_of_foldlM (h : l.foldlM WrittenEntry.putInto m = some m') : m'.size ≤ m.size + l.length := by
  induction l generalizing m with
  | nil =>
    obtain rfl : m = m' := Option.some.inj h
    exact Nat.le_refl _
  | cons x l ih =>
    obtain ⟨v, hv, h⟩ := WrittenEntry.foldlM_cons_eq_some.1 h
    have hinsert : (m.insert x.1 v).size ≤ m.size + 1 := Std.ExtTreeMap.size_insert_le
    have hrest := ih h
    rw [List.length_cons]
    omega

theorem mem_of_lookup_reverse {name : String} {f : WrittenValue} (h : l.reverse.lookup name = some f) :
    (name, f) ∈ l := by
  obtain ⟨l₁, l₂, hl, -⟩ := List.lookup_eq_some_iff.1 h
  rw [← List.mem_reverse, hl]
  exact List.mem_append_right _ List.mem_cons_self

/-- What is spelled by entries that fit fits. -/
theorem fits_of_entries? (h : entries? l = some m) (hl : entriesFit l) :
    DurableAggregates.entriesFit SnapshotValue.Fits m := by
  constructor
  · have hsize := size_of_foldlM h
    have hlength := hl.1
    simp only [Std.ExtTreeMap.size_empty] at hsize
    omega
  · intro name v hv
    rw [getElem?_of_entries? h, Option.bind_eq_some_iff] at hv
    obtain ⟨f, hf, hv⟩ := hv
    obtain ⟨hname, hfits⟩ := hl.2 (name, f) (mem_of_lookup_reverse hf)
    exact ⟨hname, WrittenValue.fits_of_value? hv hfits⟩

theorem fits_of_snapshot? {f : Written} {s : Snapshot} (h : f.snapshot? = some s) (hf : f.Fits) : s.Fits := by
  obtain ⟨hid, hh, hp, hb, hx⟩ := snapshot?_eq_some h
  constructor
  · rw [hid]
    exact hf.id
  · exact fits_of_entries? hh hf.headers
  · exact fits_of_entries? hp hf.properties
  · exact WrittenValue.fits_of_value? hb hf.body
  · rw [hx]
    exact hf.exception

/-- What is spelled by entries is regular. -/
theorem regular_of_entries? (h : entries? l = some m) : entriesRegular SnapshotValue.Regular m := by
  intro name v hv
  rw [getElem?_of_entries? h, Option.bind_eq_some_iff] at hv
  obtain ⟨f, -, hv⟩ := hv
  exact WrittenValue.regular_of_value? hv

theorem regular_of_snapshot? {f : Written} {s : Snapshot} (h : f.snapshot? = some s) : s.Regular := by
  obtain ⟨-, hh, hp, hb, -⟩ := snapshot?_eq_some h
  exact ⟨regular_of_entries? hh, regular_of_entries? hp, WrittenValue.regular_of_value? hb⟩

end Written

/-! ## The form of the encoder -/

namespace Written

/-- The entries of a map as the encoder writes them. -/
def ofEntries (entries : Entries SnapshotValue) : List WrittenEntry :=
  entries.toList.map fun x => (x.1, .ofValue x.2)

/-- The form in which the encoder writes a snapshot. -/
def ofSnapshot (s : Snapshot) : Written where
  id := s.id
  headers := ofEntries s.headers
  properties := ofEntries s.properties
  body := .ofValue s.body
  exception := s.exception

theorem encodeEntries_ofEntries (entries : Entries SnapshotValue) :
    encodeEntries (ofEntries entries) = Snapshot.encodeEntries entries := by
  rw [encodeEntries, ofEntries, Snapshot.encodeEntries, List.length_map, List.flatMap_map]
  congr 2
  funext x
  rw [WrittenEntry.encode, WrittenValue.encode_ofValue, Snapshot.encodeEntry]

theorem encode_ofSnapshot (s : Snapshot) : (ofSnapshot s).encode = s.encode := by
  rw [encode, Snapshot.encode, ofSnapshot, encodeEntries_ofEntries, encodeEntries_ofEntries,
    WrittenValue.encode_ofValue]

theorem entriesFit_ofEntries {entries : Entries SnapshotValue}
    (h : DurableAggregates.entriesFit SnapshotValue.Fits entries) : entriesFit (ofEntries entries) := by
  constructor
  · rw [ofEntries, List.length_map, Std.ExtTreeMap.length_toList]
    exact h.1
  · intro x hx
    obtain ⟨y, hy, rfl⟩ := List.mem_map.1 hx
    obtain ⟨hname, hvalue⟩ := h.2 y.1 y.2 (Std.ExtTreeMap.mem_toList_iff_getElem?_eq_some.1 hy)
    exact ⟨hname, WrittenValue.fits_ofValue hvalue⟩

theorem fits_ofSnapshot {s : Snapshot} (h : s.Fits) : (ofSnapshot s).Fits :=
  ⟨h.id, entriesFit_ofEntries h.headers, entriesFit_ofEntries h.properties, WrittenValue.fits_ofValue h.body,
    h.exception⟩

theorem foldlM_ofValue (l : List (String × SnapshotValue)) (m : Entries SnapshotValue) :
    (l.map fun x => (x.1, WrittenValue.ofValue x.2)).foldlM WrittenEntry.putInto m =
      some ((l.map fun x => (x.1, x.2.asWritten)).foldl (fun m x => m.insert x.1 x.2) m) := by
  induction l generalizing m with
  | nil => rfl
  | cons x l ih =>
    rw [List.map_cons, WrittenEntry.foldlM_cons_eq_some]
    exact ⟨x.2.asWritten, WrittenValue.value?_ofValue x.2, ih _⟩

/-- The entries of a map in order make the map. -/
theorem ofList_toList {α : Type} (entries : Entries α) : .ofList entries.toList compare = entries := by
  refine Std.ExtTreeMap.ext_getElem? fun name => ?_
  cases h : entries[name]? with
  | none =>
    refine Std.ExtTreeMap.getElem?_ofList_of_contains_eq_false ?_
    rw [Std.ExtTreeMap.map_fst_toList_eq_keys, ← Bool.not_eq_true, List.contains_iff_mem, Std.ExtTreeMap.mem_keys,
      Std.ExtTreeMap.mem_iff_isSome_getElem?, h]
    exact Bool.false_ne_true
  | some v =>
    exact Std.ExtTreeMap.getElem?_ofList_of_mem Std.ReflOrd.compare_self Std.ExtTreeMap.distinct_keys_toList
      (Std.ExtTreeMap.mem_toList_iff_getElem?_eq_some.2 h)

theorem entries?_ofEntries (entries : Entries SnapshotValue) :
    entries? (ofEntries entries) = some (entries.map fun _ v => v.asWritten) := by
  have hl : (entries.map fun _ v => v.asWritten).toList = entries.toList.map fun x => (x.1, x.2.asWritten) :=
    Std.ExtTreeMap.toList_map
  rw [entries?, ofEntries, foldlM_ofValue, ← hl, ← Std.ExtTreeMap.ofList_eq_foldl, ofList_toList]

/-- The encoder spells a snapshot as it is written. -/
theorem snapshot?_ofSnapshot (s : Snapshot) : (ofSnapshot s).snapshot? = some s.asWritten := by
  simp only [snapshot?, ofSnapshot, entries?_ofEntries, WrittenValue.value?_ofValue]
  rfl

end Written

namespace Snapshot

/-- Decoding takes just the binary form of a snapshot from the front. -/
theorem decodeWithRest_encode {s : Snapshot} (h : s.Fits) (t : List UInt8) :
    decodeWithRest (s.encode ++ t) = .ok (s.asWritten, t) := by
  rw [← Written.encode_ofSnapshot]
  exact decodeWithRest_written (Written.fits_ofSnapshot h) (Written.snapshot?_ofSnapshot s) t

theorem decode_encode {s : Snapshot} (h : s.Fits) : decode s.encode = .ok s.asWritten := by
  have hd := decodeWithRest_encode h []
  rw [List.append_nil] at hd
  rw [decode, hd]

end Snapshot

end DurableAggregates
