import DurableAggregates.Proofs.Calendar.Reading
import DurableAggregates.Proofs.Snapshot.Timestamps
import DurableAggregates.Snapshot.Capture
import DurableAggregates.Snapshot.Decoding

/-!
# Decoding undoes encoding, part by part

A snapshot *fits* if the lengths of its texts, byte strings and maps can be written in eight bytes. Capturing keeps
exchanges fitting (`Exchange.fits_of_capture`) and regular (`Exchange.regular_of_capture`). Decoding the binary form of
a number, a text or a value that fits, followed by anything, gives it back as it is written, together with what
follows.
-/

namespace DurableAggregates

open Calendar (Instant)

/-! ## Lengths -/

/-- The lengths that eight bytes can hold are below this one. -/
def lengthBound : Nat := 0x1_0000_0000_0000_0000

def textFits (s : String) : Prop := s.utf8ByteSize < lengthBound

instance (s : String) : Decidable (textFits s) := inferInstanceAs (Decidable (_ < _))

def bytesFit (b : List UInt8) : Prop := b.length < lengthBound

def SealedValue.Fits (v : SealedValue) : Prop := textFits v.typeName ∧ bytesFit v.bytes

def SnapshotValue.Fits : SnapshotValue → Prop
  | .text s => textFits s
  | .bytes b => bytesFit b
  | .sealed v => v.Fits
  | _ => True

def Value.Fits : Value → Prop
  | .text s => textFits s
  | .bytes b => bytesFit b
  | .sealed v => v.Fits
  | .live o => textFits o.typeName ∧ ∀ form, o.serialized = .ok form → bytesFit form
  | _ => True

/-- A map fits if it has few enough entries and its names and values fit. -/
def entriesFit {α : Type} (fits : α → Prop) (entries : Entries α) : Prop :=
  entries.size < lengthBound ∧ ∀ (name : String) (v : α), entries[name]? = some v → textFits name ∧ fits v

structure Snapshot.Fits (s : Snapshot) : Prop where
  id : textFits s.id
  headers : entriesFit SnapshotValue.Fits s.headers
  properties : entriesFit SnapshotValue.Fits s.properties
  body : s.body.Fits
  exception : ∀ text, s.exception = some text → textFits text

structure Exchange.Fits (e : Exchange) : Prop where
  id : textFits e.id
  headers : entriesFit Value.Fits e.headers
  properties : entriesFit Value.Fits e.properties
  body : e.body.Fits
  exception : ∀ text, e.exception = some text → textFits text

theorem entriesFit_empty {α : Type} (fits : α → Prop) : entriesFit fits ∅ :=
  ⟨by simp [lengthBound], fun name v h => by simp at h⟩

/-- An exchange that has no parts but its id fits if the id does. -/
theorem Exchange.fits_of_id {id : String} (h : textFits id) : ({ id } : Exchange).Fits :=
  ⟨h, entriesFit_empty _, entriesFit_empty _, trivial, fun text ht => by cases ht⟩

/-! ### What capturing keeps -/

theorem Value.fits_of_seal {v : Value} {x : SnapshotValue} (h : v.seal = .ok x) (hv : v.Fits) : x.Fits := by
  cases v with
  | live o =>
    obtain ⟨ht, hb⟩ := hv
    simp only [Value.seal] at h
    split at h
    · next form hf => cases h; exact ⟨ht, hb form hf⟩
    · cases h
  | text s => cases h; exact hv
  | bytes b => cases h; exact hv
  | sealed v => cases h; exact hv
  | null => cases h; trivial
  | bool b => cases h; trivial
  | int n => cases h; trivial
  | float x => cases h; trivial
  | timestamp t => cases h; trivial

theorem Value.seal_of_kept? {v : Value} {allow : Bool} {x : SnapshotValue} (h : v.kept? allow = some x) :
    v.seal = .ok x := by
  unfold kept? at h
  split at h
  · cases hs : v.seal with
    | ok y => rw [hs] at h; cases h; rfl
    | error e => rw [hs] at h; cases h
  · cases h

theorem Value.regular_of_seal {v : Value} {x : SnapshotValue} (h : v.seal = .ok x) (hv : v.Regular) : x.Regular := by
  cases v with
  | live o =>
    simp only [Value.seal] at h
    split at h
    · cases h; trivial
    · cases h
  | timestamp t => cases h; exact hv
  | _ => cases h; trivial

section Entries

variable {part : Section} {allow : Bool} {entries : Entries Value} {captured : Entries SnapshotValue}

theorem captureEntries_eq_ok (h : captureEntries part allow entries = .ok captured) :
    captured = entries.filterMap fun _ v => v.kept? allow := by
  unfold captureEntries at h
  split at h
  · cases h
  · cases h
    rfl

/-- What is captured under a name is the storable form of what was there. -/
theorem seal_of_captureEntries (h : captureEntries part allow entries = .ok captured) {name : String}
    {x : SnapshotValue} (hx : captured[name]? = some x) : ∃ v, entries[name]? = some v ∧ v.seal = .ok x := by
  rw [captureEntries_eq_ok h, Std.ExtTreeMap.getElem?_filterMap', Option.bind_eq_some_iff] at hx
  obtain ⟨v, hv, hk⟩ := hx
  exact ⟨v, hv, Value.seal_of_kept? hk⟩

theorem fits_of_captureEntries (h : captureEntries part allow entries = .ok captured)
    (he : entriesFit Value.Fits entries) : entriesFit SnapshotValue.Fits captured := by
  have hsize : captured.size ≤ entries.size := captureEntries_eq_ok h ▸ Std.ExtTreeMap.size_filterMap_le_size
  refine ⟨Nat.lt_of_le_of_lt hsize he.1, fun name x hx => ?_⟩
  obtain ⟨v, hv, hs⟩ := seal_of_captureEntries h hx
  obtain ⟨hn, hf⟩ := he.2 name v hv
  exact ⟨hn, Value.fits_of_seal hs hf⟩

theorem regular_of_captureEntries (h : captureEntries part allow entries = .ok captured)
    (he : entriesRegular Value.Regular entries) : entriesRegular SnapshotValue.Regular captured := by
  intro name x hx
  obtain ⟨v, hv, hs⟩ := seal_of_captureEntries h hx
  exact Value.regular_of_seal hs (he name v hv)

end Entries

theorem Value.captureBody_eq_ok {v : Value} {x : SnapshotValue} (h : v.captureBody = .ok x) : v.seal = .ok x := by
  unfold captureBody at h
  split at h
  · next hs => cases h; exact hs
  · cases h

/-- A snapshot is captured part by part; id and exception are taken as they are. -/
theorem Exchange.capture_eq_ok {e : Exchange} {allow : Bool} {s : Snapshot} (h : e.capture allow = .ok s) :
    s.id = e.id ∧ captureEntries .header allow e.headers = .ok s.headers ∧
      captureEntries .property allow e.properties = .ok s.properties ∧ e.body.captureBody = .ok s.body ∧
      s.exception = e.exception := by
  unfold capture at h
  cases hh : captureEntries .header allow e.headers with
  | error fault => rw [hh] at h; cases h
  | ok headers =>
    cases hp : captureEntries .property allow e.properties with
    | error fault => rw [hh, hp] at h; cases h
    | ok properties =>
      cases hb : e.body.captureBody with
      | error fault => rw [hh, hp, hb] at h; cases h
      | ok body =>
        rw [hh, hp, hb] at h
        cases h
        exact ⟨rfl, rfl, rfl, rfl, rfl⟩

theorem Exchange.fits_of_capture {e : Exchange} {allow : Bool} {s : Snapshot} (h : e.capture allow = .ok s)
    (he : e.Fits) : s.Fits := by
  obtain ⟨hid, hh, hp, hb, hx⟩ := capture_eq_ok h
  refine ⟨?_, fits_of_captureEntries hh he.headers, fits_of_captureEntries hp he.properties,
    Value.fits_of_seal (Value.captureBody_eq_ok hb) he.body, ?_⟩
  · rw [hid]
    exact he.id
  · rw [hx]
    exact he.exception

theorem Exchange.regular_of_capture {e : Exchange} {allow : Bool} {s : Snapshot} (h : e.capture allow = .ok s)
    (he : e.Regular) : s.Regular := by
  obtain ⟨-, hh, hp, hb, -⟩ := capture_eq_ok h
  exact ⟨regular_of_captureEntries hh he.headers, regular_of_captureEntries hp he.properties,
    Value.regular_of_seal (Value.captureBody_eq_ok hb) he.body⟩

/-! ## Parts of the binary form -/

namespace Snapshot

theorem take_append {n : Nat} {fault : CodecFault} {bytes : List UInt8} (h : bytes.length = n) (t : List UInt8) :
    take n fault (bytes ++ t) = .ok (bytes, t) := by
  unfold take
  rw [if_neg (by simp [h]), List.take_left' h, List.drop_left' h]

@[simp] theorem length_littleEndian (w n : Nat) : (littleEndian w n).length = w := by
  induction w generalizing n with
  | zero => rfl
  | succ w ih => rw [littleEndian, List.length_cons, ih]

theorem ofLittleEndian_littleEndian {w n : Nat} (h : n < Nat.pow 256 w) : ofLittleEndian (littleEndian w n) = n := by
  induction w generalizing n with
  | zero =>
    have h : n < 1 := h
    simp only [littleEndian, ofLittleEndian]
    omega
  | succ w ih =>
    have h : n < Nat.pow 256 w * 256 := h
    have hd : n / 256 < Nat.pow 256 w := by omega
    rw [littleEndian, ofLittleEndian, ih hd, UInt8.toNat_ofNat']
    omega

theorem decodeNat_littleEndian {w n : Nat} (h : n < Nat.pow 256 w) (t : List UInt8) :
    decodeNat w (littleEndian w n ++ t) = .ok (n, t) := by
  show (take w .endOfInput >>= fun bytes => pure (ofLittleEndian bytes)) _ = _
  rw [bind_of_eq_ok (take_append (length_littleEndian w n) t), ofLittleEndian_littleEndian h]
  rfl

theorem decodeText_encodeText {s : String} (h : textFits s) (t : List UInt8) :
    decodeText (encodeText s ++ t) = .ok (s, t) := by
  have hl : (Text.Utf8.encode s).length < lengthBound := by rw [Text.Utf8.length_encode]; exact h
  unfold decodeText encodeText
  rw [List.append_assoc, bind_of_eq_ok (decodeNat_littleEndian hl _), bind_of_eq_ok (take_append rfl t),
    Text.Utf8.decode_encode]
  rfl

theorem decodeBytes_encodeBytes {b : List UInt8} (h : bytesFit b) (t : List UInt8) :
    decodeBytes (encodeBytes b ++ t) = .ok (b, t) := by
  unfold decodeBytes encodeBytes
  rw [List.append_assoc, bind_of_eq_ok (decodeNat_littleEndian h _), take_append rfl t]

theorem decodeBool_encodeBool (b : Bool) (t : List UInt8) : decodeBool (encodeBool b ++ t) = .ok (b, t) := by
  cases b <;> rfl

theorem decodeOption_encodeOption {o : Option String} (h : ∀ s, o = some s → textFits s) (t : List UInt8) :
    decodeOption (encodeOption o ++ t) = .ok (o, t) := by
  cases o with
  | none => rfl
  | some s =>
    have he : encodeOption (some s) ++ t = littleEndian 1 1 ++ (encodeText s ++ t) := by
      simp [encodeOption, littleEndian]
    rw [he, decodeOption, bind_of_eq_ok (decodeNat_littleEndian (by decide) _)]
    exact bind_of_eq_ok (decodeText_encodeText (h s rfl) t)

theorem utf8ByteSize_ofList_le (l : List Char) : (String.ofList l).utf8ByteSize ≤ 4 * l.length := by
  induction l with
  | nil => exact Nat.le_refl 0
  | cons c l ih =>
    have hc : c.utf8Size ≤ 4 := c.utf8Size_le_four
    rw [String.ofList_cons, String.utf8ByteSize_append, String.utf8ByteSize_singleton, List.length_cons]
    omega

theorem length_yearText_le (year : Int) : (Calendar.yearText year).length ≤ 7 := by
  have hd (n : Nat) : (Calendar.yearDigits n).length ≤ 6 := by
    unfold Calendar.yearDigits
    split
    · simp
    split <;> simp
  unfold Calendar.yearText
  split
  · exact Nat.succ_le_succ (hd _)
  split
  · exact Nat.le_succ_of_le (hd _)
  · exact Nat.succ_le_succ (hd _)

theorem length_fractionText_le (nanos : Nat) : (Calendar.fractionText nanos).length ≤ 10 := by
  unfold Calendar.fractionText
  split
  · exact Nat.zero_le _
  split
  · simp
  split <;> simp

theorem textFits_instant (i : Instant) : textFits (.ofList i.text) := by
  have hy := length_yearText_le i.date.year
  have hf := length_fractionText_le (i.nanos % 1_000_000_000)
  have hl : i.text.length ≤ 40 := by
    simp only [Instant.text, Calendar.Date.text, List.length_append, List.length_cons,
      Text.Decimal.length_fixed, List.length_nil]
    omega
  have := utf8ByteSize_ofList_le i.text
  unfold textFits lengthBound
  omega

/-- A timestamp may be spelled in any way that can be read. -/
theorem decodeInstant_of_read {text : String} {i : Instant} (h : textFits text) (hr : Instant.read text.toList = .ok i)
    (t : List UInt8) : decodeInstant (encodeText text ++ t) = .ok (i, t) := by
  unfold decodeInstant
  rw [bind_of_eq_ok (decodeText_encodeText h t), hr]
  rfl

theorem decodeValue_encodeValue {v : SnapshotValue} (h : v.Fits) (t : List UInt8) :
    decodeValue (encodeValue v ++ t) = .ok (v.asWritten, t) := by
  cases v with
  | null => rfl
  | bool b =>
    rw [encodeValue, decodeValue, List.append_assoc, bind_of_eq_ok (decodeNat_littleEndian (by decide) _)]
    exact bind_of_eq_ok (decodeBool_encodeBool b t)
  | int n =>
    rw [encodeValue, decodeValue, List.append_assoc, bind_of_eq_ok (decodeNat_littleEndian (by decide) _)]
    simp only
    rw [bind_of_eq_ok (decodeNat_littleEndian n.toUInt64.toNat_lt t), UInt64.ofNat_toNat, Int64.toInt64_toUInt64]
    rfl
  | float x =>
    rw [encodeValue, decodeValue, List.append_assoc, bind_of_eq_ok (decodeNat_littleEndian (by decide) _)]
    simp only
    rw [bind_of_eq_ok (decodeNat_littleEndian x.bits.toNat_lt t), UInt64.ofNat_toNat]
    rfl
  | text s =>
    rw [encodeValue, decodeValue, List.append_assoc, bind_of_eq_ok (decodeNat_littleEndian (by decide) _)]
    exact bind_of_eq_ok (decodeText_encodeText h t)
  | bytes b =>
    rw [encodeValue, decodeValue, List.append_assoc, bind_of_eq_ok (decodeNat_littleEndian (by decide) _)]
    exact bind_of_eq_ok (decodeBytes_encodeBytes h t)
  | timestamp i =>
    rw [encodeValue, decodeValue, List.append_assoc, bind_of_eq_ok (decodeNat_littleEndian (by decide) _)]
    exact bind_of_eq_ok (decodeInstant_of_read (textFits_instant i) (by rw [String.toList_ofList, Instant.read_text]) t)
  | sealed v =>
    rw [encodeValue, decodeValue, List.append_assoc, List.append_assoc,
      bind_of_eq_ok (decodeNat_littleEndian (by decide) _)]
    simp only
    rw [bind_of_eq_ok (decodeText_encodeText h.1 _)]
    exact bind_of_eq_ok (decodeBytes_encodeBytes h.2 t)

end Snapshot

end DurableAggregates
