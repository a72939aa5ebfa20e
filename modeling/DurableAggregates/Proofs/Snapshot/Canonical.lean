import DurableAggregates.Proofs.Snapshot.Written

/-!
# Canonical byte strings

The binary form is prefix-free: a snapshot is read from its binary form as it is written, whatever follows, and from no
part of it (`Snapshot.decode_prefix_of_encode`). The decoder accepts more than the encoder writes, and from every byte string that
it accepts it takes one prefix and looks at nothing else. This prefix spells a snapshot in one way, so it can be said
where it differs from what the encoder writes: names of a map can be out of order or repeated, and timestamps can have
other texts. If neither is the case, and only then, encoding gives the prefix back
(`Snapshot.encode_of_decode_iff`).
-/

namespace DurableAggregates

open Calendar (Instant)

/-! ## A byte string begins with at most one form -/

namespace Snapshot

variable {r t : List UInt8}

/-- What is decoded from one byte string is one value, and one rest is left. -/
theorem eq_of_decoded {α : Type} {d : Decoder α} {a b : α} {x y : List UInt8} (hx : d x = .ok (a, r))
    (hy : d y = .ok (b, t)) (h : x = y) : a = b ∧ r = t := by
  rw [h, hy] at hx
  cases hx
  exact ⟨rfl, rfl⟩

theorem encodeText_append_inj {a b : String} (ha : textFits a) (hb : textFits b)
    (h : encodeText a ++ r = encodeText b ++ t) : a = b ∧ r = t :=
  eq_of_decoded (decodeText_encodeText ha r) (decodeText_encodeText hb t) h

/-- Only a timestamp has its tag. -/
theorem head?_encodeValue {v : SnapshotValue} (h : v.isTimestamp = false) (r : List UInt8) :
    (encodeValue v ++ r).head? ≠ some 6 := by
  cases v with
  | timestamp t => cases h
  | _ =>
    intro h
    exact absurd (Option.some.inj h) (by decide)

end Snapshot

theorem WrittenValue.encode_append_inj {f g : WrittenValue} (hf : f.Fits) (hg : g.Fits) {r t : List UInt8}
    (h : f.encode ++ r = g.encode ++ t) : f = g ∧ r = t := by
  cases f with
  | plain v hv =>
    cases g with
    | plain w hw =>
      obtain ⟨rfl, hr⟩ :=
        Snapshot.eq_of_decoded (Snapshot.decodeValue_written hf rfl r) (Snapshot.decodeValue_written hg rfl t) h
      exact ⟨rfl, hr⟩
    | timestamp text =>
      have hhead := congrArg List.head? h
      exact absurd hhead (Snapshot.head?_encodeValue hv r)
  | timestamp text =>
    cases g with
    | plain w hw =>
      have hhead := congrArg List.head? h
      exact absurd hhead.symm (Snapshot.head?_encodeValue hw t)
    | timestamp other =>
      simp only [encode, List.append_assoc] at h
      obtain ⟨rfl, hr⟩ := Snapshot.encodeText_append_inj hf hg (List.append_cancel_left h)
      exact ⟨rfl, hr⟩

namespace Written

theorem flatMap_append_inj {l m : List WrittenEntry} (hlength : l.length = m.length) (hl : ∀ x ∈ l, x.Fits)
    (hm : ∀ x ∈ m, x.Fits) {r t : List UInt8}
    (h : l.flatMap WrittenEntry.encode ++ r = m.flatMap WrittenEntry.encode ++ t) : l = m ∧ r = t := by
  induction l generalizing m with
  | nil =>
    obtain rfl : m = [] := List.length_eq_zero_iff.1 hlength.symm
    exact ⟨rfl, h⟩
  | cons x l ih =>
    cases m with
    | nil => cases hlength
    | cons y m =>
      obtain ⟨name, f⟩ := x
      obtain ⟨other, g⟩ := y
      obtain ⟨hname, hf⟩ := hl (name, f) List.mem_cons_self
      obtain ⟨hother, hg⟩ := hm (other, g) List.mem_cons_self
      simp only [List.flatMap_cons, WrittenEntry.encode, List.append_assoc] at h
      obtain ⟨rfl, hvalue⟩ := Snapshot.encodeText_append_inj hname hother h
      obtain ⟨rfl, hrest⟩ := WrittenValue.encode_append_inj hf hg hvalue
      obtain ⟨rfl, hr⟩ := ih (Nat.succ.inj hlength) (fun x hx => hl x (List.mem_cons_of_mem _ hx))
        (fun x hx => hm x (List.mem_cons_of_mem _ hx)) hrest
      exact ⟨rfl, hr⟩

theorem encodeEntries_append_inj {l m : List WrittenEntry} (hl : entriesFit l) (hm : entriesFit m) {r t : List UInt8}
    (h : encodeEntries l ++ r = encodeEntries m ++ t) : l = m ∧ r = t := by
  simp only [encodeEntries, List.append_assoc] at h
  obtain ⟨hlength, hrest⟩ :=
    Snapshot.eq_of_decoded (Snapshot.decodeNat_littleEndian hl.1 _) (Snapshot.decodeNat_littleEndian hm.1 _) h
  exact flatMap_append_inj hlength hl.2 hm.2 hrest

theorem encode_append_inj {f g : Written} (hf : f.Fits) (hg : g.Fits) {r t : List UInt8}
    (h : f.encode ++ r = g.encode ++ t) : f = g ∧ r = t := by
  obtain ⟨id, headers, properties, body, exception⟩ := f
  obtain ⟨id', headers', properties', body', exception'⟩ := g
  simp only [encode, List.append_assoc] at h
  obtain ⟨rfl, h₁⟩ := Snapshot.encodeText_append_inj hf.id hg.id h
  obtain ⟨rfl, h₂⟩ := encodeEntries_append_inj hf.headers hg.headers h₁
  obtain ⟨rfl, h₃⟩ := encodeEntries_append_inj hf.properties hg.properties h₂
  obtain ⟨rfl, h₄⟩ := WrittenValue.encode_append_inj hf.body hg.body h₃
  obtain ⟨rfl, hr⟩ := Snapshot.eq_of_decoded (Snapshot.decodeOption_encodeOption hf.exception r)
    (Snapshot.decodeOption_encodeOption hg.exception t) h₄
  exact ⟨rfl, hr⟩

theorem encode_inj {f g : Written} (hf : f.Fits) (hg : g.Fits) (h : f.encode = g.encode) : f = g := by
  have hnil : f.encode ++ [] = g.encode ++ [] := by rw [h]
  exact (encode_append_inj hf hg hnil).1

/-! ## Canonical forms -/

/-- The names of the entries strictly increase in the order of their bytes. -/
def NamesIncrease (l : List WrittenEntry) : Prop :=
  l.Pairwise fun x y => Text.Utf8.encode x.1 < Text.Utf8.encode y.1

/-- All values of a form. -/
def values (f : Written) : List WrittenValue := f.headers.map (·.2) ++ f.properties.map (·.2) ++ [f.body]

/-- Names are in order, and timestamps have the texts that the encoder writes. -/
structure Canonical (f : Written) : Prop where
  headers : NamesIncrease f.headers
  properties : NamesIncrease f.properties
  timestamps : ∀ v ∈ f.values, v.Usual

variable {l : List WrittenEntry} {m m' : Entries SnapshotValue}

theorem mem_values {f : Written} {v : WrittenValue} :
    v ∈ f.values ↔ (∃ x ∈ f.headers, x.2 = v) ∨ (∃ x ∈ f.properties, x.2 = v) ∨ v = f.body := by
  simp only [values, List.mem_append, List.mem_map, List.mem_singleton, or_assoc]

theorem NamesIncrease.ordered (h : NamesIncrease l) : l.Pairwise fun x y => compare x.1 y.1 = .lt :=
  h.imp fun hxy => (Text.Utf8.compare_eq_lt_iff _ _).2 hxy

theorem namesIncrease_ofEntries (entries : Entries SnapshotValue) : NamesIncrease (ofEntries entries) := by
  rw [NamesIncrease, ofEntries, List.pairwise_map]
  exact Std.ExtTreeMap.ordered_keys_toList.imp fun hxy => (Text.Utf8.compare_eq_lt_iff _ _).1 hxy

/-- No two entries have one name. -/
theorem NamesIncrease.eq_of_mem (h : NamesIncrease l) {name : String} {f g : WrittenValue} (hf : (name, f) ∈ l)
    (hg : (name, g) ∈ l) : f = g := by
  have hnodup : (l.map Prod.fst).Nodup := by
    rw [List.Nodup, List.pairwise_map]
    refine h.imp fun hxy he => ?_
    rw [he] at hxy
    exact List.lt_irrefl _ hxy
  have heq := List.inj_on_of_nodup_map hnodup hf hg rfl
  cases heq
  rfl

theorem value?_of_mem (h : l.foldlM WrittenEntry.putInto m = some m') {x : WrittenEntry} (hx : x ∈ l) :
    ∃ v, x.2.value? = some v := by
  induction l generalizing m with
  | nil => cases hx
  | cons y l ih =>
    obtain ⟨v, hv, h⟩ := WrittenEntry.foldlM_cons_eq_some.1 h
    rcases List.mem_cons.1 hx with rfl | hx
    · exact ⟨v, hv⟩
    · exact ih h hx

theorem getElem?_of_mem (h : entries? l = some m) (hn : NamesIncrease l) {name : String} {f : WrittenValue}
    (hf : (name, f) ∈ l) : m[name]? = f.value? := by
  rw [getElem?_of_entries? h]
  cases hlookup : l.reverse.lookup name with
  | some g =>
    rw [hn.eq_of_mem hf (mem_of_lookup_reverse hlookup)]
    rfl
  | none =>
    have hsome : (l.reverse.lookup name).isSome := List.lookup_isSome_iff.2 ⟨_, List.mem_reverse.2 hf, beq_self_eq_true _⟩
    rw [hlookup] at hsome
    cases hsome

/-- Entries in order, with the texts of the encoder, are the encoder's. -/
theorem eq_ofEntries (h : entries? l = some m) (hn : NamesIncrease l) (hu : ∀ x ∈ l, x.2.Usual) :
    l = ofEntries m := by
  apply eq_of_ordered Prod.fst hn.ordered (namesIncrease_ofEntries m).ordered
  rintro ⟨name, f⟩
  constructor
  · intro hf
    obtain ⟨v, hv⟩ : ∃ v, f.value? = some v := value?_of_mem h hf
    have hm : m[name]? = some v := (getElem?_of_mem h hn hf).trans hv
    rw [WrittenValue.eq_ofValue hv (hu _ hf)]
    exact List.mem_map.2 ⟨(name, v), Std.ExtTreeMap.mem_toList_iff_getElem?_eq_some.2 hm, rfl⟩
  · intro hf
    obtain ⟨⟨key, v⟩, hv, heq⟩ := List.mem_map.1 hf
    cases heq
    have hm : m[key]? = some v := Std.ExtTreeMap.mem_toList_iff_getElem?_eq_some.1 hv
    rw [getElem?_of_entries? h, Option.bind_eq_some_iff] at hm
    obtain ⟨g, hg, hm⟩ := hm
    have hmem := mem_of_lookup_reverse hg
    rw [← WrittenValue.eq_ofValue hm (hu _ hmem)]
    exact hmem

theorem usual_of_mem_ofEntries {x : WrittenEntry} (hx : x ∈ ofEntries m) : x.2.Usual := by
  obtain ⟨y, -, rfl⟩ := List.mem_map.1 hx
  exact WrittenValue.usual_ofValue y.2

theorem canonical_ofSnapshot (s : Snapshot) : (ofSnapshot s).Canonical := by
  refine ⟨namesIncrease_ofEntries _, namesIncrease_ofEntries _, fun v hv => ?_⟩
  rcases mem_values.1 hv with ⟨x, hx, rfl⟩ | ⟨x, hx, rfl⟩ | rfl
  · exact usual_of_mem_ofEntries hx
  · exact usual_of_mem_ofEntries hx
  · exact WrittenValue.usual_ofValue s.body

/-- A canonical form is the encoder's. -/
theorem Canonical.eq_ofSnapshot {f : Written} {s : Snapshot} (hc : f.Canonical) (h : f.snapshot? = some s) :
    f = ofSnapshot s := by
  obtain ⟨hid, hh, hp, hb, hx⟩ := snapshot?_eq_some h
  have hheaders : f.headers = ofEntries s.headers :=
    eq_ofEntries hh hc.headers fun x hx => hc.timestamps _ (mem_values.2 (.inl ⟨x, hx, rfl⟩))
  have hproperties : f.properties = ofEntries s.properties :=
    eq_ofEntries hp hc.properties fun x hx => hc.timestamps _ (mem_values.2 (.inr (.inl ⟨x, hx, rfl⟩)))
  have hbody : f.body = .ofValue s.body :=
    WrittenValue.eq_ofValue hb (hc.timestamps _ (mem_values.2 (.inr (.inr rfl))))
  obtain ⟨id, headers, properties, body, exception⟩ := f
  simp only [ofSnapshot, mk.injEq]
  exact ⟨hid.symm, hheaders, hproperties, hbody, hx.symm⟩

/-- Encoding gives back the canonical forms and no others. -/
theorem encode_eq_iff_canonical {f : Written} {s : Snapshot} (hf : f.Fits) (h : f.snapshot? = some s) :
    s.encode = f.encode ↔ f.Canonical := by
  rw [← encode_ofSnapshot]
  constructor
  · intro he
    rw [← encode_inj (fits_ofSnapshot (fits_of_snapshot? h hf)) hf he]
    exact canonical_ofSnapshot s
  · intro hc
    rw [← hc.eq_ofSnapshot h]

end Written

namespace Snapshot

theorem decode_eq_ok {b : List UInt8} {s : Snapshot} (h : decode b = .ok s) : ∃ r, decodeWithRest b = .ok (s, r) := by
  unfold decode at h
  split at h
  · next s' r hr =>
    cases h
    exact ⟨r, hr⟩
  · cases h

theorem decode_of_decodeWithRest {b r : List UInt8} {s : Snapshot} (h : decodeWithRest b = .ok (s, r)) :
    decode b = .ok s := by
  rw [decode, h]

/-! ## Encoding, then decoding -/

/-- From a proper part of a binary form nothing is read. -/
theorem decode_of_part {s : Snapshot} (h : s.Fits) {p : List UInt8} (hp : p <+: s.encode) (hne : p ≠ s.encode) :
    ∃ detail, decode p = .error (.codec detail) := by
  cases hd : decodeWithRest p with
  | error fault => exact ⟨fault.message, by rw [decode, hd]⟩
  | ok y =>
    exfalso
    obtain ⟨s', r⟩ := y
    obtain ⟨f, hf, hs', rfl⟩ := decodeWithRest_eq_ok hd
    obtain ⟨q, hq⟩ := hp
    -- the form that is read is the whole of the binary form, so nothing can be missing from it
    rw [← Written.encode_ofSnapshot] at hq hne
    have hsplit : f.encode ++ (r ++ q) = (Written.ofSnapshot s).encode ++ [] := by
      rw [← List.append_assoc, hq, List.append_nil]
    obtain ⟨rfl, hrest⟩ := Written.encode_append_inj hf (Written.fits_ofSnapshot h) hsplit
    obtain ⟨rfl, rfl⟩ := List.append_eq_nil_iff.1 hrest
    exact hne (List.append_nil _)

/--
From the binary form of a snapshot, whatever follows, the snapshot is read as it is written: bit by bit as it was if
and only if no timestamp lies in a leap second within a minute. From a proper part of it nothing is read, so no binary
form begins with another.
-/
theorem decode_prefix_of_encode {s : Snapshot} (h : s.Fits) :
    (∀ t, decode (s.encode ++ t) = .ok s.asWritten) ∧ (s.asWritten = s ↔ s.Regular) ∧
    (∀ p, p <+: s.encode → p ≠ s.encode → ∃ detail, decode p = .error (.codec detail)) ∧
    ∀ s' : Snapshot, s'.Fits → s.encode <+: s'.encode → s'.encode = s.encode ∧ s'.asWritten = s.asWritten := by
  refine ⟨fun t => decode_of_decodeWithRest (decodeWithRest_encode h t), asWritten_eq_self_iff,
    fun p hp hne => decode_of_part h hp hne, fun s' hs' hprefix => ?_⟩
  have hwhole := decode_encode h
  have heq : s.encode = s'.encode := by
    by_contra hne
    obtain ⟨detail, hpart⟩ := decode_of_part hs' hprefix hne
    rw [hwhole] at hpart
    cases hpart
  refine ⟨heq.symm, ?_⟩
  rw [heq, decode_encode hs'] at hwhole
  exact Except.ok.inj hwhole

/-- A snapshot with a timestamp is read past any bytes that follow, but not without its last byte. -/
theorem decode_prefix_of_encode_timestamp :
    let s : Snapshot := { id := "exchange", body := .timestamp .year2025 }
    decode (s.encode ++ [0xff]) = .ok s ∧ ∃ detail, decode s.encode.dropLast = .error (.codec detail) := by
  intro s
  have hs : s.Fits := ⟨by decide, entriesFit_empty _, entriesFit_empty _, trivial, fun text ht => nomatch ht⟩
  obtain ⟨hwhole, hregular, hpart, -⟩ := decode_prefix_of_encode hs
  have hsame : s.asWritten = s :=
    hregular.2 ⟨entriesRegular_empty _, entriesRegular_empty _, show Instant.year2025.Regular by decide⟩
  refine ⟨?_, hpart _ (List.dropLast_prefix _) (by decide +kernel)⟩
  rw [hwhole, hsame]

/-- A timestamp in a leap second within a minute comes back as the same fraction of the second after it. -/
theorem decode_encode_within_minute :
    let s : Snapshot := { id := "exchange", body := .timestamp ⟨4, 1_333_333_333, by decide, by decide, by decide⟩ }
    s.Fits ∧ decode s.encode ≠ .ok s ∧
      (decode s.encode).toOption.map (·.body) =
        some (.timestamp ⟨5, 333_333_333, by decide, by decide, by decide⟩) := by
  intro s
  have hs : s.Fits := ⟨by decide, entriesFit_empty _, entriesFit_empty _, trivial, fun text ht => nomatch ht⟩
  have hbody : (decode s.encode).toOption.map (·.body) =
      some (.timestamp ⟨5, 333_333_333, by decide, by decide, by decide⟩) := by decide +kernel
  refine ⟨hs, fun hd => ?_, hbody⟩
  rw [hd] at hbody
  exact absurd hbody (by decide)

/-! ## Decoding, then encoding -/

/--
From a byte string that it accepts the decoder takes one prefix: the only one that can be read with nothing left, and
one that is read in the same way whatever follows. The prefix spells the snapshot in one form, in which the last of
several entries with one name counts. Encoding the snapshot gives the prefix back if and only if the names of both
maps increase in the order of their bytes and every timestamp has the text that the encoder writes for its instant.
What encoding gives is read as the same snapshot in any case.
-/
theorem encode_of_decode_iff {b : List UInt8} {s : Snapshot} (h : decode b = .ok s) :
    ∃ p r, b = p ++ r ∧ decodeWithRest b = .ok (s, r) ∧
      (∀ q s', q <+: b → decodeWithRest q = .ok (s', []) → q = p) ∧
      (∀ t, decodeWithRest (p ++ t) = .ok (s, t) ∧ decode (p ++ t) = .ok s) ∧
      (∃ f : Written, f.Fits ∧ f.encode = p ∧ (∀ g : Written, g.Fits → g.encode = p → g = f) ∧
        (s.encode = p ↔ f.Canonical) ∧
        (∀ name : String, s.headers[name]? = (f.headers.reverse.lookup name).bind WrittenValue.value?) ∧
        ∀ name : String, s.properties[name]? = (f.properties.reverse.lookup name).bind WrittenValue.value?) ∧
      decode s.encode = .ok s := by
  obtain ⟨r, hr⟩ := decode_eq_ok h
  obtain ⟨f, hf, hs, rfl⟩ := decodeWithRest_eq_ok hr
  obtain ⟨-, hheaders, hproperties, -, -⟩ := Written.snapshot?_eq_some hs
  refine ⟨f.encode, r, rfl, hr, ?_, ?_, ⟨f, hf, rfl, ?_, ?_, ?_, ?_⟩, ?_⟩
  · intro q s' hq hd
    obtain ⟨g, hg, -, rfl⟩ := decodeWithRest_eq_ok hd
    obtain ⟨t, ht⟩ := hq
    rw [List.append_nil] at ht ⊢
    rw [(Written.encode_append_inj hg hf ht).1]
  · intro t
    have hd := decodeWithRest_written hf hs t
    exact ⟨hd, decode_of_decodeWithRest hd⟩
  · intro g hg he
    exact Written.encode_inj hg hf he
  · exact Written.encode_eq_iff_canonical hf hs
  · exact Written.getElem?_of_entries? hheaders
  · exact Written.getElem?_of_entries? hproperties
  · rw [decode_encode (Written.fits_of_snapshot? hs hf), asWritten_eq_self_iff.2 (Written.regular_of_snapshot? hs)]

/-- Of two headers with one name the second is kept, and encoding puts its timestamp in the usual form. -/
theorem encode_of_decode_iff_respelled :
    let f : Written := {
      id := "exchange"
      headers := [("at", .plain (.bool true) rfl), ("at", .timestamp "2025-01-01T01:00:00+01:00")]
      properties := []
      body := .plain .null rfl
      exception := none }
    ∃ s, decode (f.encode ++ [0xff]) = .ok s ∧ s.headers["at"]? = some (.timestamp .year2025) ∧ s.encode ≠ f.encode ∧
      decode s.encode = .ok s := by
  intro f
  have hf : f.Fits := by
    refine ⟨by decide, ⟨by decide, fun x hx => ?_⟩, ⟨by decide, fun x hx => nomatch hx⟩, trivial, fun x hx => nomatch hx⟩
    rcases List.mem_cons.1 hx with rfl | hx
    · exact ⟨by decide, trivial⟩
    · obtain rfl := List.mem_singleton.1 hx
      exact ⟨by decide, show textFits _ by decide⟩
  have hread : f.snapshot?.isSome := by decide +kernel
  obtain ⟨s, hs⟩ := Option.isSome_iff_exists.1 hread
  have hd : decode (f.encode ++ [0xff]) = .ok s := decode_of_decodeWithRest (decodeWithRest_written hf hs _)
  obtain ⟨p, r, -, -, hunique, -, ⟨g, -, hg, hform, hcanonical, hheaders, -⟩, hagain⟩ := encode_of_decode_iff hd
  have hp : f.encode = p := by
    apply hunique f.encode s (List.prefix_append _ _)
    rw [← decodeWithRest_written hf hs [], List.append_nil]
  obtain rfl : f = g := hform f hf hp
  refine ⟨s, hd, ?_, ?_, hagain⟩
  · rw [hheaders "at"]
    decide +kernel
  · intro he
    have hnames := (hcanonical.1 (he.trans hg)).headers
    exact absurd (List.rel_of_pairwise_cons hnames List.mem_cons_self) (List.lt_irrefl _)

end Snapshot

end DurableAggregates
