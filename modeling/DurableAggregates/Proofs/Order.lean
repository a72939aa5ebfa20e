import DurableAggregates.CorrelationKey
import DurableAggregates.Text.Utf8
import Mathlib.Data.List.Sort
import Mathlib.Data.String.Basic

/-!
# The order of names

Names and keys are ordered by code points, and this is the order of their UTF-8 bytes (`Text.Utf8.encode_lt_iff`): the
first byte tells how long a character is, longer ones begin with higher bytes, and among characters of one length the
bytes are digits, the highest first. Where an order is strict, a list is known by its members (`eq_of_ordered`).
-/

namespace DurableAggregates

/-- Two lists in strictly increasing order with the same members are equal. -/
theorem eq_of_ordered {α β : Type} {cmp : β → β → Ordering} [Std.TransCmp cmp] (f : α → β) {l m : List α}
    (hl : l.Pairwise fun a b => cmp (f a) (f b) = .lt) (hm : m.Pairwise fun a b => cmp (f a) (f b) = .lt)
    (h : ∀ a, a ∈ l ↔ a ∈ m) : l = m := by
  have : Std.Asymm fun a b : α => cmp (f a) (f b) = .lt := by
    refine ⟨fun a b hab hba => ?_⟩
    have hswap : cmp (f a) (f b) = (cmp (f b) (f a)).swap := Std.OrientedCmp.eq_swap
    rw [hab, hba] at hswap
    cases hswap
  exact hl.eq_of_mem_iff hm h

namespace Text.Utf8

/-! ## UTF-8 keeps the order -/

theorem encode_ofList (l : List Char) : encode (.ofList l) = l.flatMap String.utf8EncodeChar := by
  rw [encode, String.toByteArray_ofList, List.utf8Encode]
  simp

/-- The form of a lower character comes first, whatever follows. -/
theorem utf8EncodeChar_lt {c d : Char} (h : c < d) (s t : List UInt8) :
    String.utf8EncodeChar c ++ s < String.utf8EncodeChar d ++ t := by
  have hlt : c.val.toNat < d.val.toNat := h
  have hd : d.val.toNat < 0x110000 := by
    rcases d.valid with h | h <;> omega
  have byte_lt {m n : Nat} (hm : m < 256) (hn : n < 256) : UInt8.ofNat m < .ofNat n ↔ m < n := by
    rw [UInt8.lt_iff_toNat_lt, UInt8.toNat_ofNat_of_lt' hm, UInt8.toNat_ofNat_of_lt' hn]
  have byte_eq {m n : Nat} (hm : m < 256) (hn : n < 256) : UInt8.ofNat m = .ofNat n ↔ m = n := by
    rw [← UInt8.toNat_inj, UInt8.toNat_ofNat_of_lt' hm, UInt8.toNat_ofNat_of_lt' hn]
  unfold String.utf8EncodeChar
  generalize c.val.toNat = v at hlt
  generalize d.val.toNat = w at hlt hd
  dsimp only
  -- Characters of two lengths differ in the first byte already; at one length the bytes are the digits in base 64.
  split_ifs
  all_goals simp (disch := omega) only [List.cons_append, List.nil_append, List.cons_lt_cons_iff, byte_lt, byte_eq,
    Nat.mod_eq_of_lt]
  all_goals omega

theorem flatMap_utf8EncodeChar_lt {l m : List Char} (h : l < m) :
    l.flatMap String.utf8EncodeChar < m.flatMap String.utf8EncodeChar := by
  induction h with
  | @nil d m =>
    have hd : String.utf8EncodeChar d ≠ [] := String.utf8EncodeChar_ne_nil
    obtain ⟨b, r, hb⟩ := List.exists_cons_of_ne_nil hd
    rw [List.flatMap_nil, List.flatMap_cons, hb]
    exact List.nil_lt_cons b _
  | rel h =>
    rw [List.flatMap_cons, List.flatMap_cons]
    exact utf8EncodeChar_lt h _ _
  | cons h ih =>
    rw [List.flatMap_cons, List.flatMap_cons]
    exact List.append_left_lt ih

/-- The order of texts is the order of their bytes. -/
theorem encode_lt_iff (s t : String) : encode s < encode t ↔ s < t := by
  have hmono (s t : String) (h : s < t) : encode s < encode t := by
    rw [← String.ofList_toList (s := s), ← String.ofList_toList (s := t), encode_ofList, encode_ofList]
    exact flatMap_utf8EncodeChar_lt (String.lt_iff_toList_lt.1 h)
  constructor
  · intro h
    rcases lt_trichotomy s t with hst | rfl | hts
    · exact hst
    · exact absurd h (List.lt_irrefl _)
    · exact absurd h (Std.Asymm.asymm _ _ (hmono t s hts))
  · exact hmono s t

theorem compare_eq_lt_iff (s t : String) : compare s t = .lt ↔ encode s < encode t := by
  rw [encode_lt_iff, compare_lt_iff_lt]

end Text.Utf8

end DurableAggregates
