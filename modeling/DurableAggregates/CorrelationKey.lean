import Std.Data.ExtTreeMap
import Std.Data.ExtTreeSet

/-!
# Correlation keys

A correlation key names the group of messages that belong to one aggregate. Keys are ordered by the code points of
their text, which is also the order of their UTF-8 bytes; the order is lawful, so keys can index the extensional
finite maps of the standard library. Only `CorrelationKey.parse?` refuses the empty text: keys made by a trusted
caller may be empty.
-/

namespace DurableAggregates

structure CorrelationKey where
  text : String
  deriving DecidableEq, Repr, Inhabited, Hashable

namespace CorrelationKey

/-- Why a text is no correlation key. -/
inductive ParseError where
  | empty
  deriving DecidableEq, Repr

def ParseError.message : ParseError → String
  | .empty => "Invalid correlation key: Correlation key cannot be empty"

/-- The key an outside text names; the empty text names none. -/
def parse? (text : String) : Except ParseError CorrelationKey :=
  if text.isEmpty then .error .empty else .ok ⟨text⟩

instance : Ord CorrelationKey := ⟨fun a b => compare a.text b.text⟩

instance : ToString CorrelationKey := ⟨text⟩

instance : Std.TransOrd CorrelationKey where
  eq_swap {a b} := Std.OrientedOrd.eq_swap (a := a.text) (b := b.text)
  isLE_trans {a b c} hab hbc := Std.TransOrd.isLE_trans (a := a.text) (b := b.text) (c := c.text) hab hbc

instance : Std.LawfulEqOrd CorrelationKey where
  compare_self {a} := Std.ReflOrd.compare_self (a := a.text)
  eq_of_compare {a b} h := by
    cases a; cases b
    exact congrArg CorrelationKey.mk (Std.LawfulEqOrd.eq_of_compare h)

end CorrelationKey

/-- A finite map from correlation keys. -/
abbrev KeyMap (α : Type) := Std.ExtTreeMap CorrelationKey α compare

/-- A finite set of correlation keys. -/
abbrev KeySet := Std.ExtTreeSet CorrelationKey compare

end DurableAggregates
