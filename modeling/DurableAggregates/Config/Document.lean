import DurableAggregates.Config.Basic
import DurableAggregates.Toml.Document

/-!
# Configuration documents

A configuration document is a TOML document with the options under their names. Options that are absent have their
default, names that are no options are ignored, and a value of another type or out of the option's range is refused.
-/

namespace DurableAggregates.Config

open Toml

/-- The option of a name: its default if it is absent, nothing if its value does not fit. -/
def option? {α : Type} (t : Table) (name : String) (fallback : α) (read : Scalar → Option α) : Option α :=
  match t.lookup name with
  | none => some fallback
  | some (.value (.scalar v)) => read v
  | some _ => none

def readText : Scalar → Option String
  | .text s => some s
  | _ => none

def readBool : Scalar → Option Bool
  | .boolean b => some b
  | _ => none

/-- An integer between the bounds. -/
def readIn (low high : Int) : Scalar → Option Int
  | .integer n => if low ≤ n ∧ n ≤ high then some n else none
  | _ => none

def ofTable (t : Table) : Option Config := do
  let cacheName ← option? t "cacheName" "aggregation" readText
  let useRecovery ← option? t "useRecovery" true readBool
  let interval ← option? t "recoveryIntervalMillis" 5000 (readIn (-0x8000_0000_0000_0000) 0x7fff_ffff_ffff_ffff)
  let maximum ← option? t "maximumRedeliveries" 3 (readIn (-0x8000_0000) 0x7fff_ffff)
  let deadLetterUri ← option? t "deadLetterUri" none fun v => some <$> readText v
  let allow ← option? t "allowSerializedHeaders" false readBool
  let timeout ← option? t "shutdownTimeoutMillis" 30000 (readIn 0 0xffff_ffff_ffff_ffff)
  return {
    cacheName, useRecovery, deadLetterUri
    recoveryIntervalMillis := .ofInt interval
    maximumRedeliveries := .ofInt maximum
    allowSerializedHeaders := allow
    shutdownTimeoutMillis := .ofNat timeout.toNat }

/-- The configuration of a document. -/
def parse? (document : String) : Except ConfigError Config :=
  match (Table.parse? document).bind ofTable with
  | some c => .ok c
  | none => .error .malformed

end DurableAggregates.Config
