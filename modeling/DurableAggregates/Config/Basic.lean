/-!
# Configuration

A configuration holds the options as they were given, in the widths of their outside form; `Config.policy?` checks the
two signed numbers, the redelivery budget before the interval, and yields the policy a running repository follows.
Durations given to `withRecoveryInterval` and `withShutdownTimeout` are cut to whole milliseconds and, beyond the
width of the option, to its largest value.
-/

namespace DurableAggregates

/-- A length of time in nanoseconds. -/
structure Duration where
  nanoseconds : Nat
  deriving DecidableEq, Repr

namespace Duration

def ofParts (seconds nanos : Nat) : Duration := ⟨seconds * 1_000_000_000 + nanos⟩

/-- The whole milliseconds. -/
def milliseconds (d : Duration) : Nat := d.nanoseconds / 1_000_000

end Duration

structure Config where
  cacheName : String := "aggregation"
  useRecovery : Bool := true
  recoveryIntervalMillis : Int64 := 5000
  maximumRedeliveries : Int32 := 3
  deadLetterUri : Option String := none
  allowSerializedHeaders : Bool := false
  shutdownTimeoutMillis : UInt64 := 30000
  deriving DecidableEq, Repr, Inhabited

inductive ConfigError where
  | negativeMaximumRedeliveries (n : Int32)
  | negativeRecoveryInterval (n : Int64)
  | missingDeadLetterForwarder (uri : String)
  /-- The document is malformed or an option has a value of another type. -/
  | malformed
  deriving DecidableEq, Repr

def ConfigError.message : ConfigError → String
  | .negativeMaximumRedeliveries n => s!"Maximum redelivery retries must be zero or a positive integer, got {n.toInt}"
  | .negativeRecoveryInterval n => s!"Recovery interval must be zero or a positive integer, got {n.toInt}"
  | .missingDeadLetterForwarder uri =>
    s!"Dead letter uri {uri} is configured but no dead letter forwarder was supplied"
  | .malformed => "Invalid configuration"

/-- What a running repository follows. -/
structure Policy where
  useRecovery : Bool
  /-- Milliseconds between scheduled passes; zero for passes on demand only. -/
  interval : Nat
  maximumRedeliveries : Nat
  deadLetterUri : Option String
  allowSerializedHeaders : Bool
  /-- How many milliseconds a stop waits for outstanding redeliveries. -/
  shutdownTimeout : Nat
  deriving DecidableEq, Repr

/-- Whether passes are scheduled. -/
def Policy.schedulesPasses (p : Policy) : Bool := p.useRecovery && p.interval != 0

namespace Config

def withCacheName (c : Config) (name : String) : Config := { c with cacheName := name }

def withUseRecovery (c : Config) (use : Bool) : Config := { c with useRecovery := use }

def withRecoveryIntervalMillis (c : Config) (n : Int64) : Config := { c with recoveryIntervalMillis := n }

def withMaximumRedeliveries (c : Config) (n : Int32) : Config := { c with maximumRedeliveries := n }

def withDeadLetterUri (c : Config) (uri : String) : Config := { c with deadLetterUri := some uri }

def withAllowSerializedHeaders (c : Config) (allow : Bool) : Config := { c with allowSerializedHeaders := allow }

def withRecoveryInterval (c : Config) (d : Duration) : Config :=
  { c with recoveryIntervalMillis := .ofNat (min d.milliseconds 0x7fff_ffff_ffff_ffff) }

def withShutdownTimeout (c : Config) (d : Duration) : Config :=
  { c with shutdownTimeoutMillis := .ofNat (min d.milliseconds 0xffff_ffff_ffff_ffff) }

/-- The policy of a configuration whose numbers are not negative. -/
def policy? (c : Config) : Except ConfigError Policy :=
  if c.maximumRedeliveries < 0 then .error (.negativeMaximumRedeliveries c.maximumRedeliveries)
  else if c.recoveryIntervalMillis < 0 then .error (.negativeRecoveryInterval c.recoveryIntervalMillis)
  else .ok {
    useRecovery := c.useRecovery
    interval := c.recoveryIntervalMillis.toInt.toNat
    maximumRedeliveries := c.maximumRedeliveries.toInt.toNat
    deadLetterUri := c.deadLetterUri
    allowSerializedHeaders := c.allowSerializedHeaders
    shutdownTimeout := c.shutdownTimeoutMillis.toNat }

end Config

end DurableAggregates
