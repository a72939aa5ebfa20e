import DurableAggregates.Metrics.Basic
import DurableAggregates.Text.Shortest

/-!
# Exposition of metrics

The names, kinds and descriptions of the metrics and their samples in the text format that a monitoring system
scrapes. A metric appears once it was recorded. A process has one place for a recorder: the first that is installed
takes it, and only that one renders (`Recorder.install`).
-/

namespace DurableAggregates

def Counter.name : Counter → String
  | .adds => "aggregation_adds_total"
  | .removes => "aggregation_removes_total"
  | .confirms => "aggregation_confirms_total"
  | .passes => "aggregation_recovery_passes_total"
  | .redeliveries => "aggregation_recovery_redelivered_total"
  | .failures => "aggregation_recovery_failures_total"
  | .deadLetters => "aggregation_dead_letter_total"
  | .discards => "aggregation_dead_letter_discarded_total"

def Counter.description : Counter → String
  | .adds => "Total number of exchanges added to the repository"
  | .removes => "Total number of aggregates removed after completion"
  | .confirms => "Total number of exchanges confirmed after reprocessing"
  | .passes => "Total number of recovery passes run"
  | .redeliveries => "Total number of exchanges handed back for redelivery"
  | .failures => "Total number of per-key recovery failures"
  | .deadLetters => "Total number of exchanges forwarded to the dead letter sink"
  | .discards => "Total number of exhausted exchanges discarded without a dead letter sink"

/-- The counters that are above zero, by name. -/
def Tally.samples (t : Tally) : List (String × Nat) :=
  (Counter.all.filter fun c => t.get c != 0).map fun c => (c.name, t.get c)

namespace Metrics

def gaugeName : String := "aggregation_redeliveries_in_flight"

def histogramName : String := "aggregation_recovery_pass_duration_seconds"

/-- The upper bounds of the histogram and their texts, in seconds. -/
def buckets : List (Duration × String) :=
  [(⟨1000000⟩, "0.001"), (⟨5000000⟩, "0.005"), (⟨10000000⟩, "0.01"), (⟨25000000⟩, "0.025"), (⟨50000000⟩, "0.05"),
    (⟨100000000⟩, "0.1"), (⟨250000000⟩, "0.25"), (⟨500000000⟩, "0.5"), (⟨1000000000⟩, "1"), (⟨2500000000⟩, "2.5"),
    (⟨5000000000⟩, "5")]

def bucketName (bound : String) : String := histogramName ++ "_bucket\x7ble=\"" ++ bound ++ "\"\x7d"

/-- The samples of the histogram: for each bound the passes within it, then all passes. -/
def histogramSamples (m : Metrics) : List (String × Nat) :=
  buckets.map (fun (bound, text) => (bucketName text, m.passesWithin bound)) ++
    [(bucketName "+Inf", m.passes.length), (histogramName ++ "_count", m.passes.length)]

/-- The samples of counters and histogram that are above zero. -/
def samples (m : Metrics) : List (String × Nat) :=
  m.tally.samples ++ m.histogramSamples.filter (·.2 != 0)

/-- The value of the gauge, which is kept in binary. -/
def gaugeText (m : Metrics) : String := Text.Shortest.text (m.inFlight.getD 0)

/-- Name, kind and description of the metrics that were recorded. -/
def families (m : Metrics) : List (String × String × String) :=
  ((Counter.all.filter fun c => m.tally.get c != 0).map fun c => (c.name, "counter", c.description)) ++
    (if m.inFlight.isSome then
      [(gaugeName, "gauge", "Redelivery dispatches that have not finished yet")] else []) ++
    (if m.passes.isEmpty then [] else [(histogramName, "histogram", "Time taken by one recovery pass")])

/-- The lines that describe the recorded metrics, sorted. -/
def descriptionLines (m : Metrics) : List String :=
  (m.families.flatMap fun (name, kind, description) =>
    [s!"# HELP {name} {description}", s!"# TYPE {name} {kind}"]).mergeSort

end Metrics

/-! ## Recorders -/

/-- Whether the recorder's place in the process is taken. -/
structure RecorderPlace where
  taken : Bool := false
  deriving DecidableEq, Repr

structure Recorder where
  installed : Bool := false
  deriving DecidableEq, Repr

namespace Recorder

/-- Installs the recorder if the place is free, and does nothing otherwise. -/
def install (r : Recorder) (place : RecorderPlace) : Recorder × RecorderPlace :=
  (⟨r.installed || !place.taken⟩, ⟨true⟩)

/-- The descriptions and samples of the recorded metrics; nothing for a recorder that is not installed. -/
def render? (r : Recorder) (m : Metrics) : Option String :=
  if r.installed then
    some ("\n".intercalate (m.descriptionLines ++ m.samples.map fun (name, n) => s!"{name} {n}"))
  else none

end Recorder

/-- Every metric recorded once. -/
def Metrics.full : Metrics :=
  (Counter.all.map Measurement.count ++ [Measurement.pass ⟨0⟩, Measurement.inFlight 0]).foldl record {}

end DurableAggregates
