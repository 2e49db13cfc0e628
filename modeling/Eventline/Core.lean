/-
  The data types of the journal (`core/`, `journal/fields.rs`).

  Ids, times and durations are 64-bit as in the source.  A double is finite
  or one of the three special values: the code only asks which, so the sign
  and payload of a NaN are not kept.  `Fields` is a map by key, listed in key
  order, so that equal maps are equal values.
-/
import Eventline.Lib.Json

namespace Eventline

structure ScopeId where
  n : UInt64
  deriving DecidableEq, Repr

structure RecordId where
  n : UInt64
  deriving DecidableEq, Repr

inductive EventKind where
  | info
  | warning
  | error
  | debug
  deriving DecidableEq, Repr

inductive Outcome where
  | success
  | failure
  | aborted
  deriving DecidableEq, Repr

inductive F64 where
  | finite (x : FiniteF64)
  | nan
  | infinity
  | negInfinity
  deriving DecidableEq, Repr

inductive Value where
  | string (s : String)
  | int (i : Int64)
  | uint (n : UInt64)
  | float (x : F64)
  | bool (b : Bool)
  | durationMs (ms : UInt64)
  | null
  deriving DecidableEq, Repr

/-- Key-value metadata of a record. -/
structure Fields where
  entries : List (String × Value)
  sorted : SortedMap.Sorted entries
  deriving DecidableEq

namespace Fields

def new : Fields := ⟨[], List.Pairwise.nil⟩

def insert (f : Fields) (key : String) (value : Value) : Fields :=
  ⟨SortedMap.insert key value f.entries, f.sorted.insert key value⟩

end Fields

inductive RecordKind where
  | event (kind : EventKind) (name : String) (fields : Fields)
  | scopeExit (outcome : Outcome) (durationNs : UInt64)
  deriving DecidableEq

structure Record where
  id : RecordId
  scope : Option ScopeId
  timeNs : UInt64
  kind : RecordKind
  deriving DecidableEq

structure ExitMessages where
  success : Option String
  failure : Option String
  aborted : Option String
  deriving DecidableEq, Repr

/-- `ExitMessages::default()`. -/
def ExitMessages.none : ExitMessages := ⟨.none, .none, .none⟩

structure Scope where
  id : ScopeId
  parent : Option ScopeId
  enteredAt : UInt64
  name : Option String
  exitedAt : Option UInt64
  exitMessages : ExitMessages
  deriving DecidableEq, Repr

/-- A span of time, in nanoseconds. -/
abbrev Duration := ℕ

/-- A point of the monotonic clock, in nanoseconds. -/
abbrev Instant := ℕ

/-- `Instant::saturating_duration_since`. -/
def Instant.saturatingDurationSince (later earlier : Instant) : Duration := later - earlier

def Duration.fromMillis (ms : UInt64) : Duration := ms.toNat * 1000000

/-- `duration_nanos` (`journal/utils.rs`): saturating, never wrapping. -/
def durationNanos (d : Duration) : UInt64 :=
  if d < 2 ^ 64 then UInt64.ofNat d else UInt64.ofNat (2 ^ 64 - 1)

/-- `Scope::elapsed`: the wall-clock estimate, up to `now` for an open scope. -/
def Scope.elapsed (s : Scope) (now : UInt64) : Duration :=
  let stop := s.exitedAt.getD now
  Duration.fromMillis (UInt64.ofNat (stop.toNat - s.enteredAt.toNat))

/-- `{:?}` of an id. -/
def ScopeId.debug (id : ScopeId) : String := "ScopeId(" ++ toString id.n ++ ")"

def RecordId.debug (id : RecordId) : String := "RecordId(" ++ toString id.n ++ ")"

/-- The messages that are set in `msgs` replace those of `old`. -/
def ExitMessages.overlay (old msgs : ExitMessages) : ExitMessages where
  success := msgs.success.or old.success
  failure := msgs.failure.or old.failure
  aborted := msgs.aborted.or old.aborted

end Eventline
