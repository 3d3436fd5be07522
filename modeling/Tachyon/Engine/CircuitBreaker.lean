import Mathlib.Logic.Function.Basic
import Tachyon.Core.Machine

/-!
# Circuit breakers

A source that fails too often in a row is refused for a while, and then let through once to try.
Times are nanoseconds of the clock behind `Instant`.
-/

namespace Tachyon

/-- `CircuitState` -/
inductive CircuitState where
  | closed
  | opened
  | halfOpen
  deriving DecidableEq, Repr

/-- `CircuitBreaker` -/
structure CircuitBreaker where
  failureCount : ℕ
  failureThreshold : ℕ
  openDuration : ℕ
  openedAt : Option ℕ
  halfOpenProbeSent : Bool

namespace CircuitBreaker

def new (failureThreshold openDuration : ℕ) : CircuitBreaker where
  failureCount := 0
  failureThreshold := failureThreshold
  openDuration := openDuration
  openedAt := none
  halfOpenProbeSent := false

def state (b : CircuitBreaker) (now : ℕ) : CircuitState :=
  match b.openedAt with
  | none => .closed
  | some openedAt => if now - openedAt ≥ b.openDuration then .halfOpen else .opened

def allow (b : CircuitBreaker) (now : ℕ) : Bool × CircuitBreaker :=
  match b.state now with
  | .closed => (true, b)
  | .opened => (false, b)
  | .halfOpen =>
    if b.halfOpenProbeSent then (false, b) else (true, { b with halfOpenProbeSent := true })

def recordSuccess (b : CircuitBreaker) : CircuitBreaker :=
  { b with failureCount := 0, openedAt := none, halfOpenProbeSent := false }

/-- The count is a `u32`. -/
def recordFailure (b : CircuitBreaker) (now : ℕ) : CircuitBreaker :=
  let failureCount := (b.failureCount + 1) % u32Bound
  if failureCount ≥ b.failureThreshold then
    { b with failureCount := failureCount, openedAt := some now, halfOpenProbeSent := false }
  else { b with failureCount := failureCount }

end CircuitBreaker

/-- `SourceCircuitBreakers` -/
structure SourceCircuitBreakers where
  breakers : String → Option CircuitBreaker
  failureThreshold : ℕ
  openDuration : ℕ

namespace SourceCircuitBreakers

def new (failureThreshold openDuration : ℕ) : SourceCircuitBreakers :=
  ⟨fun _ => none, failureThreshold, openDuration⟩

/-- `entry(..).or_insert_with(..)` -/
def entry (s : SourceCircuitBreakers) (source : String) : CircuitBreaker :=
  (s.breakers source).getD (.new s.failureThreshold s.openDuration)

def insert (s : SourceCircuitBreakers) (source : String) (b : CircuitBreaker) :
    SourceCircuitBreakers :=
  { s with breakers := Function.update s.breakers source (some b) }

def allow (s : SourceCircuitBreakers) (source : String) (now : ℕ) :
    Bool × SourceCircuitBreakers :=
  let (allowed, b) := (s.entry source).allow now
  (allowed, s.insert source b)

def recordSuccess (s : SourceCircuitBreakers) (source : String) : SourceCircuitBreakers :=
  match s.breakers source with
  | none => s
  | some b => s.insert source b.recordSuccess

def recordFailure (s : SourceCircuitBreakers) (source : String) (now : ℕ) :
    SourceCircuitBreakers :=
  s.insert source ((s.entry source).recordFailure now)

end SourceCircuitBreakers

end Tachyon
