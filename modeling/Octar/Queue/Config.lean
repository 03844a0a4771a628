import Octar.Queue.Message

namespace Octar

open Go

class PathMatch where
  pathMatch : Bytes → Bytes → Bool

@[reducible] def literalMatch : PathMatch := ⟨fun pattern key => pattern == key⟩

inductive BackoffStrategy
  | unset | fixed | linear | exponential
  | other (name : Bytes)
  deriving DecidableEq, Repr

structure RateLimitConfig where
  max : Int
  window : Int
  deriving DecidableEq, Repr

structure RetryConfig where
  maxAttempts : Int
  backoff : BackoffStrategy
  initialDelay : Int
  maxDelay : Int
  deriving DecidableEq, Repr

structure DLQConfig where
  enabled : Bool
  queue : Bytes
  deriving DecidableEq, Repr

structure GroupConfig where
  key : Bytes
  parallelism : Int
  quantum : Int
  leaseTimeout : Int
  rateLimit : Option RateLimitConfig
  retry : RetryConfig
  dlq : Option DLQConfig
  maxPending : Int
  deriving DecidableEq, Repr

def second : Int := 1000000000

def minute : Int := 60 * second

def defaultGroupConfig (key : Bytes) : GroupConfig where
  key := key
  parallelism := 1
  quantum := 1
  leaseTimeout := 5 * minute
  rateLimit := none
  retry :=
    { maxAttempts := 3, backoff := .exponential, initialDelay := second, maxDelay := 5 * minute }
  dlq := none
  maxPending := 10000000

def GroupConfig.withDefaults (cfg : GroupConfig) : GroupConfig :=
  let dflt := defaultGroupConfig cfg.key
  { cfg with
    parallelism := if cfg.parallelism ≤ 0 then dflt.parallelism else cfg.parallelism
    quantum := if cfg.quantum ≤ 0 then dflt.quantum else cfg.quantum
    retry :=
      { maxAttempts := if cfg.retry.maxAttempts = 0 then dflt.retry.maxAttempts
        else cfg.retry.maxAttempts
        backoff := if cfg.retry.backoff = .unset then dflt.retry.backoff else cfg.retry.backoff
        initialDelay :=
          if cfg.retry.initialDelay = 0 then dflt.retry.initialDelay else cfg.retry.initialDelay
        maxDelay := if cfg.retry.maxDelay = 0 then dflt.retry.maxDelay else cfg.retry.maxDelay } }

def GroupConfig.RateOk (cfg : GroupConfig) : Prop := ∀ r, cfg.rateLimit = some r → 0 ≤ r.max

instance (cfg : GroupConfig) : Decidable cfg.RateOk :=
  decidable_of_iff (cfg.rateLimit.all fun r => decide (0 ≤ r.max))
    (by cases h : cfg.rateLimit <;> simp [GroupConfig.RateOk, h])

def GroupConfig.matchesKey [PathMatch] (c : GroupConfig) (key : Bytes) : Bool :=
  c.key == key || PathMatch.pathMatch c.key key

structure ConfigIdx where
  exact : Map Bytes GroupConfig
  wildcards : List GroupConfig

def newConfigIdx : ConfigIdx := ⟨∅, []⟩

def isGlobPattern (key : Bytes) : Bool := key.any fun b => b ∈ str "*?["

namespace ConfigIdx

def setWildcard (c : GroupConfig) : List GroupConfig → List GroupConfig
  | [] => [c]
  | w :: ws => if w.key = c.key then c :: ws else w :: setWildcard c ws

def set (ci : ConfigIdx) (c : GroupConfig) : ConfigIdx :=
  if isGlobPattern c.key then { ci with wildcards := setWildcard c ci.wildcards }
  else { ci with exact := ci.exact.insert c.key c }

def del (ci : ConfigIdx) (key : Bytes) : ConfigIdx × Bool :=
  if (ci.exact.lookup key).isSome then ({ ci with exact := ci.exact.erase key }, true)
  else if ci.wildcards.any fun c => c.key == key then
    ({ ci with wildcards := ci.wildcards.eraseP fun c => c.key == key }, true)
  else (ci, false)

def get (ci : ConfigIdx) (key : Bytes) : Option GroupConfig :=
  match ci.exact.lookup key with
  | some c => some c
  | none => ci.wildcards.find? fun c => c.key == key

def list (ci : ConfigIdx) : List GroupConfig :=
  (ci.exact.keys.insertionSort (· ≤ ·)).filterMap (fun key => ci.exact.lookup key) ++ ci.wildcards

def count (ci : ConfigIdx) : Nat := ci.exact.entries.length + ci.wildcards.length

def resolve [PathMatch] (ci : ConfigIdx) (key : Bytes) : Option GroupConfig :=
  match ci.exact.lookup key with
  | some c => some c
  | none => (ci.wildcards.find? fun c => c.matchesKey key).map fun c => { c with key := key }

end ConfigIdx

def pageLimit (limit : Int) : Nat := if limit ≤ 0 ∨ 1000 < limit then 100 else limit.toNat

theorem pageLimit_pos (limit : Int) : 0 < pageLimit limit := by
  unfold pageLimit
  split
  · exact Nat.succ_pos 99
  · omega

end Octar
