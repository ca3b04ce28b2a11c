/-!
# Rate limits

A rate limiter is asked before a method with a window is run: may this caller go on to this method
already? What it remembers is its state, which it gets and gives back; the time is handed to it.

* `RateLimiter.none`: nobody is limited;
* `RateLimiter.locks`: a call that is let through locks its method for its caller until the window
  is over.
-/

namespace WireContract.Service

/-- A rate limiter with states in `σ`. `limits now caller method window` tells whether the call
    is held back; windows are in seconds, times in the units of the clock. -/
structure RateLimiter (σ : Type) where
  limits : Nat → String → String → Nat → σ → Bool × σ

/-- Units of the clock in a second. -/
def ticksPerSecond : Nat := 1000000000

/-- A caller and a method, locked until a time. -/
structure Lock where
  caller : String
  method : String
  expiry : Nat
  deriving DecidableEq, Repr

/-- The locks that are set, in any order. -/
abbrev Locks := List Lock

namespace Locks

/-- The locks that still hold. -/
def current (now : Nat) (locks : Locks) : Locks :=
  locks.filter fun l => decide (now < l.expiry)

/-- Whether there is a lock for a caller and a method. -/
def holds (caller method : String) (locks : Locks) : Bool :=
  locks.any fun l => l.caller == caller && l.method == method

/-- Drop the locks that are over, then hold the call back if one is left for it, or let it through
    and lock. A call held back changes no lock. -/
def limits (now : Nat) (caller method : String) (window : Nat) (locks : Locks) : Bool × Locks :=
  let locks := locks.current now
  if locks.holds caller method then (true, locks)
  else (false, ⟨caller, method, now + window * ticksPerSecond⟩ :: locks)

end Locks

namespace RateLimiter

/-- Nobody is limited. -/
def none : RateLimiter Unit := ⟨fun _ _ _ _ s => (false, s)⟩

/-- Calls lock their method for their caller. -/
def locks : RateLimiter Locks := ⟨Locks.limits⟩

end RateLimiter

end WireContract.Service
