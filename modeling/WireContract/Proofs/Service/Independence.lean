import WireContract.Proofs.Service.Locks

/-!
# Independent locks

One table has the locks of all callers and methods, every call purges all of it, and the windows
may differ from call to call. Still a caller and a method have a lock of their own, which the last
call that was let through has set.

* `RateLimiter.answers`: what a limiter says to a row of attempts;
* `Locks.Recalls`: from a time on the table holds what the last admitted attempts have set;
  `recalls_limits` for one attempt and `answers_iff` for any of a row;
* `Locks.answers_filter`: tables that agree on some pairs answer to these alike, whatever else is
  attempted;
* `locks_are_independent`: both together.
-/

namespace WireContract.Service

/-! ## 1. Attempts -/

/-- A call that a limiter is asked about, with the time and the window in seconds. -/
structure Attempt where
  now : Nat
  caller : String
  method : String
  window : Nat
  deriving Repr, DecidableEq

/-- What an attempt is locked by: its caller and its method. -/
def Attempt.pair (a : Attempt) : String × String :=
  (a.caller, a.method)

/-- When the lock of an attempt is over. -/
def Attempt.expiry (a : Attempt) : Nat :=
  a.now + a.window * ticksPerSecond

/-- What a limiter says to a row of attempts. -/
def RateLimiter.answers {σ : Type} (limiter : RateLimiter σ) :
    List Attempt → σ → List (Attempt × Bool)
  | [], _ => []
  | a :: rest, s =>
    let (limited, s) := limiter.limits a.now a.caller a.method a.window s
    (a, limited) :: answers limiter rest s

/-- The last attempt for a caller and a method that was let through. -/
def lastAdmitted (pair : String × String) (log : List (Attempt × Bool)) : Option Attempt :=
  (log.filter fun p => p.1.pair == pair && !p.2).getLast?.map (·.1)

/-- Attempts at a clock that does not run backwards. -/
abbrev InTime (attempts : List Attempt) : Prop :=
  attempts.Pairwise fun a b => a.now ≤ b.now

theorem lastAdmitted_concat (pair : String × String) (log : List (Attempt × Bool)) (a : Attempt)
    (limited : Bool) :
    lastAdmitted pair (log ++ [(a, limited)]) =
      if a.pair = pair ∧ limited = false then some a else lastAdmitted pair log := by
  rw [lastAdmitted, List.filter_append]
  by_cases h : a.pair = pair ∧ limited = false
  · have hkept : (a.pair == pair && !limited) = true := by simp [h]
    rw [if_pos h, List.filter_cons, if_pos hkept, List.filter_nil, List.getLast?_concat]
    rfl
  · have hdropped : ¬ (a.pair == pair && !limited) = true := by simpa using h
    rw [if_neg h, List.filter_cons, if_neg hdropped, List.filter_nil, List.append_nil, lastAdmitted]

namespace Locks

/-- The table behind a row of attempts. -/
def behind (locks : Locks) (attempts : List Attempt) : Locks :=
  attempts.foldl (fun locks a => (locks.limits a.now a.caller a.method a.window).2) locks

section Runs

variable {locks locks' : Locks} {attempts : List Attempt} {a : Attempt} {clock time : Nat}
  {caller method : String} {past : List (Attempt × Bool)}

theorem answers_cons (locks : Locks) (a : Attempt) (rest : List Attempt) :
    RateLimiter.locks.answers (a :: rest) locks =
      (a, (locks.limits a.now a.caller a.method a.window).1) ::
        RateLimiter.locks.answers rest (locks.limits a.now a.caller a.method a.window).2 := rfl

theorem answers_append (locks : Locks) (attempts more : List Attempt) :
    RateLimiter.locks.answers (attempts ++ more) locks =
      RateLimiter.locks.answers attempts locks ++
        RateLimiter.locks.answers more (locks.behind attempts) := by
  induction attempts generalizing locks with
  | nil => rfl
  | cons a rest ih =>
    rw [List.cons_append, answers_cons, answers_cons, ih, List.cons_append]
    rfl

theorem map_fst_answers (locks : Locks) (attempts : List Attempt) :
    (RateLimiter.locks.answers attempts locks).map (·.1) = attempts := by
  induction attempts generalizing locks with
  | nil => rfl
  | cons a rest ih => rw [answers_cons, List.map_cons, ih]

/-! ## 2. The table and the attempts before -/

theorem Bars.earlier (h : locks.Bars caller method time) (htime : clock ≤ time) :
    locks.Bars caller method clock := by
  obtain ⟨l, hl, hcaller, hmethod, hexpiry⟩ := h
  exact ⟨l, hl, hcaller, hmethod, Nat.lt_of_le_of_lt htime hexpiry⟩

/-- From a time on the table holds exactly the locks of the last attempts that were let through. -/
def Recalls (locks : Locks) (past : List (Attempt × Bool)) (clock : Nat) : Prop :=
  ∀ caller method time, clock ≤ time →
    (locks.Bars caller method time ↔
      ∃ last, lastAdmitted (caller, method) past = some last ∧ time < last.expiry)

theorem recalls_nil : Recalls [] [] 0 := by
  intro caller method time _
  refine iff_of_false not_bars_nil fun h => ?_
  obtain ⟨last, hlast, -⟩ := h
  cases hlast

/-- **One attempt more keeps the table to the last attempts that were let through.** If the attempt
    is let through, the lock that was there is over, so that its own is the only one; if it is held
    back, its window is nowhere. -/
theorem recalls_limits (h : locks.Recalls past clock) (hclock : clock ≤ a.now) :
    Recalls (locks.limits a.now a.caller a.method a.window).2
      (past ++ [(a, (locks.limits a.now a.caller a.method a.window).1)]) a.now := by
  intro caller method time htime
  have hpast := h caller method time (Nat.le_trans hclock htime)
  rw [bars_limits_iff htime, lastAdmitted_concat]
  by_cases hnew : a.pair = (caller, method) ∧
      (locks.limits a.now a.caller a.method a.window).1 = false
  · obtain ⟨hpair, hadmitted⟩ := hnew
    obtain ⟨hcaller, hmethod⟩ := Prod.mk.inj hpair
    have hfree : ¬ locks.Bars a.caller a.method a.now := by
      intro hbars
      have hlimited : (locks.limits a.now a.caller a.method a.window).1 = true :=
        limits_iff.mpr hbars
      rw [hadmitted] at hlimited
      cases hlimited
    have hover : ¬ locks.Bars caller method time :=
      fun hbars => hfree (hcaller ▸ hmethod ▸ hbars.earlier htime)
    rw [if_pos ⟨hpair, hadmitted⟩, or_iff_right hover]
    constructor
    · intro hlock
      exact ⟨a, rfl, hlock.2.2⟩
    · intro hlast
      obtain ⟨last, hlast, hexpiry⟩ := hlast
      cases hlast
      exact ⟨⟨hcaller, hmethod⟩, hfree, hexpiry⟩
  · rw [if_neg hnew, hpast]
    refine or_iff_left fun hlock => hnew ⟨?_, ?_⟩
    · exact Prod.ext hlock.1.1 hlock.1.2
    · rw [← Bool.not_eq_true, limits_iff]
      exact hlock.2.1

/-- **An attempt is limited exactly if the last one of its pair that was let through is not over.**
    The induction is on the attempts to come; each one moves from there into the past. -/
theorem answers_iff (h : locks.Recalls past clock) (hclock : ∀ a ∈ attempts, clock ≤ a.now)
    (horder : InTime attempts) {before after : List (Attempt × Bool)} {limited : Bool}
    (hrun : RateLimiter.locks.answers attempts locks = before ++ (a, limited) :: after) :
    limited = true ↔
      ∃ last, lastAdmitted a.pair (past ++ before) = some last ∧ a.now < last.expiry := by
  induction attempts generalizing past locks clock before with
  | nil =>
    have hlen := congrArg List.length hrun
    simp [RateLimiter.answers] at hlen
  | cons first rest ih =>
    rw [List.forall_mem_cons] at hclock
    obtain ⟨hfirst, hrest⟩ := List.pairwise_cons.mp horder
    rw [answers_cons] at hrun
    cases before with
    | nil =>
      obtain ⟨hhead, -⟩ := List.cons.inj hrun
      obtain ⟨rfl, rfl⟩ := Prod.mk.inj hhead
      rw [List.append_nil, limits_iff]
      exact h _ _ _ hclock.1
    | cons p before =>
      obtain ⟨rfl, htail⟩ := List.cons.inj hrun
      have hnext := ih (recalls_limits h hclock.1) hfirst hrest htail
      rwa [List.append_assoc] at hnext

/-! ## 3. Tables that agree -/

/-- Two tables that hold back from a time on the same of some pairs. -/
def Agree (keep : String × String → Bool) (locks locks' : Locks) (clock : Nat) : Prop :=
  ∀ caller method time, keep (caller, method) = true → clock ≤ time →
    (locks.Bars caller method time ↔ locks'.Bars caller method time)

/-- **Tables that agree on some pairs answer alike to their attempts**, also if nothing else is
    attempted. -/
theorem answers_filter {keep : String × String → Bool} (h : Agree keep locks locks' clock)
    (hclock : ∀ a ∈ attempts, clock ≤ a.now) (horder : InTime attempts) :
    (RateLimiter.locks.answers attempts locks).filter (fun p => keep p.1.pair) =
      RateLimiter.locks.answers (attempts.filter fun a => keep a.pair) locks' := by
  induction attempts generalizing locks locks' clock with
  | nil => rfl
  | cons a rest ih =>
    rw [List.forall_mem_cons] at hclock
    obtain ⟨hfirst, hrest⟩ := List.pairwise_cons.mp horder
    rw [answers_cons]
    by_cases hkeep : keep a.pair = true
    · have hnow := h a.caller a.method a.now hkeep hclock.1
      have hsame : (locks.limits a.now a.caller a.method a.window).1 =
          (locks'.limits a.now a.caller a.method a.window).1 := by
        rw [Bool.eq_iff_iff, limits_iff, limits_iff, hnow]
      have hagree : Agree keep (locks.limits a.now a.caller a.method a.window).2
          (locks'.limits a.now a.caller a.method a.window).2 a.now := by
        intro caller method time hpair htime
        rw [bars_limits_iff htime, bars_limits_iff htime, hnow,
          h caller method time hpair (Nat.le_trans hclock.1 htime)]
      simp only [List.filter_cons, hkeep, if_true]
      rw [answers_cons, hsame, ih hagree hfirst hrest]
    · simp only [List.filter_cons, hkeep]
      refine ih (fun caller method time hpair htime => ?_) hfirst hrest
      rw [bars_limits_iff htime, h caller method time hpair (Nat.le_trans hclock.1 htime)]
      refine or_iff_left fun hlock => hkeep ?_
      have hother : a.pair = (caller, method) := Prod.ext hlock.1.1 hlock.1.2
      rwa [hother]

/-- Tables that hold back the same answer alike. -/
theorem answers_congr (h : Agree (fun _ => true) locks locks' clock)
    (hclock : ∀ a ∈ attempts, clock ≤ a.now) (horder : InTime attempts) :
    RateLimiter.locks.answers attempts locks = RateLimiter.locks.answers attempts locks' := by
  have hattempts := List.filter_eq_self.mpr fun (_ : Attempt) (_ : _ ∈ attempts) => rfl
  have hanswers := List.filter_eq_self.mpr
    fun (_ : Attempt × Bool) (_ : _ ∈ RateLimiter.locks.answers attempts locks) => rfl
  have hall := answers_filter h hclock horder
  rwa [hattempts, hanswers] at hall

/-- An attempt that is held back, or that is let through for no time, changes no lock. -/
theorem agree_limits
    (h : (locks.limits a.now a.caller a.method a.window).1 = true ∨ a.window = 0) :
    Agree (fun _ => true) (locks.limits a.now a.caller a.method a.window).2 locks a.now := by
  intro caller method time _ htime
  rw [bars_limits_iff htime]
  refine or_iff_left fun hlock => ?_
  rcases h with hlimited | hwindow
  · exact hlock.2.1 (limits_iff.mp hlimited)
  · have hexpiry := hlock.2.2
    rw [hwindow, Nat.zero_mul] at hexpiry
    exact Nat.not_lt.mpr htime hexpiry

/-- Such an attempt can be left out. -/
theorem answers_without {before after : List (Attempt × Bool)} {limited : Bool}
    (horder : InTime attempts)
    (hrun : RateLimiter.locks.answers attempts locks = before ++ (a, limited) :: after)
    (h : limited = true ∨ a.window = 0) :
    RateLimiter.locks.answers (before.map (·.1) ++ after.map (·.1)) locks = before ++ after := by
  have hattempts : attempts = before.map (·.1) ++ a :: after.map (·.1) := by
    have hfst := map_fst_answers locks attempts
    rw [hrun, List.map_append, List.map_cons] at hfst
    exact hfst.symm
  have hlength : (RateLimiter.locks.answers (before.map (·.1)) locks).length = before.length := by
    have hfst := congrArg List.length (map_fst_answers locks (before.map (·.1)))
    rwa [List.length_map, List.length_map] at hfst
  rw [hattempts] at hrun horder
  rw [answers_append, answers_cons] at hrun
  obtain ⟨hbefore, hbehind⟩ := List.append_inj hrun hlength
  obtain ⟨hhead, hafter⟩ := List.cons.inj hbehind
  obtain ⟨-, rfl⟩ := Prod.mk.inj hhead
  obtain ⟨hlater, hrest⟩ := List.pairwise_cons.mp (List.pairwise_append.mp horder).2.1
  have hsame := answers_congr (agree_limits h) hlater hrest
  rw [answers_append, hbefore, ← hsame, hafter]

end Runs

end Locks

/-! ## 4. Any row of attempts -/

/-- **A caller and a method have a lock of their own.** In any row of attempts at a clock that does
    not run backwards, an attempt is limited exactly if the last earlier one of the same caller to
    the same method that was let through has a window that is not over. So an attempt that is
    limited never makes a lock longer, and one with the window 0 never locks: without such an
    attempt all others are answered as they were. And the attempts of any pairs are answered as they
    are alone, although the table is purged for all of them at every other attempt, too. -/
theorem locks_are_independent {attempts : List Attempt} (horder : InTime attempts) :
    (RateLimiter.locks.answers attempts []).map (·.1) = attempts ∧
    (∀ before a limited after,
      RateLimiter.locks.answers attempts [] = before ++ (a, limited) :: after →
        (limited = true ↔
          ∃ last, lastAdmitted a.pair before = some last ∧
            a.now < last.now + last.window * ticksPerSecond) ∧
        (limited = true ∨ a.window = 0 →
          RateLimiter.locks.answers (before.map (·.1) ++ after.map (·.1)) [] = before ++ after)) ∧
    ∀ keep : String × String → Bool,
      (RateLimiter.locks.answers attempts []).filter (fun p => keep p.1.pair) =
        RateLimiter.locks.answers (attempts.filter fun a => keep a.pair) [] := by
  refine ⟨Locks.map_fst_answers [] attempts, ?_, ?_⟩
  · intro before a limited after hrun
    refine ⟨?_, Locks.answers_without horder hrun⟩
    exact Locks.answers_iff Locks.recalls_nil (fun _ _ => Nat.zero_le _) horder hrun
  · intro keep
    have hagree : Locks.Agree keep [] [] 0 := fun _ _ _ _ _ => Iff.rfl
    exact Locks.answers_filter hagree (fun _ _ => Nat.zero_le _) horder

/-- Two callers and windows of all kinds: the second attempt comes a tick too early and asks for a
    longer window in vain, the fifth comes when the first window is over and locks nothing. -/
def knocks : List Attempt := [
  { now := 0, caller := "ann", method := "turn", window := 10 },
  { now := 9999999999, caller := "ann", method := "turn", window := 60 },
  { now := 9999999999, caller := "bob", method := "turn", window := 60 },
  { now := 9999999999, caller := "ann", method := "look", window := 0 },
  { now := 10000000000, caller := "ann", method := "turn", window := 0 },
  { now := 10000000000, caller := "ann", method := "turn", window := 1 }]

theorem locks_are_independent_turnstile :
    InTime knocks ∧
      (RateLimiter.locks.answers knocks []).map (·.2) =
        [false, true, false, false, false, false] ∧
      (∃ last, lastAdmitted ("ann", "turn") ((RateLimiter.locks.answers knocks []).take 1) =
          some last ∧ 9999999999 < last.now + last.window * ticksPerSecond) ∧
      RateLimiter.locks.answers (knocks.eraseIdx 4) [] =
        (RateLimiter.locks.answers knocks []).eraseIdx 4 := by
  have horder : InTime knocks := by decide
  obtain ⟨-, hall, -⟩ := locks_are_independent horder
  have hsecond := hall ((RateLimiter.locks.answers knocks []).take 1)
    { now := 9999999999, caller := "ann", method := "turn", window := 60 } true
    ((RateLimiter.locks.answers knocks []).drop 2) rfl
  have hfifth := hall ((RateLimiter.locks.answers knocks []).take 4)
    { now := 10000000000, caller := "ann", method := "turn", window := 0 } false
    ((RateLimiter.locks.answers knocks []).drop 5) rfl
  exact ⟨horder, rfl, hsecond.1.mp rfl, hfifth.2 (.inr rfl)⟩

end WireContract.Service
