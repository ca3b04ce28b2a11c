import WireContract.Proofs.Service.Locks
import WireContract.Proofs.Service.SchemaFree

/-!
# Rate limits over a run of requests

Requests of any peers to any methods arrive at one dispatcher, and all of them share one table of
locks. Still every peer has the window of every method for itself: whether a request is limited
depends on nothing but the earlier requests of its own peer to its own method.

* `Dispatcher.serve`: a run of requests, each checked only or handled by a handler of its own;
* `Dispatcher.stops`: what the limiter says to a request and remembers of it, all that the run
  depends on (`answer_stops`, `serve_verdicts`);
* `verdicts_iff`: the table of locks tied to the history of the run;
* `verdicts_alone`: the requests of one peer to one method, alone;
* `limited_iff_window_taken`: both together, for any run.
-/

namespace WireContract.Service

/-! ## 1. Runs -/

/-- A request as it arrives: what the clock shows, and the handler for its call. Without one the
    request is only checked. -/
structure Arrival (S : Type) (e : Type → Type) where
  now : Nat
  request : Request
  handler : Option (Call S → e Handled) := none

/-- What a request gets: a call, if it was only to be checked, or a response. -/
abbrev Answer (S : Type) := Except Fault (Call S ⊕ Response)

/-- The name under which a request looks for its method. -/
def Arrival.methodName {S : Type} {e : Type → Type} (a : Arrival S e) : String :=
  Dispatcher.routeName a.request.route

/-- Whether a request comes of a peer and names a method. -/
def Arrival.concerns {S : Type} {e : Type → Type} (a : Arrival S e) (peer name : String) : Bool :=
  a.request.peer == peer && a.methodName == name

/-- Whether a fault is that a rate limit is exceeded. -/
def Fault.isLimit : Fault → Bool
  | .rateLimited _ _ => true
  | _ => false

/-- Whether an answer is that a rate limit is exceeded. -/
def isLimited {α : Type} : Except Fault α → Bool
  | .ok _ => false
  | .error fault => fault.isLimit

/-- Arrivals at a clock that does not run backwards. -/
def InOrder {S : Type} {e : Type → Type} (arrivals : List (Arrival S e)) : Prop :=
  arrivals.Pairwise fun a b => a.now ≤ b.now

namespace Dispatcher

section Definitions

variable {σ S : Type} {e : Type → Type}

section Effects

variable [Monad e]

/-- Check a request, and handle it if there is a handler. -/
def answer (d : Dispatcher σ S) (a : Arrival S e) (s : σ) : e (Answer S × σ) :=
  match a.handler with
  | none =>
    let (outcome, s) := d.prepare a.now a.request s
    pure (outcome.map .inl, s)
  | some handler =>
    (fun (outcome, s) => (outcome.map .inr, s)) <$> d.dispatch a.now a.request handler s

/-- A run of requests, each with its answer. -/
def serve (d : Dispatcher σ S) :
    List (Arrival S e) → σ → e (List (Arrival S e × Answer S) × σ)
  | [], s => pure ([], s)
  | a :: rest, s => do
    let (first, s) ← d.answer a s
    let (others, s) ← serve d rest s
    return ((a, first) :: others, s)

end Effects

/-- What the limiter says to a request, and what it remembers then. It is asked only about methods
    with a window. -/
def stops (d : Dispatcher σ S) (now : Nat) (request : Request) (s : σ) : Bool × σ :=
  match d.registry.method? (routeName request.route) with
  | none => (false, s)
  | some m => d.limits now request m s

/-- What the limiter says to the requests of a run. -/
def verdicts (d : Dispatcher σ S) : List (Arrival S e) → σ → List (Arrival S e × Bool)
  | [], _ => []
  | a :: rest, s =>
    (a, (d.stops a.now a.request s).1) :: verdicts d rest (d.stops a.now a.request s).2

theorem map_fst_verdicts (d : Dispatcher σ S) (arrivals : List (Arrival S e)) (s : σ) :
    (d.verdicts arrivals s).map (·.1) = arrivals := by
  induction arrivals generalizing s with
  | nil => rfl
  | cons a rest ih => rw [verdicts, List.map_cons, ih]

end Definitions

/-! ## 2. What the limiter is asked -/

section Requests

variable {σ S : Type} {d : Dispatcher σ S} {e : Type → Type} [Monad e] [LawfulMonad e]

@[simp] theorem isLimited_map {α β : Type} (outcome : Except Fault α) (f : α → β) :
    isLimited (outcome.map f) = isLimited outcome := by
  cases outcome <;> rfl

/-- The checks behind the rate limit answer with other faults. -/
theorem admitted_not_limited (request : Request) (m : Method) :
    isLimited (d.admitted request m) = false := by
  have harguments : ∀ fault, d.arguments request m = .error fault → fault.isLimit = false := by
    intro fault hfault
    unfold arguments at hfault
    split at hfault <;> cases hfault <;> rfl
  have hsession : ∀ c fault, d.session m c = .error fault → fault.isLimit = false := by
    intro c fault hfault
    unfold session at hfault
    split at hfault
    · split at hfault
      · cases hfault
      · split at hfault <;> cases hfault
        rfl
    · cases hfault
  obtain ⟨fault, hfault, h⟩ | ⟨c, fault, hfault, h⟩ | ⟨call, -, h⟩ := admitted_cases d request m
  · exact h ▸ harguments fault hfault
  · exact h ▸ hsession c fault hfault
  · exact h ▸ rfl

theorem prepare_stops (now : Nat) (request : Request) (s : σ) :
    isLimited (d.prepare now request s).1 = (d.stops now request s).1 ∧
      (d.prepare now request s).2 = (d.stops now request s).2 := by
  unfold prepare stops
  dsimp only
  cases d.registry.method? (routeName request.route) with
  | none => exact ⟨rfl, rfl⟩
  | some m =>
    dsimp only
    rcases d.limits now request m s with ⟨_ | _, s⟩
    · exact ⟨admitted_not_limited request m, rfl⟩
    · exact ⟨rfl, rfl⟩

/-- A call that was handled is not limited any more. -/
theorem respond_not_limited (m : Method) (h : Handled) : isLimited (d.respond m h) = false := by
  unfold respond
  split
  · rfl
  · split <;> rfl

theorem dispatch_stops (now : Nat) (request : Request) (handler : Call S → e Handled) (s : σ) :
    Always (fun out => isLimited out.1 = (d.stops now request s).1 ∧
      out.2 = (d.stops now request s).2) (d.dispatch now request handler s) := by
  obtain ⟨hlimited, hstate⟩ := prepare_stops (d := d) now request s
  rw [← hlimited, ← hstate]
  unfold dispatch
  rcases d.prepare now request s with ⟨fault | call, s⟩
  · exact .pure ⟨rfl, rfl⟩
  · simp only [bind_pure_comp]
    exact .map (fun handled => ⟨respond_not_limited _ _, rfl⟩) (handler call)

/-- **The limiter alone decides which answer is a limit**, and what it remembers depends on nothing
    that the later checks and the handler do. -/
theorem answer_stops (a : Arrival S e) (s : σ) :
    Always (fun out => isLimited out.1 = (d.stops a.now a.request s).1 ∧
      out.2 = (d.stops a.now a.request s).2) (d.answer a s) := by
  unfold answer
  split
  · refine .pure ?_
    rw [isLimited_map]
    exact prepare_stops a.now a.request s
  · rename_i handler _
    refine (dispatch_stops a.now a.request handler s).map_of fun out h => ?_
    rwa [isLimited_map]

/-- The answers of a run, as far as the limiter has a say in them. -/
theorem serve_verdicts (arrivals : List (Arrival S e)) (s : σ) :
    Always (fun out => out.1.map (fun p => (p.1, isLimited p.2)) = d.verdicts arrivals s)
      (d.serve arrivals s) := by
  induction arrivals generalizing s with
  | nil => exact .pure rfl
  | cons a rest ih =>
    rw [serve, verdicts]
    refine (answer_stops a s).bind fun first hfirst => ?_
    obtain ⟨hlimited, hstate⟩ := hfirst
    refine (ih first.2).bind fun others hothers => .pure ?_
    rw [List.map_cons, hothers, hlimited, hstate]

end Requests

/-! ## 3. One request -/

section Request

variable {S : Type} {d : Dispatcher Locks S} {now time : Nat} {request other : Request}
  {locks : Locks} {peer name : String}

/-- Whether a route names a method with a window. -/
def HasWindow (d : Dispatcher Locks S) (name : String) (m : Method) : Prop :=
  d.registry.method? name = some m ∧ 0 < m.rateLimit

theorem stops_of_hasWindow (hd : d.limiter = .locks) {m : Method}
    (hm : d.HasWindow (routeName request.route) m) :
    d.stops now request locks =
      locks.limits now request.peer (routeName request.route) m.rateLimit := by
  simp only [stops, limits, hm.1, if_pos hm.2, hd, RateLimiter.locks]

/-- Nothing is asked or remembered about a route without a window. -/
theorem stops_of_not_hasWindow (h : ∀ m, ¬ d.HasWindow (routeName request.route) m) :
    d.stops now request locks = (false, locks) := by
  unfold stops
  split
  · rfl
  · rename_i m hm
    exact if_neg fun hpos => h m ⟨hm, hpos⟩

/-- **A request is stopped exactly if it names a method with a window and a lock holds its peer
    back.** -/
theorem stops_iff (hd : d.limiter = .locks) :
    (d.stops now request locks).1 = true ↔
      (∃ m, d.HasWindow (routeName request.route) m) ∧
        locks.Bars request.peer (routeName request.route) now := by
  by_cases hwindow : ∃ m, d.HasWindow (routeName request.route) m
  · obtain ⟨m, hm⟩ := hwindow
    rw [stops_of_hasWindow hd hm, Locks.limits_iff]
    exact (and_iff_right ⟨m, hm⟩).symm
  · rw [stops_of_not_hasWindow (not_exists.mp hwindow)]
    exact iff_of_false Bool.false_ne_true fun h => hwindow h.1

/-- **What a request leaves in the table**: whatever held before it, and if it was let through, a
    window for its peer and its method. -/
theorem bars_stops_iff (hd : d.limiter = .locks) (htime : now ≤ time) :
    (d.stops now request locks).2.Bars peer name time ↔
      locks.Bars peer name time ∨
        (request.peer = peer ∧ routeName request.route = name) ∧
          (d.stops now request locks).1 = false ∧
          ∃ m, d.HasWindow (routeName request.route) m ∧
            time < now + m.rateLimit * ticksPerSecond := by
  by_cases hwindow : ∃ m, d.HasWindow (routeName request.route) m
  · obtain ⟨m, hm⟩ := hwindow
    have hunique : (∃ m', d.HasWindow (routeName request.route) m' ∧
        time < now + m'.rateLimit * ticksPerSecond) ↔
        time < now + m.rateLimit * ticksPerSecond := by
      constructor
      · rintro ⟨m', hm', htime⟩
        exact Option.some.inj (hm'.1.symm.trans hm.1) ▸ htime
      · exact fun htime => ⟨m, hm, htime⟩
    have hfree : (d.stops now request locks).1 = false ↔
        ¬ locks.Bars request.peer (routeName request.route) now := by
      rw [stops_of_hasWindow hd hm, ← Locks.limits_iff, Bool.not_eq_true]
    rw [hunique, hfree, stops_of_hasWindow hd hm, Locks.bars_limits_iff htime]
  · rw [stops_of_not_hasWindow (not_exists.mp hwindow)]
    exact (or_iff_left fun h => hwindow (h.2.2.imp fun m hm => hm.1)).symm

/-- The limiter looks at nothing but the peer and the method. -/
theorem stops_congr (hpeer : request.peer = other.peer)
    (hname : routeName request.route = routeName other.route) :
    d.stops now request locks = d.stops now other locks := by
  unfold stops limits
  rw [hpeer, hname]

end Request

/-! ## 4. The table and the history -/

section Runs

variable {S : Type} {d : Dispatcher Locks S} {e : Type → Type} {arrivals : List (Arrival S e)}
  {past : List (Arrival S e × Bool)} {locks locks' : Locks} {clock : Nat} {peer name : String}

/-- Whether a request let through in the past still holds a peer back from a method. -/
def Recalls (past : List (Arrival S e × Bool)) (peer name : String) (m : Method) (time : Nat) :
    Prop :=
  ∃ p ∈ past, (p.1.request.peer = peer ∧ p.1.methodName = name) ∧ p.2 = false ∧
    time < p.1.now + m.rateLimit * ticksPerSecond

/-- A table that holds, from a time on, exactly the locks that the past accounts for. -/
def Tied (d : Dispatcher Locks S) (past : List (Arrival S e × Bool)) (locks : Locks)
    (clock : Nat) : Prop :=
  ∀ name m, d.HasWindow name m → ∀ peer time, clock ≤ time →
    (locks.Bars peer name time ↔ Recalls past peer name m time)

theorem tied_nil (d : Dispatcher Locks S) :
    d.Tied ([] : List (Arrival S e × Bool)) [] 0 := by
  intro name m _ peer time _
  exact iff_of_false Locks.not_bars_nil fun ⟨_, hp, _⟩ => List.not_mem_nil hp

theorem recalls_concat_iff {last : Arrival S e × Bool} {m : Method} {time : Nat} :
    Recalls (past ++ [last]) peer name m time ↔
      Recalls past peer name m time ∨
        (last.1.request.peer = peer ∧ last.1.methodName = name) ∧ last.2 = false ∧
          time < last.1.now + m.rateLimit * ticksPerSecond := by
  simp only [Recalls, List.mem_append, List.mem_singleton, or_and_right, exists_or,
    exists_eq_left]

/-- One request more keeps the table tied to the past. -/
theorem Tied.stops (hd : d.limiter = .locks) (h : d.Tied past locks clock) {a : Arrival S e}
    (ha : clock ≤ a.now) :
    d.Tied (past ++ [(a, (d.stops a.now a.request locks).1)])
      (d.stops a.now a.request locks).2 a.now := by
  intro name m hm peer time htime
  rw [bars_stops_iff hd htime, recalls_concat_iff, h name m hm peer time (Nat.le_trans ha htime)]
  refine or_congr_right (and_congr_right fun hkey => and_congr_right fun _ => ?_)
  have hname : routeName a.request.route = name := hkey.2
  rw [hname]
  constructor
  · rintro ⟨m', hm', htime⟩
    exact Option.some.inj (hm'.1.symm.trans hm.1) ▸ htime
  · exact fun htime => ⟨m, hm, htime⟩

/-- **In a run whose table is tied to the past, a request is stopped exactly if it names a method
    with a window that its peer has taken and that is not over.** The induction is on the requests
    to come; each one moves from there into the past. -/
theorem verdicts_iff (hd : d.limiter = .locks) (h : d.Tied past locks clock)
    (hclock : ∀ a ∈ arrivals, clock ≤ a.now) (horder : InOrder arrivals)
    {before after : List (Arrival S e × Bool)} {a : Arrival S e} {stopped : Bool}
    (hrun : d.verdicts arrivals locks = before ++ (a, stopped) :: after) :
    stopped = true ↔ ∃ m, d.HasWindow a.methodName m ∧
      Recalls (past ++ before) a.request.peer a.methodName m a.now := by
  induction arrivals generalizing past locks clock before with
  | nil => simp [verdicts] at hrun
  | cons first rest ih =>
    rw [List.forall_mem_cons] at hclock
    obtain ⟨hfirst, hrest⟩ := List.pairwise_cons.mp horder
    rw [verdicts] at hrun
    cases before with
    | nil =>
      obtain ⟨hhead, -⟩ := List.cons.inj hrun
      obtain ⟨rfl, rfl⟩ := Prod.mk.inj hhead
      rw [List.append_nil, stops_iff hd]
      constructor
      · rintro ⟨⟨m, hm⟩, hbars⟩
        exact ⟨m, hm, (h _ m hm _ _ hclock.1).mp hbars⟩
      · rintro ⟨m, hm, hrecalls⟩
        exact ⟨⟨m, hm⟩, (h _ m hm _ _ hclock.1).mpr hrecalls⟩
    | cons p before =>
      obtain ⟨rfl, htail⟩ := List.cons.inj hrun
      have hnext := ih (h.stops hd hclock.1) hfirst hrest htail
      rwa [List.append_assoc] at hnext

/-! ## 5. One peer and one method -/

/-- Two tables that hold one peer back from one method at the same times. -/
def Agree (locks locks' : Locks) (peer name : String) (clock : Nat) : Prop :=
  ∀ time, clock ≤ time → (locks.Bars peer name time ↔ locks'.Bars peer name time)

/-- **The requests of one peer to one method are stopped as if they were alone.** -/
theorem verdicts_alone (hd : d.limiter = .locks) (h : Agree locks locks' peer name clock)
    (hclock : ∀ a ∈ arrivals, clock ≤ a.now) (horder : InOrder arrivals) :
    (d.verdicts arrivals locks).filter (·.1.concerns peer name) =
      d.verdicts (arrivals.filter (·.concerns peer name)) locks' := by
  induction arrivals generalizing locks locks' clock with
  | nil => rfl
  | cons a rest ih =>
    rw [List.forall_mem_cons] at hclock
    obtain ⟨hfirst, hrest⟩ := List.pairwise_cons.mp horder
    rw [verdicts]
    by_cases hkey : a.concerns peer name = true
    · simp only [List.filter_cons, hkey, if_true, verdicts]
      obtain ⟨hpeer, hname⟩ : a.request.peer = peer ∧ routeName a.request.route = name := by
        simpa [Arrival.concerns, Arrival.methodName] using hkey
      have hsame : (d.stops a.now a.request locks).1 = (d.stops a.now a.request locks').1 := by
        rw [Bool.eq_iff_iff, stops_iff hd, stops_iff hd, hpeer, hname, h a.now hclock.1]
      have hagree : Agree (d.stops a.now a.request locks).2 (d.stops a.now a.request locks').2
          peer name a.now := by
        intro time htime
        rw [bars_stops_iff hd htime, bars_stops_iff hd htime, hsame,
          h time (Nat.le_trans hclock.1 htime)]
      rw [hsame, ih hagree hfirst hrest]
    · simp only [List.filter_cons, hkey]
      refine ih (fun time htime => ?_) hfirst hrest
      rw [bars_stops_iff hd htime, h time (Nat.le_trans hclock.1 htime)]
      refine or_iff_left fun hnew => hkey ?_
      simp [Arrival.concerns, Arrival.methodName, hnew.1]

/-- Requests of one peer to one method that come at the same times are stopped alike, whatever
    else they bring. -/
theorem verdicts_congr {others : List (Arrival S e)}
    (harrivals : ∀ a ∈ arrivals, a.concerns peer name = true)
    (hothers : ∀ a ∈ others, a.concerns peer name = true)
    (htimes : others.map (·.now) = arrivals.map (·.now)) (locks : Locks) :
    (d.verdicts others locks).map (·.2) = (d.verdicts arrivals locks).map (·.2) := by
  induction arrivals generalizing others locks with
  | nil =>
    obtain rfl := List.map_eq_nil_iff.mp htimes
    rfl
  | cons a rest ih =>
    obtain ⟨other, more, rfl, hnow, hmore⟩ := List.map_eq_cons_iff.mp htimes
    rw [List.forall_mem_cons] at harrivals hothers
    have hkeys : other.request.peer = a.request.peer ∧ other.methodName = a.methodName := by
      have ha := harrivals.1
      have hother := hothers.1
      simp only [Arrival.concerns, Bool.and_eq_true, beq_iff_eq] at ha hother
      exact ⟨hother.1.trans ha.1.symm, hother.2.trans ha.2.symm⟩
    have hstops : d.stops other.now other.request locks = d.stops a.now a.request locks := by
      rw [hnow]
      exact stops_congr hkeys.1 hkeys.2
    rw [verdicts, verdicts, List.map_cons, List.map_cons, hstops,
      ih harrivals.2 hothers.2 hmore]

/-- What is answered to the requests of one peer to one method, in a run with any others. -/
theorem limited_alone (hd : d.limiter = .locks) {log : List (Arrival S e × Answer S)}
    (horder : InOrder arrivals)
    (hlog : log.map (fun p => (p.1, isLimited p.2)) = d.verdicts arrivals []) :
    (log.filter (·.1.concerns peer name)).map (isLimited ·.2) =
      (d.verdicts (arrivals.filter (·.concerns peer name)) []).map (·.2) := by
  have hagree : Agree [] [] peer name 0 := fun _ _ => Iff.rfl
  rw [← verdicts_alone hd hagree (fun _ _ => Nat.zero_le _) horder, ← hlog, List.filter_map,
    List.map_map]
  rfl

end Runs

end Dispatcher

/-! ## 6. Any run -/

open Dispatcher

/-- **A request is limited exactly if its peer has taken the window of its method before, and the
    window is not over**: if its route names a method with a window, and an earlier request of its
    peer that named the same method was not limited, whatever came of it later. What other peers
    ask, and what is asked of other methods, changes nothing: in any two runs in which the requests
    of one peer to one method come at the same times, the same of them are limited. -/
theorem limited_iff_window_taken {S : Type} {e : Type → Type} [Monad e] [LawfulMonad e]
    {d : Dispatcher Locks S} (hd : d.limiter = .locks) {arrivals : List (Arrival S e)}
    (horder : InOrder arrivals) :
    Always (fun out =>
      out.1.map (·.1) = arrivals ∧
      (∀ before a answer after, out.1 = before ++ (a, answer) :: after →
        (isLimited answer = true ↔
          ∃ m, d.registry.method? a.methodName = some m ∧ 0 < m.rateLimit ∧
            ∃ p ∈ before, p.1.request.peer = a.request.peer ∧ p.1.methodName = a.methodName ∧
              isLimited p.2 = false ∧ a.now < p.1.now + m.rateLimit * ticksPerSecond)) ∧
      ∀ peer name (others : List (Arrival S e)), InOrder others →
        (others.filter (·.concerns peer name)).map (·.now) =
          (arrivals.filter (·.concerns peer name)).map (·.now) →
        Always (fun out' =>
          (out'.1.filter (·.1.concerns peer name)).map (isLimited ·.2) =
            (out.1.filter (·.1.concerns peer name)).map (isLimited ·.2))
          (d.serve others []))
      (d.serve arrivals []) := by
  refine (serve_verdicts arrivals []).mono fun out hout => ⟨?_, ?_, ?_⟩
  · have harrivals := map_fst_verdicts d arrivals []
    rwa [← hout, List.map_map] at harrivals
  · intro before a answer after hsplit
    rw [hsplit, List.map_append, List.map_cons] at hout
    rw [verdicts_iff hd (tied_nil d) (fun _ _ => Nat.zero_le _) horder hout.symm]
    simp only [HasWindow, Recalls, List.nil_append, List.mem_map, exists_exists_and_eq_and,
      and_assoc]
  · intro peer name others hothers htimes
    refine (serve_verdicts others []).mono fun out' hout' => ?_
    rw [limited_alone hd hothers hout', limited_alone hd horder hout]
    exact verdicts_congr (fun a ha => (List.mem_filter.mp ha).2)
      (fun a ha => (List.mem_filter.mp ha).2) htimes []

/-- A service with one method, open to a caller every ten seconds. -/
def turnstile : Dispatcher Locks String where
  registry :=
    { types := { slots := [.defined (.struct { name := "TurnParameters" })] }
      methods := [
        { params := 0
          returns := .absent
          name := "turn"
          doc := none
          usesSession := false
          sessionOptional := false
          usesCredentials := false
          rateLimit := 10 }] }
  sessions _ := none
  limiter := .locks

/-- Two callers, of whom one comes again too early and once more when the ten seconds are over.
    None of them brings a body that can be read. -/
def visits : List (Arrival String Id) := [
  { now := 0, request := { route := "/turn", peer := "ann" } },
  { now := 9999999999, request := { route := "turn", peer := "ann" } },
  { now := 9999999999, request := { route := "/turn", peer := "bob" } },
  { now := 10000000000, request := { route := "turn", peer := "ann" } }]

theorem limited_iff_window_taken_turnstile :
    (turnstile.serve visits [] : Id _).1.map (isLimited ·.2) = [false, true, false, false] ∧
      ∃ m, turnstile.registry.method? "turn" = some m ∧ 0 < m.rateLimit ∧
        ∃ p ∈ (turnstile.serve visits [] : Id _).1.take 1, p.1.request.peer = "ann" ∧
          p.1.methodName = "turn" ∧ isLimited p.2 = false ∧
          9999999999 < p.1.now + m.rateLimit * ticksPerSecond := by
  have horder : InOrder visits := by simp [InOrder, visits]
  obtain ⟨-, hall, -⟩ := (limited_iff_window_taken (d := turnstile) rfl horder).of_id
  have hsecond := hall ((turnstile.serve visits [] : Id _).1.take 1)
    { now := 9999999999, request := { route := "turn", peer := "ann" } }
    (.error (.rateLimited "turn" "ann")) ((turnstile.serve visits [] : Id _).1.drop 2) rfl
  exact ⟨rfl, hsecond.mp rfl⟩

end WireContract.Service
