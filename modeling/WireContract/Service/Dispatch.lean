import WireContract.Registry
import WireContract.Service.Credentials
import WireContract.Service.Fault
import WireContract.Service.RateLimit

/-!
# From a request to a response

A request is checked in a fixed order -- method, rate limit, parameters, session -- and the first
check that fails is the answer. What passed them all is a call; the handler gets it, and its result
is checked and sent.

* `Dispatcher.prepare`: the checks;
* `Dispatcher.dispatch`: the checks, the handler and the response. The handler runs in any monad,
  so that what it does besides is not this library's business.
-/

namespace WireContract.Service

/-- A request, as the transport hands it over. -/
structure Request where
  route : String
  body : List UInt8 := []
  /-- The address of the caller. -/
  peer : String := ""
  cookie : Option String := none
  deriving Repr

/-- A request that passed all checks, for the handler. -/
structure Call (S : Type) where
  method : Method
  arguments : Arguments
  /-- Present only if the method asks for it. -/
  session : Option S
  /-- Present exactly if the method asks for them. -/
  credentials : Option Credentials
  deriving Repr

/-- What the client gets. -/
structure Response where
  status : Nat
  body : String
  setCookies : List String := []
  deriving DecidableEq, Repr

/-- The response to a request without a result. -/
def Fault.response (f : Fault) : Response :=
  { status := f.status, body := f.publicMessage }

/-- What the handler leaves: its result or the reason why there is none, and the credentials of
    the call with its changes. -/
structure Handled where
  result : Except String Json
  credentials : Option Credentials

/-- A registry with the server's sessions and its rate limiter. -/
structure Dispatcher (σ S : Type) where
  registry : Registry
  sessions : String → Option S
  limiter : RateLimiter σ

namespace Dispatcher

variable {σ S : Type}

/-- The method's name in a route: one slash in front does not count. -/
def routeName (route : String) : String :=
  match route.toList with
  | '/' :: rest => String.ofList rest
  | _ => route

/-- Ask the limiter, if the method has a window. -/
def limits (d : Dispatcher σ S) (now : Nat) (request : Request) (m : Method) (s : σ) : Bool × σ :=
  if 0 < m.rateLimit then
    d.limiter.limits now request.peer (routeName request.route) m.rateLimit s
  else (false, s)

/-- The arguments in the body. -/
def arguments (d : Dispatcher σ S) (request : Request) (m : Method) : Except Fault Arguments :=
  match m.decode d.registry.types request.body with
  | .ok arguments => .ok arguments
  | .error (.schema fault) => .error (.schema fault)
  | .error source => .error (.invalidParameters m.name source)

/-- The session of the credentials, where the method wants one. -/
def session (d : Dispatcher σ S) (m : Method) (c : Credentials) : Except Fault (Option S) :=
  if m.usesSession then
    match c.sessionId?.bind d.sessions with
    | some session => .ok (some session)
    | none => if m.sessionOptional then .ok none else .error (.invalidSession m.name)
  else .ok none

/-- The checks behind the rate limit. -/
def admitted (d : Dispatcher σ S) (request : Request) (m : Method) : Except Fault (Call S) := do
  let arguments ← d.arguments request m
  let credentials := Credentials.ofHeader? request.cookie
  let session ← d.session m credentials
  return { method := m, arguments, session,
           credentials := if m.usesCredentials then some credentials else none }

/-- All checks. -/
def prepare (d : Dispatcher σ S) (now : Nat) (request : Request) (s : σ) :
    Except Fault (Call S) × σ :=
  let name := routeName request.route
  match d.registry.method? name with
  | none => (.error (.unknownMethod name), s)
  | some m =>
    match d.limits now request m s with
    | (true, s) => (.error (.rateLimited m.name request.peer), s)
    | (false, s) => (d.admitted request m, s)

/-- The response to a call that was handled. -/
def respond (d : Dispatcher σ S) (m : Method) (h : Handled) : Except Fault Response :=
  match h.result with
  | .error reason => .error (.handler m.name reason)
  | .ok result =>
    match m.encode d.registry.types result with
    | .ok body => .ok { status := 200, body, setCookies := (h.credentials.map (·.queued)).getD [] }
    | .error (.schema fault) => .error (.schema fault)
    | .error source => .error (.invalidResult m.name source)

/-- Check a request, let the handler run, and check what it returns. -/
def dispatch {m : Type → Type} [Monad m] (d : Dispatcher σ S) (now : Nat) (request : Request)
    (handler : Call S → m Handled) (s : σ) : m (Except Fault Response × σ) :=
  match d.prepare now request s with
  | (.error fault, s) => pure (.error fault, s)
  | (.ok call, s) => do
    let handled ← handler call
    return (d.respond call.method handled, s)

end Dispatcher

end WireContract.Service
