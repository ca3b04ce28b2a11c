import WireContract.Wire.Fault

/-!
# Faults of a request

Why a request is not answered with a result: for the log in full, for the client as a status and a
few words that give nothing away.
-/

namespace WireContract.Service

/-- Why a request gets no result. -/
inductive Fault where
  | unknownMethod (route : String)
  | rateLimited (method caller : String)
  | invalidParameters (method : String) (source : Wire.Fault)
  | invalidSession (method : String)
  | handler (method : String) (reason : String)
  | invalidResult (method : String) (source : Wire.Fault)
  | schema (fault : SchemaFault)
  deriving Repr

namespace Fault

/-- The words for a fault. -/
def message : Fault → String
  | .unknownMethod route => "method `" ++ route ++ "` does not exist"
  | .rateLimited method caller => "rate limit exceeded for `" ++ method ++ "` by " ++ caller
  | .invalidParameters method source =>
    "invalid parameters for `" ++ method ++ "`: " ++ source.message
  | .invalidSession method => "invalid session for `" ++ method ++ "`"
  | .handler method reason => "`" ++ method ++ "` failed: " ++ reason
  | .invalidResult method source =>
    "`" ++ method ++ "` returned a value outside its declared type: " ++ source.message
  | .schema fault => fault.message

/-- The status of the response. -/
def status : Fault → Nat
  | .unknownMethod _ => 400
  | .invalidParameters _ _ => 400
  | .invalidSession _ => 401
  | .rateLimited _ _ => 429
  | .handler _ _ => 500
  | .invalidResult _ _ => 500
  | .schema _ => 500

/-- The words for the client. -/
def publicMessage : Fault → String
  | .unknownMethod _ => "Method does not exist"
  | .rateLimited _ _ => "Rate limit exceeded"
  | .invalidParameters _ _ => "Invalid parameters"
  | .invalidSession _ => "Invalid session"
  | .handler _ _ => "Internal server error"
  | .invalidResult _ _ => "Internal server error"
  | .schema _ => "Internal server error"

end Fault

end WireContract.Service
