import WireContract.Json.Reader
import WireContract.Wire.Check

/-!
# The codec of a method

A method's parameters are the fields of one struct, its result has a type. `decode` reads a body
into arguments, `encode` checks a result and writes it.
-/

namespace WireContract

/-- What the wire needs to know of a method: the struct of its parameters and the type of its
    result. -/
structure Codec where
  params : DefId
  returns : Ty
  deriving Repr

/-- Arguments in the order of the declared parameters, defaults filled in. -/
abbrev Arguments := Entries Json

namespace Codec

/-- The arguments that a JSON value holds. -/
def arguments (codec : Codec) (types : TypeTable) (v : Json) : Except Wire.Fault Arguments :=
  match types.get codec.params with
  | .error fault => .error (.schema fault)
  | .ok (.struct s) => Wire.checkFields (Wire.checkFrom types 0) s [] v []
  | .ok other => .error (.schema (.parametersNotStruct other.name))

/-- The arguments that a body holds. -/
def decode (codec : Codec) (types : TypeTable) (body : List UInt8) :
    Except Wire.Fault Arguments :=
  match Json.read body with
  | .error error => .error (.notJson error)
  | .ok v => codec.arguments types v

/-- The result as it is sent, checked against its type. -/
def encode (codec : Codec) (types : TypeTable) (result : Json) : Except Wire.Fault String :=
  (Wire.checkFrom types 0 codec.returns result []).map Json.render

end Codec

end WireContract
