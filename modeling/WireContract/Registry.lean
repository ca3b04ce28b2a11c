import WireContract.Text.Words
import WireContract.Type.Table
import WireContract.Wire.Codec

/-!
# The registry of methods

A method is declared by its signature. Two parameter names are special: `session` and
`credentials` are supplied by the server and do not travel. The other parameters become the fields
of ONE struct, named after the method, from which both the codec and the client's interface are
made.

* `Signature.fields` and its neighbours: what a signature says;
* `Registry.register`: a signature becomes a method, or the registry stays as it was.
-/

namespace WireContract

/-! ## 1. Signatures -/

/-- A parameter of a method. -/
structure Param where
  name : String
  ty : Ty
  default : Option Json := none
  deriving Repr

/-- A method as it is declared. -/
structure Signature where
  name : String
  doc : Option String := none
  params : List Param := []
  returns : Ty
  rateLimit : Nat := 0
  deriving Repr

/-- The parameter that receives the caller's session. -/
def sessionParameter : String := "session"

/-- The parameter that receives the caller's credentials. -/
def credentialsParameter : String := "credentials"

/-- Whether the server supplies the parameter. -/
def Param.isSupplied (p : Param) : Bool :=
  p.name == sessionParameter || p.name == credentialsParameter

/-- The field of the parameter struct; a default makes it optional. -/
def Param.field (p : Param) : Field :=
  { name := p.name, ty := p.ty, optional := p.default.isSome, default := p.default }

/-- The name of the struct that holds a method's parameters. -/
def parametersTypeName (method : String) : String :=
  Text.upperCamel method ++ "Parameters"

namespace Signature

/-- The fields of the parameter struct: the parameters that travel, in order. -/
def fields (s : Signature) : List Field :=
  (s.params.filter fun p => !p.isSupplied).map Param.field

/-- The struct that holds the parameters. -/
def parameters (s : Signature) : StructDef :=
  { name := parametersTypeName s.name, fields := s.fields }

/-- The types of the parameters that receive the session, in order. -/
def sessionTypes (s : Signature) : List Ty :=
  (s.params.filter fun p => p.name == sessionParameter).map (·.ty)

def usesSession (s : Signature) : Bool := !s.sessionTypes.isEmpty

/-- Whether the method may be called without a session; of several session parameters the last
    one decides. -/
def sessionOptional (s : Signature) : Bool :=
  s.sessionTypes.getLast?.any Ty.admitsAbsence

def usesCredentials (s : Signature) : Bool :=
  s.params.any fun p => p.name == credentialsParameter

end Signature

/-! ## 2. Methods -/

/-- A registered method; its name is also its route. -/
structure Method extends Codec where
  name : String
  doc : Option String
  usesSession : Bool
  sessionOptional : Bool
  usesCredentials : Bool
  /-- Seconds that have to pass between two calls of one caller; zero for no limit. -/
  rateLimit : Nat
  deriving Repr

/-- The method of a signature, given the number of its parameter struct. -/
def Signature.method (s : Signature) (params : DefId) : Method :=
  { params
    returns := s.returns
    name := s.name
    doc := s.doc
    usesSession := s.usesSession
    sessionOptional := s.sessionOptional
    usesCredentials := s.usesCredentials
    rateLimit := s.rateLimit }

/-- Methods in order of registration, and the definitions their types refer to. -/
structure Registry where
  types : TypeTable := {}
  methods : List Method := []
  deriving Repr

namespace Registry

/-- The registry over a table, without a method. -/
def ofTypes (types : TypeTable) : Registry := { types }

/-- The number of methods. -/
def size (r : Registry) : Nat := r.methods.length

/-- The method of a name. -/
def method? (r : Registry) (name : String) : Option Method :=
  r.methods.find? fun m => m.name == name

/-- Register a signature. -/
def register (r : Registry) (s : Signature) : Except SchemaFault (Method × Registry) :=
  if !Text.isIdentifier s.name then .error (.invalidIdentifier s.name)
  else if (r.method? s.name).isSome then .error (.duplicateMethod s.name)
  else
    match r.types.insert (.struct s.parameters) with
    | .error fault => .error fault
    | .ok (params, types) =>
      .ok (s.method params, { types, methods := r.methods ++ [s.method params] })

end Registry

end WireContract
