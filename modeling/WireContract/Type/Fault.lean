/-!
# Faults of a schema

What can be wrong with the types and methods of a service themselves. None of these passes by
trying again: each says that something is declared that cannot be written faithfully.
-/

namespace WireContract

/-- A fault of declared types or methods. -/
inductive SchemaFault where
  | unsupportedType (shown : String)
  | unsupportedLiteral (shown : String)
  | aliasCycle (names : List String)
  | genericArity (name : String) (expected found : Nat)
  | duplicateDefinition (name : String)
  | undefinedDefinition (name : String)
  | unknownDefinition (id : Nat)
  | duplicateMethod (name : String)
  | parametersNotStruct (name : String)
  | invalidIdentifier (name : String)
  deriving DecidableEq, Repr

/-- The words for a fault. -/
def SchemaFault.message : SchemaFault → String
  | .unsupportedType shown => "unsupported type: " ++ shown
  | .unsupportedLiteral shown => "unsupported literal type: " ++ shown
  | .aliasCycle names =>
    "type alias refers to itself without an intervening interface: " ++
      String.intercalate " -> " names
  | .genericArity name expected found =>
    "`" ++ name ++ "` expects " ++ toString expected ++ " type argument(s), got " ++ toString found
  | .duplicateDefinition name => "type `" ++ name ++ "` is declared more than once"
  | .undefinedDefinition name => "type `" ++ name ++ "` was declared but never defined"
  | .unknownDefinition id =>
    "definition #" ++ toString id ++ " does not belong to this table"
  | .duplicateMethod name => "method `" ++ name ++ "` is registered more than once"
  | .parametersNotStruct name => "parameters type `" ++ name ++ "` is not an interface"
  | .invalidIdentifier name => "`" ++ name ++ "` is not a valid identifier"

end WireContract
