import WireContract.Bindings.TypeText
import WireContract.Registry
import WireContract.Type.AliasCycle

/-!
# Declarations and wrappers

The two kinds of blocks that client code is made of: a declaration of a definition (an interface,
an enumeration, a type alias) and, for every method, a function that wraps the call.
-/

namespace WireContract

/-- Settings of the generated client code. -/
structure Bindings.Options where
  /-- Written at the top, as it stands. -/
  preamble : String := ""
  /-- The expression that every wrapper calls with the method's name and its parameters. -/
  dispatch : String := "app.method"
  /-- The generic type around every result type. -/
  resultType : String := "MethodResult"
  /-- Spaces per level of indentation. -/
  indent : Nat := 4
  deriving DecidableEq, Repr

namespace Bindings

open Draft

/-- The greatest number of bytes that a text can have. How much memory there is for one is left
    out. -/
def textLimit : Nat := 9223372036854775807

/-- Whether one level of indentation can be a text at all. -/
def Options.Fits (o : Options) : Prop := o.indent ≤ textLimit

instance (o : Options) : Decidable o.Fits := inferInstanceAs (Decidable (o.indent ≤ textLimit))

/-- One level of indentation. It is for options that fit; nothing is written under others. -/
def Options.indentation (o : Options) : String :=
  String.ofList (List.replicate o.indent ' ')

/-- The type parameters in a header. -/
def headerParameters (generics : List String) : String :=
  if generics.isEmpty then "" else "<" ++ String.intercalate ", " generics ++ ">"

/-! ## 1. Declarations -/

/-- One line of an interface. -/
def interfaceLine (types : TypeTable) (indentation : String) (field : Field) : Draft :=
  write indentation ++ fieldText types field ++ write "\n"

/-- A struct as an interface. -/
def interfaceText (types : TypeTable) (indentation : String) (s : StructDef) : Draft :=
  comment s.doc "" ++ write ("export interface " ++ s.name ++ headerParameters s.generics) ++
    (if s.fields.isEmpty then write " \x7b\x7d\n"
     else
      write " \x7b\n" ++ concat (s.fields.map (interfaceLine types indentation)) ++
        write "\x7d\n")

/-- One line of an enumeration. -/
def enumerationLine (indentation : String) (m : EnumMember) : Draft :=
  write (indentation ++ m.name ++ " = ") ++ literal m.value ++ write ",\n"

/-- An enumeration. -/
def enumerationText (indentation : String) (e : EnumDef) : Draft :=
  comment e.doc "" ++ write ("export enum " ++ e.name ++ " \x7b\n") ++
    concat (e.members.map (enumerationLine indentation)) ++ write "\x7d\n"

/-- An alias. -/
def aliasText (types : TypeTable) (a : AliasDef) : Draft :=
  write ("export type " ++ a.name ++ headerParameters a.generics ++ " = ") ++
    typeText types a.ty ++ write ";\n"

/-- The declaration of a definition. An alias on a cycle of aliases cannot be declared. -/
def declarationText (types : TypeTable) (indentation : String) (id : DefId) : Draft :=
  match types.get id with
  | .error fault => fail fault
  | .ok (.struct s) => interfaceText types indentation s
  | .ok (.enumeration e) => enumerationText indentation e
  | .ok (.alias a) =>
    match types.aliasCycle id with
    | .error fault => fail fault
    | .ok (some names) => fail (.aliasCycle names)
    | .ok none => aliasText types a

/-! ## 2. Wrappers -/

/-- The wrapper of a method whose parameters may all be left out (`omissible`) or not. -/
def wrapperBody (types : TypeTable) (options : Options) (m : Method) (omissible : Bool) : Draft :=
  comment m.doc "" ++ write ("export async function " ++ m.name ++ "(parameters: ") ++
    typeText types (.reference m.params) ++ write (if omissible then " = \x7b\x7d" else "") ++
    write ("): Promise<" ++ options.resultType ++ "<") ++ typeText types m.returns ++
    write ">> \x7b\n" ++
    write (options.indentation ++ "return await " ++ options.dispatch ++ "(") ++
    literal (.string m.name) ++ write ", parameters);\n\x7d\n"

/-- The wrapper of a method. Parameters that may all be left out may be left out as a whole. -/
def wrapperText (types : TypeTable) (options : Options) (m : Method) : Draft :=
  match types.get m.params with
  | .error fault => fail fault
  | .ok (.struct s) => wrapperBody types options m (s.requiredFields == 0)
  | .ok other => fail (.parametersNotStruct other.name)

end Bindings

end WireContract
