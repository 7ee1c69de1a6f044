import Mathlib.Data.List.Basic

/-!
# Texts, character by character

What holds of every character of a text is decided along the text, not over all the
characters there are.
-/
namespace Eunha.Chars

instance decidableForallMem {p : Char → Prop} [DecidablePred p] (text : List Char) :
    Decidable (∀ c ∈ text, p c) :=
  List.decidableBAll p text

instance lawfulText : LawfulBEq (List Char) := inferInstance

end Eunha.Chars
