import Mathlib

/-!
# `Lib.Numerals` — numerals of a type with three elements

A numeral of `Fin 3` stands on the fact that three is not zero. It has a name here, so that data with such numerals
is the same term wherever it is written.
-/

instance three_neZero : NeZero 3 := ⟨by decide⟩
