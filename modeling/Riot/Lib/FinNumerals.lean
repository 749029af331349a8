import Mathlib.Data.Fin.Basic

/-
  Instances for finite types of fixed sizes.
-/

----
-- Numerals and Equality
----

instance neZeroTwo :
    @NeZero Nat Zero.ofOfNat0 2 :=
  ⟨by decide⟩

instance neZeroFour :
    @NeZero Nat Zero.ofOfNat0 4 :=
  ⟨by decide⟩

instance neZeroSixteen :
    @NeZero Nat Zero.ofOfNat0 16 :=
  ⟨by decide⟩

instance finLawfulBEq
    {n : Nat} :
    LawfulBEq (Fin n) :=
  inferInstance
