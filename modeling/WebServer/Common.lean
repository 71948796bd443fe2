import Mathlib.Algebra.Group.Int.Defs
import Mathlib.Algebra.GroupWithZero.Nat
import Mathlib.Data.List.Basic
import Mathlib.Tactic.Common

/-
  Bytes and machine integers shared by both servers.

  Strings are lists of bytes. An `int` is an `Int` and a
  `size_t` a `Nat`; conversions between them wrap, and an
  `int` operation that overflows has no result.

  Key definitions include:
    * `Bytes`
    * `toInt32`
    * `toSize`
    * `addInt32`
    * `subInt32`
-/

------------------------------------------------------------
-- Bytes
------------------------------------------------------------

namespace WebServer

abbrev Byte := UInt8

abbrev Bytes := List Byte

/- The bytes of a string literal of the source. -/
def utf8
    (s : String) : Bytes :=
  s.toUTF8.data.toList

end WebServer

------------------------------------------------------------
-- Machine Integers
------------------------------------------------------------

namespace WebServer

/- Conversion of an integer value to `int`. -/
def toInt32
    (n : Int) : Int :=
  Int.bmod n (2 ^ 32)

/- Conversion of an integer value to `size_t`. -/
def toSize
    (n : Int) : Nat :=
  (n % 2 ^ 64).toNat

/- The values of `int`. -/
def IsInt32
    (n : Int) : Prop :=
  -2 ^ 31 ≤ n ∧ n < 2 ^ 31

instance
    (n : Int) : Decidable (IsInt32 n) :=
  inferInstanceAs (Decidable (_ ∧ _))

/- `x + y` on `int`. -/
def addInt32
    (x y : Int) : Option Int :=
  if IsInt32 (x + y) then some (x + y) else none

/- `x - y` on `int`. -/
def subInt32
    (x y : Int) : Option Int :=
  if IsInt32 (x - y) then some (x - y) else none

theorem isInt32_toInt32
    (n : Int) :
    IsInt32 (toInt32 n) := by
  unfold IsInt32 toInt32
  exact
    ⟨Int.le_bmod (by decide), Int.bmod_lt (by decide)⟩

theorem toInt32_of_isInt32
    {n : Int}
    (h : IsInt32 n) :
    toInt32 n = n := by
  unfold IsInt32 at h
  unfold toInt32
  rw [Int.bmod_def]
  omega

/- A number does not grow when it wraps. -/
theorem toNat_toInt32_le
    (n : Nat) :
    (toInt32 n).toNat ≤ n := by
  unfold toInt32
  rw [Int.bmod_def]
  omega

theorem toSize_of_nonneg
    {n : Int}
    (hNonneg : 0 ≤ n)
    (hSmall : n < 2 ^ 64) :
    toSize n = n.toNat := by
  unfold toSize
  rw [Int.emod_eq_of_lt hNonneg hSmall]

theorem addInt32_of_isInt32
    {x y : Int}
    (h : IsInt32 (x + y)) :
    addInt32 x y = some (x + y) :=
  if_pos h

theorem subInt32_of_isInt32
    {x y : Int}
    (h : IsInt32 (x - y)) :
    subInt32 x y = some (x - y) :=
  if_pos h

end WebServer
