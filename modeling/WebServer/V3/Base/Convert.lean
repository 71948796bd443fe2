import WebServer.Library.CString
import WebServer.Library.DecimalText
import WebServer.Common

/-
  The integer printer of the version 3.0 logger
  (`convert` in `base/LogStream.cpp`).

  The loop writes the last digit first, through a table that
  has a digit for every remainder from -9 to 9, and the
  result is reversed in place. An arithmetic result outside
  of the type, a read outside of the table and a write
  outside of the buffer have no result.

  Key definitions include:
    * `IntType`
    * `convertLoop`
    * `convert`

  Key theorems include:
    * `convertLoop_of_room`
    * `convert_of_room`
    * `convert_exact`
-/

------------------------------------------------------------
-- Integer Types
------------------------------------------------------------

namespace WebServer

namespace V3

/- An integer type, `T`. -/
structure IntType where
  signed : Bool
  bits : Nat
  hBits : 0 < bits ∧ bits ≤ 64

namespace IntType

/- The values of the type. -/
def Holds
    (ty : IntType)
    (v : Int) : Prop :=
  if ty.signed then
    -2 ^ (ty.bits - 1) ≤ v ∧ v < 2 ^ (ty.bits - 1)
  else
    0 ≤ v ∧ v < 2 ^ ty.bits

instance
    (ty : IntType)
    (v : Int) : Decidable (ty.Holds v) :=
  inferInstanceAs (Decidable (ite _ _ _))

abbrev Value
    (ty : IntType) : Type :=
  { v : Int // ty.Holds v }

/- A result of the type, if it is one. -/
def checked
    (ty : IntType)
    (v : Int) : Option Int :=
  if ty.Holds v then some v else none

/- `x % y`, which has the sign of `x`. -/
def rem
    (ty : IntType)
    (x y : Int) : Option Int :=
  ty.checked (x.tmod y)

/- `x / y`, which is rounded towards zero. -/
def div
    (ty : IntType)
    (x y : Int) : Option Int :=
  ty.checked (x.tdiv y)

/- `int`. -/
def int : IntType where
  signed := true
  bits := 32
  hBits := by decide

end IntType

end V3

end WebServer

------------------------------------------------------------
-- The Printer
------------------------------------------------------------

namespace WebServer

namespace V3

/- `digits`, with its terminator. -/
def digits : Bytes :=
  utf8 "9876543210123456789" ++ [0]

/- `zero[lsd]`, where `zero` is `digits + 9`. -/
def zeroAt
    (lsd : Int) : Option Byte :=
  if 0 ≤ 9 + lsd then digits[(9 + lsd).toNat]? else none

/-
  The loop of `convert`, given a bound on its rounds. It ends
  with the buffer and the place of `p` in it.
-/
def convertLoop
    (ty : IntType) :
    Nat → Bytes → Nat → Int → Option (Bytes × Nat)
| 0, _, _, _ => none
| rounds + 1, buf, p, i => do
    let lsd ← ty.rem i 10
    let i' ← ty.div i 10
    let c ← zeroAt lsd
    let buf' ← CString.storeInside buf p [c]
    if i' ≠ 0 then
      convertLoop ty rounds buf' (p + 1) i'
    else
      some (buf', p + 1)

/- `if (value < 0) *p++ = '-'`. -/
def putSign
    (value : Int)
    (buf : Bytes)
    (p : Nat) : Option (Bytes × Nat) :=
  if value < 0 then
    (CString.storeInside buf p [45]).map (·, p + 1)
  else
    some (buf, p)

/- `std::reverse(buf, p)`. -/
def reverseFront
    (buf : Bytes)
    (p : Nat) : Bytes :=
  (buf.take p).reverse ++ buf.drop p

/-
  `convert(buf, value)`: the length returned and what the
  buffer holds. The loop has fewer rounds than the value has
  units.
-/
def convert
    (ty : IntType)
    (buf : Bytes)
    (value : ty.Value) : Option (Nat × Bytes) := do
  let (buf1, p1) ←
    convertLoop ty (value.val.natAbs + 1) buf 0 value.val
  let (buf2, p) ← putSign value.val buf1 p1
  let buf3 ← CString.storeInside buf2 p [0]
  return (p, reverseFront buf3 p)

/- `kMaxNumericSize`. -/
def kMaxNumericSize : Nat := 32

end V3

end WebServer

------------------------------------------------------------
-- One Round
------------------------------------------------------------

namespace WebServer

namespace V3

/- A number between 0 and a value of the type is one too. -/
theorem IntType.Holds.between
    {ty : IntType}
    {v w : Int}
    (hHolds : ty.Holds v)
    (hBetween : 0 ≤ w ∧ w ≤ v ∨ v ≤ w ∧ w ≤ 0) :
    ty.Holds w := by
  have hLow : (0 : Int) < 2 ^ (ty.bits - 1) :=
    Int.pow_pos (by decide)
  have hHigh : (0 : Int) < 2 ^ ty.bits :=
    Int.pow_pos (by decide)
  unfold IntType.Holds at hHolds ⊢
  split
  next hSigned =>
    rw [if_pos hSigned] at hHolds
    omega
  next hUnsigned =>
    rw [if_neg hUnsigned] at hHolds
    omega

/- Neither operation overflows: it only goes towards 0. -/
theorem IntType.rem_of_holds
    {ty : IntType}
    {v : Int}
    (hHolds : ty.Holds v) :
    ty.rem v 10 = some (v.tmod 10) := by
  have hBetween :
      0 ≤ v.tmod 10 ∧ v.tmod 10 ≤ v ∨
        v ≤ v.tmod 10 ∧ v.tmod 10 ≤ 0 := by
    rcases v.natAbs_eq with hEq | hEq <;> rw [hEq]
    · rw [Int.tmod_eq_emod_of_nonneg (Int.natCast_nonneg _)]
      omega
    · rw [Int.neg_tmod,
        Int.tmod_eq_emod_of_nonneg (Int.natCast_nonneg _)]
      omega
  exact if_pos (hHolds.between hBetween)

theorem IntType.div_of_holds
    {ty : IntType}
    {v : Int}
    (hHolds : ty.Holds v) :
    ty.Holds (v.tdiv 10) ∧
      ty.div v 10 = some (v.tdiv 10) := by
  have hBetween :
      0 ≤ v.tdiv 10 ∧ v.tdiv 10 ≤ v ∨
        v ≤ v.tdiv 10 ∧ v.tdiv 10 ≤ 0 := by
    rcases v.natAbs_eq with hEq | hEq <;> rw [hEq]
    · rw [Int.natCast_tdiv_eq_ediv]
      omega
    · rw [Int.neg_tdiv, Int.natCast_tdiv_eq_ediv]
      omega
  have hQuot := hHolds.between hBetween
  exact ⟨hQuot, if_pos hQuot⟩

theorem zeroAt_of_small
    {lsd : Int}
    (hSmall : lsd.natAbs < 10) :
    zeroAt lsd = some (DecimalText.digitByte lsd.natAbs) := by
  have hTable :
      ∀ n : Nat, n < 10 →
        zeroAt n = some (DecimalText.digitByte n) ∧
          zeroAt (-(n : Int)) =
            some (DecimalText.digitByte n) := by
    decide
  rcases lsd.natAbs_eq with hEq | hEq
  · rw [hEq, Int.natAbs_natCast]
    exact (hTable _ hSmall).1
  · rw [hEq, Int.natAbs_neg, Int.natAbs_natCast]
    exact (hTable _ hSmall).2

/- One round stores the last digit and divides by ten. -/
theorem convertLoop_round
    {ty : IntType}
    {buf : Bytes}
    {p : Nat}
    {i : Int}
    (hHolds : ty.Holds i)
    (hRoom : p < buf.length)
    (rounds : Nat) :
    convertLoop ty (rounds + 1) buf p i =
      if i.tdiv 10 ≠ 0 then
        convertLoop ty rounds
          (CString.store buf p
            [DecimalText.digitByte (i.natAbs % 10)])
          (p + 1) (i.tdiv 10)
      else
        some
          (CString.store buf p
            [DecimalText.digitByte (i.natAbs % 10)],
            p + 1) := by
  have hLast : (i.tmod 10).natAbs = i.natAbs % 10 :=
    Int.natAbs_tmod i 10
  have hDigit :
      zeroAt (i.tmod 10) =
        some (DecimalText.digitByte (i.natAbs % 10)) := by
    rw [← hLast]
    exact zeroAt_of_small (by omega)
  rw [convertLoop, IntType.rem_of_holds hHolds,
    (IntType.div_of_holds hHolds).2]
  simp only [Option.bind_eq_bind, Option.bind_some, hDigit]
  rw [CString.storeInside_of_room (Nat.succ_le_of_lt hRoom),
    Option.bind_some]

end V3

end WebServer

------------------------------------------------------------
-- All Rounds
------------------------------------------------------------

namespace WebServer

namespace V3

/-
  The loop stores the digits of the value, the last one
  first. The induction is on the bound of the rounds: each
  round leaves a tenth of the value.
-/
theorem convertLoop_of_room
    {ty : IntType}
    {rounds : Nat}
    {buf : Bytes}
    {p : Nat}
    {i : Int}
    (hHolds : ty.Holds i)
    (hRounds : i.natAbs < rounds)
    (hRoom :
      p + (DecimalText.digitsText i.natAbs).length ≤
        buf.length) :
    convertLoop ty rounds buf p i =
      some
        (CString.store buf p
          (DecimalText.digitsText i.natAbs).reverse,
          p + (DecimalText.digitsText i.natAbs).length) := by
  induction rounds generalizing buf p i with
  | zero => omega
  | succ rounds ih =>
      have hQuot : (i.tdiv 10).natAbs = i.natAbs / 10 :=
        Int.natAbs_tdiv i 10
      have hNonempty :=
        List.length_pos_of_ne_nil
          (DecimalText.spells_digitsText i.natAbs).nonempty
      rw [convertLoop_round hHolds (by omega) rounds]
      split
      next hMore =>
        have hLarge : 10 ≤ i.natAbs := by omega
        have hDigits := DecimalText.digitsText_of_le hLarge
        rw [hDigits, List.length_append,
          List.length_singleton] at hRoom
        let last := DecimalText.digitByte (i.natAbs % 10)
        have hSame :
            (CString.store buf p [last]).length =
              buf.length :=
          CString.length_store (by
            rw [List.length_singleton]
            omega)
        have hStored :=
          CString.store_store
            (show p ≤ buf.length by omega) [last]
            (DecimalText.digitsText
              (i.natAbs / 10)).reverse
        rw [List.length_singleton] at hStored
        rw [ih (IntType.div_of_holds hHolds).1 (by omega)
          (by rw [hQuot, hSame]; omega), hQuot, hStored,
          hDigits, List.reverse_append, List.length_append,
          Nat.add_assoc, Nat.add_comm 1]
        rfl
      next hLast =>
        have hSmall : i.natAbs < 10 := by omega
        rw [DecimalText.digitsText_of_lt hSmall,
          Nat.mod_eq_of_lt hSmall]
        rfl

end V3

end WebServer

------------------------------------------------------------
-- The Text Printed
------------------------------------------------------------

namespace WebServer

namespace V3

/- The front of a store, reversed. -/
theorem reverseFront_store
    (buf bytes more : Bytes) :
    reverseFront (CString.store buf 0 (bytes ++ more))
        bytes.length =
      bytes.reverse ++
        (more ++ buf.drop (bytes ++ more).length) := by
  unfold reverseFront CString.store
  rw [List.take_zero, List.nil_append, Nat.zero_add,
    List.append_assoc, List.take_left, List.drop_left]

/- The sign is stored behind the digits. -/
theorem putSign_of_room
    {buf bytes : Bytes}
    {v : Int}
    (hRoom :
      (bytes ++ DecimalText.sign v).length ≤ buf.length) :
    putSign v (CString.store buf 0 bytes) bytes.length =
      some
        (CString.store buf 0 (bytes ++ DecimalText.sign v),
          (bytes ++ DecimalText.sign v).length) := by
  unfold putSign
  unfold DecimalText.sign at hRoom ⊢
  split
  next hNeg =>
    rw [if_pos hNeg] at hRoom
    have hStored :=
      CString.storeInside_store
        ((Nat.zero_add _).trans_le hRoom)
    rw [Nat.zero_add] at hStored
    rw [hStored, List.length_append]
    rfl
  next => rw [List.append_nil]

/- A value is printed into any buffer with room for it. -/
theorem convert_of_room
    {ty : IntType}
    (v : ty.Value)
    {buf : Bytes}
    (hRoom :
      (DecimalText.decimalText v.val).length < buf.length) :
    convert ty buf v =
      some
        ((DecimalText.decimalText v.val).length,
          DecimalText.decimalText v.val ++
            0 :: buf.drop
              ((DecimalText.decimalText v.val).length +
                1)) := by
  let n := v.val.natAbs
  let bytes := (DecimalText.digitsText n).reverse
  let front := bytes ++ DecimalText.sign v.val
  have hText :
      DecimalText.decimalText v.val = front.reverse := by
    show DecimalText.sign v.val ++ _ =
      (bytes ++ DecimalText.sign v.val).reverse
    have hSign :
        (DecimalText.sign v.val).reverse =
          DecimalText.sign v.val := by
      unfold DecimalText.sign
      split <;> rfl
    rw [List.reverse_append, hSign, List.reverse_reverse]
  have hLength :
      front.length =
        bytes.length + (DecimalText.sign v.val).length :=
    List.length_append
  rw [hText, List.length_reverse] at hRoom ⊢
  have hDigits :
      bytes.length = (DecimalText.digitsText n).length :=
    List.length_reverse
  have hLoop :=
    convertLoop_of_room v.property (Nat.lt_succ_self n)
      (show
        0 + (DecimalText.digitsText n).length ≤ buf.length by
        omega)
  rw [Nat.zero_add, ← hDigits] at hLoop
  have hSigned : front.length ≤ buf.length :=
    Nat.le_of_lt hRoom
  have hNul :
      CString.storeInside (CString.store buf 0 front)
          front.length [0] =
        some (CString.store buf 0 (front ++ [0])) := by
    have hStored :=
      CString.storeInside_store
        (show 0 + (front ++ [0]).length ≤ buf.length by
          rw [List.length_append, List.length_singleton]
          omega)
    rw [Nat.zero_add] at hStored
    exact hStored
  have hEnd : (front ++ [0]).length = front.length + 1 :=
    List.length_append
  unfold convert
  show Option.bind (convertLoop ty (n + 1) buf 0 v.val) _ = _
  rw [hLoop, Option.bind_some]
  show
    Option.bind
      (putSign v.val (CString.store buf 0 bytes)
        bytes.length) _ = _
  rw [putSign_of_room hSigned, Option.bind_some]
  show Option.bind (CString.storeInside _ _ _) _ = _
  rw [hNul, Option.bind_some, reverseFront_store, hEnd]
  rfl

example :
    convert ⟨true, 64, by decide⟩ (List.replicate 22 120)
        ⟨-9223372036854775808, by decide⟩ =
      some
        (20, utf8 "-9223372036854775808" ++ [0, 120]) := by
  decide +kernel

/- No value of a type of 64 bits needs 21 characters. -/
theorem length_decimalText_value
    {ty : IntType}
    (v : ty.Value) :
    (DecimalText.decimalText v.val).length ≤ 20 := by
  have hHolds := v.property
  have hPos := ty.hBits.1
  have hBits := ty.hBits.2
  unfold IntType.Holds at hHolds
  split at hHolds
  next =>
    have hRange : (2 : Int) ^ (ty.bits - 1) ≤ 2 ^ 63 := by
      exact_mod_cast
        Nat.pow_le_pow_right (by decide)
          (show ty.bits - 1 ≤ 63 by omega)
    have hSign : (DecimalText.sign v.val).length ≤ 1 := by
      unfold DecimalText.sign
      split <;> decide
    have hText :=
      DecimalText.length_decimalText_le (by decide)
        (show v.val.natAbs < 10 ^ 19 by omega)
    omega
  next =>
    have hRange : (2 : Int) ^ ty.bits ≤ 2 ^ 64 := by
      exact_mod_cast Nat.pow_le_pow_right (by decide) hBits
    have hSign : DecimalText.sign v.val = [] :=
      if_neg (by omega)
    have hText :=
      DecimalText.length_decimalText_le (by decide)
        (show v.val.natAbs < 10 ^ 20 by omega)
    rw [hSign, List.length_nil] at hText
    omega

/-
  Every value of every integer type of up to 64 bits is
  printed as its canonical decimal text and a NUL, in fewer
  bytes than are reserved, whatever the buffer held.
-/
theorem convert_exact
    (ty : IntType)
    (v : ty.Value) :
    ∃ text,
      DecimalText.IsDecimal v.val text ∧
        text.length + 1 < kMaxNumericSize ∧
        ∀ buf : Bytes,
          text.length < buf.length →
          convert ty buf v =
            some
              (text.length,
                text ++
                  0 :: buf.drop (text.length + 1)) := by
  have hShort := length_decimalText_value v
  refine
    ⟨DecimalText.decimalText v.val,
      DecimalText.isDecimal_decimalText v.val, ?_, ?_⟩
  · show _ + 1 < 32
    omega
  · intro buf hRoom
    exact convert_of_room v hRoom

end V3

end WebServer
