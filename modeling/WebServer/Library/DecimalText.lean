import WebServer.Library.StdString

/-
  The decimal text of an integer.

  A printer that divides by ten meets the digits from the
  last to the first; `digitsText_of_le` takes the text apart
  in that order.

  Key definitions include:
    * `DecimalText.Spells`
    * `DecimalText.IsDecimal`
    * `DecimalText.digitsText`
    * `DecimalText.decimalText`

  Key theorems include:
    * `DecimalText.digitsText_of_le`
    * `DecimalText.spells_digitsText`
    * `DecimalText.isDecimal_decimalText`
    * `DecimalText.length_decimalText_le`
-/

------------------------------------------------------------
-- Decimal Text
------------------------------------------------------------

namespace DecimalText

/-
  The digits spell the number: there is at least one, and
  the first is zero in `0` only.
-/
structure Spells
    (n : Nat)
    (digits : List UInt8) : Prop where
  nonempty : digits ≠ []
  areDigits : ∀ d ∈ digits, StdString.isDigit d = true
  first : digits.head? = some 48 → digits = [48]
  value : StdString.digitsValue digits = n

/- `'-'` before a negative number. -/
def sign
    (v : Int) : List UInt8 :=
  if v < 0 then [45] else []

/-
  The text is the decimal text of the number: its sign, and
  the digits of its absolute value.
-/
def IsDecimal
    (v : Int)
    (text : List UInt8) : Prop :=
  ∃ digits,
    text = sign v ++ digits ∧ Spells v.natAbs digits

/- The byte of an ASCII character. -/
def charByte
    (c : Char) : UInt8 :=
  UInt8.ofNat c.toNat

/- The byte of a digit. -/
def digitByte
    (d : Nat) : UInt8 :=
  charByte d.digitChar

/- The decimal digits of a natural number. -/
def digitsText
    (n : Nat) : List UInt8 :=
  (Nat.toDigits 10 n).map charByte

/- The decimal text of a number. -/
def decimalText
    (v : Int) : List UInt8 :=
  sign v ++ digitsText v.natAbs

example : decimalText (-120) = [45, 49, 50, 48] := by
  decide

end DecimalText

------------------------------------------------------------
-- The Last Digit
------------------------------------------------------------

namespace DecimalText

theorem digitsText_of_lt
    {n : Nat}
    (hSmall : n < 10) :
    digitsText n = [digitByte n] := by
  unfold digitsText
  rw [Nat.toDigits_of_lt_base hSmall]
  rfl

/- The last digit is the remainder by ten. -/
theorem digitsText_of_le
    {n : Nat}
    (hLarge : 10 ≤ n) :
    digitsText n =
      digitsText (n / 10) ++ [digitByte (n % 10)] := by
  unfold digitsText
  rw [Nat.toDigits_of_base_le (by decide) hLarge,
    List.map_append]
  rfl

theorem digitByte_spells
    {d : Nat}
    (hSmall : d < 10) :
    (digitByte d).toNat = 48 + d ∧
      StdString.isDigit (digitByte d) = true := by
  revert d
  decide

end DecimalText

------------------------------------------------------------
-- What The Text Spells
------------------------------------------------------------

namespace DecimalText

theorem digitsValue_concat
    (digits : List UInt8)
    (d : UInt8) :
    StdString.digitsValue (digits ++ [d]) =
      10 * StdString.digitsValue digits + (d.toNat - 48) := by
  unfold StdString.digitsValue
  rw [List.foldl_append]
  rfl

/- One more digit, behind a number other than zero. -/
theorem Spells.concat
    {n d : Nat}
    {digits : List UInt8}
    (h : Spells n digits)
    (hPos : 0 < n)
    (hSmall : d < 10) :
    Spells (10 * n + d) (digits ++ [digitByte d]) := by
  have hByte := digitByte_spells hSmall
  refine ⟨?_, ?_, ?_, ?_⟩
  · exact List.append_ne_nil_of_left_ne_nil h.nonempty _
  · intro x hMem
    rcases List.mem_append.mp hMem with hIn | hIn
    · exact h.areDigits x hIn
    · rw [List.mem_singleton.mp hIn]
      exact hByte.2
  · intro hHead
    rw [List.head?_append_of_ne_nil _ h.nonempty] at hHead
    have hValue := h.value
    rw [h.first hHead] at hValue
    have hZero : StdString.digitsValue [48] = 0 := rfl
    omega
  · rw [digitsValue_concat, h.value, hByte.1]
    omega

/- By induction on the number, digit by digit. -/
theorem spells_digitsText
    (n : Nat) :
    Spells n (digitsText n) := by
  induction n using Nat.strongRecOn with
  | ind n ih =>
      by_cases hSmall : n < 10
      · have hByte := digitByte_spells hSmall
        rw [digitsText_of_lt hSmall]
        refine ⟨List.cons_ne_nil _ _, ?_, ?_, ?_⟩
        · intro d hMem
          rw [List.mem_singleton.mp hMem]
          exact hByte.2
        · intro hHead
          rw [Option.some.inj hHead]
        · show 10 * 0 + ((digitByte n).toNat - 48) = n
          omega
      · rw [digitsText_of_le (by omega)]
        have hFront := ih (n / 10) (by omega)
        have hWhole :=
          hFront.concat (by omega)
            (Nat.mod_lt n (by decide))
        rw [Nat.div_add_mod] at hWhole
        exact hWhole

theorem isDecimal_decimalText
    (v : Int) :
    IsDecimal v (decimalText v) :=
  ⟨_, rfl, spells_digitsText v.natAbs⟩

/- A number below `10 ^ k` has at most `k` digits. -/
theorem length_decimalText_le
    {v : Int}
    {k : Nat}
    (hPos : 0 < k)
    (hSmall : v.natAbs < 10 ^ k) :
    (decimalText v).length ≤ (sign v).length + k := by
  have hDigits :=
    (Nat.length_toDigits_le_iff (by decide) hPos).mpr hSmall
  unfold decimalText digitsText
  rw [List.length_append, List.length_map]
  omega

end DecimalText
