import Mathlib.Algebra.Group.Int.Defs
import Mathlib.Algebra.Group.Nat.Defs
import Mathlib.Data.List.Basic
import Mathlib.Data.List.TakeWhile
import Mathlib.Tactic.Common

/-
  The `std::string` operations a parser rests on, over lists
  of bytes.

  A search gives a position or `none` for `npos`. `substr`,
  the iterator-range constructor and `stoi` may end without
  a value: they throw, or they read outside the string.

  Key definitions include:
    * `StdString.Fault`
    * `StdString.findChar`
    * `StdString.find`
    * `StdString.substr`
    * `StdString.range`
    * `StdString.stoi`
-/

------------------------------------------------------------
-- Searching
------------------------------------------------------------

namespace StdString

/- `s.find(c, pos)`. -/
def findChar
    (s : List UInt8)
    (c : UInt8)
    (pos : Nat) : Option Nat :=
  ((s.drop pos).findIdx? (· == c)).map (pos + ·)

/- A position found is one of the string. -/
theorem findChar_lt
    {s : List UInt8}
    {c : UInt8}
    {pos k : Nat}
    (hFind : findChar s c pos = some k) :
    k < s.length := by
  unfold findChar at hFind
  rcases Option.map_eq_some_iff.mp hFind with
    ⟨j, hIndex, rfl⟩
  have hSmall :=
    (List.findIdx?_eq_some_iff_findIdx_eq.mp hIndex).1
  rw [List.length_drop] at hSmall
  omega

/- The first occurrence is found. -/
theorem findChar_append_cons
    {a b : List UInt8}
    {c : UInt8}
    (hFirst : c ∉ a) :
    findChar (a ++ c :: b) c 0 = some a.length := by
  have hNone : a.findIdx? (· == c) = none := by
    apply List.findIdx?_eq_none_iff.mpr
    intro x hMem
    rw [beq_eq_false_iff_ne]
    rintro rfl
    exact hFirst hMem
  simp [findChar, List.findIdx?_append, hNone,
    List.findIdx?_cons]

theorem findChar_eq_none_iff
    {s : List UInt8}
    {c : UInt8} :
    findChar s c 0 = none ↔ c ∉ s := by
  simp only [findChar, List.drop_zero,
    Option.map_eq_none_iff, List.findIdx?_eq_none_iff,
    beq_eq_false_iff_ne]
  constructor
  · intro hAll hMem
    exact hAll c hMem rfl
  · rintro hNot x hMem rfl
    exact hNot hMem

/- `s.find(pat)`. -/
def find
    (pat : List UInt8) :
    List UInt8 → Option Nat
| [] => if pat = [] then some 0 else none
| c :: s =>
    if pat.isPrefixOf (c :: s) then
      some 0
    else
      (find pat s).map (· + 1)

/- A search that starts where `s` is split before `c`. -/
theorem findChar_of_drop
    {s a b : List UInt8}
    {c : UInt8}
    {pos : Nat}
    (hDrop : s.drop pos = a ++ c :: b)
    (hFirst : c ∉ a) :
    findChar s c pos = some (pos + a.length) := by
  have hFind := findChar_append_cons (b := b) hFirst
  unfold findChar at hFind ⊢
  rcases Option.map_eq_some_iff.mp hFind with
    ⟨k, hIndex, hEq⟩
  rw [List.drop_zero, ← hDrop] at hIndex
  rw [hIndex, Option.map_some, ← hEq, Nat.zero_add]

theorem findChar_of_not_mem_drop
    {s : List UInt8}
    {c : UInt8}
    {pos : Nat}
    (hNone : c ∉ s.drop pos) :
    findChar s c pos = none := by
  have hFind := findChar_eq_none_iff.mpr hNone
  unfold findChar at hFind ⊢
  rw [Option.map_eq_none_iff, List.drop_zero] at hFind
  rw [hFind]
  rfl

theorem not_mem_drop_of_findChar
    {s : List UInt8}
    {c : UInt8}
    {pos : Nat}
    (hFind : findChar s c pos = none) :
    c ∉ s.drop pos := by
  intro hMem
  rcases List.eq_append_cons_of_mem hMem with
    ⟨a, b, hDrop, hFirst⟩
  rw [findChar_of_drop hDrop hFirst] at hFind
  cases hFind

/- What precedes a position found, and what is there. -/
theorem findChar_split
    {s : List UInt8}
    {c : UInt8}
    {pos k : Nat}
    (hFind : findChar s c pos = some k) :
    ∃ a,
      s.drop pos = a ++ c :: s.drop (k + 1) ∧
        c ∉ a ∧ k = pos + a.length := by
  have hMem : c ∈ s.drop pos := by
    by_contra hNone
    rw [findChar_of_not_mem_drop hNone] at hFind
    cases hFind
  rcases List.eq_append_cons_of_mem hMem with
    ⟨a, b, hDrop, hFirst⟩
  have hSame := findChar_of_drop hDrop hFirst
  rw [hFind] at hSame
  have hAt : k = pos + a.length := Option.some.inj hSame
  have hRest : s.drop (k + 1) = b := by
    rw [hAt, Nat.add_assoc, ← List.drop_drop, hDrop,
      ← List.drop_drop, List.drop_left]
    rfl
  exact ⟨a, by rw [hRest, hDrop], hFirst, hAt⟩

theorem drop_of_findChar
    {s : List UInt8}
    {c : UInt8}
    {pos k : Nat}
    (hFind : findChar s c pos = some k) :
    s.drop k = c :: s.drop (k + 1) := by
  rcases findChar_split hFind with ⟨a, hDrop, _, hAt⟩
  have hBoth : s.drop k = (s.drop pos).drop a.length := by
    rw [List.drop_drop, hAt]
  rw [hBoth, hDrop, List.drop_left]

/- Skipping to the byte stops where a search finds it. -/
theorem dropWhile_of_findChar
    {s : List UInt8}
    {c : UInt8}
    {pos k : Nat}
    (hFind : findChar s c pos = some k) :
    (s.drop pos).dropWhile (· != c) =
      c :: s.drop (k + 1) := by
  rcases findChar_split hFind with ⟨a, hDrop, hFirst, _⟩
  rw [hDrop, List.dropWhile_append_of_pos]
  · simp
  · intro b hMem
    rw [bne_iff_ne]
    rintro rfl
    exact hFirst hMem

theorem dropWhile_of_findChar_none
    {s : List UInt8}
    {c : UInt8}
    {pos : Nat}
    (hFind : findChar s c pos = none) :
    (s.drop pos).dropWhile (· != c) = [] := by
  rw [List.dropWhile_eq_nil_iff]
  intro b hMem
  rw [bne_iff_ne]
  rintro rfl
  exact not_mem_drop_of_findChar hFind hMem

/- The first occurrence is not behind any other. -/
theorem findChar_le
    {s : List UInt8}
    {c : UInt8}
    {pos i : Nat}
    (hFrom : pos ≤ i)
    (hAt : s[i]? = some c) :
    ∃ k ≤ i, findChar s c pos = some k := by
  have hAt' : (s.drop pos)[i - pos]? = some c := by
    rw [List.getElem?_drop, Nat.add_sub_cancel' hFrom]
    exact hAt
  cases hFind : findChar s c pos with
  | none =>
      unfold findChar at hFind
      rw [Option.map_eq_none_iff,
        List.findIdx?_eq_none_iff] at hFind
      have hNot := hFind c (List.mem_of_getElem? hAt')
      simp at hNot
  | some k =>
      refine ⟨k, ?_, rfl⟩
      rcases findChar_split hFind with
        ⟨a, hDrop, hFirst, rfl⟩
      by_contra hLater
      rw [hDrop, List.getElem?_append_left (by omega)] at hAt'
      exact hFirst (List.mem_of_getElem? hAt')

/- A separator outside the pattern ends every match. -/
theorem isPrefixOf_append_cons
    {pat : List UInt8}
    {c : UInt8}
    (hSep : c ∉ pat)
    (a b : List UInt8) :
    pat.isPrefixOf (a ++ c :: b) = pat.isPrefixOf a := by
  induction pat generalizing a with
  | nil => simp
  | cons p pat ih =>
      rw [List.mem_cons, not_or] at hSep
      cases a with
      | nil =>
          have hNot : (p == c) = false := by
            simpa using fun hEq => hSep.1 hEq.symm
          simp [List.isPrefixOf, hNot]
      | cons x a => simp [List.isPrefixOf, ih hSep.2]

/- A search across a separator outside the pattern. -/
theorem find_append_cons
    {pat : List UInt8}
    {c : UInt8}
    (hSep : c ∉ pat)
    (hPat : pat ≠ [])
    (a b : List UInt8) :
    find pat (a ++ c :: b) =
      (find pat a).or
        ((find pat b).map (· + (a.length + 1))) := by
  induction a with
  | nil =>
      have hNot : pat.isPrefixOf (c :: b) = false := by
        have hEnd := isPrefixOf_append_cons hSep [] b
        rw [List.nil_append] at hEnd
        rw [hEnd]
        cases pat with
        | nil => exact absurd rfl hPat
        | cons p pat => rfl
      simp [find, hNot, hPat]
  | cons x a ih =>
      have hEnd := isPrefixOf_append_cons hSep (x :: a) b
      rw [List.cons_append] at hEnd
      rw [List.cons_append, find, find, hEnd, ih]
      split_ifs with hHead
      · rfl
      · cases find pat a <;> cases find pat b <;>
          simp [Nat.add_assoc]

/- A string that begins with the pattern. -/
theorem find_append_self
    {pat : List UInt8}
    (hPat : pat ≠ [])
    (s : List UInt8) :
    find pat (pat ++ s) = some 0 := by
  cases pat with
  | nil => exact absurd rfl hPat
  | cons p pat =>
      rw [List.cons_append, find, if_pos]
      rw [List.isPrefixOf_iff_prefix, ← List.cons_append]
      exact List.prefix_append _ _

/- The pattern is where it is found. -/
theorem find_prefix
    {pat s : List UInt8}
    {k : Nat}
    (hFind : find pat s = some k) :
    pat <+: s.drop k := by
  induction s generalizing k with
  | nil =>
      simp only [find] at hFind
      split_ifs at hFind with hNil
      rw [hNil]
      exact List.nil_prefix
  | cons x s ih =>
      simp only [find] at hFind
      split_ifs at hFind with hHead
      · cases hFind
        exact List.isPrefixOf_iff_prefix.mp hHead
      · rcases Option.map_eq_some_iff.mp hFind with
          ⟨j, hRest, rfl⟩
        exact ih hRest

/- The first match is not behind any other. -/
theorem find_le_of_prefix
    {pat s : List UInt8}
    {i : Nat}
    (hIn : i ≤ s.length)
    (hAt : pat <+: s.drop i) :
    ∃ k ≤ i, find pat s = some k := by
  induction s generalizing i with
  | nil =>
      have hNil : pat = [] := by simpa using hAt
      exact ⟨0, Nat.zero_le _, if_pos hNil⟩
  | cons x s ih =>
      unfold find
      split_ifs with hHead
      · exact ⟨0, Nat.zero_le _, rfl⟩
      · cases i with
        | zero =>
            exact
              absurd (List.isPrefixOf_iff_prefix.mpr hAt)
                hHead
        | succ i =>
            rcases ih (Nat.le_of_succ_le_succ hIn) hAt with
              ⟨k, hLe, hFind⟩
            rw [hFind]
            exact ⟨k + 1, Nat.succ_le_succ hLe, rfl⟩

/- A match is within the string. -/
theorem find_le
    {pat s : List UInt8}
    {k : Nat}
    (hFind : find pat s = some k) :
    k ≤ s.length := by
  induction s generalizing k with
  | nil =>
      simp only [find] at hFind
      split_ifs at hFind
      cases hFind
      exact Nat.zero_le _
  | cons x s ih =>
      simp only [find] at hFind
      split_ifs at hFind
      · cases hFind
        exact Nat.zero_le _
      · rcases Option.map_eq_some_iff.mp hFind with
          ⟨j, hRest, rfl⟩
        exact Nat.succ_le_succ (ih hRest)

end StdString

------------------------------------------------------------
-- Operations That May Fail
------------------------------------------------------------

namespace StdString

/-
  How an operation ends without a value: an exception, a
  range of iterators that is not one of the string, or an
  `int` that overflows.
-/
inductive Fault
| invalidArgument
| outOfRange
| badRange
| overflow
deriving DecidableEq, Repr

/- `s.substr(pos, n)`. -/
def substr
    (s : List UInt8)
    (pos n : Nat) : Except Fault (List UInt8) :=
  if pos ≤ s.length then
    .ok ((s.drop pos).take n)
  else
    .error .outOfRange

/- `s.substr(pos)`, which goes on to the end. -/
theorem substr_suffix
    {s : List UInt8}
    {pos : Nat}
    (hPos : pos ≤ s.length) :
    substr s pos s.length = .ok (s.drop pos) := by
  have hTake : (s.drop pos).take s.length = s.drop pos := by
    apply List.take_of_length_le
    rw [List.length_drop]
    omega
  unfold substr
  rw [if_pos hPos, hTake]

/- `s.substr(0, n)`. -/
theorem substr_front
    (s : List UInt8)
    (n : Nat) :
    substr s 0 n = .ok (s.take n) :=
  if_pos (Nat.zero_le _)

/- `string(s.begin() + start, s.begin() + end)`. -/
def range
    (s : List UInt8)
    (first last : Int) : Except Fault (List UInt8) :=
  if 0 ≤ first ∧ first ≤ last ∧ last ≤ s.length then
    .ok
      ((s.drop first.toNat).take (last - first).toNat)
  else
    .error .badRange

def isSpace
    (c : UInt8) : Bool :=
  c == 32 || (9 ≤ c && c ≤ 13)

def isDigit
    (c : UInt8) : Bool :=
  48 ≤ c && c ≤ 57

/- The number a run of decimal digits spells. -/
def digitsValue
    (digits : List UInt8) : Nat :=
  digits.foldl (fun n d => 10 * n + (d.toNat - 48)) 0

/- `stoi(s)` for a 32-bit `int`. -/
def stoi
    (s : List UInt8) : Except Fault Int :=
  let s := s.dropWhile isSpace
  let negative := s.head? == some 45
  let s :=
    if s.head? = some 45 ∨ s.head? = some 43 then
      s.tail
    else
      s
  let digits := s.takeWhile isDigit
  if digits = [] then
    .error .invalidArgument
  else
    let n : Int :=
      if negative then
        -(digitsValue digits : Int)
      else
        digitsValue digits
    if -2 ^ 31 ≤ n ∧ n < 2 ^ 31 then
      .ok n
    else
      .error .outOfRange

example :
    stoi [32, 45, 52, 50, 120] = .ok (-42) := by
  decide

end StdString
