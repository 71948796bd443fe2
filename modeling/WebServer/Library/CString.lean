import WebServer.Library.StdString

/-
  C strings in a memory of bytes, and the functions of
  `string.h`, `strings.h` and `stdlib.h` on them.

  A pointer is an offset into the memory. A string goes from
  its pointer to the next NUL. What these functions answer
  depends on the memory up to that NUL only, so two memories
  that agree that far give the same answers.

  Key definitions include:
    * `CString.string`
    * `CString.strpbrk`
    * `CString.strchr`
    * `CString.strspn`
    * `CString.strcaseEq`
    * `CString.atol`
    * `CString.store`
    * `CString.storeInside`
    * `CString.vsnprintf`
    * `CString.Ends`
    * `CString.Agree`

  Key theorems include:
    * `CString.string_of_drop`
    * `CString.string_congr`
    * `CString.Ends.terminator`
    * `CString.store_set`
    * `CString.string_cut`
-/

------------------------------------------------------------
-- Strings
------------------------------------------------------------

namespace CString

/- The string at a pointer. -/
def string
    (mem : List UInt8)
    (p : Nat) : List UInt8 :=
  (mem.drop p).takeWhile (· != 0)

/- `strpbrk(p, accept)`. -/
def strpbrk
    (mem : List UInt8)
    (p : Nat)
    (accept : List UInt8) : Option Nat :=
  ((string mem p).findIdx? (accept.contains ·)).map (p + ·)

/- `strchr(p, c)`, for a `c` that is not NUL. -/
def strchr
    (mem : List UInt8)
    (p : Nat)
    (c : UInt8) : Option Nat :=
  ((string mem p).findIdx? (· == c)).map (p + ·)

/- `strspn(p, accept)`. -/
def strspn
    (mem : List UInt8)
    (p : Nat)
    (accept : List UInt8) : Nat :=
  ((string mem p).takeWhile (accept.contains ·)).length

/- `tolower(c)` in the C locale. -/
def toLower
    (c : UInt8) : UInt8 :=
  if 65 ≤ c ∧ c ≤ 90 then c + 32 else c

/- `strcasecmp(s, t) == 0`. -/
def strcaseEq
    (s t : List UInt8) : Bool :=
  s.map toLower == t.map toLower

/- `strncasecmp(s, t, n) == 0`. -/
def strncaseEq
    (s t : List UInt8)
    (n : Nat) : Bool :=
  strcaseEq (s.take n) (t.take n)

/- `atol(s)`, which stays in the range of a 64-bit `long`. -/
def atol
    (s : List UInt8) : Int :=
  let s := s.dropWhile StdString.isSpace
  let negative := s.head? == some 45
  let s :=
    if s.head? = some 45 ∨ s.head? = some 43 then
      s.tail
    else
      s
  let n : Int :=
    StdString.digitsValue (s.takeWhile StdString.isDigit)
  if negative then
    max (-n) (-2 ^ 63)
  else
    min n (2 ^ 63 - 1)

/- Copying bytes to a place in the memory. -/
def store
    (mem : List UInt8)
    (p : Nat)
    (bytes : List UInt8) : List UInt8 :=
  mem.take p ++ bytes ++ mem.drop (p + bytes.length)

/-
  Copying bytes to a place inside the memory; `none` is a
  write outside of it.
-/
def storeInside
    (mem : List UInt8)
    (p : Nat)
    (bytes : List UInt8) : Option (List UInt8) :=
  if p + bytes.length ≤ mem.length then
    some (store mem p bytes)
  else
    none

/- `vsnprintf(p, size, ..)`, given the text it formats. -/
def vsnprintf
    (mem : List UInt8)
    (p size : Nat)
    (text : List UInt8) : List UInt8 :=
  if size = 0 then
    mem
  else
    store mem p (text.take (size - 1) ++ [0])

end CString

------------------------------------------------------------
-- Terminators
------------------------------------------------------------

namespace CString

/- The string at `p` ends before position `n`. -/
def Ends
    (mem : List UInt8)
    (p n : Nat) : Prop :=
  ∃ e, p ≤ e ∧ e < n ∧ mem[e]? = some 0

/- Two memories hold the same bytes below `n`. -/
def Agree
    (mem mem' : List UInt8)
    (n : Nat) : Prop :=
  mem.take n = mem'.take n

theorem Agree.getElem?
    {mem mem' : List UInt8}
    {n i : Nat}
    (h : Agree mem mem' n)
    (hSmall : i < n) :
    mem'[i]? = mem[i]? := by
  have hTake := congrArg (fun l => l[i]?) h
  simp only [List.getElem?_take_of_lt hSmall] at hTake
  exact hTake.symm

theorem Agree.ends
    {mem mem' : List UInt8}
    {n p : Nat}
    (h : Agree mem mem' n)
    (hEnds : Ends mem p n) :
    Ends mem' p n := by
  rcases hEnds with ⟨e, hLe, hLt, hNul⟩
  exact ⟨e, hLe, hLt, (h.getElem? hLt).trans hNul⟩

/- A string is what precedes its terminator. -/
theorem string_of_drop
    {mem a b : List UInt8}
    {p : Nat}
    (hDrop : mem.drop p = a ++ 0 :: b)
    (hPlain : 0 ∉ a) :
    string mem p = a := by
  unfold string
  rw [hDrop, List.takeWhile_append_of_pos]
  · simp
  · intro x hMem
    rw [bne_iff_ne]
    rintro rfl
    exact hPlain hMem

theorem Ends.split
    {mem : List UInt8}
    {p n : Nat}
    (h : Ends mem p n) :
    ∃ a b,
      mem.drop p = a ++ 0 :: b ∧
        0 ∉ a ∧ p + a.length < n := by
  rcases h with ⟨e, hLe, hLt, hNul⟩
  have hAt : (mem.drop p)[e - p]? = some 0 := by
    rw [List.getElem?_drop, Nat.add_sub_cancel' hLe]
    exact hNul
  rcases List.eq_append_cons_of_mem
      (List.mem_of_getElem? hAt) with
    ⟨a, b, hDrop, hPlain⟩
  refine ⟨a, b, hDrop, hPlain, ?_⟩
  by_contra hLong
  rw [hDrop, List.getElem?_append_left (by omega)] at hAt
  exact hPlain (List.mem_of_getElem? hAt)

/- A string that is ended after `n` bytes that are no NUL. -/
theorem string_eq_take
    {mem : List UInt8}
    {p n : Nat}
    (hNul : mem[p + n]? = some 0)
    (hPlain : ∀ i, i < n → mem[p + i]? ≠ some 0) :
    string mem p = (mem.drop p).take n := by
  have hRest :
      (mem.drop p).drop n =
        0 :: (mem.drop p).drop (n + 1) := by
    rw [← List.getElem?_drop] at hNul
    rcases List.getElem?_eq_some_iff.mp hNul with
      ⟨hLong, hByte⟩
    rw [List.drop_eq_getElem_cons hLong, hByte]
  apply string_of_drop
      (b := (mem.drop p).drop (n + 1))
  · rw [← hRest, List.take_append_drop]
  · intro hMem
    rcases List.mem_iff_getElem?.mp hMem with ⟨i, hAt⟩
    have hIn : i < n := by
      have hLong := (List.getElem?_eq_some_iff.mp hAt).1
      rw [List.length_take] at hLong
      omega
    rw [List.getElem?_take_of_lt hIn, List.getElem?_drop]
      at hAt
    exact hPlain i hIn hAt

/- The string at a later pointer is what is left of it. -/
theorem string_add
    {mem : List UInt8}
    {p k n : Nat}
    (hEnds : Ends mem p n)
    (hIn : k ≤ (string mem p).length) :
    string mem (p + k) = (string mem p).drop k := by
  rcases hEnds.split with ⟨a, b, hDrop, hPlain, _⟩
  rw [string_of_drop hDrop hPlain] at hIn ⊢
  apply string_of_drop (b := b)
  · rw [← List.drop_drop, hDrop,
      List.drop_append_of_le_length hIn]
  · intro hMem
    exact hPlain (List.mem_of_mem_drop hMem)

/- Two memories that agree that far hold the same string. -/
theorem string_congr
    {mem mem' : List UInt8}
    {p n : Nat}
    (hAgree : Agree mem mem' n)
    (hEnds : Ends mem p n) :
    string mem' p = string mem p := by
  rcases hEnds.split with ⟨a, b, hDrop, hPlain, hLt⟩
  rw [string_of_drop hDrop hPlain]
  have hFront :
      (mem.drop p).take (a.length + 1) = a ++ [0] := by
    rw [hDrop, List.append_cons,
      List.take_left' (by simp)]
  have hFront' :
      (mem'.drop p).take (a.length + 1) = a ++ [0] := by
    rw [← hFront, List.take_drop, List.take_drop]
    have hTake := congrArg (List.take (p + (a.length + 1)))
      hAgree
    rw [List.take_take, List.take_take,
      Nat.min_eq_left (by omega)] at hTake
    rw [hTake]
  apply string_of_drop ?_ hPlain
    (b := (mem'.drop p).drop (a.length + 1))
  rw [List.append_cons, ← hFront', List.take_append_drop]

/- The first terminator lies just behind the string. -/
theorem Ends.terminator
    {mem : List UInt8}
    {p n : Nat}
    (h : Ends mem p n) :
    p + (string mem p).length < n ∧
      mem[p + (string mem p).length]? = some 0 := by
  rcases h.split with ⟨a, b, hDrop, hPlain, hLt⟩
  rw [string_of_drop hDrop hPlain]
  refine ⟨hLt, ?_⟩
  rw [← List.getElem?_drop, hDrop]
  simp

/- Every later pointer into the string ends there, too. -/
theorem Ends.of_le
    {mem : List UInt8}
    {p q n : Nat}
    (h : Ends mem p n)
    (hLe : q ≤ p + (string mem p).length) :
    Ends mem q n :=
  ⟨_, hLe, h.terminator.1, h.terminator.2⟩

/- A bound further on is a bound. -/
theorem Ends.mono
    {mem : List UInt8}
    {p n n' : Nat}
    (h : Ends mem p n)
    (hLe : n ≤ n') :
    Ends mem p n' := by
  rcases h with ⟨e, hFrom, hTo, hNul⟩
  exact ⟨e, hFrom, Nat.lt_of_lt_of_le hTo hLe, hNul⟩

/- One more NUL ends no string later. -/
theorem Ends.set
    {mem : List UInt8}
    {p n : Nat}
    (h : Ends mem p n)
    (k : Nat) :
    Ends (mem.set k 0) p n := by
  rcases h with ⟨e, hLe, hLt, hNul⟩
  refine ⟨e, hLe, hLt, ?_⟩
  have hLong := (List.getElem?_eq_some_iff.mp hNul).1
  rw [List.getElem?_set]
  split_ifs with hSame hIn
  · rfl
  · omega
  · exact hNul

/- A string that starts with `n` bytes of another is long. -/
theorem strncaseEq_length
    {s t : List UInt8}
    {n : Nat}
    (h : strncaseEq s t n = true)
    (hLong : n ≤ t.length) :
    n ≤ s.length := by
  unfold strncaseEq strcaseEq at h
  have hSame := congrArg List.length (eq_of_beq h)
  simp only [List.length_map, List.length_take] at hSame
  omega

end CString

------------------------------------------------------------
-- Searching
------------------------------------------------------------

namespace CString

theorem strpbrk_congr
    {mem mem' : List UInt8}
    {p n : Nat}
    (hAgree : Agree mem mem' n)
    (hEnds : Ends mem p n)
    (accept : List UInt8) :
    strpbrk mem' p accept = strpbrk mem p accept := by
  unfold strpbrk
  rw [string_congr hAgree hEnds]

theorem strchr_congr
    {mem mem' : List UInt8}
    {p n : Nat}
    (hAgree : Agree mem mem' n)
    (hEnds : Ends mem p n)
    (c : UInt8) :
    strchr mem' p c = strchr mem p c := by
  unfold strchr
  rw [string_congr hAgree hEnds]

theorem strspn_congr
    {mem mem' : List UInt8}
    {p n : Nat}
    (hAgree : Agree mem mem' n)
    (hEnds : Ends mem p n)
    (accept : List UInt8) :
    strspn mem' p accept = strspn mem p accept := by
  unfold strspn
  rw [string_congr hAgree hEnds]

/- A byte found is one of the string. -/
theorem strpbrk_bounds
    {mem : List UInt8}
    {p k : Nat}
    {accept : List UInt8}
    (hFind : strpbrk mem p accept = some k) :
    p ≤ k ∧ k < p + (string mem p).length := by
  unfold strpbrk at hFind
  rcases Option.map_eq_some_iff.mp hFind with
    ⟨j, hIndex, rfl⟩
  have hSmall :=
    (List.findIdx?_eq_some_iff_findIdx_eq.mp hIndex).1
  omega

theorem strchr_bounds
    {mem : List UInt8}
    {p k : Nat}
    {c : UInt8}
    (hFind : strchr mem p c = some k) :
    p ≤ k ∧ k < p + (string mem p).length := by
  unfold strchr at hFind
  rcases Option.map_eq_some_iff.mp hFind with
    ⟨j, hIndex, rfl⟩
  have hSmall :=
    (List.findIdx?_eq_some_iff_findIdx_eq.mp hIndex).1
  omega

theorem strspn_le
    (mem : List UInt8)
    (p : Nat)
    (accept : List UInt8) :
    strspn mem p accept ≤ (string mem p).length :=
  (List.takeWhile_prefix _).length_le

/- The string behind a span. -/
theorem string_strspn
    {mem : List UInt8}
    {p n : Nat}
    (hEnds : Ends mem p n)
    (accept : List UInt8) :
    string mem (p + strspn mem p accept) =
      (string mem p).dropWhile (accept.contains ·) := by
  rw [string_add hEnds (strspn_le mem p accept)]
  have hSplit :=
    List.takeWhile_append_dropWhile
      (p := (accept.contains ·)) (l := string mem p)
  have hDrop :=
    congrArg (List.drop (strspn mem p accept)) hSplit
  unfold strspn at hDrop ⊢
  rw [List.drop_left] at hDrop
  exact hDrop.symm

/- What is found is in the string. -/
theorem mem_of_strpbrk
    {mem : List UInt8}
    {p k : Nat}
    {accept : List UInt8}
    (hFind : strpbrk mem p accept = some k) :
    ∃ c ∈ string mem p, c ∈ accept := by
  unfold strpbrk at hFind
  rw [Option.map_eq_some_iff] at hFind
  rcases hFind with ⟨j, hIndex, _⟩
  rcases List.findIdx?_eq_some_iff_getElem.mp hIndex with
    ⟨hIn, hAccept, _⟩
  exact
    ⟨_, List.getElem_mem hIn, by simpa using hAccept⟩

/- There is something to find if the string holds it. -/
theorem strpbrk_isSome
    {mem : List UInt8}
    {p : Nat}
    {accept : List UInt8}
    {c : UInt8}
    (hMem : c ∈ string mem p)
    (hAccept : c ∈ accept) :
    ∃ k, strpbrk mem p accept = some k := by
  unfold strpbrk
  cases hFind :
      (string mem p).findIdx? (accept.contains ·) with
  | some j => exact ⟨p + j, rfl⟩
  | none =>
      have hNone := List.findIdx?_eq_none_iff.mp hFind c hMem
      simp [hAccept] at hNone

end CString

------------------------------------------------------------
-- Storing
------------------------------------------------------------

namespace CString

/- Nothing below the place changes. -/
theorem agree_store
    {mem : List UInt8}
    {p : Nat}
    (hPlace : p ≤ mem.length)
    (bytes : List UInt8) :
    Agree mem (store mem p bytes) p := by
  unfold Agree store
  rw [List.append_assoc, List.take_append_of_le_length,
    List.take_take, Nat.min_self]
  rw [List.length_take]
  omega

theorem store_nil
    (mem : List UInt8)
    (p : Nat) :
    store mem p [] = mem := by
  simp [store]

/- A byte below the place can be set before or after. -/
theorem store_set
    {mem : List UInt8}
    {p k : Nat}
    (hPlace : p ≤ mem.length)
    (hBelow : k < p)
    (c : UInt8)
    (bytes : List UInt8) :
    (store mem p bytes).set k c =
      store (mem.set k c) p bytes := by
  have hFirst : k < (mem.take p).length := by
    rw [List.length_take]
    omega
  unfold store
  rw [List.append_assoc, List.append_assoc,
    List.set_append_left _ _ hFirst, List.take_set,
    List.drop_set_of_lt (by omega)]

/- Storing one piece behind another. -/
theorem store_store
    {mem : List UInt8}
    {p : Nat}
    (hPlace : p ≤ mem.length)
    (bytes more : List UInt8) :
    store (store mem p bytes) (p + bytes.length) more =
      store mem p (bytes ++ more) := by
  have hFront :
      (mem.take p ++ bytes).length = p + bytes.length := by
    rw [List.length_append, List.length_take]
    omega
  unfold store
  rw [List.take_left' hFront, ← List.drop_drop,
    List.drop_left' hFront, List.drop_drop,
    List.length_append]
  simp only [List.append_assoc, Nat.add_assoc]

theorem length_store
    {mem bytes : List UInt8}
    {p : Nat}
    (hRoom : p + bytes.length ≤ mem.length) :
    (store mem p bytes).length = mem.length := by
  unfold store
  simp only [List.length_append, List.length_take,
    List.length_drop]
  omega

theorem le_length_store
    {mem : List UInt8}
    {p : Nat}
    (hPlace : p ≤ mem.length)
    (bytes : List UInt8) :
    p + bytes.length ≤ (store mem p bytes).length := by
  unfold store
  simp only [List.length_append, List.length_take,
    List.length_drop]
  omega

theorem storeInside_of_room
    {mem bytes : List UInt8}
    {p : Nat}
    (hRoom : p + bytes.length ≤ mem.length) :
    storeInside mem p bytes = some (store mem p bytes) :=
  if_pos hRoom

/- A piece stored inside, behind another one. -/
theorem storeInside_store
    {mem bytes more : List UInt8}
    {p : Nat}
    (hRoom :
      p + (bytes ++ more).length ≤ mem.length) :
    storeInside (store mem p bytes) (p + bytes.length) more =
      some (store mem p (bytes ++ more)) := by
  rw [List.length_append] at hRoom
  have hSame : (store mem p bytes).length = mem.length :=
    length_store (by omega)
  rw [storeInside_of_room (by rw [hSame]; omega),
    store_store (by omega)]

/- The bytes stored. -/
theorem getElem?_store
    {mem : List UInt8}
    {p i : Nat}
    (hPlace : p ≤ mem.length)
    {bytes : List UInt8}
    (hIn : i < bytes.length) :
    (store mem p bytes)[p + i]? = bytes[i]? := by
  have hFront : (mem.take p).length = p := by
    rw [List.length_take]
    omega
  unfold store
  rw [List.append_assoc, List.getElem?_append_right
    (by omega), hFront, Nat.add_sub_cancel_left,
    List.getElem?_append_left hIn]

/- Printing within the memory keeps its length. -/
theorem length_vsnprintf
    {mem : List UInt8}
    {p size : Nat}
    (hRoom : p + size ≤ mem.length)
    (text : List UInt8) :
    (vsnprintf mem p size text).length = mem.length := by
  unfold vsnprintf
  split_ifs with hNone
  · rfl
  · apply length_store
    simp only [List.length_append, List.length_take,
      List.length_singleton]
    omega

/- A text that fits is put whole behind what was there. -/
theorem vsnprintf_append
    {mem text : List UInt8}
    (hText : text <+: mem)
    (more : List UInt8)
    {size : Nat}
    (hFits : more.length < size)
    (hRoom : text.length + size ≤ mem.length) :
    text ++ more <+: vsnprintf mem text.length size more ∧
      (vsnprintf mem text.length size more).length =
        mem.length := by
  have hTake : more.take (size - 1) = more :=
    List.take_of_length_le (by omega)
  unfold vsnprintf
  rw [if_neg (by omega), hTake]
  constructor
  · unfold store
    rw [← List.prefix_iff_eq_take.mp hText, List.append_assoc,
      List.append_assoc, ← List.append_assoc text more]
    exact List.prefix_append _ _
  · apply length_store
    rw [List.length_append, List.length_singleton]
    omega

/- No byte of a string is its terminator. -/
theorem zero_not_mem_string
    (mem : List UInt8)
    (p : Nat) :
    0 ∉ string mem p := by
  intro hMem
  have hPlain := List.mem_takeWhile_imp hMem
  simp at hPlain

end CString

------------------------------------------------------------
-- Cutting
------------------------------------------------------------

namespace CString

/- Nothing below a byte that is set changes. -/
theorem agree_set
    {mem : List UInt8}
    {n k : Nat}
    (hAbove : n ≤ k)
    (c : UInt8) :
    Agree mem (mem.set k c) n := by
  unfold Agree
  rw [List.take_set_of_le hAbove]

/- A string that is cut at one of its bytes is two strings. -/
theorem string_cut
    {mem : List UInt8}
    {p n j : Nat}
    (hEnds : Ends mem p n)
    (hIn : j < (string mem p).length) :
    string (mem.set (p + j) 0) p = (string mem p).take j ∧
      string (mem.set (p + j) 0) (p + j + 1) =
        (string mem p).drop (j + 1) := by
  rcases hEnds.split with ⟨a, b, hDrop, hPlain, _⟩
  rw [string_of_drop hDrop hPlain] at hIn ⊢
  have hCut :
      (mem.set (p + j) 0).drop p =
        a.take j ++ 0 :: (a.drop (j + 1) ++ 0 :: b) := by
    rw [List.drop_set, if_neg (by omega), hDrop,
      Nat.add_sub_cancel_left, List.set_append_left _ _ hIn,
      List.set_eq_take_append_cons_drop, if_pos hIn,
      List.append_assoc, List.cons_append]
  constructor
  · apply string_of_drop hCut
    intro hMem
    exact hPlain (List.mem_of_mem_take hMem)
  · apply string_of_drop (b := b)
    · have hLength : (a.take j ++ [0]).length = j + 1 := by
        rw [List.length_append, List.length_take,
          Nat.min_eq_left (Nat.le_of_lt hIn)]
        rfl
      rw [Nat.add_assoc, ← List.drop_drop, hCut,
        List.append_cons, List.drop_left' hLength]
    · intro hMem
      exact hPlain (List.mem_of_mem_drop hMem)

end CString
