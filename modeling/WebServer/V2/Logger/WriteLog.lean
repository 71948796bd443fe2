import WebServer.V2.Http.ProcessWrite

/-
  Formatting a line of the version 2.0 log
  (`logger::write_log`).

  The line is printed into `m_buf`: the time and the level,
  then the message, cut to the room that is left. The length
  that `vsnprintf` returns is that of the whole message, and
  the newline and the terminator are stored behind it.

  Key definitions include:
    * `LogTime`
    * `logPrefix`
    * `formatLine`
    * `LineLogged`

  Key theorems include:
    * `length_logPrefix`
    * `printLine_of_fits`
    * `formatLine_isSome_iff`
    * `LineLogged.fits`
    * `line_logged_iff`
-/

------------------------------------------------------------
-- The Prefix Of A Line
------------------------------------------------------------

namespace WebServer

namespace V2

/-
  The fields of `struct tm` and the microseconds, within the
  bounds that `localtime` and `gettimeofday` keep.
-/
structure LogTime where
  tmYear : Int
  tmMon : Nat
  tmMday : Nat
  tmHour : Nat
  tmMin : Nat
  tmSec : Nat
  tvUsec : Nat
  year_int : IsInt32 (tmYear + 1900)
  mon_le : tmMon ≤ 11
  mday_le : tmMday ≤ 31
  hour_le : tmHour ≤ 23
  min_le : tmMin ≤ 59
  sec_le : tmSec ≤ 60
  usec_lt : tvUsec < 1000000
deriving DecidableEq

/- A number as `%02d` and `%06ld` print it. -/
def zeroPadded
    (width n : Nat) : Bytes :=
  let digits := utf8 (toString n)
  List.replicate (width - digits.length) 48 ++ digits

/- The text of a level. -/
def levelText :
    Int → Bytes
| 0 => utf8 "[debug]:"
| 1 => utf8 "[info]:"
| 2 => utf8 "[warn]:"
| 3 => utf8 "[error]:"
| _ => utf8 "[info]:"

/- `"%d-%02d-%02d %02d:%02d:%02d.%06ld %s "`. -/
def logPrefix
    (now : LogTime)
    (level : Int) : Bytes :=
  decimal (now.tmYear + 1900) ++ utf8 "-" ++
    zeroPadded 2 (now.tmMon + 1) ++ utf8 "-" ++
    zeroPadded 2 now.tmMday ++ utf8 " " ++
    zeroPadded 2 now.tmHour ++ utf8 ":" ++
    zeroPadded 2 now.tmMin ++ utf8 ":" ++
    zeroPadded 2 now.tmSec ++ utf8 "." ++
    zeroPadded 6 now.tvUsec ++ utf8 " " ++
    levelText level ++ utf8 " "

theorem length_zeroPadded
    {width n : Nat}
    (hPos : 0 < width)
    (hSmall : n < 10 ^ width) :
    (zeroPadded width n).length = width := by
  have hDigits : (utf8 (toString n)).length ≤ width :=
    MessageFraming.length_toString_le hPos hSmall
  unfold zeroPadded
  rw [List.length_append, List.length_replicate]
  omega

theorem length_levelText
    (level : Int) :
    (levelText level).length ≤ 8 := by
  unfold levelText
  split <;> decide

/- The prefix is printed whole into 48 bytes. -/
theorem length_logPrefix
    (now : LogTime)
    (level : Int) :
    1 ≤ (logPrefix now level).length ∧
      (logPrefix now level).length ≤ 43 := by
  have hMon := now.mon_le
  have hMday := now.mday_le
  have hHour := now.hour_le
  have hMin := now.min_le
  have hSec := now.sec_le
  have hUsec := now.usec_lt
  have hYear := HttpConn.length_decimal now.year_int
  have hLevel := length_levelText level
  have hDash : (utf8 "-").length = 1 := rfl
  have hColon : (utf8 ":").length = 1 := rfl
  have hDot : (utf8 ".").length = 1 := rfl
  have hBlank : (utf8 " ").length = 1 := rfl
  unfold logPrefix
  simp only [List.length_append, hDash, hColon, hDot, hBlank]
  rw [length_zeroPadded (by decide) (by omega),
    length_zeroPadded (by decide) (by omega),
    length_zeroPadded (by decide) (by omega),
    length_zeroPadded (by decide) (by omega),
    length_zeroPadded (by decide) (by omega),
    length_zeroPadded (by decide) (by omega)]
  omega

theorem zero_not_mem_digits
    (n : Nat) :
    0 ∉ utf8 (toString n) := by
  intro hMem
  have hDigit := MessageFraming.isDigit_of_mem_toString hMem
  revert hDigit
  decide

theorem zero_not_mem_zeroPadded
    (width n : Nat) :
    0 ∉ zeroPadded width n := by
  unfold zeroPadded
  intro hMem
  rcases List.mem_append.mp hMem with hPad | hDigit
  · have hEq := List.eq_of_mem_replicate hPad
    revert hEq
    decide
  · exact zero_not_mem_digits n hDigit

theorem zero_not_mem_decimal
    (n : Int) :
    0 ∉ decimal n := by
  unfold decimal
  intro hMem
  rcases List.mem_append.mp hMem with hSign | hDigit
  · split_ifs at hSign <;> simp at hSign
  · exact zero_not_mem_digits _ hDigit

theorem zero_not_mem_levelText
    (level : Int) :
    0 ∉ levelText level := by
  unfold levelText
  split <;> decide

/- The prefix is a C string. -/
theorem zero_not_mem_logPrefix
    (now : LogTime)
    (level : Int) :
    0 ∉ logPrefix now level := by
  have hDash : 0 ∉ utf8 "-" := by decide
  have hColon : 0 ∉ utf8 ":" := by decide
  have hDot : 0 ∉ utf8 "." := by decide
  have hBlank : 0 ∉ utf8 " " := by decide
  unfold logPrefix
  simp only [List.mem_append, not_or]
  simp only [hDash, hColon, hDot, hBlank,
    zero_not_mem_decimal, zero_not_mem_zeroPadded,
    zero_not_mem_levelText, not_false_eq_true, and_self]

end V2

end WebServer

------------------------------------------------------------
-- Printing A Line
------------------------------------------------------------

namespace WebServer

namespace V2

/-
  What `vsnprintf` returns: the length of the whole text, or
  an error where that is not an `int`.
-/
def vsnprintfResult
    (text : Bytes) : Int :=
  if (text.length : Int) < 2 ^ 31 then text.length else -1

/- `m_buf[index] = c`, inside the buffer only. -/
def storeAt
    (mBuf : Bytes)
    (index : Int)
    (c : Byte) : Option Bytes :=
  if 0 ≤ index ∧ index < mBuf.length then
    some (mBuf.set index.toNat c)
  else
    none

/- `m_log_buf_size - n - 1`, as a size. -/
def messageRoom
    (mLogBufSize n : Int) : Option Nat := do
  let left ← subInt32 mLogBufSize n
  let room ← subInt32 left 1
  some (toSize room)

/- `m_buf[n + m] = '\n'; m_buf[n + m + 1] = '\0';` -/
def endLine
    (mBuf : Bytes)
    (n m : Int) : Option Bytes := do
  let index ← addInt32 n m
  let mBuf ← storeAt mBuf index 10
  let next ← addInt32 index 1
  storeAt mBuf next 0

/-
  What `m_buf`, which is `m_log_buf_size` long, holds in the
  end, given the texts of the two calls.
-/
def printLine
    (mBuf text message : Bytes) : Option Bytes := do
  let printed := CString.vsnprintf mBuf 0 48 text
  let n := vsnprintfResult text
  let room ← messageRoom mBuf.length n
  endLine (CString.vsnprintf printed n.toNat room message)
    n (vsnprintfResult message)

/-
  The second critical section of `write_log`, given the text
  that the format makes: `m_buf` and `log_str`.
-/
def formatLine
    (mBuf : Bytes)
    (now : LogTime)
    (level : Int)
    (message : Bytes) : Option (Bytes × Bytes) := do
  let mBuf ← printLine mBuf (logPrefix now level) message
  some (mBuf, CString.string mBuf 0)

/-
  The newline and the terminator are stored in the buffer,
  and the string is the prefix, the message cut to the room
  left, and a newline.
-/
def LineLogged
    (mBuf : Bytes)
    (now : LogTime)
    (level : Int)
    (message : Bytes) : Prop :=
  ∃ mBuf',
    formatLine mBuf now level message =
      some
        (mBuf',
          logPrefix now level ++
            message.take
              (mBuf.length -
                (logPrefix now level).length - 2) ++
            [10])

end V2

end WebServer

------------------------------------------------------------
-- The End Of A Line
------------------------------------------------------------

namespace WebServer

namespace V2

theorem vsnprintfResult_of_small
    {text : Bytes}
    (hSmall : text.length < 2 ^ 31) :
    vsnprintfResult text = text.length := by
  unfold vsnprintfResult
  rw [if_pos (by omega)]

theorem messageRoom_eq
    {size n : Nat}
    (hFits : n + 1 ≤ size)
    (hInt : size < 2 ^ 31) :
    messageRoom size n = some (size - n - 1) := by
  have hLeft :
      subInt32 (size : Int) n = some ((size : Int) - n) :=
    subInt32_of_isInt32 ⟨by omega, by omega⟩
  have hRoom :
      subInt32 ((size : Int) - n) 1 =
        some ((size : Int) - n - 1) :=
    subInt32_of_isInt32 ⟨by omega, by omega⟩
  have hWidth :
      toSize ((size : Int) - n - 1) = size - n - 1 := by
    rw [toSize_of_nonneg (by omega) (by omega)]
    omega
  unfold messageRoom
  rw [hLeft]
  show Option.bind (some _) _ = _
  rw [Option.bind_some, hRoom]
  show Option.bind (some _) _ = _
  rw [Option.bind_some, hWidth]

/- Two places behind a text take the end of the line. -/
theorem endLine_of_room
    {front rest : Bytes}
    {a b : Byte}
    {n m : Int}
    (hIndex : n + m = front.length)
    (hSmall : front.length + 1 < 2 ^ 31) :
    endLine (front ++ a :: b :: rest) n m =
      some (front ++ 10 :: 0 :: rest) := by
  have hAdd : addInt32 n m = some (front.length : Int) := by
    rw [← hIndex]
    apply addInt32_of_isInt32
    exact ⟨by omega, by omega⟩
  have hNext :
      addInt32 (front.length : Int) 1 =
        some ((front.length : Int) + 1) :=
    addInt32_of_isInt32 ⟨by omega, by omega⟩
  have hNewline :
      storeAt (front ++ a :: b :: rest) front.length 10 =
        some (front ++ 10 :: b :: rest) := by
    unfold storeAt
    rw [if_pos (by simp; omega), Int.toNat_natCast,
      List.set_append_right _ _ (Nat.le_refl _),
      Nat.sub_self, List.set_cons_zero]
  have hNul :
      storeAt (front ++ 10 :: b :: rest)
          ((front.length : Int) + 1) 0 =
        some (front ++ 10 :: 0 :: rest) := by
    have hPlace :
        ((front.length : Int) + 1).toNat =
          front.length + 1 := by
      omega
    unfold storeAt
    rw [if_pos (by simp; omega), hPlace,
      List.set_append_right _ _ (Nat.le_add_right _ 1),
      Nat.add_sub_cancel_left, List.set_cons_succ,
      List.set_cons_zero]
  unfold endLine
  rw [hAdd]
  show Option.bind (some _) _ = _
  rw [Option.bind_some, hNewline]
  show Option.bind (some _) _ = _
  rw [Option.bind_some, hNext]
  show Option.bind (some _) _ = _
  rw [Option.bind_some, hNul]

theorem length_of_storeAt
    {mBuf mBuf' : Bytes}
    {index : Int}
    {c : Byte}
    (hStore : storeAt mBuf index c = some mBuf') :
    mBuf'.length = mBuf.length := by
  unfold storeAt at hStore
  split_ifs at hStore
  rcases Option.some.inj hStore with rfl
  exact List.length_set

theorem length_of_endLine
    {mBuf mBuf' : Bytes}
    {n m : Int}
    (h : endLine mBuf n m = some mBuf') :
    mBuf'.length = mBuf.length := by
  unfold endLine at h
  rcases Option.bind_eq_some_iff.mp h with
    ⟨_, _, hLine⟩
  rcases Option.bind_eq_some_iff.mp hLine with
    ⟨lined, hLined, hEnd⟩
  rcases Option.bind_eq_some_iff.mp hEnd with
    ⟨_, _, hStore⟩
  exact
    (length_of_storeAt hStore).trans
      (length_of_storeAt hLined)

theorem storeAt_of_inside
    {mBuf : Bytes}
    {index : Int}
    (hInside : 0 ≤ index ∧ index < mBuf.length)
    (c : Byte) :
    ∃ mBuf', storeAt mBuf index c = some mBuf' :=
  ⟨mBuf.set index.toNat c, if_pos hInside⟩

/- Both stores go well where both places are inside. -/
theorem endLine_of_inside
    {mBuf : Bytes}
    {n m : Int}
    (hFrom : 0 ≤ n + m)
    (hInside : n + m + 1 < mBuf.length)
    (hInt : mBuf.length < 2 ^ 31) :
    ∃ mBuf', endLine mBuf n m = some mBuf' := by
  have hIndex : addInt32 n m = some (n + m) :=
    addInt32_of_isInt32 ⟨by omega, by omega⟩
  have hNext : addInt32 (n + m) 1 = some (n + m + 1) :=
    addInt32_of_isInt32 ⟨by omega, by omega⟩
  have hFirst : 0 ≤ n + m ∧ n + m < mBuf.length :=
    ⟨hFrom, by omega⟩
  rcases storeAt_of_inside hFirst 10 with ⟨lined, hLined⟩
  have hSecond :
      0 ≤ n + m + 1 ∧ n + m + 1 < lined.length := by
    rw [length_of_storeAt hLined]
    exact ⟨by omega, hInside⟩
  rcases storeAt_of_inside hSecond 0 with ⟨mBuf', hStore⟩
  refine ⟨mBuf', ?_⟩
  unfold endLine
  rw [hIndex]
  show Option.bind (some _) _ = _
  rw [Option.bind_some, hLined]
  show Option.bind (some _) _ = _
  rw [Option.bind_some, hNext]
  show Option.bind (some _) _ = _
  rw [Option.bind_some, hStore]

/- What the end of a line did, if both stores went well. -/
theorem endLine_some
    {mBuf mBuf' : Bytes}
    {n m : Int}
    (h : endLine mBuf n m = some mBuf') :
    n + m + 1 < mBuf.length ∧
      mBuf'[(n + m + 1).toNat]? = some 0 := by
  unfold endLine at h
  rcases Option.bind_eq_some_iff.mp h with
    ⟨index, hIndex, hLine⟩
  rcases Option.bind_eq_some_iff.mp hLine with
    ⟨lined, hLined, hEnd⟩
  rcases Option.bind_eq_some_iff.mp hEnd with
    ⟨next, hNext, hStore⟩
  unfold addInt32 at hIndex hNext
  unfold storeAt at hLined hStore
  split_ifs at hIndex hNext hLined hStore with _ _ _ hInside
  rcases Option.some.inj hIndex with rfl
  rcases Option.some.inj hNext with rfl
  rcases Option.some.inj hLined with rfl
  rcases Option.some.inj hStore with rfl
  rw [List.length_set] at hInside
  refine ⟨hInside.2, ?_⟩
  rw [List.getElem?_set_self]
  rw [List.length_set]
  omega

end V2

end WebServer

------------------------------------------------------------
-- Lines That Fit
------------------------------------------------------------

namespace WebServer

namespace V2

variable {mBuf text message : Bytes}

/- Both calls print inside the buffer. -/
theorem length_printed
    (hText : text.length ≤ 43)
    (hSize : 50 ≤ mBuf.length)
    (message : Bytes) :
    (CString.vsnprintf
        (CString.vsnprintf mBuf 0 48 text) text.length
        (mBuf.length - text.length - 1) message).length =
      mBuf.length := by
  have hFirst :
      (CString.vsnprintf mBuf 0 48 text).length =
        mBuf.length :=
    CString.length_vsnprintf (by omega) text
  rw [CString.length_vsnprintf (by rw [hFirst]; omega),
    hFirst]

/- What both calls printed before the line is ended. -/
theorem printLine_eq
    (hText : text.length ≤ 43)
    (hSize : 50 ≤ mBuf.length)
    (hInt : mBuf.length < 2 ^ 31) :
    printLine mBuf text message =
      endLine
        (CString.vsnprintf
          (CString.vsnprintf mBuf 0 48 text) text.length
          (mBuf.length - text.length - 1) message)
        text.length (vsnprintfResult message) := by
  unfold printLine
  dsimp only
  rw [vsnprintfResult_of_small (by omega),
    messageRoom_eq (by omega) hInt]
  show Option.bind (some _) _ = _
  rw [Option.bind_some, Int.toNat_natCast]

/- A message that fits is followed by the end of the line. -/
theorem printLine_of_fits
    (hText : text.length ≤ 43)
    (hSize : 50 ≤ mBuf.length)
    (hInt : mBuf.length < 2 ^ 31)
    (hFits :
      text.length + message.length + 2 ≤ mBuf.length) :
    ∃ rest,
      printLine mBuf text message =
        some (text ++ message ++ 10 :: 0 :: rest) := by
  have hRoom : ([] : Bytes).length + 48 ≤ mBuf.length := by
    rw [List.length_nil]
    omega
  rcases CString.vsnprintf_append List.nil_prefix text
      (by omega) hRoom with
    ⟨hFirst, hLong⟩
  rw [List.nil_append, List.length_nil] at hFirst
  rw [List.length_nil] at hLong
  have hFree :
      message.length < mBuf.length - text.length - 1 := by
    omega
  rcases CString.vsnprintf_append hFirst message hFree
      (by rw [hLong]; omega) with
    ⟨⟨back, hPrinted⟩, hWhole⟩
  have hBack : 2 ≤ back.length := by
    rw [← hPrinted, hLong] at hWhole
    simp only [List.length_append] at hWhole
    omega
  match back, hBack with
  | a :: b :: rest, _ =>
      refine ⟨rest, ?_⟩
      rw [printLine_eq hText hSize hInt, ← hPrinted]
      apply endLine_of_room
      · rw [vsnprintfResult_of_small (by omega),
          List.length_append, Int.natCast_add]
      · rw [List.length_append]
        omega

/-
  A line that was ended in the buffer either fits whole, or
  its message has no length in `int` and was dropped.
-/
theorem printLine_some
    {mBuf' : Bytes}
    (hText : text.length ≤ 43)
    (hSize : 50 ≤ mBuf.length)
    (hInt : mBuf.length < 2 ^ 31)
    (h : printLine mBuf text message = some mBuf') :
    text.length + message.length + 2 ≤ mBuf.length ∨
      mBuf'[text.length]? = some 0 := by
  rw [printLine_eq hText hSize hInt] at h
  rcases endLine_some h with ⟨hInside, hNul⟩
  rw [length_printed hText hSize] at hInside
  by_cases hShort : (message.length : Int) < 2 ^ 31
  · left
    unfold vsnprintfResult at hInside
    rw [if_pos hShort] at hInside
    omega
  · right
    unfold vsnprintfResult at hNul
    rw [if_neg hShort] at hNul
    have hPlace :
        ((text.length : Int) + -1 + 1).toNat =
          text.length := by
      omega
    rw [hPlace] at hNul
    exact hNul

/-
  A line is stored inside the buffer exactly when it fits
  with its end, or its message has no length in `int`.
-/
theorem formatLine_isSome_iff
    (hSize : 50 ≤ mBuf.length)
    (hInt : mBuf.length < 2 ^ 31)
    (now : LogTime)
    (level : Int)
    (message : Bytes) :
    (formatLine mBuf now level message).isSome = true ↔
      (logPrefix now level).length + message.length + 2 ≤
          mBuf.length ∨
        2 ^ 31 ≤ message.length := by
  have hPrefix := length_logPrefix now level
  have hPrinted :=
    length_printed hPrefix.2 hSize message
  unfold formatLine
  rw [printLine_eq hPrefix.2 hSize hInt]
  constructor
  · intro hSome
    rcases Option.isSome_iff_exists.mp hSome with
      ⟨_, hFormat⟩
    rcases Option.bind_eq_some_iff.mp hFormat with
      ⟨printed, hEnd, _⟩
    have hInside := (endLine_some hEnd).1
    rw [hPrinted] at hInside
    unfold vsnprintfResult at hInside
    split_ifs at hInside with hShort
    · left
      omega
    · right
      omega
  · intro hFits
    have hPlaces :
        0 ≤ ((logPrefix now level).length : Int) +
            vsnprintfResult message ∧
          ((logPrefix now level).length : Int) +
              vsnprintfResult message + 1 <
            mBuf.length := by
      unfold vsnprintfResult
      split_ifs <;> omega
    rcases endLine_of_inside hPlaces.1
        (by rw [hPrinted]; exact hPlaces.2)
        (by rw [hPrinted]; exact hInt) with
      ⟨printed, hEnd⟩
    rw [hEnd]
    rfl

/- The buffer keeps its length. -/
theorem length_of_formatLine
    {mBuf' logStr : Bytes}
    (hSize : 50 ≤ mBuf.length)
    (hInt : mBuf.length < 2 ^ 31)
    {now : LogTime}
    {level : Int}
    (hFormat :
      formatLine mBuf now level message =
        some (mBuf', logStr)) :
    mBuf'.length = mBuf.length := by
  have hPrefix := length_logPrefix now level
  unfold formatLine at hFormat
  rcases Option.bind_eq_some_iff.mp hFormat with
    ⟨printed, hPrint, hEq⟩
  simp only [Option.some.injEq, Prod.mk.injEq] at hEq
  rcases hEq with ⟨rfl, _⟩
  rw [printLine_eq hPrefix.2 hSize hInt] at hPrint
  exact
    (length_of_endLine hPrint).trans
      (length_printed hPrefix.2 hSize message)

end V2

end WebServer

------------------------------------------------------------
-- Logged Lines
------------------------------------------------------------

namespace WebServer

namespace V2

variable {mBuf : Bytes}
variable {now : LogTime}
variable {level : Int}
variable {message : Bytes}

/- A line logged as it should be fits and has no NUL. -/
theorem LineLogged.fits
    (h : LineLogged mBuf now level message)
    (hSize : 50 ≤ mBuf.length)
    (hInt : mBuf.length < 2 ^ 31) :
    (logPrefix now level).length + message.length + 2 ≤
        mBuf.length ∧
      0 ∉ message := by
  have hText := (length_logPrefix now level).2
  rcases h with ⟨mBuf', hFormat⟩
  unfold formatLine at hFormat
  rcases Option.bind_eq_some_iff.mp hFormat with
    ⟨printed, hPrint, hEq⟩
  simp only [Option.some.injEq, Prod.mk.injEq] at hEq
  rcases hEq with ⟨rfl, hString⟩
  have hFits :
      (logPrefix now level).length + message.length + 2 ≤
        mBuf.length := by
    rcases printLine_some hText hSize hInt hPrint with
      hFits | hNul
    · exact hFits
    · exfalso
      have hEnds :
          CString.Ends printed 0
            ((logPrefix now level).length + 1) :=
        ⟨_, Nat.zero_le _, Nat.lt_succ_self _, hNul⟩
      have hShort := hEnds.terminator.1
      rw [hString] at hShort
      simp only [List.length_append, List.length_singleton]
        at hShort
      omega
  refine ⟨hFits, ?_⟩
  intro hMem
  apply CString.zero_not_mem_string printed 0
  rw [hString, List.take_of_length_le (by omega)]
  simp [hMem]

/-
  A line is stored inside the buffer and logged as prefix,
  message and newline exactly when all of it fits, with its
  terminator, and the message holds no NUL.
-/
theorem line_logged_iff
    (hSize : 50 ≤ mBuf.length)
    (hInt : mBuf.length < 2 ^ 31)
    (now : LogTime)
    (level : Int)
    (message : Bytes) :
    LineLogged mBuf now level message ↔
      (logPrefix now level).length + message.length + 2 ≤
          mBuf.length ∧
        0 ∉ message := by
  constructor
  · intro h
    exact h.fits hSize hInt
  · rintro ⟨hFits, hPlain⟩
    have hText := (length_logPrefix now level).2
    rcases printLine_of_fits hText hSize hInt hFits with
      ⟨rest, hPrint⟩
    have hString :
        CString.string
            (logPrefix now level ++ message ++
              10 :: 0 :: rest) 0 =
          logPrefix now level ++ message ++ [10] := by
      apply CString.string_of_drop (b := rest)
      · rw [List.drop_zero]
        simp only [List.append_assoc, List.cons_append,
          List.nil_append]
      · simp [hPlain, zero_not_mem_logPrefix]
    refine
      ⟨logPrefix now level ++ message ++ 10 :: 0 :: rest,
        ?_⟩
    unfold formatLine
    rw [hPrint]
    show Option.bind (some _) _ = _
    rw [Option.bind_some, hString,
      List.take_of_length_le (by omega)]

/- The time in the example of the source. -/
def exampleTime : LogTime where
  tmYear := 124
  tmMon := 6
  tmMday := 23
  tmHour := 16
  tmMin := 37
  tmSec := 48
  tvUsec := 134314
  year_int := by decide
  mon_le := by decide
  mday_le := by decide
  hour_le := by decide
  min_le := by decide
  sec_le := by decide
  usec_lt := by decide

/- A short message in the smallest buffer. -/
theorem line_logged_iff_short :
    LineLogged (List.replicate 50 0) exampleTime 0
        (utf8 "ok") ↔
      (logPrefix exampleTime 0).length +
            (utf8 "ok").length + 2 ≤
          (List.replicate 50 (0 : Byte)).length ∧
        0 ∉ utf8 "ok" :=
  line_logged_iff (by decide) (by decide) exampleTime 0
    (utf8 "ok")

/- A long message is ended behind the default buffer. -/
theorem long_line_overruns :
    ¬ LineLogged (List.replicate 8192 0) exampleTime 0
      (List.replicate 8192 97) := by
  intro h
  have hFits :=
    (h.fits (by rw [List.length_replicate]; decide)
      (by rw [List.length_replicate]; decide)).1
  rw [List.length_replicate, List.length_replicate]
    at hFits
  omega

end V2

end WebServer
