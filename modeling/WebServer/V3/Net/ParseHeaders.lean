import WebServer.V3.Net.HttpData

/-
  Reading the header lines in version 3.0
  (`HttpData::parseHeaders`).

  `hState_` and `headers_` live on between calls; the
  positions are local variables and start at -1 in every
  call. The loop runs over the rest of the buffer at index
  `i`.

  The positions are `int` variables, so an index of 2^31 or
  more wraps. How a number is kept is a parameter of the
  loop: `parseHeaders` runs it with the machine's `int` and
  `size_t`. With numbers that are never cut it gives the
  same in a buffer of less than 2^31 bytes.

  Key definitions include:
    * `Ints`
    * `HeaderLocals`
    * `HeaderScan`
    * `HeaderScan.next`
    * `headerLoop`
    * `HttpData.parseHeaders`

  Key theorems include:
    * `HttpData.parseHeaders_eq`
-/

------------------------------------------------------------
-- Positions
------------------------------------------------------------

namespace WebServer

namespace V3

open StdString

/-
  What an `int` variable keeps of a number, and what a
  `size_t` makes of an `int`.
-/
structure Ints where
  int : Int → Int
  size : Int → Int

namespace Ints

/- The 32 and 64 bits of the machine. -/
def machine : Ints where
  int := toInt32
  size := fun n => toSize n

/- Numbers that are never cut. -/
abbrev exact : Ints where
  int := fun n => n
  size := fun n => n

/- `x - y` on `int`: an overflow has no result. -/
def sub
    (w : Ints)
    (x y : Int) : Except Fault Int :=
  if w.int (x - y) = x - y then
    .ok (x - y)
  else
    .error .overflow

@[simp] theorem exact_sub
    (x y : Int) :
    exact.sub x y = .ok (x - y) :=
  if_pos rfl

@[simp] theorem exact_sub_bind
    {α : Type}
    (x y : Int)
    (f : Int → Except Fault α) :
    (exact.sub x y >>= f) = f (x - y) := by
  rw [exact_sub]
  rfl

end Ints

end V3

end WebServer

------------------------------------------------------------
-- One Byte
------------------------------------------------------------

namespace WebServer

namespace V3

open StdString

/- The local variables of `parseHeaders`. -/
structure HeaderLocals where
  keyStart : Int
  keyEnd : Int
  valueStart : Int
  valueEnd : Int
  nowReadLineBegin : Int
deriving DecidableEq, Repr

def HeaderLocals.init : HeaderLocals where
  keyStart := -1
  keyEnd := -1
  valueStart := -1
  valueEnd := -1
  nowReadLineBegin := 0

/- What the loop works on. -/
structure HeaderScan where
  hState : ParseState
  headers : Headers
  vars : HeaderLocals

/-
  What one turn of the loop leads to: the next turn, the end
  of the loop (`notFinish` was cleared), or
  `PARSE_HEADER_ERROR`.
-/
inductive HeaderTurn
| more (scan : HeaderScan)
| done (scan : HeaderScan)
| error (scan : HeaderScan)

def isCr
    (c : Byte) : Bool :=
  c == 13

def isLf
    (c : Byte) : Bool :=
  c == 10

namespace HeaderScan

def setState
    (scan : HeaderScan)
    (hState : ParseState) : HeaderScan :=
  { scan with hState := hState }

/- One turn of the loop, at byte `c` and index `i`. -/
def next
    (w : Ints)
    (str : Bytes)
    (scan : HeaderScan)
    (c : Byte)
    (i : Nat) : Except Fault HeaderTurn :=
  match scan.hState with
  | .start =>
      if isLf c || isCr c then
        .ok (.more scan)
      else
        .ok
          (.more
            { scan with
              hState := .key
              vars :=
                { scan.vars with
                  keyStart := w.int i
                  nowReadLineBegin := w.int i } })
  | .key =>
      if c == 58 then do
        let keyEnd := w.int i
        let length ← w.sub keyEnd scan.vars.keyStart
        let scan :=
          { scan with
            vars := { scan.vars with keyEnd := keyEnd } }
        if length ≤ 0 then
          .ok (.error scan)
        else
          .ok (.more (scan.setState .colon))
      else if isLf c || isCr c then
        .ok (.error scan)
      else
        .ok (.more scan)
  | .colon =>
      if c == 32 then
        .ok (.more (scan.setState .spacesAfterColon))
      else
        .ok (.error scan)
  | .spacesAfterColon =>
      .ok
        (.more
          { scan with
            hState := .value
            vars :=
              { scan.vars with valueStart := w.int i } })
  | .value =>
      if isCr c then do
        let valueEnd := w.int i
        let length ← w.sub valueEnd scan.vars.valueStart
        let scan :=
          { scan with
            hState := .cr
            vars := { scan.vars with valueEnd := valueEnd } }
        if length ≤ 0 then
          .ok (.error scan)
        else
          .ok (.more scan)
      -- `i - value_start` is a `size_t`
      else if 255 < w.size (i - scan.vars.valueStart) then
        .ok (.error scan)
      else
        .ok (.more scan)
  | .cr =>
      if isLf c then do
        let key ←
          range str scan.vars.keyStart scan.vars.keyEnd
        let value ←
          range str scan.vars.valueStart scan.vars.valueEnd
        .ok
          (.more
            { hState := .lf
              headers :=
                Function.update scan.headers key (some value)
              vars :=
                { scan.vars with
                  nowReadLineBegin := w.int i } })
      else
        .ok (.error scan)
  | .lf =>
      if isCr c then
        .ok (.more (scan.setState .endCr))
      else
        .ok
          (.more
            { scan with
              hState := .key
              vars := { scan.vars with keyStart := w.int i } })
  | .endCr =>
      if isLf c then
        .ok (.more (scan.setState .endLf))
      else
        .ok (.error scan)
  | .endLf =>
      .ok
        (.done
          { scan with
            vars :=
              { scan.vars with
                keyStart := w.int i
                nowReadLineBegin := w.int i } })

end HeaderScan

end V3

end WebServer

------------------------------------------------------------
-- The Loop
------------------------------------------------------------

namespace WebServer

namespace V3

open StdString

/-
  How the loop ends: at index `i`, or with
  `PARSE_HEADER_ERROR`.
-/
inductive HeaderEnd
| stopped (i : Nat) (scan : HeaderScan)
| error (scan : HeaderScan)

/- The loop over the bytes from index `i` on. -/
def headerLoop
    (w : Ints)
    (str : Bytes) :
    Bytes → Nat → HeaderScan → Except Fault HeaderEnd
| [], i, scan => .ok (.stopped i scan)
| c :: rest, i, scan => do
    match ← scan.next w str c i with
    | .more scan => headerLoop w str rest (i + 1) scan
    | .done scan => .ok (.stopped (i + 1) scan)
    | .error scan => .ok (.error scan)

namespace HttpData

/- Keep what a scan left in the members. -/
def setScan
    (d : HttpData)
    (scan : HeaderScan) : HttpData :=
  { d with hState := scan.hState, headers := scan.headers }

/- What the loop does in a call. -/
def scanHeaders
    (d : HttpData)
    (w : Ints) : Except Fault HeaderEnd :=
  headerLoop w d.inBuffer d.inBuffer 0
    ⟨d.hState, d.headers, .init⟩

/- `parseHeaders()`, its numbers kept as `w` does. -/
def parseHeadersBy
    (d : HttpData)
    (w : Ints) : Except Fault (HeaderState × HttpData) := do
  let str := d.inBuffer
  match ← d.scanHeaders w with
  | .error scan => .ok (.error, d.setScan scan)
  | .stopped i scan =>
      let d := d.setScan scan
      if scan.hState = .endLf then do
        let rest ← substr str i str.length
        .ok (.success, { d with inBuffer := rest })
      else do
        let pos := w.size scan.vars.nowReadLineBegin
        let rest ← substr str pos.toNat str.length
        .ok (.again, { d with inBuffer := rest })

/- `parseHeaders()`. -/
def parseHeaders
    (d : HttpData) :
    Except Fault (HeaderState × HttpData) :=
  d.parseHeadersBy .machine

end HttpData

end V3

end WebServer

------------------------------------------------------------
-- Turns Of The Loop
------------------------------------------------------------

namespace WebServer

namespace V3

open StdString

variable {w : Ints}

theorem headerLoop_of_more
    {str rest : Bytes}
    {scan scan' : HeaderScan}
    {c : Byte}
    {i : Nat}
    (hNext : scan.next w str c i = .ok (.more scan')) :
    headerLoop w str (c :: rest) i scan =
      headerLoop w str rest (i + 1) scan' := by
  simp only [headerLoop, hNext]
  rfl

theorem headerLoop_of_done
    {str rest : Bytes}
    {scan scan' : HeaderScan}
    {c : Byte}
    {i : Nat}
    (hNext : scan.next w str c i = .ok (.done scan')) :
    headerLoop w str (c :: rest) i scan =
      .ok (.stopped (i + 1) scan') := by
  simp only [headerLoop, hNext]
  rfl

theorem headerLoop_of_error
    {str rest : Bytes}
    {scan scan' : HeaderScan}
    {c : Byte}
    {i : Nat}
    (hNext : scan.next w str c i = .ok (.error scan')) :
    headerLoop w str (c :: rest) i scan =
      .ok (.error scan') := by
  simp only [headerLoop, hNext]
  rfl

theorem headerLoop_of_fault
    {str rest : Bytes}
    {scan : HeaderScan}
    {c : Byte}
    {i : Nat}
    {f : Fault}
    (hNext : scan.next w str c i = .error f) :
    headerLoop w str (c :: rest) i scan = .error f := by
  simp only [headerLoop, hNext]
  rfl

end V3

end WebServer

------------------------------------------------------------
-- Buffers Of Less Than 2^31 Bytes
------------------------------------------------------------

namespace WebServer

namespace V3

open StdString

/- The positions set so far are not behind index `i`. -/
structure HeaderLocals.Within
    (vars : HeaderLocals)
    (i : Int) : Prop where
  keyStart : -1 ≤ vars.keyStart ∧ vars.keyStart ≤ i
  keyEnd : -1 ≤ vars.keyEnd ∧ vars.keyEnd ≤ i
  valueStart : -1 ≤ vars.valueStart ∧ vars.valueStart ≤ i
  valueEnd : -1 ≤ vars.valueEnd ∧ vars.valueEnd ≤ i
  nowReadLineBegin :
    0 ≤ vars.nowReadLineBegin ∧ vars.nowReadLineBegin ≤ i

theorem HeaderLocals.within_init :
    HeaderLocals.init.Within 0 := by
  constructor <;> decide

namespace Ints

theorem machine_int
    {n : Int}
    (hNonneg : -1 ≤ n)
    (hSmall : n < 2 ^ 31) :
    machine.int n = n :=
  toInt32_of_isInt32 (by unfold IsInt32; omega)

theorem machine_size
    {n : Int}
    (hNonneg : 0 ≤ n)
    (hSmall : n < 2 ^ 64) :
    machine.size n = n := by
  unfold machine
  simp only [toSize_of_nonneg hNonneg hSmall]
  omega

theorem machine_sub
    {x y : Int}
    (hSmall : IsInt32 (x - y)) :
    machine.sub x y = .ok (x - y) :=
  if_pos (toInt32_of_isInt32 hSmall)

end Ints

/- A turn depends on what becomes of these numbers. -/
theorem HeaderScan.next_congr
    {w w' : Ints}
    {scan : HeaderScan}
    {i : Nat}
    (hInt : w.int i = w'.int i)
    (hKey :
      w.sub (w.int i) scan.vars.keyStart =
        w'.sub (w'.int i) scan.vars.keyStart)
    (hValue :
      w.sub (w.int i) scan.vars.valueStart =
        w'.sub (w'.int i) scan.vars.valueStart)
    (hSize :
      w.size (i - scan.vars.valueStart) =
        w'.size (i - scan.vars.valueStart))
    (str : Bytes)
    (c : Byte) :
    scan.next w str c i = scan.next w' str c i := by
  rw [hInt] at hKey hValue
  simp only [next, hInt, hKey, hValue, hSize]

/- Below 2^31 a turn does not cut any number. -/
theorem HeaderScan.next_eq
    {scan : HeaderScan}
    {i : Nat}
    (hWithin : scan.vars.Within i)
    (hSmall : i + 1 < 2 ^ 31)
    (str : Bytes)
    (c : Byte) :
    scan.next .machine str c i = scan.next .exact str c i := by
  have hInt : Ints.machine.int i = i :=
    Ints.machine_int (by omega) (by omega)
  have hSub : ∀ n, -1 ≤ n ∧ n ≤ (i : Int) →
      Ints.machine.sub (Ints.machine.int i) n =
        Ints.exact.sub i n := by
    intro n hStart
    rw [hInt, Ints.exact_sub]
    apply Ints.machine_sub
    unfold IsInt32
    omega
  have hSize :
      Ints.machine.size (i - scan.vars.valueStart) =
        i - scan.vars.valueStart := by
    have hStart := hWithin.valueStart
    apply Ints.machine_size
    · omega
    · omega
  exact
    next_congr hInt (hSub _ hWithin.keyStart)
      (hSub _ hWithin.valueStart) hSize str c

/- And it keeps the positions within the bytes read. -/
theorem HeaderLocals.Within.next
    {scan : HeaderScan}
    {i : Nat}
    (hWithin : scan.vars.Within i)
    (str : Bytes)
    (c : Byte) :
    match scan.next .exact str c i with
    | .ok (.more scan') => scan'.vars.Within (i + 1)
    | .ok (.done scan') => scan'.vars.Within (i + 1)
    | _ => True := by
  rcases scan with ⟨hState, headers, vars⟩
  rcases hWithin with
    ⟨hKeyStart, hKeyEnd, hValueStart, hValueEnd, hBegin⟩
  simp only at *
  have hKept : vars.Within (i + 1) := by
    constructor <;> omega
  cases hState <;>
    simp only [HeaderScan.next, HeaderScan.setState,
      Ints.exact_sub, bind, Except.bind]
  case start =>
      split_ifs
      · exact hKept
      · constructor <;> simp only <;> omega
  case key =>
      split_ifs
      · trivial
      · exact { hKept with keyEnd := by simp only; omega }
      · trivial
      · exact hKept
  case colon =>
      split_ifs
      · exact hKept
      · trivial
  case spacesAfterColon =>
      exact { hKept with valueStart := by simp only; omega }
  case value =>
      split_ifs
      · trivial
      · exact { hKept with valueEnd := by simp only; omega }
      · trivial
      · exact hKept
  case cr =>
      split_ifs
      · cases range str vars.keyStart vars.keyEnd with
        | error f => trivial
        | ok key =>
            cases range str vars.valueStart vars.valueEnd with
            | error f => trivial
            | ok value =>
                exact
                  { hKept with
                    nowReadLineBegin := by simp only; omega }
      · trivial
  case lf =>
      split_ifs
      · exact hKept
      · exact { hKept with keyStart := by simp only; omega }
  case endCr =>
      split_ifs
      · exact hKept
      · trivial
  case endLf =>
      constructor <;> simp only <;> omega

/- Nor does the loop cut any number. -/
theorem headerLoop_eq
    {rest : Bytes}
    {i : Nat}
    {scan : HeaderScan}
    (hWithin : scan.vars.Within i)
    (hSmall : i + rest.length < 2 ^ 31)
    (str : Bytes) :
    headerLoop .machine str rest i scan =
        headerLoop .exact str rest i scan ∧
      ∀ j scan',
        headerLoop .exact str rest i scan =
            .ok (.stopped j scan') →
          scan'.vars.Within j ∧ j ≤ i + rest.length := by
  induction rest generalizing i scan with
  | nil =>
      refine ⟨rfl, ?_⟩
      rintro j scan' h
      cases h
      exact ⟨hWithin, Nat.le_refl _⟩
  | cons c rest ih =>
      rw [List.length_cons] at hSmall ⊢
      have hSame :=
        HeaderScan.next_eq hWithin (by omega) str c
      have hNext := hWithin.next str c
      cases hCase : scan.next .exact str c i with
      | error f =>
          rw [headerLoop_of_fault hCase,
            headerLoop_of_fault (hSame.trans hCase)]
          exact ⟨rfl, fun _ _ h => (by cases h)⟩
      | ok turn =>
          rw [hCase] at hSame hNext
          cases turn with
          | more scan₁ =>
              rw [headerLoop_of_more hCase,
                headerLoop_of_more hSame]
              rcases ih (i := i + 1) hNext (by omega) with
                ⟨hLoop, hStop⟩
              refine ⟨hLoop, ?_⟩
              intro j scan' h
              rcases hStop j scan' h with ⟨hIn, hLe⟩
              exact ⟨hIn, by omega⟩
          | done scan₁ =>
              rw [headerLoop_of_done hCase,
                headerLoop_of_done hSame]
              refine ⟨rfl, ?_⟩
              rintro j scan' h
              cases h
              exact ⟨hNext, by omega⟩
          | error scan₁ =>
              rw [headerLoop_of_error hCase,
                headerLoop_of_error hSame]
              exact ⟨rfl, fun _ _ h => (by cases h)⟩

/- In a short buffer the width does not matter. -/
theorem HttpData.parseHeaders_eq
    {d : HttpData}
    (hShort : d.inBuffer.length < 2 ^ 31) :
    d.parseHeaders = d.parseHeadersBy .exact := by
  have hWithin :
      (HeaderScan.mk d.hState d.headers .init).vars.Within
        ((0 : Nat) : Int) :=
    HeaderLocals.within_init
  rcases
    headerLoop_eq hWithin
      (by omega : 0 + d.inBuffer.length < 2 ^ 31)
      d.inBuffer with
    ⟨hLoop, hStop⟩
  have hScan :
      d.scanHeaders .machine = d.scanHeaders .exact := hLoop
  unfold parseHeaders parseHeadersBy
  rw [hScan]
  cases hCase : d.scanHeaders .exact with
  | error f => rfl
  | ok how =>
      cases how with
      | error scan => rfl
      | stopped i scan =>
          rcases hStop i scan hCase with ⟨hIn, hLe⟩
          have hBegin := hIn.nowReadLineBegin
          have hSize :
              Ints.machine.size scan.vars.nowReadLineBegin =
                scan.vars.nowReadLineBegin :=
            Ints.machine_size hBegin.1 (by omega)
          simp only [hSize, bind, Except.bind]

end V3

end WebServer
