import WebServer.Library.Machine
import WebServer.Library.StdString
import WebServer.V3.Net.Socket

/-
  `writen(fd, sbuff)` at the grain of its system calls
  (`net/Util.cpp`).

  A run makes any number of calls on one string until one of
  them returns -1. Each result of `write` is an event. The
  kernel takes bytes from where `ptr` points; what it took is
  collected in `sent`, and counted apart from `writeSum` in
  `taken`.

  Key definitions include:
    * `WritenRun`
    * `WritenRun.finish`
    * `WritenRun.write`
    * `writenMachine`
    * `WritenRun.Conserved`
    * `WritenRun.KeepsRest`

  Key theorems include:
    * `WritenRun.Looping.finish_eq`
    * `WritenRun.step_sound`
    * `WritenRun.eagain_loses`
    * `writen_conserves_iff`
    * `reaches_writenString`
-/

------------------------------------------------------------
-- Calls And Their System Calls
------------------------------------------------------------

namespace WebServer

namespace V3

/- `x + y` on `ssize_t`. -/
def addSsize
    (x y : Int) : Option Int :=
  if -2 ^ 63 ≤ x + y ∧ x + y < 2 ^ 63 then
    some (x + y)
  else
    none

/-
  Between two calls, with what the last one returned; at the
  `write` of a call, with its local variables; or after a
  call that returned -1.
-/
inductive WritenPos
| idle (ret : Option Int)
| looping (ptr nleft : Nat) (writeSum : Int)
| failed
deriving DecidableEq, Repr

/- The bytes sent, the string, and the call in progress. -/
structure WritenRun where
  sent : Bytes
  sbuff : Bytes
  taken : Nat
  pos : WritenPos
deriving DecidableEq, Repr

namespace WritenRun

/-
  The end of a call. The size is cast to `int` for the
  comparison.
-/
def finish
    (s : WritenRun)
    (writeSum : Int) : Option WritenRun :=
  if writeSum = toInt32 s.sbuff.length then
    some { s with sbuff := [], pos := .idle (some writeSum) }
  else
    match StdString.substr s.sbuff (toSize writeSum)
        s.sbuff.length with
    | .ok rest =>
        some
          { s with
            sbuff := rest
            pos := .idle (some writeSum) }
    | .error _ => none

/- The test of the loop. -/
def turn
    (s : WritenRun)
    (ptr nleft : Nat)
    (writeSum : Int) : Option WritenRun :=
  if 0 < nleft then
    some { s with pos := .looping ptr nleft writeSum }
  else
    s.finish writeSum

/- Entering a call. -/
def call
    (s : WritenRun) : Option WritenRun :=
  { s with taken := 0 }.turn 0 s.sbuff.length 0

/- The rest of a turn, once `write` returned. -/
def write
    (s : WritenRun)
    (ptr nleft : Nat)
    (writeSum : Int) :
    WriteResult → Option WritenRun
| .accepted n => do
    let writeSum ← addSsize writeSum n
    { s with
      sent := s.sent ++ (s.sbuff.drop ptr).take n
      taken := s.taken + n }.turn (ptr + n) (nleft - n)
        writeSum
| .eintr => some s
| .eagain => s.finish writeSum
| .error => some { s with pos := .failed }

end WritenRun

/- A call of `writen`, or the result of a `write` in it. -/
inductive WritenEvent
| call
| write (res : WriteResult)
deriving DecidableEq, Repr

namespace WritenRun

/- `write` takes at most what it is given. -/
def enabled
    (s : WritenRun) :
    WritenEvent → Prop
| .call => ∃ ret, s.pos = .idle ret
| .write res =>
    ∃ ptr nleft writeSum,
      s.pos = .looping ptr nleft writeSum ∧
        ∀ n, res = .accepted n → n ≤ nleft

def step
    (s : WritenRun) :
    WritenEvent → Option WritenRun
| .call => s.call
| .write res =>
    match s.pos with
    | .looping ptr nleft writeSum =>
        s.write ptr nleft writeSum res
    | _ => none

end WritenRun

/- Calls of `writen` as a machine over system calls. -/
def writenMachine : Machine WritenRun WritenEvent where
  enabled := WritenRun.enabled
  step := WritenRun.step

namespace WritenRun

/- A string before the first call. -/
def ofString
    (content : Bytes) : WritenRun where
  sent := []
  sbuff := content
  taken := 0
  pos := .idle none

/-
  Between calls the bytes sent and the string make up the
  content, and a count returned is that of the bytes taken.
-/
def Conserved
    (content : Bytes)
    (s : WritenRun) : Prop :=
  match s.pos with
  | .idle ret =>
      s.sent ++ s.sbuff = content ∧
        ∀ r, ret = some r → 0 ≤ r → r = s.taken
  | _ => True

/-
  The steps that lose nothing: the sum stays in `ssize_t`,
  and a call that is stopped after less than 2^31 bytes has
  not a multiple of 2^32 bytes left.
-/
def KeepsRest
    (s : WritenRun) :
    WritenEvent → Prop
| .write (.accepted n) => s.taken + n < 2 ^ 63
| .write .eagain =>
    ¬ (s.taken < 2 ^ 31 ∧
      (s.sbuff.length - s.taken) % 2 ^ 32 = 0)
| _ => True

end WritenRun

end V3

end WebServer

------------------------------------------------------------
-- One Call
------------------------------------------------------------

namespace WebServer

namespace V3

/- When a number is mistaken for a smaller one in `int`. -/
theorem toInt32_eq_iff
    {t n : Nat}
    (hLe : t ≤ n) :
    (t : Int) = toInt32 n ↔
      t < 2 ^ 31 ∧ (n - t) % 2 ^ 32 = 0 := by
  unfold toInt32
  rw [Int.bmod_def]
  split_ifs <;> omega

namespace WritenRun

/- The variables of the loop agree with what was taken. -/
structure Looping
    (content : Bytes)
    (s : WritenRun)
    (ptr nleft : Nat)
    (writeSum : Int) : Prop where
  ptr_eq : ptr = s.taken
  sum_eq : writeSum = s.taken
  small : s.taken < 2 ^ 63
  left_eq : s.taken + nleft = s.sbuff.length
  content_eq : s.sent ++ s.sbuff.drop s.taken = content

/- What holds between events. -/
def Sound
    (content : Bytes)
    (s : WritenRun) : Prop :=
  match s.pos with
  | .idle _ => s.Conserved content
  | .looping ptr nleft writeSum =>
      s.Looping content ptr nleft writeSum ∧ 0 < nleft
  | .failed => True

theorem Sound.conserved
    {content : Bytes}
    {s : WritenRun}
    (h : s.Sound content) :
    s.Conserved content := by
  unfold Sound at h
  cases hPos : s.pos with
  | idle ret =>
      rw [hPos] at h
      exact h
  | looping _ _ _ | failed =>
      unfold Conserved
      rw [hPos]
      trivial

variable {content : Bytes}
variable {s : WritenRun}
variable {ptr nleft : Nat}
variable {writeSum : Int}

/- Where a call stops, the string is cut or cleared. -/
theorem Looping.finish_eq
    (h : s.Looping content ptr nleft writeSum) :
    s.finish writeSum =
      some
        { s with
          sbuff :=
            if (s.taken : Int) = toInt32 s.sbuff.length then
              []
            else
              s.sbuff.drop s.taken
          pos := .idle (some s.taken) } := by
  have hLeft := h.left_eq
  have hSmall := h.small
  have hSize : toSize (s.taken : Int) = s.taken := by
    rw [toSize_of_nonneg (by omega) (by omega)]
    omega
  unfold finish
  rw [h.sum_eq, hSize,
    StdString.substr_suffix (by omega)]
  split_ifs <;> rfl

/- A string that was taken whole ends up empty. -/
theorem Looping.finish_whole
    (h : s.Looping content ptr 0 writeSum) :
    s.finish writeSum =
      some
        { s with
          sbuff := []
          pos := .idle (some s.taken) } := by
  have hLeft := h.left_eq
  rw [h.finish_eq, List.drop_eq_nil_of_le (by omega),
    ite_self]

/- The loop goes on or ends, and nothing is lost. -/
theorem Looping.turn
    (h : s.Looping content ptr nleft writeSum) :
    ∃ t,
      s.turn ptr nleft writeSum = some t ∧
        t.Sound content := by
  unfold WritenRun.turn
  by_cases hMore : 0 < nleft
  · rw [if_pos hMore]
    refine ⟨_, rfl, ?_, hMore⟩
    exact
      { ptr_eq := h.ptr_eq
        sum_eq := h.sum_eq
        small := h.small
        left_eq := h.left_eq
        content_eq := h.content_eq }
  · have hNone : nleft = 0 := by omega
    subst hNone
    have hLeft := h.left_eq
    have hContent := h.content_eq
    rw [List.drop_eq_nil_of_le (by omega)] at hContent
    rw [if_neg hMore, h.finish_whole]
    refine ⟨_, rfl, hContent, ?_⟩
    intro r hRet _
    exact (Option.some.inj hRet).symm

/- The kernel takes the next bytes of the string. -/
theorem Looping.accepted
    (h : s.Looping content ptr nleft writeSum)
    {n : Nat}
    (hFits : n ≤ nleft)
    (hSmall : s.taken + n < 2 ^ 63) :
    Looping content
      { s with
        sent := s.sent ++ (s.sbuff.drop ptr).take n
        taken := s.taken + n }
      (ptr + n) (nleft - n) (writeSum + n) where
  ptr_eq := by
    show ptr + n = s.taken + n
    rw [h.ptr_eq]
  sum_eq := by
    show writeSum + n = ((s.taken + n : Nat) : Int)
    rw [h.sum_eq, Int.natCast_add]
  small := hSmall
  left_eq := by
    have hLeft := h.left_eq
    show s.taken + n + (nleft - n) = s.sbuff.length
    omega
  content_eq := by
    show
      (s.sent ++ (s.sbuff.drop ptr).take n) ++
          s.sbuff.drop (s.taken + n) =
        content
    rw [h.ptr_eq, ← List.drop_drop, List.append_assoc,
      List.take_append_drop]
    exact h.content_eq

end WritenRun

end V3

end WebServer

------------------------------------------------------------
-- Step Lemmas
------------------------------------------------------------

namespace WebServer

namespace V3

namespace WritenRun

variable {content : Bytes}
variable {s : WritenRun}

theorem step_write
    {ptr nleft : Nat}
    {writeSum : Int}
    (hPos : s.pos = .looping ptr nleft writeSum)
    (res : WriteResult) :
    writenMachine.step s (.write res) =
      s.write ptr nleft writeSum res := by
  show s.step (.write res) = _
  unfold step
  rw [hPos]

theorem write_accepted
    (s : WritenRun)
    (ptr nleft n : Nat)
    (writeSum : Int) :
    s.write ptr nleft writeSum (.accepted n) =
      (addSsize writeSum n).bind fun writeSum =>
        { s with
          sent := s.sent ++ (s.sbuff.drop ptr).take n
          taken := s.taken + n }.turn (ptr + n) (nleft - n)
            writeSum := rfl

/- A string between calls, entered. -/
theorem Conserved.entered
    {ret : Option Int}
    (h : s.Conserved content)
    (hPos : s.pos = .idle ret) :
    Looping content { s with taken := 0 } 0
      s.sbuff.length 0 := by
  unfold Conserved at h
  rw [hPos] at h
  exact
    { ptr_eq := rfl
      sum_eq := rfl
      small := Nat.two_pow_pos 63
      left_eq := Nat.zero_add _
      content_eq := h.1 }

/- A step that keeps the rest succeeds and loses nothing. -/
theorem step_sound
    {e : WritenEvent}
    (h : s.Sound content)
    (hEnabled : writenMachine.enabled s e)
    (hKeeps : s.KeepsRest e) :
    ∃ t,
      writenMachine.step s e = some t ∧ t.Sound content := by
  cases e with
  | call =>
      rcases hEnabled with ⟨ret, hPos⟩
      exact (h.conserved.entered hPos).turn
  | write res =>
      rcases hEnabled with
        ⟨ptr, nleft, writeSum, hPos, hFits⟩
      have hSound := h
      unfold Sound at h
      rw [hPos] at h
      rcases h with ⟨hLooping, hMore⟩
      rw [step_write hPos]
      cases res with
      | accepted n =>
          have hSmall : s.taken + n < 2 ^ 63 := hKeeps
          have hSum :
              addSsize writeSum n = some (writeSum + n) := by
            unfold addSsize
            rw [hLooping.sum_eq]
            exact if_pos ⟨by omega, by omega⟩
          rw [write_accepted, hSum, Option.bind_some]
          exact
            (hLooping.accepted (hFits n rfl) hSmall).turn
      | eintr => exact ⟨s, rfl, hSound⟩
      | eagain =>
          have hLeft := hLooping.left_eq
          have hKept :
              ¬ (s.taken : Int) = toInt32 s.sbuff.length := by
            rw [toInt32_eq_iff (by omega)]
            exact hKeeps
          refine ⟨_, hLooping.finish_eq, ?_⟩
          rw [if_neg hKept]
          refine ⟨hLooping.content_eq, ?_⟩
          intro r hRet _
          exact (Option.some.inj hRet).symm
      | error => exact ⟨_, rfl, trivial⟩

/- A call stopped where the sizes are mistaken loses bytes. -/
theorem eagain_loses
    {t : WritenRun}
    (h : s.Sound content)
    (hEnabled : writenMachine.enabled s (.write .eagain))
    (hNot : ¬ s.KeepsRest (.write .eagain))
    (hStep : writenMachine.step s (.write .eagain) = some t) :
    ¬ t.Conserved content := by
  rcases hEnabled with ⟨ptr, nleft, writeSum, hPos, _⟩
  unfold Sound at h
  rw [hPos] at h
  rcases h with ⟨hLooping, hMore⟩
  have hLeft := hLooping.left_eq
  have hMistaken :
      (s.taken : Int) = toInt32 s.sbuff.length := by
    rw [toInt32_eq_iff (by omega)]
    exact not_not.mp hNot
  rw [step_write hPos] at hStep
  have hEnd := hLooping.finish_eq
  rw [if_pos hMistaken] at hEnd
  rcases Option.some.inj (hStep.symm.trans hEnd) with rfl
  rintro ⟨hContent, _⟩
  have hSame := congrArg List.length hContent
  have hAll := congrArg List.length hLooping.content_eq
  simp only [List.length_append, List.length_drop,
    List.length_nil] at hSame hAll
  omega

/- A sum that leaves `ssize_t` has no result. -/
theorem accepted_overflows
    {n : Nat}
    (h : s.Sound content)
    (hEnabled : writenMachine.enabled s (.write (.accepted n)))
    (hNot : ¬ s.KeepsRest (.write (.accepted n))) :
    writenMachine.step s (.write (.accepted n)) = none := by
  rcases hEnabled with ⟨ptr, nleft, writeSum, hPos, _⟩
  unfold Sound at h
  rw [hPos] at h
  have hLarge : ¬ s.taken + n < 2 ^ 63 := hNot
  have hSum : addSsize writeSum n = none := by
    unfold addSsize
    rw [h.1.sum_eq]
    exact if_neg (by omega)
  rw [step_write hPos]
  rw [write_accepted, hSum]
  rfl

end WritenRun

/-
  Over every run of calls on a string, no step fails and
  between calls nothing is lost and each count is right,
  exactly when the sums stay in `ssize_t` and no call that
  took less than 2^31 bytes is stopped with a multiple of
  2^32 bytes left.
-/
theorem writen_conserves_iff
    (content : Bytes)
    (es : List WritenEvent) :
    writenMachine.Throughout (WritenRun.Conserved content)
        (WritenRun.ofString content) es ↔
      writenMachine.StepsMeet WritenRun.KeepsRest
        (WritenRun.ofString content) es := by
  apply Machine.throughout_iff_stepsMeet
    (I := WritenRun.Sound content)
  · intro s h
    exact h.conserved
  · intro s e h hEnabled hKeeps
    exact WritenRun.step_sound h hEnabled hKeeps
  · intro s e h hEnabled hNot t hStep
    cases e with
    | call => exact absurd trivial hNot
    | write res =>
        cases res with
        | accepted n =>
            rw [WritenRun.accepted_overflows h hEnabled hNot]
              at hStep
            cases hStep
        | eagain =>
            exact
              WritenRun.eagain_loses h hEnabled hNot hStep
        | eintr | error => exact absurd trivial hNot
  · refine ⟨rfl, ?_⟩
    intro r hRet
    cases hRet

end V3

end WebServer

------------------------------------------------------------
-- Strings That Are Lost
------------------------------------------------------------

namespace WebServer

namespace V3

namespace WritenRun

variable {content : Bytes}

/- A string of 2^32 bytes, or a multiple, is cleared unsent. -/
theorem stopped_at_first_write
    (hSome : 0 < content.length)
    (hSize : content.length % 2 ^ 32 = 0) :
    ¬ writenMachine.Throughout (Conserved content)
      (ofString content) [.call, .write .eagain] := by
  intro hAll
  rcases hAll.2 ⟨none, rfl⟩ with ⟨s, hCall, hTail⟩
  have hEnter :
      writenMachine.step (ofString content) .call =
        some
          { ofString content with
            pos := .looping 0 content.length 0 } :=
    if_pos hSome
  rcases Option.some.inj (hEnter.symm.trans hCall) with rfl
  have hInit : (ofString content).Conserved content := by
    refine ⟨rfl, ?_⟩
    intro r hRet
    cases hRet
  have hSound :
      Sound content
        { ofString content with
          pos := .looping 0 content.length 0 } := by
    rcases (hInit.entered rfl).turn with ⟨t, hTurn, hNext⟩
    rcases Option.some.inj (hEnter.symm.trans hTurn) with rfl
    exact hNext
  have hOffered :
      writenMachine.enabled
        { ofString content with
          pos := .looping 0 content.length 0 }
        (.write .eagain) :=
    ⟨0, content.length, 0, rfl, by simp⟩
  rcases hTail.2 hOffered with ⟨t, hStop, hLast⟩
  apply eagain_loses hSound hOffered ?_ hStop hLast
  exact not_not.mpr ⟨Nat.two_pow_pos 31, hSize⟩

end WritenRun

/- Such a string, and a socket that takes nothing at first. -/
theorem four_gibibytes_lost :
    ∃ content : Bytes,
      ¬ writenMachine.Throughout
        (WritenRun.Conserved content)
        (WritenRun.ofString content)
        [.call, .write .eagain] := by
  refine ⟨List.replicate (2 ^ 32) 0, ?_⟩
  apply WritenRun.stopped_at_first_write
  · rw [List.length_replicate]
    exact Nat.two_pow_pos 32
  · rw [List.length_replicate, Nat.mod_self]

end V3

end WebServer

------------------------------------------------------------
-- Whole Calls
------------------------------------------------------------

namespace WebServer

namespace V3

namespace WritenRun

variable {content : Bytes}

/-
  What a call makes of the string, once its loop has ended
  with a sum and perhaps a failure.
-/
def ended
    (s : WritenRun)
    (result : WritenResult) : WritenRun where
  sent :=
    s.sent ++ (s.sbuff.drop s.taken).take result.writeSum
  taken := s.taken + result.writeSum
  sbuff :=
    if result.failed then
      s.sbuff
    else if ((s.taken + result.writeSum : Nat) : Int) =
        toInt32 s.sbuff.length then
      []
    else
      s.sbuff.drop (s.taken + result.writeSum)
  pos :=
    if result.failed then
      .failed
    else
      .idle (some ((s.taken + result.writeSum : Nat) : Int))

/- Bytes taken now and bytes taken by the rest of the loop. -/
theorem ended_accepted
    (s : WritenRun)
    (n : Nat)
    (result : WritenResult) :
    WritenRun.ended
        { s with
          sent := s.sent ++ (s.sbuff.drop s.taken).take n
          taken := s.taken + n }
        result =
      s.ended
        { result with writeSum := n + result.writeSum } := by
  unfold ended
  simp only [Nat.add_assoc, List.append_assoc]
  rw [← List.drop_drop, ← List.take_add]

/- The end of a call that took nothing more. -/
theorem Looping.finish_ended
    {s : WritenRun}
    {ptr nleft : Nat}
    {writeSum : Int}
    (h : s.Looping content ptr nleft writeSum)
    (writes : List WriteResult) :
    s.finish writeSum =
      some (s.ended ⟨0, false, writes⟩) := by
  rw [h.finish_eq]
  simp [ended]

theorem writenLoop_of_nil
    (writes : List WriteResult) :
    writenLoop writes [] = ⟨0, false, writes⟩ := by
  cases writes <;> rfl

/- A `write` that takes some of what is left. -/
theorem Looping.step_accepted
    {s : WritenRun}
    {ptr nleft : Nat}
    {writeSum : Int}
    (h : s.Looping content ptr nleft writeSum)
    (hPos : s.pos = .looping ptr nleft writeSum)
    (hLong : s.sbuff.length < 2 ^ 63)
    {n : Nat}
    (hFits : n ≤ nleft) :
    writenMachine.step s (.write (.accepted n)) =
      WritenRun.turn
        { s with
          sent := s.sent ++ (s.sbuff.drop s.taken).take n
          taken := s.taken + n }
        (ptr + n) (nleft - n) (writeSum + n) := by
  have hLeft := h.left_eq
  have hSum : addSsize writeSum n = some (writeSum + n) := by
    unfold addSsize
    rw [h.sum_eq]
    exact if_pos ⟨by omega, by omega⟩
  rw [step_write hPos, write_accepted, hSum,
    Option.bind_some, h.ptr_eq]

/- A `write` that takes all of it ends the call. -/
theorem Looping.step_last
    {s : WritenRun}
    {ptr nleft : Nat}
    {writeSum : Int}
    (h : s.Looping content ptr nleft writeSum)
    (hPos : s.pos = .looping ptr nleft writeSum)
    (hLong : s.sbuff.length < 2 ^ 63)
    (writes : List WriteResult) :
    writenMachine.step s (.write (.accepted nleft)) =
      some (s.ended ⟨nleft, false, writes⟩) := by
  have hLeft := h.left_eq
  have hNext := h.accepted (Nat.le_refl nleft) (by omega)
  rw [h.step_accepted hPos hLong (Nat.le_refl nleft)]
  unfold WritenRun.turn
  rw [Nat.sub_self, if_neg (Nat.lt_irrefl 0)]
  rw [Nat.sub_self, h.ptr_eq] at hNext
  rw [hNext.finish_ended writes, ended_accepted,
    Nat.add_zero]

/- The last system call of a loop, as a run. -/
theorem Looping.reaches_last
    {s : WritenRun}
    {ptr nleft : Nat}
    {writeSum : Int}
    (h : s.Looping content ptr nleft writeSum)
    (hPos : s.pos = .looping ptr nleft writeSum)
    (hLong : s.sbuff.length < 2 ^ 63)
    (writes : List WriteResult) :
    writenMachine.Reaches s [.write (.accepted nleft)]
      (s.ended ⟨nleft, false, writes⟩) := by
  refine
    .cons ⟨ptr, nleft, writeSum, hPos, ?_⟩
      (h.step_last hPos hLong writes) (.nil _)
  rintro n ⟨⟩
  exact Nat.le_refl _

/- A turn that leaves bytes to another one. -/
theorem Looping.next_turn
    {s : WritenRun}
    {ptr nleft : Nat}
    {writeSum : Int}
    (h : s.Looping content ptr nleft writeSum)
    (hPos : s.pos = .looping ptr nleft writeSum)
    (hLong : s.sbuff.length < 2 ^ 63)
    {n : Nat}
    (hLess : n < nleft) :
    ∃ t,
      writenMachine.step s (.write (.accepted n)) = some t ∧
        t.Looping content (s.taken + n) (nleft - n)
          (writeSum + n) ∧
        t.pos =
          .looping (s.taken + n) (nleft - n)
            (writeSum + n) ∧
        t.sbuff = s.sbuff ∧
        t.taken = s.taken + n ∧
        ∀ result,
          t.ended result =
            s.ended
              { result with
                writeSum := n + result.writeSum } := by
  have hLeft := h.left_eq
  have hTurn :=
    h.step_accepted hPos hLong (Nat.le_of_lt hLess)
  unfold WritenRun.turn at hTurn
  rw [if_pos (by omega)] at hTurn
  have hNext := h.accepted (Nat.le_of_lt hLess) (by omega)
  rw [h.ptr_eq] at hNext hTurn
  refine ⟨_, hTurn, ?_, rfl, rfl, rfl, ended_accepted s n⟩
  exact
    { ptr_eq := hNext.ptr_eq
      sum_eq := hNext.sum_eq
      small := hNext.small
      left_eq := hNext.left_eq
      content_eq := hNext.content_eq }

/-
  The loop of a call, from any of its turns, by induction on
  the results of its system calls.
-/
theorem reaches_writenLoop
    (writes : List WriteResult)
    {s : WritenRun}
    {ptr nleft : Nat}
    {writeSum : Int}
    (h : s.Looping content ptr nleft writeSum)
    (hPos : s.pos = .looping ptr nleft writeSum)
    (hMore : 0 < nleft)
    (hLong : s.sbuff.length < 2 ^ 63) :
    ∃ es,
      writenMachine.Reaches s es
        (s.ended
          (writenLoop writes (s.sbuff.drop s.taken))) := by
  induction writes generalizing s ptr nleft writeSum with
  | nil =>
      have hLeft := h.left_eq
      have hLoop :
          writenLoop [] (s.sbuff.drop s.taken) =
            ⟨nleft, false, []⟩ := by
        unfold writenLoop
        rw [List.length_drop, ← hLeft,
          Nat.add_sub_cancel_left]
      rw [hLoop]
      exact ⟨_, h.reaches_last hPos hLong []⟩
  | cons w writes ih =>
      have hLeft := h.left_eq
      have hLength :
          (s.sbuff.drop s.taken).length = nleft := by
        rw [List.length_drop]
        omega
      have hNe : s.sbuff.drop s.taken ≠ [] := by
        intro hNil
        rw [hNil, List.length_nil] at hLength
        omega
      unfold writenLoop
      rw [if_neg hNe]
      cases w with
      | accepted n =>
          dsimp only
          rw [hLength]
          by_cases hAll : nleft ≤ n
          · rw [Nat.min_eq_right hAll,
              List.drop_eq_nil_of_le
                (Nat.le_of_eq hLength),
              writenLoop_of_nil]
            exact ⟨_, h.reaches_last hPos hLong writes⟩
          · have hLess : n < nleft := Nat.lt_of_not_le hAll
            rcases h.next_turn hPos hLong hLess with
              ⟨t, hStep, hLooping, hAgain, hSame, hTaken,
                hEnded⟩
            rw [← hSame] at hLong
            rcases ih hLooping hAgain (by omega) hLong with
              ⟨es, hRest⟩
            rw [hEnded, hSame, hTaken] at hRest
            rw [Nat.min_eq_left (Nat.le_of_lt hLess),
              List.drop_drop]
            refine
              ⟨.write (.accepted n) :: es,
                .cons ⟨ptr, nleft, writeSum, hPos, ?_⟩
                  hStep hRest⟩
            rintro n ⟨⟩
            exact Nat.le_of_lt hLess
      | eintr =>
          rcases ih h hPos hMore hLong with ⟨es, hRest⟩
          exact
            ⟨.write .eintr :: es,
              .cons ⟨ptr, nleft, writeSum, hPos, by simp⟩
                (step_write hPos .eintr) hRest⟩
      | eagain =>
          exact
            ⟨[.write .eagain],
              .cons ⟨ptr, nleft, writeSum, hPos, by simp⟩
                ((step_write hPos .eagain).trans
                  (h.finish_ended writes))
                (.nil _)⟩
      | error =>
          refine
            ⟨[.write .error],
              .cons ⟨ptr, nleft, writeSum, hPos, by simp⟩
                ((step_write hPos .error).trans ?_)
                (.nil _)⟩
          simp [write, ended]

/- A whole call, from its first event on. -/
theorem reaches_call
    (s : WritenRun)
    (hLong : s.sbuff.length < 2 ^ 63)
    (hIdle : ∃ ret, s.pos = .idle ret)
    (writes : List WriteResult) :
    ∃ es,
      writenMachine.Reaches s (.call :: es)
        (WritenRun.ended { s with taken := 0 }
          (writenLoop writes s.sbuff)) := by
  have hEntered :
      Looping (s.sent ++ s.sbuff) { s with taken := 0 } 0
        s.sbuff.length 0 :=
    { ptr_eq := rfl
      sum_eq := rfl
      small := Nat.two_pow_pos 63
      left_eq := Nat.zero_add _
      content_eq := rfl }
  have hCall :
      writenMachine.step s .call =
        WritenRun.turn { s with taken := 0 } 0
          s.sbuff.length 0 := rfl
  unfold WritenRun.turn at hCall
  by_cases hMore : 0 < s.sbuff.length
  · rw [if_pos hMore] at hCall
    have hLooping :
        Looping (s.sent ++ s.sbuff)
          { s with
            taken := 0
            pos := .looping 0 s.sbuff.length 0 }
          0 s.sbuff.length 0 :=
      { ptr_eq := hEntered.ptr_eq
        sum_eq := hEntered.sum_eq
        small := hEntered.small
        left_eq := hEntered.left_eq
        content_eq := hEntered.content_eq }
    rcases reaches_writenLoop writes hLooping rfl hMore
        hLong with
      ⟨es, hRest⟩
    exact ⟨es, .cons hIdle hCall hRest⟩
  · have hNil : s.sbuff = [] :=
      List.eq_nil_of_length_eq_zero (by omega)
    have hEnd := hEntered.finish_ended writes
    rw [if_neg hMore, hEnd, ← writenLoop_of_nil, ← hNil]
      at hCall
    exact ⟨[], .cons hIdle hCall (.nil _)⟩

/-
  A call of `writen` on a socket is a run of the machine: it
  sends the same bytes, leaves the same string and fails
  alike.
-/
theorem reaches_writenString
    (socket : Socket)
    {s : WritenRun}
    (hLong : s.sbuff.length < 2 ^ 63)
    (hIdle : ∃ ret, s.pos = .idle ret)
    (hSent : s.sent = socket.sent) :
    ∃ es t,
      writenMachine.Reaches s (.call :: es) t ∧
        t.sent = (socket.writenString s.sbuff).1.sent ∧
        t.sbuff = (socket.writenString s.sbuff).2.1 ∧
        (t.pos = .failed ↔
          (socket.writenString s.sbuff).2.2 = true) := by
  rcases reaches_call s hLong hIdle socket.writes with
    ⟨es, hRun⟩
  refine ⟨es, _, hRun, ?_⟩
  unfold Socket.writenString ended
  simp only [Nat.zero_add, List.drop_zero, hSent]
  split_ifs with hFailed hSame
  · simp
  · simp
  · simp

end WritenRun

end V3

end WebServer
