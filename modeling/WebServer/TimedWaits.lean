import WebServer.Common

/-
  The deadlines of the timed waits: `Condition::timewait` of
  version 3.0 (`base/Condition.h`), on which the back end of
  the logger waits, and the timed `block_queue::pop` of
  version 2.0 (`logger/block_queue.h`).

  Both give `pthread_cond_timedwait` an absolute time. The
  first replaces the seconds of the clock by the timeout; the
  second drops the microseconds of the clock, and takes the
  milliseconds of the timeout for microseconds.

  Key definitions include:
    * `Timespec`
    * `timewaitAbstime`
    * `popAbstime`
    * `TimedWait`
    * `TimedWait.Sound`

  Key theorems include:
    * `TimedWait.normalised_deadline`
    * `TimedWait.sound_iff_exact`
    * `timed_waits_sound_iff`
-/

------------------------------------------------------------
-- Points In Time
------------------------------------------------------------

namespace WebServer

/- `struct timespec`. -/
structure Timespec where
  tvSec : Int
  tvNsec : Int

/- `struct timeval`, as `gettimeofday` fills it. -/
structure TimeOfDay where
  tvSec : Int
  tvUsec : Int
  hUsec : 0 ≤ tvUsec ∧ tvUsec < 10 ^ 6

/- Nanoseconds since the epoch. -/
def Timespec.nanos
    (t : Timespec) : Int :=
  t.tvSec * 10 ^ 9 + t.tvNsec

def TimeOfDay.nanos
    (t : TimeOfDay) : Int :=
  t.tvSec * 10 ^ 9 + t.tvUsec * 10 ^ 3

/- The nanoseconds are those within a second. -/
def Timespec.Normalised
    (t : Timespec) : Prop :=
  0 ≤ t.tvNsec ∧ t.tvNsec < 10 ^ 9

instance
    (t : Timespec) : Decidable t.Normalised :=
  inferInstanceAs (Decidable (_ ∧ _))

/- What `clock_gettime` reads. -/
abbrev ClockTime : Type :=
  { t : Timespec // t.Normalised }

/- An `int` that is not negative. -/
abbrev Timeout : Type :=
  { n : Int // 0 ≤ n ∧ IsInt32 n }

end WebServer

------------------------------------------------------------
-- Deadlines
------------------------------------------------------------

namespace WebServer

/- `abstime` in `Condition::timewait(seconds)`. -/
def timewaitAbstime
    (now : Timespec)
    (seconds : Int) : Timespec :=
  { now with tvSec := seconds }

/- `t` in `block_queue::pop(item, ms_timeout)`. -/
def popAbstime
    (now : TimeOfDay)
    (msTimeout : Int) : Timespec where
  tvSec := now.tvSec + msTimeout.tdiv 1000
  tvNsec := msTimeout.tmod 1000 * 1000

/- A timed wait, with the reading of the clock before it. -/
inductive TimedWait
| timewait (now : ClockTime) (seconds : Timeout)
| pop (now : TimeOfDay) (msTimeout : Timeout)

namespace TimedWait

/- The time given to `pthread_cond_timedwait`. -/
def deadline : TimedWait → Timespec
| .timewait now seconds => timewaitAbstime now.val seconds.val
| .pop now msTimeout => popAbstime now msTimeout.val

/- The clock, in nanoseconds. -/
def clock : TimedWait → Int
| .timewait now _ => now.val.nanos
| .pop now _ => now.nanos

/- The timeout, in nanoseconds. -/
def timeout : TimedWait → Int
| .timewait _ seconds => seconds.val * 10 ^ 9
| .pop _ msTimeout => msTimeout.val * 10 ^ 6

/-
  The times at which the wait may give up when nothing
  arrives: any time from its deadline on, and at once where
  the deadline is not one.
-/
def MayGiveUp
    (w : TimedWait)
    (t : Int) : Prop :=
  w.clock ≤ t ∧
    (w.deadline.Normalised → w.deadline.nanos ≤ t)

/-
  The deadline is a point in time, and the one that the
  timeout is about; so the wait does not give up before it.
-/
structure Sound
    (w : TimedWait) : Prop where
  normalised : w.deadline.Normalised
  exact : w.deadline.nanos = w.clock + w.timeout
  patient : ∀ t, w.MayGiveUp t → w.clock + w.timeout ≤ t

/-
  Where nothing is lost: the clock still stands in the first
  second of the epoch; or it has no microseconds and the
  timeout is in whole seconds.
-/
def NothingLost : TimedWait → Prop
| .timewait now _ => now.val.tvSec = 0
| .pop now msTimeout =>
    now.tvUsec = 0 ∧ 1000 ∣ msTimeout.val

/- Both compute a point in time, right or wrong. -/
theorem normalised_deadline
    (w : TimedWait) :
    w.deadline.Normalised := by
  cases w with
  | timewait now seconds => exact now.property
  | pop now msTimeout =>
      have hPos := msTimeout.property.1
      show
        0 ≤ msTimeout.val.tmod 1000 * 1000 ∧
          msTimeout.val.tmod 1000 * 1000 < 10 ^ 9
      rw [Int.tmod_eq_emod_of_nonneg hPos]
      omega

/- Only the value of the deadline can be wrong. -/
theorem sound_iff_exact
    (w : TimedWait) :
    w.Sound ↔ w.deadline.nanos = w.clock + w.timeout := by
  refine ⟨Sound.exact, ?_⟩
  intro hExact
  refine ⟨w.normalised_deadline, hExact, ?_⟩
  intro t hGivesUp
  rw [← hExact]
  exact hGivesUp.2 w.normalised_deadline

/- A wait whose deadline has passed may end at once. -/
theorem mayGiveUp_clock
    {w : TimedWait}
    (hPassed : w.deadline.nanos ≤ w.clock) :
    w.MayGiveUp w.clock :=
  ⟨Int.le_refl _, fun _ => hPassed⟩

/-
  After its first seconds the clock has passed every deadline
  of `timewait`, and the back end of the logger spins.
-/
theorem timewait_returns_at_once
    {now : ClockTime}
    {seconds : Timeout}
    (hLater : seconds.val ≤ now.val.tvSec) :
    (timewait now seconds).MayGiveUp
      (timewait now seconds).clock := by
  apply mayGiveUp_clock
  show
    seconds.val * 10 ^ 9 + now.val.tvNsec ≤
      now.val.tvSec * 10 ^ 9 + now.val.tvNsec
  omega

/-
  A timed `pop` is early by the microseconds of the clock and
  by nearly all of the milliseconds of the timeout.
-/
theorem pop_early
    (now : TimeOfDay)
    (msTimeout : Timeout) :
    (pop now msTimeout).deadline.nanos =
      (pop now msTimeout).clock +
        (pop now msTimeout).timeout -
        (now.tvUsec * 10 ^ 3 +
          msTimeout.val % 1000 * 999000) := by
  have hPos := msTimeout.property.1
  show
    (now.tvSec + msTimeout.val.tdiv 1000) * 10 ^ 9 +
        msTimeout.val.tmod 1000 * 1000 =
      now.tvSec * 10 ^ 9 + now.tvUsec * 10 ^ 3 +
        msTimeout.val * 10 ^ 6 - _
  rw [Int.tdiv_eq_ediv_of_nonneg hPos,
    Int.tmod_eq_emod_of_nonneg hPos]
  omega

end TimedWait

end WebServer

------------------------------------------------------------
-- Right Deadlines
------------------------------------------------------------

namespace WebServer

/-
  For every reading of the clock and every timeout, the
  deadline is the right one exactly where nothing is lost.
-/
theorem timed_waits_sound_iff
    (w : TimedWait) :
    w.Sound ↔ w.NothingLost := by
  rw [w.sound_iff_exact]
  cases w with
  | timewait now seconds =>
      show
        seconds.val * 10 ^ 9 + now.val.tvNsec =
            now.val.tvSec * 10 ^ 9 + now.val.tvNsec +
              seconds.val * 10 ^ 9 ↔
          now.val.tvSec = 0
      omega
  | pop now msTimeout =>
      have hClock := now.hUsec
      rw [TimedWait.pop_early]
      show _ ↔ now.tvUsec = 0 ∧ 1000 ∣ msTimeout.val
      omega

/- The back end's wait, with `flushInterval` by default. -/
def threadFuncWait
    (now : ClockTime) : TimedWait :=
  .timewait now ⟨2, by decide⟩

/-
  At 1700000000.25 the back end waits until 2.25, and a
  `pop` of 1.5 seconds until 1700000001.0005.
-/
theorem timed_waits_unsound :
    ¬ (threadFuncWait ⟨⟨1700000000, 250000000⟩, by
        decide⟩).Sound ∧
      ¬ (TimedWait.pop ⟨1700000000, 250000, by decide⟩
          ⟨1500, by decide⟩).Sound := by
  rw [TimedWait.sound_iff_exact, TimedWait.sound_iff_exact]
  decide

end WebServer
