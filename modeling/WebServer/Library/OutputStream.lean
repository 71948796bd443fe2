import Mathlib.Data.List.Infix
import Mathlib.Tactic.Common

/-
  Buffered output streams.

  A stream takes items into its buffer and hands the items
  it holds to a file, oldest first, whenever it sees fit. A
  call that fails may lose some of them. What a call did is
  data; which answers are possible is what the manual of
  such streams says: a short count and a loss are failures,
  and a flush that does not fail leaves nothing behind.

  Key definitions include:
    * `OutputStream`
    * `Transfer`
    * `OutputStream.fwrite`
    * `OutputStream.fflush`

  Key theorems include:
    * `OutputStream.held_fwrite_sublist`
    * `OutputStream.fwrite_of_clear`
    * `OutputStream.fflush_of_clear`
-/

------------------------------------------------------------
-- Streams
------------------------------------------------------------

/-
  The items on the file, those in the buffer, and the error
  indicator, which nothing clears.
-/
structure OutputStream (α : Type) where
  onFile : List α
  buffered : List α
  error : Bool
deriving DecidableEq, Repr

/-
  What one call did: how many of the offered items it took,
  how many of the items then held it wrote to the file and
  how many of the next ones it lost, and whether it failed.
-/
structure Transfer where
  taken : Nat
  written : Nat
  lost : Nat
  failed : Bool
deriving DecidableEq, Repr

namespace Transfer

/- A call that fails at once. -/
def refused : Transfer where
  taken := 0
  written := 0
  lost := 0
  failed := true

/- The possible answers to a write of `len` items. -/
structure OfWrite
    (t : Transfer)
    (len : Nat) : Prop where
  le : t.taken ≤ len
  short : t.taken < len → t.failed = true
  loss : 0 < t.lost → t.failed = true

/- The possible answers to a flush of `len` held items. -/
structure OfFlush
    (t : Transfer)
    (len : Nat) : Prop where
  all : t.failed = false → len ≤ t.written
  loss : 0 < t.lost → t.failed = true

instance
    (t : Transfer)
    (len : Nat) : Decidable (t.OfWrite len) :=
  decidable_of_iff
    (t.taken ≤ len ∧
      (t.taken < len → t.failed = true) ∧
        (0 < t.lost → t.failed = true))
    ⟨fun h => ⟨h.1, h.2.1, h.2.2⟩,
      fun h => ⟨h.le, h.short, h.loss⟩⟩

instance
    (t : Transfer)
    (len : Nat) : Decidable (t.OfFlush len) :=
  decidable_of_iff
    ((t.failed = false → len ≤ t.written) ∧
      (0 < t.lost → t.failed = true))
    ⟨fun h => ⟨h.1, h.2⟩, fun h => ⟨h.all, h.loss⟩⟩

variable {t : Transfer}
variable {len : Nat}

/- A refused call is a possible answer to any write. -/
theorem refused_ofWrite
    (len : Nat) :
    refused.OfWrite len where
  le := Nat.zero_le len
  short := fun _ => rfl
  loss := fun _ => rfl

/- A call that does not fail loses nothing. -/
theorem OfWrite.lost_of_clear
    (h : t.OfWrite len)
    (hClear : t.failed = false) :
    t.lost = 0 := by
  by_contra hSome
  have hSet := h.loss (Nat.pos_of_ne_zero hSome)
  rw [hClear] at hSet
  cases hSet

theorem OfFlush.lost_of_clear
    (h : t.OfFlush len)
    (hClear : t.failed = false) :
    t.lost = 0 := by
  by_contra hSome
  have hSet := h.loss (Nat.pos_of_ne_zero hSome)
  rw [hClear] at hSet
  cases hSet

end Transfer

namespace OutputStream

variable {α : Type}

/- A stream just opened on an empty file. -/
def opened : OutputStream α where
  onFile := []
  buffered := []
  error := false

/- The items on the file and behind them in the buffer. -/
def held
    (s : OutputStream α) : List α :=
  s.onFile ++ s.buffered

/- Take items, and hand on and lose some of those held. -/
def transfer
    (s : OutputStream α)
    (items : List α)
    (t : Transfer) : OutputStream α :=
  let inside := s.buffered ++ items.take t.taken
  { onFile := s.onFile ++ inside.take t.written
    buffered := inside.drop (t.written + t.lost)
    error := s.error || t.failed }

/-
  `fwrite`: how many items were taken. Without an item the
  stream stays as it is.
-/
def fwrite
    (s : OutputStream α)
    (items : List α)
    (t : Transfer) : Nat × OutputStream α :=
  if items.isEmpty then
    (0, s)
  else
    (t.taken, s.transfer items t)

/- `fflush`. -/
def fflush
    (s : OutputStream α)
    (t : Transfer) : OutputStream α :=
  s.transfer [] t

end OutputStream

------------------------------------------------------------
-- What A Call Keeps
------------------------------------------------------------

namespace OutputStream

variable {α : Type}
variable (s : OutputStream α)
variable (items : List α)
variable (t : Transfer)

@[simp] theorem held_opened :
    (opened : OutputStream α).held = [] := rfl

/- The error indicator stays set. -/
theorem error_transfer :
    (s.transfer items t).error = false ↔
      s.error = false ∧ t.failed = false := by
  simp [transfer]

/- What is on the file stays there. -/
theorem onFile_transfer :
    s.onFile <+: (s.transfer items t).onFile :=
  List.prefix_append _ _

/- What is held after a call, with the items it dropped. -/
theorem held_transfer :
    (s.transfer items t).held =
      s.onFile ++
        ((s.buffered ++ items.take t.taken).take t.written ++
          (s.buffered ++ items.take t.taken).drop
            (t.written + t.lost)) :=
  List.append_assoc _ _ _

/- Nothing is held twice or out of turn, whatever fails. -/
theorem held_transfer_sublist :
    (s.transfer items t).held.Sublist
      (s.held ++ items.take t.taken) := by
  rw [held_transfer, held, List.append_assoc]
  apply List.Sublist.append_left
  rw [← List.drop_drop]
  have hSplit :=
    List.take_append_drop t.written
      (s.buffered ++ items.take t.taken)
  exact
    ((List.drop_sublist t.lost _).append_left _).trans
      (by rw [hSplit])

/- Without a loss all the items taken are held. -/
theorem held_transfer_of_lost
    (hLost : t.lost = 0) :
    (s.transfer items t).held =
      s.held ++ items.take t.taken := by
  rw [held_transfer, hLost, Nat.add_zero,
    List.take_append_drop, held, List.append_assoc]

/- What is left in the buffer are the items taken last. -/
theorem buffered_transfer :
    (s.transfer items t).buffered <:+
      s.buffered ++ items.take t.taken :=
  List.drop_suffix _ _

/- A write only adds to the file and to the error. -/
theorem onFile_fwrite :
    s.onFile <+: (s.fwrite items t).2.onFile := by
  unfold fwrite
  split
  · exact ⟨[], List.append_nil _⟩
  · exact s.onFile_transfer items t

theorem error_of_fwrite
    (hClear : (s.fwrite items t).2.error = false) :
    s.error = false := by
  unfold fwrite at hClear
  split at hClear
  · exact hClear
  · exact ((s.error_transfer items t).mp hClear).1

/- The items written are held at most once, in turn. -/
theorem held_fwrite_sublist :
    (s.fwrite items t).2.held.Sublist
      (s.held ++ items.take (s.fwrite items t).1) := by
  unfold fwrite
  split
  · exact List.sublist_append_left _ _
  · exact s.held_transfer_sublist items t

variable {s items t}

/- A write without a failure takes and keeps all items. -/
theorem fwrite_of_clear
    (hAnswer : items = [] ∨ t.OfWrite items.length)
    (hClear : (s.fwrite items t).2.error = false) :
    (s.fwrite items t).1 = items.length ∧
      (s.fwrite items t).2.held = s.held ++ items ∧
      (s.fwrite items t).2.buffered <:+
        s.buffered ++ items := by
  cases items with
  | nil =>
      refine ⟨rfl, (List.append_nil _).symm, ?_⟩
      exact ⟨[], (List.append_nil _).symm⟩
  | cons item items =>
      rcases hAnswer with hNone | hAnswer
      · cases hNone
      have hFailed :=
        ((s.error_transfer (item :: items) t).mp hClear).2
      have hTaken : t.taken = (item :: items).length := by
        apply Nat.le_antisymm hAnswer.le
        by_contra hShort
        have hSet := hAnswer.short (by omega)
        rw [hFailed] at hSet
        cases hSet
      have hAll :
          (item :: items).take t.taken = item :: items := by
        rw [hTaken, List.take_length]
      have hHeld :=
        s.held_transfer_of_lost (item :: items) t
          (hAnswer.lost_of_clear hFailed)
      have hBuffered :=
        s.buffered_transfer (item :: items) t
      rw [hAll] at hHeld hBuffered
      exact ⟨hTaken, hHeld, hBuffered⟩

/- A flush without a failure brings all to the file. -/
theorem fflush_of_clear
    (hAnswer : t.OfFlush s.buffered.length)
    (hClear : (s.fflush t).error = false) :
    (s.fflush t).held = s.held ∧
      (s.fflush t).buffered = [] := by
  have hFailed := ((s.error_transfer [] t).mp hClear).2
  constructor
  · have hHeld :=
      s.held_transfer_of_lost [] t
        (hAnswer.lost_of_clear hFailed)
    simpa [fflush] using hHeld
  · have hAll := hAnswer.all hFailed
    simp only [fflush, transfer, List.take_nil,
      List.append_nil]
    exact List.drop_eq_nil_of_le (by omega)

end OutputStream
