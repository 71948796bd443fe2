import WebServer.Common

/-
  The fixed-size buffers of the version 3.0 logger
  (`base/LogStream.h`).

  Key definitions include:
    * `FixedBuffer`
    * `FixedBuffer.append`
-/

------------------------------------------------------------
-- Fixed Buffers
------------------------------------------------------------

namespace WebServer

namespace V3

/- The filled part of a buffer of `size` bytes. -/
structure FixedBuffer (size : Nat) where
  data : Bytes
  fits : data.length ≤ size

namespace FixedBuffer

variable {size : Nat}

/- A new buffer, and a buffer after `reset()`. -/
def empty : FixedBuffer size where
  data := []
  fits := Nat.zero_le size

def length
    (b : FixedBuffer size) : Nat :=
  b.data.length

/- `avail()`, the space left. -/
def avail
    (b : FixedBuffer size) : Int :=
  (size : Int) - b.data.length

/-
  `append(buf, len)`. The length is compared as an `int`;
  `none` is a copy past the end of the buffer.
-/
def append
    (b : FixedBuffer size)
    (buf : Bytes) : Option (FixedBuffer size) :=
  if toInt32 buf.length < b.avail then
    if hFits : (b.data ++ buf).length ≤ size then
      some ⟨b.data ++ buf, hFits⟩
    else
      none
  else
    some b

@[simp] theorem length_empty :
    (empty : FixedBuffer size).length = 0 := rfl

/- A buffer of an `int` length is never overrun. -/
theorem append_isSome
    (b : FixedBuffer size)
    {buf : Bytes}
    (hLen : buf.length < 2 ^ 31) :
    ∃ b', b.append buf = some b' := by
  have hInt : toInt32 buf.length = buf.length :=
    toInt32_of_isInt32 ⟨by omega, by omega⟩
  unfold append avail
  rw [hInt]
  split
  next hRoom =>
    have hFits : (b.data ++ buf).length ≤ size := by
      rw [List.length_append]
      omega
    exact ⟨_, dif_pos hFits⟩
  next => exact ⟨_, rfl⟩

/- What fits is copied behind the data. -/
theorem append_of_room
    (b : FixedBuffer size)
    {buf : Bytes}
    (hLen : buf.length < 2 ^ 31)
    (hRoom : (buf.length : Int) < b.avail) :
    ∃ b',
      b.append buf = some b' ∧ b'.data = b.data ++ buf := by
  have hInt : toInt32 buf.length = buf.length :=
    toInt32_of_isInt32 ⟨by omega, by omega⟩
  have hFits : (b.data ++ buf).length ≤ size := by
    unfold avail at hRoom
    rw [List.length_append]
    omega
  refine ⟨⟨b.data ++ buf, hFits⟩, ?_, rfl⟩
  unfold append
  rw [hInt, if_pos hRoom, dif_pos hFits]

end FixedBuffer

end V3

end WebServer
