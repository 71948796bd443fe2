import WebServer.V2.Http.ReadBuffer

/-
  What `read()` takes in version 2.0.

  The loop of `read()` ends where `recv` fails or returns 0,
  and 0 is taken for a peer that has closed. A `recv` that
  is offered no room returns 0 as well. So bytes that leave
  room in the buffer are accepted, however they come in, and
  bytes that fill it are stored by a call that fails.

  Main declarations:
    * `HttpParser.Accepts`
    * `HttpParser.readLoop_portions`
    * `HttpParser.read_portions`
    * `HttpParser.read_accepts_iff`
-/

------------------------------------------------------------
-- Portions
------------------------------------------------------------

namespace WebServer

namespace V2

namespace HttpParser

/- What `recv` finds: some portions, and then nothing. -/
def deliveries
    (portions : List Bytes) : List RecvResult :=
  portions.map RecvResult.bytes ++ [.eagain]

/-
  A call of `read()` that ended in `r` returned true, and
  the bytes are behind those that were there.
-/
structure Accepts
    (c : HttpParser)
    (bytes : Bytes)
    (r : Bool × HttpParser) : Prop where
  success : r.1 = true
  readIdx : r.2.readIdx = c.readIdx + bytes.length
  stored :
    ∀ i < bytes.length,
      r.2.readBuffer[c.readIdx + i]? = bytes[i]?

/-
  All portions are stored. What the last `recv` returns is
  decided by the room that they leave.
-/
theorem readLoop_portions
    {c : HttpParser}
    {portions : List Bytes}
    (hSize : c.readBuffer.length = readBufferSize)
    (hPositive : ∀ data ∈ portions, data ≠ [])
    (hFits :
      c.readIdx + portions.flatten.length ≤
        readBufferSize) :
    readLoop (deliveries portions) c =
      ((c.receive portions.flatten).hasRoom,
        c.receive portions.flatten) := by
  induction portions generalizing c with
  | nil =>
      rw [List.flatten_nil, receive_nil]
      rfl
  | cons data portions ih =>
      rw [List.flatten_cons, List.length_append] at hFits
      have hTaken :
          data.take (readBufferSize - c.readIdx) = data := by
        apply List.take_of_length_le
        omega
      have hStored :
          (c.receive data).readBuffer.length =
            readBufferSize := by
        rw [← hSize]
        apply CString.length_store
        omega
      have hRest :=
        ih hStored
          (fun b hb =>
            hPositive b (List.mem_cons_of_mem _ hb))
          (by
            show c.readIdx + data.length +
              portions.flatten.length ≤ readBufferSize
            omega)
      have hFirst :
          readLoop (deliveries (data :: portions)) c =
            if data.take (readBufferSize - c.readIdx) =
                [] then
              (false, c)
            else
              readLoop (deliveries portions)
                (c.receive
                  (data.take
                    (readBufferSize - c.readIdx))) := rfl
      rw [hTaken, if_neg (hPositive data List.mem_cons_self),
        hRest, receive_receive (by rw [hSize]; omega)]
        at hFirst
      rw [hFirst, List.flatten_cons]

end HttpParser

end V2

end WebServer

------------------------------------------------------------
-- Calls That Return True
------------------------------------------------------------

namespace WebServer

namespace V2

namespace HttpParser

/- A whole call, with bytes pending and room for them. -/
theorem read_portions
    {c : HttpParser}
    {portions : List Bytes}
    (hSize : c.readBuffer.length = readBufferSize)
    (hPositive : ∀ data ∈ portions, data ≠ [])
    (hSome : portions ≠ [])
    (hFits :
      c.readIdx + portions.flatten.length ≤
        readBufferSize) :
    c.read (deliveries portions) =
      ((c.receive portions.flatten).hasRoom,
        c.receive portions.flatten) := by
  have hLong : 0 < portions.flatten.length := by
    apply List.length_pos_of_ne_nil
    intro hNil
    rcases List.exists_mem_of_ne_nil _ hSome with
      ⟨data, hMem⟩
    have hAll := List.flatten_eq_nil_iff.mp hNil
    exact hPositive data hMem (hAll data hMem)
  unfold read
  rw [if_neg (by omega)]
  exact readLoop_portions hSize hPositive hFits

/-
  Pending bytes that fit into the read buffer are accepted
  by `read()` if and only if they do not fill it.
-/
theorem read_accepts_iff
    {c : HttpParser}
    {portions : List Bytes}
    (hSize : c.readBuffer.length = readBufferSize)
    (hPositive : ∀ data ∈ portions, data ≠ [])
    (hSome : portions ≠ [])
    (hFits :
      c.readIdx + portions.flatten.length ≤
        readBufferSize) :
    c.Accepts portions.flatten
        (c.read (deliveries portions)) ↔
      c.readIdx + portions.flatten.length <
        readBufferSize := by
  rw [read_portions hSize hPositive hSome hFits]
  constructor
  · intro h
    exact of_decide_eq_true h.success
  · intro hRoom
    exact
      { success := decide_eq_true hRoom
        readIdx := rfl
        stored := by
          intro i hIn
          exact CString.getElem?_store (by omega) hIn }

/- Three bytes that come in two portions. -/
theorem read_accepts_iff_two_portions :
    unusedParser.init.Accepts [71, 69, 84]
        (unusedParser.init.read
          (deliveries [[71], [69, 84]])) ↔
      3 < readBufferSize :=
  @read_accepts_iff unusedParser.init [[71], [69, 84]]
    List.length_replicate (by decide) (by decide)
    (by decide)

/- A last byte that fills the buffer. -/
theorem full_buffer_refused :
    ¬ ∀ (c : HttpParser) (portions : List Bytes),
      c.readBuffer.length = readBufferSize →
        (∀ data ∈ portions, data ≠ []) →
          portions ≠ [] →
            c.readIdx + portions.flatten.length ≤
                readBufferSize →
              c.Accepts portions.flatten
                (c.read (deliveries portions)) := by
  intro hAll
  have hAccepts :=
    hAll { unusedParser.init with readIdx := 2047 } [[71]]
      List.length_replicate (by decide) (by decide)
      (by decide)
  rw [read_portions List.length_replicate (by decide)
    (by decide) (by decide)] at hAccepts
  have hTrue := hAccepts.success
  revert hTrue
  decide

end HttpParser

end V2

end WebServer
