import WebServer.V3.Base.AsyncLogging
import Mathlib.Data.List.Nodup

/-
  Ownership of the logger's buffers over all interleavings.

  Each buffer is held by at most one variable of the logger,
  the front end always has a buffer to write to, and the
  back end always finds its two spare buffers empty. The
  second refill finds a buffer because `nextBuffer_` is null
  only when `buffers_` is not empty, a link that both the
  front end and the back end maintain.

  Main declarations:
    * `AsyncLogging.OwnsBuffers`
    * `AsyncLogging.Owned`
    * `buffers_owned`
-/

------------------------------------------------------------
-- Ownership
------------------------------------------------------------

namespace WebServer

namespace V3

namespace AsyncLogging

/-
  The front end has a buffer, no buffer is held twice, so
  none is written by both ends, and the loop starts with two
  empty spare buffers.
-/
def OwnsBuffers
    (s : AsyncLogging) : Prop :=
  s.currentBuffer.isSome ∧
    s.reachable.Nodup ∧
    (∀ id ∈ s.currentBuffer, id ∉ s.buffersToWrite) ∧
    (s.pos = .loopHead →
      s.isEmptyBuffer s.newBuffer1 ∧
        s.isEmptyBuffer s.newBuffer2)

/- How often a buffer is held. -/
def holders
    (s : AsyncLogging)
    (id : BufferId) : Nat :=
  s.reachable.count id

/-
  What the back end's position says about its variables:
  enough buffers are left for the refills still to come.
-/
def PosOk
    (s : AsyncLogging) : Prop :=
  match s.pos with
  | .entry => s.running = true
  | .loopHead | .beforeLock | .waiting =>
      s.newBuffer1.isSome ∧ s.newBuffer2.isSome ∧
        s.buffersToWrite = []
  | .collected | .writing _ | .resizing | .refilling1 =>
      s.newBuffer1 = none ∧ 1 ≤ s.buffersToWrite.length ∧
        (s.newBuffer2 = none → 2 ≤ s.buffersToWrite.length)
  | .refilling2 =>
      s.newBuffer1.isSome ∧
        (s.newBuffer2 = none → 1 ≤ s.buffersToWrite.length)
  | .clearing => s.newBuffer1.isSome ∧ s.newBuffer2.isSome
  | .finished => True

/-
  No buffer is held twice, and identities not handed out yet
  are not held at all.
-/
structure Once
    (s : AsyncLogging) : Prop where
  le_one : ∀ id, s.holders id ≤ 1
  fresh : ∀ id : Nat, s.nextId ≤ id → s.holders id = 0

/-
  The invariant. `link` is what both ends keep for the
  second refill.
-/
structure Owned
    (s : AsyncLogging) : Prop where
  current : s.currentBuffer.isSome
  once : s.Once
  link : s.nextBuffer = none → s.buffers ≠ []
  spares :
    ∀ id, id ∈ s.newBuffer1 ∨ id ∈ s.newBuffer2 →
      (s.heap id).data = []
  posOk : s.PosOk

theorem holders_eq
    (s : AsyncLogging)
    (id : BufferId) :
    s.holders id =
      s.currentBuffer.toList.count id +
        (s.nextBuffer.toList.count id +
          (s.buffers.count id +
            (s.buffersToWrite.count id +
              (s.newBuffer1.toList.count id +
                s.newBuffer2.toList.count id)))) := by
  simp only [holders, reachable, List.count_append]

/-
  Moving buffers between variables, dropping some and making
  new ones holds none twice.
-/
theorem Once.move
    {s t : AsyncLogging}
    (h : s.Once)
    (made : List Nat)
    (hNodup : made.Nodup)
    (hMade : ∀ id ∈ made, s.nextId ≤ id ∧ id < t.nextId)
    (hNext : s.nextId ≤ t.nextId)
    (hHolders :
      ∀ id, t.holders id ≤ s.holders id + made.count id) :
    t.Once := by
  refine { le_one := ?_, fresh := ?_ }
  · intro id
    have hLe := hHolders id
    by_cases hIn : id ∈ made
    · have hOld := h.fresh id (hMade id hIn).1
      have hOne :=
        List.nodup_iff_count_le_one.mp hNodup id
      omega
    · have hOld := h.le_one id
      have hZero := List.count_eq_zero.mpr hIn
      omega
  · intro id hFresh
    have hLe := hHolders id
    have hOld := h.fresh id (Nat.le_trans hNext hFresh)
    have hZero : made.count id = 0 := by
      apply List.count_eq_zero.mpr
      intro hIn
      have hLt := (hMade id hIn).2
      omega
    omega

/- The same when no buffer is made. -/
theorem Once.of_le
    {s t : AsyncLogging}
    (h : s.Once)
    (hNext : s.nextId ≤ t.nextId)
    (hHolders : ∀ id, t.holders id ≤ s.holders id) :
    t.Once :=
  h.move [] List.nodup_nil (by simp) hNext
    (by simpa using hHolders)

/- A fresh identity belongs to no variable. -/
theorem Once.not_spare
    {s : AsyncLogging}
    (h : s.Once)
    {id : Nat}
    (hFresh : s.nextId ≤ id) :
    id ∉ s.newBuffer1 ∧ id ∉ s.newBuffer2 := by
  have hZero := h.fresh id hFresh
  rw [holders_eq] at hZero
  constructor
  · intro hSpare
    rw [Option.mem_def.mp hSpare] at hZero
    simp at hZero
  · intro hSpare
    rw [Option.mem_def.mp hSpare] at hZero
    simp at hZero

/- The current buffer is not a spare one. -/
theorem Once.current_not_spare
    {s : AsyncLogging}
    (h : s.Once)
    {id : BufferId}
    (hCurrent : s.currentBuffer = some id) :
    id ∉ s.newBuffer1 ∧ id ∉ s.newBuffer2 := by
  have hOne := h.le_one id
  rw [holders_eq, hCurrent] at hOne
  simp only [Option.toList_some, List.count_singleton_self]
    at hOne
  constructor
  · intro hSpare
    rw [Option.mem_def.mp hSpare] at hOne
    simp only [Option.toList_some,
      List.count_singleton_self] at hOne
    omega
  · intro hSpare
    rw [Option.mem_def.mp hSpare] at hOne
    simp only [Option.toList_some,
      List.count_singleton_self] at hOne
    omega

/- The invariant says what a run should show. -/
theorem Owned.ownsBuffers
    {s : AsyncLogging}
    (h : s.Owned) :
    s.OwnsBuffers := by
  refine ⟨h.current, ?_, ?_, ?_⟩
  · rw [List.nodup_iff_count_le_one]
    exact h.once.le_one
  · intro id hCurrent hWrite
    have hOne := h.once.le_one id
    rw [holders_eq, Option.mem_def.mp hCurrent] at hOne
    have hCount := List.count_pos_iff.mpr hWrite
    simp only [Option.toList_some, List.count_singleton_self]
      at hOne
    omega
  · intro hPos
    have hSpares := h.posOk
    unfold PosOk at hSpares
    rw [hPos] at hSpares
    rcases Option.isSome_iff_exists.mp hSpares.1 with
      ⟨id₁, h₁⟩
    rcases Option.isSome_iff_exists.mp hSpares.2.1 with
      ⟨id₂, h₂⟩
    have hEmpty₁ := h.spares id₁ (.inl h₁)
    have hEmpty₂ := h.spares id₂ (.inr h₂)
    simp [isEmptyBuffer, h₁, h₂, FixedBuffer.length,
      hEmpty₁, hEmpty₂]

theorem init_owned :
    init.Owned := by
  refine
    { current := rfl
      once := { le_one := ?_, fresh := ?_ }
      link := by simp [init]
      spares := by simp [init]
      posOk := rfl }
  · intro id
    have hNodup : init.reachable.Nodup := by decide
    exact List.nodup_iff_count_le_one.mp hNodup id
  · intro id hLe
    apply List.count_eq_zero.mpr
    intro hMem
    have hPair : id = 0 ∨ id = 1 := by
      simpa [reachable, init] using hMem
    change 2 ≤ id at hLe
    rcases hPair with rfl | rfl <;> omega

end AsyncLogging

end V3

end WebServer

------------------------------------------------------------
-- Front-End Steps
------------------------------------------------------------

namespace WebServer

namespace V3

namespace AsyncLogging

variable {s : AsyncLogging}

/- Writing to the current buffer keeps the invariant. -/
theorem Owned.appendCurrent
    (h : s.Owned)
    {logline : Bytes}
    (hLen : logline.length < 2 ^ 31) :
    ∃ t, s.appendCurrent logline = some t ∧ t.Owned := by
  rcases Option.isSome_iff_exists.mp h.current with
    ⟨id, hCurrent⟩
  rcases (s.heap id).append_isSome hLen with ⟨b, hAppend⟩
  rcases h.once.current_not_spare hCurrent with ⟨h₁, h₂⟩
  refine
    ⟨s.setBuffer id b,
      by simp [AsyncLogging.appendCurrent, hCurrent,
        hAppend], ?_⟩
  refine
    { current := h.current
      once := ⟨h.once.le_one, h.once.fresh⟩
      link := h.link
      spares := ?_
      posOk := h.posOk }
  intro id' hSpare
  have hNe : id' ≠ id := by
    rintro rfl
    exact hSpare.elim h₁ h₂
  simpa [setBuffer, hNe] using h.spares id' hSpare

/- A full current buffer is pushed and replaced. -/
theorem Owned.renewCurrent
    (h : s.Owned)
    {id : BufferId}
    (hCurrent : s.currentBuffer = some id) :
    ({ s with
        buffers := s.buffers ++ [id]
        currentBuffer := none } :
      AsyncLogging).renewCurrent.Owned := by
  unfold AsyncLogging.renewCurrent
  cases hNext : s.nextBuffer with
  | some next =>
      refine
        { current := rfl
          once := h.once.of_le (Nat.le_refl _) ?_
          link := by simp
          spares := h.spares
          posOk := h.posOk }
      intro x
      simp only [holders_eq, hCurrent, hNext,
        Option.toList_some, Option.toList_none,
        List.count_append, List.count_nil]
      omega
  | none =>
      refine
        { current := rfl
          once :=
            h.once.move [s.nextId]
              (List.nodup_singleton _) (by simp)
              (Nat.le_succ _) ?_
          link := by simp [setBuffer]
          spares := ?_
          posOk := h.posOk }
      · intro x
        simp only [holders_eq, hCurrent, hNext, setBuffer,
          Option.toList_some, Option.toList_none,
          List.count_append, List.count_nil]
        omega
      · intro x hSpare
        have hOld := h.once.not_spare (Nat.le_refl s.nextId)
        have hNe : x ≠ s.nextId := by
          rintro rfl
          exact hSpare.elim hOld.1 hOld.2
        simpa [setBuffer, hNe] using h.spares x hSpare

/- `append` succeeds and keeps the invariant. -/
theorem Owned.append
    (h : s.Owned)
    {logline : Bytes}
    (hLen : logline.length < 2 ^ 31) :
    ∃ t, s.append logline = some t ∧ t.Owned := by
  rcases Option.isSome_iff_exists.mp h.current with
    ⟨id, hCurrent⟩
  by_cases hRoom :
      (logline.length : Int) < (s.heap id).avail
  · simpa [AsyncLogging.append, hCurrent, hRoom] using
      h.appendCurrent hLen
  · simpa [AsyncLogging.append, hCurrent, hRoom] using
      (h.renewCurrent hCurrent).appendCurrent hLen

end AsyncLogging

end V3

end WebServer

------------------------------------------------------------
-- Back-End Steps
------------------------------------------------------------

namespace WebServer

namespace V3

namespace AsyncLogging

variable {s : AsyncLogging}

/- A step that moves no buffer and leaves `PosOk`. -/
theorem Owned.setPos
    (h : s.Owned)
    (pos : ThreadPos)
    (hPos : ({ s with pos := pos } : AsyncLogging).PosOk) :
    ({ s with pos := pos } : AsyncLogging).Owned where
  current := h.current
  once := ⟨h.once.le_one, h.once.fresh⟩
  link := h.link
  spares := h.spares
  posOk := hPos

/- The two spare buffers made before the loop. -/
theorem Owned.prepare
    (h : s.Owned) :
    s.prepare.Owned := by
  refine
    { current := h.current
      once :=
        h.once.move [s.nextId, s.nextId + 1] (by simp)
          (by simp [AsyncLogging.prepare])
          (Nat.le_add_right _ 2) ?_
      link := h.link
      spares := ?_
      posOk := ⟨rfl, rfl, rfl⟩ }
  · intro x
    simp only [holders_eq, AsyncLogging.prepare, setBuffer,
      Option.toList_some, List.count_nil, List.count_cons]
    omega
  · intro x hSpare
    simp only [AsyncLogging.prepare, Option.mem_def,
      Option.some.injEq] at hSpare
    rcases hSpare with rfl | rfl
    · simp [AsyncLogging.prepare, setBuffer,
        FixedBuffer.empty]
    · simp [AsyncLogging.prepare, setBuffer,
        FixedBuffer.empty]

/-
  The critical section. When `nextBuffer_` is null the link
  gives a buffer besides the current one, so two are
  collected for the two refills.
-/
theorem Owned.collect
    (h : s.Owned)
    (h₁ : s.newBuffer1.isSome)
    (h₂ : s.newBuffer2.isSome)
    (hWrite : s.buffersToWrite = []) :
    ∃ t, s.collect = some t ∧ t.Owned := by
  rcases Option.isSome_iff_exists.mp h.current with
    ⟨id, hCurrent⟩
  rcases Option.isSome_iff_exists.mp h₂ with ⟨id₂, hSpare⟩
  cases hNext : s.nextBuffer with
  | some next =>
      refine
        ⟨_, by
          simp only [AsyncLogging.collect, hCurrent, hNext,
            Option.bind_eq_bind, Option.bind_some]
          rfl, ?_⟩
      refine
        { current := h₁
          once := h.once.of_le (Nat.le_refl _) ?_
          link := by simp
          spares := ?_
          posOk := ?_ }
      · intro x
        simp only [holders_eq, hCurrent, hWrite, hNext,
          Option.toList_some, Option.toList_none,
          List.count_append, List.count_nil]
        omega
      · intro x hMem
        simp only [Option.not_mem_none, false_or] at hMem
        exact h.spares x (.inr hMem)
      · exact ⟨rfl, by simp, by simp [hSpare]⟩
  | none =>
      have hLink := h.link hNext
      refine
        ⟨_, by
          simp only [AsyncLogging.collect, hCurrent, hNext,
            Option.bind_eq_bind, Option.bind_some]
          rfl, ?_⟩
      refine
        { current := h₁
          once := h.once.of_le (Nat.le_refl _) ?_
          link := by simp [hSpare]
          spares := by simp
          posOk := ?_ }
      · intro x
        simp only [holders_eq, hCurrent, hWrite, hNext,
          Option.toList_some, Option.toList_none,
          List.count_append, List.count_nil]
        omega
      · have hPositive := List.length_pos_iff.mpr hLink
        refine ⟨rfl, by simp, ?_⟩
        intro _
        simp
        omega

/- Dropping collected buffers keeps the invariant. -/
theorem Owned.drop
    (h : s.Owned)
    (kept : List BufferId)
    (pos : ThreadPos)
    (hSub : kept.Sublist s.buffersToWrite)
    (hPos :
      ({ s with buffersToWrite := kept, pos := pos } :
        AsyncLogging).PosOk) :
    ({ s with buffersToWrite := kept, pos := pos } :
      AsyncLogging).Owned := by
  refine
    { current := h.current
      once := h.once.of_le (Nat.le_refl _) ?_
      link := h.link
      spares := h.spares
      posOk := hPos }
  intro x
  have hCount := hSub.count_le x
  simp only [holders_eq]
  omega

/- A buffer taken back is one of those collected. -/
theorem takeBack_eq
    (hSome : 1 ≤ s.buffersToWrite.length) :
    ∃ id,
      s.buffersToWrite =
          s.buffersToWrite.dropLast ++ [id] ∧
        s.takeBack =
          some
            (id,
              { s.setBuffer id FixedBuffer.empty with
                buffersToWrite :=
                  s.buffersToWrite.dropLast }) := by
  have hNe : s.buffersToWrite ≠ [] := by
    rintro hNil
    simp [hNil] at hSome
  refine ⟨s.buffersToWrite.getLast hNe, ?_, ?_⟩
  · exact (List.dropLast_append_getLast hNe).symm
  · simp [takeBack, List.getLast?_eq_some_getLast hNe]

/- A collected buffer emptied is nobody else's. -/
theorem Owned.spares_setBuffer
    (h : s.Owned)
    (id : BufferId)
    {x : BufferId}
    (hSpare : x ∈ s.newBuffer1 ∨ x ∈ s.newBuffer2) :
    ((s.setBuffer id FixedBuffer.empty).heap x).data =
      [] := by
  by_cases hEq : x = id
  · simp [setBuffer, hEq, FixedBuffer.empty]
  · simpa [setBuffer, hEq] using h.spares x hSpare

/- The first refill. -/
theorem Owned.refill1
    (h : s.Owned)
    (hPos : s.pos = .refilling1) :
    ∃ t, s.threadFunc = some t ∧ t.Owned := by
  have hPosOk := h.posOk
  unfold PosOk at hPosOk
  rw [hPos] at hPosOk
  rcases hPosOk with ⟨hNone, hSome, hTwo⟩
  rcases takeBack_eq hSome with ⟨id, hSplit, hTake⟩
  refine
    ⟨_, by
      simp only [threadFunc, hPos, hNone, hTake,
        Option.bind_eq_bind, Option.bind_some]
      rfl, ?_⟩
  refine
    { current := h.current
      once := h.once.of_le (Nat.le_refl _) ?_
      link := h.link
      spares := ?_
      posOk := ?_ }
  · intro x
    have hCount := congrArg (List.count x) hSplit
    rw [List.count_append] at hCount
    simp only [holders_eq, setBuffer, hNone,
      Option.toList_some, Option.toList_none,
      List.count_nil]
    omega
  · rintro x (hSpare | hSpare)
    · have hEq : id = x := Option.some.inj hSpare
      simp [setBuffer, hEq, FixedBuffer.empty]
    · exact h.spares_setBuffer id (.inr hSpare)
  · refine ⟨rfl, ?_⟩
    intro hSecond
    have hLen := hTwo hSecond
    simp only [List.length_dropLast]
    omega

/- The second refill. -/
theorem Owned.refill2
    (h : s.Owned)
    (hPos : s.pos = .refilling2) :
    ∃ t, s.threadFunc = some t ∧ t.Owned := by
  have hPosOk := h.posOk
  unfold PosOk at hPosOk
  rw [hPos] at hPosOk
  rcases hPosOk with ⟨hFirst, hOne⟩
  cases hSecond : s.newBuffer2 with
  | some id =>
      refine
        ⟨{ s with pos := .clearing },
          by simp [threadFunc, hPos, hSecond], ?_⟩
      exact h.setPos _ ⟨hFirst, by simp [hSecond]⟩
  | none =>
      rcases takeBack_eq (hOne hSecond) with
        ⟨id, hSplit, hTake⟩
      refine
        ⟨_, by
          simp only [threadFunc, hPos, hSecond, hTake,
            Option.bind_eq_bind, Option.bind_some]
          rfl, ?_⟩
      refine
        { current := h.current
          once := h.once.of_le (Nat.le_refl _) ?_
          link := h.link
          spares := ?_
          posOk := ⟨hFirst, rfl⟩ }
      · intro x
        have hCount := congrArg (List.count x) hSplit
        rw [List.count_append] at hCount
        simp only [holders_eq, setBuffer, hSecond,
          Option.toList_some, Option.toList_none,
          List.count_nil]
        omega
      · rintro x (hSpare | hSpare)
        · exact h.spares_setBuffer id (.inl hSpare)
        · have hEq : id = x := Option.some.inj hSpare
          simp [setBuffer, hEq, FixedBuffer.empty]

/- More than two buffers are cut down to the first two. -/
theorem Owned.keepTwo
    (h : s.Owned)
    (hFirst : s.newBuffer1 = none)
    (hMany : 2 < s.buffersToWrite.length)
    {pos : ThreadPos}
    (hPos : pos = .writing 0 ∨ pos = .refilling1) :
    ({ s with
        buffersToWrite := s.buffersToWrite.take 2
        pos := pos } : AsyncLogging).Owned := by
  apply h.drop _ _ (List.take_sublist 2 _)
  have hTwo : (s.buffersToWrite.take 2).length = 2 := by
    rw [List.length_take]
    omega
  have hOne : 1 ≤ (s.buffersToWrite.take 2).length := by
    omega
  rcases hPos with rfl | rfl
  · exact ⟨hFirst, hOne, fun _ => Nat.le_of_eq hTwo.symm⟩
  · exact ⟨hFirst, hOne, fun _ => Nat.le_of_eq hTwo.symm⟩

/- The drop of all buffers but two after a collection. -/
theorem Owned.limit
    (h : s.Owned)
    (hPos : s.pos = .collected) :
    ∃ t, s.threadFunc = some t ∧ t.Owned := by
  have hPosOk := h.posOk
  unfold PosOk at hPosOk
  rw [hPos] at hPosOk
  have hNe : s.buffersToWrite ≠ [] := by
    intro hNil
    simp [hNil] at hPosOk
  by_cases hMany : s.buffersToWrite.length > 25
  · refine
      ⟨_, by
        simp only [AsyncLogging.threadFunc, hPos, hNe, hMany,
          if_true, if_false]
        rfl, ?_⟩
    exact h.keepTwo hPosOk.1 (by omega) (.inl rfl)
  · refine
      ⟨{ s with pos := .writing 0 },
        by simp [AsyncLogging.threadFunc, hPos, hNe, hMany],
        ?_⟩
    exact h.setPos _ hPosOk

/- The drop of all buffers but two after the writing. -/
theorem Owned.resize
    (h : s.Owned)
    (hPos : s.pos = .resizing) :
    ∃ t, s.threadFunc = some t ∧ t.Owned := by
  have hPosOk := h.posOk
  unfold PosOk at hPosOk
  rw [hPos] at hPosOk
  by_cases hMany : s.buffersToWrite.length > 2
  · refine
      ⟨_, by
        simp only [AsyncLogging.threadFunc, hPos, hMany,
          if_true]
        rfl, ?_⟩
    exact h.keepTwo hPosOk.1 hMany (.inr rfl)
  · refine
      ⟨{ s with pos := .refilling1 },
        by simp [AsyncLogging.threadFunc, hPos, hMany], ?_⟩
    exact h.setPos _ hPosOk

/- One buffer is written, or all were. -/
theorem Owned.write
    (h : s.Owned)
    {i : Nat}
    (hPos : s.pos = .writing i) :
    ∃ t, s.threadFunc = some t ∧ t.Owned := by
  have hPosOk := h.posOk
  unfold PosOk at hPosOk
  rw [hPos] at hPosOk
  cases hNext : s.buffersToWrite[i]? with
  | none =>
      refine
        ⟨{ s with pos := .resizing },
          by simp only [AsyncLogging.threadFunc, hPos, hNext],
          ?_⟩
      exact h.setPos _ hPosOk
  | some id =>
      refine
        ⟨_, by
          simp only [AsyncLogging.threadFunc, hPos, hNext]
          rfl, ?_⟩
      exact
        { current := h.current
          once := ⟨h.once.le_one, h.once.fresh⟩
          link := h.link
          spares := h.spares
          posOk := hPosOk }

/- Every piece of `threadFunc` keeps the invariant. -/
theorem Owned.threadFunc
    (h : s.Owned) :
    ∃ t, s.threadFunc = some t ∧ t.Owned := by
  have hPosOk := h.posOk
  unfold PosOk at hPosOk
  cases hPos : s.pos with
  | entry =>
      rw [hPos] at hPosOk
      simp only at hPosOk
      exact
        ⟨s.prepare,
          by simp [AsyncLogging.threadFunc, hPos, hPosOk],
          h.prepare⟩
  | loopHead =>
      have hEmpty := h.ownsBuffers.2.2.2 hPos
      rw [hPos] at hPosOk
      simp only at hPosOk
      cases hRun : s.running with
      | true =>
          refine
            ⟨{ s with pos := .beforeLock },
              by simp [AsyncLogging.threadFunc, hPos, hRun,
                hEmpty, hPosOk], ?_⟩
          exact h.setPos _ hPosOk
      | false =>
          refine
            ⟨{ s with pos := .finished },
              by simp [AsyncLogging.threadFunc, hPos, hRun],
              ?_⟩
          exact h.setPos _ trivial
  | beforeLock =>
      rw [hPos] at hPosOk
      simp only at hPosOk
      by_cases hNone : s.buffers = []
      · refine
          ⟨{ s with pos := .waiting },
            by simp [AsyncLogging.threadFunc, hPos, hNone],
            ?_⟩
        exact h.setPos _ hPosOk
      · simpa [AsyncLogging.threadFunc, hPos, hNone] using
          h.collect hPosOk.1 hPosOk.2.1 hPosOk.2.2
  | waiting =>
      rw [hPos] at hPosOk
      simp only at hPosOk
      simpa [AsyncLogging.threadFunc, hPos] using
        h.collect hPosOk.1 hPosOk.2.1 hPosOk.2.2
  | collected => exact h.limit hPos
  | writing i => exact h.write hPos
  | resizing => exact h.resize hPos
  | refilling1 => exact h.refill1 hPos
  | refilling2 => exact h.refill2 hPos
  | clearing =>
      rw [hPos] at hPosOk
      simp only at hPosOk
      refine
        ⟨{ s with buffersToWrite := [], pos := .loopHead },
          by simp [AsyncLogging.threadFunc, hPos], ?_⟩
      exact
        h.drop [] .loopHead (List.nil_sublist _)
          ⟨hPosOk.1, hPosOk.2, rfl⟩
  | finished =>
      exact
        ⟨s, by simp [AsyncLogging.threadFunc, hPos], h⟩

/- Every step keeps the invariant. -/
theorem step_owned
    (s : AsyncLogging)
    (e : LogEvent)
    (h : s.Owned)
    (hEnabled : s.enabled e) :
    ∃ t, s.step e = some t ∧ t.Owned := by
  cases e with
  | append logline => exact h.append hEnabled
  | stop =>
      refine ⟨s.stop, rfl, ?_⟩
      refine
        { current := h.current
          once := ⟨h.once.le_one, h.once.fresh⟩
          link := h.link
          spares := h.spares
          posOk := ?_ }
      -- only the first assertion reads `running_`
      have hPosOk := h.posOk
      unfold PosOk at hPosOk ⊢
      cases hPos : s.pos with
      | entry => exact (hEnabled hPos).elim
      | finished => simp [stop, hPos]
      | _ => simpa [stop, hPos] using hPosOk
  | thread => exact h.threadFunc

end AsyncLogging

end V3

end WebServer

------------------------------------------------------------
-- All Interleavings
------------------------------------------------------------

namespace WebServer

namespace V3

/-
  Over every interleaving of `append`, `stop` and the pieces
  of `threadFunc`, no assertion fails and every buffer has
  one owner.
-/
theorem buffers_owned
    (es : List LogEvent) :
    loggingMachine.Throughout AsyncLogging.OwnsBuffers
      AsyncLogging.init es :=
  (Machine.throughout_of_preserved
      AsyncLogging.step_owned AsyncLogging.init_owned
        es).mono
    fun _ h => h.ownsBuffers

end V3

end WebServer
