import Mathlib.Data.List.Basic
import Mathlib.Data.List.Nodup
import Mathlib.Logic.Function.Basic
import Mathlib.Tactic.Common

/-
  Doubly linked segments over arbitrary link functions.

  `Seg nx pv p l q` says that the nodes of `l`, in order,
  are linked to each other in both directions, that the
  first one points back to `p` and that the last one points
  on to `q`. `Walk nx p l` says that following `nx` from `p`
  visits `l` and ends. Nothing is assumed about how the
  links are stored: `nx` and `pv` are functions, and an
  assignment to a link field is a `Function.update`.

  The rules for pointer surgery are:
    * `Walk.unique`
    * `Seg.walk`
    * `Seg.congr`
    * `seg_append`
    * `Seg.insertAfter`
    * `Seg.unlink`
    * `Seg.dropFirst`
    * `Seg.dropLast`
-/

------------------------------------------------------------
-- Segments
------------------------------------------------------------

namespace DoublyLinked

variable {α : Type}

/- Nodes linked in both directions between two ends. -/
def Seg
    (nx pv : α → Option α) :
    Option α → List α → Option α → Prop
| _, [], _ => True
| p, a :: l, q =>
    pv a = p ∧
      nx a = l.head?.or q ∧
        Seg nx pv (some a) l q

variable {nx pv nx' pv' : α → Option α}
variable {p q : Option α}

@[simp] theorem seg_nil :
    Seg nx pv p [] q := trivial

@[simp] theorem seg_cons
    {a : α}
    {l : List α} :
    Seg nx pv p (a :: l) q ↔
      pv a = p ∧
        nx a = l.head?.or q ∧
          Seg nx pv (some a) l q := Iff.rfl

/- The nodes that following `nx` from `p` visits. -/
def Walk
    (nx : α → Option α) :
    Option α → List α → Prop
| p, [] => p = none
| p, a :: l => p = some a ∧ Walk nx (nx a) l

/- A start determines the nodes visited from it. -/
theorem Walk.unique
    {l l' : List α}
    (h : Walk nx p l)
    (h' : Walk nx p l') :
    l = l' := by
  induction l generalizing p l' with
  | nil =>
      cases l' with
      | nil => rfl
      | cons b l' => simp [Walk, h'.1] at h
  | cons a l ih =>
      cases l' with
      | nil => simp [Walk, h.1] at h'
      | cons b l' =>
          have hEq : a = b :=
            Option.some.inj (h.1.symm.trans h'.1)
          subst hEq
          rw [ih h.2 h'.2]

/- A walk reads the links of its own nodes only. -/
theorem Walk.congr
    {l : List α}
    (h : Walk nx p l)
    (hNext : ∀ a ∈ l, nx' a = nx a) :
    Walk nx' p l := by
  induction l generalizing p with
  | nil => exact h
  | cons a l ih =>
      refine ⟨h.1, ?_⟩
      rw [hNext a (by simp)]
      exact ih h.2 (fun b hb => hNext b (by simp [hb]))

/- A whole segment is walked from its first node. -/
theorem Seg.walk
    {l : List α}
    (h : Seg nx pv p l none) :
    Walk nx l.head? l := by
  induction l generalizing p with
  | nil => rfl
  | cons a l ih =>
      refine ⟨rfl, ?_⟩
      rw [h.2.1, Option.or_none]
      exact ih h.2.2

/- A segment reads the links of its own nodes only. -/
theorem Seg.congr
    {l : List α}
    (hNext : ∀ a ∈ l, nx' a = nx a)
    (hPrev : ∀ a ∈ l, pv' a = pv a)
    (h : Seg nx pv p l q) :
    Seg nx' pv' p l q := by
  induction l generalizing p with
  | nil => trivial
  | cons a l ih =>
      rcases h with ⟨hPv, hNx, hTail⟩
      refine ⟨?_, ?_, ?_⟩
      · rw [hPrev a (by simp)]
        exact hPv
      · rw [hNext a (by simp)]
        exact hNx
      · exact ih
          (fun b hb => hNext b (by simp [hb]))
          (fun b hb => hPrev b (by simp [hb]))
          hTail

/- A segment splits anywhere into two segments. -/
theorem seg_append
    {l₁ l₂ : List α} :
    Seg nx pv p (l₁ ++ l₂) q ↔
      Seg nx pv p l₁ (l₂.head?.or q) ∧
        Seg nx pv (l₁.getLast?.or p) l₂ q := by
  induction l₁ generalizing p with
  | nil => simp
  | cons a l₁ ih =>
      have hHead :
          ((l₁ ++ l₂).head?).or q =
            l₁.head?.or (l₂.head?.or q) := by
        cases l₁ <;> simp
      have hLast :
          ((a :: l₁).getLast?).or p =
            l₁.getLast?.or (some a) := by
        rw [List.getLast?_cons]
        cases l₁.getLast? <;> simp
      rw [List.cons_append, seg_cons, seg_cons, ih, hHead,
        hLast]
      tauto

/- The links around one node in the middle of a segment. -/
theorem Seg.middle
    {l₁ l₂ : List α}
    {a : α}
    (h : Seg nx pv p (l₁ ++ a :: l₂) q) :
    pv a = l₁.getLast?.or p ∧ nx a = l₂.head?.or q := by
  rw [seg_append] at h
  exact ⟨h.2.1, h.2.2.1⟩

/- Redirecting the back link of the first node. -/
theorem Seg.setFirstPrev
    [DecidableEq α]
    {a : α}
    {l : List α}
    (hNodup : (a :: l).Nodup)
    (p' : Option α)
    (h : Seg nx pv p (a :: l) q) :
    Seg nx (Function.update pv a p') p' (a :: l) q := by
  rcases h with ⟨_, hNx, hTail⟩
  refine ⟨by simp, hNx, ?_⟩
  apply hTail.congr (fun _ _ => rfl)
  intro b hb
  have hNe : b ≠ a := by
    rintro rfl
    exact (List.nodup_cons.mp hNodup).1 hb
  simp [hNe]

/- Redirecting the forward link of the last node. -/
theorem Seg.setLastNext
    [DecidableEq α]
    {x : α}
    {l : List α}
    (hFresh : x ∉ l)
    (q' : Option α)
    (h : Seg nx pv p (l ++ [x]) q) :
    Seg (Function.update nx x q') pv p (l ++ [x]) q' := by
  rw [seg_append] at h ⊢
  refine ⟨?_, ?_⟩
  · apply h.1.congr _ (fun _ _ => rfl)
    intro b hb
    have hNe : b ≠ x := by
      rintro rfl
      exact hFresh hb
    simp [hNe]
  · rcases h.2 with ⟨hPv, _, _⟩
    exact ⟨hPv, by simp, trivial⟩

end DoublyLinked

------------------------------------------------------------
-- Pointer Surgery
------------------------------------------------------------

namespace DoublyLinked

variable {α : Type}
variable {nx pv : α → Option α}
variable {p q : Option α}

/-
  Linking a fresh node in after `x`: four assignments, two
  for the new node and one for each neighbour.
-/
theorem Seg.insertAfter
    {l₁ l₂ : List α}
    {x a : α}
    (h : Seg nx pv p (l₁ ++ x :: l₂) q)
    (hNodup : (l₁ ++ x :: l₂).Nodup)
    (hFresh : a ∉ l₁ ++ x :: l₂)
    {nx' pv' : α → Option α}
    (hNextX : nx' x = some a)
    (hNextA : nx' a = l₂.head?.or q)
    (hNextOther : ∀ b, b ≠ x → b ≠ a → nx' b = nx b)
    (hPrevA : pv' a = some x)
    (hPrevY : ∀ y, l₂.head? = some y → pv' y = some a)
    (hPrevOther :
      ∀ b, b ≠ a → l₂.head? ≠ some b → pv' b = pv b) :
    Seg nx' pv' p (l₁ ++ x :: a :: l₂) q := by
  have hNotX : x ∉ l₁ ∧ x ∉ l₂ := by
    simp only [List.nodup_append, List.nodup_cons,
      List.mem_cons] at hNodup
    exact
      ⟨fun hIn => hNodup.2.2 x hIn x (.inl rfl) rfl,
        hNodup.2.1.1⟩
  have hDisjoint : ∀ b ∈ l₁, b ∉ l₂ := by
    simp only [List.nodup_append, List.mem_cons]
      at hNodup
    exact fun b hb hb' => hNodup.2.2 b hb b (.inr hb') rfl
  simp only [List.mem_append, List.mem_cons, not_or]
    at hFresh
  rcases hFresh with ⟨hA₁, hAX, hA₂⟩
  rw [seg_append] at h
  rcases h with ⟨hLeft, hPvX, _, hRight⟩
  rw [seg_append]
  refine ⟨?_, ?_, ?_, hPrevA, hNextA, ?_⟩
  · apply hLeft.congr
    · intro b hb
      exact hNextOther b
        (fun hEq => hNotX.1 (hEq ▸ hb))
        (fun hEq => hA₁ (hEq ▸ hb))
    · intro b hb
      apply hPrevOther b (fun hEq => hA₁ (hEq ▸ hb))
      intro hHead
      exact hDisjoint b hb (List.mem_of_head? hHead)
  · rw [hPrevOther x (fun hEq => hAX hEq.symm)
      (fun hHead => hNotX.2 (List.mem_of_head? hHead))]
    exact hPvX
  · simpa using hNextX
  · cases l₂ with
    | nil => trivial
    | cons y l₂ =>
        rcases hRight with ⟨_, hNxY, hTail⟩
        have hYX : y ≠ x :=
          fun hEq => hNotX.2 (by simp [hEq])
        have hYA : y ≠ a :=
          fun hEq => hA₂ (by simp [hEq])
        have hTailNodup : (y :: l₂).Nodup :=
          (List.nodup_cons.mp
            (List.nodup_append.mp hNodup).2.1).2
        refine
          ⟨hPrevY y rfl,
            (hNextOther y hYX hYA).trans hNxY, ?_⟩
        apply hTail.congr
        · intro b hb
          exact hNextOther b
            (fun hEq => hNotX.2 (by simp [← hEq, hb]))
            (fun hEq => hA₂ (by simp [← hEq, hb]))
        · intro b hb
          apply hPrevOther b
            (fun hEq => hA₂ (by simp [← hEq, hb]))
          intro hHead
          have hEq : y = b := by simpa using hHead
          exact
            (List.nodup_cons.mp hTailNodup).1 (hEq ▸ hb)

/-
  Unlinking a middle node: its neighbours take over its two
  links.
-/
theorem Seg.unlink
    [DecidableEq α]
    {l₁ l₂ : List α}
    {x a y : α}
    (h : Seg nx pv p (l₁ ++ x :: a :: y :: l₂) q)
    (hNodup : (l₁ ++ x :: a :: y :: l₂).Nodup) :
    Seg (Function.update nx x (nx a))
      (Function.update pv y (pv a)) p
      (l₁ ++ x :: y :: l₂) q := by
  have hMiddle :
      Seg nx pv p ((l₁ ++ [x]) ++ a :: y :: l₂) q := by
    simpa using h
  have hA := hMiddle.middle
  have hNextA : nx a = some y := by simpa using hA.2
  have hPrevA : pv a = some x := by simpa using hA.1
  have hXY : x ≠ y ∧ x ∉ l₁ ∧ x ∉ l₂ ∧ y ∉ l₁ ∧ y ∉ l₂ := by
    simp only [List.nodup_append, List.nodup_cons,
      List.mem_cons, not_or] at hNodup
    refine
      ⟨hNodup.2.1.1.2.1,
        fun hIn => hNodup.2.2 x hIn x (.inl rfl) rfl,
        hNodup.2.1.1.2.2,
        fun hIn =>
          hNodup.2.2 y hIn y (.inr (.inr (.inl rfl))) rfl,
        hNodup.2.1.2.2.1⟩
  rcases hXY with ⟨hNe, hX₁, hX₂, hY₁, hY₂⟩
  rw [seg_append] at h
  rcases h with ⟨hLeft, hPvX, _, _, _, _, hNxY, hRight⟩
  rw [hNextA, hPrevA, seg_append]
  refine ⟨?_, ?_, ?_, ?_, ?_, ?_⟩
  · apply hLeft.congr
    · intro b hb
      have hNe : b ≠ x := fun hEq => hX₁ (hEq ▸ hb)
      simp [hNe]
    · intro b hb
      have hNe : b ≠ y := fun hEq => hY₁ (hEq ▸ hb)
      simp [hNe]
  · simpa [hNe] using hPvX
  · simp
  · simp
  · simpa [hNe.symm] using hNxY
  · apply hRight.congr
    · intro b hb
      have hNe : b ≠ x := fun hEq => hX₂ (hEq ▸ hb)
      simp [hNe]
    · intro b hb
      have hNe : b ≠ y := fun hEq => hY₂ (hEq ▸ hb)
      simp [hNe]

/- Dropping the first node: the second becomes the first. -/
theorem Seg.dropFirst
    [DecidableEq α]
    {a b : α}
    {l : List α}
    (hNodup : (a :: b :: l).Nodup)
    (p' : Option α)
    (h : Seg nx pv p (a :: b :: l) q) :
    Seg nx (Function.update pv b p') p' (b :: l) q :=
  h.2.2.setFirstPrev (List.nodup_cons.mp hNodup).2 p'

/- Dropping the last node: the one before becomes the last. -/
theorem Seg.dropLast
    [DecidableEq α]
    {l : List α}
    {x a : α}
    (hNodup : (l ++ [x, a]).Nodup)
    (q' : Option α)
    (h : Seg nx pv p (l ++ [x, a]) q) :
    Seg (Function.update nx x q') pv p (l ++ [x]) q' := by
  have hSplit : Seg nx pv p ((l ++ [x]) ++ [a]) q := by
    simpa using h
  rw [seg_append] at hSplit
  apply hSplit.1.setLastNext
  intro hIn
  have hDisjoint := (List.nodup_append.mp hNodup).2.2
  exact hDisjoint x hIn x (by simp) rfl

end DoublyLinked
