import Mathlib.Data.List.Infix
import Mathlib.Data.List.MinMax
import Mathlib.Order.Nat
import Mathlib.Tactic.Common

/-
  Paths read as text.

  A path is cut at its slashes. Normalising it drops empty
  parts and dots, and lets each double dot take back the
  name in front of it. A double dot with no name in front of
  it stays, and the path leads out of the directory it is
  looked up in. In an absolute path nothing is above the
  root, and such a double dot is dropped.

  Key definitions include:
    * `components`
    * `normalize`
    * `Confined`
    * `StaysInside`
    * `resolve`
    * `Inside`
    * `climb`
    * `named`

  Key theorems include:
    * `doubleDot_not_mem_normalize_iff`
    * `confined_iff_staysInside`
    * `climb_le_iff`
    * `foldl_resolveStep`
    * `inside_append_iff`
-/

------------------------------------------------------------
-- Normal Forms
------------------------------------------------------------

namespace LexicalPath

/- `/`, `.` and `..`. -/
def slash : UInt8 := 47

def dot : List UInt8 := [46]

def doubleDot : List UInt8 := [46, 46]

/- The parts of a path between its slashes. -/
def components
    (path : List UInt8) : List (List UInt8) :=
  path.splitOn slash

/- A part that names a file or a directory. -/
def isName
    (part : List UInt8) : Bool :=
  part ≠ [] ∧ part ≠ dot ∧ part ≠ doubleDot

/- One part behind those that are kept, the last kept first. -/
def normalizeStep
    (kept : List (List UInt8))
    (part : List UInt8) : List (List UInt8) :=
  if part = doubleDot then
    match kept with
    | [] => [doubleDot]
    | last :: front =>
        if last = doubleDot then
          doubleDot :: last :: front
        else
          front
  else if isName part then
    part :: kept
  else
    kept

/- The parts of the normal form. -/
def normalize
    (parts : List (List UInt8)) : List (List UInt8) :=
  (parts.foldl normalizeStep []).reverse

/-
  A relative path whose normal form does not lead out of the
  directory it is looked up in.
-/
def Confined
    (path : List UInt8) : Prop :=
  path.head? ≠ some slash ∧
    doubleDot ∉ normalize (components path)

instance
    (path : List UInt8) : Decidable (Confined path) :=
  inferInstanceAs (Decidable (_ ∧ _))

/-
  In front of no part there are more double dots than names,
  `depth` names being there before.
-/
def NeverAbove
    (depth : Nat)
    (parts : List (List UInt8)) : Prop :=
  ∀ front, front <+: parts →
    front.count doubleDot ≤ depth + front.countP isName

/-
  The path does not begin with a slash, and no front of it
  has more double dots than names.
-/
def StaysInside
    (path : List UInt8) : Prop :=
  path.head? ≠ some slash ∧ NeverAbove 0 (components path)

/- A double dot that is kept stays. -/
theorem doubleDot_mem_normalizeStep
    {kept : List (List UInt8)}
    (hKept : doubleDot ∈ kept)
    (part : List UInt8) :
    doubleDot ∈ normalizeStep kept part := by
  unfold normalizeStep
  split_ifs with hUp hName
  · cases kept with
    | nil => cases hKept
    | cons last front =>
        simp only
        split_ifs with hLast
        · exact List.mem_cons_self
        · rcases List.mem_cons.mp hKept with hEq | hFront
          · exact absurd hEq.symm hLast
          · exact hFront
  · exact List.mem_cons_of_mem _ hKept
  · exact hKept

theorem doubleDot_mem_foldl
    {kept : List (List UInt8)}
    (hKept : doubleDot ∈ kept)
    (parts : List (List UInt8)) :
    doubleDot ∈ parts.foldl normalizeStep kept := by
  induction parts generalizing kept with
  | nil => exact hKept
  | cons part parts ih =>
      exact ih (doubleDot_mem_normalizeStep hKept part)

/- A statement about all fronts, at one part. -/
theorem forall_front_cons
    {P : List (List UInt8) → Prop}
    (part : List UInt8)
    (parts : List (List UInt8)) :
    (∀ front, front <+: part :: parts → P front) ↔
      P [] ∧ ∀ front, front <+: parts → P (part :: front) := by
  constructor
  · intro hAll
    refine ⟨hAll [] List.nil_prefix, ?_⟩
    intro front hFront
    exact
      hAll (part :: front)
        (List.cons_prefix_cons.mpr ⟨rfl, hFront⟩)
  · rintro ⟨hNil, hAll⟩ front hFront
    cases front with
    | nil => exact hNil
    | cons first front =>
        rcases List.cons_prefix_cons.mp hFront with
          ⟨rfl, hRest⟩
        exact hAll front hRest

theorem neverAbove_cons
    (part : List UInt8)
    (depth : Nat)
    (parts : List (List UInt8)) :
    NeverAbove depth (part :: parts) ↔
      ∀ front, front <+: parts →
        (part :: front).count doubleDot ≤
          depth + (part :: front).countP isName := by
  unfold NeverAbove
  rw [forall_front_cons]
  exact and_iff_right (Nat.zero_le _)

/- What one part does to the count of names. -/
theorem neverAbove_cons_name
    {part : List UInt8}
    (hName : isName part = true)
    (depth : Nat)
    (parts : List (List UInt8)) :
    NeverAbove depth (part :: parts) ↔
      NeverAbove (depth + 1) parts := by
  have hUp : part ≠ doubleDot := by
    intro hEq
    rw [hEq] at hName
    exact absurd hName (by decide)
  rw [neverAbove_cons]
  refine forall₂_congr fun front _ => ?_
  rw [List.count_cons_of_ne hUp,
    List.countP_cons_of_pos hName]
  omega

theorem neverAbove_cons_skip
    {part : List UInt8}
    (hUp : part ≠ doubleDot)
    (hName : isName part = false)
    (depth : Nat)
    (parts : List (List UInt8)) :
    NeverAbove depth (part :: parts) ↔
      NeverAbove depth parts := by
  have hNot : ¬ isName part = true := by simp [hName]
  rw [neverAbove_cons]
  refine forall₂_congr fun front _ => ?_
  rw [List.count_cons_of_ne hUp,
    List.countP_cons_of_neg hNot]

theorem neverAbove_cons_doubleDot
    (depth : Nat)
    (parts : List (List UInt8)) :
    NeverAbove depth (doubleDot :: parts) ↔
      0 < depth ∧ NeverAbove (depth - 1) parts := by
  have hNot : ¬ isName doubleDot = true := by decide
  rw [neverAbove_cons]
  simp only [List.count_cons_self,
    List.countP_cons_of_neg hNot]
  constructor
  · intro hAll
    have hFirst := hAll [] List.nil_prefix
    rw [List.count_nil, List.countP_nil] at hFirst
    refine ⟨by omega, ?_⟩
    intro front hFront
    have hCount := hAll front hFront
    omega
  · rintro ⟨hDepth, hAll⟩ front hFront
    have hCount := hAll front hFront
    omega

/- What one part does to those that are kept. -/
theorem normalizeStep_of_name
    {part : List UInt8}
    (hUp : part ≠ doubleDot)
    (hName : isName part = true)
    (kept : List (List UInt8)) :
    normalizeStep kept part = part :: kept := by
  unfold normalizeStep
  rw [if_neg hUp, if_pos hName]

theorem normalizeStep_of_skip
    {part : List UInt8}
    (hUp : part ≠ doubleDot)
    (hName : isName part = false)
    (kept : List (List UInt8)) :
    normalizeStep kept part = kept := by
  unfold normalizeStep
  rw [if_neg hUp, if_neg (by simp [hName])]

theorem normalizeStep_doubleDot
    {last : List UInt8}
    {kept : List (List UInt8)}
    (hKept : doubleDot ∉ last :: kept) :
    normalizeStep (last :: kept) doubleDot = kept := by
  rw [List.mem_cons, not_or] at hKept
  have hLast : last ≠ doubleDot := fun hEq => hKept.1 hEq.symm
  unfold normalizeStep
  rw [if_pos rfl]
  exact if_neg hLast

/-
  No double dot is left exactly when none has too few names
  in front of it, by induction on the parts.
-/
theorem doubleDot_not_mem_foldl_iff
    {kept : List (List UInt8)}
    (hKept : doubleDot ∉ kept)
    (parts : List (List UInt8)) :
    doubleDot ∉ parts.foldl normalizeStep kept ↔
      NeverAbove kept.length parts := by
  induction parts generalizing kept with
  | nil =>
      refine iff_of_true hKept ?_
      intro front hFront
      rw [List.prefix_nil.mp hFront]
      exact Nat.zero_le _
  | cons part parts ih =>
      rw [List.foldl_cons]
      by_cases hUp : part = doubleDot
      · subst hUp
        rw [neverAbove_cons_doubleDot]
        cases kept with
        | nil =>
            refine
              iff_of_false (not_not.mpr ?_)
                (fun hDepth => absurd hDepth.1 (by simp))
            apply doubleDot_mem_foldl
            exact List.mem_singleton.mpr rfl
        | cons last front =>
            rw [normalizeStep_doubleDot hKept,
              ih fun hMem => hKept (List.mem_cons_of_mem _ hMem)]
            simp
      · cases hName : isName part with
        | true =>
            have hNext : doubleDot ∉ part :: kept := by
              rw [List.mem_cons, not_or]
              exact ⟨fun hEq => hUp hEq.symm, hKept⟩
            rw [normalizeStep_of_name hUp hName, ih hNext,
              neverAbove_cons_name hName, List.length_cons]
        | false =>
            rw [normalizeStep_of_skip hUp hName, ih hKept,
              neverAbove_cons_skip hUp hName]

theorem doubleDot_not_mem_normalize_iff
    (parts : List (List UInt8)) :
    doubleDot ∉ normalize parts ↔ NeverAbove 0 parts := by
  unfold normalize
  rw [List.mem_reverse]
  exact doubleDot_not_mem_foldl_iff List.not_mem_nil parts

/- A path is confined when it never climbs above its start. -/
theorem confined_iff_staysInside
    (path : List UInt8) :
    Confined path ↔ StaysInside path :=
  and_congr Iff.rfl
    (doubleDot_not_mem_normalize_iff (components path))

/- The name in between is taken back, the one above is not. -/
example :
    Confined "a/../b".toUTF8.data.toList ∧
      ¬ Confined "a/../../b".toUTF8.data.toList := by
  decide +kernel

end LexicalPath

------------------------------------------------------------
-- Absolute Paths
------------------------------------------------------------

namespace LexicalPath

/- One part of an absolute path, the last kept first. -/
def resolveStep
    (kept : List (List UInt8))
    (part : List UInt8) : List (List UInt8) :=
  if part = doubleDot then
    kept.tail
  else if isName part then
    part :: kept
  else
    kept

/- The parts of the normal form of an absolute path. -/
def resolve
    (parts : List (List UInt8)) : List (List UInt8) :=
  (parts.foldl resolveStep []).reverse

/- The normal form of a path lies in a directory. -/
def Inside
    (dir path : List UInt8) : Prop :=
  resolve (components dir) <+: resolve (components path)

instance
    (dir path : List UInt8) : Decidable (Inside dir path) :=
  inferInstanceAs (Decidable (_ <+: _))

/-
  How far parts lead above the directory they start in: the
  most double dots that a front of them has more than names.
-/
def climb
    (parts : List (List UInt8)) : Nat :=
  (parts.inits.map fun front =>
    front.count doubleDot - front.countP isName).foldr max 0

/- The names that no later double dot takes back. -/
def named :
    List (List UInt8) → List (List UInt8)
| [] => []
| part :: parts =>
    if isName part ∧ climb parts = 0 then
      part :: named parts
    else
      named parts

/- A bound on the climb is a bound on every front. -/
theorem climb_le_iff
    (depth : Nat)
    (parts : List (List UInt8)) :
    climb parts ≤ depth ↔ NeverAbove depth parts := by
  have hAll :
      climb parts ≤ depth ↔
        ∀ count ∈ parts.inits.map fun front =>
          front.count doubleDot - front.countP isName,
            count ≤ depth :=
    ⟨fun h _ hMem =>
        (List.le_max_of_le hMem (Nat.le_refl _)).trans h,
      List.max_le_of_forall_le _ depth⟩
  rw [hAll, List.forall_mem_map]
  refine forall_congr' fun front => ?_
  rw [List.mem_inits, Nat.sub_le_iff_le_add]

/- What one part does to the climb. -/
theorem climb_doubleDot
    (parts : List (List UInt8)) :
    climb (doubleDot :: parts) = climb parts + 1 := by
  refine eq_of_forall_ge_iff fun depth => ?_
  rw [climb_le_iff, neverAbove_cons_doubleDot,
    ← climb_le_iff]
  omega

theorem climb_name
    {part : List UInt8}
    (hName : isName part = true)
    (parts : List (List UInt8)) :
    climb (part :: parts) = climb parts - 1 := by
  refine eq_of_forall_ge_iff fun depth => ?_
  rw [climb_le_iff, neverAbove_cons_name hName,
    ← climb_le_iff, Nat.sub_le_iff_le_add]

theorem climb_skip
    {part : List UInt8}
    (hUp : part ≠ doubleDot)
    (hName : isName part = false)
    (parts : List (List UInt8)) :
    climb (part :: parts) = climb parts := by
  refine eq_of_forall_ge_iff fun depth => ?_
  rw [climb_le_iff, neverAbove_cons_skip hUp hName,
    ← climb_le_iff]

/- A double dot takes back what was kept last. -/
theorem foldl_resolveStep_doubleDot
    {parts : List (List UInt8)}
    (ih :
      ∀ kept,
        parts.foldl resolveStep kept =
          (named parts).reverse ++ kept.drop (climb parts))
    (kept : List (List UInt8)) :
    (doubleDot :: parts).foldl resolveStep kept =
      (named (doubleDot :: parts)).reverse ++
        kept.drop (climb (doubleDot :: parts)) := by
  have hNamed : named (doubleDot :: parts) = named parts :=
    if_neg fun h => absurd h.1 (by decide)
  rw [hNamed, climb_doubleDot, ← List.drop_tail]
  exact ih kept.tail

/- A name stays where nothing behind it climbs. -/
theorem foldl_resolveStep_name
    {part : List UInt8}
    {parts : List (List UInt8)}
    (hName : isName part = true)
    (ih :
      ∀ kept,
        parts.foldl resolveStep kept =
          (named parts).reverse ++ kept.drop (climb parts))
    (kept : List (List UInt8)) :
    (part :: parts).foldl resolveStep kept =
      (named (part :: parts)).reverse ++
        kept.drop (climb (part :: parts)) := by
  have hUp : part ≠ doubleDot := by
    intro hEq
    rw [hEq] at hName
    exact absurd hName (by decide)
  have hStep : resolveStep kept part = part :: kept := by
    unfold resolveStep
    rw [if_neg hUp, if_pos hName]
  rw [List.foldl_cons, hStep, ih, climb_name hName]
  cases hLater : climb parts with
  | zero =>
      have hNamed :
          named (part :: parts) = part :: named parts :=
        if_pos ⟨hName, hLater⟩
      rw [hNamed]
      simp
  | succ n =>
      have hNamed : named (part :: parts) = named parts :=
        if_neg fun h => by omega
      rw [hNamed]
      simp

/-
  What is left of the parts kept before, and what the parts
  add to it, by induction on the parts.
-/
theorem foldl_resolveStep
    (kept parts : List (List UInt8)) :
    parts.foldl resolveStep kept =
      (named parts).reverse ++ kept.drop (climb parts) := by
  induction parts generalizing kept with
  | nil => rfl
  | cons part parts ih =>
      by_cases hUp : part = doubleDot
      · subst hUp
        exact foldl_resolveStep_doubleDot ih kept
      by_cases hName : isName part = true
      · exact foldl_resolveStep_name hName ih kept
      · have hStep : resolveStep kept part = kept := by
          unfold resolveStep
          rw [if_neg hUp, if_neg hName]
        have hNamed : named (part :: parts) = named parts :=
          if_neg fun h => hName h.1
        have hSkip : isName part = false := by
          simpa using hName
        rw [List.foldl_cons, hStep, hNamed,
          climb_skip hUp hSkip]
        exact ih kept

/- Parts behind others, by how far they climb. -/
theorem resolve_append
    (front back : List (List UInt8)) :
    resolve (front ++ back) =
      (resolve front).take
          ((resolve front).length - climb back) ++
        named back := by
  unfold resolve
  rw [List.foldl_append, foldl_resolveStep,
    List.reverse_append, List.reverse_reverse,
    List.reverse_drop, List.length_reverse]

/- A slash ends a part. -/
theorem components_append_slash
    (front rest : List UInt8) :
    components (front ++ slash :: rest) =
      components front ++ components rest := by
  unfold components List.splitOn
  exact
    List.splitOnP_append_cons front rest (beq_self_eq_true _)

/-
  A path behind a directory lies in it when the directories
  that it climbs out of are the first that it names again.
-/
theorem inside_append_iff
    (dir rest : List UInt8) :
    Inside dir (dir ++ slash :: rest) ↔
      (resolve (components dir)).drop
          ((resolve (components dir)).length -
            climb (components rest)) <+:
        named (components rest) := by
  unfold Inside
  rw [components_append_slash, resolve_append]
  generalize resolve (components dir) = root
  generalize root.length - climb (components rest) = n
  conv_lhs =>
    arg 1
    rw [← List.take_append_drop n root]
  exact List.prefix_append_right_inj _

/- Up and down again, and up only. -/
example :
    Inside "/a/b".toUTF8.data.toList
        "/a/b/../../../a/b/c".toUTF8.data.toList ∧
      ¬ Inside "/a/b".toUTF8.data.toList
        "/a/b/../c".toUTF8.data.toList := by
  decide +kernel

end LexicalPath
