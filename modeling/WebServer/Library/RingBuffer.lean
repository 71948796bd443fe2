import Mathlib.Data.List.Basic
import Mathlib.Logic.Function.Basic
import Mathlib.Tactic.Common

/-
  Circular arrays read as queues.

  The cells of an array of `cap` places are a function. A
  queue of `len` items starts at some place and goes round
  the array; its items are read in that order.

  Key definitions include:
    * `ringItems`

  Key theorems include:
    * `ringItems_push`
    * `ringItems_pop`
    * `ringItems_getLast`
-/

------------------------------------------------------------
-- Circular Places
------------------------------------------------------------

/- Two places less than a round apart are different. -/
theorem ring_place_ne
    {start i j cap : Nat}
    (hLt : i < j)
    (hCap : j < cap) :
    (start + i) % cap ≠ (start + j) % cap := by
  intro hEq
  have hDvd : cap ∣ (start + j) - (start + i) :=
    Nat.dvd_of_mod_eq_zero
      (Nat.sub_mod_eq_zero_of_mod_eq hEq.symm)
  have hZero : (start + j) - (start + i) = 0 :=
    Nat.eq_zero_of_dvd_of_lt hDvd (by omega)
  omega

------------------------------------------------------------
-- Items Of A Ring
------------------------------------------------------------

variable {α : Type}

/- The items of a queue in a circular array, oldest first. -/
def ringItems
    (cells : Nat → α)
    (cap start len : Nat) : List α :=
  (List.range len).map fun i => cells ((start + i) % cap)

@[simp] theorem ringItems_zero
    (cells : Nat → α)
    (cap start : Nat) :
    ringItems cells cap start 0 = [] := rfl

@[simp] theorem length_ringItems
    (cells : Nat → α)
    (cap start len : Nat) :
    (ringItems cells cap start len).length = len := by
  unfold ringItems
  rw [List.length_map, List.length_range]

theorem ringItems_succ
    (cells : Nat → α)
    (cap start len : Nat) :
    ringItems cells cap start (len + 1) =
      ringItems cells cap start len ++
        [cells ((start + len) % cap)] := by
  unfold ringItems
  rw [List.range_succ, List.map_append]
  rfl

/- Writing the place behind the last item appends an item. -/
theorem ringItems_push
    {cells : Nat → α}
    {cap start len : Nat}
    (hRoom : len < cap)
    (x : α) :
    ringItems
        (Function.update cells ((start + len) % cap) x)
        cap start (len + 1) =
      ringItems cells cap start len ++ [x] := by
  have hOld :
      ringItems
          (Function.update cells ((start + len) % cap) x)
          cap start len =
        ringItems cells cap start len := by
    apply List.map_congr_left
    intro i hi
    have hLt := List.mem_range.mp hi
    exact
      Function.update_of_ne (ring_place_ne hLt hRoom) _ _
  rw [ringItems_succ, hOld, Function.update_self]

/- The first item, and the items from the next place on. -/
theorem ringItems_pop
    (cells : Nat → α)
    (cap start len : Nat) :
    ringItems cells cap start (len + 1) =
      cells (start % cap) ::
        ringItems cells cap (start + 1) len := by
  unfold ringItems
  rw [List.range_succ_eq_map, List.map_cons, List.map_map]
  congr 1
  apply List.map_congr_left
  intro i _
  simp only [Function.comp_apply]
  rw [show start + (i + 1) = start + 1 + i by omega]

/- Only the place of the start matters. -/
theorem ringItems_mod
    (cells : Nat → α)
    (cap start len : Nat) :
    ringItems cells cap (start % cap) len =
      ringItems cells cap start len := by
  unfold ringItems
  apply List.map_congr_left
  intro i _
  rw [Nat.mod_add_mod]

/- The newest item. -/
theorem ringItems_getLast
    (cells : Nat → α)
    (cap start len : Nat) :
    (ringItems cells cap start (len + 1)).getLast? =
      some (cells ((start + len) % cap)) := by
  rw [ringItems_succ]
  exact List.getLast?_concat
