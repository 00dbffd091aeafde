import Mathlib.Data.List.Nodup
import Mathlib.Data.List.Perm.Subperm
import Mathlib.Data.Nat.ModEq
import ProblemBoard.Proofs.Refresh.Cursor
import ProblemBoard.Proofs.Refresh.Transitions

/-!
# Walks of the cursor

Steps of the cursor go round the list.  A step forward goes on by one place, and a step back by
all places but one, so both are the same walk with another stride: after `k` steps from `i` the
cursor is at `i + k * stride` modulo the length.  The stride has no divisor in common with the
length, so a walk as long as the list visits each place once and ends where it began.

No number on the way is larger than the length of the list: `checkedTarget` computes the steps with
sums and differences that may fail, and they never do.
-/

namespace ProblemBoard

namespace Cursor

/-! ## Steps -/

/-- A way to step through the list. -/
inductive Direction where
  | forward
  | back
  deriving DecidableEq, Repr

namespace Direction

/-- A step in a direction. -/
def step : Direction → Move
  | forward => .next
  | back => .previous

def opposite : Direction → Direction
  | forward => back
  | back => forward

/-- How many places a step goes on in a list of a given length. -/
def stride (n : Nat) : Direction → Nat
  | forward => 1
  | back => n - 1

/-- Where a walk begins in a list of a given length. -/
def first (n : Nat) : Direction → Nat
  | forward => 0
  | back => n - 1

/-- Where some steps from a place lead in a list of a given length. -/
def place (n : Nat) (d : Direction) (i k : Nat) : Nat := (i + k * d.stride n) % n

variable {n i : Nat} (d : Direction)

theorem stride_coprime (h : 0 < n) : Nat.Coprime (d.stride n) n := by
  cases d with
  | forward => exact Nat.coprime_one_left n
  | back => exact (Nat.coprime_self_sub_left h).2 (Nat.coprime_one_left n)

theorem stride_add_opposite (h : 0 < n) : d.stride n + d.opposite.stride n = n := by
  cases d with
  | forward => exact Nat.add_sub_cancel' h
  | back => exact Nat.sub_add_cancel h

theorem first_lt (h : 0 < n) : d.first n < n := by
  cases d with
  | forward => exact h
  | back => exact Nat.sub_lt h Nat.one_pos

theorem place_lt (h : 0 < n) (i k : Nat) : d.place n i k < n := Nat.mod_lt _ h

theorem place_zero (h : i < n) : d.place n i 0 = i := by
  rw [place, Nat.zero_mul, Nat.add_zero, Nat.mod_eq_of_lt h]

/-- A step and then some more are that many steps and one. -/
theorem place_place_one (k : Nat) : d.place n (d.place n i 1) k = d.place n i (k + 1) := by
  rw [place, place, place, Nat.mod_add_mod, Nat.one_mul, Nat.succ_mul, Nat.add_assoc,
    Nat.add_comm (d.stride n)]

/-- As many steps as the list is long lead back. -/
theorem place_length (h : i < n) : d.place n i n = i := by
  rw [place, Nat.add_mul_mod_self_left, Nat.mod_eq_of_lt h]

theorem place_opposite (h : i < n) : d.opposite.place n (d.place n i 1) 1 = i := by
  rw [place, place, Nat.mod_add_mod, Nat.one_mul, Nat.one_mul, Nat.add_assoc,
    d.stride_add_opposite (Nat.zero_lt_of_lt h), Nat.add_mod_right, Nat.mod_eq_of_lt h]

/-- Steps over the whole list lead to each place once: since the stride has no divisor in common
with the length, no two of them lead to the same place. -/
theorem place_perm (h : 0 < n) (i : Nat) :
    ((List.range n).map (d.place n i)).Perm (List.range n) := by
  have hinj : ∀ j ∈ List.range n, ∀ k ∈ List.range n, d.place n i j = d.place n i k → j = k := by
    intro j hj k hk hjk
    have hmul : j * d.stride n ≡ k * d.stride n [MOD n] := Nat.ModEq.add_left_cancel' i hjk
    have hmod : j ≡ k [MOD n] :=
      Nat.ModEq.cancel_right_of_coprime (Nat.coprime_comm.1 (d.stride_coprime h)) hmul
    exact hmod.eq_of_lt_of_lt (List.mem_range.1 hj) (List.mem_range.1 hk)
  have hnodup := List.Nodup.map_on hinj List.nodup_range
  have hsub : (List.range n).map (d.place n i) ⊆ List.range n := by
    intro k hk
    obtain ⟨j, -, rfl⟩ := List.mem_map.1 hk
    exact List.mem_range.2 (d.place_lt h i j)
  exact (List.subperm_of_subset hnodup hsub).perm_of_length_le (by rw [List.length_map])

end Direction

variable {n i : Nat} (d : Direction)

theorem target_step (h : i < n) : target ⟨some i, n⟩ d.step = some (d.place n i 1) := by
  have hn : n ≠ 0 := Nat.ne_of_gt (Nat.zero_lt_of_lt h)
  rw [Direction.place, Nat.one_mul]
  cases d with
  | forward => exact if_neg hn
  | back =>
    refine (if_neg hn).trans (congrArg some ?_)
    show behind ⟨some i, n⟩ = (i + (n - 1)) % n
    cases i with
    | zero => rw [Nat.zero_add, Nat.mod_eq_of_lt (Nat.sub_lt h Nat.one_pos)]; rfl
    | succ j =>
      have hback : j + 1 + (n - 1) = j + n := by omega
      rw [hback, Nat.add_mod_right, Nat.mod_eq_of_lt (Nat.lt_of_succ_lt h)]
      rfl

theorem target_first (h : 0 < n) : target ⟨none, n⟩ d.step = some (d.first n) := by
  cases d with
  | forward | back => exact if_neg (Nat.ne_of_gt h)

/-! ## Walks -/

/-- The cursor after some moves, and where each of them led. -/
def walk (c : Cursor) : List Move → Cursor × List (Option Nat)
  | [] => (c, [])
  | m :: ms => (((c.move m).walk ms).1, c.target m :: ((c.move m).walk ms).2)

/-- Steps from a place. -/
theorem walk_steps (h : i < n) (k : Nat) :
    walk ⟨some i, n⟩ (List.replicate k d.step) =
      (⟨some (d.place n i k), n⟩, (List.range k).map fun j => some (d.place n i (j + 1))) := by
  induction k generalizing i with
  | zero =>
    rw [d.place_zero h]
    rfl
  | succ k ih =>
    have ht := target_step d h
    have hrest := ih (d.place_lt (Nat.zero_lt_of_lt h) i 1)
    rw [List.replicate_succ, walk, move_of_target ht, hrest, ht, List.range_succ_eq_map,
      List.map_cons, List.map_map]
    simp only [Direction.place_place_one]
    rfl

/-- Steps from nowhere begin at the first place. -/
theorem walk_from_nowhere (h : 0 < n) (k : Nat) :
    (walk ⟨none, n⟩ (List.replicate (k + 1) d.step)).2 =
      (List.range (k + 1)).map fun j => some (d.place n (d.first n) j) := by
  have ht := target_first d h
  have hfirst := d.first_lt h
  rw [List.replicate_succ, walk, move_of_target ht, walk_steps d hfirst, ht,
    List.range_succ_eq_map, List.map_cons, List.map_map, d.place_zero hfirst]
  rfl

/-- A walk as long as the list leads to each place once. -/
theorem walk_round_perm {c : Cursor} (hc : c.InBounds) (h : 0 < c.length) :
    (c.walk (List.replicate c.length d.step)).2.Perm ((List.range c.length).map some) := by
  obtain ⟨index, n⟩ := c
  cases index with
  | some i =>
    have hi : i < n := hc i rfl
    have hperm := (d.place_perm h (d.place n i 1)).map some
    simp only [List.map_map, Direction.place_place_one, Function.comp_def] at hperm
    rw [walk_steps d hi]
    simpa only [List.map_map, Direction.place_place_one, Function.comp_def] using hperm
  | none =>
    obtain ⟨k, rfl⟩ := Nat.exists_eq_add_one_of_ne_zero (Nat.ne_of_gt h)
    rw [walk_from_nowhere d h]
    simpa only [List.map_map, Function.comp_def] using (d.place_perm h (d.first (k + 1))).map some

/-- It ends at the place where it began. -/
theorem walk_round {c : Cursor} (hc : c.InBounds) (hi : c.index.isSome = true) :
    (c.walk (List.replicate c.length d.step)).1 = c := by
  obtain ⟨index, n⟩ := c
  obtain ⟨i, rfl⟩ := Option.isSome_iff_exists.1 hi
  have hlt : i < n := hc i rfl
  rw [walk_steps d hlt, d.place_length hlt]

/-- A step back and forth, or forth and back, leads nowhere else. -/
theorem walk_opposite {c : Cursor} (hc : c.InBounds) (hi : c.index.isSome = true) :
    (c.walk [d.step, d.opposite.step]).1 = c := by
  obtain ⟨index, n⟩ := c
  obtain ⟨i, rfl⟩ := Option.isSome_iff_exists.1 hi
  have hlt : i < n := hc i rfl
  have hback := target_step d.opposite (d.place_lt (Nat.zero_lt_of_lt hlt) i 1)
  simp only [walk]
  rw [move_of_target (target_step d hlt), move_of_target hback, d.place_opposite hlt]

/-! ## Steps in bounded numbers -/

/-- A sum, if no number above the limit is needed. -/
def checkedAdd (limit a b : Nat) : Option Nat := if a + b ≤ limit then some (a + b) else none

/-- A difference, if no number below zero is needed. -/
def checkedSub (a b : Nat) : Option Nat := if b ≤ a then some (a - b) else none

/-- Where a move leads, `none` when a number on the way cannot be held. -/
def checkedTarget (limit : Nat) (c : Cursor) : Move → Option (Option Nat)
  | .next =>
      if c.length = 0 then some none
      else
        match c.index with
        | some i => (checkedAdd limit i 1).map fun j => some (j % c.length)
        | none => some (some 0)
  | .previous =>
      if c.length = 0 then some none
      else
        match c.index with
        | some (i + 1) => (checkedSub (i + 1) 1).map some
        | _ => (checkedSub c.length 1).map some
  | .goTo i => some (if i < c.length then some i else none)

/-- When the length of the list can be held, so can every number on the way. -/
theorem checkedTarget_eq {c : Cursor} (hc : c.InBounds) {limit : Nat} (h : c.length ≤ limit)
    (m : Move) : c.checkedTarget limit m = some (c.target m) := by
  obtain ⟨index, n⟩ := c
  cases m with
  | goTo j => rfl
  | next =>
    unfold checkedTarget target
    dsimp only
    split
    · rfl
    · cases index with
      | none => rfl
      | some i =>
        have hsum : i + 1 ≤ limit := Nat.le_trans (hc i rfl) h
        show Option.map _ (checkedAdd limit i 1) = _
        rw [checkedAdd, if_pos hsum]
        rfl
  | previous =>
    unfold checkedTarget target
    dsimp only
    split
    · rfl
    · next hn =>
      have hone : checkedSub n 1 = some (n - 1) := if_pos (Nat.pos_of_ne_zero hn)
      cases index with
      | none => exact congrArg (Option.map some) hone
      | some i =>
        cases i with
        | zero => exact congrArg (Option.map some) hone
        | succ i => exact congrArg (Option.map some) (if_pos (Nat.le_add_left 1 i))

end Cursor

namespace Refresh

open Cursor (Direction)

/-! ## Operations of the machine -/

/-- What can be done to a machine. -/
inductive Operation where
  | told (x : Signal)
  | setTimings (t : Timings)
  | resize (n : Nat)
  | resetCursor (n : Nat)
  | navigate (move : Cursor.Move)

namespace Machine

def perform (m : Machine) : Operation → Machine
  | .told x => (m.receive x).1
  | .setTimings t => m.setTimings t
  | .resize n => m.resize n
  | .resetCursor n => m.resetCursor n
  | .navigate move => (m.navigate move).1

/-- The machine after some moves, and where each of them led. -/
def walk (m : Machine) : List Cursor.Move → Machine × List (Option Nat)
  | [] => (m, [])
  | move :: moves =>
      let (m, i) := m.navigate move
      let (m, is) := m.walk moves
      (m, i :: is)

/-- A walk of the machine is one of its cursor. -/
theorem walk_eq (m : Machine) (moves : List Cursor.Move) :
    m.walk moves = ({ m with cursor := (m.cursor.walk moves).1 }, (m.cursor.walk moves).2) := by
  induction moves generalizing m with
  | nil => rfl
  | cons move moves ih =>
    rw [walk]
    dsimp only [navigate]
    rw [ih]
    rfl

theorem inBounds_perform {m : Machine} (h : m.cursor.InBounds) (o : Operation) :
    (m.perform o).cursor.InBounds := by
  cases o with
  | told x =>
    rcases (m.receive_turn x).cursor with ⟨-, hc⟩ | ⟨-, hc, -⟩
    · rw [perform, hc]
      exact Cursor.inBounds_start
    · rw [perform, hc]
      exact h
  | setTimings t => exact h
  | resize n => exact Cursor.inBounds_resize m.cursor n
  | resetCursor n => exact Cursor.inBounds_reset n
  | navigate move => exact Cursor.inBounds_move h move

theorem inBounds_run {m : Machine} (h : m.cursor.InBounds) (os : List Operation) :
    (os.foldl perform m).cursor.InBounds := by
  induction os generalizing m with
  | nil => exact h
  | cons o os ih => exact ih (inBounds_perform h o)

end Machine

/-- After any operations the cursor is in the list or nowhere, and a list of another length leaves
it where it is just if that is in the new list.  Every move can be computed with numbers up to the
length of the list.  As many steps as the list is long, in either direction, lead to each place
once; from a place they lead back to it, and so does a step and one in the other direction.  From
nowhere the first step leads to the first place, or back to the last one. -/
theorem navigation_cyclic (t : Timings) {os : List Operation} {m : Machine}
    (hm : os.foldl Machine.perform (.start t) = m) :
    (∀ i, m.cursor.index = some i → i < m.cursor.length) ∧
      (∀ n, (m.resize n).cursor.length = n ∧
        ∀ i, (m.resize n).cursor.index = some i ↔ m.cursor.index = some i ∧ i < n) ∧
      (∀ limit, m.cursor.length ≤ limit → ∀ move,
        m.cursor.checkedTarget limit move = some (m.cursor.target move)) ∧
      (0 < m.cursor.length →
        (∀ d : Direction, (m.walk (List.replicate m.cursor.length d.step)).2.Perm
          ((List.range m.cursor.length).map some)) ∧
        (m.cursor.index.isSome = true → ∀ d : Direction,
          (m.walk (List.replicate m.cursor.length d.step)).1 = m ∧
            (m.walk [d.step, d.opposite.step]).1 = m) ∧
        (m.cursor.index = none →
          (m.navigate .next).2 = some 0 ∧
            (m.navigate .previous).2 = some (m.cursor.length - 1))) := by
  have hc : m.cursor.InBounds := hm ▸ Machine.inBounds_run Cursor.inBounds_start os
  refine ⟨hc, fun n => ⟨rfl, fun i => ?_⟩, fun limit h => Cursor.checkedTarget_eq hc h,
    fun hn => ⟨fun d => ?_, fun hi d => ⟨?_, ?_⟩, fun hi => ?_⟩⟩
  · exact Option.filter_eq_some_iff.trans (and_congr_right fun _ => decide_eq_true_iff)
  · rw [Machine.walk_eq]
    exact Cursor.walk_round_perm d hc hn
  · rw [Machine.walk_eq, Cursor.walk_round d hc hi]
  · rw [Machine.walk_eq, Cursor.walk_opposite d hc hi]
  · have hcursor : m.cursor = ⟨none, m.cursor.length⟩ := by rw [← hi]
    have hfirst : ∀ d : Direction,
        (m.navigate d.step).2 = some (d.first m.cursor.length) := by
      intro d
      show m.cursor.target d.step = _
      rw [hcursor]
      exact Cursor.target_first d hn
    exact ⟨hfirst .forward, hfirst .back⟩

/-- In a list of three problems a step back leads to the last one.  Three steps forward from there
lead to all of them and back, while a request waits. -/
theorem navigation_cyclic_three :
    ∃ m, [.resize 3, .navigate .previous, .told .refresh].foldl Machine.perform
        (.start Settings.default.refresh) = m ∧
      m.phase = .debouncing ∧ m.cursor = ⟨some 2, 3⟩ ∧
      (m.walk [.next, .next, .next]).2.Perm [some 0, some 1, some 2] ∧
      (m.walk [.next, .next, .next]).1 = m ∧ (m.walk [.previous, .next]).1 = m ∧
      m.cursor.checkedTarget 3 .next = some (some 0) := by
  have hm : [.resize 3, .navigate .previous, .told .refresh].foldl Machine.perform
      (.start Settings.default.refresh) = _ := rfl
  refine ⟨_, hm, rfl, rfl, ?_⟩
  obtain ⟨-, -, hchecked, hround⟩ := navigation_cyclic Settings.default.refresh hm
  obtain ⟨hperm, hback, -⟩ := hround (by decide)
  exact ⟨hperm .forward, (hback rfl .forward).1, (hback rfl .back).2,
    hchecked 3 (Nat.le_refl 3) .next⟩

end Refresh

end ProblemBoard
