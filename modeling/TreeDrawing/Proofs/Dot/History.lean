import Mathlib.Data.List.Infix
import TreeDrawing.Proofs.Dot.Walk

/-!
# Calls in any order

A drawing may be driven by hand: nodes are entered and left in any order, and a leave with nothing
open fails and is ignored. A `History` is such a sequence of calls. What it leads to is described
here from the sequence alone, without any stack:

* an enter *stays open* if from it on, up to every later moment, there are more enters than leaves;
* `History.unclosed` numbers the enters that stay open;
* `History.visits` lists all enters, each with its number and the last enter still open before it.

The bridge to the stack of a drawing is `History.excess`, the number of leaves that find nothing
open. A history that is run on a drawing with open nodes closes so many of them, and puts its own
unclosed enters on top.
-/

namespace TreeDrawing.Dot

open Log

/-- Calls on a drawing, in order. -/
abbrev History := List Event

namespace History

/-- Whether a call enters a node. -/
def isEnter : Event → Bool
  | .enter _ => true
  | .leave => false

/-- How many calls enter a node. -/
def enters (h : History) : Nat := h.countP isEnter

/-- How many calls are to leave a node. -/
def leaves (h : History) : Nat := h.count .leave

/-- Whether the enter a history begins with is never closed: up to every later moment there are
more enters than leaves. -/
def staysOpen (h : History) : Bool := h.inits.tail.all fun p ↦ leaves p < enters p

/-- The numbers of the enters that stay open, oldest first; the first enter has the number `n`. -/
def unclosed (n : Nat) : History → List Nat
  | [] => []
  | .enter a :: h =>
    if staysOpen (.enter a :: h) then n :: unclosed (n + 1) h else unclosed (n + 1) h
  | .leave :: h => unclosed n h

/-- The enters of a history that follows `past`, each with its number and with the last enter that
is still open by then. -/
def visits (past : History) : History → List Visit
  | [] => []
  | .enter a :: h =>
    ⟨(unclosed 0 past).getLast?, enters past, a⟩ :: visits (past ++ [.enter a]) h
  | .leave :: h => visits (past ++ [.leave]) h

/-- How many leaves of a history find nothing open. -/
def excess : History → Nat
  | [] => 0
  | .enter _ :: h => excess h - 1
  | .leave :: h => excess h + 1

/-! ## Counting -/

section

variable (a : Node) (h : History)

@[simp] theorem enters_nil : enters [] = 0 := rfl

@[simp] theorem enters_enter : enters (.enter a :: h) = enters h + 1 := by
  rw [enters, List.countP_cons_of_pos rfl, enters]

@[simp] theorem enters_leave : enters (.leave :: h) = enters h := by
  simp [enters, isEnter]

@[simp] theorem leaves_nil : leaves [] = 0 := rfl

@[simp] theorem leaves_enter : leaves (.enter a :: h) = leaves h := by
  simp [leaves]

@[simp] theorem leaves_leave : leaves (.leave :: h) = leaves h + 1 := by
  simp [leaves]

end

/-- What holds of every beginning of a list, by its first item. -/
theorem forall_prefix_cons {α : Type} {P : List α → Prop} {a : α} {l : List α} :
    (∀ p, p <+: a :: l → P p) ↔ P [] ∧ ∀ q, q <+: l → P (a :: q) := by
  constructor
  · intro h
    exact ⟨h [] List.nil_prefix, fun q hq ↦ h (a :: q) (List.prefix_cons_iff.2 (.inr ⟨q, rfl, hq⟩))⟩
  · rintro ⟨hnil, hcons⟩ p hp
    rcases List.prefix_cons_iff.1 hp with rfl | ⟨q, rfl, hq⟩
    · exact hnil
    · exact hcons q hq

theorem staysOpen_iff {h : History} :
    staysOpen h = true ↔ ∀ p, p <+: h → p ≠ [] → leaves p < enters p := by
  cases h with
  | nil => simp [staysOpen]
  | cons e h =>
    rw [staysOpen, List.inits_cons, List.tail_cons, forall_prefix_cons]
    simp [List.mem_inits]

/-- The excess is the most by which the leaves run ahead of the enters. -/
theorem excess_le_iff {h : History} {k : Nat} :
    excess h ≤ k ↔ ∀ p, p <+: h → leaves p ≤ enters p + k := by
  induction h generalizing k with
  | nil => simp [excess]
  | cons e h ih =>
    rw [forall_prefix_cons]
    cases e with
    | enter a =>
      rw [excess, Nat.sub_le_iff_le_add, ih]
      simp only [leaves_nil, Nat.zero_le, leaves_enter, enters_enter, true_and, Nat.add_assoc,
        Nat.add_comm 1 k]
    | leave =>
      cases k with
      | zero =>
        -- the leave that comes first finds nothing open
        refine iff_of_false (by simp [excess]) fun hp ↦ ?_
        have := hp.2 [] List.nil_prefix
        simp at this
      | succ k =>
        rw [excess, Nat.succ_le_succ_iff, ih]
        simp only [leaves_nil, Nat.zero_le, leaves_leave, enters_leave, true_and, ← Nat.add_assoc,
          Nat.succ_le_succ_iff]

/-- An enter stays open if every leave behind it finds another enter to close. -/
theorem staysOpen_enter_iff {a : Node} {h : History} :
    staysOpen (.enter a :: h) = true ↔ excess h = 0 := by
  rw [staysOpen_iff, forall_prefix_cons, ← Nat.le_zero, excess_le_iff]
  simp only [ne_eq, not_true_eq_false, false_implies, true_and, reduceCtorEq, not_false_eq_true,
    true_implies, leaves_enter, enters_enter, Nat.lt_succ_iff, Nat.add_zero]

/-- The unclosed enters are numbered by the enters of the history. -/
theorem mem_unclosed {n id : Nat} {h : History} (hid : id ∈ unclosed n h) :
    n ≤ id ∧ id < n + enters h := by
  induction h generalizing n with
  | nil => simp [unclosed] at hid
  | cons e h ih =>
    cases e with
    | enter a =>
      rw [enters_enter]
      have hmem : id = n ∨ id ∈ unclosed (n + 1) h := by
        rw [unclosed] at hid
        split at hid
        · exact List.mem_cons.1 hid
        · exact .inr hid
      rcases hmem with rfl | hid
      · omega
      · have := ih hid
        omega
    | leave =>
      rw [enters_leave]
      exact ih hid

theorem pairwise_unclosed (n : Nat) (h : History) : (unclosed n h).Pairwise (· < ·) := by
  induction h generalizing n with
  | nil => exact .nil
  | cons e h ih =>
    cases e with
    | enter a =>
      rw [unclosed]
      split
      · exact List.pairwise_cons.2 ⟨fun id hid ↦ (mem_unclosed hid).1, ih (n + 1)⟩
      · exact ih (n + 1)
    | leave => exact ih n

/-- The second enter is left again, the others are not. -/
example : unclosed 0 [.enter {}, .enter {}, .leave, .enter {}] = [0, 2] := by decide

end History

end TreeDrawing.Dot
