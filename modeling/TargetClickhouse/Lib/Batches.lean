import Mathlib.Tactic

/-!
# Batches

Items are collected into a batch, which is drained from time to time.  `current` and `drained` read
off a sequence of events the batch collected so far and the batches drained, and
`dropLast_of_mem_drained` says of the drained batches what held of the current batch whenever an
item was added.
-/

namespace Batches

inductive Event (α : Type) where
  | add (a : α)
  | drain
  /-- The batch is looked at. -/
  | read

variable {α : Type}

/-- The items added since the last drain, after the items of `b`. -/
def current (b : List α) : List (Event α) → List α
  | [] => b
  | .add a :: es => current (b ++ [a]) es
  | .drain :: es => current [] es
  | .read :: es => current b es

/-- The drained batches; the first one starts with the items of `b`. -/
def drained (b : List α) : List (Event α) → List (List α)
  | [] => []
  | .add a :: es => drained (b ++ [a]) es
  | .drain :: es => b :: drained [] es
  | .read :: es => drained b es

/-- The items that are added. -/
def added : List (Event α) → List α
  | [] => []
  | .add a :: es => a :: added es
  | .drain :: es => added es
  | .read :: es => added es

/-- An item is added only to a batch with the property. -/
def AddsTo (P : List α → Prop) (b : List α) : List (Event α) → Prop
  | [] => True
  | .add a :: es => P b ∧ AddsTo P (b ++ [a]) es
  | .drain :: es => AddsTo P [] es
  | .read :: es => AddsTo P b es

/-- A drained batch without its last item has the property of the batches added to. -/
theorem dropLast_of_mem_drained {P : List α → Prop} {b d : List α} {es : List (Event α)}
    (h : AddsTo P b es) (hb : b ≠ [] → P b.dropLast) (hd : d ∈ drained b es) (hne : d ≠ []) :
    P d.dropLast := by
  induction es generalizing b with
  | nil => cases hd
  | cons e es ih =>
    cases e with
    | add a =>
      refine ih h.2 (fun _ => ?_) hd
      rw [List.dropLast_concat]
      exact h.1
    | drain =>
      rcases List.mem_cons.1 hd with rfl | hd
      · exact hb hne
      · exact ih h (fun hnil => absurd rfl hnil) hd
    | read => exact ih h hb hd

end Batches
