import Stencil.Value.Order

/-!
# Sorting values

A stable sort that puts each item into the sorted ones before it, comparing it with the greatest
first, and stops at the first two items without an order. One that notes their fault and goes on as
if they were equal makes the same comparisons up to there, and in the end only the fault is left of
it.
-/

namespace Stencil.Value

/-- Puts an item into sorted items, which are given from the greatest down, behind its equals. -/
def insertItem (item : Value) : List Value → Except EvalError (List Value)
  | [] => .ok [item]
  | top :: rest =>
    match item.order top with
    | .ok .lt => (insertItem item rest).map (top :: ·)
    | .ok _ => .ok (item :: top :: rest)
    | .error e => .error e

/-- Items in ascending order. -/
def sortItems (items : List Value) : Except EvalError (List Value) :=
  (items.foldlM (fun done item => insertItem item done) []).map List.reverse

/-- The first item that no later one beats in the wanted direction. -/
def extreme (wanted : Ordering) (best : Value) : List Value → Except EvalError Value
  | [] => .ok best
  | item :: rest =>
    match item.order best with
    | .ok o => extreme wanted (if o = wanted then item else best) rest
    | .error e => .error e

end Stencil.Value
