-- The order of decisions: variables in a heap, those that conflicts involved
-- most and last first.

namespace Variability.Sat

/-- Variables, and how active each has been. A variable with the place `i + 1`
stands at `heap[i]`, below none that is less active; one with the place zero
is not in the heap. All variables without values are. -/
structure Order where
  heap : Array Nat
  places : Array Nat
  activities : FloatArray
  step : Float

namespace Order

def activity (o : Order) (v : Nat) : Float :=
  if h : v < o.activities.size then o.activities[v] else 0.0

def at? (o : Order) (i : Nat) : Nat := o.heap.getD i 0

/-- The variables up to `n`, none of them active. -/
def start (n : Nat) : Order where
  heap := ((List.range n).map (· + 1)).toArray
  places := (List.range (n + 1)).toArray
  activities := ⟨(List.replicate (n + 1) 0.0).toArray⟩
  step := 1.0

/-- Puts a variable at an index of the heap. -/
@[noinline] def put (i v : Nat) (o : Order) : Order :=
  { o with heap := o.heap.setIfInBounds i v, places := o.places.setIfInBounds v (i + 1) }

/-- Moves up the variable `v`, for which the index `i` is free. -/
def moveUp (v : Nat) : Nat → Nat → Order → Order
  | 0, i, o => o.put i v
  | fuel + 1, i, o =>
    if i = 0 then o.put i v
    else
      let above := (i - 1) / 2
      let w := o.at? above
      if o.activity w < o.activity v then moveUp v fuel above (o.put i w) else o.put i v

/-- Moves down the variable `v`, for which the index `i` is free. -/
def moveDown (v : Nat) : Nat → Nat → Order → Order
  | 0, i, o => o.put i v
  | fuel + 1, i, o =>
    let left := 2 * i + 1
    if o.heap.size ≤ left then o.put i v
    else
      let right := left + 1
      let below :=
        if right < o.heap.size && o.activity (o.at? left) < o.activity (o.at? right) then right
        else left
      let w := o.at? below
      if o.activity v < o.activity w then moveDown v fuel below (o.put i w) else o.put i v

/-- Puts a variable into the heap, unless it is there. -/
def release (v : Nat) (o : Order) : Order :=
  if o.places.getD v 0 = 0 then
    let i := o.heap.size
    moveUp v 64 i { o with heap := o.heap.push v }
  else o

@[noinline] def setActivity (v : Nat) (x : Float) (o : Order) : Order :=
  { o with
    activities := if h : v < o.activities.size then o.activities.set v x h else o.activities }

/-- Makes a variable more active. -/
def raise (v : Nat) (o : Order) : Order :=
  let o := o.setActivity v (o.activity v + o.step)
  let place := o.places.getD v 0
  if place = 0 then o else moveUp v 64 (place - 1) o

/-- Lets what comes later count for more. -/
def age (o : Order) : Order :=
  if 1.0e100 < o.step then
    { o with
      activities := ⟨o.activities.data.map (· * 1.0e-100)⟩
      step := o.step * 1.0e-100 }
  else { o with step := o.step / 0.95 }

/-- Takes the first variable out of the heap. -/
def dropFirst (o : Order) : Order :=
  let first := o.at? 0
  let last := o.at? (o.heap.size - 1)
  let o := { o with heap := o.heap.pop, places := o.places.setIfInBounds first 0 }
  if o.heap.size = 0 then o else moveDown last 64 0 o

/-- The first variable without a value, or zero, and the order without it. -/
def takeFree (values : Array Int) : Nat → Order → Nat × Order
  | 0, o => (0, o)
  | fuel + 1, o =>
    if o.heap.isEmpty then (0, o)
    else
      let v := o.at? 0
      let o := o.dropFirst
      if values.getD v 0 = 0 then (v, o) else takeFree values fuel o

end Order

end Variability.Sat
