import TeachPendant.Error
import TeachPendant.Point

namespace TeachPendant

/-- Slots a program can hold. -/
def positionCapacity : Nat := 1000

/-- Points in ascending order of their slots, no slot twice. -/
structure PositionTable where
  points : List (UInt64 × Point) := []
  nextFree : UInt64 := 0
  deriving DecidableEq, Inhabited

namespace PositionTable

/-- Puts a point into its place in ascending order, in place of one in the same slot. -/
def insertPoint (slot : UInt64) (point : Point) : List (UInt64 × Point) → List (UInt64 × Point)
  | [] => [(slot, point)]
  | (s, q) :: rest =>
    if slot < s then (slot, point) :: (s, q) :: rest
    else if slot = s then (slot, point) :: rest
    else (s, q) :: insertPoint slot point rest

/-- The points of a list that may name a slot more than once; the last one counts. -/
def ofPoints (points : List (UInt64 × Point)) (nextFree : UInt64) : PositionTable :=
  ⟨points.foldl (fun acc e => insertPoint e.1 e.2 acc) [], nextFree⟩

def get? (t : PositionTable) (slot : UInt64) : Option Point := t.points.lookup slot

def contains (t : PositionTable) (slot : UInt64) : Bool := (t.get? slot).isSome

def count (t : PositionTable) : Nat := t.points.length

def slots (t : PositionTable) : List UInt64 := t.points.map (·.1)

/-- The first free one of `count` slots from `slot` on. -/
def freeAmong (points : List (UInt64 × Point)) : Nat → UInt64 → Option UInt64
  | 0, _ => none
  | count + 1, slot =>
    if (points.lookup slot).isSome then freeAmong points count (slot + 1) else some slot

/-- The first free slot of the capacity from `slot` on. -/
def freeFrom (points : List (UInt64 × Point)) (slot : UInt64) : Option UInt64 :=
  freeAmong points (positionCapacity - slot.toNat) slot

/-- Creates or overwrites a point. When it takes the offered slot, the next free one above is
offered; a full table keeps its offer. -/
def set (t : PositionTable) (slot : UInt64) (point : Point) : Except Error PositionTable :=
  if positionCapacity ≤ slot.toNat then
    .error (.outside "position slot" slot.toNat positionCapacity)
  else
    let points := insertPoint slot point t.points
    .ok ⟨points,
      if slot = t.nextFree then (freeFrom points slot).getD slot else t.nextFree⟩

/-- Frees a slot and gives the point it held. The freed slot is offered when it lies below the
offer, or when the offer was an occupied slot. -/
def clear (t : PositionTable) (slot : UInt64) : PositionTable × Option Point :=
  match t.get? slot with
  | none => (t, none)
  | some point =>
    let points := t.points.filter (·.1 != slot)
    let saturated := (points.lookup t.nextFree).isSome
    (⟨points, if slot < t.nextFree || saturated then slot else t.nextFree⟩, some point)

/-- Stores a point into the offered slot. -/
def teach (t : PositionTable) (point : Point) : Except Error (PositionTable × UInt64) :=
  if t.contains t.nextFree then .error (.full "position table")
  else
    match t.set t.nextFree point with
    | .ok t' => .ok (t', t.nextFree)
    | .error e => .error e

end PositionTable

end TeachPendant
