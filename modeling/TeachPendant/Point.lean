import TeachPendant.Number.Arithmetic
import TeachPendant.Number.Text

namespace TeachPendant

open Number

/-- A position `x y z` and an orientation `w p r`. -/
structure Point where
  x : Single
  y : Single
  z : Single
  w : Single
  p : Single
  r : Single
  deriving DecidableEq

namespace Point

def origin : Point :=
  ⟨.zero false, .zero false, .zero false, .zero false, .zero false, .zero false⟩

instance : Inhabited Point := ⟨origin⟩

/-- Addressable components of a point. -/
def componentCount : Nat := 6

/-- The name of a component, for those there are. -/
def componentName (i : UInt64) : String :=
  match i with
  | 0 => "X"
  | 1 => "Y"
  | 2 => "Z"
  | 3 => "W"
  | 4 => "P"
  | 5 => "R"
  | _ => "?"

def component? (a : Point) (i : UInt64) : Option Single :=
  match i with
  | 0 => some a.x
  | 1 => some a.y
  | 2 => some a.z
  | 3 => some a.w
  | 4 => some a.p
  | 5 => some a.r
  | _ => none

def setComponent? (a : Point) (i : UInt64) (v : Single) : Option Point :=
  match i with
  | 0 => some { a with x := v }
  | 1 => some { a with y := v }
  | 2 => some { a with z := v }
  | 3 => some { a with w := v }
  | 4 => some { a with p := v }
  | 5 => some { a with r := v }
  | _ => none

def components (a : Point) : List Single := [a.x, a.y, a.z, a.w, a.p, a.r]

/-- The sum of the positions with the orientation of `a`. -/
def offsetBy (a b : Point) : Point :=
  { a with x := a.x.add b.x, y := a.y.add b.y, z := a.z.add b.z }

/-- The difference of the positions with the orientation of `a`. -/
def minus (a b : Point) : Point :=
  { a with x := a.x.sub b.x, y := a.y.sub b.y, z := a.z.sub b.z }

def lerpNumber (a b t : Single) : Single := a.add ((b.sub a).mul t)

/-- The point a fraction `t` of the way from `a` to `b`, component by component. -/
def lerp (a b : Point) (t : Single) : Point :=
  ⟨lerpNumber a.x b.x t, lerpNumber a.y b.y t, lerpNumber a.z b.z t,
    lerpNumber a.w b.w t, lerpNumber a.p b.p t, lerpNumber a.r b.r t⟩

/-- Numeric equality of all components. -/
def equal (a b : Point) : Bool :=
  a.x.equal b.x && a.y.equal b.y && a.z.equal b.z &&
    a.w.equal b.w && a.p.equal b.p && a.r.equal b.r

def text (a : Point) : String :=
  "(" ++ a.x.twoPlaces ++ ", " ++ a.y.twoPlaces ++ ", " ++ a.z.twoPlaces ++ " | " ++
    a.w.twoPlaces ++ ", " ++ a.p.twoPlaces ++ ", " ++ a.r.twoPlaces ++ ")"

end Point

/-- The tool tip in world coordinates, and the joint angles packed as a point. -/
structure Pose where
  tip : Point
  joints : Point
  deriving DecidableEq, Inhabited

namespace Pose

def origin : Pose := ⟨.origin, .origin⟩

def asPoint (pose : Pose) (cartesian : Bool) : Point := if cartesian then pose.tip else pose.joints

end Pose

end TeachPendant
