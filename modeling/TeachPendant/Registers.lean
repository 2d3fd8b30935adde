import TeachPendant.Error
import TeachPendant.Point

namespace TeachPendant

open Number

/-- A value with the comment shown beside it. -/
structure Register (α : Type) where
  value : α
  comment : String := ""
  deriving DecidableEq

/-- Shared by all arms of a cell. Every access is checked against the size of its list; a write that
is refused changes nothing. -/
structure RegisterBank where
  data : List (Register Single)
  io : List (Register Bool)
  positions : List (Register Point)
  deriving DecidableEq

namespace RegisterBank

/-- A bank of the given sizes, all at rest. -/
def ofSizes (data io positions : Nat) : RegisterBank where
  data := List.replicate data { value := .zero false }
  io := List.replicate io { value := false }
  positions := List.replicate positions { value := .origin }

def noData (bank : RegisterBank) (i : UInt64) : Error :=
  .outside "data register" i.toNat bank.data.length

def noIo (bank : RegisterBank) (i : UInt64) : Error :=
  .outside "I/O register" i.toNat bank.io.length

def noPosition (bank : RegisterBank) (i : UInt64) : Error :=
  .outside "position register" i.toNat bank.positions.length

def noComponent (c : UInt64) : Error :=
  .outside "position component" c.toNat Point.componentCount

def getData (bank : RegisterBank) (i : UInt64) : Except Error Single :=
  match bank.data[i.toNat]? with
  | some r => .ok r.value
  | none => .error (bank.noData i)

def getIo (bank : RegisterBank) (i : UInt64) : Except Error Bool :=
  match bank.io[i.toNat]? with
  | some r => .ok r.value
  | none => .error (bank.noIo i)

def getPosition (bank : RegisterBank) (i : UInt64) : Except Error Point :=
  match bank.positions[i.toNat]? with
  | some r => .ok r.value
  | none => .error (bank.noPosition i)

/-- A bad register is reported before a bad component. -/
def getComponent (bank : RegisterBank) (i c : UInt64) : Except Error Single :=
  match bank.getPosition i with
  | .error e => .error e
  | .ok point =>
    match point.component? c with
    | some x => .ok x
    | none => .error (noComponent c)

def setData (bank : RegisterBank) (i : UInt64) (v : Single) : Except Error RegisterBank :=
  match bank.data[i.toNat]? with
  | some r => .ok { bank with data := bank.data.set i.toNat { r with value := v } }
  | none => .error (bank.noData i)

def setIo (bank : RegisterBank) (i : UInt64) (v : Bool) : Except Error RegisterBank :=
  match bank.io[i.toNat]? with
  | some r => .ok { bank with io := bank.io.set i.toNat { r with value := v } }
  | none => .error (bank.noIo i)

def setPosition (bank : RegisterBank) (i : UInt64) (v : Point) : Except Error RegisterBank :=
  match bank.positions[i.toNat]? with
  | some r => .ok { bank with positions := bank.positions.set i.toNat { r with value := v } }
  | none => .error (bank.noPosition i)

def setComponent (bank : RegisterBank) (i c : UInt64) (v : Single) : Except Error RegisterBank :=
  match bank.getPosition i with
  | .error e => .error e
  | .ok point =>
    match point.setComponent? c v with
    | some point => bank.setPosition i point
    | none => .error (noComponent c)

def setDataComment (bank : RegisterBank) (i : UInt64) (text : String) : Except Error RegisterBank :=
  match bank.data[i.toNat]? with
  | some r => .ok { bank with data := bank.data.set i.toNat { r with comment := text } }
  | none => .error (bank.noData i)

def dataComment? (bank : RegisterBank) (i : UInt64) : Option String :=
  (bank.data[i.toNat]?).map (·.comment)

end RegisterBank

end TeachPendant
