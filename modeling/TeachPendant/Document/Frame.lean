namespace TeachPendant.Frame

/-- The `n` low bytes of a number, the lowest first. -/
def littleEndian : Nat → Nat → List UInt8
  | 0, _ => []
  | n + 1, v => UInt8.ofNat v :: littleEndian n (v / 256)

def ofLittleEndian (bs : List UInt8) : Nat := bs.foldr (fun b v => v * 256 + b.toNat) 0

def magic : List UInt8 := [0x28, 0xb5, 0x2f, 0xfd]

/-- The most content that one block holds. -/
def blockLimit : Nat := 128 * 1024

/-- A block header: the last-block bit, two bits of kind, then the size. -/
def blockHeader (last : Bool) (size : Nat) : List UInt8 :=
  littleEndian 3 ((if last then 1 else 0) + 8 * size)

/-- Content cut into raw blocks. The fuel bounds the number of blocks. -/
def rawBlocks : Nat → List UInt8 → List UInt8
  | 0, _ => []
  | fuel + 1, bs =>
    if bs.length ≤ blockLimit then blockHeader true bs.length ++ bs
    else blockHeader false blockLimit ++ bs.take blockLimit ++ rawBlocks fuel (bs.drop blockLimit)

/-- A single-segment frame with the content size in eight bytes. -/
def store (bs : List UInt8) : List UInt8 :=
  magic ++ 0xe0 :: littleEndian 8 bs.length ++ rawBlocks (bs.length + 1) bs

/-- Why a frame does not open. -/
inductive Fault
  | unknownFormat
  | incomplete
  | unsupported
  deriving DecidableEq

def Fault.reason : Fault → String
  | .unknownFormat => "Unknown frame descriptor"
  | .incomplete => "incomplete frame"
  | .unsupported => "Unsupported frame parameter"

def take (n : Nat) (bs : List UInt8) : Except Fault (List UInt8 × List UInt8) :=
  if n ≤ bs.length then .ok (bs.take n, bs.drop n) else .error .incomplete

/-- The bytes of a frame header behind its descriptor: window, dictionary and content size. -/
def headerLength (descriptor : Nat) : Nat :=
  let single := descriptor / 32 % 2
  let dictionary := [0, 1, 2, 4].getD (descriptor % 4) 0
  let size := [single, 2, 4, 8].getD (descriptor / 64) 0
  (1 - single) + dictionary + size

/-- The content of the blocks of a frame, with what follows them. -/
def openBlocks : Nat → List UInt8 → Except Fault (List UInt8 × List UInt8)
  | 0, _ => .error .incomplete
  | fuel + 1, bs =>
    match take 3 bs with
    | .error e => .error e
    | .ok (header, bs) =>
      let h := ofLittleEndian header
      let size := h / 8
      let last := h % 2 == 1
      let block :=
        match h / 2 % 4 with
        | 0 => take size bs
        | 1 => (take 1 bs).map fun (b, rest) => ((List.replicate size b).flatten, rest)
        | _ => .error .unsupported
      match block with
      | .error e => .error e
      | .ok (content, rest) =>
        if last then .ok (content, rest)
        else (openBlocks fuel rest).map fun (more, rest) => (content ++ more, rest)

/-- One frame, from its magic number on. -/
def openOne (bs : List UInt8) : Except Fault (List UInt8 × List UInt8) :=
  if bs.take 4 ≠ magic.take bs.length then .error .unknownFormat
  else
    match take 5 bs with
    | .error e => .error e
    | .ok (start, bs) =>
      let descriptor := (start.getD 4 0).toNat
      match take (headerLength descriptor) bs with
      | .error e => .error e
      | .ok (_, bs) =>
        match openBlocks (bs.length + 1) bs with
        | .error e => .error e
        | .ok (content, rest) =>
          (take (if descriptor / 4 % 2 = 1 then 4 else 0) rest).map fun (_, rest) => (content, rest)

def openFrames : Nat → List UInt8 → Except Fault (List UInt8)
  | _, [] => .ok []
  | 0, _ => .error .incomplete
  | fuel + 1, bs =>
    match openOne bs with
    | .error e => .error e
    | .ok (content, rest) => (openFrames fuel rest).map (content ++ ·)

/-- The content of a file: the contents of its frames, one after the other. -/
def contents (bs : List UInt8) : Except Fault (List UInt8) := openFrames bs.length bs

end TeachPendant.Frame
