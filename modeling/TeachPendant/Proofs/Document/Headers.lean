import Mathlib.Tactic.SplitIfs
import TeachPendant.Document.MessagePack

namespace TeachPendant

open Number

namespace Number.Binary

variable {f : Format}

theorem toBits_lt (x : Binary f) : x.toBits < 2 ^ (f.width + 1) := by
  have hc := x.code.isLt
  rw [toBits, Nat.pow_succ]
  split <;> omega

/-- A number is its bits, those of "no number" included. -/
@[simp] theorem ofBits_toBits (x : Binary f) : ofBits x.toBits = x := by
  obtain ⟨negative, code⟩ := x
  have hc := code.isLt
  cases negative with
  | false =>
    simp [ofBits, ofCode, toBits, Nat.div_eq_of_lt hc, Fin.ofNat, Nat.mod_eq_of_lt hc]
  | true =>
    have hd : (2 ^ f.width + code.val) / 2 ^ f.width = 1 := by
      rw [Nat.add_div_left _ (Nat.two_pow_pos _), Nat.div_eq_of_lt hc]
    simp [ofBits, ofCode, toBits, hd, Fin.ofNat, Nat.mod_eq_of_lt hc]

end Number.Binary

namespace MessagePack

variable {bs rest : List UInt8}

@[simp] theorem length_bigEndian (n v : Nat) : (bigEndian n v).length = n := by
  induction n with
  | zero => rfl
  | succ n ih => rw [bigEndian, List.length_cons, ih]

theorem foldl_bigEndian (n v a : Nat) :
    (bigEndian n v).foldl (fun v b => v * 256 + b.toNat) a = a * 256 ^ n + v % 256 ^ n := by
  induction n generalizing a with
  | zero => simp [bigEndian, Nat.mod_one]
  | succ n ih =>
    have hb : (UInt8.ofNat (v / 256 ^ n)).toNat = v / 256 ^ n % 256 := by simp
    have hm : v % 256 ^ (n + 1) = v % 256 ^ n + 256 ^ n * (v / 256 ^ n % 256) := by
      rw [Nat.pow_succ, Nat.mod_mul]
    rw [bigEndian, List.foldl_cons, ih, hb, hm, Nat.pow_succ, Nat.add_mul, Nat.mul_assoc,
      Nat.mul_comm 256, Nat.mul_comm (v / 256 ^ n % 256)]
    omega

theorem ofBigEndian_bigEndian {n v : Nat} (h : v < 256 ^ n) : ofBigEndian (bigEndian n v) = v := by
  rw [ofBigEndian, foldl_bigEndian, Nat.mod_eq_of_lt h, Nat.zero_mul, Nat.zero_add]

theorem take?_append {n : Nat} (h : bs.length = n) : take? n (bs ++ rest) = some (bs, rest) := by
  subst h
  simp [take?]

theorem number?_bigEndian {n v : Nat} (h : v < 256 ^ n) :
    number? n (bigEndian n v ++ rest) = some (v, rest) := by
  simp only [number?, take?_append (length_bigEndian n v), Option.map_some, ofBigEndian_bigEndian h]

theorem bigEndian_one (v : Nat) : bigEndian 1 v = [UInt8.ofNat v] := by simp [bigEndian]

theorem toNat_ofNat {n : Nat} (h : n < 256) : (UInt8.ofNat n).toNat = n := by
  rw [UInt8.toNat_ofNat', Nat.mod_eq_of_lt (by omega)]

theorem head_natural {n : Nat} (h : n < 2 ^ 64) :
    head (natural n ++ rest) = some (.leaf (.integer n), rest) := by
  have wide {w : Nat} (hw : n < 256 ^ w) :
      unsignedLeaf w (bigEndian w n ++ rest) = some (.leaf (.integer n), rest) := by
    rw [unsignedLeaf, number?_bigEndian hw, Option.map_some]
  rw [natural]
  split
  · next hn =>
    rw [bigEndian_one, List.singleton_append, head, toNat_ofNat (by omega)]
    simp only [if_pos hn]
  split
  · exact wide (w := 1) (by omega)
  split
  · exact wide (w := 2) (by omega)
  split
  · exact wide (w := 4) (by omega)
  · exact wide (w := 8) (by omega)

theorem signed?_bigEndian {w n : Nat} (h : 0 < n) (hn : 2 * n ≤ 256 ^ w) :
    signed? w (bigEndian w (256 ^ w - n) ++ rest) = some (-(n : Int), rest) := by
  have hl : 256 ^ w - n < 256 ^ w := by omega
  have hs : ¬ 2 * (256 ^ w - n) < 256 ^ w := by omega
  have hv : ((256 ^ w - n : Nat) : Int) - 256 ^ w = -n := by
    rw [Int.ofNat_sub (by omega), Int.natCast_pow, Int.cast_ofNat_Int]
    omega
  simp only [signed?, number?_bigEndian hl, Option.map_some, if_neg hs, hv]

theorem head_negative {n : Nat} (h : 0 < n) (hn : n ≤ 2 ^ 63) :
    head (negative n ++ rest) = some (.leaf (.integer (-n)), rest) := by
  have wide {w : Nat} (hw : 2 * n ≤ 256 ^ w) :
      signedLeaf w (bigEndian w (256 ^ w - n) ++ rest) = some (.leaf (.integer (-n)), rest) := by
    rw [signedLeaf, signed?_bigEndian h hw, Option.map_some]
  rw [negative]
  split
  · have hb : (UInt8.ofNat (2 ^ 8 - n)).toNat = 256 - n := toNat_ofNat (by omega)
    have hv : ((256 - n : Nat) : Int) - 256 = -n := by omega
    rw [bigEndian_one, List.singleton_append, head, hb]
    simp only [hv]
    rw [if_neg (by omega), if_neg (by omega), if_neg (by omega), if_neg (by omega),
      if_pos (by omega)]
  split
  · exact wide (w := 1) (by omega)
  split
  · exact wide (w := 2) (by omega)
  split
  · exact wide (w := 4) (by omega)
  · exact wide (w := 8) (by omega)

theorem head_integer {z : Int} (hl : -2 ^ 63 ≤ z) (hu : z < 2 ^ 64) :
    head (integer z ++ rest) = some (.leaf (.integer z), rest) := by
  rw [integer]
  split
  · next h =>
    have hz : -(z.natAbs : Int) = z := by omega
    rw [head_negative (by omega) (by omega), hz]
  · next h =>
    have hz : (z.natAbs : Int) = z := by omega
    rw [head_natural (by omega), hz]

theorem sized_bigEndian {make : Nat → Head} {w n : Nat} (h : n < 256 ^ w) :
    sized make w (bigEndian w n ++ rest) = some (make n, rest) := by
  rw [sized, number?_bigEndian h, Option.map_some]

theorem head_textHeader {n : Nat} (h : n < 2 ^ 32) :
    head (textHeader n ++ rest) = some (.text n, rest) := by
  rw [textHeader]
  split
  · rw [bigEndian_one, List.singleton_append, head, toNat_ofNat (by omega)]
    simp only [Nat.add_sub_cancel_left]
    rw [if_neg (by omega), if_neg (by omega), if_neg (by omega), if_pos (by omega)]
  split
  · exact sized_bigEndian (w := 1) (by omega)
  split
  · exact sized_bigEndian (w := 2) (by omega)
  · exact sized_bigEndian (w := 4) (by omega)

theorem head_bytesHeader {n : Nat} (h : n < 2 ^ 32) :
    head (bytesHeader n ++ rest) = some (.bytes n, rest) := by
  rw [bytesHeader]
  split
  · exact sized_bigEndian (w := 1) (by omega)
  split
  · exact sized_bigEndian (w := 2) (by omega)
  · exact sized_bigEndian (w := 4) (by omega)

theorem head_listHeader {n : Nat} (h : n < 2 ^ 32) :
    head (listHeader n ++ rest) = some (.list n, rest) := by
  rw [listHeader]
  split
  · rw [bigEndian_one, List.singleton_append, head, toNat_ofNat (by omega)]
    simp only [Nat.add_sub_cancel_left]
    rw [if_neg (by omega), if_neg (by omega), if_pos (by omega)]
  split
  · exact sized_bigEndian (w := 2) (by omega)
  · exact sized_bigEndian (w := 4) (by omega)

theorem head_recordHeader {n : Nat} (h : n < 2 ^ 32) :
    head (recordHeader n ++ rest) = some (.record n, rest) := by
  rw [recordHeader]
  split
  · rw [bigEndian_one, List.singleton_append, head, toNat_ofNat (by omega)]
    simp only [Nat.add_sub_cancel_left]
    rw [if_neg (by omega), if_pos (by omega)]
  split
  · exact sized_bigEndian (w := 2) (by omega)
  · exact sized_bigEndian (w := 4) (by omega)

theorem head_single (x : Single) :
    head (0xca :: bigEndian 4 x.toBits ++ rest) = some (.leaf (.single x), rest) := by
  have hx : x.toBits < 256 ^ 4 := x.toBits_lt
  have hd : head (0xca :: bigEndian 4 x.toBits ++ rest) =
      (number? 4 (bigEndian 4 x.toBits ++ rest)).map
        fun read => (.leaf (.single (.ofBits read.1)), read.2) := rfl
  simp only [hd, number?_bigEndian hx, Option.map_some, Binary.ofBits_toBits]

theorem head_double (x : Double) :
    head (0xcb :: bigEndian 8 x.toBits ++ rest) = some (.leaf (.double x), rest) := by
  have hx : x.toBits < 256 ^ 8 := x.toBits_lt
  have hd : head (0xcb :: bigEndian 8 x.toBits ++ rest) =
      (number? 8 (bigEndian 8 x.toBits ++ rest)).map
        fun read => (.leaf (.double (.ofBits read.1)), read.2) := rfl
  simp only [hd, number?_bigEndian hx, Option.map_some, Binary.ofBits_toBits]

/-- Where `read` succeeds, `read'` does so with the same outcome, also when more bytes follow, and
leaves these. A reader that goes by nothing but the bytes it uses up is onward of itself. -/
def Onward {α : Type} (read read' : List UInt8 → Option (α × List UInt8)) : Prop :=
  ∀ ⦃bs rest : List UInt8⦄ ⦃a : α⦄, read bs = some (a, rest) →
    ∀ more, read' (bs ++ more) = some (a, rest ++ more)

namespace Onward

variable {α β : Type} {read read' : List UInt8 → Option (α × List UInt8)}

theorem pure (a : α) : Onward (fun bs => some (a, bs)) fun bs => some (a, bs) := by
  intro bs rest x h more
  cases h
  rfl

theorem none : Onward (fun _ => Option.none) read' := by
  intro bs rest x h
  cases h

theorem map (h : Onward read read') (f : α → β) :
    Onward (fun bs => (read bs).map fun (a, rest) => (f a, rest))
      fun bs => (read' bs).map fun (a, rest) => (f a, rest) := by
  intro bs rest b hb more
  obtain ⟨⟨a, r⟩, ha, he⟩ := Option.map_eq_some_iff.mp hb
  cases he
  simp only [h ha more, Option.map_some]

theorem bind {next next' : α → List UInt8 → Option (β × List UInt8)} (h : Onward read read')
    (hn : ∀ a, Onward (next a) (next' a)) :
    Onward (fun bs => (read bs).bind fun (a, rest) => next a rest)
      fun bs => (read' bs).bind fun (a, rest) => next' a rest := by
  intro bs rest b hb more
  obtain ⟨⟨a, r⟩, ha, he⟩ := Option.bind_eq_some_iff.mp hb
  simp only [h ha more, Option.bind_some]
  exact hn a he more

theorem take? (n : Nat) : Onward (take? n) (take? n) := by
  intro bs rest v h more
  simp only [MessagePack.take?] at h ⊢
  split at h
  · next hn =>
    cases h
    have hl : n ≤ (bs ++ more).length := by rw [List.length_append]; omega
    rw [if_pos hl, List.take_append_of_le_length hn, List.drop_append_of_le_length hn]
  · cases h

theorem number? (w : Nat) : Onward (number? w) (number? w) := (take? w).map ofBigEndian

theorem signed? (w : Nat) : Onward (signed? w) (signed? w) :=
  (number? w).map fun v => if 2 * v < 256 ^ w then (v : Int) else v - 256 ^ w

theorem sized (make : Nat → Head) (w : Nat) : Onward (sized make w) (sized make w) :=
  (number? w).map make

theorem unsignedLeaf (w : Nat) : Onward (unsignedLeaf w) (unsignedLeaf w) :=
  (number? w).map fun n : Nat => Head.leaf (.integer n)

theorem signedLeaf (w : Nat) : Onward (signedLeaf w) (signedLeaf w) :=
  (signed? w).map fun z => Head.leaf (.integer z)

theorem head : Onward head head := by
  -- The first byte alone decides how to go on.
  have first (b : UInt8) :
      Onward (fun bs => MessagePack.head (b :: bs)) fun bs => MessagePack.head (b :: bs) := by
    unfold MessagePack.head
    dsimp only
    split_ifs
    · exact pure _
    · exact pure _
    · exact pure _
    · exact pure _
    · exact pure _
    · split
      all_goals
        first
        | exact pure _
        | exact sized _ _
        | exact unsignedLeaf _
        | exact signedLeaf _
        | exact (number? 4).map fun v => Head.leaf (.single (.ofBits v))
        | exact (number? 8).map fun v => Head.leaf (.double (.ofBits v))
        | exact none
  intro bs rest k h more
  cases bs with
  | nil => cases h
  | cons b bs => exact first b h more

end Onward

theorem toList_loop (a : ByteArray) (i : Nat) (r : List UInt8) :
    ByteArray.toList.loop a i r = r.reverse ++ a.data.toList.drop i := by
  fun_induction ByteArray.toList.loop with
  | case1 i r h ih =>
    have hi : i < a.data.toList.length := by simpa using h
    have hg : a.get! i = a.data.toList[i] := by
      simp only [ByteArray.get!, Array.getElem_toList]
      exact getElem!_pos a.data i (by simpa using h)
    rw [ih, List.drop_eq_getElem_cons hi, hg, List.reverse_cons, List.append_assoc,
      List.singleton_append]
  | case2 i r h =>
    have hi : a.data.toList.length ≤ i := by simpa using h
    rw [List.drop_eq_nil_of_le hi, List.append_nil]

theorem textBytes_eq (s : String) : textBytes s = s.toByteArray.data.toList := by
  rw [textBytes, ByteArray.toList, toList_loop, List.reverse_nil, List.nil_append, List.drop_zero]
  rfl

theorem length_textBytes (s : String) : (textBytes s).length = s.utf8ByteSize := by
  rw [textBytes_eq]
  rfl

theorem textOf_textBytes (s : String) : textOf (textBytes s) = .text s := by
  have hb : ByteArray.mk (textBytes s).toArray = s.toByteArray := by
    rw [textBytes_eq, Array.toArray_toList]
  have hs : String.fromUTF8? s.toByteArray = some s := by
    rw [String.fromUTF8?, dif_pos s.isValidUTF8]
    rfl
  rw [textOf, hb, hs]

end MessagePack

end TeachPendant
