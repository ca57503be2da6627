import GhidraDec.Funcdata.SplitUses
import GhidraDec.Print.CharacterData

/-!
# Read-Only Varnodes

`Funcdata::fillinReadOnly(vn)` (`funcdata_varnode.cc`) replaces the reads of an unwritten
read-only varnode by constants: it loads the varnode's bytes from the load image, assembles
them into a value in the space's byte order, and gives each reader slot its own new constant
of the varnode's size holding that value. It leaves the slots of a `MULTIEQUAL`, of an
`INDIRECT` reading the varnode in slot 1, and of an `INDIRECT` whose output lies at the
varnode's address reading the varnode; an `INDIRECT` reading it in slot 0 loses its
annotation slot and becomes a `COPY` of the constant.

The value is assembled in the 64-bit `uintb` (`res <<= 8; res |= bytes[i]`): each shift drops
the byte that leaves the word, so the constant holds the low 64 bits of the integer stored at
the varnode's address, and for a varnode of more than 8 bytes that is not the integer.

The load image (`LoadImage::loadFill`, outside the sources) is a parameter: the bytes at an
address, or `none` where it has none (`DataUnavailError`). The source loads into a 32-byte
buffer; the model reads the bytes the image gives, which the source only does for at most 32.
The warning flag and message of the written case, the read-only flag the failed load clears,
and the locked data-type passed to the constants are not part of the store.

## Main results

* `assembleValue_eq`: the value assembled from the bytes is the integer they store, in the
  space's byte order, modulo `2 ^ 64`;
* `assembleValue_of_le_eight`: for at most 8 bytes it is the integer itself;
* `fillinReadOnly_wide_value`: a 16-byte read-only varnode whose integer is `2 ^ 120` is
  replaced by the constant `0`.
-/

namespace GhidraDec

namespace Funcdata

/-- The value `fillinReadOnly` assembles from the `size` bytes of the buffer: `res <<= 8;
res |= bytes[i]` in the 64-bit `uintb`, most significant byte first in a big-endian space and
last in a little-endian one. -/
def assembleValue (bigEndian : Bool) (bytes : List UInt8) (size : Nat) : Nat :=
  (if bigEndian then List.range size else (List.range size).reverse).foldl
    (fun res i => (res <<< 8) % 2 ^ 64 ||| (bytes.getD i 0).toNat) 0

/-- The integer the bytes store in the given byte order: the value the specification asks
for. -/
def storedInteger (bigEndian : Bool) (bytes : List UInt8) : Nat :=
  (if bigEndian then bytes else bytes.reverse).foldl (fun acc b => acc * 256 + b.toNat) 0

/-! ### The assembled value -/

/-- One byte into the 64-bit accumulator: the shifted word has its low byte clear, so the `or`
is a sum, and the shift keeps the low 64 bits. -/
theorem assemble_byte (r : Nat) (b : UInt8) :
    ((r % 2 ^ 64) <<< 8) % 2 ^ 64 ||| b.toNat = (r * 256 + b.toNat) % 2 ^ 64 := by
  have hb : b.toNat < 2 ^ 8 := b.toNat_lt_size
  rw [Print.lor_eq_add 8 ((Nat.dvd_mod_iff (Nat.pow_dvd_pow 2 (by omega))).mpr
    (Nat.shiftLeft_eq _ _ ▸ Nat.dvd_mul_left _ _)) hb, Nat.shiftLeft_eq]
  omega

/-- The loop over the bytes, by induction on them: the low 64 bits of the integer. -/
theorem foldl_assemble : ∀ (l : List UInt8) (r : Nat),
    l.foldl (fun res b => (res <<< 8) % 2 ^ 64 ||| b.toNat) (r % 2 ^ 64) =
      l.foldl (fun acc b => acc * 256 + b.toNat) r % 2 ^ 64
  | [], _ => rfl
  | b :: l, r => by
    rw [List.foldl_cons, List.foldl_cons, assemble_byte, foldl_assemble l]

theorem map_getD_range (l : List UInt8) : (List.range l.length).map (l.getD · 0) = l :=
  List.ext_getElem (by simp) fun i _ hi => by
    rw [List.getElem_map, List.getElem_range, List.getD_eq_getElem _ _ hi]

/-- **The value of a read-only varnode**: from the `size` bytes the image gives,
`fillinReadOnly` assembles the integer they store in the space's byte order, modulo
`2 ^ 64`. -/
theorem assembleValue_eq (bigEndian : Bool) (bytes : List UInt8) :
    assembleValue bigEndian bytes bytes.length = storedInteger bigEndian bytes % 2 ^ 64 := by
  have h := foldl_assemble (if bigEndian then bytes else bytes.reverse) 0
  rw [Nat.zero_mod] at h
  rw [assembleValue, storedInteger, ← h]
  cases bigEndian
  · simp only [Bool.false_eq_true, if_false]
    conv_rhs => rw [← map_getD_range bytes]
    rw [← List.map_reverse, List.foldl_map]
  · simp only [if_true]
    conv_rhs => rw [← map_getD_range bytes]
    rw [List.foldl_map]

theorem foldl_base_lt : ∀ (l : List UInt8) (acc k : Nat), acc < 256 ^ k →
    l.foldl (fun acc b => acc * 256 + b.toNat) acc < 256 ^ (k + l.length)
  | [], _, _, h => h
  | b :: l, acc, k, h => by
    have hb : b.toNat < 256 := b.toNat_lt_size
    have h₁ : acc * 256 + b.toNat < 256 ^ (k + 1) := by rw [Nat.pow_succ]; omega
    rw [List.foldl_cons, List.length_cons, ← Nat.add_assoc, Nat.add_right_comm]
    exact foldl_base_lt l _ (k + 1) h₁

theorem storedInteger_lt (bigEndian : Bool) (bytes : List UInt8) :
    storedInteger bigEndian bytes < 256 ^ bytes.length := by
  have h := foldl_base_lt (if bigEndian then bytes else bytes.reverse) 0 0 Nat.one_pos
  cases bigEndian <;> simpa only [storedInteger, Bool.false_eq_true, if_false, if_true,
    List.length_reverse, Nat.zero_add] using h

/-- For a varnode of at most 8 bytes the assembled value is the integer itself. -/
theorem assembleValue_of_le_eight (bigEndian : Bool) (bytes : List UInt8)
    (h8 : bytes.length ≤ 8) :
    assembleValue bigEndian bytes bytes.length = storedInteger bigEndian bytes := by
  rw [assembleValue_eq, Nat.mod_eq_of_lt]
  calc storedInteger bigEndian bytes < 256 ^ bytes.length := storedInteger_lt bigEndian bytes
    _ ≤ 256 ^ 8 := Nat.pow_le_pow_right (by decide) h8
    _ = 2 ^ 64 := rfl

variable (s : Funcdata)

/-- One reader `op` of the loop of `fillinReadOnly` over the readers of `v`, with the state
`(store, changemade)`: a marker other than an `INDIRECT` reading `v` in slot 0 whose output
is not at `v`'s address `addr` is left alone; otherwise an `INDIRECT` becomes a `COPY`, and
the slot reading `v` reads a new constant of size `size` and value `val`. -/
def fillinReadOnlyStep (v size val : Nat) (addr : Address) (st : Funcdata × Bool) (op : Nat) :
    Funcdata × Bool :=
  let (s, changemade) := st
  let i := s.getSlot op v
  if (s.codeOf op).isMarker && (s.codeOf op != .indirect || i != 0 ||
      (s.outputOf op).bind (fun w => (s.vn w).map Varnode.loc) == some addr) then
    (s, changemade)
  else
    let s := if (s.codeOf op).isMarker then (s.opRemoveInput op 1).opSetOpcode op .copy else s
    let (s, cvn) := s.newConstant size val
    (s.opSetInput op cvn i, true)

/-- `Funcdata::fillinReadOnly`: nothing for a written varnode; `true` with nothing changed
where the load image has no bytes; otherwise the loop over the readers. The loop walks the
live reader list with an iterator, and each round only unlinks the reader it stands on, so it
visits the readers in the order of the list it started from. -/
def fillinReadOnly (loadFill : Address → Nat → Option (List UInt8)) (v : Nat) :
    Funcdata × Bool :=
  match s.vn v with
  | none => (s, false)
  | some x =>
    if x.isWritten then (s, false)
    else match loadFill x.loc x.size with
      | none => (s, true)
      | some bytes =>
        (s.descendOf v).foldl
          (fillinReadOnlyStep v x.size (assembleValue x.loc.space.bigEndian bytes x.size) x.loc)
          (s, false)

/-! ### A wide read-only varnode -/

/-- A 4 GiB big-endian processor space. -/
def ramBE : AddrSpace := ⟨1, .processor, 0xffffffff, true, 1⟩

/-- A 16-byte read-only varnode 0 at `0x1000`, copied by op 0 into varnode 1. -/
def wideRead : Funcdata where
  glb := ⟨⟨0, .constant, 2 ^ 64 - 1, false, 1⟩, ⟨2, .internal, 2 ^ 64 - 1, false, 1⟩,
    ⟨3, .iop, 2 ^ 64 - 1, false, 1⟩, rfl, rfl, rfl⟩
  vbank := [
    some { loc := ⟨ramBE, 0x1000⟩, size := 16, descend := [0] },
    some { loc := ⟨⟨2, .internal, 2 ^ 64 - 1, false, 1⟩, 0⟩, size := 16, defOp := some 0 }]
  obank := [
    some { code := .copy, addr := ⟨ramBE, 0x100⟩, inrefs := [some 0], output := some 1,
           parent := some 0 }]
  bblocks := [{ ops := [0] }]
  uniqId := 16

/-- A load image holding the bytes `01 00 … 00` at `0x1000`: the 16-byte integer `2 ^ 120`. -/
def wideImage (a : Address) (n : Nat) : Option (List UInt8) :=
  if a = ⟨ramBE, 0x1000⟩ ∧ n = 16 then some (1 :: List.replicate 15 0) else none

/-- **A wide read-only varnode gets the wrong constant.** The 16 bytes at `0x1000` store the
integer `2 ^ 120`, but the 64-bit accumulator shifts the leading byte out, and the `COPY` reads
the new constant varnode 2, of value `0`. -/
theorem fillinReadOnly_wide_value :
    Linked wideRead ∧ storedInteger true (1 :: List.replicate 15 0) = 2 ^ 120 ∧
      (wideRead.fillinReadOnly wideImage 0).1.getIn 0 0 = some 2 ∧
      (wideRead.fillinReadOnly wideImage 0).1.storageOf 2 =
        some (⟨wideRead.glb.constantSpace, 0⟩, 16) :=
  ⟨Linked.of_check (by decide), by decide, by decide, by decide⟩

end Funcdata

end GhidraDec
