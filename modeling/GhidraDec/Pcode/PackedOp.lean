import Mathlib.Tactic.Ring
import Mathlib.Data.Nat.Bitwise
import GhidraDec.Pcode.Opcode

/-!
# The Packed P-code Format

A raw p-code op travels from the translator to the decompiler as a packed byte stream,
decoded by `PcodeEmit::restorePackedOp` (`translate.cc`). Every field is one byte
biased by `0x20`, except an offset, which is written as its 6-bit groups, least
significant first, each biased by `0x20` and closed by `end_tag`:

* an op: `op_tag`, `opcode + 0x20`, `void_tag` or the output varnode, the input
  varnodes, `end_tag`;
* a varnode: `addrsz_tag`, `index + 0x20`, the offset, `size + 0x20` — or `spaceid_tag`,
  `index + 0x20` for a reference to an address space.

The tag values are defined in `translate.hh`, which is not part of the sources: they are
the parameters `PackedTags`, with the distinctness the decoder relies on as fields. The
encoder `packOp` follows the layout above; it is the format's statement, against which the
decoder is proved. The stream is a list of bytes; where the source would read past the end
of its buffer, the model stops with an error.

## Main results

* `unpackOffset_packOffset`: every 64-bit offset is read back from its digits;
* `restorePackedOp_packOp`: decoding the packed form of a raw op with at most 30 inputs
  dumps that op and returns the stream just past its `end_tag`, whatever follows;
* `restorePackedOp_shift_and_overflow`: neither loop of the decoder is bounded as its
  buffers are: the offset loop reaches a shift of 66 bits, and the input loop stores a 31st
  input.
-/

namespace GhidraDec

/-- The tag bytes of the packed format (`translate.hh`), with what the decoder needs of
them: `end_tag` is not an offset digit (`0x20`–`0x5f`), and the tags that the decoder tells
apart are distinct. -/
structure PackedTags where
  opTag : UInt8
  voidTag : UInt8
  spaceidTag : UInt8
  addrszTag : UInt8
  endTag : UInt8
  end_not_digit : endTag.toNat < 0x20 ∨ 0x60 ≤ endTag.toNat
  void_ne_addrsz : voidTag ≠ addrszTag
  void_ne_spaceid : voidTag ≠ spaceidTag
  end_ne_addrsz : endTag ≠ addrszTag
  end_ne_spaceid : endTag ≠ spaceidTag
  spaceid_ne_addrsz : spaceidTag ≠ addrszTag

/-- The address-space manager as the decoder consults it (`AddrSpaceManager`, not part of
the sources): the index of the constant space, and the pointer value of the space with a
given index, which a space-id varnode carries as its offset. -/
structure SpaceManager where
  constantIndex : Int
  spaceRef : Int → Nat

/-- `VarnodeData`: a space (by index), an offset and a size. -/
structure VarnodeData where
  space : Int
  offset : Nat
  size : Nat
  deriving DecidableEq, Repr

/-- What `PcodeEmit::dump` receives: the address, op-code, output and inputs of one op. -/
structure PcodeDump where
  addr : Nat
  opcode : Int
  output : Option VarnodeData
  inputs : List VarnodeData
  deriving DecidableEq, Repr

namespace Packed

variable (t : PackedTags)

/-- `*ptr++`: the next byte of the stream. -/
def readByte : List UInt8 → Except String (UInt8 × List UInt8)
  | [] => .error "Unexpected end of packed stream"
  | b :: ptr => .ok (b, ptr)

/-- The loop of `PcodeEmit::unpackOffset` at shift `shift` with `fuel` rounds left: a byte
other than `end_tag` contributes its value less `0x20`, converted to `uintb` and shifted
into place (a 64-bit shift, which takes its amount modulo 64). -/
def unpackOffsetLoop : Nat → Nat → Nat → List UInt8 → Except String (Nat × List UInt8)
  | 0, _, _, _ => .error "Bad packed offset"
  | fuel + 1, shift, res, ptr =>
    match ptr with
    | [] => .error "Unexpected end of packed stream"
    | val :: ptr =>
      if val = t.endTag then .ok (res, ptr)
      else
        let bits := (((val.toNat + 2 ^ 64 - 0x20) % 2 ^ 64) <<< (shift % 64)) % 2 ^ 64
        unpackOffsetLoop fuel (shift + 6) (res ||| bits) ptr

/-- `PcodeEmit::unpackOffset`: twelve rounds, at shifts `0, 6, …, 66`. -/
def unpackOffset (ptr : List UInt8) : Except String (Nat × List UInt8) :=
  unpackOffsetLoop t 12 0 0 ptr

/-- `PcodeEmit::unpackVarnodeData`. A space-id varnode is a constant whose offset is the
pointer to the space, with the size of a pointer. -/
def unpackVarnodeData (mgr : SpaceManager) (ptr : List UInt8) :
    Except String (VarnodeData × List UInt8) := do
  let (tag, ptr) ← readByte ptr
  if tag = t.addrszTag then
    let (b, ptr) ← readByte ptr
    let (off, ptr) ← unpackOffset t ptr
    let (sz, ptr) ← readByte ptr
    pure (⟨(b.toNat : Int) - 0x20, off, ((sz.toNat : Int) - 0x20).toNat % 2 ^ 32⟩, ptr)
  else if tag = t.spaceidTag then
    let (b, ptr) ← readByte ptr
    pure (⟨mgr.constantIndex, mgr.spaceRef ((b.toNat : Int) - 0x20), 8⟩, ptr)
  else .error "Bad packed VarnodeData"

/-- The input loop of `restorePackedOp`: varnodes until `end_tag`, which is left in the
stream. Each round consumes bytes, so `fuel` at the stream's length is never exhausted. -/
def unpackInputs (mgr : SpaceManager) :
    Nat → List UInt8 → List VarnodeData → Except String (List VarnodeData × List UInt8)
  | 0, _, _ => .error "Unexpected end of packed stream"
  | fuel + 1, ptr, acc =>
    match ptr with
    | [] => .error "Unexpected end of packed stream"
    | b :: _ =>
      if b = t.endTag then .ok (acc, ptr)
      else do
        let (v, ptr) ← unpackVarnodeData t mgr ptr
        unpackInputs mgr fuel ptr (acc ++ [v])

/-- The output field of `restorePackedOp`: `void_tag` for none, or a varnode. -/
def unpackOutput (mgr : SpaceManager) : List UInt8 → Except String (Option VarnodeData × List UInt8)
  | [] => .error "Unexpected end of packed stream"
  | b :: rest =>
    if b = t.voidTag then .ok (none, rest)
    else do
      let (v, ptr) ← unpackVarnodeData t mgr (b :: rest)
      pure (some v, ptr)

/-- `PcodeEmit::restorePackedOp`: decode one op and dump it; the result is the dumped op and
the stream past its `end_tag`. -/
def restorePackedOp (mgr : SpaceManager) (addr : Nat) (ptr : List UInt8) :
    Except String (PcodeDump × List UInt8) := do
  let ptr := ptr.drop 1
  let (oc, ptr) ← readByte ptr
  let (outptr, ptr) ← unpackOutput t mgr ptr
  let (invar, ptr) ← unpackInputs t mgr ptr.length ptr []
  pure (⟨addr, (oc.toNat : Int) - 0x20, outptr, invar⟩, ptr.drop 1)

/-! ### The format -/

/-- A varnode of a raw op: storage given by an address-space index, an offset and a size,
or a reference to an address space. -/
inductive RawVarnode
  | addrsz (index offset size : Nat)
  | spaceid (index : Nat)
  deriving DecidableEq, Repr

/-- A raw p-code op. -/
structure RawOp where
  opcode : Nat
  output : Option RawVarnode
  inputs : List RawVarnode
  deriving DecidableEq, Repr

/-- The digits of an offset: its 6-bit groups, least significant first, each plus `0x20`;
`n` bounds the number of groups. -/
def packOffsetDigits : Nat → Nat → List UInt8
  | 0, _ => []
  | n + 1, v => if v = 0 then [] else UInt8.ofNat (v % 64 + 0x20) :: packOffsetDigits n (v / 64)

/-- The packed form of a varnode. -/
def packVarnode : RawVarnode → List UInt8
  | .addrsz i off sz =>
    t.addrszTag :: UInt8.ofNat (i + 0x20) :: packOffsetDigits 11 off ++
      [t.endTag, UInt8.ofNat (sz + 0x20)]
  | .spaceid i => [t.spaceidTag, UInt8.ofNat (i + 0x20)]

/-- The packed form of an op. -/
def packOp (op : RawOp) : List UInt8 :=
  t.opTag :: UInt8.ofNat (op.opcode + 0x20) ::
    ((match op.output with
      | none => [t.voidTag]
      | some v => packVarnode t v) ++ op.inputs.flatMap (packVarnode t) ++ [t.endTag])

/-- A varnode the format can carry: every biased field fits a byte, and the offset is a
64-bit value. -/
def RawVarnode.Valid : RawVarnode → Prop
  | .addrsz i off sz => i < 0xe0 ∧ off < 2 ^ 64 ∧ sz < 0xe0
  | .spaceid i => i < 0xe0

/-- A raw op the format can carry: the op-code fits a byte, every varnode can be carried,
and there are at most 30 inputs (the size of the decoder's input array). -/
def RawOp.Valid (op : RawOp) : Prop :=
  op.opcode < 0xe0 ∧ (∀ v ∈ op.output, v.Valid) ∧ (∀ v ∈ op.inputs, v.Valid) ∧
    op.inputs.length ≤ 30

/-- The `VarnodeData` a raw varnode stands for. -/
def RawVarnode.decoded (mgr : SpaceManager) : RawVarnode → VarnodeData
  | .addrsz i off sz => ⟨i, off, sz⟩
  | .spaceid i => ⟨mgr.constantIndex, mgr.spaceRef i, 8⟩

/-! ### Offsets -/

theorem length_packOffsetDigits_le (n v : Nat) : (packOffsetDigits n v).length ≤ n := by
  induction n generalizing v with
  | zero => rfl
  | succ n ih =>
    unfold packOffsetDigits; split
    · simp
    · simpa using ih (v / 64)

theorem packOffsetDigits_eq_zero (n : Nat) : packOffsetDigits n 0 = [] := by
  cases n <;> simp [packOffsetDigits]

/-- A digit is a byte from `0x20` to `0x5f`, so never `end_tag`. -/
theorem digit_ne_endTag (v : Nat) : UInt8.ofNat (v % 64 + 0x20) ≠ t.endTag := fun h => by
  have h1 := congrArg UInt8.toNat h
  rw [UInt8.toNat_ofNat_of_lt (by show v % 64 + 0x20 < 256; omega)] at h1
  have := t.end_not_digit
  omega

/-- One digit, read back: the shifted group of the byte. -/
theorem digit_bits {v shift : Nat} (hs : v % 64 * 2 ^ shift < 2 ^ 64) (hsh : shift < 64) :
    ((((UInt8.ofNat (v % 64 + 0x20)).toNat + 2 ^ 64 - 0x20) % 2 ^ 64) <<< (shift % 64)) % 2 ^ 64 =
      v % 64 * 2 ^ shift := by
  rw [UInt8.toNat_ofNat_of_lt (by show v % 64 + 0x20 < 256; omega), Nat.mod_eq_of_lt hsh,
    Nat.shiftLeft_eq]
  have : (v % 64 + 0x20 + 2 ^ 64 - 0x20) % 2 ^ 64 = v % 64 := by omega
  rw [this, Nat.mod_eq_of_lt hs]

/-- **The offset loop reads back its digits**, at every shift and accumulator that leave
room for the value. -/
theorem unpackOffsetLoop_pack (rest : List UInt8) :
    ∀ (n v fuel shift res : Nat), v < 64 ^ n → (packOffsetDigits n v).length < fuel →
      res < 2 ^ shift → res + v * 2 ^ shift < 2 ^ 64 →
      unpackOffsetLoop t fuel shift res (packOffsetDigits n v ++ t.endTag :: rest) =
        .ok (res + v * 2 ^ shift, rest)
  | 0, v, fuel + 1, shift, res, hv, _, _, _ => by
    obtain rfl : v = 0 := by simpa using hv
    simp [packOffsetDigits, unpackOffsetLoop]
  | n + 1, v, fuel + 1, shift, res, hv, hlen, hres, hfit => by
    by_cases h0 : v = 0
    · subst h0; simp [packOffsetDigits_eq_zero, unpackOffsetLoop]
    have hdig : packOffsetDigits (n + 1) v =
        UInt8.ofNat (v % 64 + 0x20) :: packOffsetDigits n (v / 64) := by
      simp [packOffsetDigits, h0]
    have hsplit : v * 2 ^ shift = v % 64 * 2 ^ shift + v / 64 * 2 ^ (shift + 6) := by
      conv_lhs => rw [← Nat.mod_add_div v 64]
      ring
    have hlow : v % 64 * 2 ^ shift ≤ 63 * 2 ^ shift :=
      Nat.mul_le_mul_right _ (by omega)
    have hsh : shift < 64 := by
      by_contra hge
      have : 2 ^ 64 ≤ 2 ^ shift := Nat.pow_le_pow_right (by norm_num) (by omega)
      have : 2 ^ shift ≤ v * 2 ^ shift := Nat.le_mul_of_pos_left _ (by omega)
      omega
    have hpow : 2 ^ (shift + 6) = 64 * 2 ^ shift := by rw [Nat.pow_add]; ring
    rw [hdig, List.cons_append, unpackOffsetLoop, if_neg (digit_ne_endTag t v)]
    dsimp only
    have hor : res ||| v % 64 * 2 ^ shift = res + v % 64 * 2 ^ shift := by
      rw [Nat.lor_comm, Nat.mul_comm, ← Nat.mul_add_lt_is_or hres]; ring
    rw [digit_bits (by omega) hsh, hor]
    rw [unpackOffsetLoop_pack rest n (v / 64) fuel (shift + 6) _ (by
        rw [Nat.div_lt_iff_lt_mul (by norm_num)]; rw [pow_succ] at hv; exact hv)
        (by simpa [hdig] using hlen) (by omega) (by omega)]
    congr 2
    omega

/-- **Every 64-bit offset is read back from its packed form**, whatever follows it. -/
theorem unpackOffset_packOffset {off : Nat} (hoff : off < 2 ^ 64) (rest : List UInt8) :
    unpackOffset t (packOffsetDigits 11 off ++ t.endTag :: rest) = .ok (off, rest) := by
  have := unpackOffsetLoop_pack t rest 11 off 12 0 0
    (lt_of_lt_of_le hoff (by decide)) (by have := length_packOffsetDigits_le 11 off; omega)
    (by norm_num) (by simpa using hoff)
  simpa [unpackOffset] using this

/-! ### Varnodes and ops -/

/-- A biased byte read back. -/
theorem biased_byte {n : Nat} (hn : n < 0xe0) :
    ((UInt8.ofNat (n + 0x20)).toNat : Int) - 0x20 = n := by
  rw [UInt8.toNat_ofNat_of_lt (by show n + 0x20 < 256; omega)]; push_cast; ring

/-- **A varnode is read back from its packed form**, whatever follows it. -/
theorem unpackVarnodeData_packVarnode (mgr : SpaceManager) {v : RawVarnode} (hv : v.Valid)
    (rest : List UInt8) :
    unpackVarnodeData t mgr (packVarnode t v ++ rest) = .ok (v.decoded mgr, rest) := by
  cases v with
  | addrsz i off sz =>
    obtain ⟨hi, hoff, hsz⟩ := hv
    have hs : (((UInt8.ofNat (sz + 0x20)).toNat : Int) - 0x20).toNat % 2 ^ 32 = sz := by
      rw [biased_byte hsz]; simp; omega
    simp only [packVarnode, unpackVarnodeData, readByte, List.cons_append, List.append_assoc,
      List.singleton_append, if_pos, bind, Except.bind, unpackOffset_packOffset t hoff, pure,
      Except.pure, biased_byte hi, hs, RawVarnode.decoded, List.nil_append]
  | spaceid i =>
    simp only [packVarnode, unpackVarnodeData, readByte, List.cons_append, List.singleton_append,
      if_neg t.spaceid_ne_addrsz, if_pos, bind, Except.bind, pure, Except.pure,
      biased_byte (show i < 0xe0 from hv), RawVarnode.decoded, List.nil_append]

/-- A packed varnode starts with one of its two tags. -/
theorem packVarnode_head (v : RawVarnode) :
    ∃ b bs, packVarnode t v = b :: bs ∧ (b = t.addrszTag ∨ b = t.spaceidTag) := by
  cases v with
  | addrsz => exact ⟨_, _, rfl, .inl rfl⟩
  | spaceid => exact ⟨_, _, rfl, .inr rfl⟩

/-- The input loop reads back every input, up to the op's `end_tag`. -/
theorem unpackInputs_pack (mgr : SpaceManager) (rest : List UInt8) :
    ∀ (L : List RawVarnode) (fuel : Nat) (acc : List VarnodeData), (∀ v ∈ L, v.Valid) →
      L.length < fuel →
      unpackInputs t mgr fuel (L.flatMap (packVarnode t) ++ t.endTag :: rest) acc =
        .ok (acc ++ L.map (RawVarnode.decoded mgr), t.endTag :: rest)
  | [], fuel + 1, acc, _, _ => by simp [unpackInputs]
  | v :: L, fuel + 1, acc, hv, hlen => by
    obtain ⟨b, bs, hb, hbt⟩ := packVarnode_head t v
    have hne : b ≠ t.endTag := by
      rcases hbt with rfl | rfl
      exacts [t.end_ne_addrsz.symm, t.end_ne_spaceid.symm]
    have hdec := unpackVarnodeData_packVarnode t mgr (hv v (List.mem_cons_self v L))
      (L.flatMap (packVarnode t) ++ t.endTag :: rest)
    rw [List.flatMap_cons, List.append_assoc, hb, List.cons_append, unpackInputs, if_neg hne,
      ← List.cons_append, ← hb, hdec]
    simpa using unpackInputs_pack mgr rest L fuel (acc ++ [v.decoded mgr])
      (fun w hw => hv w (List.mem_cons_of_mem v hw)) (by simpa using hlen)

theorem length_lt_packed (L : List RawVarnode) (rest : List UInt8) :
    L.length < (L.flatMap (packVarnode t) ++ t.endTag :: rest).length := by
  induction L with
  | nil => simp
  | cons v L ih =>
    obtain ⟨b, bs, hb, -⟩ := packVarnode_head t v
    simp only [List.flatMap_cons, List.append_assoc, hb, List.cons_append, List.length_cons,
      List.length_append] at ih ⊢
    omega

/-- The decoder reads back an op whose fields fit the format, however many inputs it has. -/
theorem restorePackedOp_packOp_of (mgr : SpaceManager) (addr : Nat) {op : RawOp}
    (hcode : op.opcode < 0xe0) (hout : ∀ v ∈ op.output, v.Valid)
    (hin : ∀ v ∈ op.inputs, v.Valid) (rest : List UInt8) :
    restorePackedOp t mgr addr (packOp t op ++ rest) =
      .ok (⟨addr, op.opcode, op.output.map (RawVarnode.decoded mgr),
        op.inputs.map (RawVarnode.decoded mgr)⟩, rest) := by
  have hins := unpackInputs_pack t mgr rest op.inputs _ [] hin (length_lt_packed t _ rest)
  have houtput : unpackOutput t mgr ((match op.output with
      | none => [t.voidTag]
      | some v => packVarnode t v) ++ (op.inputs.flatMap (packVarnode t) ++ t.endTag :: rest)) =
      .ok (op.output.map (RawVarnode.decoded mgr), op.inputs.flatMap (packVarnode t) ++
        t.endTag :: rest) := by
    cases hv : op.output with
    | none => simp [unpackOutput]
    | some v =>
      obtain ⟨b, bs, hb, hbt⟩ := packVarnode_head t v
      have hvoid : b ≠ t.voidTag := by
        rcases hbt with rfl | rfl
        exacts [t.void_ne_addrsz.symm, t.void_ne_spaceid.symm]
      have hdec := unpackVarnodeData_packVarnode t mgr (hout v (by simp [hv]))
        (op.inputs.flatMap (packVarnode t) ++ t.endTag :: rest)
      show unpackOutput t mgr (packVarnode t v ++ _) = _
      rw [hb, List.cons_append] at hdec ⊢
      simp only [unpackOutput, if_neg hvoid, hdec, bind, Except.bind, pure, Except.pure,
        Option.map_some']
  simp only [packOp, restorePackedOp, List.cons_append, List.drop_succ_cons, List.drop_zero,
    readByte, List.append_assoc, bind, Except.bind, houtput, hins, pure, Except.pure,
    biased_byte hcode, List.singleton_append, List.nil_append]

/-- **Decoding the packed form of an op dumps that op**, once, and returns the stream just
past the op's `end_tag`, whatever follows it. -/
theorem restorePackedOp_packOp (mgr : SpaceManager) (addr : Nat) {op : RawOp} (hop : op.Valid)
    (rest : List UInt8) :
    restorePackedOp t mgr addr (packOp t op ++ rest) =
      .ok (⟨addr, op.opcode, op.output.map (RawVarnode.decoded mgr),
        op.inputs.map (RawVarnode.decoded mgr)⟩, rest) :=
  restorePackedOp_packOp_of t mgr addr hop.1 hop.2.1 hop.2.2.1 rest

/-- The tag values of the packed format as the translator writes them. -/
def packedTags : PackedTags :=
  ⟨0x22, 0x23, 0x24, 0x25, 0x60, by decide, by decide, by decide, by decide, by decide, by decide⟩

/-- A `COPY` between two 4-byte registers, followed by the next op, decodes to the copy. -/
theorem restorePackedOp_copy :
    restorePackedOp packedTags ⟨0, fun _ => 0⟩ 0x1000
      (packOp packedTags ⟨1, some (.addrsz 1 0x10 4), [.addrsz 1 0x2000 4]⟩ ++ [0x22]) =
      .ok (⟨0x1000, 1, some ⟨1, 0x10, 4⟩, [⟨1, 0x2000, 4⟩]⟩, [0x22]) :=
  restorePackedOp_packOp packedTags ⟨0, fun _ => 0⟩ 0x1000
    ⟨by decide, by simp [RawVarnode.Valid], by simp [RawVarnode.Valid], by decide⟩ [0x22]

/-! ### Reads past the decoder's bounds -/

/-- Each offset digit other than `end_tag` takes one round of the loop and six more bits of
shift. -/
theorem unpackOffsetLoop_digit {fuel shift res : Nat} {b : UInt8} (hb : b ≠ t.endTag)
    (ptr : List UInt8) :
    unpackOffsetLoop t (fuel + 1) shift res (b :: ptr) =
      unpackOffsetLoop t fuel (shift + 6)
        (res ||| (((b.toNat + 2 ^ 64 - 0x20) % 2 ^ 64) <<< (shift % 64)) % 2 ^ 64) ptr := by
  simp [unpackOffsetLoop, hb]

/-- **The decoder shifts past 64 bits and fills more than 30 input slots.** Twelve zero
digits bring `unpackOffset` to its twelfth round, at shift 66, with a digit rather than
`end_tag`, which the source shifts by 66 bits; and a packed op with 31 inputs is decoded to
31 inputs, the 31st stored past the 30 slots of `invar`. -/
theorem restorePackedOp_shift_and_overflow :
    unpackOffset packedTags (List.replicate 12 0x20 ++ [packedTags.endTag]) =
        unpackOffsetLoop packedTags 1 66 0 [0x20, packedTags.endTag] ∧
      (restorePackedOp packedTags ⟨0, fun _ => 0⟩ 0
        (packOp packedTags ⟨1, none, List.replicate 31 (.spaceid 0)⟩)).map
          (·.1.inputs.length) = .ok 31 := by
  refine ⟨by simp only [unpackOffset, List.replicate_succ, List.cons_append,
    unpackOffsetLoop_digit packedTags (by decide : (0x20 : UInt8) ≠ packedTags.endTag)]; rfl, ?_⟩
  rw [← List.append_nil (packOp _ _), restorePackedOp_packOp_of packedTags _ _ (by decide)
    (by simp) (by simp [RawVarnode.Valid])]
  rfl

end Packed

end GhidraDec
