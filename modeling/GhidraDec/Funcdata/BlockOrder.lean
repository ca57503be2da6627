import GhidraDec.Funcdata.ReadOnly
import GhidraDec.Funcdata.FlipInPlace

/-!
# Edits that Break the Block Order

The doc comments of the insertion functions of `funcdata_op.cc` promise that a block keeps its
`MULTIEQUAL`s first and every `INDIRECT` right before the op it shadows
(`GhidraDec.Funcdata.BlockInsert`). Three edits of the sources break that promise in a store
whose blocks are well formed:

* `opInsertBefore` walks back over `INDIRECT`s only, so an op other than a `MULTIEQUAL` put
  before a `MULTIEQUAL` lands in front of it;
* `Funcdata::replaceVolatile` (`funcdata_varnode.cc`) puts the `CALLOTHER` of a volatile read
  before the reader with `opInsertBefore`, and the reader may be a `MULTIEQUAL`;
* `fillinReadOnly` turns an `INDIRECT` that reads a read-only varnode in slot 0 into a `COPY`
  in place, and an `INDIRECT` just before it then no longer reaches the op it shadows.

`replaceVolatile` is modelled here. The indices of the `volatile_write` and `volatile_read`
user ops come from `UserOpManage` (outside the sources) and are parameters. The
`special_prop` flag a type-locked varnode gives the new op is not part of the store, and an
absent varnode, which the source dereferences, is left alone. Apart from the read into a
`MULTIEQUAL`, its edits keep the blocks well formed: the write rebinds the output of a placed
op, which changes no op-code, slot or place (`OutputsOnly`), and puts the new op after it.

## Main results

* `opInsertBefore_phi_breaks`: an op other than a marker put before a `MULTIEQUAL` lands
  right in front of it, and the blocks are no longer well formed;
* `replaceVolatile_before_phi`: a volatile read whose one reader is a `MULTIEQUAL` gets its
  `CALLOTHER` right before that `MULTIEQUAL`;
* `fillinReadOnly_breaks_guard`: converting an `INDIRECT` that follows another `INDIRECT`
  leaves the first without the op it shadows;
* `replaceVolatile_error`: the two failures of `replaceVolatile`, with their messages;
* `replaceVolatile_wellFormed`: a volatile write, and a volatile read whose reader is not a
  marker, keep the blocks well formed and place the `CALLOTHER` once;
* `blockOrder_breaks`: the three breaches, for every well-formed store of their shape.
-/

namespace GhidraDec

namespace Funcdata

variable {s t : Funcdata} {c : Nat} {code : OpCode}

/-! ### What the conversion of `fillinReadOnly` keeps -/

theorem getSlot_of_getIn_zero {o v : Nat} (h : s.getIn o 0 = some v) : s.getSlot o v = 0 := by
  unfold getSlot getIn at *
  cases hl : s.inrefsOf o <;> simp_all [List.indexOf_cons]

@[simp] theorem bblocks_opRemoveInput (o i : Nat) :
    (s.opRemoveInput o i).bblocks = s.bblocks := by
  unfold opRemoveInput opUnsetInput; split <;> rfl

@[simp] theorem codeOf_opRemoveInput (o i p : Nat) :
    (s.opRemoveInput o i).codeOf p = s.codeOf p := by
  simp [opRemoveInput, removeInputField]

@[simp] theorem codeOf_newConstant (sz val p : Nat) :
    (s.newConstant sz val).1.codeOf p = s.codeOf p := rfl

@[simp] theorem bblocks_newConstant (sz val : Nat) :
    (s.newConstant sz val).1.bblocks = s.bblocks := rfl

@[simp] theorem bblocks_opSetOpcode (o : Nat) (c : OpCode) :
    (s.opSetOpcode o c).bblocks = s.bblocks := rfl

theorem isSome_op_of_codeOf_ne {o : Nat} (h : s.codeOf o ≠ .max) : (s.op o).isSome := by
  cases ho : s.op o <;> simp_all [codeOf]

/-- The one reader of a read-only varnode, an `INDIRECT` reading it in slot 0 whose output is
elsewhere, becomes a `COPY`; the blocks and the op-codes of the other ops stay. -/
theorem fillinReadOnly_convert (loadFill : Address → Nat → Option (List UInt8)) {v ind : Nat}
    {x : Varnode} {bytes : List UInt8} (hx : s.vn v = some x) (hw : x.isWritten = false)
    (hl : loadFill x.loc x.size = some bytes) (hd : s.descendOf v = [ind])
    (hind : s.isIndirect ind = true) (h0 : s.getIn ind 0 = some v)
    (hout : (s.outputOf ind).bind (fun w => (s.vn w).map Varnode.loc) ≠ some x.loc) :
    (s.fillinReadOnly loadFill v).1.bblocks = s.bblocks ∧
      (s.fillinReadOnly loadFill v).1.codeOf ind = .copy ∧
      ∀ p ≠ ind, (s.fillinReadOnly loadFill v).1.codeOf p = s.codeOf p := by
  have hc := codeOf_of_isIndirect hind
  simp only [fillinReadOnly, hx, hw, hl, hd, Bool.false_eq_true, if_false, List.foldl_cons,
    List.foldl_nil, fillinReadOnlyStep, getSlot_of_getIn_zero h0, hc]
  have ho : ((s.opRemoveInput ind 1).op ind).isSome := isSome_op_of_codeOf_ne (by simp [hc])
  simp [OpCode.isMarker, hout, codeOf_opSetOpcode ho]
  exact fun p hp h => absurd h hp

/-! ### The breaches -/

/-- **An op that is neither a `MULTIEQUAL` nor an `INDIRECT`, put before a `MULTIEQUAL`, lands
right in front of it**, and the blocks are no longer well formed. -/
theorem opInsertBefore_phi_breaks (h : s.BlocksWellFormed) {o follow b : Nat}
    (hf : s.parentOf follow = some b) (hphi : s.isPhi follow = true) (ho : s.isPhi o = false)
    (hi : s.isIndirect o = false) :
    (∃ A B, ((s.opInsertBefore o follow).block b).ops = A ++ o :: follow :: B) ∧
      ¬ (s.opInsertBefore o follow).BlocksWellFormed := by
  obtain ⟨hops, hnot⟩ := opInsertBefore_before_phi h hf hphi ho hi
  have hb := ((h.parents follow b).mp hf).1
  exact ⟨hops, fun hw => hnot (hw.ops b (by simpa [opInsertBefore, hf] using hb))⟩

/-- **Converting an `INDIRECT` that follows another `INDIRECT` breaks the guard of the
first.** When the one reader `ind` of an unwritten varnode `v` with bytes in the load image is
an `INDIRECT` reading `v` in slot 0, with its output elsewhere, `fillinReadOnly` makes it a
`COPY` where it stands; the `INDIRECT` `p` right before it is then followed by the `COPY`,
not by the op it shadows. -/
theorem fillinReadOnly_breaks_guard (h : s.BlocksWellFormed)
    (loadFill : Address → Nat → Option (List UInt8)) {v ind p b : Nat} {x : Varnode}
    {bytes : List UInt8} {A B : List Nat} (hx : s.vn v = some x) (hw : x.isWritten = false)
    (hl : loadFill x.loc x.size = some bytes) (hd : s.descendOf v = [ind])
    (h0 : s.getIn ind 0 = some v)
    (hout : (s.outputOf ind).bind (fun w => (s.vn w).map Varnode.loc) ≠ some x.loc)
    (hb : b < s.bblocks.length) (hops : (s.block b).ops = A ++ p :: ind :: B)
    (hp : s.isIndirect p = true) (hind : s.isIndirect ind = true) :
    ¬ (s.fillinReadOnly loadFill v).1.BlocksWellFormed := by
  obtain ⟨hbb, hcopy, hother⟩ := fillinReadOnly_convert loadFill hx hw hl hd hind h0 hout
  have hne : p ≠ ind := by
    rintro rfl
    have hn := (h.nodup b hb).sublist (hops ▸ List.sublist_append_right A _)
    exact (List.nodup_cons.mp hn).1 (List.mem_cons_self p B)
  intro ht
  have hg := (ht.ops b (hbb ▸ hb)).guarded
  rw [block, hbb, ← block, hops] at hg
  rcases next_of_indirect hg (by simpa [isIndirect, hother p hne] using hp) with hi | he
  · simp [isIndirect, hcopy] at hi
  · simp [hcopy, OpCode.isIndirectEffect] at he

/-! ### `replaceVolatile` -/

variable (s)

/-- `Funcdata::newCodeRef`: a one-byte annotation holding the address `m`; its annotation
flag and code data-type are not part of the store. -/
def newCodeRef (m : Address) : Funcdata × Nat :=
  s.createVn { loc := m, size := 1 }

/-- `Funcdata::replaceVolatile`: a written volatile varnode `v` with no reader gives its
defining op a new `unique` output, which a new `CALLOTHER` of the `volatile_write` op,
inserted after the defining op, stores to `v`'s address; a read one with a single reader
gets a `CALLOTHER` of the `volatile_read` op, inserted before the reader, whose new `unique`
output the reader reads in place of `v`. -/
def replaceVolatile (writeIndex readIndex v : Nat) : Except String (Funcdata × Bool) :=
  match s.vn v with
  | none => .ok (s, false)
  | some x =>
    match x.defOp with
    | some defop =>
      if !x.descend.isEmpty then .error "Volatile memory was propagated"
      else
        let (s, newop) := s.newOp 3 (s.opAddr defop)
        let s := s.opSetOpcode newop .callother
        let (s, c) := s.newConstant 4 writeIndex
        let s := s.opSetInput newop c 0
        let (s, r) := s.newCodeRef x.loc
        let s := s.opSetInput newop r 1
        let (s, tmp) := s.newUnique x.size
        let s := s.opSetOutput defop tmp
        let s := s.opSetInput newop tmp 2
        .ok (s.opInsertAfter newop defop, true)
    | none =>
      if x.descend.isEmpty then .ok (s, false)
      else match s.loneDescend v with
        | none => .error "Volatile memory value used more than once"
        | some readop =>
          let (s, newop) := s.newOp 2 (s.opAddr readop)
          let s := s.opSetOpcode newop .callother
          let (s, tmp) := s.newUniqueOut x.size newop
          let (s, c) := s.newConstant 4 readIndex
          let s := s.opSetInput newop c 0
          let (s, r) := s.newCodeRef x.loc
          let s := s.opSetInput newop r 1
          let s := s.opSetInput readop tmp (s.getSlot readop v)
          .ok (s.opInsertBefore newop readop, true)

variable {s}

/-- **`replaceVolatile` fails exactly on a written varnode with a reader and on an unwritten
one with more than one reader entry**, with the source's messages. -/
theorem replaceVolatile_error (writeIndex readIndex v : Nat) (e : String) :
    s.replaceVolatile writeIndex readIndex v = .error e ↔ ∃ x, s.vn v = some x ∧
      (x.isWritten = true ∧ x.descend ≠ [] ∧ e = "Volatile memory was propagated" ∨
        x.isWritten = false ∧ 2 ≤ x.descend.length ∧
          e = "Volatile memory value used more than once") := by
  unfold replaceVolatile
  cases hv : s.vn v with
  | none => simp
  | some x =>
    have hl : s.descendOf v = x.descend := by simp [descendOf, hv]
    cases hd : x.defOp with
    | some defop =>
      cases hs : x.descend
      · simp [Varnode.isWritten, hd, hs]
      · simp [Varnode.isWritten, hd, hs]; exact eq_comm
    | none =>
      rcases hs : x.descend with _ | ⟨a, _ | ⟨b, l⟩⟩
      · simp [hs, Varnode.isWritten, hd]
      · simp [loneDescend, hl, hs, Varnode.isWritten, hd]
      · simp [loneDescend, hl, hs, Varnode.isWritten, hd]; exact eq_comm

/-! ### The steps of `replaceVolatile` -/

/-- `t` is `s` with only the outputs of ops and the defining ops of varnodes changed. -/
structure OutputsOnly (s t : Funcdata) : Prop where
  bblocks : t.bblocks = s.bblocks
  op : ∀ p, (t.op p).map ({ · with output := none }) = (s.op p).map ({ · with output := none })
  vlen : t.vbank.length = s.vbank.length
  storageOf : ∀ x, t.storageOf x = s.storageOf x

theorem OutputsOnly.refl (s : Funcdata) : OutputsOnly s s :=
  ⟨rfl, fun _ => rfl, rfl, fun _ => rfl⟩

theorem OutputsOnly.trans {u : Funcdata} (h₁ : OutputsOnly s t) (h₂ : OutputsOnly t u) :
    OutputsOnly s u :=
  ⟨h₂.bblocks.trans h₁.bblocks, fun p => (h₂.op p).trans (h₁.op p), h₂.vlen.trans h₁.vlen,
    fun x => (h₂.storageOf x).trans (h₁.storageOf x)⟩

theorem outputsOnly_setOutputField (o : Nat) (y : Option Nat) :
    OutputsOnly s (s.setOutputField o y) := by
  refine ⟨rfl, fun p => ?_, rfl, fun x => storageOf_setOutputField ..⟩
  simp only [setOutputField, op_modifyOp]
  split_ifs with hp
  · subst hp; cases s.op p <;> rfl
  · rfl

theorem outputsOnly_setDefField (w : Nat) (d : Option Nat) :
    OutputsOnly s (s.setDefField w d) :=
  ⟨rfl, fun p => by rw [op_setDefField], length_vbank_modifyVn ..,
    fun x => storageOf_setDefField ..⟩

theorem outputsOnly_opUnsetOutput (o : Nat) : OutputsOnly s (s.opUnsetOutput o) := by
  unfold opUnsetOutput
  split
  · exact .refl s
  · exact outputsOnly_setOutputField _ _ |>.trans (outputsOnly_setDefField _ _)

theorem OutputsOnly.opUnsetOutput (h : OutputsOnly s t) (o : Nat) :
    OutputsOnly s (t.opUnsetOutput o) :=
  h.trans (outputsOnly_opUnsetOutput o)

theorem outputsOnly_opSetOutput (o w : Nat) : OutputsOnly s (s.opSetOutput o w) := by
  have bind : ∀ {t}, OutputsOnly s t →
      OutputsOnly s ((t.setDefField w (some o)).setOutputField o (some w)) :=
    fun h => (h.trans (outputsOnly_setDefField _ _)).trans (outputsOnly_setOutputField _ _)
  unfold opSetOutput
  split_ifs
  · exact .refl s
  all_goals
    dsimp only
    split
  · exact bind (((OutputsOnly.refl s).opUnsetOutput o).opUnsetOutput _)
  · exact bind ((OutputsOnly.refl s).opUnsetOutput o)
  · exact bind ((OutputsOnly.refl s).opUnsetOutput _)
  · exact bind (.refl s)

theorem OutputsOnly.field {α : Type} (h : OutputsOnly s t) (f : PcodeOp → α)
    (hf : ∀ q, f { q with output := none } = f q) (p : Nat) :
    (t.op p).map f = (s.op p).map f := by
  have := congrArg (Option.map f) (h.op p)
  simpa [Option.map_map, Function.comp_def, hf] using this

theorem OutputsOnly.parentOf (h : OutputsOnly s t) (p : Nat) : t.parentOf p = s.parentOf p := by
  have := h.field PcodeOp.parent (fun _ => rfl) p
  cases ht : t.op p <;> cases hs : s.op p <;> simp_all [Funcdata.parentOf]

theorem OutputsOnly.codeOf (h : OutputsOnly s t) (p : Nat) : t.codeOf p = s.codeOf p := by
  simp only [Funcdata.codeOf, h.field PcodeOp.code (fun _ => rfl) p]

theorem OutputsOnly.getIn (h : OutputsOnly s t) (p j : Nat) : t.getIn p j = s.getIn p j := by
  simp only [Funcdata.getIn, Funcdata.inrefsOf, h.field PcodeOp.inrefs (fun _ => rfl) p]

theorem OutputsOnly.isSome_op (h : OutputsOnly s t) (p : Nat) :
    (t.op p).isSome = (s.op p).isSome := by
  simpa using congrArg Option.isSome (h.op p)

theorem BlocksWellFormed.kept_outputsOnly (h : s.BlocksWellFormed) (ho : OutputsOnly s t) :
    BlocksKept s t :=
  h.blocksKept ho.bblocks ho.parentOf (fun p _ => ⟨ho.codeOf p, fun _ => ho.getIn p 1⟩)
    fun x _ => ho.storageOf x

section Building

variable (h : s.BlocksWellFormed)
include h

theorem Built.opSetOutput (hc : Built s t c code) (o w : Nat) :
    Built s (t.opSetOutput o w) c code :=
  ⟨hc.kept.trans ((hc.wellFormed h).kept_outputsOnly (outputsOnly_opSetOutput o w)), hc.fresh,
    by rw [(outputsOnly_opSetOutput o w).isSome_op]; exact hc.live,
    by rw [(outputsOnly_opSetOutput o w).codeOf, hc.code]⟩

theorem Built.newUnique (hc : Built s t c code) (sz : Nat) : Built s (t.newUnique sz).1 c code :=
  (⟨⟨hc.kept.bblocks, hc.kept.parents, hc.kept.placed⟩, hc.fresh, hc.live, hc.code⟩ :
    Built s { t with uniqId := t.uniqId + sz } c code).createVn h _

end Building

/-- A built op that is not a marker, put before a `MULTIEQUAL` `follow` after a slot of
`follow` is rewritten, lands right in front of it and breaks the blocks. -/
theorem Built.opInsertBefore_phi {b follow : Nat}
    (h : s.BlocksWellFormed) (hc : Built s t c code) (hm : code.isMarker = false)
    (hf : s.parentOf follow = some b) (hphi : s.isPhi follow = true) (w i : Nat) :
    ((t.opSetInput follow w i).opInsertBefore c follow).codeOf c = code ∧
      (∃ A B, (((t.opSetInput follow w i).opInsertBefore c follow).block b).ops =
        A ++ c :: follow :: B) ∧
      ¬ ((t.opSetInput follow w i).opInsertBefore c follow).BlocksWellFormed := by
  have hp : (s.parentOf follow).isSome := by rw [hf]; rfl
  have hind : t.isIndirect follow = false := by
    rw [isIndirect, hc.kept.codeOf_eq hp, codeOf_of_isPhi hphi]; rfl
  have hk : BlocksKept s (t.opSetInput follow w i) := hc.kept.trans
    ((hc.wellFormed h).kept_opSetInput (fun _ hi => absurd hi (by simp [hind])) w)
  have hfu := (hk.parents follow).trans hf
  have hcode : (t.opSetInput follow w i).codeOf c = code := by rw [codeOf_opSetInput, hc.code]
  exact ⟨by simp [opInsertBefore, hfu, hcode], opInsertBefore_phi_breaks (h.kept hk) hfu
    ((hk.isPhi_eq hp).trans hphi) (isPhi_of_codeOf hcode hm) (isIndirect_of_codeOf hcode hm)⟩

/-- **A volatile read whose one reader is a `MULTIEQUAL` gets its `CALLOTHER` right before
the `MULTIEQUAL`**, and the blocks are no longer well formed. -/
theorem replaceVolatile_before_phi (h : s.BlocksWellFormed) (writeIndex readIndex : Nat)
    {v readop b : Nat} {x : Varnode} (hx : s.vn v = some x) (hw : x.defOp = none)
    (hd : s.descendOf v = [readop]) (hf : s.parentOf readop = some b)
    (hphi : s.isPhi readop = true) :
    ∃ t, s.replaceVolatile writeIndex readIndex v = .ok (t, true) ∧
      t.codeOf s.obank.length = .callother ∧
      (∃ A B, (t.block b).ops = A ++ s.obank.length :: readop :: B) ∧ ¬ t.BlocksWellFormed := by
  have hdesc : x.descend = [readop] := by simpa [descendOf, hx] using hd
  have hlone : s.loneDescend v = some readop := by simp [loneDescend, hd]
  unfold replaceVolatile
  simp only [hx, hw, hdesc, hlone, List.isEmpty_cons, Bool.false_eq_true, if_false]
  refine ⟨_, rfl, Built.opInsertBefore_phi h ((((((built_newOp h 2 _ .callother).newUniqueOut h
    _ _).createVn h _).opSetInput h _ 0).createVn h _).opSetInput h _ 1) rfl hf hphi _ _⟩

/-! ### A guarded call -/

/-- A load image of zero bytes. -/
def zeroImage (_ : Address) (n : Nat) : Option (List UInt8) := some (List.replicate n 0)

/-- A block reached from two empty blocks: a `MULTIEQUAL` (op 0) of the input registers
`v0` and `v1`, then a `CALL` (op 3) guarded by two `INDIRECT`s (ops 1 and 2); the second reads
the read-only varnode `v6` at `0x1000`. Op 4 is a detached `COPY`. -/
def guardedCall : Funcdata where
  glb := ⟨⟨0, .constant, 2 ^ 64 - 1, false, 1⟩, ⟨1, .internal, 2 ^ 64 - 1, false, 1⟩,
    ⟨2, .iop, 2 ^ 64 - 1, false, 1⟩, rfl, rfl, rfl⟩
  vbank := [
    some { loc := ⟨codeAddr.space, 0⟩, size := 4, descend := [0], input := true },
    some { loc := ⟨codeAddr.space, 4⟩, size := 4, descend := [0], input := true },
    some { loc := ⟨codeAddr.space, 8⟩, size := 4, defOp := some 0 },
    some { loc := ⟨codeAddr.space, 12⟩, size := 4, descend := [1], input := true },
    some { loc := ⟨⟨2, .iop, 2 ^ 64 - 1, false, 1⟩, 3⟩, size := 8, descend := [1] },
    some { loc := ⟨codeAddr.space, 12⟩, size := 4, defOp := some 1 },
    some { loc := ⟨ramBE, 0x1000⟩, size := 4, descend := [2] },
    some { loc := ⟨⟨2, .iop, 2 ^ 64 - 1, false, 1⟩, 3⟩, size := 8, descend := [2] },
    some { loc := ⟨codeAddr.space, 16⟩, size := 4, defOp := some 2 },
    some { loc := ⟨ramBE, 0x2000⟩, size := 4, descend := [3] }]
  obank := [
    some { code := .multiequal, addr := codeAddr, inrefs := [some 0, some 1],
           output := some 2, parent := some 0 },
    some { code := .indirect, addr := codeAddr, inrefs := [some 3, some 4], output := some 5,
           parent := some 0 },
    some { code := .indirect, addr := codeAddr, inrefs := [some 6, some 7], output := some 8,
           parent := some 0 },
    some { code := .call, addr := codeAddr, inrefs := [some 9], parent := some 0 },
    some { code := .copy, addr := codeAddr, inrefs := [none] }]
  bblocks := [{ ops := [0, 1, 2, 3], inEdges := [1, 2] }, { }, { }]
  uniqId := 0

/-- **Three edits break the block order of a well-formed store**: `opInsertBefore` of an op
that is neither a `MULTIEQUAL` nor an `INDIRECT` before a `MULTIEQUAL`; `replaceVolatile` of
an unwritten varnode whose one reader is a `MULTIEQUAL`, which puts its `CALLOTHER` (the new
op `s.obank.length`) right before that reader; and `fillinReadOnly` of an unwritten varnode
with bytes in the load image whose one reader is an `INDIRECT` reading it in slot 0, with its
output elsewhere, right after another `INDIRECT` of its block. -/
theorem blockOrder_breaks (h : s.BlocksWellFormed) :
    (∀ o follow b, s.parentOf follow = some b → s.isPhi follow = true → s.isPhi o = false →
      s.isIndirect o = false → ¬ (s.opInsertBefore o follow).BlocksWellFormed) ∧
    (∀ writeIndex readIndex v readop b (x : Varnode), s.vn v = some x → x.defOp = none →
      s.descendOf v = [readop] → s.parentOf readop = some b → s.isPhi readop = true →
      ∃ t, s.replaceVolatile writeIndex readIndex v = .ok (t, true) ∧
        (∃ A B, (t.block b).ops = A ++ s.obank.length :: readop :: B) ∧
        ¬ t.BlocksWellFormed) ∧
    (∀ (loadFill : Address → Nat → Option (List UInt8)) v ind p b (x : Varnode) bytes A B,
      s.vn v = some x → x.isWritten = false → loadFill x.loc x.size = some bytes →
      s.descendOf v = [ind] → s.getIn ind 0 = some v →
      (s.outputOf ind).bind (fun w => (s.vn w).map Varnode.loc) ≠ some x.loc →
      b < s.bblocks.length → (s.block b).ops = A ++ p :: ind :: B →
      s.isIndirect p = true → s.isIndirect ind = true →
      ¬ (s.fillinReadOnly loadFill v).1.BlocksWellFormed) :=
  ⟨fun _ _ _ hf hphi ho hi => (opInsertBefore_phi_breaks h hf hphi ho hi).2,
    fun wi ri _ _ _ _ hx hw hd hf hphi =>
      let ⟨t, ht, _, hops, hnot⟩ := replaceVolatile_before_phi h wi ri hx hw hd hf hphi
      ⟨t, ht, hops, hnot⟩,
    fun loadFill _ _ _ _ _ _ _ _ hx hw hl hd h0 hout hb hops hp hind =>
      fillinReadOnly_breaks_guard h loadFill hx hw hl hd h0 hout hb hops hp hind⟩

/-- The three breaches in `guardedCall`: the detached `COPY` before the `MULTIEQUAL`, the
volatile read of `v0`, and the read-only `v6` filled in with zeros. -/
theorem blockOrder_breaks_guardedCall :
    guardedCall.BlocksWellFormed ∧ Linked guardedCall ∧ guardedCall.Detached 4 ∧
      ¬ (guardedCall.opInsertBefore 4 0).BlocksWellFormed ∧
      (∃ t, guardedCall.replaceVolatile 0 1 0 = .ok (t, true) ∧
        (∃ A B, (t.block 0).ops = A ++ 5 :: 0 :: B) ∧ ¬ t.BlocksWellFormed) ∧
      ¬ (guardedCall.fillinReadOnly zeroImage 6).1.BlocksWellFormed :=
  have h : guardedCall.BlocksWellFormed := BlocksWellFormed.of_check (by decide)
  ⟨h, Linked.of_check (by decide), by decide,
    (blockOrder_breaks h).1 4 0 0 rfl rfl rfl rfl,
    (blockOrder_breaks h).2.1 0 1 0 0 0 _ rfl rfl rfl rfl rfl,
    (blockOrder_breaks h).2.2 zeroImage 6 2 1 0 _ _ [0] [3] rfl rfl rfl rfl rfl (by decide)
      (by decide) rfl rfl rfl⟩

end Funcdata

end GhidraDec
