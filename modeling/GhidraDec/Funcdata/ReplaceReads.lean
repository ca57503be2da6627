import GhidraDec.Funcdata.ReaderWalk

/-!
# Rewriting the Reads of a Varnode

Three edits of `funcdata_varnode.cc` walk the reader list of a varnode `v` and rewrite each
read: `totalReplace` makes it a read of another varnode, `totalReplaceConstant` a read of a
constant, and `descend2Undef` (used when unreachable blocks are removed) a read of the
placeholder constant `0xBADDEF`. A marker op (`MULTIEQUAL`, `INDIRECT`) may not read a
constant, so the last two route such a read through a new `COPY`: `totalReplaceConstant`
builds one `COPY` for all marker reads and puts it after the definition of `v` (or at the
head of the entry block), `descend2Undef` builds one per read and puts it at the end of the
predecessor block the `MULTIEQUAL` slot comes from, or before the `INDIRECT`.

The source walks the live reader list while each step erases the entry it has just
passed; as for `totalReplace` (`Linked.totalReplace_loop`), the models walk a copy of the
list taken on entry, which visits the same ops in the same order.

The loops are analysed once. A step first builds new objects, which leaves every slot,
reader list, storage and op-code of the objects already there as it was (`Extends`), and
then rewrites one slot reading `v` with `opSetInput` (`ReadsRewritten.step`). The invariant of
the walk (`ReadsRewritten`) says that every slot that read `v` on entry still reads it or
has been rewritten as the edit promises, and that every other slot is untouched; since the
walk empties the reader list of `v`, no slot reads `v` at the end.

## Main results

* `totalReplace_rewrites`: after `totalReplace v newv` no op reads `v`, every slot that
  read `v` reads `newv` or a fresh copy of the constant `newv` that only this slot reads,
  and no other slot changed;
* `totalReplaceConstant_rewrites`: after `totalReplaceConstant v val` no op reads `v`,
  every slot of a non-marker op that read `v` reads its own new constant `val`, and every
  slot of a marker op that read `v` reads the output of one `COPY` of `val`, which sits in
  the block of the definition of `v` after it, or in the entry block right after its
  `MULTIEQUAL`s;
* `totalReplaceConstant_entryLoop_after_phi`: when the entry block begins with a
  `MULTIEQUAL`, the `COPY` for an unwritten varnode is not at its start;
* `descend2Undef_flag_badConstant`: `descend2Undef` gives a one-byte varnode the
  placeholder `0xBADDEF`, which is no value of one byte.
-/

namespace GhidraDec

namespace Funcdata

variable (s : Funcdata)

/-! ### Addresses and sizes the edits read -/

/-- The model's stand-in for the invalid address (`Address()`), which names no space:
offset 0 of the constant space. Only a block without a range and an absent op have it. -/
def invalidAddr : Address := ⟨s.glb.constantSpace, 0⟩

/-- The start address of block `b` (`BlockBasic::getStart`). -/
def blockStart (b : Nat) : Address := (s.block b).start.getD s.invalidAddr

/-- The address of op `o` (`PcodeOp::getAddr`). -/
def opAddr (o : Nat) : Address := ((s.op o).map PcodeOp.addr).getD s.invalidAddr

/-- The size of varnode `v` in bytes (`Varnode::getSize`). -/
def vnSize (v : Nat) : Nat := ((s.vn v).map Varnode.size).getD 0

/-! ### `totalReplaceConstant` -/

/-- The detached `COPY` of the constant `val` into a new `unique` varnode of the size of `v`
that `totalReplaceConstant` builds at address `pc`: the store, the op and its output. -/
def newConstantCopy (v val : Nat) (pc : Address) : Funcdata × Nat × Nat :=
  let (s, copyop) := s.newOp 1 pc
  let s := s.opSetOpcode copyop .copy
  let (s, newrep) := s.newUniqueOut (s.vnSize v) copyop
  let (s, c) := s.newConstant (s.vnSize v) val
  (s.opSetInput copyop c 0, copyop, newrep)

/-- The `COPY` for the marker readers of `v`: after the definition of `v` when `v` is
written, at the start of block 0 otherwise. -/
def placeConstantCopy (v val : Nat) : Funcdata × Nat × Nat :=
  match s.defOf v with
  | some d =>
    let (s, copyop, newrep) := s.newConstantCopy v val (s.opAddr d)
    (s.opInsertAfter copyop d, copyop, newrep)
  | none =>
    let (s, copyop, newrep) := s.newConstantCopy v val (s.blockStart 0)
    (s.opInsertBegin copyop 0, copyop, newrep)

/-- One reader `o` of `v` in `totalReplaceConstant`. The second component is the `COPY`
built for the first marker reader and its output (`copyop`, and `copyop->getOut()`, which
no later step changes). -/
def totalReplaceConstantStep (v val : Nat) :
    Funcdata × Option (Nat × Nat) → Nat → Funcdata × Option (Nat × Nat)
  | (s, copy), o =>
    let i := s.getSlot o v
    if (s.codeOf o).isMarker then
      match copy with
      | some (_, newrep) => (s.opSetInput o newrep i, copy)
      | none =>
        let (s, copyop, newrep) := s.placeConstantCopy v val
        (s.opSetInput o newrep i, some (copyop, newrep))
    else
      let (s, newrep) := s.newConstant (s.vnSize v) val
      (s.opSetInput o newrep i, copy)

/-- `totalReplaceConstant`: every read of `v` becomes a read of the constant `val`, through
a single `COPY` for the marker ops. -/
def totalReplaceConstant (v val : Nat) : Funcdata :=
  ((s.descendOf v).foldl (totalReplaceConstantStep v val) (s, none)).1

/-! ### `descend2Undef` -/

/-- The `COPY` of the placeholder `badconst` into a new `unique` varnode of `size` bytes
that `descend2Undef` builds at `pc` for a marker reader: the store, the op and its
output. -/
def undefCopy (badconst size : Nat) (pc : Address) : Funcdata × Nat × Nat :=
  let (s, copyop) := s.newOp 1 pc
  let (s, inputvn) := s.newUniqueOut size copyop
  ((s.opSetOpcode copyop .copy).opSetInput copyop badconst 0, copyop, inputvn)

/-- One reader `o` of `v` in `descend2Undef`, with the flag `res`. A reader in a dead block
is skipped; the source reads the parent block of the reader without a check, and the model
leaves a reader outside every block alone, as it leaves the `MULTIEQUAL` alone whose slot
has no incoming edge of its block. -/
def descend2UndefStep (v size : Nat) : Funcdata × Bool → Nat → Funcdata × Bool
  | (s, res), o =>
    match s.op o with
    | none => (s, res)
    | some p =>
      match p.parent with
      | none => (s, res)
      | some b =>
        if (s.block b).dead then (s, res)
        else
          let res := res || !(s.block b).inEdges.isEmpty
          let i := s.getSlot o v
          let (s, badconst) := s.newConstant size 0xBADDEF
          if p.code = .multiequal then
            match (s.block b).inEdges[i]? with
            | none => (s, res)
            | some inbl =>
              let (s, copyop, inputvn) := s.undefCopy badconst size (s.blockStart inbl)
              ((s.opInsertEnd copyop inbl).opSetInput o inputvn i, res)
          else if p.code = .indirect then
            let (s, copyop, inputvn) := s.undefCopy badconst size p.addr
            ((s.opInsertBefore copyop o).opSetInput o inputvn i, res)
          else (s.opSetInput o badconst i, res)

/-- `descend2Undef`: every read of `v` from a live block becomes a read of the constant
`0xBADDEF` of the size of `v`; the flag tells whether a reader's block has an incoming
edge. -/
def descend2Undef (v : Nat) : Funcdata × Bool :=
  (s.descendOf v).foldl (descend2UndefStep v (s.vnSize v)) (s, false)

variable {s} {o v w i x : Nat} {s₀ t t₁ : Funcdata}

/-! ### `totalReplace` -/

/-- What a slot of op `p` reads after `totalReplace v newv` from `s₀` in place of `v`:
`newv`, or, when `newv` is a constant that is not a spacebase, a new constant with its
value and size that only `p` reads. -/
def ReplacedBy (s₀ : Funcdata) (newv : Nat) (t : Funcdata) (p w : Nat) : Prop :=
  w = newv ∨ ∃ x, s₀.vn newv = some x ∧ x.isConstant = true ∧ x.spacebase = false ∧
    s₀.vbank.length ≤ w ∧ t.storageOf w = some (⟨s₀.glb.constantSpace, x.offset⟩, x.size) ∧
    t.descendOf w = [p]

/-- What `totalReplace v newv` does from `s`, as seen in `t`: `v` has no reader left, every
slot that read `v` reads `newv` or its private copy (`ReplacedBy`), and every other slot is
as it was. -/
structure TotalReplaced (s : Funcdata) (v newv : Nat) (t : Funcdata) : Prop where
  readers : t.descendOf v = []
  reads : ∀ p k, s.getIn p k = some v → ∃ w, t.getIn p k = some w ∧ ReplacedBy s newv t p w
  other : ∀ p < s.obank.length, ∀ k, s.getIn p k ≠ some v → t.getIn p k = s.getIn p k

/-- The walk of `totalReplace`. -/
theorem totalReplace_walk {newv : Nat} (hne : newv ≠ v) (hw : (s₀.vn newv).isSome) :
    ∀ (R : List Nat) {t : Funcdata}, ReadsRewritten s₀ t v (ReplacedBy s₀ newv) R →
      ReadsRewritten s₀ (R.foldl (fun s o => s.opSetInput o newv (s.getSlot o v)) t) v
        (ReplacedBy s₀ newv) []
  | [], _, hR => hR
  | o :: R, t, hR => by
    have hnew := lt_of_vn_isSome hw
    have hwt : (t.vn newv).isSome := by rw [isSome_vn_of_bodyOf (hR.bodyOf newv hnew)]; exact hw
    have hi := hR.getIn_getSlot
    have hne' : t.getIn o (t.getSlot o v) ≠ some newv := by
      rw [hi]; exact fun e => hne (Option.some.inj e).symm
    have hcand := t.inputCandidate_snd newv
    refine totalReplace_walk hne hw R (hR.step (.refl t) hR.linked hwt hne ?_ ?_)
    · rcases t.inputCandidate_spec newv with ⟨hc, -⟩ | ⟨y, hy, hyc, -, hys, hc⟩
      · exact .inl (by rw [hc])
      · obtain ⟨x, hx⟩ := Option.isSome_iff_exists.mp hw
        have hb := hR.bodyOf newv hnew
        simp only [bodyOf, hx, hy, Option.map_some', Option.some.injEq, Varnode.body,
          Varnode.mk.injEq] at hb
        obtain ⟨hloc, hsize, -, -, -, hsb, -⟩ := hb
        refine .inr ⟨x, hx, by simpa [Varnode.isConstant, hloc] using hyc, hsb ▸ hys,
          by rw [hc]; exact hR.vlen, ?_, ?_⟩
        · rw [opSetInput_of_ne hne', hc, storageOf_relinkInput]
          simp [newConstant, hR.glb, Varnode.offset, hloc, hsize]
        · rw [descendOf_opSetInput hR.linked.readers hne' hwt, if_pos rfl, hc]
          simp [descendOf, vn_eq_none_of_le (le_refl t.vbank.length)]
    · rintro p x hxv (rfl | ⟨x', hx', hc, hs, hlen, hst, hd⟩)
      · exact .inl rfl
      · have hxt := lt_of_storageOf hst
        refine .inr ⟨x', hx', hc, hs, hlen, by rw [storageOf_opSetInput hxt, hst], ?_⟩
        rw [descendOf_opSetInput hR.linked.readers hne' hwt, if_neg, if_neg, hd]
        · rw [hi]; exact fun e => hxv (Option.some.inj e).symm
        · rcases hcand with h | h <;> rw [h] <;> [have := lt_of_vn_isSome hw; skip] <;> omega

/-- **`totalReplace` rewrites every read of `v`, and nothing else.** Afterwards no op reads
`v`; every slot that read `v` reads `newv`, or, where `newv` is a constant that is not a
spacebase and already had a reader, a new constant with its value and size that only this
op reads; every other slot of every op is as it was. -/
theorem totalReplace_rewrites (h : Linked s) {newv : Nat} (hw : (s.vn newv).isSome)
    (hne : newv ≠ v) : TotalReplaced s v newv (s.totalReplace v newv) := by
  have hR := totalReplace_walk hne hw _ (ReadsRewritten.start h v)
  exact ⟨hR.readers, fun p k h0 => hR.finish (lt_of_getIn_eq_some h0) h0, hR.other⟩

/-! ### The `COPY` of `totalReplaceConstant` -/

theorem vnSize_eq_of_bodyOf (h : t.bodyOf x = s.bodyOf x) : t.vnSize x = s.vnSize x := by
  have := congrArg (Option.map Varnode.size) h
  simpa [bodyOf, vnSize, Option.map_map, Function.comp_def, Varnode.body] using
    congrArg (Option.getD · 0) this

/-- `newConstantCopy` with its intermediate stores. -/
theorem newConstantCopy_eq (v val : Nat) (pc : Address) :
    s.newConstantCopy v val pc =
      let s₁ := (s.newOp 1 pc).1.opSetOpcode s.obank.length .copy
      let s₂ := (s₁.newUniqueOut (s₁.vnSize v) s.obank.length).1
      ((s₂.newConstant (s₂.vnSize v) val).1.opSetInput s.obank.length s₂.vbank.length 0,
        s.obank.length, s₁.vbank.length) := rfl

/-- What `newConstantCopy` builds from `s`, in `t`: `t` only adds to `s` and keeps its blocks
and parents; the new op `c` sits in no block and is a `COPY` whose slot 0 reads a new
constant holding `val` with the size of `v`, and whose output is a new varnode `u` without
readers in the `unique` space. -/
structure CopyBuilt (s t : Funcdata) (v val c u : Nat) : Prop where
  linked : Linked t
  ext : Extends s t
  bblocks : t.bblocks = s.bblocks
  parents : ∀ q, t.parentOf q = s.parentOf q
  fresh : c = s.obank.length
  code : t.codeOf c = .copy
  output : t.outputOf c = some u
  outFresh : u = s.vbank.length
  outStorage : t.storageOf u = some (⟨s.glb.uniqueSpace, s.uniqId⟩, s.vnSize v)
  outReaders : t.descendOf u = []
  input : ∃ k, t.getIn c 0 = some k ∧
    t.storageOf k = some (⟨s.glb.constantSpace, val⟩, s.vnSize v)

theorem newConstantCopy_built (h : Linked s) (hv : v < s.vbank.length) (val : Nat)
    (pc : Address) :
    CopyBuilt s (s.newConstantCopy v val pc).1 v val (s.newConstantCopy v val pc).2.1
      (s.newConstantCopy v val pc).2.2 := by
  rw [newConstantCopy_eq]
  dsimp only
  -- the new `COPY`, not yet linked
  set c := s.obank.length
  set s₁ := (s.newOp 1 pc).1.opSetOpcode c .copy with hs₁
  have hop₁ : s₁.op c = some { code := .copy, addr := pc, inrefs := [none] } := by
    simp [hs₁, Funcdata.opSetOpcode, newOp, c]
  have hL₁ : Linked s₁ := (h.newOp 1 pc).opSetOpcode c .copy
  have hE₁ : Extends s s₁ := (extends_createOp _).opSetOpcode le_rfl .copy
  -- its output
  set s₂ := (s₁.newUniqueOut (s₁.vnSize v) c).1 with hs₂
  have hL₂ : Linked s₂ := hL₁.newUniqueOut (by simp [hop₁]) (by simp [outputOf, hop₁]) _
  have hE₂ : Extends s s₂ := hE₁.trans (extends_newUniqueOut ..)
  have hv₁ : s₁.vbank.length = s.vbank.length := rfl
  have hlen₂ : s₂.vbank.length = s.vbank.length + 1 := by simp [hs₂, hv₁]
  -- the constant
  set s₃ := (s₂.newConstant (s₂.vnSize v) val).1 with hs₃
  have hL₃ : Linked s₃ := hL₂.newConstant _ _
  have hE₃ : Extends s s₃ := hE₂.trans (extends_createVn _)
  have hk : (s₃.vn s₂.vbank.length).isSome := by simp [hs₃, newConstant]
  have hc₁ : c < s₁.obank.length := by
    simp [hs₁, Funcdata.opSetOpcode, modifyOp, newOp, createOp, c]
  have hin₃ : s₃.getIn c 0 = none :=
    ((extends_createVn _).getIn c (hc₁.trans_le (extends_newUniqueOut ..).olen) 0).trans
      (((extends_newUniqueOut ..).getIn c hc₁ 0).trans (by simp [getIn, inrefsOf, hop₁]))
  -- linking the constant
  have hcand : (s₃.inputCandidate s₂.vbank.length).2 = s₂.vbank.length := by
    rw [inputCandidate_of_descend_nil (by simp [hs₃, newConstant])]
  have hne : s₃.getIn c 0 ≠ some s₂.vbank.length := by rw [hin₃]; exact fun e => by cases e
  have hinr : s₃.inrefsOf c = [none] := by
    show s₂.inrefsOf c = _
    simp [inrefsOf, hs₂, op_newUniqueOut, hop₁]
  have hp₁ : ∀ q, s₁.parentOf q = s.parentOf q := fun q => by
    rw [hs₁, parentOf_opSetOpcode]
    show (s.createOp _).1.parentOf q = _
    rw [parentOf_createOp]
    split_ifs with hq
    · simp [hq, parentOf, op_eq_none_of_le le_rfl]
    · rfl
  have hp₃ : ∀ q, s₃.parentOf q = s₁.parentOf q := fun q => by
    simp only [hs₃, hs₂, newConstant, newUniqueOut, newVarnodeOut, parentOf_createVn,
      parentOf_setOutputField]
    rfl
  have hlen₃ : s₃.vbank.length = s₂.vbank.length + 1 := by simp [hs₃, newConstant]
  have hsize : s₂.vnSize v = s.vnSize v := vnSize_eq_of_bodyOf (hE₂.bodyOf v hv)
  refine ⟨hL₃.opSetInput hk (by simp [hinr]), hE₃.opSetInput h.readers hL₃.readers le_rfl
    (by omega) hk, (bblocks_opSetInput ..).trans rfl,
    fun q => by rw [parentOf_opSetInput, hp₃, hp₁], rfl, ?_, ?_, rfl, ?_, ?_,
    ⟨s₂.vbank.length, ?_, ?_⟩⟩
  · rw [codeOf_opSetInput]
    show s₂.codeOf c = _
    simp [codeOf, hs₂, op_newUniqueOut, hop₁]
  · rw [outputOf_opSetInput]
    show s₂.outputOf c = _
    simp [outputOf, hs₂, op_newUniqueOut, hop₁]
  · rw [storageOf_opSetInput (by omega)]
    show (s₂.createVn _).1.storageOf _ = _
    rw [storageOf_createVn, if_neg (by omega)]
    simp [storageOf, hs₂, vn_newUniqueOut]
    exact ⟨⟨rfl, rfl⟩, rfl⟩
  · rw [descendOf_opSetInput hL₃.readers hne hk, hcand, if_neg (by omega), hin₃]
    show (s₂.createVn _).1.descendOf _ = _
    simp [descendOf, hs₂, vn_newUniqueOut, hlen₂, hv₁]
  · rw [getIn_opSetInput hne, if_pos ⟨rfl, rfl, by simp [hinr]⟩, hcand]
  · rw [storageOf_opSetInput (by simp [hs₃, newConstant])]
    simp [hs₃, newConstant, hsize]
    rfl

/-! ### The walk of `totalReplaceConstant` -/

/-- What a slot of op `p` reads after `totalReplaceConstant v val` from `s₀` in place of `v`,
given the `COPY` built so far and its output: for an op that is not a marker, a new
constant `val` with the size of `v` that only `p` reads; for a marker, the output of the
`COPY`. -/
def ConstantRead (s₀ : Funcdata) (v val : Nat) (copy : Option (Nat × Nat)) (t : Funcdata)
    (p w : Nat) : Prop :=
  if (s₀.codeOf p).isMarker then copy.map Prod.snd = some w
  else s₀.vbank.length ≤ w ∧
    t.storageOf w = some (⟨s₀.glb.constantSpace, val⟩, s₀.vnSize v) ∧ t.descendOf w = [p]

/-- The `COPY` `c` with output `u` that `totalReplaceConstant v val` builds from `s₀`, as it
is in `t`: a new op whose slot 0 reads the constant `val` with the size of `v` and whose
output is the next `unique` varnode, placed after the definition of `v` in its block or,
when `v` is unwritten, in block 0 right after the `MULTIEQUAL`s it begins with. -/
structure CopyPlaced (s₀ : Funcdata) (v val : Nat) (t : Funcdata) (c u : Nat) : Prop where
  fresh : s₀.obank.length ≤ c
  outFresh : s₀.vbank.length ≤ u
  code : t.codeOf c = .copy
  output : t.outputOf c = some u
  input : ∃ k, t.getIn c 0 = some k ∧
    t.storageOf k = some (⟨s₀.glb.constantSpace, val⟩, s₀.vnSize v)
  outStorage : t.storageOf u = some (⟨s₀.glb.uniqueSpace, s₀.uniqId⟩, s₀.vnSize v)
  placed : ∃ b A B, t.parentOf c = some b ∧ (t.block b).ops = A ++ c :: B ∧
    match s₀.defOf v with
    | some d => s₀.parentOf d = some b ∧ A ++ B = (s₀.block b).ops ∧ d ∈ A
    | none => b = 0 ∧ A = (s₀.block 0).ops.takeWhile s₀.isPhi ∧ A ++ B = (s₀.block 0).ops

theorem lt_of_outputOf {c u : Nat} (h : s.outputOf c = some u) : c < s.obank.length := by
  by_contra hc; simp [outputOf, op_eq_none_of_le (Nat.le_of_not_lt hc)] at h

/-- A later turn of the walk, which rewrites a slot of another op after creating constants,
leaves the `COPY` as it is. -/
theorem CopyPlaced.step {c u : Nat} (hC : CopyPlaced s₀ v val t c u) (he : Extends t t₁)
    (hb : t₁.bblocks = t.bblocks) (hp : ∀ q, t₁.parentOf q = t.parentOf q)
    (hout : t₁.outputOf c = t.outputOf c) (ho : o ≠ c) :
    CopyPlaced s₀ v val (t₁.opSetInput o w i) c u := by
  have hc := lt_of_outputOf hC.output
  have hst : ∀ {y a}, t.storageOf y = some a → (t₁.opSetInput o w i).storageOf y = some a :=
    fun {y a} hy => by
      rw [storageOf_opSetInput ((lt_of_storageOf hy).trans_le he.vlen),
        storageOf_eq_of_bodyOf (he.bodyOf y (lt_of_storageOf hy)), hy]
  obtain ⟨k, hk, hks⟩ := hC.input
  obtain ⟨b, A, B, hpc, hops, hm⟩ := hC.placed
  refine ⟨hC.fresh, hC.outFresh, by rw [codeOf_opSetInput, he.codeOf c hc, hC.code],
    by rw [outputOf_opSetInput, hout, hC.output],
    ⟨k, by rw [getIn_opSetInput_of_ne (Ne.symm ho), he.getIn c hc, hk], hst hks⟩,
    hst hC.outStorage, ⟨b, A, B, by rw [parentOf_opSetInput, hp, hpc], ?_, hm⟩⟩
  rw [← hops]
  simp only [block, bblocks_opSetInput, hb]

theorem defOf_eq_of_bodyOf (h : t.bodyOf x = s.bodyOf x) : t.defOf x = s.defOf x := by
  have := congrArg (Option.map Varnode.defOp) h
  cases ht : t.vn x <;> cases hs : s.vn x <;> simp_all [bodyOf, defOf, Varnode.body]

/-- Until the `COPY` is built the walk rewrites only slots of ops that are not markers, so
the blocks stay as well formed as in `s₀`. -/
theorem ReadsRewritten.blocksWellFormed {R : List Nat} (h₀ : s₀.BlocksWellFormed)
    (hR : ReadsRewritten s₀ t v (ConstantRead s₀ v val none) R) (hl : Linked s₀)
    (hb : t.bblocks = s₀.bblocks) (hp : ∀ q, t.parentOf q = s₀.parentOf q) :
    t.BlocksWellFormed := by
  refine h₀.of_frame hb hp fun q hq => ⟨hR.codeOf q (lt_of_parentOf_isSome hq), fun hi => ?_⟩
  have hql := lt_of_parentOf_isSome hq
  have hmark : (s₀.codeOf q).isMarker = true := by
    simp only [isIndirect, beq_iff_eq] at hi; simp [hi, OpCode.isMarker]
  refine iopTarget_congr ?_ fun x hx => hR.bodyOf x (lt_of_vn_isSome (hl.readers.vn_isSome hx))
  by_cases h0 : s₀.getIn q 1 = some v
  · rcases hR.read q hql 1 h0 with h | ⟨w, -, -, hg⟩
    · rw [h, h0]
    · simp [ConstantRead, hmark] at hg
  · exact hR.other q hql 1 h0

theorem placeConstantCopy_of_some {d : Nat} (hd : s.defOf v = some d) (val : Nat) :
    s.placeConstantCopy v val =
      ((s.newConstantCopy v val (s.opAddr d)).1.opInsertAfter
        (s.newConstantCopy v val (s.opAddr d)).2.1 d,
        (s.newConstantCopy v val (s.opAddr d)).2) := by
  rw [placeConstantCopy, hd]

theorem placeConstantCopy_of_none (hd : s.defOf v = none) (val : Nat) :
    s.placeConstantCopy v val =
      ((s.newConstantCopy v val (s.blockStart 0)).1.opInsertBegin
        (s.newConstantCopy v val (s.blockStart 0)).2.1 0,
        (s.newConstantCopy v val (s.blockStart 0)).2) := by
  rw [placeConstantCopy, hd]

/-- **Where `totalReplaceConstant` puts its `COPY`**, when its first marker reader comes: in
the block of the definition of `v`, after it, or at the head of block 0 after its
`MULTIEQUAL`s; the `COPY` is built as `CopyBuilt` says. -/
theorem placeConstantCopy_spec {R : List Nat} (hl : Linked s₀) (h₀ : s₀.BlocksWellFormed)
    (hv : v < s₀.vbank.length) (hdef : ∀ d, s₀.defOf v = some d → (s₀.parentOf d).isSome)
    (hentry : s₀.defOf v = none → 0 < s₀.bblocks.length)
    (hR : ReadsRewritten s₀ t v (ConstantRead s₀ v val none) R) (hb : t.bblocks = s₀.bblocks)
    (hp : ∀ q, t.parentOf q = s₀.parentOf q) (hq : t.uniqId = s₀.uniqId) :
    Linked (t.placeConstantCopy v val).1 ∧ Extends t (t.placeConstantCopy v val).1 ∧
      (t.placeConstantCopy v val).2.2 = t.vbank.length ∧
      (t.placeConstantCopy v val).1.descendOf (t.placeConstantCopy v val).2.2 = [] ∧
      CopyPlaced s₀ v val (t.placeConstantCopy v val).1 (t.placeConstantCopy v val).2.1
        (t.placeConstantCopy v val).2.2 := by
  have htw := hR.blocksWellFormed h₀ hl hb hp
  have hvt := hv.trans_le hR.vlen
  have hsize : t.vnSize v = s₀.vnSize v := vnSize_eq_of_bodyOf (hR.bodyOf v hv)
  have hdefeq := defOf_eq_of_bodyOf (hR.bodyOf v hv)
  -- the `COPY` as built, before it is placed, for either address
  have hbuilt : ∀ pc, let r := t.newConstantCopy v val pc
      r.1.BlocksWellFormed ∧ r.1.isPhi r.2.1 = false ∧ (r.1.op r.2.1).isSome ∧
        CopyBuilt t r.1 v val r.2.1 r.2.2 := fun pc => by
    have hB := newConstantCopy_built hR.linked hvt val pc
    refine ⟨htw.of_frame hB.bblocks hB.parents fun q hq =>
        ⟨hB.ext.codeOf q (lt_of_parentOf_isSome hq),
          fun _ => hB.ext.iopTarget hR.linked.readers (lt_of_parentOf_isSome hq)⟩,
      by simp [isPhi, hB.code], ?_, hB⟩
    by_contra hn
    have := hB.code
    simp [codeOf, Option.not_isSome_iff_eq_none.mp hn] at this
  -- the facts of `CopyPlaced` other than the position
  have hrest : ∀ pc, let r := t.newConstantCopy v val pc; ∀ b k,
      s₀.obank.length ≤ r.2.1 ∧ (r.1.opInsert r.2.1 b k).codeOf r.2.1 = .copy ∧
      (r.1.opInsert r.2.1 b k).outputOf r.2.1 = some r.2.2 ∧
      (∃ k', (r.1.opInsert r.2.1 b k).getIn r.2.1 0 = some k' ∧
        (r.1.opInsert r.2.1 b k).storageOf k' =
          some (⟨s₀.glb.constantSpace, val⟩, s₀.vnSize v)) ∧
      (r.1.opInsert r.2.1 b k).storageOf r.2.2 =
        some (⟨s₀.glb.uniqueSpace, s₀.uniqId⟩, s₀.vnSize v) ∧
      (r.1.opInsert r.2.1 b k).parentOf r.2.1 = some b := fun pc b k => by
    obtain ⟨-, -, hop, hB⟩ := hbuilt pc
    obtain ⟨k', hk, hks⟩ := hB.input
    have hus := hB.outStorage
    rw [hR.glb, hsize] at hks
    rw [hR.glb, hq, hsize] at hus
    exact ⟨hB.fresh ▸ hR.olen, by rw [codeOf_opInsert]; exact hB.code,
      by rw [outputOf_opInsert]; exact hB.output,
      ⟨k', by rw [getIn_opInsert]; exact hk, by rw [storageOf_opInsert]; exact hks⟩,
      by rw [storageOf_opInsert]; exact hus, by rw [parentOf_opInsert, if_pos ⟨rfl, hop⟩]⟩
  cases hd : s₀.defOf v with
  | some d =>
    rw [placeConstantCopy_of_some (hdefeq.trans hd)]
    obtain ⟨h₅, hphi, -, hB⟩ := hbuilt (t.opAddr d)
    obtain ⟨b, hdb⟩ := Option.isSome_iff_exists.mp (hdef d hd)
    have hdb₅ : (t.newConstantCopy v val (t.opAddr d)).1.parentOf d = some b := by
      rw [hB.parents, hp, hdb]
    obtain ⟨A, B, hops, hdA, heq⟩ := opInsertAfter_split h₅ hdb₅ hphi
    rw [heq]
    obtain ⟨h1, h2, h3, h4, h5, h6⟩ := hrest (t.opAddr d) b A.length
    refine ⟨hB.linked.opInsert .., hB.ext.trans (extends_opInsert ..), hB.outFresh,
      by rw [descendOf_opInsert]; exact hB.outReaders,
      h1, hB.outFresh ▸ hR.vlen, h2, h3, h4, h5, b, A, B, h6,
      block_opInsert_split ((h₅.parents d b).mp hdb₅).1 hops,
      by rw [hd]; exact ⟨hdb, by rw [← hops]; simp only [block, hB.bblocks, hb], hdA⟩⟩
  | none =>
    rw [placeConstantCopy_of_none (hdefeq.trans hd)]
    obtain ⟨h₅, hphi, -, hB⟩ := hbuilt (t.blockStart 0)
    rw [opInsertBegin_of_not_phi hphi]
    obtain ⟨h1, h2, h3, h4, h5, h6⟩ := hrest (t.blockStart 0) 0
      ((((t.newConstantCopy v val (t.blockStart 0)).1.block 0).ops.takeWhile
        (t.newConstantCopy v val (t.blockStart 0)).1.isPhi).length)
    have hblock : (t.newConstantCopy v val (t.blockStart 0)).1.block 0 = s₀.block 0 := by
      simp only [block, hB.bblocks, hb]
    have hA : ((t.newConstantCopy v val (t.blockStart 0)).1.block 0).ops.takeWhile
        (t.newConstantCopy v val (t.blockStart 0)).1.isPhi =
          (s₀.block 0).ops.takeWhile s₀.isPhi := by
      rw [hblock]
      refine takeWhile_congr_of_mem fun a ha => ?_
      have hal := lt_of_parentOf_isSome (by rw [(h₀.parents a 0).mpr ⟨hentry hd, ha⟩]; rfl)
      simp only [isPhi, hB.ext.codeOf a (hal.trans_le hR.olen), hR.codeOf a hal]
    refine ⟨hB.linked.opInsert .., hB.ext.trans (extends_opInsert ..), hB.outFresh,
      by rw [descendOf_opInsert]; exact hB.outReaders,
      h1, hB.outFresh ▸ hR.vlen, h2, h3, h4, h5, 0, _, _, h6,
      block_opInsert_split (by rw [hB.bblocks, hb]; exact hentry hd)
        (List.takeWhile_append_dropWhile _ _).symm,
      by rw [hd]; exact ⟨rfl, hA, by rw [List.takeWhile_append_dropWhile, hblock]⟩⟩

/-- The invariant of the walk of `totalReplaceConstant v val` from `s₀`, at a store and
`COPY` `st`: the slots rewritten so far read what `ConstantRead` says; until the `COPY` is
built the blocks, the parents and the `unique` counter are those of `s₀`, and from then on
the `COPY` is in place. -/
def ConstantWalk (s₀ : Funcdata) (v val : Nat) (R : List Nat)
    (st : Funcdata × Option (Nat × Nat)) : Prop :=
  ReadsRewritten s₀ st.1 v (ConstantRead s₀ v val st.2) R ∧
    match st.2 with
    | none => st.1.bblocks = s₀.bblocks ∧ (∀ q, st.1.parentOf q = s₀.parentOf q) ∧
        st.1.uniqId = s₀.uniqId
    | some (c, u) => CopyPlaced s₀ v val st.1 c u

theorem isSome_of_storageOf {a : Address × Nat} (h : s.storageOf x = some a) :
    (s.vn x).isSome := by
  cases hx : s.vn x <;> simp_all [storageOf]

theorem uniqueSpace_type_ne_constant (a : Architecture) : a.uniqueSpace.type ≠ .constant := by
  rw [a.uniqueSpace_type]; decide

theorem ne_of_storageOf_space {y z : Nat} {a b : Address} {m n : Nat}
    (hy : s.storageOf y = some (a, m)) (hz : s.storageOf z = some (b, n))
    (hab : a.space.type ≠ b.space.type) : y ≠ z := by
  rintro rfl; rw [hy] at hz; cases hz; exact hab rfl

section ConstantWalk

variable {val : Nat} (hl : Linked s₀) (h₀ : s₀.BlocksWellFormed) (hv : v < s₀.vbank.length)
  (hdef : ∀ d, s₀.defOf v = some d → (s₀.parentOf d).isSome)
  (hentry : s₀.defOf v = none → 0 < s₀.bblocks.length)
include hl h₀ hv hdef hentry

/-- **One turn of `totalReplaceConstant` keeps the invariant of its walk.** -/
theorem ConstantWalk.step {R : List Nat} {st : Funcdata × Option (Nat × Nat)}
    (hW : ConstantWalk s₀ v val (o :: R) st) :
    ConstantWalk s₀ v val R (totalReplaceConstantStep v val st o) := by
  obtain ⟨t, copy⟩ := st
  obtain ⟨hR, hC⟩ := hW
  dsimp only at hR hC
  have hi := hR.getIn_getSlot
  have ho := hR.old o (List.mem_cons_self o R)
  have hvt := hv.trans_le hR.vlen
  have hsize : t.vnSize v = s₀.vnSize v := vnSize_eq_of_bodyOf (hR.bodyOf v hv)
  -- a slot rewritten before survives a turn that links a varnode other than it
  have hkeep : ∀ {t₁ w copy'} (he : Extends t t₁), ReadersMatch t₁ → (t₁.vn w).isSome → w ≠ v →
      ∀ p x, x ≠ v → ((s₀.codeOf p).isMarker = false → x ≠ (t₁.inputCandidate w).2) →
        ConstantRead s₀ v val copy t p x →
        ((s₀.codeOf p).isMarker = true → copy'.map Prod.snd = some x) →
        ConstantRead s₀ v val copy' (t₁.opSetInput o w (t.getSlot o v)) p x :=
    fun he h₁ hw hwv p x hxv hxw hg hm => by
      unfold ConstantRead at hg ⊢
      split_ifs at hg ⊢ with hpm
      · exact hm hpm
      · obtain ⟨hlen, hst, hd⟩ := hg
        obtain ⟨hd', hst'⟩ := step_frame he h₁ hi hw hwv (lt_of_storageOf hst) hxv
          (hxw (by simpa using hpm))
        exact ⟨hlen, hst'.trans hst, hd'.trans hd⟩
  simp only [totalReplaceConstantStep]
  split_ifs with hm
  · cases copy with
    | some cu =>
      obtain ⟨c, u⟩ := cu
      have hut := lt_of_storageOf hC.outStorage
      have huv : u ≠ v := by have := hC.outFresh; omega
      have hcand : (t.inputCandidate u).2 = u := by
        rw [inputCandidate_of_not_constant fun y hy => ?_]
        have := hC.outStorage
        simp only [storageOf, hy, Option.map_some', Option.some.injEq, Prod.mk.injEq] at this
        simp [Varnode.isConstant, this.1, uniqueSpace_type_ne_constant]
      have hus := isSome_of_storageOf hC.outStorage
      refine ⟨hR.step (.refl t) hR.linked hus huv
          (by simp [ConstantRead, hcand, ← hR.codeOf o ho, hm])
          fun p x hxv hg => hkeep (.refl t) hR.linked.readers hus huv p x hxv ?_ hg (fun hpm => ?_),
        hC.step (.refl t) rfl (fun _ => rfl) rfl (by have := hC.fresh; omega)⟩
      · intro hpm
        simp only [ConstantRead, hpm] at hg
        rw [hcand]
        refine ne_of_storageOf_space hg.2.1 hC.outStorage ?_
        rw [s₀.glb.constantSpace_type]; exact Ne.symm (uniqueSpace_type_ne_constant _)
      · simpa [ConstantRead, hpm] using hg
    | none =>
      obtain ⟨hb, hp, hq⟩ := hC
      obtain ⟨hL₂, hE₂, hu₂, hd₂, hC₂⟩ := placeConstantCopy_spec hl h₀ hv hdef hentry hR hb hp hq
      show ConstantWalk s₀ v val R (((t.placeConstantCopy v val).1.opSetInput o
        (t.placeConstantCopy v val).2.2 (t.getSlot o v)),
        some ((t.placeConstantCopy v val).2.1, (t.placeConstantCopy v val).2.2))
      have huv : (t.placeConstantCopy v val).2.2 ≠ v := by omega
      have hw := isSome_of_storageOf hC₂.outStorage
      have hcand : ((t.placeConstantCopy v val).1.inputCandidate
          (t.placeConstantCopy v val).2.2).2 = (t.placeConstantCopy v val).2.2 := by
        rw [inputCandidate_of_descend_nil fun y hy => by simpa [descendOf, hy] using hd₂]
      refine ⟨hR.step hE₂ hL₂ hw huv (by simp [ConstantRead, hcand, ← hR.codeOf o ho, hm])
        fun p x hxv hg => hkeep hE₂ hL₂.readers hw huv p x hxv (fun hpm => ?_) hg (fun hpm => ?_),
        hC₂.step (.refl _) rfl (fun _ => rfl) rfl (by have := hC₂.fresh; omega)⟩
      · simp only [ConstantRead, hpm] at hg
        have := lt_of_storageOf hg.2.1
        rw [hcand]; omega
      · simp [ConstantRead, hpm] at hg
  · have hE : Extends t (t.newConstant (t.vnSize v) val).1 := extends_createVn _
    have hL := hR.linked.newConstant (t.vnSize v) val
    have hw : ((t.newConstant (t.vnSize v) val).1.vn t.vbank.length).isSome := by
      simp [newConstant]
    have hwv : t.vbank.length ≠ v := by omega
    have hcand : ((t.newConstant (t.vnSize v) val).1.inputCandidate t.vbank.length).2 =
        t.vbank.length := by
      rw [inputCandidate_of_descend_nil (by simp [newConstant])]
    have hne : (t.newConstant (t.vnSize v) val).1.getIn o (t.getSlot o v) ≠
        some t.vbank.length := by
      show t.getIn o (t.getSlot o v) ≠ _
      rw [hi]; exact fun e => hwv (Option.some.inj e).symm
    show ConstantWalk s₀ v val R (((t.newConstant (t.vnSize v) val).1.opSetInput o t.vbank.length
      (t.getSlot o v)), copy)
    have hm' : (s₀.codeOf o).isMarker = false := by rw [← hR.codeOf o ho]; simpa using hm
    refine ⟨hR.step hE hL hw hwv ?_ fun p x hxv hg =>
      hkeep hE hL.readers hw hwv p x hxv (fun hpm => ?_) hg (fun hpm => ?_), ?_⟩
    · simp only [ConstantRead, hm', hcand, if_false, Bool.false_eq_true]
      refine ⟨hR.vlen, ?_, ?_⟩
      · rw [storageOf_opSetInput (by simp [newConstant])]
        simp [newConstant, hR.glb, hsize]
      · rw [descendOf_opSetInput hL.readers hne hw, if_pos hcand.symm]
        simp [newConstant, descendOf, vn_eq_none_of_le le_rfl]
    · simp only [ConstantRead, hpm] at hg
      have := lt_of_storageOf hg.2.1
      rw [hcand]; omega
    · simpa [ConstantRead, hpm] using hg
    · cases copy with
      | none =>
        obtain ⟨hb, hp, hq⟩ := hC
        exact ⟨by rw [bblocks_opSetInput]; exact hb,
          fun q => by rw [parentOf_opSetInput]; exact hp q,
          by rw [uniqId_opSetInput]; exact hq⟩
      | some cu =>
        obtain ⟨c, u⟩ := cu
        exact hC.step hE rfl (fun _ => rfl) rfl (by have := hC.fresh; omega)

theorem ConstantWalk.foldl : ∀ (R : List Nat) {st : Funcdata × Option (Nat × Nat)},
    ConstantWalk s₀ v val R st →
      ConstantWalk s₀ v val [] (R.foldl (totalReplaceConstantStep v val) st)
  | [], _, hW => hW
  | _ :: R, _, hW => ConstantWalk.foldl R (hW.step hl h₀ hv hdef hentry)

end ConstantWalk

/-- What `totalReplaceConstant v val` does from `s`, as seen in `t`: `v` has no reader left,
every slot of an op other than a marker that read `v` reads a new constant `val` with the
size of `v` that only this op reads, every slot of a marker that read `v` reads the output
`u` of one placed `COPY` `c` of `val` (`CopyPlaced`), and every other slot is as it was. -/
structure ConstantReplaced (s : Funcdata) (v val : Nat) (t : Funcdata) : Prop where
  readers : t.descendOf v = []
  constants : ∀ p k, s.getIn p k = some v → (s.codeOf p).isMarker = false →
    ∃ w, t.getIn p k = some w ∧ s.vbank.length ≤ w ∧
      t.storageOf w = some (⟨s.glb.constantSpace, val⟩, s.vnSize v) ∧ t.descendOf w = [p]
  copy : ∃ c u, ∀ p k, s.getIn p k = some v → (s.codeOf p).isMarker = true →
    t.getIn p k = some u ∧ CopyPlaced s v val t c u
  other : ∀ p < s.obank.length, ∀ k, s.getIn p k ≠ some v → t.getIn p k = s.getIn p k

/-- **`totalReplaceConstant` rewrites every read of `v` into a read of `val`**, in a store
whose blocks are well formed, where the definition of `v` sits in a block (or block 0
exists, when `v` is unwritten). Afterwards no op reads `v`; every slot of an op other than a
marker that read `v` reads a new constant `val` with the size of `v` that only this op
reads; every slot of a marker that
read `v` reads the output `u` of one `COPY` `c` of `val`, placed after the definition of `v`
in its block, or in block 0 right after the `MULTIEQUAL`s it begins with; and every other
slot of every op is as it was. -/
theorem totalReplaceConstant_rewrites (h : Linked s) (hwf : s.BlocksWellFormed)
    (hdef : ∀ d, s.defOf v = some d → (s.parentOf d).isSome)
    (hentry : s.defOf v = none → 0 < s.bblocks.length) (val : Nat) :
    ConstantReplaced s v val (s.totalReplaceConstant v val) := by
  by_cases hv : v < s.vbank.length
  · have hW := ConstantWalk.foldl h hwf hv hdef hentry _
      (⟨ReadsRewritten.start h v, rfl, fun _ => rfl, rfl⟩ : ConstantWalk s v val _ (s, none))
    unfold totalReplaceConstant
    generalize (s.descendOf v).foldl (totalReplaceConstantStep v val) (s, none) = st at hW ⊢
    obtain ⟨t, copy⟩ := st
    obtain ⟨hR, hC⟩ := hW
    dsimp only at hR hC ⊢
    refine ⟨hR.readers, fun p k h0 hm => ?_, ?_, hR.other⟩
    · obtain ⟨w, hw, hg⟩ := hR.finish (lt_of_getIn_eq_some h0) h0
      simp only [ConstantRead, hm, if_false, Bool.false_eq_true] at hg
      exact ⟨w, hw, hg⟩
    · cases copy with
      | none =>
        refine ⟨0, 0, fun p k h0 hm => ?_⟩
        obtain ⟨w, -, hg⟩ := hR.finish (lt_of_getIn_eq_some h0) h0
        simp [ConstantRead, hm] at hg
      | some cu =>
        obtain ⟨c, u⟩ := cu
        refine ⟨c, u, fun p k h0 hm => ?_⟩
        obtain ⟨w, hw, hg⟩ := hR.finish (lt_of_getIn_eq_some h0) h0
        simp only [ConstantRead, hm, if_true, Option.map_some', Option.some.injEq] at hg
        exact ⟨hg ▸ hw, hC⟩
  · have hnil : s.descendOf v = [] := by simp [descendOf, vn_eq_none_of_le (Nat.le_of_not_lt hv)]
    have hs : s.totalReplaceConstant v val = s := by simp [totalReplaceConstant, hnil]
    rw [hs]
    exact ⟨hnil, fun p k h0 => absurd h0 (h.readers.getIn_ne_of_nil hnil p k),
      ⟨0, 0, fun p k h0 => absurd h0 (h.readers.getIn_ne_of_nil hnil p k)⟩, fun _ _ _ _ => rfl⟩

/-! ### Both edits -/

/-- **`totalReplace` and `totalReplaceConstant` rewrite exactly the reads of `v`.** In a
linked store, `totalReplace v newv` (for a `newv` of the store other than `v`) does what
`TotalReplaced` says; when the blocks are well formed and the definition of `v` sits in a
block (or block 0 exists, when `v` is unwritten), `totalReplaceConstant v val` does what
`ConstantReplaced` says. -/
theorem totalReplace_totalReplaceConstant_spec (h : Linked s) (v : Nat) :
    (∀ newv, (s.vn newv).isSome → newv ≠ v → TotalReplaced s v newv (s.totalReplace v newv)) ∧
      (s.BlocksWellFormed → (∀ d, s.defOf v = some d → (s.parentOf d).isSome) →
        (s.defOf v = none → 0 < s.bblocks.length) →
          ∀ val, ConstantReplaced s v val (s.totalReplaceConstant v val)) :=
  ⟨fun _ hw hne => totalReplace_rewrites h hw hne,
    fun hwf hdef hentry => totalReplaceConstant_rewrites h hwf hdef hentry⟩

/-- A loop back into the entry block: block 0 holds a `MULTIEQUAL` (op 0) of the input
register `v0` that it writes into `v1`, and has one incoming edge, from block 1. -/
def entryLoop : Funcdata where
  glb := ⟨⟨0, .constant, 2 ^ 64 - 1, false, 1⟩, ⟨1, .internal, 2 ^ 64 - 1, false, 1⟩,
    ⟨2, .iop, 2 ^ 64 - 1, false, 1⟩, rfl, rfl, rfl⟩
  vbank := [some { loc := ⟨codeAddr.space, 0⟩, size := 4, descend := [0], input := true },
    some { loc := ⟨codeAddr.space, 4⟩, size := 4, defOp := some 0 }]
  obank := [some { code := .multiequal, addr := codeAddr, inrefs := [some 0],
                   output := some 1, parent := some 0 }]
  bblocks := [{ ops := [0], inEdges := [1] }, { inEdges := [0] }]
  uniqId := 0

/-- Both edits on the entry loop: `v1` replaces `v0`, and so does the constant 5. -/
theorem totalReplace_totalReplaceConstant_entryLoop :
    Linked entryLoop ∧ TotalReplaced entryLoop 0 1 (entryLoop.totalReplace 0 1) ∧
      entryLoop.BlocksWellFormed ∧ entryLoop.defOf 0 = none ∧
      ConstantReplaced entryLoop 0 5 (entryLoop.totalReplaceConstant 0 5) :=
  have hl : Linked entryLoop := Linked.of_check (by decide)
  have hwf : entryLoop.BlocksWellFormed := BlocksWellFormed.of_check (by decide)
  have hd : entryLoop.defOf 0 = none := by decide
  ⟨hl, (totalReplace_totalReplaceConstant_spec hl 0).1 1 (by decide) (by decide), hwf, hd,
    (totalReplace_totalReplaceConstant_spec hl 0).2 hwf (fun d h => by rw [hd] at h; cases h)
      (by decide) 5⟩

/-- **The `COPY` for an unwritten varnode goes after the `MULTIEQUAL`s of the entry block**,
not at its start: `opInsertBegin` skips them. In the entry loop the `MULTIEQUAL` reading
`v0` keeps its place, the new `COPY` (op 1) comes second, and the `MULTIEQUAL` reads its
output. -/
theorem totalReplaceConstant_entryLoop_after_phi :
    Linked entryLoop ∧ entryLoop.BlocksWellFormed ∧ entryLoop.defOf 0 = none ∧
      entryLoop.codeOf 0 = .multiequal ∧ entryLoop.getIn 0 0 = some 0 ∧
      ((entryLoop.totalReplaceConstant 0 5).block 0).ops = [0, 1] ∧
      (entryLoop.totalReplaceConstant 0 5).codeOf 1 = .copy ∧
      (entryLoop.totalReplaceConstant 0 5).getIn 0 0 =
        (entryLoop.totalReplaceConstant 0 5).outputOf 1 :=
  ⟨Linked.of_check (by decide), BlocksWellFormed.of_check (by decide), by decide, by decide,
    by decide, by decide, by decide, by decide⟩

/-! ### The placeholder of a one-byte varnode -/

/-- A one-byte register (varnode 0, a flag) read by a `COPY` (op 0) in a live block without
incoming edges. -/
def flagRead : Funcdata where
  glb := ⟨⟨0, .constant, 2 ^ 64 - 1, false, 1⟩, ⟨1, .internal, 2 ^ 64 - 1, false, 1⟩,
    ⟨2, .iop, 2 ^ 64 - 1, false, 1⟩, rfl, rfl, rfl⟩
  vbank := [some { loc := ⟨⟨3, .processor, 0xffff, false, 1⟩, 0⟩, size := 1, descend := [0] }]
  obank := [some { code := .copy, addr := codeAddr, inrefs := [some 0], parent := some 0 }]
  bblocks := [{ ops := [0] }]
  uniqId := 0

/-- **`descend2Undef` gives a one-byte varnode a constant of one byte whose offset is not a
byte.** The read of the flag becomes a read of the new varnode 1, a one-byte constant at
offset `0xBADDEF`, which is at least `2 ^ 8`. -/
theorem descend2Undef_flag_badConstant :
    Linked flagRead ∧ (flagRead.descend2Undef 0).1.getIn 0 0 = some 1 ∧
      (flagRead.descend2Undef 0).1.vn 1 =
        some { loc := ⟨flagRead.glb.constantSpace, 0xBADDEF⟩, size := 1, descend := [0] } ∧
      2 ^ (8 * 1) ≤ 0xBADDEF :=
  ⟨Linked.of_check (by decide), by decide, by decide, by decide⟩

end Funcdata

end GhidraDec
