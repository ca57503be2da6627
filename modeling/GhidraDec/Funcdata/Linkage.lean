import GhidraDec.Pcode.Store

/-!
# Linkage Edits of the Store

The edits of `funcdata_op.cc` and `funcdata_varnode.cc` through which every change to the
data-flow of a function goes: the varnode and op factories, the input and output edits of
an op (`opSetInput` … `opSetAllInput`), the removal of ops and varnodes (`opUnlink`,
`opDestroy`, `destroyVarnode`) and the bulk rewrite `totalReplace`.

Each definition follows its source function statement by statement. Where the source
dereferences a pointer it has not checked (an empty input slot handed to `opUnsetInput`),
the model leaves the state as it is; the results about these edits state the conditions
under which the source never reaches such a dereference.

Symbol and data-type bookkeeping (`setVarnodeProperties`, `copySymbol`, `assignHigh`, the
data-type of a new varnode) does not touch the data-flow and is left out.
-/

namespace GhidraDec

namespace Funcdata

variable (s : Funcdata)

/-- The first input slot of `o` holding `v` (`PcodeOp::getSlot`); the number of inputs
when there is none. -/
def getSlot (o v : Nat) : Nat := (s.inrefsOf o).indexOf (some v)

/-- `PcodeOp::insertInput`: open an empty slot at `i`, moving the later slots up. -/
def insertInputField (o i : Nat) : Funcdata :=
  s.modifyInrefs o fun l => l.take i ++ none :: l.drop i

/-- `PcodeOp::removeInput`: delete slot `i`, moving the later slots down. -/
def removeInputField (o i : Nat) : Funcdata :=
  s.modifyInrefs o (·.eraseIdx i)

/-- `PcodeOp::setNumInputs`: resize the input slots to `n`, all empty. -/
def setNumInputs (o n : Nat) : Funcdata :=
  s.modifyInrefs o fun _ => List.replicate n none

/-! ### Factories -/

/-- `newOp`: a detached op with `n` empty input slots; the op-code is set afterwards by
`opSetOpcode` (until then it reads as `MAX`). -/
def newOp (n : Nat) (pc : Address) : Funcdata × Nat :=
  s.createOp { code := .max, addr := pc, inrefs := List.replicate n none }

/-- `newConstant`: a free varnode of the constant space whose offset is the value. -/
def newConstant (sz val : Nat) : Funcdata × Nat :=
  s.createVn { loc := ⟨s.glb.constantSpace, val⟩, size := sz }

/-- `newVarnode`: a free varnode at the given storage. -/
def newVarnode (sz : Nat) (m : Address) : Funcdata × Nat :=
  s.createVn { loc := m, size := sz }

/-- `newUnique`: a free varnode at the next offset of the `unique` space. -/
def newUnique (sz : Nat) : Funcdata × Nat :=
  ({ s with uniqId := s.uniqId + sz }.createVn
    { loc := ⟨s.glb.uniqueSpace, s.uniqId⟩, size := sz })

/-- `newVarnodeOut`: a new varnode created as the output of `o`. -/
def newVarnodeOut (sz : Nat) (m : Address) (o : Nat) : Funcdata × Nat :=
  let (s', v) := s.createVn { loc := m, size := sz, defOp := some o }
  (s'.setOutputField o (some v), v)

/-- `newUniqueOut`: a new `unique` temporary created as the output of `o`. -/
def newUniqueOut (sz o : Nat) : Funcdata × Nat :=
  { s with uniqId := s.uniqId + sz }.newVarnodeOut sz ⟨s.glb.uniqueSpace, s.uniqId⟩ o

/-- `newVarnodeIop`: the annotation naming op `o` to an `INDIRECT`. -/
def newVarnodeIop (o : Nat) : Funcdata × Nat :=
  s.createVn { loc := ⟨s.glb.iopSpace, o⟩, size := 8 }

/-! ### Edits of one op -/

/-- `opSetOpcode`. -/
def opSetOpcode (o : Nat) (c : OpCode) : Funcdata :=
  s.modifyOp o fun p => { p with code := c }

/-- `opUnsetOutput`: detach the output of `o`, which becomes free but is not deleted. -/
def opUnsetOutput (o : Nat) : Funcdata :=
  match s.outputOf o with
  | none => s
  | some v => (s.setOutputField o none).setDefField v none

/-- `opSetOutput`: make `v` the output of `o`, first detaching the old output of `o` and
the old definition of `v`. -/
def opSetOutput (o v : Nat) : Funcdata :=
  if s.outputOf o = some v then s
  else
    let s := if (s.outputOf o).isSome then s.opUnsetOutput o else s
    let s := match s.defOf v with
      | some d => s.opUnsetOutput d
      | none => s
    (s.setDefField v (some o)).setOutputField o (some v)

/-- `opUnsetInput`: unlink the varnode in slot `i` of `o` from the op. -/
def opUnsetInput (o i : Nat) : Funcdata :=
  match s.getIn o i with
  | some v => (s.eraseDescend v o).setInput o i none
  | none => s

/-- The constant that `opSetInput` actually links: a constant that already has a reader
and is not a spacebase is duplicated, so that a constant keeps a single reader. -/
def inputCandidate (v : Nat) : Funcdata × Nat :=
  match s.vn v with
  | some x =>
    if x.isConstant && !x.descend.isEmpty && !x.spacebase then s.newConstant x.size x.offset
    else (s, v)
  | none => (s, v)

/-- The second half of `opSetInput`: unlink whatever slot `i` holds, then link `v`. -/
def relinkInput (o v i : Nat) : Funcdata :=
  let s := if (s.getIn o i).isSome then s.opUnsetInput o i else s
  (s.addDescend v o).setInput o i (some v)

/-- `opSetInput`: make `v` the input in slot `i` of `o`. -/
def opSetInput (o v i : Nat) : Funcdata :=
  if s.getIn o i = some v then s
  else
    let (s, v) := s.inputCandidate v
    s.relinkInput o v i

/-- `opSwapInput`: exchange two input slots; the reader lists are untouched. -/
def opSwapInput (o i j : Nat) : Funcdata :=
  let tmp := s.getIn o i
  (s.setInput o i (s.getIn o j)).setInput o j tmp

/-- `opInsertInput`: insert `v` as a new input at slot `i`. -/
def opInsertInput (o v i : Nat) : Funcdata :=
  (s.insertInputField o i).opSetInput o v i

/-- `opRemoveInput`: unlink slot `i` and delete it. -/
def opRemoveInput (o i : Nat) : Funcdata :=
  (s.opUnsetInput o i).removeInputField o i

/-- The loop over the input slots of `o` shared by `opUnlink`, `opDestroy` and
`opSetAllInput`. The last two skip empty slots and `opUnlink` expects none;
`opUnsetInput` leaves an empty slot alone, so the three loops are this one. -/
def opUnsetAllInputs (o : Nat) : Funcdata :=
  (List.range (s.inrefsOf o).length).foldl (fun s i => s.opUnsetInput o i) s

/-- `opSetAllInput`: unlink every input, resize, and link the new inputs in order. -/
def opSetAllInput (o : Nat) (vvec : List Nat) : Funcdata :=
  let s := (s.opUnsetAllInputs o).setNumInputs o vvec.length
  vvec.enum.foldl (fun s iv => s.opSetInput o iv.2 iv.1) s

/-! ### Placement of an op in a block -/

/-- `opUninsert`: take `o` out of its block (`markDead`, `BlockBasic::removeOp`). -/
def opUninsert (o : Nat) : Funcdata :=
  match (s.op o).bind PcodeOp.parent with
  | some b => (s.modifyBlock b fun bl => { bl with ops := bl.ops.erase o }).modifyOp o
      fun p => { p with parent := none }
  | none => s

/-! ### Removal -/

/-- `destroyVarnode`: clear every input slot reading `v` (the slot `getSlot` finds, once
per entry of the reader list), detach it from its defining op, and free it. -/
def destroyVarnode (v : Nat) : Funcdata :=
  let s := (s.descendOf v).foldl (fun s o => s.setInput o (s.getSlot o v) none) s
  let s := match s.defOf v with
    | some d => s.setOutputField d none
    | none => s
  s.destroyVn v

/-- `opUnlink`: detach the output and every input of `o`, and take it out of its block. -/
def opUnlink (o : Nat) : Funcdata :=
  let s := (s.opUnsetOutput o).opUnsetAllInputs o
  if ((s.op o).bind PcodeOp.parent).isSome then s.opUninsert o else s

/-- `opDestroy`: destroy the output of `o`, unlink its inputs, and take it out of its
block; the op itself stays, dead. -/
def opDestroy (o : Nat) : Funcdata :=
  let s := match s.outputOf o with
    | some v => s.destroyVarnode v
    | none => s
  let s := s.opUnsetAllInputs o
  if ((s.op o).bind PcodeOp.parent).isSome then s.opUninsert o else s

/-- `totalReplace`: every read of `v` becomes a read of `newv`. The source walks the live
reader list of `v` while each step erases the entry it has just passed; the model walks a
copy of the list taken on entry, which visits the same ops in the same order
(`Linked.totalReplace_loop`). -/
def totalReplace (v newv : Nat) : Funcdata :=
  (s.descendOf v).foldl (fun s o => s.opSetInput o newv (s.getSlot o v)) s

/-! ### `opSetOpcode` read back -/

variable {s}

@[simp] theorem inrefsOf_opSetOpcode (o p : Nat) (c : OpCode) :
    (s.opSetOpcode o c).inrefsOf p = s.inrefsOf p := by
  rw [opSetOpcode, inrefsOf_modifyOp]
  split_ifs with hp
  · subst hp; cases h : s.op p <;> simp [inrefsOf, h]
  · rfl

@[simp] theorem outputOf_opSetOpcode (o p : Nat) (c : OpCode) :
    (s.opSetOpcode o c).outputOf p = s.outputOf p := by
  rw [opSetOpcode, outputOf_modifyOp]
  split_ifs with hp
  · subst hp; cases h : s.op p <;> simp [outputOf, h]
  · rfl

@[simp] theorem getIn_opSetOpcode (o p i : Nat) (c : OpCode) :
    (s.opSetOpcode o c).getIn p i = s.getIn p i := by
  simp [getIn]

@[simp] theorem vn_opSetOpcode (o w : Nat) (c : OpCode) : (s.opSetOpcode o c).vn w = s.vn w := rfl

@[simp] theorem storageOf_opSetOpcode (o w : Nat) (c : OpCode) :
    (s.opSetOpcode o c).storageOf w = s.storageOf w := rfl

@[simp] theorem glb_opSetOpcode (o : Nat) (c : OpCode) : (s.opSetOpcode o c).glb = s.glb := rfl

@[simp] theorem vbank_opSetOpcode (o : Nat) (c : OpCode) :
    (s.opSetOpcode o c).vbank = s.vbank := rfl

theorem codeOf_opSetOpcode {o : Nat} (ho : (s.op o).isSome) (c : OpCode) (p : Nat) :
    (s.opSetOpcode o c).codeOf p = if p = o then c else s.codeOf p := by
  rw [opSetOpcode, codeOf_modifyOp]
  split_ifs
  · obtain ⟨x, hx⟩ := Option.isSome_iff_exists.mp ho; simp [hx]
  · rfl

end Funcdata

end GhidraDec
