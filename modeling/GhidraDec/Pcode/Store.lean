import Mathlib.Algebra.Group.Nat.Basic
import Mathlib.Data.List.Basic
import GhidraDec.Pcode.Opcode

/-!
# The IR Store of One Function

This module fixes the data model of the analysis core: address spaces and addresses,
`Varnode`s, `PcodeOp`s and basic blocks, and the per-function store `Funcdata` that owns
them. The store follows the arena design of the specification: varnodes, ops and blocks
live in three banks indexed by `Nat`, a cross-reference is an index, and an index is never
reused — a destroyed varnode or op leaves an empty slot (`none`) behind. Creation appends
to a bank, so the index of a new object is the bank's length, which is fresh by
construction.

The methods of the source's `Varnode`, `PcodeOp` and `VarnodeBank` classes (`varnode.cc`,
`op.cc`) are not part of the sources; the primitives below model them from the
specification:

* `addDescend` appends a reader to a varnode's reader list (the list is insertion
  ordered), `eraseDescend` removes the **first** occurrence of a reader;
* `setInput` writes (or, with `none`, clears) one input slot of an op, `setOutputField`
  its output field, `setDefField` the defining op of a varnode;
* `createVn` and `createOp` allocate at the end of their bank, `destroyVn` and
  `destroyOp` empty a slot.

Every primitive comes with `@[simp]` lemmas describing the four views later modules
reason with — `descendOf`, `inrefsOf`, `defOf` and `outputOf` — so no proof about an edit
of `Funcdata` has to unfold a bank.
-/

namespace GhidraDec

/-- The kinds of address space (`spacetype`, the `IPTR_*` constants). -/
inductive SpaceType
  | constant | processor | spacebase | internal | fspec | iop | join
  deriving DecidableEq, Repr

/-- An address space: its index in the manager, its kind, its largest offset, its byte
order and the size of its addressable unit. -/
structure AddrSpace where
  index : Nat
  type : SpaceType
  highest : Nat
  bigEndian : Bool
  wordSize : Nat
  deriving DecidableEq, Repr

/-- An address: a space and an offset into it. -/
structure Address where
  space : AddrSpace
  offset : Nat
  deriving DecidableEq, Repr

/-- A varnode: its storage (address and size in bytes), its defining op (`none` for an
input or a free varnode), its reader list `descend`, and the property flags the edits of
the store read. -/
structure Varnode where
  loc : Address
  size : Nat
  defOp : Option Nat := none
  descend : List Nat := []
  input : Bool := false
  spacebase : Bool := false
  typeLock : Bool := false
  addrForce : Bool := false
  deriving DecidableEq, Repr

namespace Varnode

/-- A constant lives in the constant space; its offset is its value. -/
def isConstant (v : Varnode) : Bool := v.loc.space.type == .constant

/-- A varnode is written when it has a defining op. -/
def isWritten (v : Varnode) : Bool := v.defOp.isSome

/-- The offset of the storage address (`getOffset`). -/
def offset (v : Varnode) : Nat := v.loc.offset

end Varnode

/-- A p-code op: op-code, instruction address, input slots (an empty slot is `none`),
output, and the basic block holding it (`none` while the op is detached). -/
structure PcodeOp where
  code : OpCode
  addr : Address
  inrefs : List (Option Nat)
  output : Option Nat := none
  parent : Option Nat := none
  deriving DecidableEq, Repr

/-- A basic block: its op list, its incoming edges (block indices), its start address,
and whether it has been removed from the control-flow graph. -/
structure BlockBasic where
  ops : List Nat := []
  inEdges : List Nat := []
  start : Option Address := none
  dead : Bool := false
  deriving DecidableEq, Repr

/-- The architecture-wide configuration a function's edits consult (`glb`): the special
address spaces, each of its own kind (`AddrSpaceManager::insertSpace` takes the `unique`
space from the one space of type `IPTR_INTERNAL`). -/
structure Architecture where
  constantSpace : AddrSpace
  uniqueSpace : AddrSpace
  iopSpace : AddrSpace
  constantSpace_type : constantSpace.type = .constant
  uniqueSpace_type : uniqueSpace.type = .internal
  iopSpace_type : iopSpace.type = .iop
  deriving DecidableEq, Repr

/-- The store of one function: the three banks, the next free offset of the `unique`
space, and the architecture. -/
structure Funcdata where
  glb : Architecture
  vbank : List (Option Varnode)
  obank : List (Option PcodeOp)
  bblocks : List BlockBasic
  uniqId : Nat
  deriving DecidableEq, Repr

namespace Funcdata

variable (s : Funcdata)

/-- The varnode at an index, if there is one. -/
def vn (v : Nat) : Option Varnode := s.vbank[v]?.join

/-- The op at an index, if there is one. -/
def op (o : Nat) : Option PcodeOp := s.obank[o]?.join

/-- The block at an index (an absent block reads as the empty block). -/
def block (b : Nat) : BlockBasic := s.bblocks.getD b {}

/-- The reader list of a varnode (empty for an absent one). -/
def descendOf (v : Nat) : List Nat := ((s.vn v).map Varnode.descend).getD []

/-- The input slots of an op (none for an absent one). -/
def inrefsOf (o : Nat) : List (Option Nat) := ((s.op o).map PcodeOp.inrefs).getD []

/-- The defining op of a varnode. -/
def defOf (v : Nat) : Option Nat := (s.vn v).bind Varnode.defOp

/-- The output of an op. -/
def outputOf (o : Nat) : Option Nat := (s.op o).bind PcodeOp.output

/-- The varnode in input slot `i` of op `o` (`getIn`). -/
def getIn (o i : Nat) : Option Nat := ((s.inrefsOf o)[i]?).join

/-- The storage and size of a varnode: what it is apart from its place in the data-flow. -/
def storageOf (v : Nat) : Option (Address × Nat) := (s.vn v).map fun x => (x.loc, x.size)

/-- The op-code of an op (`MAX` for an absent one). -/
def codeOf (o : Nat) : OpCode := ((s.op o).map PcodeOp.code).getD .max

/-! ### Bank primitives -/

/-- Apply `f` to the varnode at `v`; an empty slot is left alone. -/
def modifyVn (v : Nat) (f : Varnode → Varnode) : Funcdata :=
  { s with vbank := s.vbank.set v ((s.vn v).map f) }

/-- Apply `f` to the op at `o`; an empty slot is left alone. -/
def modifyOp (o : Nat) (f : PcodeOp → PcodeOp) : Funcdata :=
  { s with obank := s.obank.set o ((s.op o).map f) }

/-- Apply `f` to the block at `b`. -/
def modifyBlock (b : Nat) (f : BlockBasic → BlockBasic) : Funcdata :=
  { s with bblocks := s.bblocks.set b (f (s.block b)) }

/-- Allocate a varnode at the end of the bank (`VarnodeBank::create`); the new index is
the bank's old length. -/
def createVn (x : Varnode) : Funcdata × Nat :=
  ({ s with vbank := s.vbank ++ [some x] }, s.vbank.length)

/-- Allocate an op at the end of the bank (`PcodeOpBank::create`). -/
def createOp (p : PcodeOp) : Funcdata × Nat :=
  ({ s with obank := s.obank ++ [some p] }, s.obank.length)

/-- Free a varnode's slot (`VarnodeBank::destroy`); the index is not reused. -/
def destroyVn (v : Nat) : Funcdata := { s with vbank := s.vbank.set v none }

/-- `Varnode::addDescend`: append a reader to the reader list. -/
def addDescend (v o : Nat) : Funcdata :=
  s.modifyVn v fun x => { x with descend := x.descend ++ [o] }

/-- `Varnode::eraseDescend`: remove the first occurrence of a reader. -/
def eraseDescend (v o : Nat) : Funcdata :=
  s.modifyVn v fun x => { x with descend := x.descend.erase o }

/-- Apply `g` to the input slots of the op at `o`. -/
def modifyInrefs (o : Nat) (g : List (Option Nat) → List (Option Nat)) : Funcdata :=
  s.modifyOp o fun p => { p with inrefs := g p.inrefs }

/-- `PcodeOp::setInput` and `PcodeOp::clearInput` (with `none`): write one input slot. -/
def setInput (o i : Nat) (x : Option Nat) : Funcdata :=
  s.modifyInrefs o (·.set i x)

/-- `PcodeOp::setOutput`: write the output field of an op. -/
def setOutputField (o : Nat) (x : Option Nat) : Funcdata :=
  s.modifyOp o fun p => { p with output := x }

/-- `VarnodeBank::setDef` and `VarnodeBank::makeFree` (with `none`): write the defining op
of a varnode, which in both cases stops it being an input. -/
def setDefField (v : Nat) (d : Option Nat) : Funcdata :=
  s.modifyVn v fun x => { x with defOp := d, input := false }

/-! ### Reading the banks back -/

variable {s}

@[simp] theorem vn_modifyVn (v w : Nat) (f : Varnode → Varnode) :
    (s.modifyVn v f).vn w = if w = v then (s.vn v).map f else s.vn w := by
  unfold modifyVn vn
  by_cases h : v = w
  · subst h
    by_cases hl : v < s.vbank.length
    · simp [List.getElem?_set, hl]
    · simp [List.getElem?_set, hl, List.getElem?_eq_none (Nat.le_of_not_lt hl)]
  · simp [List.getElem?_set_ne h, Ne.symm h]

@[simp] theorem op_modifyVn (v o : Nat) (f : Varnode → Varnode) :
    (s.modifyVn v f).op o = s.op o := rfl

@[simp] theorem block_modifyVn (v b : Nat) (f : Varnode → Varnode) :
    (s.modifyVn v f).block b = s.block b := rfl

@[simp] theorem vn_modifyOp (o v : Nat) (f : PcodeOp → PcodeOp) :
    (s.modifyOp o f).vn v = s.vn v := rfl

@[simp] theorem op_modifyOp (o p : Nat) (f : PcodeOp → PcodeOp) :
    (s.modifyOp o f).op p = if p = o then (s.op o).map f else s.op p := by
  unfold modifyOp op
  by_cases h : o = p
  · subst h
    by_cases hl : o < s.obank.length
    · simp [List.getElem?_set, hl]
    · simp [List.getElem?_set, hl, List.getElem?_eq_none (Nat.le_of_not_lt hl)]
  · simp [List.getElem?_set_ne h, Ne.symm h]

@[simp] theorem block_modifyOp (o b : Nat) (f : PcodeOp → PcodeOp) :
    (s.modifyOp o f).block b = s.block b := rfl

@[simp] theorem vn_modifyBlock (b v : Nat) (f : BlockBasic → BlockBasic) :
    (s.modifyBlock b f).vn v = s.vn v := rfl

@[simp] theorem op_modifyBlock (b o : Nat) (f : BlockBasic → BlockBasic) :
    (s.modifyBlock b f).op o = s.op o := rfl

/-- A slot past the end of the varnode bank is empty. -/
theorem vn_eq_none_of_le {v : Nat} (h : s.vbank.length ≤ v) : s.vn v = none := by
  simp [vn, List.getElem?_eq_none h]

/-- A slot past the end of the op bank is empty. -/
theorem op_eq_none_of_le {o : Nat} (h : s.obank.length ≤ o) : s.op o = none := by
  simp [op, List.getElem?_eq_none h]

@[simp] theorem createVn_snd (x : Varnode) : (s.createVn x).2 = s.vbank.length := rfl

@[simp] theorem vn_createVn (x : Varnode) (w : Nat) :
    (s.createVn x).1.vn w = if w = s.vbank.length then some x else s.vn w := by
  unfold createVn vn
  simp only [List.getElem?_append]
  split_ifs with h1 h2 h2
  · omega
  · rfl
  · simp [h2]
  · simp [List.getElem?_eq_none (Nat.le_of_not_lt h1), List.getElem?_eq_none (by
      simp; omega : [some x].length ≤ w - s.vbank.length)]

@[simp] theorem op_createVn (x : Varnode) (o : Nat) : (s.createVn x).1.op o = s.op o := rfl

@[simp] theorem inrefsOf_createVn (x : Varnode) (o : Nat) :
    (s.createVn x).1.inrefsOf o = s.inrefsOf o := rfl

@[simp] theorem getIn_createVn (x : Varnode) (o i : Nat) :
    (s.createVn x).1.getIn o i = s.getIn o i := rfl

@[simp] theorem outputOf_createVn (x : Varnode) (o : Nat) :
    (s.createVn x).1.outputOf o = s.outputOf o := rfl

@[simp] theorem block_createVn (x : Varnode) (b : Nat) :
    (s.createVn x).1.block b = s.block b := rfl

@[simp] theorem createOp_snd (p : PcodeOp) : (s.createOp p).2 = s.obank.length := rfl

@[simp] theorem op_createOp (p : PcodeOp) (o : Nat) :
    (s.createOp p).1.op o = if o = s.obank.length then some p else s.op o := by
  unfold createOp op
  simp only [List.getElem?_append]
  split_ifs with h1 h2 h2
  · omega
  · rfl
  · simp [h2]
  · simp [List.getElem?_eq_none (Nat.le_of_not_lt h1), List.getElem?_eq_none (by
      simp; omega : [some p].length ≤ o - s.obank.length)]

@[simp] theorem vn_createOp (p : PcodeOp) (v : Nat) : (s.createOp p).1.vn v = s.vn v := rfl

@[simp] theorem block_createOp (p : PcodeOp) (b : Nat) :
    (s.createOp p).1.block b = s.block b := rfl

@[simp] theorem vn_destroyVn (v w : Nat) :
    (s.destroyVn v).vn w = if w = v then none else s.vn w := by
  unfold destroyVn vn
  by_cases h : v = w
  · subst h
    by_cases hl : v < s.vbank.length <;> simp [List.getElem?_set, hl]
  · simp [List.getElem?_set_ne h, Ne.symm h]

@[simp] theorem op_destroyVn (v o : Nat) : (s.destroyVn v).op o = s.op o := rfl

@[simp] theorem inrefsOf_destroyVn (v o : Nat) : (s.destroyVn v).inrefsOf o = s.inrefsOf o := rfl

@[simp] theorem outputOf_destroyVn (v o : Nat) : (s.destroyVn v).outputOf o = s.outputOf o := rfl

theorem descendOf_destroyVn (v w : Nat) :
    (s.destroyVn v).descendOf w = if w = v then [] else s.descendOf w := by
  unfold descendOf; split_ifs with h <;> simp [h]

theorem defOf_destroyVn (v w : Nat) :
    (s.destroyVn v).defOf w = if w = v then none else s.defOf w := by
  unfold defOf; split_ifs with h <;> simp [h]

/-! ### The four views under the primitives -/

theorem descendOf_modifyVn (v w : Nat) (f : Varnode → Varnode) :
    (s.modifyVn v f).descendOf w =
      if w = v then ((s.vn v).map fun x => (f x).descend).getD [] else s.descendOf w := by
  unfold descendOf
  split_ifs with h
  · subst h; cases h : s.vn w <;> simp [h]
  · simp [h]

theorem defOf_modifyVn (v w : Nat) (f : Varnode → Varnode) :
    (s.modifyVn v f).defOf w =
      if w = v then (s.vn v).bind fun x => (f x).defOp else s.defOf w := by
  unfold defOf
  split_ifs with h
  · subst h; cases h : s.vn w <;> simp [h]
  · simp [h]

theorem inrefsOf_modifyOp (o p : Nat) (f : PcodeOp → PcodeOp) :
    (s.modifyOp o f).inrefsOf p =
      if p = o then ((s.op o).map fun x => (f x).inrefs).getD [] else s.inrefsOf p := by
  unfold inrefsOf
  split_ifs with h
  · subst h; cases h : s.op p <;> simp [h]
  · simp [h]

theorem outputOf_modifyOp (o p : Nat) (f : PcodeOp → PcodeOp) :
    (s.modifyOp o f).outputOf p =
      if p = o then (s.op o).bind fun x => (f x).output else s.outputOf p := by
  unfold outputOf
  split_ifs with h
  · subst h; cases h : s.op p <;> simp [h]
  · simp [h]

@[simp] theorem descendOf_modifyOp (o w : Nat) (f : PcodeOp → PcodeOp) :
    (s.modifyOp o f).descendOf w = s.descendOf w := rfl

@[simp] theorem defOf_modifyOp (o w : Nat) (f : PcodeOp → PcodeOp) :
    (s.modifyOp o f).defOf w = s.defOf w := rfl

@[simp] theorem inrefsOf_modifyVn (v p : Nat) (f : Varnode → Varnode) :
    (s.modifyVn v f).inrefsOf p = s.inrefsOf p := rfl

@[simp] theorem outputOf_modifyVn (v p : Nat) (f : Varnode → Varnode) :
    (s.modifyVn v f).outputOf p = s.outputOf p := rfl

@[simp] theorem descendOf_setInput (o i w : Nat) (x : Option Nat) :
    (s.setInput o i x).descendOf w = s.descendOf w := rfl

@[simp] theorem vn_setInput (o i w : Nat) (x : Option Nat) :
    (s.setInput o i x).vn w = s.vn w := rfl

@[simp] theorem descendOf_setOutputField (o w : Nat) (x : Option Nat) :
    (s.setOutputField o x).descendOf w = s.descendOf w := rfl

@[simp] theorem vn_setOutputField (o w : Nat) (x : Option Nat) :
    (s.setOutputField o x).vn w = s.vn w := rfl

@[simp] theorem defOf_setOutputField (o w : Nat) (x : Option Nat) :
    (s.setOutputField o x).defOf w = s.defOf w := rfl

@[simp] theorem defOf_setInput (o i w : Nat) (x : Option Nat) :
    (s.setInput o i x).defOf w = s.defOf w := rfl

@[simp] theorem inrefsOf_addDescend (v o p : Nat) :
    (s.addDescend v o).inrefsOf p = s.inrefsOf p := rfl

@[simp] theorem inrefsOf_eraseDescend (v o p : Nat) :
    (s.eraseDescend v o).inrefsOf p = s.inrefsOf p := rfl

@[simp] theorem outputOf_addDescend (v o p : Nat) :
    (s.addDescend v o).outputOf p = s.outputOf p := rfl

@[simp] theorem outputOf_eraseDescend (v o p : Nat) :
    (s.eraseDescend v o).outputOf p = s.outputOf p := rfl

@[simp] theorem inrefsOf_setDefField (v p : Nat) (d : Option Nat) :
    (s.setDefField v d).inrefsOf p = s.inrefsOf p := rfl

@[simp] theorem outputOf_setDefField (v p : Nat) (d : Option Nat) :
    (s.setDefField v d).outputOf p = s.outputOf p := rfl

@[simp] theorem defOf_addDescend (v o w : Nat) : (s.addDescend v o).defOf w = s.defOf w := by
  unfold addDescend; rw [defOf_modifyVn]; split_ifs with h <;> [subst h; skip] <;> rfl

@[simp] theorem defOf_eraseDescend (v o w : Nat) : (s.eraseDescend v o).defOf w = s.defOf w := by
  unfold eraseDescend; rw [defOf_modifyVn]; split_ifs with h <;> [subst h; skip] <;> rfl

/-- An edit of the input slots of one op, read back. -/
theorem inrefsOf_modifyInrefs (o q : Nat) (g : List (Option Nat) → List (Option Nat)) :
    (s.modifyInrefs o g).inrefsOf q =
      if q = o ∧ (s.op o).isSome then g (s.inrefsOf o) else s.inrefsOf q := by
  rw [modifyInrefs, inrefsOf_modifyOp]
  by_cases hq : q = o
  · subst hq; cases h : s.op q <;> simp [inrefsOf, h]
  · simp [hq]

@[simp] theorem outputOf_modifyInrefs (o q : Nat) (g : List (Option Nat) → List (Option Nat)) :
    (s.modifyInrefs o g).outputOf q = s.outputOf q := by
  rw [modifyInrefs, outputOf_modifyOp]
  split_ifs with hq
  · subst hq; cases h : s.op q <;> simp [outputOf, h]
  · rfl

@[simp] theorem vn_modifyInrefs (o w : Nat) (g : List (Option Nat) → List (Option Nat)) :
    (s.modifyInrefs o g).vn w = s.vn w := rfl

@[simp] theorem descendOf_modifyInrefs (o w : Nat) (g : List (Option Nat) → List (Option Nat)) :
    (s.modifyInrefs o g).descendOf w = s.descendOf w := rfl

@[simp] theorem defOf_modifyInrefs (o w : Nat) (g : List (Option Nat) → List (Option Nat)) :
    (s.modifyInrefs o g).defOf w = s.defOf w := rfl

theorem isSome_vn_modifyVn (v w : Nat) (f : Varnode → Varnode) :
    ((s.modifyVn v f).vn w).isSome = (s.vn w).isSome := by
  rw [vn_modifyVn]; split_ifs with h <;> [subst h; skip] <;> simp

theorem isSome_op_modifyOp (o p : Nat) (f : PcodeOp → PcodeOp) :
    ((s.modifyOp o f).op p).isSome = (s.op p).isSome := by
  rw [op_modifyOp]; split_ifs with h <;> [subst h; skip] <;> simp

@[simp] theorem op_setDefField (v o : Nat) (d : Option Nat) :
    (s.setDefField v d).op o = s.op o := rfl

@[simp] theorem vn_setDefField_isSome (v w : Nat) (d : Option Nat) :
    ((s.setDefField v d).vn w).isSome = (s.vn w).isSome := isSome_vn_modifyVn ..

theorem descendOf_addDescend {v o : Nat} (hv : (s.vn v).isSome) (w : Nat) :
    (s.addDescend v o).descendOf w = if w = v then s.descendOf v ++ [o] else s.descendOf w := by
  obtain ⟨x, hx⟩ := Option.isSome_iff_exists.mp hv
  rw [addDescend, descendOf_modifyVn]
  split_ifs <;> simp [descendOf, hx]

theorem descendOf_eraseDescend (v o w : Nat) :
    (s.eraseDescend v o).descendOf w =
      if w = v then (s.descendOf v).erase o else s.descendOf w := by
  unfold eraseDescend
  rw [descendOf_modifyVn]
  cases h : s.vn v <;> simp [descendOf, h]

theorem inrefsOf_setInput (o i p : Nat) (x : Option Nat) :
    (s.setInput o i x).inrefsOf p = if p = o then (s.inrefsOf o).set i x else s.inrefsOf p := by
  unfold setInput
  rw [inrefsOf_modifyInrefs]
  by_cases hp : p = o <;> cases h : s.op o <;> simp_all [inrefsOf]

@[simp] theorem descendOf_setDefField (v w : Nat) (d : Option Nat) :
    (s.setDefField v d).descendOf w = s.descendOf w := by
  unfold setDefField
  rw [descendOf_modifyVn]
  split_ifs with hw
  · subst hw; cases h : s.vn w <;> simp [descendOf, h]
  · rfl

theorem defOf_setDefField (v w : Nat) (d : Option Nat) :
    (s.setDefField v d).defOf w = if w = v ∧ (s.vn v).isSome then d else s.defOf w := by
  unfold setDefField
  rw [defOf_modifyVn]
  cases h : s.vn v <;> by_cases hw : w = v <;> simp [defOf, h, hw]

theorem outputOf_setOutputField (o p : Nat) (x : Option Nat) :
    (s.setOutputField o x).outputOf p = if p = o ∧ (s.op o).isSome then x else s.outputOf p := by
  unfold setOutputField
  rw [outputOf_modifyOp]
  cases h : s.op o <;> by_cases hp : p = o <;> simp [outputOf, h, hp]

@[simp] theorem inrefsOf_setOutputField (o p : Nat) (x : Option Nat) :
    (s.setOutputField o x).inrefsOf p = s.inrefsOf p := by
  unfold setOutputField
  rw [inrefsOf_modifyOp]
  split_ifs with hp
  · subst hp; cases h : s.op p <;> simp [inrefsOf, h]
  · rfl

@[simp] theorem outputOf_setInput (o i p : Nat) (x : Option Nat) :
    (s.setInput o i x).outputOf p = s.outputOf p := outputOf_modifyInrefs ..

/-! ### Storage and op-codes under the primitives -/

/-- An edit of a varnode that keeps its storage and size keeps `storageOf`. -/
theorem storageOf_modifyVn {v : Nat} {f : Varnode → Varnode}
    (hf : ∀ x, (f x).loc = x.loc ∧ (f x).size = x.size) (w : Nat) :
    (s.modifyVn v f).storageOf w = s.storageOf w := by
  unfold storageOf; rw [vn_modifyVn]
  split_ifs with h
  · subst h; cases s.vn w <;> simp [hf]
  · rfl

@[simp] theorem storageOf_addDescend (v o w : Nat) :
    (s.addDescend v o).storageOf w = s.storageOf w := by
  unfold addDescend; exact storageOf_modifyVn (fun _ => by constructor <;> rfl) w

@[simp] theorem storageOf_eraseDescend (v o w : Nat) :
    (s.eraseDescend v o).storageOf w = s.storageOf w := by
  unfold eraseDescend; exact storageOf_modifyVn (fun _ => by constructor <;> rfl) w

@[simp] theorem storageOf_setDefField (v w : Nat) (d : Option Nat) :
    (s.setDefField v d).storageOf w = s.storageOf w := by
  unfold setDefField; exact storageOf_modifyVn (fun _ => by constructor <;> rfl) w

@[simp] theorem storageOf_modifyOp (o w : Nat) (f : PcodeOp → PcodeOp) :
    (s.modifyOp o f).storageOf w = s.storageOf w := rfl

@[simp] theorem storageOf_modifyInrefs (o w : Nat) (g : List (Option Nat) → List (Option Nat)) :
    (s.modifyInrefs o g).storageOf w = s.storageOf w := rfl

@[simp] theorem storageOf_setInput (o i w : Nat) (x : Option Nat) :
    (s.setInput o i x).storageOf w = s.storageOf w := rfl

@[simp] theorem storageOf_setOutputField (o w : Nat) (x : Option Nat) :
    (s.setOutputField o x).storageOf w = s.storageOf w := rfl

@[simp] theorem storageOf_createVn (x : Varnode) (w : Nat) :
    (s.createVn x).1.storageOf w =
      if w = s.vbank.length then some (x.loc, x.size) else s.storageOf w := by
  unfold storageOf; rw [vn_createVn]; split_ifs <;> rfl

@[simp] theorem length_vbank_modifyVn (v : Nat) (f : Varnode → Varnode) :
    (s.modifyVn v f).vbank.length = s.vbank.length := List.length_set ..

@[simp] theorem length_vbank_modifyOp (o : Nat) (f : PcodeOp → PcodeOp) :
    (s.modifyOp o f).vbank.length = s.vbank.length := rfl

@[simp] theorem length_vbank_createVn (x : Varnode) :
    (s.createVn x).1.vbank.length = s.vbank.length + 1 := List.length_append ..

@[simp] theorem codeOf_modifyVn (v o : Nat) (f : Varnode → Varnode) :
    (s.modifyVn v f).codeOf o = s.codeOf o := rfl

@[simp] theorem codeOf_createVn (x : Varnode) (o : Nat) :
    (s.createVn x).1.codeOf o = s.codeOf o := rfl

theorem codeOf_modifyOp (o p : Nat) (f : PcodeOp → PcodeOp) :
    (s.modifyOp o f).codeOf p =
      if p = o then ((s.op o).map fun x => (f x).code).getD .max else s.codeOf p := by
  unfold codeOf; rw [op_modifyOp]
  split_ifs with h
  · subst h; cases s.op p <;> rfl
  · rfl

@[simp] theorem codeOf_modifyInrefs (o p : Nat) (g : List (Option Nat) → List (Option Nat)) :
    (s.modifyInrefs o g).codeOf p = s.codeOf p := by
  rw [modifyInrefs, codeOf_modifyOp]
  split_ifs with h
  · subst h; cases h : s.op p <;> simp [codeOf, h]
  · rfl

@[simp] theorem codeOf_setInput (o i p : Nat) (x : Option Nat) :
    (s.setInput o i x).codeOf p = s.codeOf p := codeOf_modifyInrefs ..

@[simp] theorem codeOf_setOutputField (o p : Nat) (x : Option Nat) :
    (s.setOutputField o x).codeOf p = s.codeOf p := by
  rw [setOutputField, codeOf_modifyOp]
  split_ifs with h
  · subst h; cases h : s.op p <;> simp [codeOf, h]
  · rfl

end Funcdata

end GhidraDec
