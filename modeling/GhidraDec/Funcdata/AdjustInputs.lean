import Mathlib.Data.List.Sort
import GhidraDec.Funcdata.InputVarnode
import GhidraDec.Funcdata.ReplaceReads

/-!
# Adjusting the Input Varnodes of a Range

`Funcdata::adjustInputVarnodes(addr, size)` (`funcdata_varnode.cc`) makes one input varnode
fill the range `[addr, addr + size)`. It first collects the inputs whose address lies in the
range, and throws before any edit when one of them runs past the range's last byte. Then, for
each of them, it builds a `SUBPIECE` that will read the coming input, places it first in
block 0, hands it the old input's readers and deletes the old input. Last it creates the new
varnode and marks it an input with `setInputVarnode`, and makes each `SUBPIECE` read it.

An input that starts before `addr` and overlaps the range is not among those collected, so
nothing checks it up front: `setInputVarnode` finds it only after the edits and throws then,
and the exception leaves the `SUBPIECE`s in the store with no input in slot 0 and the old
inputs gone.

The model returns the store as the exception leaves it beside the message. The entry address
of the function (`getAddress`) is a parameter, `Address::justifiedContain` (not part of the
sources) is modelled from its documented meaning, and the write mask `setWriteMask` sets on
the new input is read by no modelled function and is left out.

## Main results

* `adjustInputVarnodes_of_sticking_out`: an input of the range that runs past its last byte
  makes the call throw with the store untouched;
* `adjustLoop_length`: each input the second loop pulls out adds one op to the store;
* `adjustInputVarnodes_late_error`: when `setInputVarnode` throws, the store the exception
  leaves holds one new op per input pulled out;
* `adjustInputVarnodes_overlap_after_edits`: with inputs `[0, 4)` and `[4, 6)`, adjusting
  `[2, 6)` throws after replacing the second input by a `SUBPIECE`.
-/

namespace GhidraDec

/-- `Address::justifiedContain(sz, op2, sz2, false)`: where the `sz2` bytes at `op2` lie
within the `sz` bytes at this address, counted from its first byte — from its last byte in a
big-endian space — or `-1` when they do not lie inside. -/
def Address.justifiedContain (a : Address) (sz : Nat) (op2 : Address) (sz2 : Nat) : Int :=
  if a.space = op2.space ∧ a.offset ≤ op2.offset ∧ op2.offset + sz2 ≤ a.offset + sz then
    if a.space.bigEndian then ((a.offset + sz - (op2.offset + sz2) : Nat) : Int)
    else ((op2.offset - a.offset : Nat) : Int)
  else -1

namespace Funcdata

variable (s : Funcdata)

/-- The order of the def index on the varnodes at two indices. -/
def defLe (v w : Nat) : Bool :=
  match s.vn v, s.vn w with
  | some x, some y => !y.defLt x
  | _, _ => true

/-- The inputs from `beginDef(Varnode::input, addr)` to `endDef(Varnode::input, endaddr)`:
those whose address lies in `[addr, endaddr]`, in def order. -/
def inputsIn (addr endaddr : Address) : List Nat :=
  ((List.range s.vbank.length).filter fun v =>
    (s.vn v).any fun x => x.input && !x.loc.lt addr && !endaddr.lt x.loc).insertionSort
      fun v w => s.defLe v w = true

/-- The first loop of `adjustInputVarnodes` passes when no input of the range runs past
`endaddr`. -/
def adjustCheck (inlist : List Nat) (endaddr : Address) : Bool :=
  inlist.all fun v => (s.vn v).all fun x => x.offset + (x.size - 1) ≤ endaddr.offset

/-- One round of the second loop of `adjustInputVarnodes` on the input `v`: a `SUBPIECE` at
the justified offset of `v` within the range, its output at `v`'s storage, placed first in
block 0, takes over `v`'s readers, and `v` is deleted. The new output is returned. -/
def adjustStep (baseaddr addr : Address) (size v : Nat) :
    Except (String × Funcdata) (Funcdata × Nat) :=
  match s.vn v with
  | none => .ok (s, v)
  | some x =>
    let sa := addr.justifiedContain size x.loc x.size
    if !x.input || sa < 0 || size ≤ x.size then .error ("Bad adjustment to input varnode", s)
    else
      let (s, subop) := s.newOp 2 baseaddr
      let s := s.opSetOpcode subop .subpiece
      let (s, c) := s.newConstant 4 sa.toNat
      let s := s.opSetInput subop c 1
      let (s, newvn) := s.newVarnodeOut x.size x.loc subop
      let s := s.opInsertBegin subop 0
      let s := s.totalReplace v newvn
      .ok (s.destroyVn v, newvn)

/-- The second loop of `adjustInputVarnodes`: the new outputs, one per input. -/
def adjustLoop (baseaddr addr : Address) (size : Nat) :
    Funcdata → List Nat → Except (String × Funcdata) (Funcdata × List Nat)
  | s, [] => .ok (s, [])
  | s, v :: vs => do
    let (s, newvn) ← s.adjustStep baseaddr addr size v
    let (s, rest) ← adjustLoop baseaddr addr size s vs
    pure (s, newvn :: rest)

/-- `Funcdata::adjustInputVarnodes`: the store after the call, or the message of the
exception together with the store as the exception leaves it. -/
def adjustInputVarnodes (baseaddr addr : Address) (size : Nat) :
    Except (String × Funcdata) Funcdata := do
  let endaddr := addr.add (size - 1)
  let inlist := s.inputsIn addr endaddr
  if !s.adjustCheck inlist endaddr then throw ("Cannot properly adjust input varnodes", s)
  let (t, newlist) ← adjustLoop baseaddr addr size s inlist
  let (t, v) := t.newVarnode size addr
  match t.setInputVarnode v with
  | .error e => throw (e, t)
  | .ok (t, invn) =>
    pure (newlist.foldl (fun t newvn => match t.defOf newvn with
      | some subop => t.opSetInput subop invn 0
      | none => t) t)

variable {s}

/-! ### The check before the edits -/

/-- **An input of the range that runs past its last byte makes the call throw before any
edit**: the exception leaves the store as it was. -/
theorem adjustInputVarnodes_of_sticking_out {baseaddr addr : Address} {size : Nat}
    (h : s.adjustCheck (s.inputsIn addr (addr.add (size - 1))) (addr.add (size - 1)) = false) :
    s.adjustInputVarnodes baseaddr addr size =
      .error ("Cannot properly adjust input varnodes", s) := by
  simp [adjustInputVarnodes, h, throw, throwThe, MonadExceptOf.throw, bind, Except.bind]

/-! ### Ops added by the second loop -/

@[simp] theorem length_obank_modifyVn (v : Nat) (f : Varnode → Varnode) :
    (s.modifyVn v f).obank.length = s.obank.length := rfl

@[simp] theorem length_obank_modifyOp (o : Nat) (f : PcodeOp → PcodeOp) :
    (s.modifyOp o f).obank.length = s.obank.length := List.length_set ..

@[simp] theorem length_obank_modifyBlock (b : Nat) (f : BlockBasic → BlockBasic) :
    (s.modifyBlock b f).obank.length = s.obank.length := rfl

@[simp] theorem length_obank_createVn (x : Varnode) :
    (s.createVn x).1.obank.length = s.obank.length := rfl

@[simp] theorem length_obank_destroyVn (v : Nat) :
    (s.destroyVn v).obank.length = s.obank.length := rfl

@[simp] theorem length_obank_newOp (n : Nat) (pc : Address) :
    (s.newOp n pc).1.obank.length = s.obank.length + 1 := by
  simp [newOp, createOp]

@[simp] theorem length_obank_opInsert (o b k : Nat) :
    (s.opInsert o b k).obank.length = s.obank.length := by
  simp [opInsert]

theorem length_obank_totalReplace (v newv : Nat) :
    (s.totalReplace v newv).obank.length = s.obank.length := by
  unfold totalReplace
  generalize s.descendOf v = L
  induction L generalizing s with
  | nil => rfl
  | cons o L ih => rw [List.foldl_cons, ih, length_obank_opSetInput]

/-- A round of the second loop adds the one `SUBPIECE` it builds. -/
theorem adjustStep_length {baseaddr addr : Address} {size v : Nat} {t : Funcdata} {w : Nat}
    (hx : (s.vn v).isSome) (h : s.adjustStep baseaddr addr size v = .ok (t, w)) :
    t.obank.length = s.obank.length + 1 := by
  obtain ⟨x, hx⟩ := Option.isSome_iff_exists.1 hx
  simp only [adjustStep, hx] at h
  split_ifs at h
  cases h
  simp [opInsertBegin, newVarnodeOut, setOutputField, opSetOpcode, newConstant,
    length_obank_totalReplace, length_obank_opSetInput]

theorem isSome_vn_createVn (x : Varnode) {w : Nat} (hw : (s.vn w).isSome) :
    ((s.createVn x).1.vn w).isSome := by
  rw [vn_createVn, if_neg (Nat.ne_of_lt (lt_of_vn_isSome hw))]
  exact hw

theorem isSome_vn_totalReplace (v newv : Nat) {w : Nat} (hw : (s.vn w).isSome) :
    ((s.totalReplace v newv).vn w).isSome := by
  unfold totalReplace
  generalize s.descendOf v = L
  induction L generalizing s with
  | nil => exact hw
  | cons o L ih => exact ih (isSome_vn_opSetInput _ _ _ _ hw)

/-- A round of the second loop deletes only the input it pulls out. -/
theorem isSome_vn_adjustStep {baseaddr addr : Address} {size v : Nat} {t : Funcdata} {w : Nat}
    (h : s.adjustStep baseaddr addr size v = .ok (t, w)) {u : Nat} (hu : u ≠ v)
    (hs : (s.vn u).isSome) : (t.vn u).isSome := by
  cases hx : s.vn v with
  | none => simp only [adjustStep, hx] at h; cases h; exact hs
  | some x =>
    simp only [adjustStep, hx] at h
    split_ifs at h
    cases h
    rw [vn_destroyVn, if_neg hu]
    refine isSome_vn_totalReplace _ _ ?_
    simp only [opInsertBegin, vn_opInsert, newVarnodeOut, setOutputField, vn_modifyOp]
    refine isSome_vn_createVn _ (isSome_vn_opSetInput _ _ _ _ (isSome_vn_createVn _ ?_))
    simpa [newOp, opSetOpcode] using hs

/-- **Each input the second loop pulls out adds one op**: after the loop over live inputs,
the store holds one op more per input, and there is one new output per input. -/
theorem adjustLoop_length {baseaddr addr : Address} {size : Nat} :
    ∀ (vs : List Nat) {s t : Funcdata} {ws : List Nat}, vs.Nodup → (∀ v ∈ vs, (s.vn v).isSome) →
      adjustLoop baseaddr addr size s vs = .ok (t, ws) →
        t.obank.length = s.obank.length + vs.length ∧ ws.length = vs.length
  | [], s, t, ws, _, _, h => by cases h; simp
  | v :: vs, s, t, ws, hnd, hlive, h => by
    simp only [adjustLoop, bind, Except.bind] at h
    rcases hstep : s.adjustStep baseaddr addr size v with e | ⟨s₁, w⟩
    · rw [hstep] at h; cases h
    rw [hstep] at h
    dsimp only at h
    rcases hrest : adjustLoop baseaddr addr size s₁ vs with e | ⟨s₂, rest⟩
    · rw [hrest] at h; cases h
    rw [hrest] at h
    cases h
    have h₁ := adjustStep_length (hlive v (List.mem_cons_self _ _)) hstep
    have ih := adjustLoop_length vs (List.nodup_cons.1 hnd).2
      (fun u hu => isSome_vn_adjustStep hstep (fun he => (List.nodup_cons.1 hnd).1 (he ▸ hu))
        (hlive u (List.mem_cons_of_mem _ hu))) hrest
    simp only [List.length_cons]
    omega

theorem adjustStep_error {baseaddr addr : Address} {size v : Nat} {e : String}
    {t : Funcdata} (h : s.adjustStep baseaddr addr size v = .error (e, t)) :
    e = "Bad adjustment to input varnode" := by
  unfold adjustStep at h
  split at h
  · cases h
  · dsimp only at h
    split_ifs at h
    · cases h; rfl

theorem adjustLoop_error {baseaddr addr : Address} {size : Nat} :
    ∀ (vs : List Nat) {s t : Funcdata} {e : String},
      adjustLoop baseaddr addr size s vs = .error (e, t) → e = "Bad adjustment to input varnode"
  | [], _, _, _, h => by cases h
  | v :: vs, s, t, e, h => by
    simp only [adjustLoop, bind, Except.bind] at h
    rcases hstep : s.adjustStep baseaddr addr size v with ⟨e', t'⟩ | ⟨s₁, w⟩
    · rw [hstep] at h; cases h; exact adjustStep_error hstep
    rw [hstep] at h
    dsimp only at h
    rcases hrest : adjustLoop baseaddr addr size s₁ vs with ⟨e', t'⟩ | ⟨s₂, rest⟩
    · rw [hrest] at h; cases h; exact adjustLoop_error vs hrest
    · rw [hrest] at h; cases h

theorem inputsIn_nodup (addr endaddr : Address) : (s.inputsIn addr endaddr).Nodup :=
  (List.perm_insertionSort _ _).nodup_iff.2 ((List.nodup_range _).filter _)

theorem isSome_of_mem_inputsIn {addr endaddr : Address} {v : Nat}
    (h : v ∈ s.inputsIn addr endaddr) : (s.vn v).isSome := by
  rw [inputsIn, (List.perm_insertionSort _ _).mem_iff, List.mem_filter] at h
  cases hv : s.vn v <;> simp_all

/-- **When `setInputVarnode` throws, the edits stay**: the store the exception leaves holds
one new op per input of the range, each a `SUBPIECE` whose slot 0 was never set. -/
theorem adjustInputVarnodes_late_error {baseaddr addr : Address} {size : Nat} {t : Funcdata}
    (h : s.adjustInputVarnodes baseaddr addr size = .error ("Overlapping input varnodes", t)) :
    t.obank.length = s.obank.length + (s.inputsIn addr (addr.add (size - 1))).length := by
  unfold adjustInputVarnodes at h
  by_cases hc : s.adjustCheck (s.inputsIn addr (addr.add (size - 1))) (addr.add (size - 1))
  · simp only [hc, Bool.not_true, Bool.false_eq_true, if_false, bind, Except.bind, pure,
      Except.pure] at h
    rcases hl : adjustLoop baseaddr addr size s (s.inputsIn addr (addr.add (size - 1))) with
      ⟨e', t'⟩ | ⟨t₁, ws⟩
    · rw [hl, Except.error.injEq, Prod.mk.injEq] at h
      exact absurd (h.1.symm.trans (adjustLoop_error _ hl)) (by decide)
    have hlen :=
      (adjustLoop_length _ (inputsIn_nodup _ _) (fun _ => isSome_of_mem_inputsIn) hl).1
    rw [hl] at h
    dsimp only at h
    split at h
    · obtain ⟨-, rfl⟩ := Prod.mk.inj (Except.error.inj h)
      simp [newVarnode, hlen]
    · cases h
  · simp [hc, throw, throwThe, MonadExceptOf.throw, bind, Except.bind] at h

/-- A function with two inputs of the processor space, 4 bytes at offset `0` and 2 bytes at
offset `4`, and an empty entry block. -/
def splitInputs : Funcdata where
  glb := ⟨⟨0, .constant, 2 ^ 64 - 1, false, 1⟩, ⟨2, .internal, 2 ^ 64 - 1, false, 1⟩,
    ⟨3, .iop, 2 ^ 64 - 1, false, 1⟩, rfl, rfl, rfl⟩
  vbank := [some { loc := ⟨⟨1, .processor, 0xffffffff, false, 1⟩, 0⟩, size := 4, input := true },
    some { loc := ⟨⟨1, .processor, 0xffffffff, false, 1⟩, 4⟩, size := 2, input := true }]
  obank := []
  bblocks := [{}]
  uniqId := 0

/-- **Adjusting `[2, 6)` throws after its edits.** The input at `4` lies in the range and is
replaced: a `SUBPIECE` (op 0, first in block 0, slot 0 empty) now defines varnode 3 at its
storage, and the input is deleted. The input at `0` starts before the range, so only
`setInputVarnode` sees that it overlaps the new input, and throws. -/
theorem adjustInputVarnodes_overlap_after_edits :
    ∃ t, splitInputs.adjustInputVarnodes ⟨⟨1, .processor, 0xffffffff, false, 1⟩, 0⟩
        ⟨⟨1, .processor, 0xffffffff, false, 1⟩, 2⟩ 4 = .error ("Overlapping input varnodes", t) ∧
      t.vn 1 = none ∧ t.codeOf 0 = .subpiece ∧ t.getIn 0 0 = none ∧ (t.block 0).ops = [0] ∧
      t.defOf 3 = some 0 ∧ t.storageOf 3 = splitInputs.storageOf 1 := by
  refine ⟨_, rfl, ?_⟩
  decide

end Funcdata

end GhidraDec
