import Mathlib.Logic.Relation
import GhidraDec.Funcdata.Linked

/-!
# Every Linkage Edit Keeps the Store Linked

This module finishes the edit-by-edit analysis of `GhidraDec.Funcdata.Linked` with the
edits that combine the others — `opUnlink`, `opDestroy`, `totalReplace` — and the output
factories, and packages the edits as one step relation, `LinkageEdit`. The step relation
records, for each edit, what the source needs of its arguments: the ops and varnodes it
names exist, and the slots it indexes are in range.

## Main results

* `Linked.totalReplace`: the loop of `totalReplace` keeps the invariant; its loop
  invariant is that the reader list of the replaced varnode is the part of the original
  list still to be visited (`descendOf_opSetInput_old`).
* `linkageEdit_preserves_linked`: every `LinkageEdit` step keeps `Linked`.
* `linked_of_linkageEdits`: `Linked` holds along every run of edits.
-/

namespace GhidraDec

namespace Funcdata

variable {s : Funcdata} {o v w i : Nat}

/-! ### Taking an op out of its block -/

/-- `opUninsert` only moves the op between the alive and dead lists. -/
theorem Linked.opUninsert (h : Linked s) (o : Nat) : Linked (s.opUninsert o) := by
  unfold Funcdata.opUninsert
  split
  · refine h.congr (fun _ => rfl) (fun p => ?_) (fun p => ?_)
    · rw [inrefsOf_modifyOp]; split_ifs with hp <;> [subst hp; rfl]
      cases hq : s.op p <;> simp [inrefsOf, hq]
    · rw [outputOf_modifyOp]; split_ifs with hp <;> [subst hp; rfl]
      cases hq : s.op p <;> simp [outputOf, hq]
  · exact h

/-- **`opUnlink` keeps the invariant.** -/
theorem Linked.opUnlink (h : Linked s) (o : Nat) : Linked (s.opUnlink o) := by
  unfold Funcdata.opUnlink
  have h1 := (h.opUnsetOutput o).opUnsetAllInputs o
  dsimp only
  split_ifs
  · exact h1.opUninsert o
  · exact h1

/-- **`opDestroy` keeps the invariant**, also when the output still has readers: their
slots are cleared by `destroyVarnode`. -/
theorem Linked.opDestroy (h : Linked s) (o : Nat) : Linked (s.opDestroy o) := by
  unfold Funcdata.opDestroy
  have h1 : Linked (match s.outputOf o with
      | some v => s.destroyVarnode v
      | none => s) := by
    split
    · exact h.destroyVarnode _
    · exact h
  have h2 := h1.opUnsetAllInputs o
  dsimp only
  split_ifs
  · exact h2.opUninsert o
  · exact h2

/-! ### The loop of `totalReplace` -/

theorem descendOf_addDescend_ne (hw : w ≠ v) : (s.addDescend w o).descendOf v = s.descendOf v := by
  rw [addDescend, descendOf_modifyVn, if_neg (Ne.symm hw)]

theorem descendOf_relinkInput_old (hi : s.getIn o i = some v) (hw : w ≠ v) :
    (s.relinkInput o w i).descendOf v = (s.descendOf v).erase o := by
  simp [relinkInput, hi, opUnsetInput_of_getIn hi, descendOf_addDescend_ne hw,
    descendOf_eraseDescend]

/-- One step of `totalReplace`: rewriting a slot that reads `v` to read another varnode
removes the op once from the reader list of `v`. -/
theorem descendOf_opSetInput_old (h : Linked s) (hi : s.getIn o i = some v) (hw : w ≠ v) :
    (s.opSetInput o w i).descendOf v = (s.descendOf v).erase o := by
  have hne : s.getIn o i ≠ some w := fun e => hw (Option.some.inj (e.symm.trans hi))
  have hvs := h.readers.vn_isSome hi
  unfold Funcdata.opSetInput
  rw [if_neg hne]
  rcases s.inputCandidate_spec w with ⟨hc, -⟩ | ⟨x, -, -, -, -, hc⟩
  · rw [hc]; exact descendOf_relinkInput_old hi hw
  · have hlt : v < s.vbank.length := by
      by_contra hle; simp [vn_eq_none_of_le (Nat.le_of_not_lt hle)] at hvs
    rw [hc]
    have hi' : (s.newConstant x.size x.offset).1.getIn o i = some v := hi
    rw [descendOf_relinkInput_old hi' (by simp [Funcdata.newConstant]; omega)]
    simp [Funcdata.newConstant, descendOf, Nat.ne_of_lt hlt]

/-- The loop of `totalReplace` keeps the invariant and empties the reader list of `v`:
each step takes the head of the list, whose op reads `v` in the slot `getSlot` finds. -/
theorem Linked.totalReplace_loop {newv : Nat} (hne : newv ≠ v) : ∀ (L : List Nat) {s : Funcdata},
    Linked s → (s.vn newv).isSome → s.descendOf v = L →
    Linked (L.foldl (fun s o => s.opSetInput o newv (s.getSlot o v)) s) ∧
      (L.foldl (fun s o => s.opSetInput o newv (s.getSlot o v)) s).descendOf v = []
  | [], _, h, _, hL => ⟨h, hL⟩
  | o :: rest, s, h, hw, hL => by
    have hi := getIn_getSlot (h.readers.mem_inrefs (hL ▸ List.mem_cons_self o rest))
    exact Linked.totalReplace_loop hne rest (h.opSetInput hw (lt_of_getIn hi))
      (isSome_vn_opSetInput _ _ _ _ hw) (by rw [descendOf_opSetInput_old h hi hne, hL]; simp)

/-- Replacing a varnode by itself changes nothing. -/
theorem totalReplace_self (h : ReadersMatch s) (v : Nat) : s.totalReplace v v = s := by
  suffices ∀ L : List Nat, (∀ o ∈ L, o ∈ s.descendOf v) →
      L.foldl (fun s o => s.opSetInput o v (s.getSlot o v)) s = s from
    this _ fun _ ho => ho
  intro L hL
  induction L with
  | nil => rfl
  | cons o L ih =>
    have hi := getIn_getSlot (h.mem_inrefs (hL o (List.mem_cons_self o L)))
    rw [List.foldl_cons, Funcdata.opSetInput, if_pos hi]
    exact ih fun p hp => hL p (List.mem_cons_of_mem o hp)

/-- **`totalReplace` keeps the invariant**, for every varnode and every replacement in the
store. -/
theorem Linked.totalReplace (h : Linked s) {newv : Nat} (hw : (s.vn newv).isSome) (v : Nat) :
    Linked (s.totalReplace v newv) := by
  by_cases hne : newv = v
  · subst hne; rwa [totalReplace_self h.readers]
  · exact (Linked.totalReplace_loop hne _ h hw rfl).1

/-! ### The output factories -/

/-- **`newVarnodeOut` keeps the invariant** on an op without output: the result is the one
of creating a free varnode and binding it to the op. -/
theorem Linked.newVarnodeOut (h : Linked s) (ho : (s.op o).isSome) (hout : s.outputOf o = none)
    (sz : Nat) (m : Address) : Linked (s.newVarnodeOut sz m o).1 := by
  have h1 := (h.createVn (x := { loc := m, size := sz }) rfl rfl).bindOutput
    (v := s.vbank.length) (o := o) (by simp) (by simpa using ho)
    (by rw [defOf_createVn, if_pos rfl]) (by simpa using hout)
  refine h1.congr (fun w => ?_) (fun p => ?_) (fun p => ?_)
  · by_cases hw : w = s.vbank.length <;> simp [Funcdata.newVarnodeOut, hw, setDefField]
  · simp [Funcdata.newVarnodeOut]
  · simp only [Funcdata.newVarnodeOut, outputOf_setOutputField, op_setDefField, op_createVn,
      outputOf_setDefField, outputOf_createVn, createVn_snd]

/-- **`newUniqueOut` keeps the invariant** on an op without output. -/
theorem Linked.newUniqueOut (h : Linked s) (ho : (s.op o).isSome) (hout : s.outputOf o = none)
    (sz : Nat) : Linked (s.newUniqueOut sz o).1 :=
  Linked.newVarnodeOut (s := { s with uniqId := s.uniqId + sz })
    (h.congr (fun _ => rfl) (fun _ => rfl) (fun _ => rfl)) ho hout _ _

/-! ### The op factory and op-code edits -/

/-- A new op whose slots are empty and that has no output keeps the invariant. -/
theorem Linked.createOp (h : Linked s) {p : PcodeOp} (hp : ∀ x ∈ p.inrefs, x = none)
    (hout : p.output = none) : Linked (s.createOp p).1 where
  readers q w := by
    by_cases hq : q = s.obank.length
    · subst hq
      have hz := h.readers s.obank.length w
      have hn : (some w : Option Nat) ∉ p.inrefs := fun hm => by simpa using hp _ hm
      simp only [inrefsOf, op_eq_none_of_le le_rfl, Option.map_none', Option.getD_none,
        List.count_nil] at hz
      show (s.descendOf w).count _ = _
      simp [inrefsOf, hz, List.count_eq_zero_of_not_mem hn]
    · simpa [descendOf, inrefsOf, hq] using h.readers q w
  defs q w := by
    by_cases hq : q = s.obank.length
    · subst hq
      have := (h.defs s.obank.length w).not.mpr (by simp [outputOf, op_eq_none_of_le le_rfl])
      simpa [defOf, outputOf, hout] using this
    · simpa [defOf, outputOf, hq] using h.defs q w
  consts := h.consts

/-- **`newUnique` keeps the invariant**: the counter of the `unique` space is not part of the
linkage. -/
theorem Linked.newUnique (h : Linked s) (sz : Nat) : Linked (s.newUnique sz).1 :=
  Linked.createVn (s := { s with uniqId := s.uniqId + sz })
    (h.congr (fun _ => rfl) (fun _ => rfl) (fun _ => rfl)) rfl rfl

/-- **`newOp` keeps the invariant.** -/
theorem Linked.newOp (h : Linked s) (n : Nat) (pc : Address) : Linked (s.newOp n pc).1 :=
  h.createOp (fun _ hx => (List.eq_of_mem_replicate hx)) rfl

/-- **`opSetOpcode` keeps the invariant**: the op-code is not part of the linkage. -/
theorem Linked.opSetOpcode (h : Linked s) (o : Nat) (c : OpCode) : Linked (s.opSetOpcode o c) :=
  h.congr (fun _ => rfl) (inrefsOf_opSetOpcode o · c) (outputOf_opSetOpcode o · c)

/-! ### Runs of edits -/

/-- One linkage edit of the store, with what the source needs of its arguments: the
varnodes and ops it links exist, the slots it indexes are in range, and the slots it
unlinks are filled (the source dereferences them). -/
inductive LinkageEdit : Funcdata → Funcdata → Prop
  | newOp (s : Funcdata) (n : Nat) (pc : Address) : LinkageEdit s (s.newOp n pc).1
  | newVarnode (s : Funcdata) (sz : Nat) (m : Address) : LinkageEdit s (s.newVarnode sz m).1
  | newConstant (s : Funcdata) (sz val : Nat) : LinkageEdit s (s.newConstant sz val).1
  | newUnique (s : Funcdata) (sz : Nat) : LinkageEdit s (s.newUnique sz).1
  | newVarnodeOut (s : Funcdata) (sz : Nat) (m : Address) (o : Nat) :
      (s.op o).isSome → s.outputOf o = none → LinkageEdit s (s.newVarnodeOut sz m o).1
  | newUniqueOut (s : Funcdata) (sz o : Nat) :
      (s.op o).isSome → s.outputOf o = none → LinkageEdit s (s.newUniqueOut sz o).1
  | opSetOpcode (s : Funcdata) (o : Nat) (c : OpCode) : LinkageEdit s (s.opSetOpcode o c)
  | opSetInput (s : Funcdata) (o v i : Nat) :
      (s.vn v).isSome → i < (s.inrefsOf o).length → LinkageEdit s (s.opSetInput o v i)
  | opUnsetInput (s : Funcdata) (o i : Nat) :
      (s.getIn o i).isSome → LinkageEdit s (s.opUnsetInput o i)
  | opSwapInput (s : Funcdata) (o i j : Nat) :
      i < (s.inrefsOf o).length → j < (s.inrefsOf o).length →
      LinkageEdit s (s.opSwapInput o i j)
  | opInsertInput (s : Funcdata) (o v i : Nat) :
      (s.vn v).isSome → (s.op o).isSome → i ≤ (s.inrefsOf o).length →
      LinkageEdit s (s.opInsertInput o v i)
  | opRemoveInput (s : Funcdata) (o i : Nat) :
      (s.getIn o i).isSome → LinkageEdit s (s.opRemoveInput o i)
  | opSetAllInput (s : Funcdata) (o : Nat) (vvec : List Nat) :
      (s.op o).isSome → (∀ v ∈ vvec, (s.vn v).isSome) → LinkageEdit s (s.opSetAllInput o vvec)
  | opSetOutput (s : Funcdata) (o v : Nat) :
      (s.op o).isSome → (s.vn v).isSome → LinkageEdit s (s.opSetOutput o v)
  | opUnsetOutput (s : Funcdata) (o : Nat) : LinkageEdit s (s.opUnsetOutput o)
  | opUnlink (s : Funcdata) (o : Nat) :
      (∀ x ∈ s.inrefsOf o, x.isSome) → LinkageEdit s (s.opUnlink o)
  | opDestroy (s : Funcdata) (o : Nat) : LinkageEdit s (s.opDestroy o)
  | destroyVarnode (s : Funcdata) (v : Nat) : LinkageEdit s (s.destroyVarnode v)
  | totalReplace (s : Funcdata) (v newv : Nat) :
      (s.vn newv).isSome → LinkageEdit s (s.totalReplace v newv)

/-- One linkage edit keeps the store linked: each constructor by the lemma of its edit. -/
theorem LinkageEdit.linked {s s' : Funcdata} (he : LinkageEdit s s') (h : Linked s) :
    Linked s' := by
  cases he with
  | newOp n pc => exact h.newOp n pc
  | newVarnode sz m => exact h.createVn rfl rfl
  | newConstant sz val => exact h.newConstant sz val
  | newUnique sz => exact h.newUnique sz
  | newVarnodeOut sz m o ho hout => exact h.newVarnodeOut ho hout sz m
  | newUniqueOut sz o ho hout => exact h.newUniqueOut ho hout sz
  | opSetOpcode o c => exact h.opSetOpcode o c
  | opSetInput o v i hv hi => exact h.opSetInput hv hi
  | opUnsetInput o i _ => exact h.opUnsetInput o i
  | opSwapInput o i j hi hj => exact h.opSwapInput hi hj
  | opInsertInput o v i hv ho hi => exact h.opInsertInput hv ho hi
  | opRemoveInput o i _ => exact h.opRemoveInput o i
  | opSetAllInput o vvec ho hv => exact h.opSetAllInput ho hv
  | opSetOutput o v ho hv => exact h.opSetOutput ho hv
  | opUnsetOutput o => exact h.opUnsetOutput o
  | opUnlink o _ => exact h.opUnlink o
  | opDestroy o => exact h.opDestroy o
  | destroyVarnode v => exact h.destroyVarnode v
  | totalReplace v newv hw => exact h.totalReplace hw v

/-- **Every linkage edit keeps the store linked**: whatever op, slot and varnode it is given,
an op reading one varnode in several slots and a constant re-used by the op that reads it
included. -/
theorem linkageEdit_preserves_linked {s s' : Funcdata} (h : Linked s) (he : LinkageEdit s s') :
    Linked s' :=
  he.linked h

/-- An `INT_ADD` (op 0) of a register (varnode 0) and the constant 4 (varnode 1). -/
def addStore : Funcdata where
  glb := ⟨⟨0, .constant, 2 ^ 64 - 1, false, 1⟩, ⟨1, .internal, 2 ^ 64 - 1, false, 1⟩,
    ⟨2, .iop, 2 ^ 64 - 1, false, 1⟩, rfl, rfl, rfl⟩
  vbank := [some { loc := ⟨⟨3, .processor, 0xffff, false, 1⟩, 0⟩, size := 4, descend := [0] },
    some { loc := ⟨⟨0, .constant, 2 ^ 64 - 1, false, 1⟩, 4⟩, size := 4, descend := [0] }]
  obank := [some { code := .intAdd, addr := ⟨⟨3, .processor, 0xffff, false, 1⟩, 0x10⟩,
                   inrefs := [some 0, some 1] }]
  bblocks := []
  uniqId := 0

/-- The two sharing cases of `opSetInput` on `addStore`: the constant, already read by the
op, put into slot 0 too becomes a new constant varnode 2; the register put into slot 1 too
is read twice by the op. -/
theorem linkageEdit_preserves_linked_addStore :
    Linked addStore ∧
      Linked (addStore.opSetInput 0 1 0) ∧ (addStore.opSetInput 0 1 0).getIn 0 0 = some 2 ∧
      Linked (addStore.opSetInput 0 0 1) ∧ (addStore.opSetInput 0 0 1).descendOf 0 = [0, 0] :=
  have h : Linked addStore := Linked.of_check (by decide)
  ⟨h, linkageEdit_preserves_linked h (.opSetInput _ 0 1 0 rfl (by decide)), by decide,
    linkageEdit_preserves_linked h (.opSetInput _ 0 0 1 rfl (by decide)), by decide⟩

/-- **The invariant holds along every run of edits** from a linked store. -/
theorem linked_of_linkageEdits {s s' : Funcdata} (h : Linked s)
    (hrun : Relation.ReflTransGen LinkageEdit s s') : Linked s' := by
  induction hrun with
  | refl => exact h
  | tail _ he ih => exact he.linked ih

end Funcdata

end GhidraDec
