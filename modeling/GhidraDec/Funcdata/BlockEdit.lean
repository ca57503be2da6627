import GhidraDec.Funcdata.ReplaceReads

/-!
# Block Edits Keep the Blocks Well Formed

The four insertions of `GhidraDec.Funcdata.BlockInsert` are the only steps that change the
op list of a block; every other step of the store builds ops and varnodes outside the blocks
or rewrites slots. This module models the edits of `funcdata_op.cc` and
`funcdata_varnode.cc` that are built on the insertions and shows that each keeps the blocks
well formed under the conditions its callers meet.

A step that leaves the blocks, the parents, the op-code of every placed op and the op every
placed `INDIRECT` shadows as they were keeps the blocks well formed (`BlocksKept`); building
a detached op, creating varnodes and rewriting a slot other than the annotation of a placed
`INDIRECT` are such steps. Each edit is then a chain of these steps around its insertions,
and the walks over a reader list carry well-formedness from one reader to the next.

## Main results

* `BlocksWellFormed.kept`: a step that keeps the placed ops keeps the blocks well formed;
* `newOpBefore_wellFormed`, `newIndirectOp_wellFormed`: the builders of `funcdata_op.cc`
  place their op once and keep the blocks well formed;
* `blockEdits_wellFormed`: the four insertions, under the conditions of
  `GhidraDec.Funcdata.BlockInsert`, and the two builders, together.
-/

namespace GhidraDec

namespace Funcdata

variable {s t u : Funcdata} {o p b v w i c : Nat}

/-! ### Steps that leave the placed ops alone -/

/-- `t` has the blocks of `s` and places the same ops, each with its op-code and, for an
`INDIRECT`, the op it shadows. -/
structure BlocksKept (s t : Funcdata) : Prop where
  bblocks : t.bblocks = s.bblocks
  parents : ∀ o, t.parentOf o = s.parentOf o
  placed : ∀ o, (s.parentOf o).isSome → t.codeOf o = s.codeOf o ∧
    (s.isIndirect o = true → t.iopTarget o = s.iopTarget o)

theorem BlocksKept.refl (s : Funcdata) : BlocksKept s s :=
  ⟨rfl, fun _ => rfl, fun _ _ => ⟨rfl, fun _ => rfl⟩⟩

theorem BlocksKept.trans (h₁ : BlocksKept s t) (h₂ : BlocksKept t u) : BlocksKept s u where
  bblocks := h₂.bblocks.trans h₁.bblocks
  parents o := (h₂.parents o).trans (h₁.parents o)
  placed o ho := by
    obtain ⟨hc₁, hi₁⟩ := h₁.placed o ho
    obtain ⟨hc₂, hi₂⟩ := h₂.placed o (by rw [h₁.parents]; exact ho)
    exact ⟨hc₂.trans hc₁,
      fun hi => (hi₂ (by simpa only [isIndirect, hc₁] using hi)).trans (hi₁ hi)⟩

/-- **A step that keeps the placed ops keeps the blocks well formed.** -/
theorem BlocksWellFormed.kept (h : s.BlocksWellFormed) (hk : BlocksKept s t) :
    t.BlocksWellFormed :=
  h.of_frame hk.bblocks hk.parents hk.placed

/-- A placed `INDIRECT` of well-formed blocks names the op it shadows. -/
theorem BlocksWellFormed.iopTarget_isSome (h : s.BlocksWellFormed) (hp : (s.parentOf o).isSome)
    (hi : s.isIndirect o = true) : (s.iopTarget o).isSome := by
  obtain ⟨b, hb⟩ := Option.isSome_iff_exists.mp hp
  obtain ⟨hbl, hmem⟩ := (h.parents o b).mp hb
  obtain ⟨A, C, hsplit⟩ := List.append_of_mem hmem
  have hg : s.Guarded (o :: C) := guarded_of_append (A := A) (hsplit ▸ (h.ops b hbl).guarded)
  obtain ⟨t, ht, -⟩ := hg.1 hi
  rw [ht]; rfl

/-- The op an `INDIRECT` shadows depends only on its second slot and on where the varnode
there lives. -/
theorem iopTarget_eq_of_storageOf (hg : t.getIn o 1 = s.getIn o 1)
    (hv : ∀ x, s.getIn o 1 = some x → t.storageOf x = s.storageOf x) :
    t.iopTarget o = s.iopTarget o := by
  unfold iopTarget
  rw [hg]
  cases hx : s.getIn o 1 with
  | none => rfl
  | some x =>
    have := hv x hx
    unfold storageOf at this
    cases ht : t.vn x <;> cases hs : s.vn x <;> simp_all

theorem iopTarget_eq_of_isSome (hg : t.getIn o 1 = s.getIn o 1)
    (hv : ∀ x < s.vbank.length, t.storageOf x = s.storageOf x) (hs : (s.iopTarget o).isSome) :
    t.iopTarget o = s.iopTarget o := by
  refine iopTarget_eq_of_storageOf hg fun x hx => hv x (lt_of_vn_isSome ?_)
  cases hx' : s.vn x with
  | none => simp [iopTarget, hx, hx'] at hs
  | some _ => rfl

/-- **A step that keeps the blocks, the parents, the op-code of each placed op, the second
slot of each placed `INDIRECT` and the storage of the varnodes keeps the placed ops.** -/
theorem BlocksWellFormed.blocksKept (h : s.BlocksWellFormed) (hb : t.bblocks = s.bblocks)
    (hp : ∀ o, t.parentOf o = s.parentOf o)
    (hc : ∀ o, (s.parentOf o).isSome → t.codeOf o = s.codeOf o ∧
      (s.isIndirect o = true → t.getIn o 1 = s.getIn o 1))
    (hv : ∀ x < s.vbank.length, t.storageOf x = s.storageOf x) : BlocksKept s t :=
  ⟨hb, hp, fun o ho => ⟨(hc o ho).1, fun hi =>
    iopTarget_eq_of_isSome ((hc o ho).2 hi) hv (h.iopTarget_isSome ho hi)⟩⟩

theorem BlocksWellFormed.kept_of_extends (h : s.BlocksWellFormed) (he : Extends s t)
    (hb : t.bblocks = s.bblocks) (hp : ∀ o, t.parentOf o = s.parentOf o) : BlocksKept s t :=
  h.blocksKept hb hp (fun o ho => ⟨he.codeOf o (lt_of_parentOf_isSome ho),
    fun _ => he.getIn o (lt_of_parentOf_isSome ho) 1⟩)
    fun x hx => storageOf_eq_of_bodyOf (he.bodyOf x hx)

theorem parentOf_eq_none_of_le (ho : s.obank.length ≤ o) : s.parentOf o = none := by
  simp [parentOf, op_eq_none_of_le ho]

/-- A new op is detached while it exists and the step keeps the placed ops. -/
theorem BlocksKept.detached (hk : BlocksKept s t) (hc : s.obank.length ≤ c)
    (ho : (t.op c).isSome) : t.Detached c :=
  ⟨ho, by rw [hk.parents, parentOf_eq_none_of_le hc]⟩

/-! ### The building steps -/

@[simp] theorem vn_newOp (n : Nat) (pc : Address) (x : Nat) : (s.newOp n pc).1.vn x = s.vn x :=
  rfl

@[simp] theorem newOp_snd (n : Nat) (pc : Address) : (s.newOp n pc).2 = s.obank.length := rfl

@[simp] theorem newVarnode_snd (sz : Nat) (m : Address) :
    (s.newVarnode sz m).2 = s.vbank.length := rfl

@[simp] theorem length_vbank_newOp (n : Nat) (pc : Address) :
    (s.newOp n pc).1.vbank.length = s.vbank.length := rfl

@[simp] theorem getIn_setOutputField (o p j : Nat) (x : Option Nat) :
    (s.setOutputField o x).getIn p j = s.getIn p j := by
  simp [getIn]

@[simp] theorem getIn_setDefField (w p j : Nat) (d : Option Nat) :
    (s.setDefField w d).getIn p j = s.getIn p j := by
  simp [getIn]

theorem getIn_newOp (n : Nat) (pc : Address) (p j : Nat) :
    (s.newOp n pc).1.getIn p j = if p = s.obank.length then none else s.getIn p j := by
  split_ifs with hp
  · subst hp; simp [newOp, getIn, inrefsOf, List.getElem?_replicate]
  · simp [newOp, getIn, inrefsOf, hp]

theorem getIn_opSetInput_of_slot_ne {k : Nat} (hk : k ≠ i) :
    (s.opSetInput o w i).getIn p k = s.getIn p k := by
  by_cases hne : s.getIn o i = some w
  · simp [Funcdata.opSetInput, hne]
  · rw [getIn_opSetInput hne, if_neg fun h => hk h.2.1]

theorem isSome_op_relinkInput (o w i p : Nat) :
    ((s.relinkInput o w i).op p).isSome = (s.op p).isSome := by
  unfold relinkInput
  split_ifs <;> simp only [setInput, modifyInrefs, isSome_op_modifyOp, addDescend, op_modifyVn,
    isSome_op_opUnsetInput]

theorem isSome_op_opSetInput (o w i p : Nat) :
    ((s.opSetInput o w i).op p).isSome = (s.op p).isSome := by
  unfold Funcdata.opSetInput
  split_ifs
  · rfl
  · rcases s.inputCandidate_spec w with ⟨hc, -⟩ | ⟨y, -, -, -, -, hc⟩ <;>
      rw [hc, isSome_op_relinkInput]
    rfl

@[simp] theorem codeOf_newUniqueOut (sz o p : Nat) :
    (s.newUniqueOut sz o).1.codeOf p = s.codeOf p := by
  unfold newUniqueOut newVarnodeOut; simp only [codeOf_setOutputField, codeOf_createVn]; rfl

theorem isSome_op_newUniqueOut (sz o p : Nat) :
    ((s.newUniqueOut sz o).1.op p).isSome = (s.op p).isSome := by
  rw [op_newUniqueOut]; split_ifs with h <;> [subst h; skip] <;> simp

@[simp] theorem parentOf_newUniqueOut (sz o p : Nat) :
    (s.newUniqueOut sz o).1.parentOf p = s.parentOf p := by
  unfold newUniqueOut newVarnodeOut; simp only [parentOf_setOutputField, parentOf_createVn]; rfl

/-- `t` is `s` with an op `c` of op-code `code` built outside the blocks, the placed ops of
`s` left alone. -/
structure Built (s t : Funcdata) (c : Nat) (code : OpCode) : Prop where
  kept : BlocksKept s t
  fresh : s.obank.length ≤ c
  live : (t.op c).isSome
  code : t.codeOf c = code

theorem Built.detached {code : OpCode} (hc : Built s t c code) : t.Detached c :=
  hc.kept.detached hc.fresh hc.live

section Building

variable (h : s.BlocksWellFormed)
include h

/-- `opSetInput` keeps the placed ops unless it rewrites the annotation slot of a placed
`INDIRECT`. -/
theorem BlocksWellFormed.kept_opSetInput
    (hi : (s.parentOf o).isSome → s.isIndirect o = true → i ≠ 1) (w : Nat) :
    BlocksKept s (s.opSetInput o w i) :=
  h.blocksKept (bblocks_opSetInput ..) (parentOf_opSetInput o w i) (fun p hp =>
    ⟨codeOf_opSetInput .., fun hpi => by
      by_cases hpo : p = o
      · subst hpo; exact getIn_opSetInput_of_slot_ne (Ne.symm (hi hp hpi))
      · exact getIn_opSetInput_of_ne hpo 1⟩) fun x hx => storageOf_opSetInput hx ..

theorem BlocksWellFormed.kept_createVn (y : Varnode) : BlocksKept s (s.createVn y).1 :=
  h.kept_of_extends (extends_createVn y) rfl fun _ => rfl

theorem BlocksWellFormed.kept_newOp (n : Nat) (pc : Address) : BlocksKept s (s.newOp n pc).1 :=
  h.kept_of_extends (extends_createOp _) rfl fun q => by
    rw [newOp, parentOf_createOp]
    split_ifs with hq
    · rw [hq, parentOf_eq_none_of_le le_rfl]
    · rfl

theorem BlocksWellFormed.kept_newUniqueOut (sz o : Nat) : BlocksKept s (s.newUniqueOut sz o).1 :=
  h.kept_of_extends (extends_newUniqueOut sz o) rfl (parentOf_newUniqueOut sz o)

/-- Re-opcoding a detached op keeps the placed ops. -/
theorem BlocksWellFormed.kept_opSetOpcode (ho : s.parentOf o = none) (c : OpCode) :
    BlocksKept s (s.opSetOpcode o c) :=
  h.blocksKept rfl (parentOf_opSetOpcode o · c) (fun p hp => ⟨(by
    rw [opSetOpcode, codeOf_modifyOp, if_neg]
    rintro rfl; rw [ho] at hp; cases hp), fun _ => getIn_opSetOpcode ..⟩)
    fun x _ => storageOf_opSetOpcode ..

theorem Built.wellFormed {code : OpCode} (hc : Built s t c code) : t.BlocksWellFormed :=
  h.kept hc.kept

/-- `newOp` followed by `opSetOpcode` builds a detached op. -/
theorem built_newOp (n : Nat) (pc : Address) (code : OpCode) :
    Built s ((s.newOp n pc).1.opSetOpcode s.obank.length code) s.obank.length code := by
  have hk := h.kept_newOp n pc
  have hl : ((s.newOp n pc).1.op s.obank.length).isSome := by simp [newOp]
  refine ⟨hk.trans ((h.kept hk).kept_opSetOpcode ?_ code), le_rfl,
    by rw [opSetOpcode, isSome_op_modifyOp]; exact hl, by rw [codeOf_opSetOpcode hl, if_pos rfl]⟩
  rw [hk.parents, parentOf_eq_none_of_le le_rfl]

theorem Built.opSetInput {code : OpCode} (hc : Built s t c code) (w i : Nat) :
    Built s (t.opSetInput c w i) c code :=
  ⟨hc.kept.trans ((hc.wellFormed h).kept_opSetInput (fun hp => by
      rw [hc.detached.2] at hp; cases hp) w),
    hc.fresh, by rw [isSome_op_opSetInput]; exact hc.live, by rw [codeOf_opSetInput, hc.code]⟩

theorem Built.createVn {code : OpCode} (hc : Built s t c code) (y : Varnode) :
    Built s (t.createVn y).1 c code :=
  ⟨hc.kept.trans ((hc.wellFormed h).kept_createVn y), hc.fresh, hc.live, hc.code⟩

theorem Built.newUniqueOut {code : OpCode} (hc : Built s t c code) (sz o : Nat) :
    Built s (t.newUniqueOut sz o).1 c code :=
  ⟨hc.kept.trans ((hc.wellFormed h).kept_newUniqueOut sz o), hc.fresh,
    by rw [isSome_op_newUniqueOut]; exact hc.live, by rw [codeOf_newUniqueOut, hc.code]⟩

theorem BlocksWellFormed.kept_newVarnodeOut (sz : Nat) (m : Address) (o : Nat) :
    BlocksKept s (s.newVarnodeOut sz m o).1 :=
  h.blocksKept rfl (fun p => by simp [newVarnodeOut]) (fun p _ =>
    ⟨by simp [newVarnodeOut], fun _ => by simp [newVarnodeOut]⟩)
    fun x hx => by simp [newVarnodeOut, hx.ne]

/-- `newOp` builds a detached op, of op-code `MAX` until `opSetOpcode` sets it. -/
theorem built_newOp_max (n : Nat) (pc : Address) :
    Built s (s.newOp n pc).1 s.obank.length .max :=
  ⟨h.kept_newOp n pc, le_rfl, by simp [newOp], by simp [newOp, codeOf]⟩

theorem Built.opSetOpcode {code : OpCode} (hc : Built s t c code) (code' : OpCode) :
    Built s (t.opSetOpcode c code') c code' :=
  ⟨hc.kept.trans ((hc.wellFormed h).kept_opSetOpcode hc.detached.2 code'), hc.fresh,
    by rw [Funcdata.opSetOpcode, isSome_op_modifyOp]; exact hc.live,
    by rw [codeOf_opSetOpcode hc.live, if_pos rfl]⟩

theorem Built.newVarnodeOut {code : OpCode} (hc : Built s t c code) (sz : Nat) (m : Address)
    (o : Nat) : Built s (t.newVarnodeOut sz m o).1 c code :=
  ⟨hc.kept.trans ((hc.wellFormed h).kept_newVarnodeOut sz m o), hc.fresh,
    by simp only [Funcdata.newVarnodeOut, setOutputField, isSome_op_modifyOp, op_createVn]
       exact hc.live,
    by simpa [Funcdata.newVarnodeOut] using hc.code⟩

end Building

theorem Built.of_kept {code : OpCode} (hk : BlocksKept s u) (hl : u.obank.length = s.obank.length)
    (hc : Built u t c code) : Built s t c code :=
  ⟨hk.trans hc.kept, hl ▸ hc.fresh, hc.live, hc.code⟩

theorem isPhi_of_codeOf {code : OpCode} (hc : s.codeOf o = code) (hm : code.isMarker = false) :
    s.isPhi o = false := by
  simp only [isPhi, hc, beq_eq_false_iff_ne]
  rintro rfl; simp [OpCode.isMarker] at hm

theorem isIndirect_of_codeOf {code : OpCode} (hc : s.codeOf o = code)
    (hm : code.isMarker = false) : s.isIndirect o = false := by
  simp only [isIndirect, hc, beq_eq_false_iff_ne]
  rintro rfl; simp [OpCode.isMarker] at hm

theorem BlocksKept.isPhi_eq (hk : BlocksKept s t) (hp : (s.parentOf o).isSome) :
    t.isPhi o = s.isPhi o := by
  simp only [Funcdata.isPhi, (hk.placed o hp).1]

theorem BlocksKept.codeOf_eq (hk : BlocksKept s t) (hp : (s.parentOf o).isSome) :
    t.codeOf o = s.codeOf o :=
  (hk.placed o hp).1

section Placing

variable {code : OpCode} (h : s.BlocksWellFormed) (hc : Built s t c code)
  (hflow : code.isFlowBreak = false)
include h hc hflow

/-- **A built op that is not a marker goes before an op of block `b` that is not a
`MULTIEQUAL` once, keeping the blocks well formed.** -/
theorem Built.opInsertBefore_wellFormed {follow : Nat} (hm : code.isMarker = false)
    (hf : s.parentOf follow = some b) (hphi : s.isPhi follow = false) :
    (t.opInsertBefore c follow).BlocksWellFormed ∧ ∀ d < s.bblocks.length,
      ((t.opInsertBefore c follow).block d).ops.count c = if d = b then 1 else 0 := by
  have hfs : (s.parentOf follow).isSome := by rw [hf]; rfl
  rw [← hc.kept.bblocks]
  refine Funcdata.opInsertBefore_wellFormed (hc.wellFormed h) hc.detached
    (by rw [hc.code]; exact hflow)
    (by rw [hc.kept.parents]; exact hf) ?_ fun hi => ?_
  · rw [hc.kept.isPhi_eq hfs, hphi, isPhi_of_codeOf hc.code hm]
  · rw [isIndirect_of_codeOf hc.code hm] at hi; cases hi

/-- **A built `INDIRECT` that shadows an op `follow` of block `b` goes right before it once,
keeping the blocks well formed.** -/
theorem Built.opInsertBefore_indirect_wellFormed {follow : Nat} (hi : code = .indirect)
    (hf : s.parentOf follow = some b) (heff : (s.codeOf follow).isIndirectEffect = true)
    (ht : t.iopTarget c = some follow) :
    (t.opInsertBefore c follow).BlocksWellFormed ∧ ∀ d < s.bblocks.length,
      ((t.opInsertBefore c follow).block d).ops.count c = if d = b then 1 else 0 := by
  have hfs : (s.parentOf follow).isSome := by rw [hf]; rfl
  rw [← hc.kept.bblocks]
  refine Funcdata.opInsertBefore_wellFormed (hc.wellFormed h) hc.detached
    (by rw [hc.code]; exact hflow)
    (by rw [hc.kept.parents]; exact hf) ?_ fun _ => ⟨follow, ht, ?_, .inl rfl⟩
  · rw [hc.kept.isPhi_eq hfs, (of_isIndirectEffect heff).1]
    simp [isPhi, hc.code, hi]
  · rw [hc.kept.codeOf_eq hfs]; exact heff

/-- **A built op that is not a marker goes after an op of block `b` that is not a flow break
once, keeping the blocks well formed.** -/
theorem Built.opInsertAfter_wellFormed {prev : Nat} (hm : code.isMarker = false)
    (hp : s.parentOf prev = some b) (hprev : (s.codeOf prev).isFlowBreak = false) :
    (t.opInsertAfter c prev).BlocksWellFormed ∧ ∀ d < s.bblocks.length,
      ((t.opInsertAfter c prev).block d).ops.count c = if d = b then 1 else 0 := by
  have hps : (s.parentOf prev).isSome := by rw [hp]; rfl
  rw [← hc.kept.bblocks]
  refine Funcdata.opInsertAfter_wellFormed (hc.wellFormed h) hc.detached
    (by rw [hc.code]; exact hflow)
    (by rw [hc.kept.parents]; exact hp) (isIndirect_of_codeOf hc.code hm)
    (by rw [hc.kept.codeOf_eq hps]; exact hprev) fun hphi => ?_
  rw [isPhi_of_codeOf hc.code hm] at hphi; cases hphi

/-- **A built op that is not a marker goes at the end of block `b` once, keeping the blocks
well formed.** -/
theorem Built.opInsertEnd_wellFormed (hm : code.isMarker = false) (hb : b < s.bblocks.length) :
    (t.opInsertEnd c b).BlocksWellFormed ∧ ∀ d < s.bblocks.length,
      ((t.opInsertEnd c b).block d).ops.count c = if d = b then 1 else 0 := by
  rw [← hc.kept.bblocks] at hb ⊢
  exact Funcdata.opInsertEnd_wellFormed (hc.wellFormed h) hc.detached
    (by rw [hc.code]; exact hflow) hb
    (isPhi_of_codeOf hc.code hm) (isIndirect_of_codeOf hc.code hm)

/-- **A built op that is not an `INDIRECT` goes at the head of block `b` once, keeping the
blocks well formed.** -/
theorem Built.opInsertBegin_wellFormed (hi : code ≠ .indirect) (hb : b < s.bblocks.length) :
    (t.opInsertBegin c b).BlocksWellFormed ∧ ∀ d < s.bblocks.length,
      ((t.opInsertBegin c b).block d).ops.count c = if d = b then 1 else 0 := by
  rw [← hc.kept.bblocks] at hb ⊢
  exact Funcdata.opInsertBegin_wellFormed (hc.wellFormed h) hc.detached
    (by rw [hc.code]; exact hflow) hb
    (by simp only [isIndirect, hc.code, beq_eq_false_iff_ne]; exact hi)

end Placing

/-! ### `newOpBefore` and `newIndirectOp` -/

variable (s)

/-- `Funcdata::newOpBefore`: a new op with op-code `opc`, a new `unique` output of the size of
`in1` and the inputs `in1`, `in2` and, when given, `in3`, inserted before `follow`. -/
def newOpBefore (follow : Nat) (opc : OpCode) (in1 in2 : Nat) (in3 : Option Nat) :
    Funcdata × Nat :=
  let (s, newop) := s.newOp (if in3.isSome then 3 else 2) (s.opAddr follow)
  let s := s.opSetOpcode newop opc
  let s := (s.newUniqueOut (s.vnSize in1) newop).1
  let s := (s.opSetInput newop in1 0).opSetInput newop in2 1
  let s := match in3 with
    | some in3 => s.opSetInput newop in3 2
    | none => s
  (s.opInsertBefore newop follow, newop)

/-- `Funcdata::newIndirectOp`: a new `INDIRECT` of the storage at `addr` through the op
`indeffect`, with a new output at the same storage, inserted before `indeffect`. -/
def newIndirectOp (indeffect : Nat) (addr : Address) (size : Nat) : Funcdata × Nat :=
  let (s, newin) := s.newVarnode size addr
  let (s, newop) := s.newOp 2 (s.opAddr indeffect)
  let s := (s.newVarnodeOut size addr newop).1
  let s := s.opSetOpcode newop .indirect
  let s := s.opSetInput newop newin 0
  let (s, iop) := s.newVarnodeIop indeffect
  let s := s.opSetInput newop iop 1
  (s.opInsertBefore newop indeffect, newop)

variable {s}

/-- **`newOpBefore` places its op once and keeps the blocks well formed**, for an op-code
that is neither a marker nor a flow break, put before an op of block `b` that is not a
`MULTIEQUAL`. -/
theorem newOpBefore_wellFormed (h : s.BlocksWellFormed) {follow : Nat} {opc : OpCode}
    (hm : opc.isMarker = false) (hflow : opc.isFlowBreak = false)
    (hf : s.parentOf follow = some b) (hphi : s.isPhi follow = false) (in1 in2 : Nat)
    (in3 : Option Nat) :
    (s.newOpBefore follow opc in1 in2 in3).1.BlocksWellFormed ∧ ∀ d < s.bblocks.length,
      ((s.newOpBefore follow opc in1 in2 in3).1.block d).ops.count
        (s.newOpBefore follow opc in1 in2 in3).2 = if d = b then 1 else 0 := by
  unfold newOpBefore
  dsimp only
  simp only [newOp_snd]
  have hc := fun n => (((built_newOp h n (s.opAddr follow) opc).newUniqueOut h
    (((s.newOp n (s.opAddr follow)).1.opSetOpcode s.obank.length opc).vnSize in1)
    s.obank.length).opSetInput h in1 0).opSetInput h in2 1
  cases in3 with
  | none => exact (hc 2).opInsertBefore_wellFormed h hflow hm hf hphi
  | some x => exact ((hc 3).opSetInput h x 2).opInsertBefore_wellFormed h hflow hm hf hphi

/-- Linking an annotation of the `iop` space into slot 1 of an op makes the op shadow the op
the annotation names. -/
theorem iopTarget_opSetInput_iop {x : Varnode} (hne : t.getIn o 1 ≠ some w)
    (h1 : 1 < (t.inrefsOf o).length) (hw : t.vn w = some x) (hx : x.loc.space.type = .iop) :
    (t.opSetInput o w 1).iopTarget o = some x.loc.offset := by
  have hnc : ∀ y, t.vn w = some y → y.isConstant = false := fun y hy => by
    rw [hw, Option.some.injEq] at hy; subst hy; simp [Varnode.isConstant, hx]
  have hb : (t.opSetInput o w 1).bodyOf w = t.bodyOf w :=
    bodyOf_opSetInput (lt_of_vn_isSome (by simp [hw])) o w 1
  unfold iopTarget
  rw [getIn_opSetInput hne, if_pos ⟨rfl, rfl, h1⟩, inputCandidate_of_not_constant hnc]
  simp only [bodyOf, hw, Option.map_some'] at hb
  obtain ⟨y, hy, hyb⟩ := Option.map_eq_some'.mp hb
  have hloc : y.loc = x.loc := congrArg Varnode.loc hyb |>.trans rfl
  simp [hy, hloc, hx]

/-- **`newIndirectOp` places its `INDIRECT` once, right before the op with the side effect,
and keeps the blocks well formed.** -/
theorem newIndirectOp_wellFormed (h : s.BlocksWellFormed) {indeffect : Nat}
    (hf : s.parentOf indeffect = some b)
    (heff : (s.codeOf indeffect).isIndirectEffect = true) (addr : Address) (size : Nat) :
    (s.newIndirectOp indeffect addr size).1.BlocksWellFormed ∧ ∀ d < s.bblocks.length,
      ((s.newIndirectOp indeffect addr size).1.block d).ops.count
        (s.newIndirectOp indeffect addr size).2 = if d = b then 1 else 0 := by
  unfold newIndirectOp newVarnodeIop newVarnode
  dsimp only
  simp only [newOp_snd, createVn_snd]
  have hk₁ := h.kept_createVn { loc := addr, size := size }
  have h₁ := h.kept hk₁
  refine ((((((((built_newOp_max h₁ 2 _).newVarnodeOut h₁ size addr _).opSetOpcode h₁
    .indirect).opSetInput h₁ _ 0).createVn h₁ _).opSetInput h₁ _ 1).of_kept hk₁
    rfl).opInsertBefore_indirect_wellFormed h rfl rfl hf heff ?_)
  rw [iopTarget_opSetInput_iop ?_ ?_ ((vn_createVn ..).trans (if_pos rfl))
    (Architecture.iopSpace_type _)]
  · simp [getIn_opSetInput_of_slot_ne, newVarnodeOut, getIn_newOp]
  · simp only [inrefsOf_createVn, length_inrefsOf_opSetInput, inrefsOf_opSetOpcode,
      newVarnodeOut, inrefsOf_setOutputField]
    simp [newOp, inrefsOf]

/-! ### The insertions and the builders together -/

/-- `t` keeps the blocks of `s` well formed and has put op `o` into block `b` once, and into
no other block. -/
def InsertedOnce (s t : Funcdata) (o b : Nat) : Prop :=
  t.BlocksWellFormed ∧ ∀ d < s.bblocks.length, (t.block d).ops.count o = if d = b then 1 else 0

/-- **Every insertion keeps the blocks well formed and places its op once**, in a store
whose blocks are well formed, for a detached op that is not a flow break: `opInsertBegin` of
an op that is not an `INDIRECT`; `opInsertEnd` of an op that is no marker; `opInsertBefore`
of a `MULTIEQUAL` exactly before a `MULTIEQUAL`, and of an `INDIRECT` only before the op it
shadows or an `INDIRECT` shadowing that op; `opInsertAfter` of an op that is not an
`INDIRECT` after an op that is not a flow break, a `MULTIEQUAL` only after a `MULTIEQUAL`;
and the builders `newOpBefore`, before an op that is not a `MULTIEQUAL`, and
`newIndirectOp`, before an op with a side effect. -/
theorem blockEdits_wellFormed (h : s.BlocksWellFormed) :
    (∀ o b, s.Detached o → (s.codeOf o).isFlowBreak = false → s.isIndirect o = false →
      b < s.bblocks.length → InsertedOnce s (s.opInsertBegin o b) o b) ∧
    (∀ o b, s.Detached o → (s.codeOf o).isFlowBreak = false → s.isPhi o = false →
      s.isIndirect o = false → b < s.bblocks.length → InsertedOnce s (s.opInsertEnd o b) o b) ∧
    (∀ o follow b, s.Detached o → (s.codeOf o).isFlowBreak = false →
      s.parentOf follow = some b → s.isPhi follow = s.isPhi o →
      (s.isIndirect o = true → ∃ t, s.iopTarget o = some t ∧
        (s.codeOf t).isIndirectEffect = true ∧
        (follow = t ∨ s.isIndirect follow = true ∧ s.iopTarget follow = some t)) →
      InsertedOnce s (s.opInsertBefore o follow) o b) ∧
    (∀ o prev b, s.Detached o → (s.codeOf o).isFlowBreak = false →
      s.parentOf prev = some b → s.isIndirect o = false →
      (s.codeOf prev).isFlowBreak = false → (s.isPhi o = true → s.isPhi prev = true) →
      InsertedOnce s (s.opInsertAfter o prev) o b) ∧
    (∀ follow b (opc : OpCode) in1 in2 in3, opc.isMarker = false → opc.isFlowBreak = false →
      s.parentOf follow = some b → s.isPhi follow = false →
      InsertedOnce s (s.newOpBefore follow opc in1 in2 in3).1
        (s.newOpBefore follow opc in1 in2 in3).2 b) ∧
    (∀ indeffect b addr size, s.parentOf indeffect = some b →
      (s.codeOf indeffect).isIndirectEffect = true →
      InsertedOnce s (s.newIndirectOp indeffect addr size).1
        (s.newIndirectOp indeffect addr size).2 b) :=
  ⟨fun _ _ hd hflow hind hb => opInsertBegin_wellFormed h hd hflow hb hind,
    fun _ _ hd hflow hphi hind hb => opInsertEnd_wellFormed h hd hflow hb hphi hind,
    fun _ _ _ hd hflow hf hphi hind => opInsertBefore_wellFormed h hd hflow hf hphi hind,
    fun _ _ _ hd hflow hp hind hprev hphi =>
      opInsertAfter_wellFormed h hd hflow hp hind hprev hphi,
    fun _ _ _ in1 in2 in3 hm hflow hf hphi =>
      newOpBefore_wellFormed h hm hflow hf hphi in1 in2 in3,
    fun _ _ addr size hf heff => newIndirectOp_wellFormed h hf heff addr size⟩

/-- The `COPY` of `phiBranchBlock` goes at the end of its block, before the branch. -/
theorem blockEdits_wellFormed_phiBranchBlock :
    phiBranchBlock.BlocksWellFormed ∧
      InsertedOnce phiBranchBlock (phiBranchBlock.opInsertEnd 2 0) 2 0 :=
  ⟨BlocksWellFormed.of_check (by decide), (blockEdits_wellFormed
    (BlocksWellFormed.of_check (by decide))).2.1 2 0 (by decide) (by decide) (by decide) (by decide)
    (by decide)⟩

end Funcdata

end GhidraDec
