import GhidraDec.Funcdata.BlockInsert
import GhidraDec.Funcdata.LinkageEdit

/-!
# Walking the Readers of a Varnode

`totalReplace`, `totalReplaceConstant` and `descend2Undef` (`GhidraDec.Funcdata.ReplaceReads`)
share one loop: for each reader `o` of a varnode `v`, build some new objects, then point the
slot of `o` that reads `v` (the one `getSlot` finds) at a replacement with `opSetInput`. This
module analyses that loop once.

* A varnode's `body` is all of it but its reader list. The edits of the loop change the
  reader lists of the varnodes already there and nothing else of them.
* `Extends s t`: `t` only adds objects to `s`; the slots and op-codes of the ops of `s` and
  the reader lists and bodies of the varnodes of `s` are as they were. Creating varnodes and
  ops, filling the slots of a new op, setting its op-code and output, and placing an op into
  a block all only add.
* `ReadsRewritten s₀ t v Good R`: the invariant of the walk from `s₀`, at `t`, with the
  readers `R` still to visit. Every slot that read `v` still reads it or reads a varnode with
  the property `Good`, and every other slot is as it was.

## Main results

* `descendOf_opSetInput`: the reader lists after `opSetInput`;
* `ReadsRewritten.step`: one turn of the loop keeps the invariant, given that `Good` holds
  of the new read and survives the turn for the earlier ones;
* `ReadsRewritten.finish`: once the reader list is empty, every slot that read `v` reads a
  varnode with `Good`.
-/

namespace GhidraDec

/-- A varnode apart from its reader list. -/
def Varnode.body (x : Varnode) : Varnode := { x with descend := [] }

namespace Funcdata

variable (s : Funcdata)

/-- Varnode `v` apart from its reader list. -/
def bodyOf (v : Nat) : Option Varnode := (s.vn v).map Varnode.body

variable {s} {o v w i x : Nat}

/-! ### Varnode bodies -/

theorem bodyOf_modifyVn {f : Varnode → Varnode} (hf : ∀ y, (f y).body = y.body) (v x : Nat) :
    (s.modifyVn v f).bodyOf x = s.bodyOf x := by
  unfold bodyOf; rw [vn_modifyVn]
  split_ifs with h
  · subst h; cases s.vn x <;> simp [hf]
  · rfl

@[simp] theorem bodyOf_addDescend (v o x : Nat) : (s.addDescend v o).bodyOf x = s.bodyOf x := by
  unfold addDescend; apply bodyOf_modifyVn; intro; rfl

@[simp] theorem bodyOf_eraseDescend (v o x : Nat) : (s.eraseDescend v o).bodyOf x = s.bodyOf x := by
  unfold eraseDescend; apply bodyOf_modifyVn; intro; rfl

@[simp] theorem bodyOf_modifyOp (o x : Nat) (f : PcodeOp → PcodeOp) :
    (s.modifyOp o f).bodyOf x = s.bodyOf x := rfl

@[simp] theorem bodyOf_setInput (o i x : Nat) (y : Option Nat) :
    (s.setInput o i y).bodyOf x = s.bodyOf x := rfl

theorem bodyOf_createVn (y : Varnode) (hx : x < s.vbank.length) :
    (s.createVn y).1.bodyOf x = s.bodyOf x := by
  simp [bodyOf, Nat.ne_of_lt hx]

/-- A varnode's storage is part of its body. -/
theorem storageOf_eq_of_bodyOf {t : Funcdata} (h : t.bodyOf x = s.bodyOf x) :
    t.storageOf x = s.storageOf x := by
  have := congrArg (Option.map fun y : Varnode => (y.loc, y.size)) h
  simpa [bodyOf, storageOf, Option.map_map, Function.comp_def, Varnode.body] using this

theorem bodyOf_relinkInput (o w i x : Nat) : (s.relinkInput o w i).bodyOf x = s.bodyOf x := by
  unfold relinkInput opUnsetInput; split_ifs <;> [split; skip] <;> simp

theorem bodyOf_opSetInput (hx : x < s.vbank.length) (o w i : Nat) :
    (s.opSetInput o w i).bodyOf x = s.bodyOf x := by
  unfold Funcdata.opSetInput
  split_ifs
  · rfl
  · rcases s.inputCandidate_spec w with ⟨hc, -⟩ | ⟨y, -, -, -, -, hc⟩ <;> rw [hc] <;>
      simp only [bodyOf_relinkInput, newConstant, bodyOf_createVn _ hx]

/-! ### Reader lists under `opSetInput` -/

theorem descendOf_relinkInput (hw : (s.vn w).isSome) (hne : s.getIn o i ≠ some w) (x : Nat) :
    (s.relinkInput o w i).descendOf x =
      if x = w then s.descendOf x ++ [o]
      else if s.getIn o i = some x then (s.descendOf x).erase o else s.descendOf x := by
  unfold relinkInput
  cases hg : s.getIn o i with
  | none => by_cases hxw : x = w <;> simp [descendOf_addDescend hw, hxw]
  | some y =>
    have hyw : y ≠ w := fun e => hne (e ▸ hg)
    simp only [Option.isSome_some, if_true, opUnsetInput_of_getIn hg, descendOf_setInput]
    rw [descendOf_addDescend (by rw [vn_setInput, eraseDescend, isSome_vn_modifyVn]; exact hw)]
    simp only [descendOf_setInput, descendOf_eraseDescend]
    by_cases hxw : x = w
    · subst hxw; simp [Ne.symm hyw]
    · by_cases hxy : x = y
      · subst hxy; simp [hyw]
      · simp [hxw, hxy, Ne.symm hxy]


@[simp] theorem newConstant_snd (sz val : Nat) : (s.newConstant sz val).2 = s.vbank.length := rfl

theorem opSetInput_of_ne (hne : s.getIn o i ≠ some w) :
    s.opSetInput o w i = (s.inputCandidate w).1.relinkInput o (s.inputCandidate w).2 i := by
  rw [Funcdata.opSetInput, if_neg hne]

/-- The reader lists after `opSetInput`: the varnode linked gains the op, the one it
replaces loses it once, and the others are as they were. -/
theorem descendOf_opSetInput (h : ReadersMatch s) (hne : s.getIn o i ≠ some w)
    (hw : (s.vn w).isSome) (x : Nat) :
    (s.opSetInput o w i).descendOf x =
      if x = (s.inputCandidate w).2 then s.descendOf x ++ [o]
      else if s.getIn o i = some x then (s.descendOf x).erase o else s.descendOf x := by
  rw [opSetInput_of_ne hne]
  rcases s.inputCandidate_spec w with ⟨hc, -⟩ | ⟨y, -, -, -, -, hc⟩ <;> rw [hc]
  · exact descendOf_relinkInput hw hne x
  · have hfresh : (s.newConstant y.size y.offset).1.getIn o i ≠ some s.vbank.length :=
      h.getIn_ne_of_le le_rfl
    rw [newConstant_snd, descendOf_relinkInput (by simp [newConstant]) hfresh]
    by_cases hx : x = s.vbank.length
    · subst hx; simp [newConstant, descendOf, vn_eq_none_of_le le_rfl]
    · simp [newConstant, hx, descendOf]

/-- The varnode `inputCandidate` hands out: the one given, or a new one. -/
theorem inputCandidate_snd (w : Nat) :
    (s.inputCandidate w).2 = w ∨ (s.inputCandidate w).2 = s.vbank.length := by
  rcases s.inputCandidate_spec w with ⟨hc, -⟩ | ⟨y, -, -, -, -, hc⟩ <;> rw [hc]
  · exact .inl rfl
  · exact .inr rfl

theorem length_vbank_relinkInput (o w i : Nat) :
    (s.relinkInput o w i).vbank.length = s.vbank.length := by
  unfold relinkInput opUnsetInput
  split_ifs <;> [split; skip] <;> simp [addDescend, eraseDescend, setInput, modifyInrefs]

theorem length_vbank_opSetInput (o w i : Nat) :
    s.vbank.length ≤ (s.opSetInput o w i).vbank.length := by
  by_cases hne : s.getIn o i = some w
  · simp [Funcdata.opSetInput, hne]
  · rw [opSetInput_of_ne hne, length_vbank_relinkInput]
    rcases s.inputCandidate_spec w with ⟨hc, -⟩ | ⟨y, -, -, -, -, hc⟩ <;> simp [hc, newConstant]


theorem length_obank_opSetInput (o w i : Nat) :
    (s.opSetInput o w i).obank.length = s.obank.length := by
  unfold Funcdata.opSetInput relinkInput opUnsetInput
  split_ifs
  · rfl
  · rcases s.inputCandidate_spec w with ⟨hc, -⟩ | ⟨y, -, -, -, -, hc⟩ <;> rw [hc] <;>
      dsimp only <;> split_ifs <;> [split; skip; split; skip] <;>
      simp [addDescend, eraseDescend, setInput, modifyInrefs, modifyOp, modifyVn, newConstant,
        createVn]

@[simp] theorem glb_opSetInput (o w i : Nat) : (s.opSetInput o w i).glb = s.glb := by
  unfold Funcdata.opSetInput relinkInput opUnsetInput
  split_ifs
  · rfl
  · rcases s.inputCandidate_spec w with ⟨hc, -⟩ | ⟨y, -, -, -, -, hc⟩ <;> rw [hc] <;>
      dsimp only <;> split_ifs <;> [split; skip; split; skip] <;> rfl

/-! ### `newUniqueOut` read back -/

theorem op_newUniqueOut (sz o p : Nat) : (s.newUniqueOut sz o).1.op p =
    if p = o then (s.op o).map fun x => { x with output := some s.vbank.length } else s.op p := by
  unfold newUniqueOut newVarnodeOut setOutputField
  rw [op_modifyOp]
  rfl

theorem vn_newUniqueOut (sz o w : Nat) : (s.newUniqueOut sz o).1.vn w =
    if w = s.vbank.length then
      some { loc := ⟨s.glb.uniqueSpace, s.uniqId⟩, size := sz, defOp := some o }
    else s.vn w :=
  vn_createVn (s := { s with uniqId := s.uniqId + sz }) _ w

@[simp] theorem newUniqueOut_snd (sz o : Nat) : (s.newUniqueOut sz o).2 = s.vbank.length := rfl

@[simp] theorem bblocks_newUniqueOut (sz o : Nat) :
    (s.newUniqueOut sz o).1.bblocks = s.bblocks := rfl

@[simp] theorem length_vbank_newUniqueOut (sz o : Nat) :
    (s.newUniqueOut sz o).1.vbank.length = s.vbank.length + 1 := by
  simp [newUniqueOut, newVarnodeOut, setOutputField, modifyOp, createVn]

@[simp] theorem length_obank_newUniqueOut (sz o : Nat) :
    (s.newUniqueOut sz o).1.obank.length = s.obank.length := by
  simp [newUniqueOut, newVarnodeOut, setOutputField, modifyOp, createVn]

/-! ### What `opSetInput` leaves alone -/

@[simp] theorem parentOf_modifyVn (v q : Nat) (f : Varnode → Varnode) :
    (s.modifyVn v f).parentOf q = s.parentOf q := rfl

@[simp] theorem parentOf_createVn (y : Varnode) (q : Nat) :
    (s.createVn y).1.parentOf q = s.parentOf q := rfl

@[simp] theorem parentOf_setInput (o i q : Nat) (y : Option Nat) :
    (s.setInput o i y).parentOf q = s.parentOf q := by
  unfold parentOf setInput modifyInrefs
  rw [op_modifyOp]
  split_ifs with h
  · subst h; cases s.op q <;> rfl
  · rfl

theorem parentOf_createOp (q : PcodeOp) (p : Nat) : (s.createOp q).1.parentOf p =
    if p = s.obank.length then q.parent else s.parentOf p := by
  unfold parentOf; rw [op_createOp]; split_ifs <;> rfl

@[simp] theorem parentOf_opSetOpcode (o p : Nat) (c : OpCode) :
    (s.opSetOpcode o c).parentOf p = s.parentOf p := by
  unfold parentOf Funcdata.opSetOpcode; rw [op_modifyOp]
  split_ifs with h
  · subst h; cases s.op p <;> rfl
  · rfl

@[simp] theorem parentOf_setOutputField (o p : Nat) (y : Option Nat) :
    (s.setOutputField o y).parentOf p = s.parentOf p := by
  unfold parentOf setOutputField; rw [op_modifyOp]
  split_ifs with h
  · subst h; cases s.op p <;> rfl
  · rfl

theorem parentOf_relinkInput (o w i q : Nat) : (s.relinkInput o w i).parentOf q = s.parentOf q := by
  unfold relinkInput opUnsetInput
  split_ifs <;> [split; skip] <;> simp [addDescend, eraseDescend]

@[simp] theorem parentOf_opSetInput (o w i q : Nat) :
    (s.opSetInput o w i).parentOf q = s.parentOf q := by
  unfold Funcdata.opSetInput
  split_ifs
  · rfl
  · rcases s.inputCandidate_spec w with ⟨hc, -⟩ | ⟨y, -, -, -, -, hc⟩ <;> rw [hc] <;>
      simp [parentOf_relinkInput, newConstant]

theorem bblocks_relinkInput (o w i : Nat) : (s.relinkInput o w i).bblocks = s.bblocks := by
  unfold relinkInput opUnsetInput
  split_ifs <;> [split; skip] <;> rfl

@[simp] theorem bblocks_opSetInput (o w i : Nat) : (s.opSetInput o w i).bblocks = s.bblocks := by
  unfold Funcdata.opSetInput
  split_ifs
  · rfl
  · rcases s.inputCandidate_spec w with ⟨hc, -⟩ | ⟨y, -, -, -, -, hc⟩ <;> rw [hc] <;>
      simp [bblocks_relinkInput, newConstant, createVn]

theorem outputOf_relinkInput (o w i p : Nat) : (s.relinkInput o w i).outputOf p = s.outputOf p := by
  unfold relinkInput opUnsetInput
  split_ifs <;> [split; skip] <;> simp

@[simp] theorem outputOf_opSetInput (o w i p : Nat) :
    (s.opSetInput o w i).outputOf p = s.outputOf p := by
  unfold Funcdata.opSetInput
  split_ifs
  · rfl
  · rcases s.inputCandidate_spec w with ⟨hc, -⟩ | ⟨y, -, -, -, -, hc⟩ <;> rw [hc] <;>
      simp [outputOf_relinkInput, newConstant]

/-! ### Edits that only add -/

/-- `t` only adds objects to `s`: the banks grow, the architecture is the same, the ops of
`s` keep their slots and op-codes, and the varnodes of `s` their reader lists and bodies. -/
structure Extends (s t : Funcdata) : Prop where
  glb : t.glb = s.glb
  vlen : s.vbank.length ≤ t.vbank.length
  olen : s.obank.length ≤ t.obank.length
  getIn : ∀ p < s.obank.length, ∀ k, t.getIn p k = s.getIn p k
  codeOf : ∀ p < s.obank.length, t.codeOf p = s.codeOf p
  descendOf : ∀ x < s.vbank.length, t.descendOf x = s.descendOf x
  bodyOf : ∀ x < s.vbank.length, t.bodyOf x = s.bodyOf x

theorem Extends.refl (s : Funcdata) : Extends s s :=
  ⟨rfl, le_rfl, le_rfl, fun _ _ _ => rfl, fun _ _ => rfl, fun _ _ => rfl, fun _ _ => rfl⟩

theorem Extends.trans {t u : Funcdata} (h₁ : Extends s t) (h₂ : Extends t u) : Extends s u where
  glb := h₂.glb.trans h₁.glb
  vlen := h₁.vlen.trans h₂.vlen
  olen := h₁.olen.trans h₂.olen
  getIn p hp k := (h₂.getIn p (hp.trans_le h₁.olen) k).trans (h₁.getIn p hp k)
  codeOf p hp := (h₂.codeOf p (hp.trans_le h₁.olen)).trans (h₁.codeOf p hp)
  descendOf x hx := (h₂.descendOf x (hx.trans_le h₁.vlen)).trans (h₁.descendOf x hx)
  bodyOf x hx := (h₂.bodyOf x (hx.trans_le h₁.vlen)).trans (h₁.bodyOf x hx)

theorem extends_createVn (y : Varnode) : Extends s (s.createVn y).1 where
  glb := rfl
  vlen := by simp
  olen := le_rfl
  getIn _ _ _ := rfl
  codeOf _ _ := rfl
  descendOf x hx := by simp [descendOf, Nat.ne_of_lt hx]
  bodyOf _ hx := bodyOf_createVn y hx

theorem extends_createOp (q : PcodeOp) : Extends s (s.createOp q).1 where
  glb := rfl
  vlen := le_rfl
  olen := by simp [createOp]
  getIn p hp k := by simp [getIn, inrefsOf, Nat.ne_of_lt hp]
  codeOf p hp := by simp [codeOf, Nat.ne_of_lt hp]
  descendOf _ _ := rfl
  bodyOf _ _ := rfl

theorem extends_setOutputField (o : Nat) (y : Option Nat) : Extends s (s.setOutputField o y) where
  glb := rfl
  vlen := le_rfl
  olen := by simp [setOutputField, modifyOp]
  getIn p _ k := by simp [getIn]
  codeOf p _ := by simp
  descendOf _ _ := rfl
  bodyOf _ _ := rfl

theorem extends_newUniqueOut (sz o : Nat) : Extends s (s.newUniqueOut sz o).1 :=
  (Extends.trans (s := s) (t := { s with uniqId := s.uniqId + sz })
    ⟨rfl, le_rfl, le_rfl, fun _ _ _ => rfl, fun _ _ => rfl, fun _ _ => rfl, fun _ _ => rfl⟩
    (extends_createVn _)).trans (extends_setOutputField ..)

theorem Extends.opSetOpcode {t : Funcdata} (he : Extends s t) (ho : s.obank.length ≤ o)
    (c : OpCode) : Extends s (t.opSetOpcode o c) where
  glb := he.glb
  vlen := he.vlen
  olen := by simpa [Funcdata.opSetOpcode, modifyOp] using he.olen
  getIn p hp k := by rw [getIn_opSetOpcode]; exact he.getIn p hp k
  codeOf p hp := by
    rw [Funcdata.opSetOpcode, codeOf_modifyOp, if_neg (by omega)]; exact he.codeOf p hp
  descendOf := he.descendOf
  bodyOf := he.bodyOf

/-- Linking a varnode new to `s` into a slot of an op new to `s` leaves what `s` had. -/
theorem Extends.opSetInput {t : Funcdata} (he : Extends s t) (hr : ReadersMatch s)
    (ht : ReadersMatch t) (ho : s.obank.length ≤ o) (hw : s.vbank.length ≤ w)
    (hwt : (t.vn w).isSome) : Extends s (t.opSetInput o w i) := by
  by_cases hne : t.getIn o i = some w
  · simpa [Funcdata.opSetInput, hne] using he
  have hcand : ∀ x < s.vbank.length, x ≠ (t.inputCandidate w).2 := fun x hx => by
    rcases t.inputCandidate_snd w with h | h <;> rw [h] <;> have := he.vlen <;> omega
  refine ⟨by simpa using he.glb, he.vlen.trans (length_vbank_opSetInput ..),
    by simpa [length_obank_opSetInput] using he.olen, fun p hp k => ?_,
    fun p hp => by simpa using he.codeOf p hp, fun x hx => ?_, fun x hx => ?_⟩
  · rw [getIn_opSetInput hne, if_neg (by omega)]; exact he.getIn p hp k
  · have hno : o ∉ s.descendOf x := by
      have := hr o x
      rw [show s.inrefsOf o = [] by simp [inrefsOf, op_eq_none_of_le ho], List.count_nil] at this
      exact List.count_eq_zero.mp this
    rw [descendOf_opSetInput ht hne hwt, if_neg (hcand x hx), he.descendOf x hx]
    split_ifs <;> simp [List.erase_of_not_mem hno]
  · rw [bodyOf_opSetInput (hx.trans_le he.vlen)]; exact he.bodyOf x hx

theorem extends_opInsert (o b k : Nat) : Extends s (s.opInsert o b k) where
  glb := rfl
  vlen := le_rfl
  olen := by simp [opInsert, modifyOp, modifyBlock]
  getIn _ _ _ := by rw [getIn_opInsert]
  codeOf _ _ := by rw [codeOf_opInsert]
  descendOf _ _ := rfl
  bodyOf _ _ := rfl

@[simp] theorem inrefsOf_opInsert (o b k p : Nat) :
    (s.opInsert o b k).inrefsOf p = s.inrefsOf p := by
  unfold inrefsOf; rw [op_opInsert]
  split_ifs with h
  · subst h; cases s.op p <;> rfl
  · rfl

@[simp] theorem outputOf_opInsert (o b k p : Nat) :
    (s.opInsert o b k).outputOf p = s.outputOf p := by
  unfold outputOf; rw [op_opInsert]
  split_ifs with h
  · subst h; cases s.op p <;> rfl
  · rfl

@[simp] theorem storageOf_opInsert (o b k : Nat) : (s.opInsert o b k).storageOf = s.storageOf :=
  rfl

@[simp] theorem descendOf_opInsert (o b k : Nat) : (s.opInsert o b k).descendOf = s.descendOf :=
  rfl

theorem Linked.opInsert (h : Linked s) (o b k : Nat) : Linked (s.opInsert o b k) :=
  h.congr (fun _ => rfl) (inrefsOf_opInsert o b k) (outputOf_opInsert o b k)

theorem Linked.opInsertAfter (h : Linked s) (o prev : Nat) : Linked (s.opInsertAfter o prev) := by
  unfold Funcdata.opInsertAfter; dsimp only; split
  · exact h.opInsert ..
  · exact h

theorem Linked.opInsertBegin (h : Linked s) (o b : Nat) : Linked (s.opInsertBegin o b) :=
  h.opInsert ..

/-! ### The walk over the readers -/

theorem lt_of_vn_isSome (h : (s.vn x).isSome) : x < s.vbank.length := by
  by_contra hx; simp [vn_eq_none_of_le (Nat.le_of_not_lt hx)] at h

theorem lt_of_mem_inrefsOf {y : Option Nat} (h : y ∈ s.inrefsOf o) : o < s.obank.length := by
  by_contra ho; simp [inrefsOf, op_eq_none_of_le (Nat.le_of_not_lt ho)] at h

theorem ReadersMatch.getIn_ne_of_nil (h : ReadersMatch s) (hv : s.descendOf v = []) (p k : Nat) :
    s.getIn p k ≠ some v := fun hi => by
  have := one_le_count_of_getElem? (getIn_eq_some_iff.mp hi)
  rw [← h p v, hv] at this
  simp at this

/-- The walk over the readers of `v` that started at `s₀`, at a store `t` with the readers
`R` still to visit: `t` keeps the invariant, the readers of `v` are `R`, all of them ops of
`s₀`, the ops and varnodes of `s₀` keep their op-codes and bodies, every slot of an op of
`s₀` that read `v` still reads it or reads a varnode `w ≠ v` with `Good t p w`, and every
other slot of an op of `s₀` is as it was. -/
structure ReadsRewritten (s₀ t : Funcdata) (v : Nat) (Good : Funcdata → Nat → Nat → Prop)
    (R : List Nat) : Prop where
  linked : Linked t
  readers : t.descendOf v = R
  old : ∀ p ∈ R, p < s₀.obank.length
  glb : t.glb = s₀.glb
  vlen : s₀.vbank.length ≤ t.vbank.length
  olen : s₀.obank.length ≤ t.obank.length
  codeOf : ∀ p < s₀.obank.length, t.codeOf p = s₀.codeOf p
  bodyOf : ∀ x < s₀.vbank.length, t.bodyOf x = s₀.bodyOf x
  read : ∀ p < s₀.obank.length, ∀ k, s₀.getIn p k = some v →
    t.getIn p k = some v ∨ ∃ w, w ≠ v ∧ t.getIn p k = some w ∧ Good t p w
  other : ∀ p < s₀.obank.length, ∀ k, s₀.getIn p k ≠ some v → t.getIn p k = s₀.getIn p k

variable {Good : Funcdata → Nat → Nat → Prop} {s₀ t t₁ : Funcdata} {R : List Nat}

theorem ReadsRewritten.start (h : Linked s) (v : Nat) :
    ReadsRewritten s s v Good (s.descendOf v) where
  linked := h
  readers := rfl
  old _ hp := lt_of_mem_inrefsOf (h.readers.mem_inrefs hp)
  glb := rfl
  vlen := le_rfl
  olen := le_rfl
  codeOf _ _ := rfl
  bodyOf _ _ := rfl
  read _ _ _ h := .inl h
  other _ _ _ _ := rfl

/-- **One step of the walk**: after edits that only add to the store, the slot of the next
reader `o` that `getSlot` finds is rewritten to read `w`. `Good` must hold of what the slot
now reads, and survive the step for the slots rewritten before. -/
theorem ReadsRewritten.step {Good' : Funcdata → Nat → Nat → Prop}
    (hR : ReadsRewritten s₀ t v Good (o :: R)) (he : Extends t t₁)
    (h₁ : Linked t₁) (hw : (t₁.vn w).isSome) (hwv : w ≠ v)
    (hgood : Good' (t₁.opSetInput o w (t.getSlot o v)) o (t₁.inputCandidate w).2)
    (hstable : ∀ p x, x ≠ v → Good t p x → Good' (t₁.opSetInput o w (t.getSlot o v)) p x) :
    ReadsRewritten s₀ (t₁.opSetInput o w (t.getSlot o v)) v Good' R := by
  have hi : t.getIn o (t.getSlot o v) = some v :=
    getIn_getSlot (hR.linked.readers.mem_inrefs (by rw [hR.readers]; exact List.mem_cons_self o R))
  have ho := hR.old o (List.mem_cons_self o R)
  have hv := lt_of_vn_isSome (hR.linked.readers.vn_isSome hi)
  have hi₁ : t₁.getIn o (t.getSlot o v) = some v := (he.getIn o (ho.trans_le hR.olen) _).trans hi
  have hne : t₁.getIn o (t.getSlot o v) ≠ some w := by
    rw [hi₁]; exact fun e => hwv (Option.some.inj e).symm
  have hr0 : s₀.getIn o (t.getSlot o v) = some v := by
    by_contra h; exact h ((hR.other o ho _ h).symm.trans hi)
  refine ⟨h₁.opSetInput hw (lt_of_getIn hi₁), ?_, fun p hp => hR.old p (List.mem_cons_of_mem o hp),
    by rw [glb_opSetInput, he.glb, hR.glb],
    hR.vlen.trans (he.vlen.trans (length_vbank_opSetInput ..)),
    by rw [length_obank_opSetInput]; exact hR.olen.trans he.olen,
    fun p hp => by rw [codeOf_opSetInput, he.codeOf p (hp.trans_le hR.olen), hR.codeOf p hp],
    fun x hx => ?_, fun p hp k h0 => ?_, fun p hp k h0 => ?_⟩
  · rw [descendOf_opSetInput_old h₁ hi₁ hwv, he.descendOf v hv, hR.readers, List.erase_cons_head]
  · rw [bodyOf_opSetInput ((hx.trans_le hR.vlen).trans_le he.vlen),
      he.bodyOf x (hx.trans_le hR.vlen),
      hR.bodyOf x hx]
  · rw [getIn_opSetInput hne]
    split_ifs with hpk
    · obtain ⟨rfl, rfl, -⟩ := hpk
      refine .inr ⟨_, ?_, rfl, hgood⟩
      rcases t₁.inputCandidate_snd w with h | h <;> rw [h]
      · exact hwv
      · have := he.vlen; omega
    · rw [he.getIn p (hp.trans_le hR.olen) k]
      rcases hR.read p hp k h0 with h | ⟨x, hxv, hx, hg⟩
      · exact .inl h
      · exact .inr ⟨x, hxv, hx, hstable p x hxv hg⟩
  · rw [getIn_opSetInput hne, if_neg (by rintro ⟨rfl, rfl, -⟩; exact h0 hr0),
      he.getIn p (hp.trans_le hR.olen) k, hR.other p hp k h0]

/-- At the end of the walk every slot of an op of `s₀` that read `v` reads a varnode with
`Good`. -/
theorem ReadsRewritten.finish (hR : ReadsRewritten s₀ t v Good []) {p k : Nat}
    (hp : p < s₀.obank.length) (h0 : s₀.getIn p k = some v) :
    ∃ w, t.getIn p k = some w ∧ Good t p w := by
  rcases hR.read p hp k h0 with h | ⟨w, -, hw, hg⟩
  · exact absurd h (hR.linked.readers.getIn_ne_of_nil hR.readers p k)
  · exact ⟨w, hw, hg⟩


theorem ReadsRewritten.getIn_getSlot (hR : ReadsRewritten s₀ t v Good (o :: R)) :
    t.getIn o (t.getSlot o v) = some v :=
  Funcdata.getIn_getSlot
    (hR.linked.readers.mem_inrefs (by rw [hR.readers]; exact List.mem_cons_self o R))

theorem lt_of_storageOf {a : Address × Nat} (h : s.storageOf x = some a) : x < s.vbank.length :=
  lt_of_vn_isSome (by cases hx : s.vn x <;> simp_all [storageOf])

theorem lt_of_getIn_eq_some (h : s.getIn o i = some v) : o < s.obank.length :=
  lt_of_mem_inrefsOf (List.mem_iff_getElem?.mpr ⟨_, getIn_eq_some_iff.mp h⟩)

theorem isSome_vn_of_bodyOf (h : t.bodyOf x = s.bodyOf x) : (t.vn x).isSome = (s.vn x).isSome := by
  have := congrArg Option.isSome h
  simpa [bodyOf] using this


/-- The op an op shadows depends only on its slot 1 and on the storage of what is there. -/
theorem iopTarget_congr {p : Nat} (hg : t.getIn p 1 = s.getIn p 1)
    (hb : ∀ x, s.getIn p 1 = some x → t.bodyOf x = s.bodyOf x) :
    t.iopTarget p = s.iopTarget p := by
  unfold Funcdata.iopTarget
  rw [hg]
  cases hx : s.getIn p 1 with
  | none => rfl
  | some x =>
    have hloc : ∀ a : Option Varnode,
        (a.bind fun y => if y.loc.space.type = .iop then some y.loc.offset else none) =
          ((a.map Varnode.body).bind fun y =>
            if y.loc.space.type = .iop then some y.loc.offset else none) := by
      intro a; cases a <;> rfl
    simp only [Option.some_bind]
    rw [hloc, hloc (s.vn x)]
    exact congrArg (Option.bind · _) (hb x hx)

/-- The op an op of `s` shadows is the same in a store that extends `s`. -/
theorem Extends.iopTarget (he : Extends s t) (hr : ReadersMatch s) {p : Nat}
    (hp : p < s.obank.length) : t.iopTarget p = s.iopTarget p :=
  iopTarget_congr (he.getIn p hp 1) fun x hx => he.bodyOf x (lt_of_vn_isSome (hr.vn_isSome hx))

/-- `opSetInput` leaves the slots of the other ops alone. -/
theorem getIn_opSetInput_of_ne {p : Nat} (hp : p ≠ o) (k : Nat) :
    (s.opSetInput o w i).getIn p k = s.getIn p k := by
  by_cases hne : s.getIn o i = some w
  · simp [Funcdata.opSetInput, hne]
  · rw [getIn_opSetInput hne, if_neg fun h => hp h.1]

@[simp] theorem uniqId_opSetInput (o w i : Nat) : (s.opSetInput o w i).uniqId = s.uniqId := by
  unfold Funcdata.opSetInput relinkInput opUnsetInput
  split_ifs
  · rfl
  · rcases s.inputCandidate_spec w with ⟨hc, -⟩ | ⟨y, -, -, -, -, hc⟩ <;> rw [hc] <;>
      dsimp only <;> split_ifs <;> [split; skip; split; skip] <;> rfl

/-- A turn of the walk leaves alone the reader lists and storage of the varnodes it neither
unlinks nor links. -/
theorem step_frame (he : Extends t t₁) (h₁ : ReadersMatch t₁) (hi : t.getIn o i = some v)
    (hw : (t₁.vn w).isSome) (hwv : w ≠ v) (hx : x < t.vbank.length) (hxv : x ≠ v)
    (hxw : x ≠ (t₁.inputCandidate w).2) :
    (t₁.opSetInput o w i).descendOf x = t.descendOf x ∧
      (t₁.opSetInput o w i).storageOf x = t.storageOf x := by
  have hi₁ : t₁.getIn o i = some v := (he.getIn o (lt_of_getIn_eq_some hi) i).trans hi
  have hne : t₁.getIn o i ≠ some w := by rw [hi₁]; exact fun e => hwv (Option.some.inj e).symm
  refine ⟨?_, ?_⟩
  · rw [descendOf_opSetInput h₁ hne hw, if_neg hxw,
      if_neg (by rw [hi₁]; exact fun e => hxv (Option.some.inj e).symm), he.descendOf x hx]
  · rw [storageOf_opSetInput (hx.trans_le he.vlen)]
    exact storageOf_eq_of_bodyOf (he.bodyOf x hx)

/-- A varnode that is not a constant is linked as it is. -/
theorem inputCandidate_of_not_constant (hw : ∀ y, s.vn w = some y → y.isConstant = false) :
    s.inputCandidate w = (s, w) := by
  rcases s.inputCandidate_spec w with ⟨hc, -⟩ | ⟨y, hy, hyc, -, -, -⟩
  · exact hc
  · simp [hw y hy] at hyc

/-- A run that needs one step before a run of fuel at least `N` needs fuel at least `N + 1`. -/
theorem fuel_succ {α : Type} {f : Nat → Option α} {a : Option α} {N : Nat}
    (h : ∀ n, N ≤ n → f (n + 1) = a) : ∀ n, N + 1 ≤ n → f n = a
  | n + 1, hn => h n (by omega)

end Funcdata

end GhidraDec
