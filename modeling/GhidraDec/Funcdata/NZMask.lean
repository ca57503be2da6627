import Mathlib.Algebra.Order.BigOperators.Group.List
import Mathlib.Algebra.Order.Group.Nat
import GhidraDec.Funcdata.Lessequal
import GhidraDec.Funcdata.ReaderWalk

/-!
# Non-Zero Masks

`Funcdata::calcNZMask` (`funcdata_varnode.cc`) gives every varnode the mask `nzm` of the bits
that may be non-zero. It makes two passes.

* The first walks the data flow depth first from every alive op, with an explicit stack of
  `(op, next slot)` frames; the op marks keep each op to one visit. An unwritten varnode read
  in a slot gets its constant value, or the full mask of its size (without the low byte for a
  spacebase); an op whose slots are all done gets `getNZMaskLocal(true)` on its output. The
  walk does not follow the slots of a `MULTIEQUAL` that come in over a loop edge, and
  `getNZMaskLocal(true)` ignores them.
* The second pushes every alive `MULTIEQUAL` and, until the op stack is empty, recomputes
  `getNZMaskLocal(false)` of the op on top; where the output's mask changes it stores the new
  one and pushes the output's readers.

The per-op transfer (`PcodeOp::getNZMaskLocal`, `op.cc`), the loop labels of the block
in-edges (`FlowBlock::isLoopIn`, `block.cc`), the alive op list of the op bank and
`calc_mask` (`address.hh`) are outside the sources. The transfer and the loop labels are
parameters, the alive list is an argument. The masks are a map from varnode indices to
`UInt64` (`uintb`) threaded through the two passes: nothing else of the store changes, and the
op marks are local to the first pass (clear on entry, as every pass leaves them, and cleared
after it). Both loops are bounded by a fuel argument and give `none` when it runs out.

## Main results

* `nzWalkLoop_run`, `nzFirstPass_run`: the first pass ends, with every alive op's output at
  `getNZMaskLocal(true)` and every unwritten varnode read through a followed slot at its mask,
  provided every cycle of the data flow passes through a loop edge of a `MULTIEQUAL`;
* `nzPropagate_run`: for a monotone transfer the second pass ends, with every alive op's
  output at `getNZMaskLocal(false)` (the masks only grow, so the potential of the store falls
  at every change);
* `calcNZMask_spec`: the whole of `calcNZMask`: it ends, and the masks it leaves are those of
  the two passes, every varnode neither written by an alive op nor read through a followed
  slot keeping the mask it had;
* `calcNZMask_loop_constant`: a constant read only over a loop edge keeps a stale mask.
-/

namespace GhidraDec

/-- Bitwise inclusion of non-zero masks: every bit that may be set in `a` may be set in `b`. -/
def MaskLe (a b : UInt64) : Prop := a &&& b = a

instance (a b : UInt64) : Decidable (MaskLe a b) := inferInstanceAs (Decidable (a &&& b = a))

namespace MaskLe

theorem iff_toNat {a b : UInt64} : MaskLe a b ↔ a.toNat &&& b.toNat = a.toNat := by
  rw [MaskLe, ← UInt64.and_toNat]
  exact ⟨congrArg UInt64.toNat, UInt64.toNat.inj⟩

theorem refl (a : UInt64) : MaskLe a a := iff_toNat.mpr (Nat.and_self _)

theorem trans {a b c : UInt64} (h₁ : MaskLe a b) (h₂ : MaskLe b c) : MaskLe a c := by
  rw [iff_toNat] at *
  rw [← h₁, Nat.and_assoc, h₂]

theorem zero_le (a : UInt64) : MaskLe 0 a := iff_toNat.mpr (by rw [UInt64.toNat_zero, Nat.zero_and])

theorem toNat_le {a b : UInt64} (h : MaskLe a b) : a.toNat ≤ b.toNat :=
  iff_toNat.mp h ▸ Nat.and_le_right

theorem toNat_lt {a b : UInt64} (h : MaskLe a b) (hne : a ≠ b) : a.toNat < b.toNat :=
  Nat.lt_of_le_of_ne h.toNat_le fun he => hne (UInt64.toNat.inj he)

end MaskLe

/-- A transfer of non-zero masks is monotone: more possible bits in the input masks give more
in the output. -/
def NZMonotone (nzLocal : Nat → List UInt64 → UInt64) : Prop :=
  ∀ o l₁ l₂, List.Forall₂ MaskLe l₁ l₂ → MaskLe (nzLocal o l₁) (nzLocal o l₂)

/-- The masks with the one of varnode `v` set to `m`. -/
def setNzm (nzm : Nat → UInt64) (v : Nat) (m : UInt64) : Nat → UInt64 :=
  fun u => if u = v then m else nzm u

@[simp] theorem setNzm_self (nzm : Nat → UInt64) (v : Nat) (m : UInt64) : setNzm nzm v m v = m :=
  if_pos rfl

theorem setNzm_ne (nzm : Nat → UInt64) {u v : Nat} (m : UInt64) (h : u ≠ v) :
    setNzm nzm v m u = nzm u :=
  if_neg h

namespace Funcdata

/-- The mask the first pass gives an unwritten varnode it reads: a constant's value; otherwise
the full mask of its size, without the low byte for a spacebase ("treat spacebase input as
aligned"). -/
def unwrittenMask (x : Varnode) : UInt64 :=
  if x.isConstant then UInt64.ofNat x.offset
  else if x.spacebase then UInt64.ofNat (calcMask x.size) &&& ~~~0xff
  else UInt64.ofNat (calcMask x.size)

variable (s : Funcdata) (isLoopIn : Nat → Nat → Bool) (nzLocal : Nat → List UInt64 → UInt64)

/-- The slots the first pass does not follow and `getNZMaskLocal(true)` ignores: the slots of a
`MULTIEQUAL` whose in-edge of the op's block is a loop edge. -/
def isClipped (o i : Nat) : Bool :=
  s.codeOf o == .multiequal && isLoopIn ((s.parentOf o).getD 0) i

/-- Modelled from the spec: `PcodeOp::getNZMaskLocal(cliploop)` (`op.cc`, outside the
sources): the transfer `nzLocal` of the op, applied to the masks of its inputs in slot order,
where an empty slot, and when clipping a clipped slot, brings no bit. -/
def getNZMaskLocal (cliploop : Bool) (o : Nat) (nzm : Nat → UInt64) : UInt64 :=
  nzLocal o ((List.range (s.inrefsOf o).length).map fun i =>
    if cliploop && s.isClipped isLoopIn o i then 0 else ((s.getIn o i).map nzm).getD 0)

/-- The state of the first pass: the masks, the marked ops, and the stack of `(op, next slot)`
frames, top first. -/
structure NZWalk where
  nzm : Nat → UInt64
  marks : List Nat
  stack : List (Nat × Nat)

/-- One round of the first pass's inner loop, on the frame `(op, slot)` on top. With no slot
left the op's output gets `getNZMaskLocal(true)` and the frame is popped. Otherwise the slot
advances and, unless it is clipped, its varnode is visited: an unwritten one gets its mask, the
defining op of a written one, when it is not marked, is marked and pushed. -/
def nzWalkStep (w : NZWalk) : NZWalk :=
  match w.stack with
  | [] => w
  | (op, slot) :: rest =>
    if (s.inrefsOf op).length ≤ slot then
      { w with
        nzm := match s.outputOf op with
          | some out => setNzm w.nzm out (s.getNZMaskLocal isLoopIn nzLocal true op w.nzm)
          | none => w.nzm
        stack := rest }
    else
      let w' := { w with stack := (op, slot + 1) :: rest }
      if s.isClipped isLoopIn op slot then w'
      else match s.getIn op slot with
        | none => w'
        | some v => match s.vn v with
          | none => w'
          | some x => match x.defOp with
            | none => { w' with nzm := setNzm w.nzm v (unwrittenMask x) }
            | some d =>
              if d ∈ w.marks then w'
              else { w' with marks := d :: w.marks, stack := (d, 0) :: w'.stack }

/-- The first pass's inner loop, until the stack is empty. -/
def nzWalkLoop : Nat → NZWalk → Option NZWalk
  | 0, _ => none
  | fuel + 1, w =>
    if w.stack = [] then some w else nzWalkLoop fuel (s.nzWalkStep isLoopIn nzLocal w)

/-- The first pass over a list of alive ops: each op not yet marked is marked, pushed, and
walked from. -/
def nzFirstPass (fuel : Nat) : List Nat → NZWalk → Option NZWalk
  | [], w => some w
  | op :: ops, w =>
    if op ∈ w.marks then nzFirstPass fuel ops w
    else
      (s.nzWalkLoop isLoopIn nzLocal fuel
        { w with marks := op :: w.marks, stack := [(op, 0)] }).bind
        (nzFirstPass fuel ops)

/-- The second pass: pop an op and recompute `getNZMaskLocal(false)`; when the output's mask
changes, store it and push the output's readers in reader-list order, the last on top. -/
def nzPropagate : Nat → (Nat → UInt64) → List Nat → Option (Nat → UInt64)
  | _, nzm, [] => some nzm
  | 0, _, _ :: _ => none
  | fuel + 1, nzm, op :: rest =>
    match s.outputOf op with
    | none => nzPropagate fuel nzm rest
    | some out =>
      let m := s.getNZMaskLocal isLoopIn nzLocal false op nzm
      if m ≠ nzm out then nzPropagate fuel (setNzm nzm out m) ((s.descendOf out).reverse ++ rest)
      else nzPropagate fuel nzm rest

/-- `Funcdata::calcNZMask`, from the masks `nzm` on entry and the alive op list `alive`: the
first pass, then the second from the alive `MULTIEQUAL`s, pushed in list order. -/
def calcNZMask (alive : List Nat) (fuel : Nat) (nzm : Nat → UInt64) : Option (Nat → UInt64) :=
  (s.nzFirstPass isLoopIn nzLocal fuel alive ⟨nzm, [], []⟩).bind fun w =>
    s.nzPropagate isLoopIn nzLocal fuel w.nzm (alive.filter (s.codeOf · == .multiequal)).reverse

/-! ### The data flow -/

section Graph

variable {s isLoopIn nzLocal}

theorem mem_descendOf_of_getIn (h : ReadersMatch s) {p i w : Nat} (hg : s.getIn p i = some w) :
    p ∈ s.descendOf w := by
  have hc := one_le_count_of_getElem? (getIn_eq_some_iff.mp hg)
  rw [← h p w] at hc
  exact List.count_pos_iff.mp hc

theorem outputOf_inj (h : DefsMatch s) {o₁ o₂ w : Nat} (h₁ : s.outputOf o₁ = some w)
    (h₂ : s.outputOf o₂ = some w) : o₁ = o₂ :=
  Option.some.inj (((h o₁ w).mpr h₁).symm.trans ((h o₂ w).mpr h₂))

/-- The output of an op is written, by that op. -/
theorem defOp_of_outputOf (h : DefsMatch s) {o v : Nat} {x : Varnode}
    (ho : s.outputOf o = some v) (hx : s.vn v = some x) : x.defOp = some o := by
  simpa [defOf, hx] using (h o v).mpr ho

/-- The masks `getNZMaskLocal` reads: those of the inputs in the slots it does not ignore. -/
theorem getNZMaskLocal_congr {c : Bool} {o : Nat} {nzm₁ nzm₂ : Nat → UInt64}
    (h : ∀ i v, (c && s.isClipped isLoopIn o i) = false → s.getIn o i = some v →
      nzm₁ v = nzm₂ v) :
    s.getNZMaskLocal isLoopIn nzLocal c o nzm₁ =
      s.getNZMaskLocal isLoopIn nzLocal c o nzm₂ := by
  unfold getNZMaskLocal
  congr 1
  refine List.map_congr_left fun i _ => ?_
  split_ifs with hc
  · rfl
  · cases hg : s.getIn o i with
    | none => rfl
    | some v => simp [h i v (by simpa using hc) hg]

/-- For a monotone transfer, `getNZMaskLocal` grows with the masks, and with less clipping. -/
theorem getNZMaskLocal_mono (hmono : NZMonotone nzLocal) {c₁ c₂ : Bool}
    (hc : c₂ = true → c₁ = true) {nzm₁ nzm₂ : Nat → UInt64}
    (h : ∀ v, MaskLe (nzm₁ v) (nzm₂ v))
    (o : Nat) :
    MaskLe (s.getNZMaskLocal isLoopIn nzLocal c₁ o nzm₁)
      (s.getNZMaskLocal isLoopIn nzLocal c₂ o nzm₂) := by
  refine hmono o _ _ ?_
  rw [List.forall₂_map_left_iff, List.forall₂_map_right_iff, List.forall₂_same]
  intro i _
  by_cases h₁ : (c₁ && s.isClipped isLoopIn o i) = true
  · rw [if_pos h₁]; exact MaskLe.zero_le _
  · have h₂ : (c₂ && s.isClipped isLoopIn o i) = false := by
      cases c₂ <;> cases c₁ <;> simp_all
    rw [if_neg h₁, if_neg (by simp [h₂])]
    cases s.getIn o i with
    | none => exact MaskLe.refl 0
    | some v => exact h v

/-- Only a `MULTIEQUAL` has clipped slots. -/
theorem getNZMaskLocal_true_of_ne {o : Nat} (hne : s.codeOf o ≠ .multiequal)
    (nzm : Nat → UInt64) :
    s.getNZMaskLocal isLoopIn nzLocal true o nzm =
      s.getNZMaskLocal isLoopIn nzLocal false o nzm := by
  unfold getNZMaskLocal
  congr 1
  refine List.map_congr_left fun i _ => ?_
  simp [isClipped, hne]

end Graph

/-! ### The first pass -/

/-- An edge the first pass follows: the alive op `o` reads, in a slot that is not clipped, a
varnode the op `d` writes. -/
def FollowedEdge (alive : List Nat) (o d : Nat) : Prop :=
  o ∈ alive ∧
    ∃ i v, s.isClipped isLoopIn o i = false ∧ s.getIn o i = some v ∧ s.defOf v = some d

/-- The alive ops are closed under data flow: the op writing a varnode an alive op reads, and
every reader of an alive op's output, are alive. -/
structure AliveClosed (alive : List Nat) : Prop where
  defs : ∀ o ∈ alive, ∀ i v d, s.getIn o i = some v → s.defOf v = some d → d ∈ alive
  readers : ∀ o ∈ alive, ∀ w r, s.outputOf o = some w → r ∈ s.descendOf w → r ∈ alive

/-- Slot `i` of op `o` is done for the masks `nzm`: unless the slot is clipped, an unwritten
varnode read there has its mask, and the op writing a written one satisfies `done`. -/
def SlotDone (nzm : Nat → UInt64) (done : Nat → Prop) (o i : Nat) : Prop :=
  s.isClipped isLoopIn o i = false → ∀ v x, s.getIn o i = some v → s.vn v = some x →
    (x.defOp = none → nzm v = unwrittenMask x) ∧ ∀ d, x.defOp = some d → done d

/-- An op the first pass has finished, for the masks `nzm`, the marked ops and the ops on the
stack: its output has `getNZMaskLocal(true)` of it, and all its slots are done, the ops writing
what it reads being finished too. -/
def Finished (nzm : Nat → UInt64) (marks ops : List Nat) (o : Nat) : Prop :=
  (∀ out, s.outputOf o = some out → nzm out = s.getNZMaskLocal isLoopIn nzLocal true o nzm) ∧
    ∀ i, s.SlotDone isLoopIn nzm (fun d => d ∈ marks ∧ d ∉ ops) o i

/-- The invariant of the first pass from the masks `nzm₀`: the marked ops are alive; the frames
are of marked ops, within their slots, and each frame's op reaches every frame above it by
followed edges; the slots a frame has passed are done; every marked op off the stack is
finished; and the masks of the varnodes no marked op writes or reads in a followed slot are as
on entry. -/
structure WalkInv (alive : List Nat) (nzm₀ : Nat → UInt64) (w : NZWalk) : Prop where
  marks_alive : ∀ o ∈ w.marks, o ∈ alive
  marked : ∀ f ∈ w.stack, f.1 ∈ w.marks
  slot_le : ∀ f ∈ w.stack, f.2 ≤ (s.inrefsOf f.1).length
  chain : w.stack.Pairwise fun a b => Relation.TransGen (s.FollowedEdge isLoopIn alive) b.1 a.1
  frames : ∀ f ∈ w.stack, ∀ i < f.2, s.SlotDone isLoopIn w.nzm (· ∈ w.marks) f.1 i
  finished : ∀ o ∈ w.marks, o ∉ w.stack.map Prod.fst →
    s.Finished isLoopIn nzLocal w.nzm w.marks (w.stack.map Prod.fst) o
  frame : ∀ v, (∀ o ∈ w.marks, s.outputOf o ≠ some v) →
    (∀ o ∈ w.marks, ∀ i, s.isClipped isLoopIn o i = false → s.getIn o i ≠ some v) →
    w.nzm v = nzm₀ v

section SlotDone

variable {s isLoopIn} {nzm : Nat → UInt64} {done : Nat → Prop} {o i : Nat}

theorem SlotDone.mono {done' : Nat → Prop} (hd : s.SlotDone isLoopIn nzm done o i)
    (h : ∀ d, done d → done' d) : s.SlotDone isLoopIn nzm done' o i :=
  fun hc v x hv hx => ⟨(hd hc v x hv hx).1, fun d hdx => h d ((hd hc v x hv hx).2 d hdx)⟩

/-- Setting the mask of a written varnode leaves every slot done. -/
theorem SlotDone.setNzm_written {out : Nat} (hd : s.SlotDone isLoopIn nzm done o i)
    (hout : ∀ x, s.vn out = some x → x.defOp ≠ none) (m : UInt64) :
    s.SlotDone isLoopIn (setNzm nzm out m) done o i := fun hc v x hv hx => by
  refine ⟨fun hw => ?_, (hd hc v x hv hx).2⟩
  have hne : v ≠ out := by rintro rfl; exact hout x hx hw
  rw [setNzm_ne _ _ hne]; exact (hd hc v x hv hx).1 hw

/-- Giving an unwritten varnode its mask leaves every slot done. -/
theorem SlotDone.setNzm_unwritten {v : Nat} {x : Varnode} (hd : s.SlotDone isLoopIn nzm done o i)
    (hx : s.vn v = some x) : s.SlotDone isLoopIn (setNzm nzm v (unwrittenMask x)) done o i :=
  fun hc v' x' hv hx' => by
  refine ⟨fun hw => ?_, (hd hc v' x' hv hx').2⟩
  by_cases hvv : v' = v
  · subst hvv; rw [hx] at hx'; cases hx'; exact setNzm_self _ _ _
  · rw [setNzm_ne _ _ hvv]; exact (hd hc v' x' hv hx').1 hw

end SlotDone

section Finished

variable {s isLoopIn nzLocal} {nzm : Nat → UInt64} {marks ops : List Nat} {p : Nat}

theorem Finished.mono {marks' ops' : List Nat}
    (hF : s.Finished isLoopIn nzLocal nzm marks ops p) (hm : ∀ d ∈ marks, d ∈ marks')
    (hops : ∀ d ∈ marks, d ∉ ops → d ∉ ops') :
    s.Finished isLoopIn nzLocal nzm marks' ops' p :=
  ⟨hF.1, fun i => (hF.2 i).mono fun d hd => ⟨hm d hd.1, hops d hd.1 hd.2⟩⟩

/-- Giving an unwritten varnode its mask keeps every finished op finished. -/
theorem Finished.setNzm_unwritten (h : DefsMatch s)
    (hF : s.Finished isLoopIn nzLocal nzm marks ops p)
    {v : Nat} {x : Varnode} (hx : s.vn v = some x) (hw : x.defOp = none) :
    s.Finished isLoopIn nzLocal (setNzm nzm v (unwrittenMask x)) marks ops p := by
  refine ⟨fun out hout => ?_, fun i => (hF.2 i).setNzm_unwritten hx⟩
  have hne : out ≠ v := by rintro rfl; rw [defOp_of_outputOf h hout hx] at hw; cases hw
  rw [setNzm_ne _ _ hne, hF.1 out hout]
  refine getNZMaskLocal_congr fun i v' hc hv' => ?_
  by_cases hvv : v' = v
  · subst hvv
    rw [setNzm_self, ((hF.2 i) (by simpa using hc) v' x hv' hx).1 hw]
  · rw [setNzm_ne _ _ hvv]

/-- Setting the output of an op on the stack keeps every other finished op finished: none of
them reads it in a followed slot. -/
theorem Finished.setNzm_output (h : DefsMatch s) (hF : s.Finished isLoopIn nzLocal nzm marks ops p)
    {o out : Nat} (ho : o ∈ ops) (hout : s.outputOf o = some out) (hp : p ≠ o) (m : UInt64) :
    s.Finished isLoopIn nzLocal (setNzm nzm out m) marks ops p := by
  have hw : ∀ y, s.vn out = some y → y.defOp ≠ none := fun y hy => by
    rw [defOp_of_outputOf h hout hy]; exact Option.some_ne_none o
  refine ⟨fun out' hout' => ?_, fun i => (hF.2 i).setNzm_written hw m⟩
  have hne : out' ≠ out := fun he => hp (outputOf_inj h hout' (he ▸ hout))
  rw [setNzm_ne _ _ hne, hF.1 out' hout']
  refine getNZMaskLocal_congr fun i v hc hv => ?_
  have hvo : v ≠ out := by
    rintro rfl
    obtain ⟨y, hy⟩ := Option.isSome_iff_exists.mp (DefsMatch.vn_isSome h hout)
    exact ((hF.2 i) (by simpa using hc) v y hv hy).2 o (defOp_of_outputOf h hout hy) |>.2 ho
  rw [setNzm_ne _ _ hvo]

end Finished

section WalkStep

variable {s isLoopIn nzLocal} {alive : List Nat} {nzm₀ : Nat → UInt64} {w : NZWalk}
  {o k : Nat} {rest : List (Nat × Nat)}

/-- The slot on top advances past a slot that is done. -/
theorem WalkInv.advance (hI : s.WalkInv isLoopIn nzLocal alive nzm₀ w)
    (hs : w.stack = (o, k) :: rest) (hk : k < (s.inrefsOf o).length)
    (hdone : s.SlotDone isLoopIn w.nzm (· ∈ w.marks) o k) :
    s.WalkInv isLoopIn nzLocal alive nzm₀ { w with stack := (o, k + 1) :: rest } := by
  have hmem : ∀ f ∈ rest, f ∈ w.stack := fun f hf => hs ▸ List.mem_cons_of_mem _ hf
  have htop : (o, k) ∈ w.stack := hs ▸ List.mem_cons_self _ _
  have hops : ((o, k + 1) :: rest).map Prod.fst = w.stack.map Prod.fst := by rw [hs]; rfl
  have hchain := hI.chain
  rw [hs, List.pairwise_cons] at hchain
  refine ⟨hI.marks_alive,
    List.forall_mem_cons.mpr ⟨hI.marked (o, k) htop, fun f hf => hI.marked f (hmem f hf)⟩,
    List.forall_mem_cons.mpr ⟨hk, fun f hf => hI.slot_le f (hmem f hf)⟩,
    List.pairwise_cons.mpr hchain,
    List.forall_mem_cons.mpr ⟨fun i hi => ?_, fun f hf => hI.frames f (hmem f hf)⟩,
    fun p hp hnot => ?_, hI.frame⟩
  · rcases Nat.lt_succ_iff_lt_or_eq.mp hi with hi | rfl
    exacts [hI.frames _ htop i hi, hdone]
  · rw [hops] at hnot ⊢
    exact hI.finished p hp hnot

/-- Giving its mask to an unwritten varnode that a marked op reads in a followed slot. -/
theorem WalkInv.setUnwritten (h : DefsMatch s) (hI : s.WalkInv isLoopIn nzLocal alive nzm₀ w)
    {v : Nat} {x : Varnode} (hx : s.vn v = some x) (hw : x.defOp = none) {o i : Nat}
    (ho : o ∈ w.marks) (hc : s.isClipped isLoopIn o i = false) (hv : s.getIn o i = some v) :
    s.WalkInv isLoopIn nzLocal alive nzm₀ { w with nzm := setNzm w.nzm v (unwrittenMask x) } where
  marks_alive := hI.marks_alive
  marked := hI.marked
  slot_le := hI.slot_le
  chain := hI.chain
  frames f hf i hi := (hI.frames f hf i hi).setNzm_unwritten hx
  finished p hp hnot := (hI.finished p hp hnot).setNzm_unwritten h hx hw
  frame v' hout hread := by
    have hne : v' ≠ v := by rintro rfl; exact hread o ho i hc hv
    exact (setNzm_ne _ _ hne).trans (hI.frame v' hout hread)

/-- An unwritten varnode in the slot on top gets its mask. -/
theorem WalkInv.unwritten (h : DefsMatch s) (hI : s.WalkInv isLoopIn nzLocal alive nzm₀ w)
    (hs : w.stack = (o, k) :: rest) (hk : k < (s.inrefsOf o).length)
    (hc : s.isClipped isLoopIn o k = false) {v : Nat} {x : Varnode} (hv : s.getIn o k = some v)
    (hx : s.vn v = some x) (hw : x.defOp = none) :
    s.WalkInv isLoopIn nzLocal alive nzm₀
      { w with nzm := setNzm w.nzm v (unwrittenMask x), stack := (o, k + 1) :: rest } :=
  (hI.setUnwritten h hx hw (hI.marked (o, k) (hs ▸ List.mem_cons_self _ _)) hc hv).advance hs hk
    fun _ v' x' hv' hx' => by
      rw [hv] at hv'; cases hv'; rw [hx] at hx'; cases hx'
      exact ⟨fun _ => setNzm_self _ _ _, fun d hd => by rw [hw] at hd; cases hd⟩

/-- The unmarked op writing the varnode in the slot on top is marked and pushed. -/
theorem WalkInv.push (hclosed : s.AliveClosed alive)
    (hI : s.WalkInv isLoopIn nzLocal alive nzm₀ w)
    (hs : w.stack = (o, k) :: rest) (hk : k < (s.inrefsOf o).length)
    (hc : s.isClipped isLoopIn o k = false) {v : Nat} {x : Varnode} {d : Nat}
    (hv : s.getIn o k = some v) (hx : s.vn v = some x) (hd : x.defOp = some d)
    (hdm : d ∉ w.marks) :
    s.WalkInv isLoopIn nzLocal alive nzm₀
      { w with marks := d :: w.marks, stack := (d, 0) :: (o, k + 1) :: rest } := by
  have htop : (o, k) ∈ w.stack := hs ▸ List.mem_cons_self _ _
  have hmem : ∀ f ∈ rest, f ∈ w.stack := fun f hf => hs ▸ List.mem_cons_of_mem _ hf
  have ho := hI.marked (o, k) htop
  have hdef : s.defOf v = some d := by simp [defOf, hx, hd]
  have hedge : s.FollowedEdge isLoopIn alive o d := ⟨hI.marks_alive o ho, k, v, hc, hv, hdef⟩
  have hchain := hI.chain
  rw [hs, List.pairwise_cons] at hchain
  have hops : ∀ d' ∈ w.marks, d' ∉ w.stack.map Prod.fst →
      d' ∉ ((d, 0) :: (o, k + 1) :: rest).map Prod.fst := fun d' hd' hn hin => by
    rcases List.mem_cons.mp hin with rfl | hin
    · exact hdm hd'
    · exact hn (by rw [hs]; exact hin)
  have hsub : ∀ d', d' ∈ w.marks → d' ∈ d :: w.marks := fun _ => List.mem_cons_of_mem _
  refine ⟨List.forall_mem_cons.mpr
      ⟨hclosed.defs o (hI.marks_alive o ho) k v d hv hdef, hI.marks_alive⟩,
    List.forall_mem_cons.mpr ⟨List.mem_cons_self _ _, List.forall_mem_cons.mpr
      ⟨hsub o ho, fun f hf => hsub _ (hI.marked f (hmem f hf))⟩⟩,
    List.forall_mem_cons.mpr ⟨Nat.zero_le _, List.forall_mem_cons.mpr
      ⟨hk, fun f hf => hI.slot_le f (hmem f hf)⟩⟩,
    List.pairwise_cons.mpr ⟨List.forall_mem_cons.mpr
      ⟨.single hedge, fun f hf => (hchain.1 f hf).tail hedge⟩, List.pairwise_cons.mpr hchain⟩,
    List.forall_mem_cons.mpr ⟨fun i hi => absurd hi (Nat.not_lt_zero _), List.forall_mem_cons.mpr
      ⟨fun i hi => ?_, fun f hf i hi => (hI.frames f (hmem f hf) i hi).mono hsub⟩⟩, ?_, ?_⟩
  · rcases Nat.lt_succ_iff_lt_or_eq.mp hi with hi | rfl
    · exact (hI.frames (o, k) htop i hi).mono hsub
    · intro _ v' x' hv' hx'
      rw [hv] at hv'; cases hv'; rw [hx] at hx'; cases hx'
      exact ⟨fun hn => (by rw [hd] at hn; cases hn),
        fun d' hd' => by rw [hd] at hd'; cases hd'; exact List.mem_cons_self _ _⟩
  · intro p hp hnot
    rcases List.mem_cons.mp hp with rfl | hp
    · exact absurd (List.mem_cons_self _ _) hnot
    have hold : p ∉ w.stack.map Prod.fst := fun hin => hnot (List.mem_cons_of_mem _ (by
      rw [hs] at hin; exact hin))
    exact (hI.finished p hp hold).mono (fun _ => List.mem_cons_of_mem _) hops
  · intro v' hout hread
    exact hI.frame v' (fun p hp => hout p (List.mem_cons_of_mem _ hp))
      (fun p hp => hread p (List.mem_cons_of_mem _ hp))

/-- The op on top, with no slot left, gets `getNZMaskLocal(true)` on its output and is popped:
every cycle passing through a clipped slot, the ops writing what it reads are finished. -/
theorem WalkInv.pop (h : DefsMatch s)
    (hacyc : ∀ o, ¬ Relation.TransGen (s.FollowedEdge isLoopIn alive) o o)
    (hI : s.WalkInv isLoopIn nzLocal alive nzm₀ w) (hs : w.stack = (o, k) :: rest)
    (hk : (s.inrefsOf o).length ≤ k) :
    s.WalkInv isLoopIn nzLocal alive nzm₀
      { w with
        nzm := match s.outputOf o with
          | some out => setNzm w.nzm out (s.getNZMaskLocal isLoopIn nzLocal true o w.nzm)
          | none => w.nzm
        stack := rest } := by
  have htop : (o, k) ∈ w.stack := hs ▸ List.mem_cons_self _ _
  have hmem : ∀ f ∈ rest, f ∈ w.stack := fun f hf => hs ▸ List.mem_cons_of_mem _ hf
  have ho := hI.marked (o, k) htop
  have hchain := hI.chain
  rw [hs, List.pairwise_cons] at hchain
  have hbelow : ∀ d ∈ rest.map Prod.fst,
      Relation.TransGen (s.FollowedEdge isLoopIn alive) d o := fun d hd => by
    obtain ⟨f, hf, rfl⟩ := List.mem_map.mp hd
    exact hchain.1 f hf
  have hops : ∀ d ∈ w.marks, d ∉ w.stack.map Prod.fst → d ∉ rest.map Prod.fst :=
    fun d _ hn hin => hn (by rw [hs]; exact List.mem_cons_of_mem _ hin)
  have hslots : ∀ i,
      s.SlotDone isLoopIn w.nzm (fun d => d ∈ w.marks ∧ d ∉ rest.map Prod.fst) o i := by
    intro i hc v x hv hx
    have hd := hI.frames (o, k) htop i (Nat.lt_of_lt_of_le (lt_of_getIn hv) hk) hc v x hv hx
    refine ⟨hd.1, fun d hdx => ⟨hd.2 d hdx, fun hdr => hacyc o ?_⟩⟩
    exact .head ⟨hI.marks_alive o ho, i, v, hc, hv, by simp [defOf, hx, hdx]⟩ (hbelow d hdr)
  have hother : ∀ p ∈ w.marks, p ∉ rest.map Prod.fst → p ≠ o →
      s.Finished isLoopIn nzLocal w.nzm w.marks (w.stack.map Prod.fst) p := fun p hp hn hpo =>
    hI.finished p hp fun hin => by
      rw [hs] at hin
      rcases List.mem_cons.mp hin with h' | h'
      exacts [hpo h', hn h']
  have hmarked : ∀ f ∈ rest, f.1 ∈ w.marks := fun f hf => hI.marked f (hmem f hf)
  have hslot : ∀ f ∈ rest, f.2 ≤ (s.inrefsOf f.1).length :=
    fun f hf => hI.slot_le f (hmem f hf)
  cases hout : s.outputOf o with
  | none =>
    dsimp only
    refine ⟨hI.marks_alive, hmarked, hslot, hchain.2,
      fun f hf => hI.frames f (hmem f hf), fun p hp hn => ?_, hI.frame⟩
    by_cases hpo : p = o
    · subst hpo; exact ⟨fun out h' => (by rw [hout] at h'; cases h'), hslots⟩
    · exact (hother p hp hn hpo).mono (fun _ => id) hops
  | some out =>
    dsimp only
    have hw : ∀ y, s.vn out = some y → y.defOp ≠ none := fun y hy => by
      rw [defOp_of_outputOf h hout hy]; exact Option.some_ne_none o
    refine ⟨hI.marks_alive, hmarked, hslot, hchain.2,
      fun f hf i hi => (hI.frames f (hmem f hf) i hi).setNzm_written hw _, fun p hp hn => ?_,
      fun v hv hread => ?_⟩
    · by_cases hpo : p = o
      · subst hpo
        refine ⟨fun out' h' => ?_, fun i => (hslots i).setNzm_written hw _⟩
        rw [hout] at h'; cases h'
        simp only [setNzm_self]
        refine getNZMaskLocal_congr fun i v hc hv => (setNzm_ne _ _ ?_).symm
        rintro rfl
        exact hacyc p
          (.single ⟨hI.marks_alive p hp, i, v, by simpa using hc, hv, (h p v).mpr hout⟩)
      · exact ((hother p hp hn hpo).setNzm_output h (by rw [hs]; exact List.mem_cons_self _ _)
          hout hpo _).mono (fun _ => id) hops
    · have hne : v ≠ out := by rintro rfl; exact hv o ho hout
      exact (setNzm_ne _ _ hne).trans (hI.frame v hv hread)

/-- What one round of the first pass does from the frame `(o, k)` on top: pop it; advance past
a slot that is already done; give an unwritten varnode its mask; or mark and push the op
writing the varnode read. -/
theorem nzWalkStep_cases (hs : w.stack = (o, k) :: rest) :
    ((s.inrefsOf o).length ≤ k ∧ s.nzWalkStep isLoopIn nzLocal w =
      { w with
        nzm := match s.outputOf o with
          | some out => setNzm w.nzm out (s.getNZMaskLocal isLoopIn nzLocal true o w.nzm)
          | none => w.nzm
        stack := rest }) ∨
    (k < (s.inrefsOf o).length ∧
      s.nzWalkStep isLoopIn nzLocal w = { w with stack := (o, k + 1) :: rest } ∧
      s.SlotDone isLoopIn w.nzm (· ∈ w.marks) o k) ∨
    (k < (s.inrefsOf o).length ∧ s.isClipped isLoopIn o k = false ∧
      ∃ v x, s.getIn o k = some v ∧ s.vn v = some x ∧ x.defOp = none ∧
        s.nzWalkStep isLoopIn nzLocal w =
          { w with nzm := setNzm w.nzm v (unwrittenMask x), stack := (o, k + 1) :: rest }) ∨
    (k < (s.inrefsOf o).length ∧ s.isClipped isLoopIn o k = false ∧
      ∃ v x d, s.getIn o k = some v ∧ s.vn v = some x ∧ x.defOp = some d ∧ d ∉ w.marks ∧
        s.nzWalkStep isLoopIn nzLocal w =
          { w with marks := d :: w.marks, stack := (d, 0) :: (o, k + 1) :: rest }) := by
  unfold nzWalkStep
  rw [hs]
  dsimp only
  split_ifs with hk hc
  · exact .inl ⟨hk, rfl⟩
  · exact .inr (.inl ⟨Nat.lt_of_not_le hk, rfl, fun hc' => absurd hc' (by simp [hc])⟩)
  have hk' := Nat.lt_of_not_le hk
  have hc' : s.isClipped isLoopIn o k = false := by simpa using hc
  split
  · exact .inr (.inl ⟨hk', rfl, fun _ v _ hv => by simp_all⟩)
  rename_i v hv
  split
  · exact .inr (.inl ⟨hk', rfl, fun _ v' _ hv' hx => by rw [hv] at hv'; cases hv'; simp_all⟩)
  rename_i x hx
  split
  · exact .inr (.inr (.inl ⟨hk', hc', v, x, hv, hx, ‹_›, rfl⟩))
  rename_i d hd
  split_ifs with hdm
  · refine .inr (.inl ⟨hk', rfl, fun _ v' x' hv' hx' => ?_⟩)
    rw [hv] at hv'; cases hv'; rw [hx] at hx'; cases hx'
    exact ⟨fun hn => (by rw [hd] at hn; cases hn),
      fun d' hd' => by rw [hd] at hd'; cases hd'; exact hdm⟩
  · exact .inr (.inr (.inr ⟨hk', hc', v, x, d, hv, hx, hd, hdm, rfl⟩))

/-- **One round of the first pass keeps its invariant**, every cycle passing through a clipped
slot. -/
theorem WalkInv.step (h : Linked s) (hclosed : s.AliveClosed alive)
    (hacyc : ∀ o, ¬ Relation.TransGen (s.FollowedEdge isLoopIn alive) o o)
    (hI : s.WalkInv isLoopIn nzLocal alive nzm₀ w) :
    s.WalkInv isLoopIn nzLocal alive nzm₀ (s.nzWalkStep isLoopIn nzLocal w) := by
  rcases hs : w.stack with _ | ⟨⟨o, k⟩, rest⟩
  · simpa [nzWalkStep, hs] using hI
  rcases nzWalkStep_cases hs with ⟨hk, he⟩ | ⟨hk, he, hd⟩ |
    ⟨hk, hc, v, x, hv, hx, hw, he⟩ |
      ⟨hk, hc, v, x, d, hv, hx, hd, hdm, he⟩ <;> rw [he]
  exacts [hI.pop h.defs hacyc hs hk, hI.advance hs hk hd, hI.unwritten h.defs hs hk hc hv hx hw,
    hI.push hclosed hs hk hc hv hx hd hdm]

/-- The measure of the first pass: the slots and the pop of every alive op not yet marked,
and the slots left and the pop of every frame. -/
def walkMeasure (alive : List Nat) (w : NZWalk) : Nat :=
  ((alive.filter (· ∉ w.marks)).map fun o => (s.inrefsOf o).length + 1).sum +
    (w.stack.map fun f => (s.inrefsOf f.1).length + 1 - f.2).sum

theorem sum_filter_le {l : List Nat} {p q : Nat → Prop} [DecidablePred p] [DecidablePred q]
    (h : ∀ a, p a → q a) (f : Nat → Nat) :
    ((l.filter (p ·)).map f).sum ≤ ((l.filter (q ·)).map f).sum := by
  induction l with
  | nil => exact Nat.le_refl 0
  | cons a l ih =>
    by_cases hp : p a
    · simp [List.filter_cons, hp, h a hp, ih]
    · by_cases hq : q a <;> simp [List.filter_cons, hp, hq] <;> omega

/-- Marking an alive op takes its part off the first sum. -/
theorem sum_filter_mark {l m : List Nat} {d : Nat} (hd : d ∈ l) (hdm : d ∉ m)
    (f : Nat → Nat) :
    ((l.filter (· ∉ d :: m)).map f).sum + f d ≤ ((l.filter (· ∉ m)).map f).sum := by
  induction l with
  | nil => cases hd
  | cons a l ih =>
    by_cases had : a = d
    · subst had
      have := sum_filter_le (l := l) (p := (· ∉ a :: m)) (q := (· ∉ m))
        (fun _ h' h'' => h' (List.mem_cons_of_mem _ h'')) f
      simp [List.filter_cons, hdm] at this ⊢; omega
    · have hl : d ∈ l := (List.mem_cons.mp hd).resolve_left (Ne.symm had)
      by_cases ham : a ∈ m
      · simpa [List.filter_cons, ham] using ih hl
      · have := ih hl
        simp [List.filter_cons, ham, had] at this ⊢; omega

/-- **Every round of the first pass lowers its measure.** -/
theorem walkMeasure_step_lt (hclosed : s.AliveClosed alive)
    (hI : s.WalkInv isLoopIn nzLocal alive nzm₀ w) (hs : w.stack = (o, k) :: rest) :
    s.walkMeasure alive (s.nzWalkStep isLoopIn nzLocal w) < s.walkMeasure alive w := by
  have hle := hI.slot_le (o, k) (hs ▸ List.mem_cons_self _ _)
  rcases nzWalkStep_cases hs with ⟨hk, he⟩ | ⟨hk, he, -⟩ | ⟨hk, -, v, x, -, -, -, he⟩ |
      ⟨hk, hc, v, x, d, hv, hx, hd, hdm, he⟩ <;>
    rw [he] <;> simp only [walkMeasure, hs, List.map_cons, List.sum_cons] <;> dsimp only at hle ⊢
  any_goals omega
  · have hdA : d ∈ alive := hclosed.defs o (hI.marks_alive o (hI.marked (o, k)
      (hs ▸ List.mem_cons_self _ _))) k v d hv (by simp [defOf, hx, hd])
    have := sum_filter_mark hdA hdm fun o => (s.inrefsOf o).length + 1
    omega

/-- **The first pass's inner loop ends**, within the measure, and keeps the invariant; the
marks only grow. -/
theorem nzWalkLoop_run (h : Linked s) (hclosed : s.AliveClosed alive)
    (hacyc : ∀ o, ¬ Relation.TransGen (s.FollowedEdge isLoopIn alive) o o)
    (w : NZWalk) (hI : s.WalkInv isLoopIn nzLocal alive nzm₀ w) :
    ∃ r, (∀ n, s.walkMeasure alive w < n → s.nzWalkLoop isLoopIn nzLocal n w = some r) ∧
      s.WalkInv isLoopIn nzLocal alive nzm₀ r ∧ r.stack = [] ∧
        ∀ o ∈ w.marks, o ∈ r.marks := by
  induction' hμ : s.walkMeasure alive w using Nat.strong_induction_on with μ ih generalizing w
  rcases hs : w.stack with _ | ⟨⟨o, k⟩, rest⟩
  · refine ⟨w, fun n hn => ?_, hI, hs, fun _ => id⟩
    obtain ⟨n, rfl⟩ := Nat.exists_eq_add_of_lt hn
    simp [nzWalkLoop, hs]
  obtain ⟨r, hr, hrI, hrs, hrm⟩ :=
    ih _ (hμ ▸ walkMeasure_step_lt hclosed hI hs) _ (hI.step h hclosed hacyc) rfl
  refine ⟨r, fun n hn => ?_, hrI, hrs, fun p hp => hrm p ?_⟩
  · obtain ⟨n, rfl⟩ := Nat.exists_eq_add_of_lt hn
    rw [nzWalkLoop, if_neg (by simp [hs])]
    exact hr _ (by have := walkMeasure_step_lt hclosed hI hs; omega)
  · rcases nzWalkStep_cases hs with ⟨_, he⟩ | ⟨_, he, _⟩ | ⟨_, _, _, _, _, _, _, he⟩ |
      ⟨_, _, _, _, _, _, _, _, _, he⟩ <;> rw [he]
    exacts [hp, hp, hp, List.mem_cons_of_mem _ hp]

end WalkStep

section FirstPass

variable {s isLoopIn nzLocal} {alive : List Nat} {nzm₀ : Nat → UInt64} {w : NZWalk}

/-- An unmarked alive op is marked and pushed, alone on the stack. -/
theorem WalkInv.start (hI : s.WalkInv isLoopIn nzLocal alive nzm₀ w) (hs : w.stack = [])
    {op : Nat} (hop : op ∈ alive) (hm : op ∉ w.marks) :
    s.WalkInv isLoopIn nzLocal alive nzm₀
      { w with marks := op :: w.marks, stack := [(op, 0)] } where
  marks_alive p hp := (List.mem_cons.mp hp).elim (· ▸ hop) (hI.marks_alive p)
  marked f hf := by rw [List.mem_singleton.mp hf]; exact List.mem_cons_self _ _
  slot_le f hf := by rw [List.mem_singleton.mp hf]; exact Nat.zero_le _
  chain := List.pairwise_singleton _ _
  frames f hf i hi := by rw [List.mem_singleton.mp hf] at hi; exact absurd hi (Nat.not_lt_zero _)
  finished p hp hn := by
    have hpo : p ≠ op := fun he => hn (by simp [he])
    have hp' := (List.mem_cons.mp hp).resolve_left hpo
    refine (hI.finished p hp' (by simp [hs])).mono (fun _ => List.mem_cons_of_mem _) ?_
    intro d hd _ hin
    simp only [List.map_cons, List.map_nil, List.mem_singleton] at hin
    exact hm (hin ▸ hd)
  frame v hout hread :=
    hI.frame v (fun p hp => hout p (List.mem_cons_of_mem _ hp))
      (fun p hp => hread p (List.mem_cons_of_mem _ hp))

/-- **The first pass ends** over a list of alive ops, from a state with an empty stack: every
op of the list is marked, and the invariant holds. -/
theorem nzFirstPass_run (h : Linked s) (hclosed : s.AliveClosed alive)
    (hacyc : ∀ o, ¬ Relation.TransGen (s.FollowedEdge isLoopIn alive) o o) :
    ∀ (ops : List Nat), (∀ op ∈ ops, op ∈ alive) →
      ∀ w, s.WalkInv isLoopIn nzLocal alive nzm₀ w → w.stack = [] →
        ∃ N r, (∀ n, N ≤ n → s.nzFirstPass isLoopIn nzLocal n ops w = some r) ∧
          s.WalkInv isLoopIn nzLocal alive nzm₀ r ∧ r.stack = [] ∧
          (∀ o ∈ w.marks, o ∈ r.marks) ∧ ∀ o ∈ ops, o ∈ r.marks
  | [], _, w, hI, hs => ⟨0, w, fun _ _ => rfl, hI, hs, fun _ => id, fun _ h => by cases h⟩
  | op :: ops, hops, w, hI, hs => by
    have hops' : ∀ op ∈ ops, op ∈ alive := fun o ho => hops o (List.mem_cons_of_mem _ ho)
    by_cases hm : op ∈ w.marks
    · obtain ⟨N, r, hr, hrI, hrs, hrm, hrops⟩ :=
        nzFirstPass_run h hclosed hacyc ops hops' w hI hs
      refine ⟨N, r, fun n hn => ?_, hrI, hrs, hrm, fun o ho => ?_⟩
      · rw [nzFirstPass, if_pos hm]; exact hr n hn
      · rcases List.mem_cons.mp ho with rfl | ho
        exacts [hrm o hm, hrops o ho]
    · obtain ⟨r₁, hr₁, hr₁I, hr₁s, hr₁m⟩ :=
        nzWalkLoop_run h hclosed hacyc _ (hI.start hs (hops op (List.mem_cons_self _ _)) hm)
      obtain ⟨N, r, hr, hrI, hrs, hrm, hrops⟩ :=
        nzFirstPass_run h hclosed hacyc ops hops' r₁ hr₁I hr₁s
      refine ⟨max (s.walkMeasure alive
          { w with marks := op :: w.marks, stack := [(op, 0)] } + 1) N,
        r, fun n hn => ?_, hrI, hrs, fun o ho => hrm o (hr₁m o (List.mem_cons_of_mem _ ho)),
        fun o ho => ?_⟩
      · rw [nzFirstPass, if_neg hm, hr₁ n (by omega)]
        exact hr n (by omega)
      · rcases List.mem_cons.mp ho with rfl | ho
        exacts [hrm o (hr₁m o (List.mem_cons_self _ _)), hrops o ho]

end FirstPass

/-! ### The second pass -/

/-- The invariant of the second pass, from the masks `nzm₁` the first pass left: the ops on
the stack are alive; the output of every alive op has no bit that `getNZMaskLocal(false)` of
the op has not, and has its exact value unless the op is on the stack; and only the outputs of
alive ops have changed. -/
structure PropInv (alive : List Nat) (nzm₁ nzm : Nat → UInt64) (stack : List Nat) : Prop where
  stack_alive : ∀ o ∈ stack, o ∈ alive
  below : ∀ o ∈ alive, ∀ out, s.outputOf o = some out →
    MaskLe (nzm out) (s.getNZMaskLocal isLoopIn nzLocal false o nzm)
  settled : ∀ o ∈ alive, ∀ out, s.outputOf o = some out →
    nzm out = s.getNZMaskLocal isLoopIn nzLocal false o nzm ∨ o ∈ stack
  frame : ∀ v, (∀ o ∈ alive, s.outputOf o ≠ some v) → nzm v = nzm₁ v

/-- The potential of the masks: how many values each varnode's mask can still rise through. -/
def nzPotential (nzm : Nat → UInt64) : Nat :=
  ((List.range s.vbank.length).map fun v => UInt64.size - (nzm v).toNat).sum

section Propagate

variable {s isLoopIn nzLocal} {alive : List Nat} {nzm₁ nzm : Nat → UInt64} {o : Nat}
  {rest : List Nat}

/-- The op on top leaves the stack without changing a mask: it has no output, or its output
already has its value. -/
theorem PropInv.pop (hI : s.PropInv isLoopIn nzLocal alive nzm₁ nzm (o :: rest))
    (ho : ∀ out, s.outputOf o = some out →
      nzm out = s.getNZMaskLocal isLoopIn nzLocal false o nzm) :
    s.PropInv isLoopIn nzLocal alive nzm₁ nzm rest where
  stack_alive p hp := hI.stack_alive p (List.mem_cons_of_mem _ hp)
  below := hI.below
  settled p hp out hout := by
    rcases hI.settled p hp out hout with he | hin
    · exact .inl he
    rcases List.mem_cons.mp hin with rfl | hin
    exacts [.inl (ho out hout), .inr hin]
  frame := hI.frame

/-- The output of the op on top changes: its readers are pushed. -/
theorem PropInv.change (hmono : NZMonotone nzLocal) (h : Linked s)
    (hclosed : s.AliveClosed alive)
    (hI : s.PropInv isLoopIn nzLocal alive nzm₁ nzm (o :: rest)) {out : Nat}
    (hout : s.outputOf o = some out) :
    s.PropInv isLoopIn nzLocal alive nzm₁
      (setNzm nzm out (s.getNZMaskLocal isLoopIn nzLocal false o nzm))
      ((s.descendOf out).reverse ++ rest) := by
  have hoA := hI.stack_alive o (List.mem_cons_self _ _)
  have hle : ∀ v,
      MaskLe (nzm v) (setNzm nzm out (s.getNZMaskLocal isLoopIn nzLocal false o nzm) v) :=
    fun v => by
      by_cases hv : v = out
      · subst hv; rw [setNzm_self]; exact hI.below o hoA v hout
      · rw [setNzm_ne _ _ hv]; exact MaskLe.refl _
  have hL : ∀ p, MaskLe (s.getNZMaskLocal isLoopIn nzLocal false p nzm)
      (s.getNZMaskLocal isLoopIn nzLocal false p
        (setNzm nzm out (s.getNZMaskLocal isLoopIn nzLocal false o nzm))) :=
    getNZMaskLocal_mono hmono id hle
  have hother : ∀ p out', s.outputOf p = some out' → p ≠ o → out' ≠ out :=
    fun p out' hout' hpo he => hpo (outputOf_inj h.defs hout' (he ▸ hout))
  refine ⟨fun p hp => ?_, fun p hp out' hout' => ?_, fun p hp out' hout' => ?_, fun v hv => ?_⟩
  · rcases List.mem_append.mp hp with hp | hp
    exacts [hclosed.readers o hoA out p hout (List.mem_reverse.mp hp),
      hI.stack_alive p (List.mem_cons_of_mem _ hp)]
  · by_cases hpo : p = o
    · subst hpo; rw [hout] at hout'; cases hout'
      rw [setNzm_self]; exact hL p
    · rw [setNzm_ne _ _ (hother p out' hout' hpo)]
      exact (hI.below p hp out' hout').trans (hL p)
  · by_cases hread : ∃ i, s.getIn p i = some out
    · obtain ⟨i, hi⟩ := hread
      exact .inr (List.mem_append_left _ (List.mem_reverse.mpr
        (mem_descendOf_of_getIn h.readers hi)))
    have hsame : s.getNZMaskLocal isLoopIn nzLocal false p
        (setNzm nzm out (s.getNZMaskLocal isLoopIn nzLocal false o nzm)) =
        s.getNZMaskLocal isLoopIn nzLocal false p nzm :=
      getNZMaskLocal_congr fun i v _ hv => setNzm_ne _ _ fun he => hread ⟨i, he ▸ hv⟩
    rw [hsame]
    by_cases hpo : p = o
    · subst hpo; rw [hout] at hout'; cases hout'
      exact .inl (setNzm_self _ _ _)
    · rw [setNzm_ne _ _ (hother p out' hout' hpo)]
      rcases hI.settled p hp out' hout' with he | hin
      · exact .inl he
      · exact .inr (List.mem_append_right _ ((List.mem_cons.mp hin).resolve_left hpo))
  · have hne : v ≠ out := by rintro rfl; exact hv o hoA hout
    rw [setNzm_ne _ _ hne]; exact hI.frame v hv

/-- A change of the output of the op on top lowers the potential. -/
theorem nzPotential_change (h : Linked s)
    (hI : s.PropInv isLoopIn nzLocal alive nzm₁ nzm (o :: rest))
    {out : Nat} (hout : s.outputOf o = some out)
    (hne : s.getNZMaskLocal isLoopIn nzLocal false o nzm ≠ nzm out) :
    s.nzPotential (setNzm nzm out (s.getNZMaskLocal isLoopIn nzLocal false o nzm)) <
      s.nzPotential nzm := by
  have hlt := (hI.below o (hI.stack_alive o (List.mem_cons_self _ _)) out hout).toNat_lt hne.symm
  have hsize := UInt64.toNat_lt_size (s.getNZMaskLocal isLoopIn nzLocal false o nzm)
  refine List.sum_lt_sum _ _ (fun v _ => ?_) ⟨out, List.mem_range.mpr
    (lt_of_vn_isSome (DefsMatch.vn_isSome h.defs hout)), by rw [setNzm_self]; omega⟩
  by_cases hv : v = out
  · subst hv; rw [setNzm_self]; omega
  · rw [setNzm_ne _ _ hv]

/-- **The second pass ends**, for a monotone transfer, with every alive op's output at
`getNZMaskLocal(false)` of the op. -/
theorem nzPropagate_run (hmono : NZMonotone nzLocal) (h : Linked s)
    (hclosed : s.AliveClosed alive) (nzm : Nat → UInt64) (stack : List Nat)
    (hI : s.PropInv isLoopIn nzLocal alive nzm₁ nzm stack) :
    ∃ N r, (∀ n, N ≤ n → s.nzPropagate isLoopIn nzLocal n nzm stack = some r) ∧
      s.PropInv isLoopIn nzLocal alive nzm₁ r [] := by
  induction' hμ : s.nzPotential nzm using Nat.strong_induction_on with μ ihμ
    generalizing nzm stack
  induction stack with
  | nil => exact ⟨0, nzm, fun n _ => by cases n <;> rfl, hI⟩
  | cons o rest ih =>
    cases hout : s.outputOf o with
    | none =>
      obtain ⟨N, r, hr, hrI⟩ := ih (hI.pop fun out h' => by rw [hout] at h'; cases h')
      refine ⟨N + 1, r, fuel_succ fun n hn => ?_, hrI⟩
      rw [nzPropagate, hout]; exact hr n hn
    | some out =>
      by_cases hne : s.getNZMaskLocal isLoopIn nzLocal false o nzm ≠ nzm out
      · obtain ⟨N, r, hr, hrI⟩ := ihμ _ (hμ ▸ nzPotential_change h hI hout hne) _ _
          (hI.change hmono h hclosed hout) rfl
        refine ⟨N + 1, r, fuel_succ fun n hn => ?_, hrI⟩
        simp only [nzPropagate, hout, if_pos hne]; exact hr n hn
      · obtain ⟨N, r, hr, hrI⟩ :=
          ih (hI.pop fun out' h' => by rw [hout] at h'; cases h'; exact (not_not.mp hne).symm)
        refine ⟨N + 1, r, fuel_succ fun n hn => ?_, hrI⟩
        simp only [nzPropagate, hout, if_neg hne]; exact hr n hn

end Propagate

/-! ### What `calcNZMask` computes -/

/-- What `calcNZMask` leaves, from the masks `nzm₀` on entry: the output of every alive op has
`getNZMaskLocal(false)` of the op; an unwritten varnode that an alive op reads in a slot that
is not clipped has its constant value or full mask; and every other varnode keeps its mask. -/
structure NZMasks (alive : List Nat) (nzm₀ nzm : Nat → UInt64) : Prop where
  output : ∀ o ∈ alive, ∀ out, s.outputOf o = some out →
    nzm out = s.getNZMaskLocal isLoopIn nzLocal false o nzm
  read : ∀ o ∈ alive, ∀ i v x, s.isClipped isLoopIn o i = false → s.getIn o i = some v →
    s.vn v = some x → x.defOp = none → nzm v = unwrittenMask x
  other : ∀ v, (∀ o ∈ alive, s.outputOf o ≠ some v) →
    (∀ o ∈ alive, ∀ i, s.isClipped isLoopIn o i = false → s.getIn o i ≠ some v) →
    nzm v = nzm₀ v

section Spec

variable {s isLoopIn nzLocal} {alive : List Nat}

/-- The first pass starts with nothing marked. -/
theorem WalkInv.empty (nzm₀ : Nat → UInt64) :
    s.WalkInv isLoopIn nzLocal alive nzm₀ ⟨nzm₀, [], []⟩ where
  marks_alive _ h := by cases h
  marked _ h := by cases h
  slot_le _ h := by cases h
  chain := List.Pairwise.nil
  frames _ h := by cases h
  finished _ h := by cases h
  frame _ _ _ := rfl

/-- The first pass, done over all alive ops, leaves the invariant of the second on the stack of
alive `MULTIEQUAL`s: the other ops' outputs already have `getNZMaskLocal(false)`, equal to
`getNZMaskLocal(true)`, and clipping only takes bits away. -/
theorem PropInv.of_firstPass (hmono : NZMonotone nzLocal) {nzm₀ : Nat → UInt64} {w : NZWalk}
    (hI : s.WalkInv isLoopIn nzLocal alive nzm₀ w) (hs : w.stack = [])
    (hall : ∀ o ∈ alive, o ∈ w.marks) :
    s.PropInv isLoopIn nzLocal alive w.nzm w.nzm
      (alive.filter (s.codeOf · == .multiequal)).reverse where
  stack_alive _ ho := (List.mem_filter.mp (List.mem_reverse.mp ho)).1
  below o ho out hout := by
    rw [(hI.finished o (hall o ho) (by simp [hs])).1 out hout]
    exact getNZMaskLocal_mono hmono (fun _ => rfl) (fun _ => MaskLe.refl _) o
  settled o ho out hout := by
    by_cases hm : s.codeOf o = .multiequal
    · exact .inr (List.mem_reverse.mpr (List.mem_filter.mpr ⟨ho, by simp [hm]⟩))
    · exact .inl (((hI.finished o (hall o ho) (by simp [hs])).1 out hout).trans
        (getNZMaskLocal_true_of_ne hm _))
  frame _ _ := rfl

/-- The masks the two passes leave are those `NZMasks` describes. -/
theorem NZMasks.of_passes (h : DefsMatch s) {nzm₀ r : Nat → UInt64} {w : NZWalk}
    (hI : s.WalkInv isLoopIn nzLocal alive nzm₀ w) (hs : w.stack = [])
    (hall : ∀ o ∈ alive, o ∈ w.marks) (hr : s.PropInv isLoopIn nzLocal alive w.nzm r []) :
    s.NZMasks isLoopIn nzLocal alive nzm₀ r where
  output o ho out hout := (hr.settled o ho out hout).resolve_right (List.not_mem_nil o)
  read o ho i v x hc hv hx hw := by
    have hnot : ∀ p ∈ alive, s.outputOf p ≠ some v := fun p _ hp => by
      rw [defOp_of_outputOf h hp hx] at hw; cases hw
    rw [hr.frame v hnot]
    exact ((hI.finished o (hall o ho) (by simp [hs])).2 i hc v x hv hx).1 hw
  other v hout hread := by
    rw [hr.frame v hout]
    exact hI.frame v (fun p hp => hout p (hI.marks_alive p hp))
      (fun p hp => hread p (hI.marks_alive p hp))

/-- **`calcNZMask` ends and computes `NZMasks`.** For a monotone transfer, over alive ops closed
under data flow whose followed edges make no cycle (every cycle passes through a loop edge of
a `MULTIEQUAL`), from any masks on entry, both passes end with enough fuel, and leave: every
alive op's output at `getNZMaskLocal(false)`, every unwritten varnode read through a followed
slot at its constant value or full mask, and every other varnode at its mask on entry. -/
theorem calcNZMask_spec (hmono : NZMonotone nzLocal) (h : Linked s)
    (hclosed : s.AliveClosed alive)
    (hacyc : ∀ o, ¬ Relation.TransGen (s.FollowedEdge isLoopIn alive) o o)
    (nzm : Nat → UInt64) :
    ∃ r, (∃ N, ∀ n, N ≤ n → s.calcNZMask isLoopIn nzLocal alive n nzm = some r) ∧
      s.NZMasks isLoopIn nzLocal alive nzm r := by
  obtain ⟨N₁, w, hw, hwI, hws, -, hall⟩ :=
    nzFirstPass_run h hclosed hacyc alive (fun _ => id) _ (WalkInv.empty nzm) rfl
  obtain ⟨N₂, r, hr, hrI⟩ :=
    nzPropagate_run hmono h hclosed w.nzm _ (PropInv.of_firstPass hmono hwI hws hall)
  refine ⟨r, ⟨max N₁ N₂, fun n hn => ?_⟩, NZMasks.of_passes h.defs hwI hws hall hrI⟩
  rw [calcNZMask, hw n (by omega), Option.some_bind]
  exact hr n (by omega)

end Spec

/-! ### Establishing the hypotheses -/

section Hypotheses

variable {s isLoopIn}

/-- All the ops of a linked store are closed under data flow. -/
theorem AliveClosed.range (h : Linked s) : s.AliveClosed (List.range s.obank.length) where
  defs _ _ _ v d _ hd := List.mem_range.mpr <| by
    have hout := (h.defs d v).mp hd
    by_contra hd; simp [outputOf, op_eq_none_of_le (Nat.le_of_not_lt hd)] at hout
  readers _ _ _ r _ hr := List.mem_range.mpr (lt_of_mem_inrefsOf (h.readers.mem_inrefs hr))

/-- The followed edges make no cycle when each leads to an op of lower index. -/
theorem not_transGen_followedEdge {alive : List Nat}
    (hlt : ∀ o d, s.FollowedEdge isLoopIn alive o d → d < o) (o : Nat) :
    ¬ Relation.TransGen (s.FollowedEdge isLoopIn alive) o o := fun hc => by
  suffices ∀ {a b}, Relation.TransGen (s.FollowedEdge isLoopIn alive) a b → b < a from
    Nat.lt_irrefl o (this hc)
  intro a b hab
  induction hab with
  | single he => exact hlt _ _ he
  | tail _ he ih => exact (hlt _ _ he).trans ih

end Hypotheses

/-! ### A constant on a loop edge -/

/-- A loop through block 0, whose in-edge 1 comes back from the block itself: the `MULTIEQUAL`
op 0 merges the input register `v0` (in-edge 0) with the constant 5 (`v1`, over the loop edge)
into `v2`, which op 1 copies into `v3`. -/
def loopPhi : Funcdata where
  glb := ⟨⟨0, .constant, 2 ^ 64 - 1, false, 1⟩, ⟨1, .internal, 2 ^ 64 - 1, false, 1⟩,
    ⟨2, .iop, 2 ^ 64 - 1, false, 1⟩, rfl, rfl, rfl⟩
  vbank := [some { loc := ⟨codeAddr.space, 0⟩, size := 4, descend := [0], input := true },
    some { loc := ⟨⟨0, .constant, 2 ^ 64 - 1, false, 1⟩, 5⟩, size := 4, descend := [0] },
    some { loc := ⟨codeAddr.space, 4⟩, size := 4, defOp := some 0, descend := [1] },
    some { loc := ⟨codeAddr.space, 8⟩, size := 4, defOp := some 1 }]
  obank := [some { code := .multiequal, addr := codeAddr, inrefs := [some 0, some 1],
                   output := some 2, parent := some 0 },
    some { code := .copy, addr := codeAddr, inrefs := [some 2], output := some 3,
           parent := some 0 }]
  bblocks := [{ ops := [0, 1], inEdges := [1, 0] }, {}]
  uniqId := 0

/-- The loop labels of `loopPhi`: in-edge 1 of block 0. -/
def loopEdge (b i : Nat) : Bool := b == 0 && i == 1

/-- A transfer that passes on the mask of the first input, as a `COPY` does. -/
def firstInputMask (_ : Nat) (l : List UInt64) : UInt64 := l.headD 0

theorem firstInputMask_monotone : NZMonotone firstInputMask
  | _, _, _, .nil => MaskLe.refl 0
  | _, _, _, .cons h _ => h

theorem loopPhi_linked : Linked loopPhi := Linked.of_check (by decide)

theorem loopPhi_aliveClosed : loopPhi.AliveClosed [0, 1] := AliveClosed.range loopPhi_linked

/-- The one followed edge of `loopPhi` is from the `COPY` to the `MULTIEQUAL`: the slot of the
constant is clipped, and the register is unwritten. -/
theorem loopPhi_acyclic : ∀ o, ¬ Relation.TransGen (loopPhi.FollowedEdge loopEdge [0, 1]) o o :=
  not_transGen_followedEdge fun o d ⟨ho, i, v, _, hv, hd⟩ => by
    have hmem := List.getElem?_mem (getIn_eq_some_iff.mp hv)
    simp only [List.mem_cons, List.mem_singleton, List.not_mem_nil, or_false] at ho
    rcases ho with rfl | rfl
    · have : v = 0 ∨ v = 1 := by simpa [inrefsOf, op, loopPhi] using hmem
      rcases this with rfl | rfl <;> cases hd
    · have : v = 2 := by simpa [inrefsOf, op, loopPhi] using hmem
      subst this; cases hd; decide

/-- `calcNZMask` on the loop, from masks `0xff` everywhere. -/
theorem calcNZMask_spec_loopPhi :
    NZMonotone firstInputMask ∧ Linked loopPhi ∧ loopPhi.AliveClosed [0, 1] ∧
      (∀ o, ¬ Relation.TransGen (loopPhi.FollowedEdge loopEdge [0, 1]) o o) ∧
      ∃ r, (∃ N, ∀ n, N ≤ n →
          loopPhi.calcNZMask loopEdge firstInputMask [0, 1] n (fun _ => 0xff) = some r) ∧
        loopPhi.NZMasks loopEdge firstInputMask [0, 1] (fun _ => 0xff) r :=
  ⟨firstInputMask_monotone, loopPhi_linked, loopPhi_aliveClosed, loopPhi_acyclic,
    calcNZMask_spec firstInputMask_monotone loopPhi_linked loopPhi_aliveClosed loopPhi_acyclic _⟩

/-- **A constant read only over a loop edge keeps a stale mask.** In `loopPhi`, where every
hypothesis of `calcNZMask_spec` holds, op 0 reads the constant 5 (`v1`) in slot 1; the first
pass skips the slot, and the second only writes outputs, so `v1` leaves `calcNZMask` with the
mask `0xff` it had on entry. -/
theorem calcNZMask_loop_constant :
    NZMonotone firstInputMask ∧ Linked loopPhi ∧ loopPhi.AliveClosed [0, 1] ∧
      (∀ o, ¬ Relation.TransGen (loopPhi.FollowedEdge loopEdge [0, 1]) o o) ∧
      loopPhi.getIn 0 1 = some 1 ∧
      (loopPhi.vn 1).map (fun x => (x.isConstant, x.offset)) = some (true, 5) ∧
      (loopPhi.calcNZMask loopEdge firstInputMask [0, 1] 10 fun _ => 0xff).map (· 1) = some 0xff :=
  ⟨firstInputMask_monotone, loopPhi_linked, loopPhi_aliveClosed, loopPhi_acyclic, by decide,
    by decide, by decide⟩

end Funcdata

end GhidraDec
