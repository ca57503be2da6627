import GhidraDec.Funcdata.Linked

/-!
# Clearing Dead Varnodes

`Funcdata::clearDeadVarnodes` (`funcdata_varnode.cc`) frees the varnodes that are attached to
nothing. Editing operations may detach a varnode and attach it again later, so the sweep runs
only at fixed times. It walks the location index and, for each varnode with no reader, frees an
input that is not marked and is a spacebase or has no locked type (`VarnodeBank::makeFree`),
then destroys the varnode if it is free: neither an input nor written.

`Varnode::isFree`, `VarnodeBank::makeFree` and `VarnodeBank::destroy` are defined outside the
sources. A varnode is free when it is neither an input nor written; `makeFree` is called here
on an input with no defining op, so it only drops the input flag. The model walks the varnodes
in a given order, the order of the location index, which the store does not keep; the marks are
those the caller set, read through `isMark`. The cover that
`clearCover` resets belongs to the high-level variables, which the store does not model.

## Main results

* `vn_clearDeadVarnodes`: each step touches its own varnode only, so the sweep over any order
  that lists a varnode once is the pointwise `sweepVarnode`;
* `clearDeadVarnodes_spec`: the sweep keeps a linked store linked and changes no reader list
  and no defining op; it keeps every varnode that is read or written, and every varnode it
  leaves is read, written, or an input kept by its mark or its locked type.
-/

namespace GhidraDec

namespace Varnode

/-- `Varnode::isFree`, defined outside the sources: neither an input nor written. -/
def isFree (x : Varnode) : Bool := !x.input && !x.isWritten

end Varnode

namespace Funcdata

/-- The test `clearDeadVarnodes` makes of a varnode with no reader before it makes it free: an
input that is not marked and is a spacebase or has no locked type. -/
def freesInput (mark : Bool) (x : Varnode) : Bool :=
  x.input && !mark && (x.spacebase || !x.typeLock)

/-- One varnode of the sweep of `Funcdata::clearDeadVarnodes`. -/
def clearDeadStep (isMark : Nat → Bool) (s : Funcdata) (v : Nat) : Funcdata :=
  match s.vn v with
  | some x =>
    if x.descend.isEmpty then
      let s := if freesInput (isMark v) x then s.modifyVn v fun y => { y with input := false }
        else s
      if ((s.vn v).map Varnode.isFree).getD false then s.destroyVn v else s
    else s
  | none => s

/-- `Funcdata::clearDeadVarnodes`: the sweep over the varnodes in `order`, the order of the
location index. -/
def clearDeadVarnodes (isMark : Nat → Bool) (order : List Nat) (s : Funcdata) : Funcdata :=
  order.foldl (clearDeadStep isMark) s

/-- What the sweep leaves of one varnode: nothing when it is unread and free once its input
test is made. -/
def sweepVarnode (mark : Bool) (x : Varnode) : Option Varnode :=
  if x.descend.isEmpty then
    let y := if freesInput mark x then { x with input := false } else x
    if y.isFree then none else some y
  else some x

variable {s : Funcdata}

/-! ### One varnode -/

theorem vn_clearDeadStep_ne (isMark : Nat → Bool) (s : Funcdata) {v w : Nat} (hw : w ≠ v) :
    (s.clearDeadStep isMark v).vn w = s.vn w := by
  unfold clearDeadStep
  split
  · dsimp only
    split_ifs <;> simp only [vn_destroyVn, vn_modifyVn, hw, if_false]
  · rfl

theorem vn_clearDeadStep_self (isMark : Nat → Bool) (s : Funcdata) (v : Nat) :
    (s.clearDeadStep isMark v).vn v = (s.vn v).bind (sweepVarnode (isMark v)) := by
  unfold clearDeadStep sweepVarnode
  rcases hv : s.vn v with _ | x
  · exact hv
  · dsimp only
    have h1 : (if freesInput (isMark v) x then s.modifyVn v fun y => { y with input := false }
        else s).vn v = some (if freesInput (isMark v) x then { x with input := false } else x) := by
      split_ifs <;> simp [vn_modifyVn, hv]
    rw [h1, Option.map_some', Option.getD_some, Option.some_bind]
    split_ifs <;> simp [vn_destroyVn, vn_modifyVn, hv]

theorem vn_clearDeadStep (isMark : Nat → Bool) (s : Funcdata) (v w : Nat) :
    (s.clearDeadStep isMark v).vn w =
      if w = v then (s.vn v).bind (sweepVarnode (isMark v)) else s.vn w := by
  split_ifs with hw
  · exact hw ▸ vn_clearDeadStep_self isMark s v
  · exact vn_clearDeadStep_ne isMark s hw

theorem obank_clearDeadStep (isMark : Nat → Bool) (s : Funcdata) (v : Nat) :
    (s.clearDeadStep isMark v).obank = s.obank := by
  unfold clearDeadStep
  split
  · dsimp only
    split_ifs <;> rfl
  · rfl

theorem sweepVarnode_eq_some {m : Bool} {x y : Varnode} (h : sweepVarnode m x = some y) :
    y = x ∨ y = { x with input := false } := by
  unfold sweepVarnode at h
  dsimp only at h
  split at h
  · split at h <;> split at h <;> cases h <;> simp
  · cases h; simp

/-- What the sweep keeps is read, written, or an input kept by its mark or its locked type. -/
theorem sweepVarnode_live {m : Bool} {x y : Varnode} (h : sweepVarnode m x = some y) :
    y.descend ≠ [] ∨ y.isWritten ∨ (y.input ∧ (m ∨ (y.typeLock ∧ y.spacebase = false))) := by
  unfold sweepVarnode at h
  dsimp only at h
  split at h
  · split at h <;> split at h <;> cases h <;> cases m <;> cases hi : x.input <;>
      simp_all [Varnode.isFree, freesInput]
  · cases h; simp_all

theorem sweepVarnode_eq_none {m : Bool} {x : Varnode} (h : sweepVarnode m x = none) :
    x.descend = [] ∧ x.defOp = none := by
  unfold sweepVarnode at h
  dsimp only at h
  split at h
  · split at h <;> split at h <;> cases h <;>
      simp_all [Varnode.isFree, Varnode.isWritten, Option.not_isSome_iff_eq_none]
  · cases h

/-! ### The sweep -/

theorem mem_range_of_isSome {v : Nat} (h : (s.vn v).isSome) : v ∈ List.range s.vbank.length :=
  List.mem_range.2 <| Nat.lt_of_not_le fun hl => by simp [vn_eq_none_of_le hl] at h

theorem obank_clearDeadVarnodes (isMark : Nat → Bool) :
    ∀ (order : List Nat) (s : Funcdata), (s.clearDeadVarnodes isMark order).obank = s.obank
  | [], _ => rfl
  | v :: order, s => by
    rw [clearDeadVarnodes, List.foldl_cons, ← clearDeadVarnodes,
      obank_clearDeadVarnodes isMark order, obank_clearDeadStep]

/-- **The sweep is pointwise**: over an order that lists a varnode once, the sweep leaves of
each listed varnode what `sweepVarnode` leaves of it, and the others as they are. -/
theorem vn_clearDeadVarnodes (isMark : Nat → Bool) :
    ∀ {order : List Nat} (s : Funcdata), order.Nodup → ∀ w,
      (s.clearDeadVarnodes isMark order).vn w =
        if w ∈ order then (s.vn w).bind (sweepVarnode (isMark w)) else s.vn w
  | [], _, _, w => rfl
  | v :: order, s, hnd, w => by
    rw [clearDeadVarnodes, List.foldl_cons, ← clearDeadVarnodes,
      vn_clearDeadVarnodes isMark _ (List.nodup_cons.1 hnd).2, vn_clearDeadStep]
    by_cases hw : w = v
    · subst hw
      simp [(List.nodup_cons.1 hnd).1]
    · simp [hw]

section Sweep

variable (isMark : Nat → Bool) {order : List Nat} (hnd : order.Nodup)
include hnd

theorem descendOf_clearDeadVarnodes (w : Nat) :
    (s.clearDeadVarnodes isMark order).descendOf w = s.descendOf w := by
  unfold descendOf
  rw [vn_clearDeadVarnodes isMark s hnd]
  split_ifs
  · rcases hx : s.vn w with _ | x
    · rfl
    · rcases hy : sweepVarnode (isMark w) x with _ | y
      · simp [hy, (sweepVarnode_eq_none hy).1]
      · rcases sweepVarnode_eq_some hy with rfl | rfl <;> simp [hy]
  · rfl

theorem defOf_clearDeadVarnodes (w : Nat) :
    (s.clearDeadVarnodes isMark order).defOf w = s.defOf w := by
  unfold defOf
  rw [vn_clearDeadVarnodes isMark s hnd]
  split_ifs
  · rcases hx : s.vn w with _ | x
    · rfl
    · rcases hy : sweepVarnode (isMark w) x with _ | y
      · simp [hy, (sweepVarnode_eq_none hy).2]
      · rcases sweepVarnode_eq_some hy with rfl | rfl <;> simp [hy]
  · rfl

theorem Linked.clearDeadVarnodes (h : Linked s) : Linked (s.clearDeadVarnodes isMark order) where
  readers o w := by
    rw [descendOf_clearDeadVarnodes isMark hnd, inrefsOf, op, obank_clearDeadVarnodes]
    exact h.readers o w
  defs o w := by
    rw [defOf_clearDeadVarnodes isMark hnd, outputOf, op, obank_clearDeadVarnodes]
    exact h.defs o w
  consts w y hy hc hsb := by
    rw [vn_clearDeadVarnodes isMark s hnd] at hy
    split_ifs at hy
    · obtain ⟨x, hx, hxy⟩ := Option.bind_eq_some.1 hy
      rcases sweepVarnode_eq_some hxy with rfl | rfl
      exacts [h.consts w _ hx hc hsb, h.consts w x hx hc hsb]
    · exact h.consts w y hy hc hsb

end Sweep

/-- **Clearing dead varnodes.** Over any order of the location index that lists every varnode
once, the sweep keeps a linked store linked and changes no reader list and no defining op. It
keeps every varnode that is read or written, and every varnode it leaves is read, written, or
an input that its mark or its locked type (not a spacebase) kept. -/
theorem clearDeadVarnodes_spec (h : Linked s) (isMark : Nat → Bool) {order : List Nat}
    (hnd : order.Nodup) (hall : ∀ v, (s.vn v).isSome → v ∈ order) :
    Linked (s.clearDeadVarnodes isMark order) ∧
      (∀ v, (s.clearDeadVarnodes isMark order).descendOf v = s.descendOf v ∧
        (s.clearDeadVarnodes isMark order).defOf v = s.defOf v) ∧
      (∀ v x, s.vn v = some x → (x.descend ≠ [] ∨ x.isWritten) →
        ((s.clearDeadVarnodes isMark order).vn v).isSome) ∧
      (∀ v y, (s.clearDeadVarnodes isMark order).vn v = some y →
        y.descend ≠ [] ∨ y.isWritten ∨
          (y.input ∧ (isMark v ∨ (y.typeLock ∧ y.spacebase = false)))) := by
  refine ⟨h.clearDeadVarnodes isMark hnd, fun v => ⟨descendOf_clearDeadVarnodes isMark hnd v,
    defOf_clearDeadVarnodes isMark hnd v⟩, fun v x hx hrw => ?_, fun v y hy => ?_⟩
  · rw [vn_clearDeadVarnodes isMark s hnd, if_pos (hall v (by simp [hx])), hx, Option.some_bind]
    rcases hy : sweepVarnode (isMark v) x with _ | y
    · obtain ⟨hd, hdef⟩ := sweepVarnode_eq_none hy
      simp [hd, hdef, Varnode.isWritten] at hrw
    · rfl
  · rw [vn_clearDeadVarnodes isMark s hnd] at hy
    split_ifs at hy with hv
    · obtain ⟨x, -, hxy⟩ := Option.bind_eq_some.1 hy
      exact sweepVarnode_live hxy
    · exact absurd (hall v (by simp [hy])) hv

/-- A store with an unread input, an unread input with a locked type, an unread written varnode,
an unread temporary and the input the one op reads. -/
def deadStore : Funcdata where
  glb := ⟨⟨0, .constant, 2 ^ 64 - 1, false, 1⟩, ⟨2, .internal, 2 ^ 64 - 1, false, 1⟩,
    ⟨3, .iop, 2 ^ 64 - 1, false, 1⟩, rfl, rfl, rfl⟩
  vbank := [
    some { loc := ⟨⟨1, .processor, 0xffffffff, false, 1⟩, 0x10⟩, size := 4, input := true },
    some { loc := ⟨⟨1, .processor, 0xffffffff, false, 1⟩, 0x14⟩, size := 4, input := true,
           typeLock := true },
    some { loc := ⟨⟨1, .processor, 0xffffffff, false, 1⟩, 0x18⟩, size := 4, defOp := some 0 },
    some { loc := ⟨⟨2, .internal, 2 ^ 64 - 1, false, 1⟩, 0⟩, size := 4 },
    some { loc := ⟨⟨1, .processor, 0xffffffff, false, 1⟩, 0x1c⟩, size := 4, input := true,
           descend := [0] }]
  obank := [
    some { code := .copy, addr := ⟨⟨1, .processor, 0xffffffff, false, 1⟩, 0x100⟩,
           inrefs := [some 4], output := some 2, parent := some 0 }]
  bblocks := [{ ops := [0] }]
  uniqId := 16

theorem clearDeadVarnodes_spec_deadStore :
    Linked deadStore ∧ (List.range 5).Nodup ∧
      (∀ v, (deadStore.vn v).isSome → v ∈ List.range 5) ∧
      Linked (deadStore.clearDeadVarnodes (fun _ => false) (List.range 5)) ∧
      (∀ v, (deadStore.clearDeadVarnodes (fun _ => false) (List.range 5)).descendOf v =
          deadStore.descendOf v ∧
        (deadStore.clearDeadVarnodes (fun _ => false) (List.range 5)).defOf v =
          deadStore.defOf v) ∧
      (∀ v x, deadStore.vn v = some x → (x.descend ≠ [] ∨ x.isWritten) →
        ((deadStore.clearDeadVarnodes (fun _ => false) (List.range 5)).vn v).isSome) ∧
      (∀ v y, (deadStore.clearDeadVarnodes (fun _ => false) (List.range 5)).vn v = some y →
        y.descend ≠ [] ∨ y.isWritten ∨
          (y.input ∧ ((fun _ => false) v ∨ (y.typeLock ∧ y.spacebase = false)))) :=
  have h : Linked deadStore := Linked.of_check (by decide)
  ⟨h, List.nodup_range 5, fun _ => mem_range_of_isSome,
    clearDeadVarnodes_spec h _ (List.nodup_range 5) fun _ => mem_range_of_isSome⟩

/-- The sweep frees the unread input without a locked type and the unread temporary, and keeps
the input with a locked type, the written varnode and the input that is read. -/
example :
    ((deadStore.clearDeadVarnodes (fun _ => false) (List.range 5)).vbank.map Option.isSome) =
      [false, true, true, false, true] := by decide

end Funcdata

end GhidraDec
