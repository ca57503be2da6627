import GhidraDec.Funcdata.Linkage
import Mathlib.Data.List.Nodup

/-!
# Placing Ops in a Basic Block

The op list of a basic block follows three ordering rules, which the doc comments of the
insertion functions of `funcdata_op.cc` state: the `MULTIEQUAL`s come first, a branch op is
the very last op, and the `INDIRECT`s sit immediately before the op whose side effect they
record. `OpsWellFormed` says this of a list; an `INDIRECT` names the op it shadows through
its second input, an annotation of the `iop` space (`PcodeOp::getOpFromConst`).

`opInsert` puts a detached op into a block at a position; `opInsertBefore`,
`opInsertAfter`, `opInsertBegin` and `opInsertEnd` choose the position as the source does,
walking back over `INDIRECT`s or forward over `MULTIEQUAL`s, redirecting an insertion after
an `INDIRECT` to after the op it shadows, and keeping a final branch last.

The position arithmetic is stated once, for a list `A ++ B` into which an op goes between
`A` and `B` (`opsWellFormed_insert`): each function only has to show that its `A` and `B`
meet the side conditions there.

## Main results

* `opsWellFormed_insert`: the conditions under which an insertion keeps an op list
  well formed;
* `opInsertBefore_wellFormed`, `opInsertAfter_wellFormed`, `opInsertBegin_wellFormed`,
  `opInsertEnd_wellFormed`: each insertion keeps every block well formed and puts the op
  into exactly one block, once — `opInsertBefore` when it does not put an op other than a
  `MULTIEQUAL` before a `MULTIEQUAL`, `opInsertAfter` when it does not insert after a
  branch;
* `opInsertBefore_before_phi`: `opInsertBefore` of an op that is neither a `MULTIEQUAL` nor an
  `INDIRECT` before a `MULTIEQUAL` puts it right in front of it, and the block's op list is no
  longer well formed.
-/

namespace GhidraDec

namespace Funcdata

variable (s : Funcdata)

/-! ### The insertion functions -/

/-- The block holding op `o` (`PcodeOp::getParent`). -/
def parentOf (o : Nat) : Option Nat := (s.op o).bind PcodeOp.parent

/-- The op an `INDIRECT` shadows: the one its second input, an annotation of the `iop`
space, names (`PcodeOp::getOpFromConst`). -/
def iopTarget (o : Nat) : Option Nat :=
  (s.getIn o 1).bind fun v => (s.vn v).bind fun x =>
    if x.loc.space.type = .iop then some x.loc.offset else none

/-- Op `o` is a `MULTIEQUAL`. -/
def isPhi (o : Nat) : Bool := s.codeOf o == .multiequal

/-- Op `o` is an `INDIRECT`. -/
def isIndirect (o : Nat) : Bool := s.codeOf o == .indirect

/-- Forward from position `k` of `ops` past the `MULTIEQUAL`s there. -/
def skipPhis (ops : List Nat) (k : Nat) : Nat := k + ((ops.drop k).takeWhile s.isPhi).length

/-- Back from position `k` of `ops` past the `INDIRECT`s just before it. -/
def skipIndirectsBack (ops : List Nat) (k : Nat) : Nat :=
  k - ((ops.take k).reverse.takeWhile s.isIndirect).length

/-- `Funcdata::opInsert`: put `o` into block `b` before position `k`, with `b` its parent. -/
def opInsert (o b k : Nat) : Funcdata :=
  (s.modifyBlock b fun bl => { bl with ops := bl.ops.take k ++ o :: bl.ops.drop k }).modifyOp o
    fun p => { p with parent := some b }

/-- `Funcdata::opInsertBefore`: `o` goes immediately before `follow`, and before the
`INDIRECT`s in front of `follow` unless `o` is itself an `INDIRECT`. -/
def opInsertBefore (o follow : Nat) : Funcdata :=
  match s.parentOf follow with
  | some b =>
    let ops := (s.block b).ops
    let k := ops.indexOf follow
    s.opInsert o b (if s.isIndirect o then k else s.skipIndirectsBack ops k)
  | none => s

/-- `Funcdata::opInsertAfter`: `o` goes immediately after `prev` — after the op `prev`
shadows when `prev` is an `INDIRECT` — and after the `MULTIEQUAL`s following it unless `o`
is itself a `MULTIEQUAL`. -/
def opInsertAfter (o prev : Nat) : Funcdata :=
  let prev := if s.isIndirect prev then (s.iopTarget prev).getD prev else prev
  match s.parentOf prev with
  | some b =>
    let ops := (s.block b).ops
    let k := ops.indexOf prev + 1
    s.opInsert o b (if s.isPhi o then k else s.skipPhis ops k)
  | none => s

/-- `Funcdata::opInsertBegin`: `o` goes first in block `b`, after its `MULTIEQUAL`s unless
`o` is itself one. -/
def opInsertBegin (o b : Nat) : Funcdata :=
  s.opInsert o b (if s.isPhi o then 0 else s.skipPhis (s.block b).ops 0)

/-- `Funcdata::opInsertEnd`: `o` goes last in block `b`, before the last op if that one
breaks the flow. -/
def opInsertEnd (o b : Nat) : Funcdata :=
  let ops := (s.block b).ops
  s.opInsert o b (match ops.getLast? with
    | some l => if (s.codeOf l).isFlowBreak then ops.length - 1 else ops.length
    | none => 0)

/-! ### Well-formed op lists -/

/-- Each `INDIRECT` of the list is followed, through `INDIRECT`s only, by the op it shadows,
a `CALL`, `CALLIND` or `STORE`. -/
def Guarded : List Nat → Prop
  | [] => True
  | o :: post => (s.isIndirect o = true → ∃ t, s.iopTarget o = some t ∧
      (post.dropWhile s.isIndirect).head? = some t ∧ (s.codeOf t).isIndirectEffect = true) ∧
      Guarded post

/-- The op list of a basic block: `MULTIEQUAL`s first, a flow break only last, and every
`INDIRECT` right before the op it shadows. -/
structure OpsWellFormed (ops : List Nat) : Prop where
  phisFirst : ∀ o ∈ ops.dropWhile s.isPhi, s.isPhi o = false
  branchLast : ∀ o ∈ ops.dropLast, (s.codeOf o).isFlowBreak = false
  guarded : s.Guarded ops

/-- `Guarded`, computed. -/
def guardedCheck : List Nat → Bool
  | [] => true
  | o :: post => (!s.isIndirect o || match s.iopTarget o with
      | some t => (post.dropWhile s.isIndirect).head? == some t && (s.codeOf t).isIndirectEffect
      | none => false) && guardedCheck post

theorem guarded_iff_check : ∀ ops, s.Guarded ops ↔ s.guardedCheck ops = true
  | [] => by simp [Guarded, guardedCheck]
  | o :: post => by
    rw [Guarded, guardedCheck, Bool.and_eq_true, ← guarded_iff_check post]
    cases s.isIndirect o <;> cases s.iopTarget o <;> simp

instance (ops : List Nat) : Decidable (s.Guarded ops) :=
  decidable_of_iff _ (s.guarded_iff_check ops).symm

instance (ops : List Nat) : Decidable (s.OpsWellFormed ops) :=
  decidable_of_iff ((∀ o ∈ ops.dropWhile s.isPhi, s.isPhi o = false) ∧
      (∀ o ∈ ops.dropLast, (s.codeOf o).isFlowBreak = false) ∧ s.Guarded ops)
    ⟨fun ⟨h1, h2, h3⟩ => ⟨h1, h2, h3⟩, fun ⟨h1, h2, h3⟩ => ⟨h1, h2, h3⟩⟩

variable {s}

/-! ### Inserting into an op list -/

theorem phisFirst_insert {A B : List Nat} {x : Nat}
    (h : ∀ o ∈ (A ++ B).dropWhile s.isPhi, s.isPhi o = false)
    (hA : s.isPhi x = true → ∀ a ∈ A, s.isPhi a = true)
    (hB : s.isPhi x = false → ∀ b ∈ B, s.isPhi b = false) :
    ∀ o ∈ (A ++ x :: B).dropWhile s.isPhi, s.isPhi o = false := by
  cases hx : s.isPhi x
  · have hB := hB hx
    have hxB : ∀ o ∈ x :: B, s.isPhi o = false := fun o ho => by
      rcases List.mem_cons.mp ho with rfl | ho
      · exact hx
      · exact hB o ho
    rw [List.dropWhile_append] at h ⊢
    split_ifs at h ⊢
    · rwa [List.dropWhile_cons_of_neg (by simp [hx])]
    · intro o ho
      rcases List.mem_append.mp ho with ho | ho
      · exact h o (List.mem_append_left _ ho)
      · exact hxB o ho
  · have hA := hA hx
    rw [List.dropWhile_append_of_pos hA] at h
    rwa [List.dropWhile_append_of_pos hA, List.dropWhile_cons_of_pos hx]

theorem branchLast_insert {A B : List Nat} {x : Nat}
    (h : ∀ o ∈ (A ++ B).dropLast, (s.codeOf o).isFlowBreak = false)
    (hx : (s.codeOf x).isFlowBreak = false)
    (hB : B = [] → ∀ a ∈ A, (s.codeOf a).isFlowBreak = false) :
    ∀ o ∈ (A ++ x :: B).dropLast, (s.codeOf o).isFlowBreak = false := by
  cases B with
  | nil => simpa using hB rfl
  | cons b B =>
    rw [List.dropLast_append_of_ne_nil _ (List.cons_ne_nil b B)] at h
    rw [List.dropLast_append_of_ne_nil _ (List.cons_ne_nil _ _), List.dropLast_cons₂]
    intro o ho
    rcases List.mem_append.mp ho with ho | ho
    · exact h o (List.mem_append_left _ ho)
    · rcases List.mem_cons.mp ho with rfl | ho
      · exact hx
      · exact h o (List.mem_append_right _ ho)

/-- The first op after a prefix of `INDIRECT`s is found past the prefix. -/
theorem head_dropWhile_append {p : Nat → Bool} {A C : List Nat} :
    ((A ++ C).dropWhile p).head? =
      if ∀ a ∈ A, p a = true then (C.dropWhile p).head? else (A.dropWhile p).head? := by
  split_ifs with hA
  · rw [List.dropWhile_append_of_pos hA]
  · induction A with
    | nil => simp at hA
    | cons a A ih =>
      by_cases ha : p a = true
      · rw [List.cons_append, List.dropWhile_cons_of_pos ha, List.dropWhile_cons_of_pos ha]
        exact ih fun h => hA (by simpa [ha] using h)
      · rw [List.cons_append, List.dropWhile_cons_of_neg ha, List.dropWhile_cons_of_neg ha]
        rfl

theorem guarded_insert {x : Nat} {B : List Nat}
    (hx : s.isIndirect x = true → ∃ t, s.iopTarget x = some t ∧
      (B.dropWhile s.isIndirect).head? = some t ∧ (s.codeOf t).isIndirectEffect = true) :
    ∀ {A : List Nat}, s.Guarded (A ++ B) →
      (s.isIndirect x = false → ∀ a ∈ A.getLast?, s.isIndirect a = false) →
      s.Guarded (A ++ x :: B)
  | [], h, _ => ⟨hx, h⟩
  | a :: A, ⟨ha, h⟩, hlast => by
    simp only [List.append_eq] at ha h
    refine ⟨fun hi => ?_, guarded_insert hx h fun hxi b hb => ?_⟩
    · obtain ⟨t, ht, hhead, heff⟩ := ha hi
      refine ⟨t, ht, ?_, heff⟩
      simp only [List.append_eq]
      rw [head_dropWhile_append] at hhead ⊢
      split_ifs at hhead ⊢ with hA
      · cases hxi : s.isIndirect x
        · have hne := List.cons_ne_nil a A
          have hl := hlast hxi _ (List.getLast?_eq_getLast _ hne)
          rcases List.mem_cons.mp (List.getLast_mem hne) with h' | h'
          · rw [h', hi] at hl; cases hl
          · rw [hA _ h'] at hl; cases hl
        · rwa [List.dropWhile_cons_of_pos hxi]
      · exact hhead
    · apply hlast hxi
      cases A with
      | nil => simp at hb
      | cons c A => simpa [List.getLast?_cons] using hb

/-- **Inserting into a well-formed op list.** `x` may go between `A` and `B` when it is not a
flow break, when a `MULTIEQUAL` lands among `MULTIEQUAL`s only and anything else before no
`MULTIEQUAL`, when an `INDIRECT` lands before the op it shadows and anything else after no
`INDIRECT`, and when nothing follows it only if `A` holds no flow break. -/
theorem opsWellFormed_insert {A B : List Nat} {x : Nat} (h : s.OpsWellFormed (A ++ B))
    (hflow : (s.codeOf x).isFlowBreak = false)
    (hA : s.isPhi x = true → ∀ a ∈ A, s.isPhi a = true)
    (hB : s.isPhi x = false → ∀ b ∈ B, s.isPhi b = false)
    (hend : B = [] → ∀ a ∈ A, (s.codeOf a).isFlowBreak = false)
    (hx : s.isIndirect x = true → ∃ t, s.iopTarget x = some t ∧
      (B.dropWhile s.isIndirect).head? = some t ∧ (s.codeOf t).isIndirectEffect = true)
    (hlast : s.isIndirect x = false → ∀ a ∈ A.getLast?, s.isIndirect a = false) :
    s.OpsWellFormed (A ++ x :: B) where
  phisFirst := phisFirst_insert h.phisFirst hA hB
  branchLast := branchLast_insert h.branchLast hflow hend
  guarded := guarded_insert hx h.guarded hlast

/-! ### What a well-formed op list gives -/

theorem guarded_of_append {A C : List Nat} : s.Guarded (A ++ C) → s.Guarded C := by
  induction A with
  | nil => exact id
  | cons a A ih => exact fun h => ih h.2

/-- After an `INDIRECT` comes another `INDIRECT` or the op it shadows. -/
theorem next_of_indirect {A C : List Nat} {a y : Nat} (h : s.Guarded (A ++ a :: y :: C))
    (ha : s.isIndirect a = true) :
    s.isIndirect y = true ∨ (s.codeOf y).isIndirectEffect = true := by
  obtain ⟨t, -, hhead, heff⟩ := (guarded_of_append h).1 ha
  cases hy : s.isIndirect y
  · rw [List.dropWhile_cons_of_neg (by simp [hy])] at hhead
    exact Or.inr (Option.some.inj hhead ▸ heff)
  · exact Or.inl rfl

/-- No `INDIRECT` ends a guarded list. -/
theorem last_not_indirect {A : List Nat} {a : Nat} (h : s.Guarded (A ++ [a])) :
    s.isIndirect a = false := by
  cases ha : s.isIndirect a
  · rfl
  · obtain ⟨t, -, hhead, -⟩ := (guarded_of_append h).1 ha
    simp at hhead

/-- Past an op that is not a `MULTIEQUAL` there is no `MULTIEQUAL`. -/
theorem not_phi_of_after {A C : List Nat} {y : Nat}
    (h : ∀ o ∈ (A ++ y :: C).dropWhile s.isPhi, s.isPhi o = false) (hy : s.isPhi y = false) :
    ∀ c ∈ y :: C, s.isPhi c = false := by
  rw [List.dropWhile_append] at h
  split_ifs at h
  · rwa [List.dropWhile_cons_of_neg (by simp [hy])] at h
  · exact fun c hc => h c (List.mem_append_right _ hc)

/-- Before a `MULTIEQUAL` there are only `MULTIEQUAL`s. -/
theorem phi_of_before {A C : List Nat} {y : Nat}
    (h : ∀ o ∈ (A ++ y :: C).dropWhile s.isPhi, s.isPhi o = false) (hy : s.isPhi y = true) :
    ∀ a ∈ A, s.isPhi a = true := by
  intro a ha
  by_contra hna
  obtain ⟨A1, A2, rfl⟩ := List.append_of_mem ha
  have := not_phi_of_after (A := A1) (C := A2 ++ y :: C) (by simpa using h) (by simpa using hna)
    y (by simp)
  rw [hy] at this
  cases this

theorem split_indexOf {l : List Nat} {a : Nat} (h : a ∈ l) :
    l = l.take (l.indexOf a) ++ a :: l.drop (l.indexOf a + 1) := by
  have hlt := List.indexOf_lt_length.mpr h
  conv_lhs => rw [← List.take_append_drop (l.indexOf a) l, List.drop_eq_getElem_cons hlt,
    List.getElem_indexOf hlt]

/-! ### Insertion positions -/

theorem skipPhis_split (ops : List Nat) (m : Nat) :
    ops.take (s.skipPhis ops m) = ops.take m ++ (ops.drop m).takeWhile s.isPhi ∧
      ops.drop (s.skipPhis ops m) = (ops.drop m).dropWhile s.isPhi := by
  have hm : ops =
      ops.take m ++ ((ops.drop m).takeWhile s.isPhi ++ (ops.drop m).dropWhile s.isPhi) :=
    by rw [List.takeWhile_append_dropWhile, List.take_append_drop]
  by_cases hl : m ≤ ops.length
  · have hk : (ops.take m ++ (ops.drop m).takeWhile s.isPhi).length = s.skipPhis ops m := by
      simp [skipPhis, List.length_take, Nat.min_eq_left hl]
    rw [← hk]
    constructor
    · conv_lhs => arg 2; rw [hm, ← List.append_assoc]
      exact List.take_left _ _
    · conv_lhs => arg 2; rw [hm, ← List.append_assoc]
      exact List.drop_left _ _
  · have hd : ops.drop m = [] := List.drop_eq_nil_of_le (by omega)
    simp only [skipPhis, hd, List.takeWhile_nil, List.dropWhile_nil, List.length_nil,
      Nat.add_zero, List.append_nil, and_true]

theorem reverse_dropWhile_append_takeWhile (p : Nat → Bool) (l : List Nat) :
    (l.reverse.dropWhile p).reverse ++ (l.reverse.takeWhile p).reverse = l := by
  rw [← List.reverse_append, List.takeWhile_append_dropWhile, List.reverse_reverse]

theorem skipIndirectsBack_split {ops : List Nat} {i : Nat} (hi : i ≤ ops.length) :
    ops.take (s.skipIndirectsBack ops i) =
        ((ops.take i).reverse.dropWhile s.isIndirect).reverse ∧
      ops.drop (s.skipIndirectsBack ops i) =
        ((ops.take i).reverse.takeWhile s.isIndirect).reverse ++ ops.drop i := by
  have hL := (reverse_dropWhile_append_takeWhile s.isIndirect (ops.take i)).symm
  have hk : (((ops.take i).reverse.dropWhile s.isIndirect).reverse).length =
      s.skipIndirectsBack ops i := by
    have := congrArg List.length hL
    simp only [List.length_append, List.length_reverse, List.length_take,
      Nat.min_eq_left hi] at this
    simp only [skipIndirectsBack, List.length_reverse]
    omega
  have hops : ops = ((ops.take i).reverse.dropWhile s.isIndirect).reverse ++
      (((ops.take i).reverse.takeWhile s.isIndirect).reverse ++ ops.drop i) := by
    rw [← List.append_assoc, ← hL, List.take_append_drop]
  rw [← hk]
  constructor
  · conv_lhs => arg 2; rw [hops]
    exact List.take_left _ _
  · conv_lhs => arg 2; rw [hops]
    exact List.drop_left _ _

theorem codeOf_of_isPhi {a : Nat} (h : s.isPhi a = true) : s.codeOf a = .multiequal := by
  simpa [isPhi] using h

theorem codeOf_of_isIndirect {a : Nat} (h : s.isIndirect a = true) : s.codeOf a = .indirect := by
  simpa [isIndirect] using h

theorem isIndirect_of_isPhi {a : Nat} (h : s.isPhi a = true) : s.isIndirect a = false := by
  simp [isIndirect, codeOf_of_isPhi h]

theorem isFlowBreak_of_isPhi {a : Nat} (h : s.isPhi a = true) :
    (s.codeOf a).isFlowBreak = false := by
  rw [codeOf_of_isPhi h]; rfl

theorem isPhi_of_isIndirect {a : Nat} (h : s.isIndirect a = true) : s.isPhi a = false := by
  simp [isPhi, codeOf_of_isIndirect h]

/-- A `CALL`, `CALLIND` or `STORE` is neither a marker nor a flow break. -/
theorem of_isIndirectEffect {a : Nat} (h : (s.codeOf a).isIndirectEffect = true) :
    s.isPhi a = false ∧ s.isIndirect a = false ∧ (s.codeOf a).isFlowBreak = false := by
  obtain ⟨hm, hf⟩ := OpCode.isIndirectEffect_not h
  refine ⟨?_, ?_, hf⟩ <;> cases hc : s.codeOf a <;> simp_all [isPhi, isIndirect, OpCode.isMarker]

/-- A flow break is neither a marker nor an op an `INDIRECT` shadows. -/
theorem of_isFlowBreak {a : Nat} (h : (s.codeOf a).isFlowBreak = true) :
    s.isPhi a = false ∧ s.isIndirect a = false ∧ (s.codeOf a).isIndirectEffect = false := by
  refine ⟨?_, ?_, ?_⟩ <;> cases hc : s.codeOf a <;>
    simp_all [isPhi, isIndirect, OpCode.isFlowBreak, OpCode.isIndirectEffect]

/-! ### Reading an insertion back -/

theorem block_modifyBlock (b c : Nat) (f : BlockBasic → BlockBasic) :
    (s.modifyBlock b f).block c = if c = b ∧ b < s.bblocks.length then f (s.block b)
      else s.block c := by
  unfold modifyBlock block
  by_cases hc : c = b
  · subst hc
    by_cases hl : c < s.bblocks.length
    · simp [List.getD_eq_getElem?_getD, List.getElem?_set, hl]
    · simp [hl, List.getD_eq_getElem?_getD, List.getElem?_set,
        List.getElem?_eq_none (Nat.le_of_not_lt hl)]
  · simp [hc, List.getD_eq_getElem?_getD, List.getElem?_set_ne (Ne.symm hc)]

variable (o b k : Nat)

theorem op_opInsert (p : Nat) : (s.opInsert o b k).op p =
    if p = o then (s.op o).map fun x => { x with parent := some b } else s.op p := by
  simp [opInsert]

@[simp] theorem vn_opInsert : (s.opInsert o b k).vn = s.vn := rfl

@[simp] theorem length_bblocks_opInsert :
    (s.opInsert o b k).bblocks.length = s.bblocks.length := by
  simp [opInsert, modifyOp, modifyBlock]

@[simp] theorem codeOf_opInsert : (s.opInsert o b k).codeOf = s.codeOf := by
  funext p
  unfold codeOf
  rw [op_opInsert]
  split_ifs with h
  · subst h; cases s.op p <;> rfl
  · rfl

@[simp] theorem getIn_opInsert : (s.opInsert o b k).getIn = s.getIn := by
  funext p i
  unfold getIn inrefsOf
  rw [op_opInsert]
  split_ifs with h
  · subst h; cases s.op p <;> rfl
  · rfl

@[simp] theorem iopTarget_opInsert : (s.opInsert o b k).iopTarget = s.iopTarget := by
  funext p
  simp only [iopTarget, getIn_opInsert, vn_opInsert]

theorem parentOf_opInsert (p : Nat) : (s.opInsert o b k).parentOf p =
    if p = o ∧ (s.op o).isSome then some b else s.parentOf p := by
  unfold parentOf
  rw [op_opInsert]
  by_cases h : p = o
  · subst h; cases s.op p <;> simp
  · simp [h]

theorem block_opInsert (c : Nat) : (s.opInsert o b k).block c =
    if c = b ∧ b < s.bblocks.length then
      { s.block b with ops := (s.block b).ops.take k ++ o :: (s.block b).ops.drop k }
    else s.block c := by
  simp [opInsert, block_modifyBlock]

variable {o b k}

/-- A well-formed op list stays so in a store that agrees on op-codes and guarded ops. -/
theorem guarded_congr {t : Funcdata} (hc : t.codeOf = s.codeOf) (hi : t.iopTarget = s.iopTarget) :
    ∀ ops, t.Guarded ops ↔ s.Guarded ops
  | [] => Iff.rfl
  | o :: post => by
    have hind : t.isIndirect = s.isIndirect := funext fun o => by simp only [isIndirect, hc]
    simp only [Guarded, hind, hi, hc, guarded_congr hc hi post]

theorem opsWellFormed_congr {t : Funcdata} (hc : t.codeOf = s.codeOf)
    (hi : t.iopTarget = s.iopTarget) (ops : List Nat) :
    t.OpsWellFormed ops ↔ s.OpsWellFormed ops := by
  have hphi : t.isPhi = s.isPhi := funext fun o => by simp only [isPhi, hc]
  constructor <;> rintro ⟨h1, h2, h3⟩
  · exact ⟨hphi ▸ h1, hc ▸ h2, (guarded_congr hc hi ops).mp h3⟩
  · exact ⟨hphi ▸ h1, hc ▸ h2, (guarded_congr hc hi ops).mpr h3⟩

/-! ### Well-formed blocks -/

variable (s)

/-- An op that exists and sits in no block. -/
def Detached (o : Nat) : Prop := (s.op o).isSome ∧ s.parentOf o = none

instance (o : Nat) : Decidable (s.Detached o) := by unfold Detached; infer_instance

/-- Every op that a block lists has that block as its parent, the parent of an op lists it,
a block lists an op once, and every block's op list is well formed. -/
structure BlocksWellFormed : Prop where
  parents : ∀ o b, s.parentOf o = some b ↔ b < s.bblocks.length ∧ o ∈ (s.block b).ops
  nodup : ∀ b < s.bblocks.length, (s.block b).ops.Nodup
  ops : ∀ b < s.bblocks.length, s.OpsWellFormed (s.block b).ops

/-- `BlocksWellFormed`, computed: the parent of each op of the bank lists it, and each block
lists only its own ops, once each, in a well-formed list. -/
def blocksCheck : Bool :=
  (List.range s.obank.length).all (fun o => match s.parentOf o with
    | some b => decide (b < s.bblocks.length) && (s.block b).ops.contains o
    | none => true) &&
  (List.range s.bblocks.length).all fun b =>
    (s.block b).ops.all (fun o => s.parentOf o == some b) && decide (s.block b).ops.Nodup &&
      decide (s.OpsWellFormed (s.block b).ops)

variable {s}

theorem lt_of_parentOf_isSome (h : (s.parentOf o).isSome) : o < s.obank.length := by
  by_contra ho; simp [parentOf, op_eq_none_of_le (Nat.le_of_not_lt ho)] at h

theorem BlocksWellFormed.of_check (h : s.blocksCheck = true) : s.BlocksWellFormed := by
  simp only [blocksCheck, Bool.and_eq_true, List.all_eq_true, List.mem_range,
    decide_eq_true_eq] at h
  obtain ⟨hop, hblock⟩ := h
  refine ⟨fun o b => ⟨fun hp => ?_, fun ⟨hb, hm⟩ => ?_⟩, fun b hb => (hblock b hb).1.2,
    fun b hb => (hblock b hb).2⟩
  · have := hop o (lt_of_parentOf_isSome (by rw [hp]; rfl))
    rw [hp] at this
    simpa using this
  · simpa using (hblock b hb).1.1 o hm

theorem BlocksWellFormed.not_mem (h : s.BlocksWellFormed) (hd : s.Detached o) (c : Nat)
    (hc : c < s.bblocks.length) : o ∉ (s.block c).ops := fun hm => by
  have := (h.parents o c).mpr ⟨hc, hm⟩
  rw [hd.2] at this
  cases this

/-- **`opInsert` keeps the blocks well formed** when the list it builds is, and puts the
detached op into its block once and into no other. -/
theorem BlocksWellFormed.opInsert (h : s.BlocksWellFormed) (hd : s.Detached o)
    (hb : b < s.bblocks.length)
    (hw : s.OpsWellFormed ((s.block b).ops.take k ++ o :: (s.block b).ops.drop k)) :
    (s.opInsert o b k).BlocksWellFormed ∧ ∀ c < s.bblocks.length,
      ((s.opInsert o b k).block c).ops.count o = if c = b then 1 else 0 := by
  have hmem : ∀ c p, p ∈ ((s.opInsert o b k).block c).ops ↔
      p = o ∧ c = b ∨ p ∈ (s.block c).ops := fun c p => by
    rw [block_opInsert]
    by_cases hc : c = b
    · subst hc
      simp only [hb, and_self, if_true, List.mem_append, List.mem_cons, true_and, and_true]
      conv_rhs => rw [← List.take_append_drop k (s.block c).ops, List.mem_append]
      tauto
    · simp [hc]
  refine ⟨⟨fun p c => ?_, fun c hc => ?_, fun c hc => ?_⟩, fun c hc => ?_⟩
  · rw [parentOf_opInsert, length_bblocks_opInsert, hmem]
    by_cases hp : p = o
    · subst hp
      simp only [hd.1, and_self, if_true, Option.some.injEq, true_and]
      constructor
      · rintro rfl; exact ⟨hb, Or.inl rfl⟩
      · rintro ⟨hc', ⟨-, rfl⟩ | hm⟩
        · rfl
        · exact absurd hm (h.not_mem hd c hc')
    · simp only [hp, false_and, if_false, false_or]
      exact h.parents p c
  · rw [length_bblocks_opInsert] at hc
    rw [block_opInsert]
    split_ifs with hcb
    · have hnd := h.nodup b hb
      rw [← List.take_append_drop k (s.block b).ops] at hnd
      refine List.nodup_middle.mpr (List.nodup_cons.mpr ⟨?_, hnd⟩)
      rw [List.take_append_drop]; exact h.not_mem hd b hb
    · exact h.nodup c hc
  · rw [opsWellFormed_congr (codeOf_opInsert o b k) (iopTarget_opInsert o b k), block_opInsert]
    split_ifs with hcb
    · exact hw
    · exact h.ops c (by simpa using hc)
  · rw [block_opInsert]
    by_cases hcb : c = b
    · subst hcb
      rw [if_pos ⟨rfl, hb⟩, if_pos rfl, List.count_append, List.count_cons_self,
        List.count_eq_zero_of_not_mem, List.count_eq_zero_of_not_mem]
      · exact fun hm => h.not_mem hd c hb (List.mem_of_mem_drop hm)
      · exact fun hm => h.not_mem hd c hb (List.mem_of_mem_take hm)
    · rw [if_neg fun h => hcb h.1, if_neg hcb]
      exact List.count_eq_zero_of_not_mem (h.not_mem hd c hc)

/-! ### Edits that leave the blocks alone -/

theorem dropWhile_congr_of_mem {p q : Nat → Bool} :
    ∀ {l : List Nat}, (∀ a ∈ l, p a = q a) → l.dropWhile p = l.dropWhile q
  | [], _ => rfl
  | a :: l, h => by
    simp only [List.dropWhile_cons, h a (List.mem_cons_self a l)]
    split
    · exact dropWhile_congr_of_mem fun b hb => h b (List.mem_cons_of_mem a hb)
    · rfl

theorem takeWhile_congr_of_mem {p q : Nat → Bool} :
    ∀ {l : List Nat}, (∀ a ∈ l, p a = q a) → l.takeWhile p = l.takeWhile q
  | [], _ => rfl
  | a :: l, h => by
    simp only [List.takeWhile_cons, h a (List.mem_cons_self a l)]
    split
    · rw [takeWhile_congr_of_mem fun b hb => h b (List.mem_cons_of_mem a hb)]
    · rfl

/-- Whether a list is guarded depends only on the op-codes of its ops and on the ops its
`INDIRECT`s shadow. -/
theorem guarded_congr_of_mem {t : Funcdata} : ∀ {ops : List Nat},
    (∀ o ∈ ops, t.codeOf o = s.codeOf o ∧
      (s.isIndirect o = true → t.iopTarget o = s.iopTarget o)) →
    (t.Guarded ops ↔ s.Guarded ops)
  | [], _ => Iff.rfl
  | o :: post, h => by
    have hind : ∀ p ∈ o :: post, t.isIndirect p = s.isIndirect p := fun p hp => by
      simp only [isIndirect, (h p hp).1]
    have hdrop := dropWhile_congr_of_mem fun p hp => hind p (List.mem_cons_of_mem o hp)
    have hcode : ∀ t', (post.dropWhile s.isIndirect).head? = some t' →
        t.codeOf t' = s.codeOf t' := fun t' hh =>
      (h t' (List.mem_cons_of_mem o ((List.dropWhile_sublist _).subset
        (List.mem_of_mem_head? hh)))).1
    rw [Guarded, Guarded, guarded_congr_of_mem fun p hp => h p (List.mem_cons_of_mem o hp),
      hind o (List.mem_cons_self o post), hdrop]
    refine and_congr_left' ⟨fun h1 hi => ?_, fun h1 hi => ?_⟩ <;>
      obtain ⟨t', ht, hh, he⟩ := h1 hi <;> refine ⟨t', ?_, hh, ?_⟩
    · rwa [← (h o (List.mem_cons_self o post)).2 hi]
    · rwa [← hcode t' hh]
    · rwa [(h o (List.mem_cons_self o post)).2 hi]
    · rwa [hcode t' hh]

/-- **An edit that keeps the blocks, the parents, and the op-codes and shadowed ops of the
ops in blocks keeps the blocks well formed.** -/
theorem BlocksWellFormed.of_frame {t : Funcdata} (h : s.BlocksWellFormed)
    (hb : t.bblocks = s.bblocks) (hp : ∀ o, t.parentOf o = s.parentOf o)
    (hc : ∀ o, (s.parentOf o).isSome → t.codeOf o = s.codeOf o ∧
      (s.isIndirect o = true → t.iopTarget o = s.iopTarget o)) :
    t.BlocksWellFormed := by
  have hblock : ∀ b, t.block b = s.block b := fun b => by simp only [block, hb]
  refine ⟨fun o b => by rw [hp, h.parents, hb, hblock], fun b hb' => ?_, fun b hb' => ?_⟩
  · rw [hblock]; exact h.nodup b (hb ▸ hb')
  · rw [hb] at hb'
    rw [hblock]
    have hall : ∀ o ∈ (s.block b).ops, t.codeOf o = s.codeOf o ∧
        (s.isIndirect o = true → t.iopTarget o = s.iopTarget o) := fun o ho =>
      hc o (by rw [(h.parents o b).mpr ⟨hb', ho⟩]; rfl)
    have hphi : ∀ o ∈ (s.block b).ops, t.isPhi o = s.isPhi o := fun o ho => by
      simp only [isPhi, (hall o ho).1]
    obtain ⟨h1, h2, h3⟩ := h.ops b hb'
    refine ⟨fun o ho => ?_, fun o ho => ?_, (guarded_congr_of_mem hall).mpr h3⟩
    · rw [dropWhile_congr_of_mem hphi] at ho
      rw [hphi o ((List.dropWhile_sublist _).subset ho)]; exact h1 o ho
    · rw [(hall o (List.dropLast_subset _ ho)).1]; exact h2 o ho

/-! ### The four insertions -/

section Insertions

variable (h : s.BlocksWellFormed) (hd : s.Detached o) (hflow : (s.codeOf o).isFlowBreak = false)
include h hd hflow

/-- **`opInsertBegin` keeps the blocks well formed** for an op that is not an `INDIRECT`: a
`MULTIEQUAL` goes first, anything else after the `MULTIEQUAL`s. -/
theorem opInsertBegin_wellFormed (hb : b < s.bblocks.length) (hind : s.isIndirect o = false) :
    (s.opInsertBegin o b).BlocksWellFormed ∧ ∀ c < s.bblocks.length,
      ((s.opInsertBegin o b).block c).ops.count o = if c = b then 1 else 0 := by
  apply h.opInsert hd hb
  have hw := h.ops b hb
  split_ifs with hphi
  · simpa using opsWellFormed_insert (A := []) hw hflow (by simp) (by simp [hphi]) (by simp)
      (by simp [hind]) (by simp)
  · obtain ⟨htake, hdrop⟩ := s.skipPhis_split (s.block b).ops 0
    rw [htake, hdrop, List.take_zero, List.drop_zero, List.nil_append]
    have hpf := hw.phisFirst
    rw [← List.takeWhile_append_dropWhile s.isPhi (s.block b).ops] at hw
    refine opsWellFormed_insert hw hflow (by simp [hphi]) (fun _ => hpf)
      (fun _ a ha => isFlowBreak_of_isPhi (List.mem_takeWhile_imp ha)) (by simp [hind])
      (fun _ a ha => isIndirect_of_isPhi (List.mem_takeWhile_imp
        (List.mem_of_getLast?_eq_some ha)))

/-- **`opInsertEnd` keeps the blocks well formed** for an op that is no marker: it goes
last, or just before a final flow break. -/
theorem opInsertEnd_wellFormed (hb : b < s.bblocks.length) (hphi : s.isPhi o = false)
    (hind : s.isIndirect o = false) :
    (s.opInsertEnd o b).BlocksWellFormed ∧ ∀ c < s.bblocks.length,
      ((s.opInsertEnd o b).block c).ops.count o = if c = b then 1 else 0 := by
  apply h.opInsert hd hb
  have hw := h.ops b hb
  generalize (s.block b).ops = ops at hw ⊢
  cases hl : ops.getLast? with
  | none =>
    rw [List.getLast?_eq_none_iff.mp hl] at hw ⊢
    simpa using opsWellFormed_insert (A := []) (B := []) hw hflow (by simp) (by simp)
      (by simp) (by simp [hind]) (by simp)
  | some l =>
    obtain ⟨init, rfl⟩ : ∃ init, ops = init ++ [l] :=
      ⟨_, (List.dropLast_append_getLast? l hl).symm⟩
    dsimp only
    split_ifs with hfl
    · rw [show (init ++ [l]).length - 1 = init.length by simp, List.take_left, List.drop_left]
      obtain ⟨hlp, hli, hle⟩ := of_isFlowBreak hfl
      refine opsWellFormed_insert hw hflow (by simp [hphi]) (by simp [hlp]) (by simp)
        (by simp [hind]) fun _ a ha => ?_
      obtain ⟨init', rfl⟩ : ∃ init', init = init' ++ [a] :=
        ⟨init.dropLast, (List.dropLast_append_getLast? a ha).symm⟩
      cases hai : s.isIndirect a
      · rfl
      · have := next_of_indirect (A := init') (C := []) (by simpa using hw.guarded) hai
        simp [hli, hle] at this
    · rw [List.take_length, List.drop_length]
      refine opsWellFormed_insert (by simpa using hw) hflow (by simp [hphi]) (by simp)
        (fun _ a ha => ?_) (by simp [hind]) (fun _ a ha => ?_)
      · rcases List.mem_append.mp ha with ha | ha
        · exact hw.branchLast a (by simpa using ha)
        · rw [List.mem_singleton.mp ha]; simpa using hfl
      · rw [hl, Option.mem_def, Option.some.injEq] at ha
        subst ha
        exact last_not_indirect hw.guarded

/-- **`opInsertBefore` keeps the blocks well formed** when it puts a `MULTIEQUAL` only before
a `MULTIEQUAL` and any other op only before an op that is not one, and an `INDIRECT` only
before the op it shadows or before an `INDIRECT` that shadows the same op. -/
theorem opInsertBefore_wellFormed {follow : Nat} (hf : s.parentOf follow = some b)
    (hphi : s.isPhi follow = s.isPhi o)
    (hind : s.isIndirect o = true → ∃ t, s.iopTarget o = some t ∧
      (s.codeOf t).isIndirectEffect = true ∧
      (follow = t ∨ s.isIndirect follow = true ∧ s.iopTarget follow = some t)) :
    (s.opInsertBefore o follow).BlocksWellFormed ∧ ∀ c < s.bblocks.length,
      ((s.opInsertBefore o follow).block c).ops.count o = if c = b then 1 else 0 := by
  obtain ⟨hb, hmem⟩ := (h.parents follow b).mp hf
  unfold opInsertBefore
  rw [hf]
  apply h.opInsert hd hb
  have hw := h.ops b hb
  generalize (s.block b).ops = ops at hw hmem ⊢
  have hsplit := split_indexOf hmem
  have hi : ops.indexOf follow ≤ ops.length := List.indexOf_le_length
  generalize ops.indexOf follow = i at hsplit hi ⊢
  have hdrop : ops.drop i = follow :: ops.drop (i + 1) := by
    conv_lhs => rw [hsplit]
    exact List.drop_left' (by simp [Nat.min_eq_left hi])
  rw [hsplit] at hw
  split_ifs with hio
  · obtain ⟨t, ht, heff, hft⟩ := hind hio
    have hfp : s.isPhi follow = false := hphi.trans (isPhi_of_isIndirect hio)
    rw [hdrop]
    refine opsWellFormed_insert hw hflow (by simp [isPhi_of_isIndirect hio])
      (fun _ => not_phi_of_after hw.phisFirst hfp) (by simp)
      (fun _ => ⟨t, ht, ?_, heff⟩) (by simp [hio])
    rcases hft with rfl | ⟨hfi, hft⟩
    · simp [List.dropWhile_cons_of_neg, (of_isIndirectEffect heff).2.1]
    · obtain ⟨t', ht', hhead, -⟩ := (guarded_of_append (A := ops.take i) hw.guarded).1 hfi
      rw [hft, Option.some.injEq] at ht'
      rw [List.dropWhile_cons_of_pos (by simpa using hfi), ht']
      exact hhead
  · obtain ⟨htake, hdrop'⟩ := s.skipIndirectsBack_split hi
    rw [htake, hdrop', hdrop]
    have hL := reverse_dropWhile_append_takeWhile s.isIndirect (ops.take i)
    have hw' := hw
    rw [← hL, List.append_assoc] at hw'
    refine opsWellFormed_insert hw' hflow (fun hop a ha => ?_) (fun hop x hx => ?_) (by simp)
      (by simp [hio]) (fun _ a ha => ?_)
    · exact phi_of_before hw.phisFirst (hphi.trans hop) a
        (hL ▸ List.mem_append_left _ ha)
    · rcases List.mem_append.mp hx with hx | hx
      · exact isPhi_of_isIndirect (List.mem_takeWhile_imp (List.mem_reverse.mp hx))
      · exact not_phi_of_after hw.phisFirst (hphi.trans hop) x hx
    · rw [List.getLast?_reverse] at ha
      have := List.head?_dropWhile_not s.isIndirect (ops.take i).reverse
      rwa [ha] at this

/-- **`opInsertAfter` keeps the blocks well formed** for an op that is not an `INDIRECT`,
when it does not insert after a flow break and puts a `MULTIEQUAL` only after a
`MULTIEQUAL`. -/
theorem opInsertAfter_wellFormed {prev : Nat} (hp : s.parentOf prev = some b)
    (hind : s.isIndirect o = false) (hprev : (s.codeOf prev).isFlowBreak = false)
    (hphi : s.isPhi o = true → s.isPhi prev = true) :
    (s.opInsertAfter o prev).BlocksWellFormed ∧ ∀ c < s.bblocks.length,
      ((s.opInsertAfter o prev).block c).ops.count o = if c = b then 1 else 0 := by
  obtain ⟨hb, hmem⟩ := (h.parents prev b).mp hp
  have hw := h.ops b hb
  obtain ⟨q, hq, hqmem, hqi, hqf, hqp⟩ : ∃ q,
      (if s.isIndirect prev then (s.iopTarget prev).getD prev else prev) = q ∧
      q ∈ (s.block b).ops ∧ s.isIndirect q = false ∧ (s.codeOf q).isFlowBreak = false ∧
      (s.isPhi o = true → q = prev) := by
    split_ifs with hpi
    · obtain ⟨A0, C, hsplit⟩ := List.append_of_mem hmem
      have hg : s.Guarded (prev :: C) := guarded_of_append (A := A0) (hsplit ▸ hw.guarded)
      obtain ⟨t, ht, hhead, heff⟩ := hg.1 hpi
      obtain ⟨-, hti, htf⟩ := of_isIndirectEffect heff
      refine ⟨t, by rw [ht]; rfl, ?_, hti, htf, fun hop => ?_⟩
      · rw [hsplit]
        exact List.mem_append_right _ (List.mem_cons_of_mem _
          ((List.dropWhile_sublist _).subset (List.mem_of_mem_head? hhead)))
      · have := hphi hop
        rw [isPhi_of_isIndirect hpi] at this
        cases this
    · exact ⟨prev, rfl, hmem, by simpa using hpi, hprev, fun _ => rfl⟩
  have hqb : s.parentOf q = some b := (h.parents q b).mpr ⟨hb, hqmem⟩
  unfold opInsertAfter
  dsimp only
  rw [hq, hqb]
  apply h.opInsert hd hb
  generalize (s.block b).ops = ops at hw hqmem ⊢
  have hsplit := split_indexOf hqmem
  have hj := List.indexOf_lt_length.mpr hqmem
  generalize ops.indexOf q = j at hsplit hj ⊢
  have htake1 : ops.take (j + 1) = ops.take j ++ [q] := by
    conv_lhs => rw [hsplit]
    rw [List.take_append_eq_append_take,
      List.take_of_length_le (by simp only [List.length_take]; omega)]
    simp [Nat.min_eq_left hj.le]
  rw [hsplit] at hw
  split_ifs with hop
  · have hqphi : s.isPhi q = true := (hqp hop) ▸ hphi hop
    have hA : ∀ a ∈ ops.take j ++ [q], s.isPhi a = true := fun a ha => by
      rcases List.mem_append.mp ha with ha | ha
      · exact phi_of_before hw.phisFirst hqphi a ha
      · rwa [List.mem_singleton.mp ha]
    rw [htake1]
    refine opsWellFormed_insert (by rw [List.append_assoc, List.singleton_append]; exact hw)
      hflow (fun _ => hA) (by simp [hop]) (fun _ a ha => isFlowBreak_of_isPhi (hA a ha))
      (by simp [hind]) (fun _ a ha => ?_)
    simp only [List.getLast?_append, List.getLast?_singleton, Option.mem_def] at ha
    cases ha
    exact hqi
  · obtain ⟨htake, hdrop⟩ := s.skipPhis_split ops (j + 1)
    rw [htake, hdrop, htake1]
    have hw' : s.OpsWellFormed ((ops.take j ++ [q] ++ (ops.drop (j + 1)).takeWhile s.isPhi) ++
        (ops.drop (j + 1)).dropWhile s.isPhi) := by
      rw [List.append_assoc, List.takeWhile_append_dropWhile, List.append_assoc,
        List.singleton_append]
      exact hw
    refine opsWellFormed_insert hw' hflow (by simp [hop]) (fun _ x hx => ?_)
      (fun hD a ha => ?_) (by simp [hind]) (fun _ a ha => ?_)
    · obtain ⟨y, D, hyD⟩ : ∃ y D, (ops.drop (j + 1)).dropWhile s.isPhi = y :: D := by
        cases hdw : (ops.drop (j + 1)).dropWhile s.isPhi with
        | nil => rw [hdw] at hx; cases hx
        | cons y D => exact ⟨y, D, rfl⟩
      have hy : s.isPhi y = false := by
        have := List.head?_dropWhile_not s.isPhi (ops.drop (j + 1))
        rwa [hyD] at this
      rw [hyD] at hw' hx
      exact not_phi_of_after hw'.phisFirst hy x hx
    · rcases List.mem_append.mp ha with ha | ha
      · rcases List.mem_append.mp ha with ha | ha
        · exact hw.branchLast a (by rw [List.dropLast_append_cons]; exact List.mem_append_left _ ha)
        · rw [List.mem_singleton.mp ha]
          exact hqf
      · exact isFlowBreak_of_isPhi (List.mem_takeWhile_imp ha)
    · rw [List.getLast?_append] at ha
      cases hP : ((ops.drop (j + 1)).takeWhile s.isPhi).getLast? with
      | none =>
        simp only [hP, Option.none_or, List.getLast?_append, List.getLast?_singleton,
          Option.mem_def] at ha
        cases ha
        exact hqi
      | some l =>
        simp only [hP, Option.or_some, Option.mem_def, Option.some.injEq] at ha
        subst ha
        exact isIndirect_of_isPhi (List.mem_takeWhile_imp (List.mem_of_getLast?_eq_some hP))

end Insertions

/-! ### Where an op goes -/

theorem le_indexOf_of_mem_drop {l : List Nat} {a n : Nat} (hl : l.Nodup) (ha : a ∈ l.drop n) :
    n ≤ l.indexOf a := by
  have hn : n ≤ l.length := by
    by_contra hn; rw [List.drop_eq_nil_of_le (by omega)] at ha; cases ha
  rw [← List.take_append_drop n l] at hl
  have hnot : a ∉ l.take n := fun h => (List.nodup_append.mp hl).2.2 h ha
  conv_rhs => rw [← List.take_append_drop n l]
  rw [List.indexOf_append_of_not_mem hnot, List.length_take, Nat.min_eq_left hn]
  omega

theorem block_opInsert_split {A B : List Nat} (hb : b < s.bblocks.length)
    (hs : (s.block b).ops = A ++ B) : ((s.opInsert o b A.length).block b).ops = A ++ o :: B := by
  rw [block_opInsert, if_pos ⟨rfl, hb⟩]; simp [hs]

/-- **Where `opInsertAfter` puts an op that is not a `MULTIEQUAL`** into a well-formed block
holding `prev`: between two parts `A ++ B` of the block's list, `prev` in `A`. -/
theorem opInsertAfter_split (h : s.BlocksWellFormed) {prev : Nat} (hp : s.parentOf prev = some b)
    (hphi : s.isPhi o = false) :
    ∃ A B, (s.block b).ops = A ++ B ∧ prev ∈ A ∧
      s.opInsertAfter o prev = s.opInsert o b A.length := by
  obtain ⟨hb, hmem⟩ := (h.parents prev b).mp hp
  obtain ⟨q, hq, hqmem, hle⟩ : ∃ q,
      (if s.isIndirect prev then (s.iopTarget prev).getD prev else prev) = q ∧
      q ∈ (s.block b).ops ∧ (s.block b).ops.indexOf prev ≤ (s.block b).ops.indexOf q := by
    split_ifs with hpi
    · have hsplit := split_indexOf hmem
      obtain ⟨t, ht, hhead, -⟩ :=
        (guarded_of_append (hsplit ▸ (h.ops b hb).guarded : s.Guarded (_ ++ prev :: _))).1 hpi
      have htm : t ∈ (s.block b).ops.drop ((s.block b).ops.indexOf prev + 1) :=
        (List.dropWhile_sublist _).subset (List.mem_of_mem_head? hhead)
      refine ⟨t, by rw [ht]; rfl, List.mem_of_mem_drop htm, ?_⟩
      have := le_indexOf_of_mem_drop (h.nodup b hb) htm
      omega
    · exact ⟨prev, rfl, hmem, le_rfl⟩
  have hqb : s.parentOf q = some b := (h.parents q b).mpr ⟨hb, hqmem⟩
  have hql := List.indexOf_lt_length.mpr hqmem
  unfold opInsertAfter
  dsimp only
  rw [hq, hqb, hphi]
  set ops := (s.block b).ops
  have hpos : ops.indexOf q + 1 ≤ s.skipPhis ops (ops.indexOf q + 1) ∧
      s.skipPhis ops (ops.indexOf q + 1) ≤ ops.length := by
    simp only [skipPhis]
    have := (List.takeWhile_sublist s.isPhi (l := ops.drop (ops.indexOf q + 1))).length_le
    simp only [List.length_drop] at this
    omega
  refine ⟨ops.take (s.skipPhis ops (ops.indexOf q + 1)),
    ops.drop (s.skipPhis ops (ops.indexOf q + 1)),
    (List.take_append_drop _ _).symm, List.mem_take_iff_getElem.mpr ⟨ops.indexOf prev, ?_,
    List.getElem_indexOf _⟩, ?_⟩
  · have := List.indexOf_lt_length.mpr hmem
    omega
  · rw [List.length_take, Nat.min_eq_left hpos.2]
    rfl

/-- `opInsertBegin` puts an op that is not a `MULTIEQUAL` right after the `MULTIEQUAL`s that
begin the block. -/
theorem opInsertBegin_of_not_phi (hphi : s.isPhi o = false) :
    s.opInsertBegin o b = s.opInsert o b ((s.block b).ops.takeWhile s.isPhi).length := by
  simp [opInsertBegin, skipPhis, hphi]


/-! ### Inserting before a `MULTIEQUAL` -/

/-- An instruction address of a processor space. -/
def codeAddr : Address := ⟨⟨3, .processor, 0xffff, false, 1⟩, 0⟩

/-- One block `[MULTIEQUAL, BRANCH]` (ops 0 and 1) and a detached `COPY` (op 2). -/
def phiBranchBlock : Funcdata where
  glb := ⟨⟨0, .constant, 2 ^ 64 - 1, false, 1⟩, ⟨1, .internal, 2 ^ 64 - 1, false, 1⟩,
    ⟨2, .iop, 2 ^ 64 - 1, false, 1⟩, rfl, rfl, rfl⟩
  vbank := []
  obank := [some { code := .multiequal, addr := codeAddr, inrefs := [], parent := some 0 },
    some { code := .branch, addr := codeAddr, inrefs := [], parent := some 0 },
    some { code := .copy, addr := codeAddr, inrefs := [] }]
  bblocks := [{ ops := [0, 1] }]
  uniqId := 0

/-- **`opInsertBefore` puts an op other than a marker right in front of a `MULTIEQUAL`.** It
walks back over `INDIRECT`s only, and in a well-formed block only `MULTIEQUAL`s stand before
a `MULTIEQUAL`: the op lands right before `follow`, and the `MULTIEQUAL`s no longer lead the
block. -/
theorem opInsertBefore_before_phi (h : s.BlocksWellFormed) {o follow b : Nat}
    (hf : s.parentOf follow = some b) (hphi : s.isPhi follow = true) (ho : s.isPhi o = false)
    (hi : s.isIndirect o = false) :
    (∃ A B, ((s.opInsertBefore o follow).block b).ops = A ++ o :: follow :: B) ∧
      ¬ (s.opInsertBefore o follow).OpsWellFormed ((s.opInsertBefore o follow).block b).ops := by
  obtain ⟨hb, hmem⟩ := (h.parents follow b).mp hf
  have hw := (h.ops b hb).phisFirst
  simp only [opInsertBefore, hf, hi, Bool.false_eq_true, if_false, block_opInsert, hb, and_self,
    if_true]
  rw [opsWellFormed_congr (codeOf_opInsert ..) (iopTarget_opInsert ..)]
  generalize (s.block b).ops = ops at hw hmem ⊢
  have hsplit := split_indexOf hmem
  have hlen : (ops.take (ops.indexOf follow)).length = ops.indexOf follow :=
    List.length_take_of_le List.indexOf_le_length
  generalize ops.take (ops.indexOf follow) = A at hsplit hlen
  generalize ops.drop (ops.indexOf follow + 1) = C at hsplit
  rw [← hlen]
  clear hlen hmem
  subst hsplit
  have hA := phi_of_before hw hphi
  have hk : s.skipIndirectsBack (A ++ follow :: C) A.length = A.length := by
    have hnil : A.reverse.takeWhile s.isIndirect = [] := by
      cases hr : A.reverse with
      | nil => rfl
      | cons a l =>
        have ha : a ∈ A := List.mem_reverse.mp (hr ▸ List.mem_cons_self a l)
        simp [List.takeWhile_cons, isIndirect_of_isPhi (hA a ha)]
    simp [skipIndirectsBack, hnil]
  rw [hk, List.take_left' rfl, List.drop_left' rfl]
  refine ⟨⟨A, C, rfl⟩, fun hw' => ?_⟩
  have := hw'.phisFirst follow (by
    rw [List.dropWhile_append_of_pos hA, List.dropWhile_cons_of_neg (by simp [ho])]; simp)
  rw [hphi] at this
  cases this

end Funcdata

end GhidraDec
