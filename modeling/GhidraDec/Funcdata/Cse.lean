import GhidraDec.Funcdata.BlockEdit

/-!
# Common Subexpression Elimination

`cseElimination(data, op1, op2)` (`funcdata_op.cc`) merges two ops that compute the same
value. When both sit in one block it keeps the earlier; otherwise it asks
`FlowBlock::findCommonBlock` for the nearest common dominator of their blocks and keeps the op
whose block that is, or, when it is neither, builds a copy of `op1` with a new output at the
end of the common block. Each op it does not keep has its output's reads moved to the kept
op's output (`totalReplace`) and is destroyed (`opDestroy`).

The order of two ops of a block (`SeqNum::getOrder`) is their position in the block's op list,
which `BlockBasic::insert` numbers in list order. The control-flow graph and its dominator
tree (`block.cc`) are outside the sources: dominance and `findCommonBlock` are parameters, with
the laws of `DominatorTree`, and so is the end address of a block (`getStop`), which only
names the new op's address.

## Dominance convention

The definition of a varnode dominates a read of it (`ReadDominated`) when the defining op
comes before the reading op (`OpDominates`: earlier in the same block, or in a block that
dominates the reader's); a `MULTIEQUAL` reads its slot `k` at the end of the block of its
`k`-th in-edge, which the defining op's block must dominate. `DefsDominate` asks this of
every read of every op placed in a block.

## Main results

* `cseRemove_spec`: replacing the reads of an op's output by those of an op that comes before
  it, and destroying it, keeps every definition dominating its reads;
* `cseBuild_spec`: the copy built at the end of the common dominator comes before both ops,
  and the definitions of its inputs dominate its reads;
* `cseElimination_dominates`: the op `cseElimination` returns is read by every former reader
  of both outputs, comes before each of those reads, and every definition still dominates its
  reads.
-/

namespace GhidraDec

namespace Funcdata

variable (s : Funcdata)

/-! ### The elimination -/

/-- Two slots hold the same varnode, or two constants of the same value. -/
def sameInput : Option Nat → Option Nat → Bool
  | some a, some b => a == b || (s.vn a).any Varnode.isConstant &&
      (s.vn b).any Varnode.isConstant && (s.vn a).map Varnode.offset == (s.vn b).map Varnode.offset
  | none, none => true
  | _, _ => false

/-- Modelled from the spec: `PcodeOp::isCseMatch` (`op.cc`, outside the sources) judges that
two ops compute the same value: the same op-code, one whose output depends on its inputs alone
(not a marker, a flow break, a `CALL`, `CALLIND` or `STORE`, a `LOAD`, a `CALLOTHER` or a
`COPY`), outputs of the same size, and as many inputs, slot by slot the same varnode or two
constants of the same value. -/
def isCseMatch (op1 op2 : Nat) : Bool :=
  let c := s.codeOf op1
  c == s.codeOf op2 && !c.isMarker && !c.isFlowBreak && !c.isIndirectEffect &&
    c != .load && c != .callother && c != .copy && c != .max &&
    (match s.outputOf op1, s.outputOf op2 with
      | some w1, some w2 => s.vnSize w1 == s.vnSize w2
      | _, _ => false) &&
    (s.inrefsOf op1).length == (s.inrefsOf op2).length &&
    (List.range (s.inrefsOf op1).length).all fun i => s.sameInput (s.getIn op1 i) (s.getIn op2 i)

/-- One turn of the input loop of the built op `replace`: slot `i` reads what slot `i` of `op1`
reads, a constant through a new constant of its size and value. -/
def cseSetInput (op1 replace : Nat) (s : Funcdata) (i : Nat) : Funcdata :=
  match s.getIn op1 i with
  | none => s
  | some w =>
    match s.vn w with
    | some x =>
      if x.isConstant then
        let (s, c) := s.newConstant x.size x.offset
        s.opSetInput replace c i
      else s.opSetInput replace w i
    | none => s.opSetInput replace w i

/-- The start of the branch of `cseElimination` where neither op's block is the common
dominator: a new op `replace` at `pc` with the op-code of `op1` and a new output at the storage
of `op1`'s output, its input slots still empty. -/
def cseCopyShell (pc : Address) (op1 : Nat) : Funcdata × Nat :=
  let (s, replace) := s.newOp (s.inrefsOf op1).length pc
  let s := s.opSetOpcode replace (s.codeOf op1)
  let (loc, size) := ((s.outputOf op1).bind s.storageOf).getD (s.invalidAddr, 0)
  ((s.newVarnodeOut size loc replace).1, replace)

/-- The branch of `cseElimination` where neither op's block is the common dominator `common`:
the copy of `op1` gets the inputs of `op1` and goes at the end of `common`. -/
def cseBuild (common : Nat) (pc : Address) (op1 : Nat) : Funcdata × Nat :=
  let (s, replace) := s.cseCopyShell pc op1
  let s := (List.range (s.inrefsOf op1).length).foldl (cseSetInput op1 replace) s
  (s.opInsertEnd replace common, replace)

/-- The op `cseElimination` keeps, with the store after building it: the earlier of two ops of
one block, else the op whose block is the common dominator, else a copy of `op1` built there. -/
def cseReplace (findCommonBlock : Nat → Nat → Nat) (getStop : Nat → Address) (op1 op2 : Nat) :
    Funcdata × Nat :=
  let b1 := (s.parentOf op1).getD 0
  let b2 := (s.parentOf op2).getD 0
  if b1 = b2 then
    let ops := (s.block b1).ops
    (s, if ops.indexOf op1 < ops.indexOf op2 then op1 else op2)
  else
    let common := findCommonBlock b1 b2
    if common = b1 then (s, op1)
    else if common = b2 then (s, op2)
    else s.cseBuild common (getStop common) op1

/-- What `cseElimination` does to an op it does not keep: the reads of its output become reads
of `replace`'s output, and the op is destroyed. -/
def cseRemove (op replace : Nat) : Funcdata :=
  (s.totalReplace ((s.outputOf op).getD 0) ((s.outputOf replace).getD 0)).opDestroy op

/-- `cseElimination`: the store after the merge, and the op kept. -/
def cseElimination (findCommonBlock : Nat → Nat → Nat) (getStop : Nat → Address)
    (op1 op2 : Nat) : Funcdata × Nat :=
  let (s, replace) := s.cseReplace findCommonBlock getStop op1 op2
  let s := if replace ≠ op1 then s.cseRemove op1 replace else s
  let s := if replace ≠ op2 then s.cseRemove op2 replace else s
  (s, replace)

/-! ### Dominance -/

/-- The laws of the dominator tree of a graph of `n` blocks that `cseElimination` relies on:
dominance is a partial order, and `FlowBlock::findCommonBlock` gives the nearest common
dominator of two blocks, itself one of the `n`. -/
structure DominatorTree (n : Nat) (dom : Nat → Nat → Prop) (findCommonBlock : Nat → Nat → Nat) :
    Prop where
  refl : ∀ a, dom a a
  trans : ∀ {a b c}, dom a b → dom b c → dom a c
  antisymm : ∀ {a b}, dom a b → dom b a → a = b
  common_left : ∀ a b, dom (findCommonBlock a b) a
  common_right : ∀ a b, dom (findCommonBlock a b) b
  nearest : ∀ {a b c}, dom c a → dom c b → dom c (findCommonBlock a b)
  common_lt : ∀ {a b}, a < n → b < n → findCommonBlock a b < n

variable (dom : Nat → Nat → Prop)

/-- Op `a` comes before op `c`: earlier in the same block, or in a block that dominates `c`'s. -/
def OpDominates (a c : Nat) : Prop :=
  ∃ ba bc, s.parentOf a = some ba ∧ s.parentOf c = some bc ∧
    if ba = bc then List.Sublist [a, c] (s.block ba).ops else dom ba bc

/-- The op `d` dominates the read in slot `k` of `p`: for a `MULTIEQUAL`, `d`'s block dominates
the block of the `k`-th in-edge; for any other op, `d` comes before `p`. -/
def ReadDominated (d p k : Nat) : Prop :=
  (s.isPhi p = true → ∃ bd b e, s.parentOf d = some bd ∧ s.parentOf p = some b ∧
    (s.block b).inEdges[k]? = some e ∧ dom bd e) ∧
  (s.isPhi p = false → s.OpDominates dom d p)

/-- The definition of every varnode that an op in a block reads dominates the read. -/
def DefsDominate : Prop :=
  ∀ p k x d, (s.parentOf p).isSome → s.getIn p k = some x → s.defOf x = some d →
    s.ReadDominated dom d p k

variable {dom} in
/-- A chain of blocks, each dominating the next: dominance is `≤`, and the common dominator of two
blocks is the smaller. -/
theorem chain_dominatorTree (n : Nat) : DominatorTree n (· ≤ ·) min :=
  ⟨Nat.le_refl, Nat.le_trans, Nat.le_antisymm, Nat.min_le_left, Nat.min_le_right,
    fun ha hb => Nat.le_min.mpr ⟨ha, hb⟩, fun ha _ => Nat.lt_of_le_of_lt (Nat.min_le_left _ _) ha⟩

/-- `ReadDominated` for a dominance test `domb`, computed. -/
def readDominatedCheck (domb : Nat → Nat → Bool) (d p k : Nat) : Bool :=
  match s.parentOf d, s.parentOf p with
  | some bd, some b =>
    if s.isPhi p then
      match (s.block b).inEdges[k]? with
      | some e => domb bd e
      | none => false
    else if bd = b then [d, p].isSublist (s.block b).ops else domb bd b
  | _, _ => false

/-- `DefsDominate` for a dominance test `domb`, computed over the slots of the ops of the bank. -/
def defsDominateCheck (domb : Nat → Nat → Bool) : Bool :=
  (List.range s.obank.length).all fun p => !(s.parentOf p).isSome ||
    (List.range (s.inrefsOf p).length).all fun k => match s.getIn p k with
      | some x => match s.defOf x with
        | some d => s.readDominatedCheck domb d p k
        | none => true
      | none => true

/-! ### Order in a block -/

section Order

variable {α : Type} {a b c : α}

/-- In a list without repeats, "comes before" is transitive. -/
theorem pair_sublist_trans : ∀ {l : List α}, l.Nodup → List.Sublist [a, b] l →
    List.Sublist [b, c] l → List.Sublist [a, c] l
  | [], _, h, _ => absurd h (by simp)
  | x :: l, hl, h₁, h₂ => by
    rw [List.nodup_cons] at hl
    rcases List.sublist_cons_iff.mp h₁ with h₁' | ⟨r, hr, h₁'⟩
    · rcases List.sublist_cons_iff.mp h₂ with h₂' | ⟨r', hr', -⟩
      · exact (pair_sublist_trans hl.2 h₁' h₂').cons x
      · obtain ⟨rfl, -⟩ := List.cons.inj hr'
        exact absurd (h₁'.subset (by simp : b ∈ [a, b])) hl.1
    · obtain ⟨rfl, rfl⟩ := List.cons.inj hr
      rcases List.sublist_cons_iff.mp h₂ with h₂' | ⟨r', hr', -⟩
      · exact (List.singleton_sublist.mpr (h₂'.subset (by simp : c ∈ [b, c]))).cons₂ a
      · obtain ⟨rfl, -⟩ := List.cons.inj hr'
        exact absurd (h₁'.subset (by simp : b ∈ [b])) hl.1

/-- Of two ops of a list, the one of smaller index comes first. -/
theorem pair_sublist_of_indexOf_lt [DecidableEq α] : ∀ {l : List α}, c ∈ l →
    l.indexOf a < l.indexOf c → List.Sublist [a, c] l
  | [], hc, _ => absurd hc (List.not_mem_nil c)
  | x :: l, hc, h => by
    by_cases hxa : x = a
    · subst hxa
      have hxc : x ≠ c := by rintro rfl; simp at h
      exact (List.singleton_sublist.mpr ((List.mem_cons.mp hc).resolve_left hxc.symm)).cons₂ x
    · have hxc : x ≠ c := by rintro rfl; simp [List.indexOf_cons] at h
      rw [List.indexOf_cons, List.indexOf_cons, beq_false_of_ne hxa, beq_false_of_ne hxc] at h
      exact (pair_sublist_of_indexOf_lt ((List.mem_cons.mp hc).resolve_left hxc.symm)
        (Nat.lt_of_add_lt_add_right h)).cons x

end Order

variable {s dom} {t u : Funcdata} {n : Nat} {fcb : Nat → Nat → Nat} {a c d g p k : Nat}

/-- `OpDominates` is transitive where each block lists an op once. -/
theorem OpDominates.trans (hT : DominatorTree n dom fcb) (hnd : ∀ b, (s.block b).ops.Nodup)
    (h₁ : s.OpDominates dom a g) (h₂ : s.OpDominates dom g c) : s.OpDominates dom a c := by
  obtain ⟨ba, bg, ha, hg, h₁⟩ := h₁
  obtain ⟨bg', bc, hg', hc, h₂⟩ := h₂
  obtain rfl := Option.some.inj (hg.symm.trans hg')
  refine ⟨ba, bc, ha, hc, ?_⟩
  by_cases hab : ba = bg
  · subst hab; rw [if_pos rfl] at h₁
    by_cases hbc : ba = bc
    · subst hbc; rw [if_pos rfl] at h₂ ⊢; exact pair_sublist_trans (hnd ba) h₁ h₂
    · rwa [if_neg hbc] at h₂ ⊢
  · rw [if_neg hab] at h₁
    by_cases hbc : bg = bc
    · subst hbc; rwa [if_neg hab]
    · rw [if_neg hbc] at h₂
      rw [if_neg fun (hac : ba = bc) => hab (hT.antisymm h₁ (hac ▸ h₂))]
      exact hT.trans h₁ h₂

/-- **An op that comes before the definition of a read dominates the read.** -/
theorem ReadDominated.of_opDominates (hT : DominatorTree n dom fcb)
    (hnd : ∀ b, (s.block b).ops.Nodup) (h₁ : s.OpDominates dom a g)
    (h₂ : s.ReadDominated dom g p k) : s.ReadDominated dom a p k := by
  refine ⟨fun hphi => ?_, fun hphi => h₁.trans hT hnd (h₂.2 hphi)⟩
  obtain ⟨bg, b, e, hg, hp, he, hd⟩ := h₂.1 hphi
  obtain ⟨ba, bg', ha, hg', h₁⟩ := h₁
  obtain rfl := Option.some.inj (hg.symm.trans hg')
  refine ⟨ba, b, e, ha, hp, he, ?_⟩
  split_ifs at h₁ with hab
  · subst hab; exact hd
  · exact hT.trans h₁ hd

/-! ### Edits that keep the placement -/

/-- `t` keeps the placement of the ops of `s` other than `g`: their blocks, whether they are
`MULTIEQUAL`s, their order in a block, and the in-edges of every block. -/
structure PlacementKept (s t : Funcdata) (g : Nat) : Prop where
  parents : ∀ p ≠ g, (s.parentOf p).isSome → t.parentOf p = s.parentOf p
  isPhi : ∀ p ≠ g, (s.parentOf p).isSome → t.isPhi p = s.isPhi p
  inEdges : ∀ b, (t.block b).inEdges = (s.block b).inEdges
  order : ∀ b p q, p ≠ g → q ≠ g → List.Sublist [p, q] (s.block b).ops →
    List.Sublist [p, q] (t.block b).ops

theorem PlacementKept.trans (h₁ : PlacementKept s t g) (h₂ : PlacementKept t u g) :
    PlacementKept s u g where
  parents p hp hs := (h₂.parents p hp (by rwa [h₁.parents p hp hs])).trans (h₁.parents p hp hs)
  isPhi p hp hs := (h₂.isPhi p hp (by rwa [h₁.parents p hp hs])).trans (h₁.isPhi p hp hs)
  inEdges b := (h₂.inEdges b).trans (h₁.inEdges b)
  order b p q hp hq h := h₂.order b p q hp hq (h₁.order b p q hp hq h)

theorem BlocksKept.placementKept (hk : BlocksKept s t) (g : Nat) : PlacementKept s t g where
  parents p _ _ := hk.parents p
  isPhi _ _ hs := hk.isPhi_eq hs
  inEdges b := by rw [block, block, hk.bblocks]
  order b _ _ _ _ h := by rwa [block, hk.bblocks]

theorem PlacementKept.opDominates (hk : PlacementKept s t g) (ha : a ≠ g) (hc : c ≠ g)
    (h : s.OpDominates dom a c) : t.OpDominates dom a c := by
  obtain ⟨ba, bc, ha', hc', h⟩ := h
  refine ⟨ba, bc, by rw [hk.parents a ha (by rw [ha']; rfl), ha'],
    by rw [hk.parents c hc (by rw [hc']; rfl), hc'], ?_⟩
  split_ifs at h ⊢
  · exact hk.order _ _ _ ha hc h
  · exact h

/-- **A read stays dominated by a definition** while neither op is the one removed. -/
theorem PlacementKept.readDominated (hk : PlacementKept s t g) (hd : d ≠ g) (hp : p ≠ g)
    (h : s.ReadDominated dom d p k) : t.ReadDominated dom d p k := by
  have hps : (s.parentOf p).isSome := by
    cases hphi : s.isPhi p
    · obtain ⟨_, _, _, h, _⟩ := h.2 hphi; rw [h]; rfl
    · obtain ⟨_, _, _, _, h, _⟩ := h.1 hphi; rw [h]; rfl
  rw [ReadDominated, hk.isPhi p hp hps]
  refine ⟨fun hphi => ?_, fun hphi => hk.opDominates hd hp (h.2 hphi)⟩
  obtain ⟨bd, b, e, hd', hp', he, hdom⟩ := h.1 hphi
  exact ⟨bd, b, e, by rw [hk.parents d hd (by rw [hd']; rfl), hd'],
    by rw [hk.parents p hp hps, hp'], by rw [hk.inEdges]; exact he, hdom⟩

theorem readDominated_of_check {domb : Nat → Nat → Bool}
    (hdom : ∀ a b, domb a b = true → dom a b) (h : s.readDominatedCheck domb d p k = true) :
    s.ReadDominated dom d p k := by
  unfold readDominatedCheck at h
  split at h
  · rename_i bd b hd hp
    refine ⟨fun hphi => ?_, fun hphi => ⟨bd, b, hd, hp, ?_⟩⟩
    · rw [if_pos hphi] at h
      split at h
      · exact ⟨bd, b, _, hd, hp, ‹_›, hdom _ _ h⟩
      · cases h
    · rw [if_neg (by simp [hphi])] at h
      split_ifs at h ⊢ with hb
      · rw [hb]; exact List.isSublist_iff_sublist.mp h
      · exact hdom _ _ h
  · cases h

theorem DefsDominate.of_check (domb : Nat → Nat → Bool) (hdom : ∀ a b, domb a b = true → dom a b)
    (h : s.defsDominateCheck domb = true) : s.DefsDominate dom := by
  intro p k x d hp hx hd
  have h₁ := List.all_eq_true.mp h p (List.mem_range.mpr (lt_of_parentOf_isSome hp))
  rw [hp, Bool.not_true, Bool.false_or] at h₁
  have h₂ := List.all_eq_true.mp h₁ k (List.mem_range.mpr (lt_of_getIn hx))
  simp only [hx, hd] at h₂
  exact readDominated_of_check hdom h₂

/-! ### Taking an op out -/

/-- `t` is `s` with op `g` taken out and varnode `w` freed: the other ops keep their slots,
outputs and blocks, every op its op-code, the other varnodes their bodies, and each block its
in-edges and its op list, less `g` at most. -/
structure Removed (s t : Funcdata) (g w : Nat) : Prop where
  getIn : ∀ p ≠ g, ∀ j, t.getIn p j = s.getIn p j
  bodyOf : ∀ x ≠ w, t.bodyOf x = s.bodyOf x
  outputOf : ∀ p ≠ g, t.outputOf p = s.outputOf p
  parents : ∀ p ≠ g, t.parentOf p = s.parentOf p
  codeOf : ∀ p, t.codeOf p = s.codeOf p
  inEdges : ∀ b, (t.block b).inEdges = (s.block b).inEdges
  ops : ∀ b, (t.block b).ops = (s.block b).ops ∨
    (t.block b).ops = (s.block b).ops.filter fun q => q != g

theorem Removed.trans {w : Nat} (h₁ : Removed s t g w) (h₂ : Removed t u g w) :
    Removed s u g w where
  getIn p hp j := (h₂.getIn p hp j).trans (h₁.getIn p hp j)
  bodyOf x hx := (h₂.bodyOf x hx).trans (h₁.bodyOf x hx)
  outputOf p hp := (h₂.outputOf p hp).trans (h₁.outputOf p hp)
  parents p hp := (h₂.parents p hp).trans (h₁.parents p hp)
  codeOf p := (h₂.codeOf p).trans (h₁.codeOf p)
  inEdges b := (h₂.inEdges b).trans (h₁.inEdges b)
  ops b := by
    rcases h₁.ops b with e₁ | e₁ <;> rcases h₂.ops b with e₂ | e₂ <;> rw [e₂, e₁] <;>
      simp [List.filter_filter]

/-- A step that touches neither the blocks nor the placement of the ops. -/
theorem Removed.of_frame {w : Nat} (hb : t.bblocks = s.bblocks)
    (hi : ∀ p ≠ g, ∀ j, t.getIn p j = s.getIn p j) (hx : ∀ x ≠ w, t.bodyOf x = s.bodyOf x)
    (ho : ∀ p ≠ g, t.outputOf p = s.outputOf p) (hp : ∀ p, t.parentOf p = s.parentOf p)
    (hc : ∀ p, t.codeOf p = s.codeOf p) : Removed s t g w :=
  ⟨hi, hx, ho, fun p _ => hp p, hc, fun b => by rw [block, block, hb],
    fun b => .inl (by rw [block, block, hb])⟩

theorem Removed.nodup {w : Nat} (hr : Removed s t g w) (hnd : ∀ b, (s.block b).ops.Nodup)
    (b : Nat) :
    (t.block b).ops.Nodup := by
  rcases hr.ops b with e | e <;> rw [e]
  · exact hnd b
  · exact (hnd b).filter _

theorem Removed.placementKept {w : Nat} (hr : Removed s t g w) : PlacementKept s t g where
  parents p hp _ := hr.parents p hp
  isPhi p _ _ := by rw [isPhi, isPhi, hr.codeOf]
  inEdges := hr.inEdges
  order b p q hp hq h := by
    rcases hr.ops b with e | e <;> rw [e]
    · exact h
    · simpa [hp, hq] using h.filter fun q => q != g

theorem removed_setOutputField (g w : Nat) : Removed s (s.setOutputField g none) g w :=
  .of_frame rfl (fun _ _ _ => getIn_setOutputField ..) (fun _ _ => bodyOf_modifyOp ..)
    (fun p hp => by rw [outputOf_setOutputField, if_neg fun h => hp h.1])
    (parentOf_setOutputField g · none) (codeOf_setOutputField g · none)

theorem removed_destroyVn (g w : Nat) : Removed s (s.destroyVn w) g w :=
  .of_frame rfl (fun _ _ _ => rfl) (fun x hx => by simp [bodyOf, hx])
    (fun _ _ => rfl) (fun _ => rfl) (fun _ => rfl)

theorem removed_opUnsetInput (g i w : Nat) : Removed s (s.opUnsetInput g i) g w :=
  .of_frame (by unfold opUnsetInput; split <;> rfl)
    (fun p hp j => by simp only [getIn, inrefsOf_opUnsetInput, if_neg hp])
    (fun x _ => by unfold opUnsetInput; split <;> simp)
    (fun p _ => by unfold opUnsetInput; split <;> simp)
    (fun p => by unfold opUnsetInput; split <;> simp [eraseDescend])
    (codeOf_opUnsetInput g i)

theorem removed_opUnsetAllInputs (g w : Nat) : Removed s (s.opUnsetAllInputs g) g w := by
  unfold opUnsetAllInputs
  generalize List.range _ = l
  induction l generalizing s with
  | nil =>
    exact .of_frame rfl (fun _ _ _ => rfl) (fun _ _ => rfl) (fun _ _ => rfl) (fun _ => rfl)
      (fun _ => rfl)
  | cons i l ih => exact (removed_opUnsetInput g i w).trans ih

/-- `opUninsert` takes `g` out of its block, which lists it once. -/
theorem removed_opUninsert (hnd : ∀ b, (s.block b).ops.Nodup) (w : Nat) :
    Removed s (s.opUninsert g) g w ∧ (s.opUninsert g).parentOf g = none := by
  unfold opUninsert
  split
  · rename_i b hb
    refine ⟨.mk (fun p hp j => by simp [getIn, inrefsOf, hp]) (fun x _ => by simp [bodyOf])
      (fun p hp => by simp [outputOf, hp]) (fun p hp => by simp [parentOf, hp])
      (fun p => ?_) (fun c => ?_) (fun c => ?_), by simp [parentOf]⟩
    · simp only [codeOf, op_modifyOp, op_modifyBlock]
      split_ifs with h <;> [subst h; skip] <;> cases s.op p <;> rfl
    · rw [block_modifyOp, block_modifyBlock]
      split_ifs with h
      · rw [h.1]
      · rfl
    · rw [block_modifyOp, block_modifyBlock]
      split_ifs with h
      · exact .inr (by rw [h.1]; exact (hnd b).erase_eq_filter g)
      · exact .inl rfl
  · exact ⟨.of_frame rfl (fun _ _ _ => rfl) (fun _ _ => rfl) (fun _ _ => rfl)
      (fun _ => rfl) (fun _ => rfl), by rename_i hb; simpa [parentOf] using hb⟩

/-- **`opDestroy` of an op whose output nobody reads** takes the op out of its block, frees the
output, and leaves the rest of the store as it was. -/
theorem opDestroy_removed {w : Nat} (hnd : ∀ b, (s.block b).ops.Nodup)
    (hout : s.outputOf g = some w) (hdef : s.defOf w = some g) (hread : s.descendOf w = []) :
    Removed s (s.opDestroy g) g w ∧ (s.opDestroy g).parentOf g = none := by
  have h₁ : Removed s (((s.setOutputField g none).destroyVn w).opUnsetAllInputs g) g w :=
    ((removed_setOutputField g w).trans (removed_destroyVn g w)).trans
      (removed_opUnsetAllInputs g w)
  unfold opDestroy destroyVarnode
  simp only [hout, hread, List.foldl_nil, hdef]
  split_ifs with hp
  · obtain ⟨h₂, hg⟩ := removed_opUninsert (h₁.nodup hnd) (g := g) w
    exact ⟨h₁.trans h₂, hg⟩
  · exact ⟨h₁, by simpa [parentOf] using hp⟩

/-! ### Removing an op in favour of one before it -/

/-- `totalReplace` keeps the blocks, and the placement, op-code and output of every op. -/
theorem totalReplace_frame (v w : Nat) : (s.totalReplace v w).bblocks = s.bblocks ∧
    (∀ p, (s.totalReplace v w).parentOf p = s.parentOf p) ∧
    (∀ p, (s.totalReplace v w).codeOf p = s.codeOf p) ∧
    ∀ p, (s.totalReplace v w).outputOf p = s.outputOf p := by
  unfold totalReplace
  generalize s.descendOf v = l
  induction l generalizing s with
  | nil => exact ⟨rfl, fun _ => rfl, fun _ => rfl, fun _ => rfl⟩
  | cons o l ih =>
    obtain ⟨hb, hp, hc, ho⟩ := ih (s := s.opSetInput o w (s.getSlot o v))
    exact ⟨hb.trans (bblocks_opSetInput ..), fun p => (hp p).trans (parentOf_opSetInput ..),
      fun p => (hc p).trans (codeOf_opSetInput ..), fun p => (ho p).trans (outputOf_opSetInput ..)⟩

variable (dom)

/-- What `cseRemove g k` leaves of `u` in `t`, where the output `wg` of `g` gave way to the
output `wk` of `k`: the linkage, blocks that list an op once, and every definition dominating
its reads; the placement of the ops other than `g`, with `g` out of its block; the reads of
`wg` now reads of `wk`, and every other slot, output and varnode body as it was. -/
structure Eliminated (u t : Funcdata) (g wg wk : Nat) : Prop where
  linked : Linked t
  nodup : ∀ b, (t.block b).ops.Nodup
  defs : t.DefsDominate dom
  kept : PlacementKept u t g
  parents : ∀ p ≠ g, t.parentOf p = u.parentOf p
  gone : t.parentOf g = none
  getIn : ∀ p < u.obank.length, p ≠ g → ∀ j,
    t.getIn p j = if u.getIn p j = some wg then some wk else u.getIn p j
  outputOf : ∀ p ≠ g, t.outputOf p = u.outputOf p
  bodyOf : ∀ x < u.vbank.length, x ≠ wg → t.bodyOf x = u.bodyOf x

variable {dom}

theorem ne_of_opDominates (hnd : ∀ b, (s.block b).ops.Nodup) (h : s.OpDominates dom a c) :
    a ≠ c := by
  rintro rfl
  obtain ⟨b, b', hb, hb', h⟩ := h
  obtain rfl := Option.some.inj (hb.symm.trans hb')
  rw [if_pos rfl] at h
  exact List.nodup_iff_sublist.mp (hnd b) a h

/-- **Removing an op in favour of one that comes before it keeps every definition dominating
its reads**: the reads of the removed op's output become reads of the kept op's, which the kept
op dominates since it comes before the removed op. -/
theorem cseRemove_spec (hT : DominatorTree n dom fcb) (h : Linked u)
    (hnd : ∀ b, (u.block b).ops.Nodup) (hD : u.DefsDominate dom) (hkg : u.OpDominates dom k g)
    {wg wk : Nat} (hwg : u.outputOf g = some wg) (hwk : u.outputOf k = some wk)
    (hc : ∀ x, u.vn wk = some x → x.isConstant = false) :
    Eliminated dom u (u.cseRemove g k) g wg wk := by
  rw [cseRemove, hwg, hwk, Option.getD_some, Option.getD_some]
  have hne := ne_of_opDominates hnd hkg
  have hdg : u.defOf wg = some g := (h.defs g wg).mpr hwg
  have hdk : u.defOf wk = some k := (h.defs k wk).mpr hwk
  have hw : wk ≠ wg := by rintro rfl; exact hne (Option.some.inj (hdk.symm.trans hdg))
  have hwkv := h.defs.vn_isSome hwk
  have hR := totalReplace_walk hw hwkv _ (ReadsRewritten.start h wg)
  have hl : Linked (u.totalReplace wg wk) := hR.linked
  have hbody : ∀ x < u.vbank.length, (u.totalReplace wg wk).bodyOf x = u.bodyOf x := hR.bodyOf
  have hTR := totalReplace_rewrites h hwkv hw
  obtain ⟨hb, hp, hcode, ho⟩ := totalReplace_frame (s := u) wg wk
  clear hR
  generalize u.totalReplace wg wk = u' at *
  obtain ⟨hr, hgone⟩ := opDestroy_removed (s := u') (g := g)
    (by intro b; rw [block, hb]; exact hnd b) (by rw [ho, hwg])
    (by rw [defOf_eq_of_bodyOf (hbody wg (lt_of_vn_isSome (h.defs.vn_isSome hwg))), hdg])
    hTR.readers
  have hk₁ : PlacementKept u u' g :=
    ⟨fun p _ _ => hp p, fun p _ _ => by rw [isPhi, isPhi, hcode], fun b => by rw [block, block, hb],
      fun b _ _ _ _ h => by rwa [block, hb]⟩
  have hkept := hk₁.trans hr.placementKept
  have hreads : ∀ p < u.obank.length, p ≠ g → ∀ j, (u'.opDestroy g).getIn p j =
      if u.getIn p j = some wg then some wk else u.getIn p j := by
    intro p hpl hpg j
    rw [hr.getIn p hpg j]
    split_ifs with hj
    · obtain ⟨w', hw', (rfl | ⟨x, hx, hxc, -⟩)⟩ := hTR.reads p j hj
      · exact hw'
      · rw [hc x hx] at hxc; cases hxc
    · exact hTR.other p hpl j hj
  have hbodies : ∀ x < u.vbank.length, x ≠ wg → (u'.opDestroy g).bodyOf x = u.bodyOf x :=
    fun x hx hxg => (hr.bodyOf x hxg).trans (hbody x hx)
  have hnd' : ∀ b, ((u'.opDestroy g).block b).ops.Nodup :=
    hr.nodup (by intro b; rw [block, hb]; exact hnd b)
  refine ⟨hl.opDestroy g, hnd', ?_, hkept, fun p hpg => (hr.parents p hpg).trans (hp p), hgone,
    hreads, fun p hpg => (hr.outputOf p hpg).trans (ho p),
    hbodies⟩
  intro p j x d hpt hx hd
  have hpg : p ≠ g := by rintro rfl; rw [hgone] at hpt; cases hpt
  have hpu : (u.parentOf p).isSome := by rw [← hp, ← hr.parents p hpg]; exact hpt
  rw [hreads p (lt_of_parentOf_isSome hpu) hpg] at hx
  split_ifs at hx with hj
  · obtain rfl := Option.some.inj hx
    have hwl := lt_of_vn_isSome hwkv
    rw [defOf_eq_of_bodyOf (hbodies _ hwl hw), hdk] at hd
    obtain rfl := Option.some.inj hd
    exact hkept.readDominated hne hpg ((hD p j wg g hpu hj hdg).of_opDominates hT hnd hkg)
  · have hxl := lt_of_vn_isSome (h.readers.vn_isSome hx)
    have hxg : x ≠ wg := by rintro rfl; exact hj hx
    rw [defOf_eq_of_bodyOf (hbodies x hxl hxg)] at hd
    have hdg' : d ≠ g := fun e =>
      hxg (Option.some.inj ((e ▸ (h.defs d x).mp hd : u.outputOf g = some x).symm.trans hwg))
    exact hkept.readDominated hdg' hpg (hD p j x d hpu hx hd)

/-! ### Building the copy -/

/-- The input loop of `cseBuild` from the store `s₀` where it starts, at a store `t`: the slots of
ops other than the copy `r`, the outputs, and the bodies of the varnodes of `s₀` are as they were,
`r` has its slots, and each varnode `r` reads has no definition or is what `op1` reads in that
slot. -/
structure CseInputs (s₀ t : Funcdata) (op1 r : Nat) : Prop where
  linked : Linked t
  vlen : s₀.vbank.length ≤ t.vbank.length
  getIn : ∀ p ≠ r, ∀ j, t.getIn p j = s₀.getIn p j
  outputOf : ∀ p, t.outputOf p = s₀.outputOf p
  bodyOf : ∀ x < s₀.vbank.length, t.bodyOf x = s₀.bodyOf x
  slotsLen : (t.inrefsOf r).length = (s₀.inrefsOf r).length
  slots : ∀ j x, t.getIn r j = some x → t.defOf x = none ∨ s₀.getIn op1 j = some x

/-- `opSetInput` of a varnode that is its own candidate writes it into the slot. -/
theorem getIn_opSetInput_self {w i : Nat} (hc : t.inputCandidate w = (t, w)) (o j : Nat) :
    (t.opSetInput o w i).getIn o j =
      if j = i ∧ i < (t.inrefsOf o).length then some w else t.getIn o j := by
  by_cases hne : t.getIn o i = some w
  · rw [Funcdata.opSetInput, if_pos hne]
    split_ifs with hj
    · rw [hj.1, hne]
    · rfl
  · rw [getIn_opSetInput hne, hc]; simp

/-- One slot of the copy set to a varnode `w` that is its own candidate, with `Good w` for the
slot's new reader: the slots of `r` still read varnodes without a definition or with `Good`. -/
theorem CseInputs.opSetInput {w i : Nat} (hI : CseInputs s₀ t op1 r) (hw : (t.vn w).isSome)
    (hi : i < (s₀.inrefsOf r).length) (hc : t.inputCandidate w = (t, w))
    (hgood : (t.opSetInput r w i).defOf w = none ∨ s₀.getIn op1 i = some w) :
    CseInputs s₀ (t.opSetInput r w i) op1 r := by
  have hi' : i < (t.inrefsOf r).length := hI.slotsLen ▸ hi
  refine ⟨hI.linked.opSetInput hw hi', hI.vlen.trans (length_vbank_opSetInput ..),
    fun p hp j => (getIn_opSetInput_of_ne hp j).trans (hI.getIn p hp j),
    fun p => (outputOf_opSetInput ..).trans (hI.outputOf p),
    fun x hx => (bodyOf_opSetInput (hx.trans_le hI.vlen) ..).trans (hI.bodyOf x hx),
    by rw [length_inrefsOf_opSetInput, hI.slotsLen], fun j x hx => ?_⟩
  rw [getIn_opSetInput_self hc] at hx
  split_ifs at hx with hj
  · obtain rfl := Option.some.inj hx
    obtain ⟨rfl, -⟩ := hj
    exact hgood
  · rw [defOf_eq_of_bodyOf
      (bodyOf_opSetInput (lt_of_vn_isSome (hI.linked.readers.vn_isSome hx)) ..)]
    exact hI.slots j x hx

theorem CseInputs.createVn (hI : CseInputs s₀ t op1 r) {y : Varnode} (hy : y.descend = [])
    (hd : y.defOp = none) : CseInputs s₀ (t.createVn y).1 op1 r :=
  ⟨hI.linked.createVn hy hd, hI.vlen.trans (by simp), fun p hp j => hI.getIn p hp j,
    fun p => hI.outputOf p,
    fun x hx => (bodyOf_createVn y (hx.trans_le hI.vlen)).trans (hI.bodyOf x hx),
    hI.slotsLen, fun j x hx => by
      rw [getIn_createVn] at hx
      rw [defOf_eq_of_bodyOf (bodyOf_createVn y (lt_of_vn_isSome (hI.linked.readers.vn_isSome hx)))]
      exact hI.slots j x hx⟩

/-- **One turn of the input loop**: slot `i` of the copy reads what slot `i` of `op1` reads, or a
new constant, which has no definition. -/
theorem CseInputs.step (hI : CseInputs s₀ t op1 r) (hr : op1 ≠ r) {i : Nat}
    (hi : i < (s₀.inrefsOf r).length) : CseInputs s₀ (cseSetInput op1 r t i) op1 r := by
  unfold cseSetInput
  rw [hI.getIn op1 hr i]
  cases hg : s₀.getIn op1 i with
  | none => exact hI
  | some w =>
    have hw : (t.vn w).isSome := hI.linked.readers.vn_isSome ((hI.getIn op1 hr i).trans hg)
    obtain ⟨x, hx⟩ := Option.isSome_iff_exists.mp hw
    simp only [hx]
    split_ifs with hxc
    · have hI' : CseInputs s₀ (t.newConstant x.size x.offset).1 op1 r := hI.createVn rfl rfl
      have hc : t.vbank.length < (t.newConstant x.size x.offset).1.vbank.length := by
        simp [newConstant]
      refine hI'.opSetInput (by simp [newConstant]) hi (by simp [inputCandidate, newConstant])
        (.inl ?_)
      rw [newConstant_snd, defOf_eq_of_bodyOf (bodyOf_opSetInput hc ..)]
      simp [newConstant, defOf_createVn]
    · exact hI.opSetInput hw hi (by simp [inputCandidate, hx, hxc]) (.inr hg)

theorem CseInputs.loop (hr : op1 ≠ r) : ∀ (l : List Nat) {t : Funcdata},
    (∀ i ∈ l, i < (s₀.inrefsOf r).length) → CseInputs s₀ t op1 r →
      CseInputs s₀ (l.foldl (cseSetInput op1 r) t) op1 r
  | [], _, _, hI => hI
  | i :: l, _, hl, hI => CseInputs.loop hr l (fun j hj => hl j (List.mem_cons_of_mem i hj))
      (hI.step hr (hl i (List.mem_cons_self i l)))

theorem placementKept_opInsert (o b k : Nat) : PlacementKept s (s.opInsert o b k) o where
  parents p hp _ := by rw [parentOf_opInsert, if_neg fun h => hp h.1]
  isPhi p _ _ := by rw [isPhi, isPhi, codeOf_opInsert]
  inEdges c := by
    rw [block_opInsert]
    split_ifs with h
    · rw [h.1]
    · rfl
  order c p q _ _ h := by
    rw [block_opInsert]
    split_ifs with hc
    · rw [hc.1] at h
      refine h.trans ?_
      conv_lhs => rw [← List.take_append_drop k (s.block b).ops]
      exact (List.sublist_cons_self o _).append_left _
    · exact h

/-- `opInsertEnd` puts `o` after every op of block `b` but a final flow break. -/
theorem sublist_opInsertEnd (hd : d ∈ (s.block b).ops) (hfl : (s.codeOf d).isFlowBreak = false)
    (hb : b < s.bblocks.length) (o : Nat) :
    List.Sublist [d, o] ((s.opInsertEnd o b).block b).ops := by
  unfold opInsertEnd
  rw [block_opInsert, if_pos ⟨rfl, hb⟩]
  generalize (s.block b).ops = ops at hd ⊢
  refine (List.singleton_sublist.mpr ?_).append
    (List.singleton_sublist.mpr (List.mem_cons_self o _))
  cases hl : ops.getLast? with
  | none => rw [List.getLast?_eq_none_iff.mp hl] at hd; cases hd
  | some l =>
    obtain ⟨init, rfl⟩ : ∃ init, ops = init ++ [l] := ⟨_, (List.dropLast_append_getLast? l hl).symm⟩
    dsimp only
    split_ifs with hfl'
    · rw [show (init ++ [l]).length - 1 = init.length by simp, List.take_left]
      rcases List.mem_append.mp hd with hd | hd
      · exact hd
      · rw [List.mem_singleton.mp hd, hfl'] at hfl; cases hfl
    · rw [List.take_length]; exact hd

/-- What `cseBuild` leaves of `s` in `u`, with the copy `r` of `op1` and its output `wr`: the
linkage and well-formed blocks; the placement of the ops of `s`, with `r` in block `common`
after every op there but a final flow break; `r`
with the op-code of `op1` and an output that is not a constant; the slots and outputs of the
other ops and the bodies of the varnodes of `s` as they were; and each varnode `r` reads without
a definition or read by `op1` in the same slot. -/
structure CseBuilt (s u : Funcdata) (op1 r common wr : Nat) : Prop where
  linked : Linked u
  wellFormed : u.BlocksWellFormed
  fresh : r = s.obank.length
  kept : PlacementKept s u r
  parents : ∀ p ≠ r, u.parentOf p = s.parentOf p
  parent : u.parentOf r = some common
  before : ∀ d, s.parentOf d = some common → (s.codeOf d).isFlowBreak = false →
    List.Sublist [d, r] (u.block common).ops
  code : u.codeOf r = s.codeOf op1
  output : u.outputOf r = some wr
  nonconst : ∀ x, u.vn wr = some x → x.isConstant = false
  getIn : ∀ p ≠ r, ∀ j, u.getIn p j = s.getIn p j
  outputOf : ∀ p ≠ r, u.outputOf p = s.outputOf p
  bodyOf : ∀ x < s.vbank.length, u.bodyOf x = s.bodyOf x
  slots : ∀ j x, u.getIn r j = some x → u.defOf x = none ∨ s.getIn op1 j = some x

/-- What `cseCopyShell` leaves of `s` in `t`: the linkage, the op `r` built outside the blocks
with the op-code of `a`, as many empty slots as `a` and an output `wr` that is not a constant,
and the slots and outputs of the other ops and the bodies of the varnodes of `s` as they were. -/
structure CopyShell (s t : Funcdata) (a r wr : Nat) : Prop where
  linked : Linked t
  built : Built s t r (s.codeOf a)
  fresh : r = s.obank.length
  inrefsOf : ∀ p ≠ r, t.inrefsOf p = s.inrefsOf p
  empty : ∀ j, t.getIn r j = none
  slotsLen : (t.inrefsOf r).length = (s.inrefsOf a).length
  outputOf : ∀ p ≠ r, t.outputOf p = s.outputOf p
  output : t.outputOf r = some wr
  nonconst : ∀ x, t.vn wr = some x → x.isConstant = false
  wlen : wr < t.vbank.length
  bodyOf : ∀ x < s.vbank.length, t.bodyOf x = s.bodyOf x

theorem cseCopyShell_spec (h : Linked s) (hwf : s.BlocksWellFormed) {w : Nat}
    (hout : s.outputOf a = some w) (hw : ∀ x, s.vn w = some x → x.isConstant = false)
    (pc : Address) :
    CopyShell s (s.cseCopyShell pc a).1 a (s.cseCopyShell pc a).2 s.vbank.length := by
  obtain ⟨y, hy⟩ := Option.isSome_iff_exists.mp (h.defs.vn_isSome hout)
  have har : a ≠ s.obank.length := Nat.ne_of_lt (lt_of_outputOf hout)
  unfold cseCopyShell
  dsimp only
  simp only [newOp_snd]
  rw [show (s.newOp (s.inrefsOf a).length pc).1.codeOf a = s.codeOf a by simp [newOp, codeOf, har]]
  have hk₂ := (built_newOp_max hwf (s.inrefsOf a).length pc).opSetOpcode hwf (s.codeOf a)
  have hl₂ := (h.newOp (s.inrefsOf a).length pc).opSetOpcode s.obank.length (s.codeOf a)
  have ho₂ : ∀ p, ((s.newOp (s.inrefsOf a).length pc).1.opSetOpcode s.obank.length
      (s.codeOf a)).outputOf p = if p = s.obank.length then none else s.outputOf p := by
    intro p; simp only [outputOf_opSetOpcode]; simp [newOp, outputOf]; split_ifs <;> simp
  have hi₂ : ∀ p, ((s.newOp (s.inrefsOf a).length pc).1.opSetOpcode s.obank.length
      (s.codeOf a)).inrefsOf p =
        if p = s.obank.length then List.replicate (s.inrefsOf a).length none else s.inrefsOf p := by
    intro p; rw [inrefsOf_opSetOpcode]; simp [newOp, inrefsOf]; split_ifs <;> simp
  have hv₂ : ((s.newOp (s.inrefsOf a).length pc).1.opSetOpcode s.obank.length
      (s.codeOf a)).vn = s.vn := rfl
  have hvb₂ : ((s.newOp (s.inrefsOf a).length pc).1.opSetOpcode s.obank.length
      (s.codeOf a)).vbank.length = s.vbank.length := rfl
  generalize (s.newOp (s.inrefsOf a).length pc).1.opSetOpcode s.obank.length (s.codeOf a) = s₂
    at hk₂ hl₂ ho₂ hi₂ hv₂ hvb₂ ⊢
  have hst : s₂.storageOf w = some (y.loc, y.size) := by simp [storageOf, hv₂, hy]
  rw [ho₂ a, if_neg har, hout, Option.some_bind, hst, Option.getD_some]
  have hr : (s₂.op s.obank.length).isSome := hk₂.live
  refine ⟨hl₂.newVarnodeOut hr (by rw [ho₂, if_pos rfl]) _ _, hk₂.newVarnodeOut hwf .., rfl,
    fun p hp => ?_, fun j => ?_, ?_, fun p hp => ?_, ?_, fun x hx => ?_, ?_, fun x hx => ?_⟩
  · simp [newVarnodeOut, hi₂, hp]
  · simp [newVarnodeOut, getIn, hi₂, List.getElem?_replicate]
  · simp [newVarnodeOut, hi₂]
  · simp [newVarnodeOut, outputOf_setOutputField, ho₂, hp]
  · simp [newVarnodeOut, outputOf_setOutputField, hr, hvb₂]
  · simp only [newVarnodeOut, vn_setOutputField, vn_createVn, hvb₂, if_pos rfl] at hx
    cases hx
    exact hw y hy
  · simp [newVarnodeOut, setOutputField, hvb₂]
  · simp [newVarnodeOut, bodyOf, hv₂, hvb₂, Nat.ne_of_lt hx]

theorem CseInputs.start (h : Linked s) (hr : ∀ j, s.getIn r j = none) : CseInputs s s a r :=
  ⟨h, le_rfl, fun _ _ _ => rfl, fun _ => rfl, fun _ _ => rfl, rfl,
    fun j x hx => by rw [hr j] at hx; cases hx⟩

theorem Built.foldl_cseSetInput (hwf : s.BlocksWellFormed) {code : OpCode} :
    ∀ (l : List Nat) {t : Funcdata}, Built s t r code → Built s (l.foldl (cseSetInput a r) t) r code
  | [], _, hc => hc
  | i :: l, t, hc => Built.foldl_cseSetInput hwf l (by
      unfold cseSetInput
      split
      · exact hc
      · split
        · split_ifs
          · exact (hc.createVn hwf _).opSetInput hwf _ _
          · exact hc.opSetInput hwf _ _
        · exact hc.opSetInput hwf _ _)

theorem nonconst_of_bodyOf {x : Nat} (hb : t.bodyOf x = s.bodyOf x)
    (hx : ∀ y, s.vn x = some y → y.isConstant = false) :
    ∀ y, t.vn x = some y → y.isConstant = false := by
  intro y hy
  cases hs : s.vn x with
  | none => simp [bodyOf, hy, hs] at hb
  | some z =>
    simp only [bodyOf, hy, hs, Option.map_some', Option.some.injEq, Varnode.body,
      Varnode.mk.injEq] at hb
    simpa [Varnode.isConstant, hb.1] using hx z hs

/-- **The copy `cseBuild` builds**: a new op at the end of block `c` with the op-code of `a`,
reading what `a` reads or new constants, with a new output that is not a constant, the rest of
the store as it was. -/
theorem cseBuild_spec (h : Linked s) (hwf : s.BlocksWellFormed) (hb : c < s.bblocks.length)
    (hm : (s.codeOf a).isMarker = false) (hfl : (s.codeOf a).isFlowBreak = false) {w : Nat}
    (hout : s.outputOf a = some w) (hw : ∀ x, s.vn w = some x → x.isConstant = false)
    (pc : Address) :
    CseBuilt s (s.cseBuild c pc a).1 a (s.cseBuild c pc a).2 c s.vbank.length := by
  have hS := cseCopyShell_spec h hwf hout hw pc
  unfold cseBuild
  generalize s.cseCopyShell pc a = sh at hS ⊢
  obtain ⟨t, r⟩ := sh
  dsimp only at hS ⊢
  have har : a ≠ r := hS.fresh ▸ Nat.ne_of_lt (lt_of_outputOf hout)
  have hI := CseInputs.loop har (List.range (t.inrefsOf a).length)
    (fun i hi => by rw [hS.slotsLen, ← hS.inrefsOf a har]; exact List.mem_range.mp hi)
    (CseInputs.start hS.linked hS.empty)
  have hB : Built s (List.foldl (cseSetInput a r) t (List.range (t.inrefsOf a).length)) r
      (s.codeOf a) := Built.foldl_cseSetInput hwf _ hS.built
  have hwf' := hB.opInsertEnd_wellFormed hwf hfl hm hb
  have hbefore : ∀ d, s.parentOf d = some c → (s.codeOf d).isFlowBreak = false →
      List.Sublist [d, r] (((List.foldl (cseSetInput a r) t
        (List.range (t.inrefsOf a).length)).opInsertEnd r c).block c).ops := fun d hd hfl' => by
    have hds : (s.parentOf d).isSome := by rw [hd]; rfl
    refine sublist_opInsertEnd ?_ (by rw [hB.kept.codeOf_eq hds]; exact hfl') (by
      rw [hB.kept.bblocks]; exact hb) r
    rw [block, hB.kept.bblocks]; exact ((hwf.parents d c).mp hd).2
  obtain ⟨k, hk⟩ : ∃ k,
      (List.foldl (cseSetInput a r) t (List.range (t.inrefsOf a).length)).opInsertEnd r c =
        (List.foldl (cseSetInput a r) t (List.range (t.inrefsOf a).length)).opInsert r c k :=
    ⟨_, rfl⟩
  rw [hk] at hwf' hbefore ⊢
  generalize List.foldl (cseSetInput a r) t (List.range (t.inrefsOf a).length) = t₄
    at hI hB hwf' hbefore ⊢
  have hgetIn : ∀ p ≠ r, ∀ j, t.getIn p j = s.getIn p j := fun p hp j => by
    simp only [getIn, hS.inrefsOf p hp]
  refine ⟨hI.linked.opInsert r c k, hwf'.1, hS.fresh, (hB.kept.placementKept r).trans
      (placementKept_opInsert r c k), fun p hp => by
        rw [parentOf_opInsert, if_neg fun e => hp e.1, hB.kept.parents],
      by rw [parentOf_opInsert, if_pos ⟨rfl, hB.live⟩], hbefore,
    by rw [codeOf_opInsert, hB.code], by rw [outputOf_opInsert, hI.outputOf, hS.output],
    nonconst_of_bodyOf (hI.bodyOf _ hS.wlen) hS.nonconst,
    fun p hp j => by rw [getIn_opInsert, hI.getIn p hp j, hgetIn p hp j],
    fun p hp => by rw [outputOf_opInsert, hI.outputOf, hS.outputOf p hp],
    fun x hx => (hI.bodyOf x (hx.trans hS.wlen)).trans (hS.bodyOf x hx), fun j x hx => ?_⟩
  rw [getIn_opInsert] at hx
  rw [← hgetIn a har j]
  exact hI.slots j x hx

/-! ### The ops `isCseMatch` pairs -/

/-- The outputs of the ops of `s`: varnodes that are not constants, and none for an op that
breaks the flow. -/
structure OutputsWellFormed (s : Funcdata) : Prop where
  nonconst : ∀ o w, s.outputOf o = some w → (s.vn w).any Varnode.isConstant = false
  flow : ∀ o, (s.codeOf o).isFlowBreak = true → s.outputOf o = none

variable (s) in
/-- `OutputsWellFormed`, computed over the ops of the bank. -/
def outputsCheck : Bool :=
  (List.range s.obank.length).all fun o => match s.outputOf o with
    | some w => !(s.codeOf o).isFlowBreak && !(s.vn w).any Varnode.isConstant
    | none => true

theorem OutputsWellFormed.of_check (h : s.outputsCheck = true) : s.OutputsWellFormed := by
  have hc : ∀ o w, s.outputOf o = some w →
      (s.codeOf o).isFlowBreak = false ∧ (s.vn w).any Varnode.isConstant = false := by
    intro o w hw
    have := List.all_eq_true.mp h o (List.mem_range.mpr (lt_of_outputOf hw))
    simpa [hw] using this
  refine ⟨fun o w hw => (hc o w hw).2, fun o hf => ?_⟩
  cases hw : s.outputOf o with
  | none => rfl
  | some w => rw [(hc o w hw).1] at hf; cases hf

theorem OutputsWellFormed.not_flowBreak (ho : s.OutputsWellFormed) (hw : s.outputOf o = some w) :
    (s.codeOf o).isFlowBreak = false := by
  cases hf : (s.codeOf o).isFlowBreak
  · rfl
  · rw [ho.flow o hf] at hw; cases hw

theorem nonconst_of_any (hx : (s.vn x).any Varnode.isConstant = false) :
    ∀ y, s.vn x = some y → y.isConstant = false := by
  intro y hy; simpa [hy] using hx

/-- A slot pair that `sameInput` accepts holds a varnode that is not a constant in both or in
neither. -/
theorem sameInput_iff {a b : Option Nat} (h : s.sameInput a b = true)
    (hx : (s.vn x).any Varnode.isConstant = false) : a = some x ↔ b = some x := by
  match a, b, h with
  | some a, some b, h =>
    simp only [sameInput, Bool.or_eq_true, beq_iff_eq, Bool.and_eq_true] at h
    rcases h with rfl | ⟨⟨ha, hb⟩, -⟩
    · rfl
    · simp only [Option.some.injEq]
      constructor <;> rintro rfl <;> simp_all
  | none, none, _ => rfl
  | some _, none, h => simp [sameInput] at h
  | none, some _, h => simp [sameInput] at h

variable {op1 op2 : Nat}

/-- What `isCseMatch` guarantees: the op-code of `op1` is that of `op2` and neither a marker nor a
flow break, both ops have outputs, and the two read the same varnodes other than constants, slot
by slot. -/
theorem isCseMatch_spec (hm : s.isCseMatch op1 op2 = true) :
    s.codeOf op2 = s.codeOf op1 ∧ (s.codeOf op1).isMarker = false ∧
      (s.codeOf op1).isFlowBreak = false ∧
      (∃ w1 w2, s.outputOf op1 = some w1 ∧ s.outputOf op2 = some w2) ∧
      ∀ j x, (s.vn x).any Varnode.isConstant = false →
        (s.getIn op1 j = some x ↔ s.getIn op2 j = some x) := by
  simp only [isCseMatch, Bool.and_eq_true, beq_iff_eq, Bool.not_eq_true', bne_iff_ne, ne_eq,
    List.all_eq_true, List.mem_range] at hm
  obtain ⟨⟨⟨⟨⟨⟨⟨⟨⟨⟨hc, hmk⟩, hfl⟩, -⟩, -⟩, -⟩, -⟩, -⟩, hout⟩, hlen⟩, hslots⟩ := hm
  refine ⟨hc.symm, hmk, hfl, ?_, fun j x hx => ?_⟩
  · revert hout
    cases s.outputOf op1 <;> cases s.outputOf op2 <;> simp
  · by_cases hj : j < (s.inrefsOf op1).length
    · exact sameInput_iff (hslots j hj) hx
    · have h1 : s.getIn op1 j = none := by simp [getIn, List.getElem?_eq_none (Nat.le_of_not_lt hj)]
      have h2 : s.getIn op2 j = none := by
        simp [getIn, List.getElem?_eq_none (hlen ▸ Nat.le_of_not_lt hj)]
      rw [h1, h2]

/-! ### The merge -/

theorem OpDominates.dom_of_parent (hT : DominatorTree n dom fcb) (h : s.OpDominates dom d p)
    {b : Nat} (hp : s.parentOf p = some b) : ∃ bd, s.parentOf d = some bd ∧ dom bd b := by
  obtain ⟨bd, b', hd, hp', h⟩ := h
  obtain rfl := Option.some.inj (hp.symm.trans hp')
  refine ⟨bd, hd, ?_⟩
  split_ifs at h with e
  · rw [e]; exact hT.refl _
  · exact h

/-- An op other than a `MULTIEQUAL` whose reads are dominated does not read its own output. -/
theorem not_reads_self (h : Linked s) (hnd : ∀ b, (s.block b).ops.Nodup)
    (hD : s.DefsDominate dom) (hp : (s.parentOf p).isSome) (hphi : s.isPhi p = false)
    {w : Nat} (hw : s.outputOf p = some w) (k : Nat) : s.getIn p k ≠ some w := fun hk =>
  ne_of_opDominates hnd ((hD p k w p hp hk ((h.defs p w).mpr hw)).2 hphi) rfl

/-- **The reads of the copy are dominated**: the definition of each varnode the copy reads
dominates the common block, so it comes before the copy at that block's end. -/
theorem CseBuilt.defsDominate (hB : CseBuilt s u a r c w) (h : Linked s)
    (ho : s.OutputsWellFormed) (hD : s.DefsDominate dom) (hm : (s.codeOf a).isMarker = false)
    (hdom : ∀ j x d, s.getIn a j = some x → s.defOf x = some d →
      ∃ bd, s.parentOf d = some bd ∧ dom bd c) : u.DefsDominate dom := by
  intro p j x d hp hx hd
  by_cases hpr : p = r
  · subst hpr
    rcases hB.slots j x hx with h0 | hs
    · rw [h0] at hd; cases hd
    rw [defOf_eq_of_bodyOf (hB.bodyOf x (lt_of_vn_isSome (h.readers.vn_isSome hs)))] at hd
    obtain ⟨bd, hbd, hdc⟩ := hdom j x d hs hd
    have hdp : d ≠ p := by
      rw [hB.fresh]; exact Nat.ne_of_lt (lt_of_outputOf ((h.defs d x).mp hd))
    have hphi : u.isPhi p = false := isPhi_of_codeOf hB.code hm
    refine ⟨fun e => absurd e (by rw [hphi]; decide), fun _ => ⟨bd, c,
      by rw [hB.parents d hdp, hbd], hB.parent, ?_⟩⟩
    split_ifs with hbc
    · subst hbc; exact hB.before d hbd (ho.not_flowBreak ((h.defs d x).mp hd))
    · exact hdc
  · have hps : (s.parentOf p).isSome := by rw [← hB.parents p hpr]; exact hp
    rw [hB.getIn p hpr j] at hx
    rw [defOf_eq_of_bodyOf (hB.bodyOf x (lt_of_vn_isSome (h.readers.vn_isSome hx)))] at hd
    have hdr : d ≠ r := by
      rw [hB.fresh]; exact Nat.ne_of_lt (lt_of_outputOf ((h.defs d x).mp hd))
    exact hB.kept.readDominated hdr hpr (hD p j x d hps hx hd)

/-- The three outcomes of `cseReplace` for two ops of blocks `b1` and `b2`: it keeps `op1`,
which comes before `op2`, or keeps `op2`, which comes before `op1`, or builds a copy of `op1` in
the common dominator, which is neither block. -/
theorem cseReplace_cases (hT : DominatorTree n dom fcb) (hwf : s.BlocksWellFormed)
    (hne : op1 ≠ op2) {b1 b2 : Nat} (h1 : s.parentOf op1 = some b1)
    (h2 : s.parentOf op2 = some b2) (getStop : Nat → Address) :
    (s.cseReplace fcb getStop op1 op2 = (s, op1) ∧ s.OpDominates dom op1 op2) ∨
      (s.cseReplace fcb getStop op1 op2 = (s, op2) ∧ s.OpDominates dom op2 op1) ∨
      (b1 ≠ b2 ∧ fcb b1 b2 ≠ b1 ∧ fcb b1 b2 ≠ b2 ∧
        s.cseReplace fcb getStop op1 op2 = s.cseBuild (fcb b1 b2) (getStop (fcb b1 b2)) op1) := by
  unfold cseReplace
  rw [h1, h2]
  simp only [Option.getD_some]
  split_ifs with hb hlt hc1 hc2
  · subst hb
    exact .inl ⟨rfl, b1, b1, h1, h2, by
      rw [if_pos rfl]; exact pair_sublist_of_indexOf_lt ((hwf.parents op2 b1).mp h2).2 hlt⟩
  · subst hb
    have hm1 := ((hwf.parents op1 b1).mp h1).2
    have hm2 := ((hwf.parents op2 b1).mp h2).2
    have hlt' : (s.block b1).ops.indexOf op2 < (s.block b1).ops.indexOf op1 :=
      lt_of_le_of_ne (Nat.le_of_not_lt hlt) fun e => hne ((List.indexOf_inj hm2 hm1).mp e).symm
    exact .inr (.inl ⟨rfl, b1, b1, h2, h1, by
      rw [if_pos rfl]; exact pair_sublist_of_indexOf_lt hm1 hlt'⟩)
  · exact .inl ⟨rfl, b1, b2, h1, h2, by rw [if_neg hb, ← hc1]; exact hT.common_right b1 b2⟩
  · exact .inr (.inl ⟨rfl, b2, b1, h2, h1, by
      rw [if_neg (Ne.symm hb), ← hc2]; exact hT.common_left b1 b2⟩)
  · exact .inr (.inr ⟨hb, hc1, hc2, rfl⟩)

theorem BlocksWellFormed.nodup_block (hwf : s.BlocksWellFormed) (b : Nat) :
    (s.block b).ops.Nodup := by
  by_cases hb : b < s.bblocks.length
  · exact hwf.nodup b hb
  · simp [block, List.getD_eq_getElem?_getD, List.getElem?_eq_none (Nat.le_of_not_lt hb)]

variable (dom)

/-- What `cseElimination op1 op2` leaves of `s` in `t`, keeping the op `r`: `r` is placed, and its
output is read by every former reader of the outputs of `op1` and `op2`, each of those reads and
each read of `r` dominated by its definition; whichever of `op1` and `op2` is not `r` is out of
its block; and every definition dominates its reads. -/
structure CseMerged (s t : Funcdata) (op1 op2 r : Nat) : Prop where
  output : ∃ w, t.outputOf r = some w ∧ t.defOf w = some r ∧
    ∀ p k, (s.parentOf p).isSome → (s.getIn p k = s.outputOf op1 ∨ s.getIn p k = s.outputOf op2) →
      t.getIn p k = some w ∧ t.ReadDominated dom r p k
  placed : (t.parentOf r).isSome
  inputs : ∀ k x d, t.getIn r k = some x → t.defOf x = some d → t.ReadDominated dom d r k
  gone1 : r ≠ op1 → t.parentOf op1 = none
  gone2 : r ≠ op2 → t.parentOf op2 = none
  defs : t.DefsDominate dom

variable {dom}

/-- `CseMerged` from the reads alone: the dominance facts follow from `DefsDominate`. -/
theorem CseMerged.of_reads {r w : Nat} (hl : Linked t) (hD : t.DefsDominate dom)
    (hw : t.outputOf r = some w) (hr : (t.parentOf r).isSome)
    (hreads : ∀ p k, (s.parentOf p).isSome →
      (s.getIn p k = s.outputOf op1 ∨ s.getIn p k = s.outputOf op2) →
        (t.parentOf p).isSome ∧ t.getIn p k = some w)
    (h1 : r ≠ op1 → t.parentOf op1 = none) (h2 : r ≠ op2 → t.parentOf op2 = none) :
    CseMerged dom s t op1 op2 r := by
  have hdw := (hl.defs r w).mpr hw
  refine ⟨⟨w, hw, hdw, fun p k hp hk => ?_⟩, hr, fun k x d hx hd => hD r k x d hr hx hd, h1, h2, hD⟩
  obtain ⟨hpt, hpk⟩ := hreads p k hp hk
  exact ⟨hpk, hD p k w r hpt hpk hdw⟩

theorem CseMerged.symm {r : Nat} (h : CseMerged dom s t op1 op2 r) : CseMerged dom s t op2 op1 r :=
  ⟨by obtain ⟨w, h₁, h₂, h₃⟩ := h.output; exact ⟨w, h₁, h₂, fun p k hp hk => h₃ p k hp hk.symm⟩,
    h.placed, h.inputs, h.gone2, h.gone1, h.defs⟩

/-- **One op removed in favour of the other**, which neither op reads. -/
theorem cseMerged_of_eliminated {g k wg wk : Nat} (h : Linked s) (E : Eliminated dom s t g wg wk)
    (hk : s.outputOf k = some wk) (hg : s.outputOf g = some wg) (hkg : k ≠ g)
    (hkp : (s.parentOf k).isSome) (hnr : ∀ j, s.getIn g j ≠ some wk ∧ s.getIn g j ≠ some wg) :
    CseMerged dom s t k g k := by
  refine .of_reads E.linked E.defs (by rw [E.outputOf k hkg, hk]) (by rwa [E.parents k hkg])
    (fun p j hp hj => ?_) (fun h => absurd rfl h) fun _ => E.gone
  rw [hk, hg] at hj
  have hpg : p ≠ g := by
    rintro rfl; rcases hj with hj | hj <;> [exact (hnr j).1 hj; exact (hnr j).2 hj]
  refine ⟨by rwa [E.parents p hpg], ?_⟩
  rw [E.getIn p (lt_of_parentOf_isSome hp) hpg]
  rcases hj with hj | hj
  · have hw : wk ≠ wg := fun e =>
      hkg (Option.some.inj (((h.defs k wk).mpr hk).symm.trans (e ▸ (h.defs g wg).mpr hg)))
    rw [if_neg (by rw [hj]; exact fun e => hw (Option.some.inj e)), hj]
  · rw [if_pos hj]

/-- **Both ops removed in favour of the copy** built at the end of the common dominator. -/
theorem cseMerged_of_built {u u₁ : Funcdata} {r c wr w1 w2 : Nat} (h : Linked s)
    (hB : CseBuilt s u op1 r c wr) (E₁ : Eliminated dom u u₁ op1 w1 wr)
    (E₂ : Eliminated dom u₁ t op2 w2 wr) (hw1 : s.outputOf op1 = some w1)
    (hw2 : s.outputOf op2 = some w2) (hne : op1 ≠ op2) (hr1 : r ≠ op1) (hr2 : r ≠ op2)
    (hnr : ∀ p j, (s.getIn p j = some w1 ∨ s.getIn p j = some w2) → p ≠ op1 ∧ p ≠ op2) :
    CseMerged dom s t op1 op2 r := by
  have hwr2 : wr ≠ w2 := fun e =>
    hr2 (Option.some.inj (((hB.linked.defs r wr).mpr hB.output).symm.trans
      (e ▸ (hB.linked.defs op2 w2).mpr (by rw [hB.outputOf op2 (Ne.symm hr2), hw2]))))
  have hw12 : w1 ≠ w2 := fun e =>
    hne (Option.some.inj (((h.defs op1 w1).mpr hw1).symm.trans (e ▸ (h.defs op2 w2).mpr hw2)))
  refine .of_reads E₂.linked E₂.defs (by rw [E₂.outputOf r hr2, E₁.outputOf r hr1, hB.output])
    (by rw [E₂.parents r hr2, E₁.parents r hr1, hB.parent]; rfl) (fun p j hp hj => ?_)
    (fun _ => by rw [E₂.parents op1 hne, E₁.gone]) fun _ => E₂.gone
  rw [hw1, hw2] at hj
  obtain ⟨hp1, hp2⟩ := hnr p j hj
  have hpr : p ≠ r := by rw [hB.fresh]; exact Nat.ne_of_lt (lt_of_parentOf_isSome hp)
  have hpu : (u.parentOf p).isSome := by rwa [hB.parents p hpr]
  have hpu₁ : (u₁.parentOf p).isSome := by rwa [E₁.parents p hp1]
  refine ⟨by rwa [E₂.parents p hp2], ?_⟩
  rw [E₂.getIn p (lt_of_parentOf_isSome hpu₁) hp2, E₁.getIn p (lt_of_parentOf_isSome hpu) hp1,
    hB.getIn p hpr]
  rcases hj with hj | hj <;> simp [hj, hwr2, Ne.symm hw12]

/-- **`cseElimination` keeps every definition dominating its reads.** For two distinct ops placed
in blocks, which `isCseMatch` judges to compute the same value, in a store whose definitions
dominate their reads, with dominance a dominator tree in which `findCommonBlock` gives the nearest
common dominator: the op `cseElimination` returns is placed, its output is read by every former
reader of the outputs of `op1` and `op2`, each of those reads and each read of the returned op is
dominated by its definition, whichever of `op1` and `op2` is not returned is out of its block,
and every definition still dominates its reads. -/
theorem cseElimination_dominates (hT : DominatorTree s.bblocks.length dom fcb) (h : Linked s)
    (hwf : s.BlocksWellFormed) (ho : s.OutputsWellFormed) (hD : s.DefsDominate dom)
    (hne : op1 ≠ op2) (h1 : (s.parentOf op1).isSome) (h2 : (s.parentOf op2).isSome)
    (hm : s.isCseMatch op1 op2 = true) (getStop : Nat → Address) :
    CseMerged dom s (s.cseElimination fcb getStop op1 op2).1 op1 op2
      (s.cseElimination fcb getStop op1 op2).2 := by
  obtain ⟨b1, hb1⟩ := Option.isSome_iff_exists.mp h1
  obtain ⟨b2, hb2⟩ := Option.isSome_iff_exists.mp h2
  obtain ⟨hc, hmk, hfl, ⟨w1, w2, hw1, hw2⟩, hsame⟩ := isCseMatch_spec hm
  have hnd := hwf.nodup_block
  have hphi1 : s.isPhi op1 = false := isPhi_of_codeOf rfl hmk
  have hphi2 : s.isPhi op2 = false := isPhi_of_codeOf hc hmk
  have hc1 := ho.nonconst op1 w1 hw1
  have hc2 := ho.nonconst op2 w2 hw2
  have hnr : ∀ p j, (s.getIn p j = some w1 ∨ s.getIn p j = some w2) → p ≠ op1 ∧ p ≠ op2 := by
    have n1 := not_reads_self h hnd hD h1 hphi1 hw1
    have n2 := not_reads_self h hnd hD h2 hphi2 hw2
    rintro p j hj
    constructor <;> rintro rfl <;> rcases hj with hj | hj
    · exact n1 j hj
    · exact n2 j ((hsame j w2 hc2).mp hj)
    · exact n1 j ((hsame j w1 hc1).mpr hj)
    · exact n2 j hj
  unfold cseElimination
  rcases cseReplace_cases hT hwf hne hb1 hb2 getStop with ⟨he, hd⟩ | ⟨he, hd⟩ | ⟨hb, hcb1, hcb2, he⟩
  · rw [he]; dsimp only
    rw [if_neg (not_not_intro rfl), if_pos hne]
    exact cseMerged_of_eliminated h (cseRemove_spec hT h hnd hD hd hw2 hw1 (nonconst_of_any hc1))
      hw1 hw2 hne h1 fun j =>
        ⟨fun e => (hnr op2 j (.inl e)).2 rfl, fun e => (hnr op2 j (.inr e)).2 rfl⟩
  · rw [he]; dsimp only
    rw [if_pos (Ne.symm hne), if_neg (not_not_intro rfl)]
    exact (cseMerged_of_eliminated h (cseRemove_spec hT h hnd hD hd hw1 hw2 (nonconst_of_any hc2))
      hw2 hw1 (Ne.symm hne) h2 fun j =>
        ⟨fun e => (hnr op1 j (.inr e)).1 rfl, fun e => (hnr op1 j (.inl e)).1 rfl⟩).symm
  · have hlt : fcb b1 b2 < s.bblocks.length := hT.common_lt ((hwf.parents op1 b1).mp hb1).1
      ((hwf.parents op2 b2).mp hb2).1
    have hB := cseBuild_spec h hwf hlt hmk hfl hw1 (nonconst_of_any hc1) (getStop (fcb b1 b2))
    rw [he]
    generalize s.cseBuild (fcb b1 b2) (getStop (fcb b1 b2)) op1 = ur at hB
    obtain ⟨u, r⟩ := ur
    dsimp only at hB ⊢
    have hr1 : r ≠ op1 := by rw [hB.fresh]; exact Nat.ne_of_gt (lt_of_parentOf_isSome h1)
    have hr2 : r ≠ op2 := by rw [hB.fresh]; exact Nat.ne_of_gt (lt_of_parentOf_isSome h2)
    rw [if_pos hr1, if_pos hr2]
    have hdom : ∀ j x d, s.getIn op1 j = some x → s.defOf x = some d →
        ∃ bd, s.parentOf d = some bd ∧ dom bd (fcb b1 b2) := by
      intro j x d hx hd
      have hxc := ho.nonconst d x ((h.defs d x).mp hd)
      obtain ⟨bd, hbd, hd1⟩ := ((hD op1 j x d h1 hx hd).2 hphi1).dom_of_parent hT hb1
      obtain ⟨bd', hbd', hd2⟩ :=
        ((hD op2 j x d h2 ((hsame j x hxc).mp hx) hd).2 hphi2).dom_of_parent hT hb2
      obtain rfl := Option.some.inj (hbd.symm.trans hbd')
      exact ⟨bd, hbd, hT.nearest hd1 hd2⟩
    have hDu := hB.defsDominate h ho hD hmk hdom
    have hndu := hB.wellFormed.nodup_block
    have hru : ∀ {o b}, o ≠ r → s.parentOf o = some b → fcb b1 b2 ≠ b → dom (fcb b1 b2) b →
        u.OpDominates dom r o := fun ho' hb' hcb hdom' =>
      ⟨_, _, hB.parent, by rw [hB.parents _ ho', hb'], by rw [if_neg hcb]; exact hdom'⟩
    have hwr : (u.vn s.vbank.length).isSome := hB.linked.defs.vn_isSome hB.output
    have E₁ := cseRemove_spec hT hB.linked hndu hDu (hru (Ne.symm hr1) hb1 hcb1
      (hT.common_left b1 b2)) (by rw [hB.outputOf op1 (Ne.symm hr1), hw1]) hB.output hB.nonconst
    have hwr1 : s.vbank.length ≠ w1 := Nat.ne_of_gt (lt_of_vn_isSome (h.defs.vn_isSome hw1))
    have E₂ := cseRemove_spec hT E₁.linked E₁.nodup E₁.defs
      (E₁.kept.opDominates hr1 (Ne.symm hne) (hru (Ne.symm hr2) hb2 hcb2 (hT.common_right b1 b2)))
      (by rw [E₁.outputOf op2 (Ne.symm hne), hB.outputOf op2 (Ne.symm hr2), hw2])
      (by rw [E₁.outputOf r hr1, hB.output])
      (nonconst_of_bodyOf (E₁.bodyOf _ (lt_of_vn_isSome hwr) hwr1) hB.nonconst)
    exact cseMerged_of_built h hB E₁ E₂ hw1 hw2 hne hr1 hr2 hnr

/-- One block holding two `INT_ADD`s of the same input and of two constants `1` (ops 0 and 1),
and a `COPY` of the second sum (op 2). -/
def cseBlock : Funcdata where
  glb := phiBranchBlock.glb
  vbank := [
    some { loc := ⟨⟨3, .processor, 0xffff, false, 1⟩, 0x10⟩, size := 4, descend := [0, 1],
           input := true },
    some { loc := ⟨phiBranchBlock.glb.constantSpace, 1⟩, size := 4, descend := [0] },
    some { loc := ⟨phiBranchBlock.glb.constantSpace, 1⟩, size := 4, descend := [1] },
    some { loc := ⟨phiBranchBlock.glb.uniqueSpace, 0x100⟩, size := 4, defOp := some 0 },
    some { loc := ⟨phiBranchBlock.glb.uniqueSpace, 0x104⟩, size := 4, defOp := some 1,
           descend := [2] },
    some { loc := ⟨phiBranchBlock.glb.uniqueSpace, 0x108⟩, size := 4, defOp := some 2 }]
  obank := [
    some { code := .intAdd, addr := codeAddr, inrefs := [some 0, some 1], output := some 3,
           parent := some 0 },
    some { code := .intAdd, addr := codeAddr, inrefs := [some 0, some 2], output := some 4,
           parent := some 0 },
    some { code := .copy, addr := codeAddr, inrefs := [some 4], output := some 5,
           parent := some 0 }]
  bblocks := [{ ops := [0, 1, 2] }]
  uniqId := 0x10c

theorem cseElimination_dominates_cseBlock :
    CseMerged (· ≤ ·) cseBlock (cseBlock.cseElimination min (fun _ => codeAddr) 0 1).1 0 1
      (cseBlock.cseElimination min (fun _ => codeAddr) 0 1).2 :=
  cseElimination_dominates (chain_dominatorTree _) (Linked.of_check (by decide))
    (BlocksWellFormed.of_check (by decide)) (OutputsWellFormed.of_check (by decide))
    (DefsDominate.of_check (fun a b => decide (a ≤ b)) (fun _ _ h => of_decide_eq_true h)
      (by decide)) (by decide) (by decide) (by decide) (by decide) _

/-- The first sum is kept, the `COPY` now reads its output, and the second sum is out of the
block. -/
example : (cseBlock.cseElimination min (fun _ => codeAddr) 0 1).2 = 0 ∧
    (cseBlock.cseElimination min (fun _ => codeAddr) 0 1).1.getIn 2 0 = some 3 ∧
    (cseBlock.cseElimination min (fun _ => codeAddr) 0 1).1.block 0 = { ops := [0, 2] } := by
  decide

end Funcdata

end GhidraDec
