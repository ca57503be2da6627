import GhidraDec.Funcdata.Lessequal
import GhidraDec.Funcdata.LinkageEdit

/-!
# Flipping a Boolean in Place

`opFlipInPlaceTest` traces a boolean — the condition of a `CBRANCH` or the output of a
comparison — back through `BOOL_AND`, `BOOL_OR` and `BOOL_NEGATE` trees whose inner values
each have a single reader, and collects the ops whose op-codes can be changed to negate
it. `opFlipInPlaceExecute` then changes them: a comparison becomes its negation from
`get_booleanflip`, with the operands swapped where the table says so, a `BOOL_NEGATE`
is dropped, and `AND` and `OR` are exchanged. A swapped `LESSEQUAL` form is handed to
`replaceLessequal`.

The recursion of `opFlipInPlaceTest` follows defining ops; it ends on the acyclic def
chains of SSA form. The model bounds it by `fuel`, and runs out of fuel as the source's
"no flip" answer `2`.

## Main results

* `opFlipInPlace_sless_bottom`: for `x <s #MIN` with a constant of one to seven bytes, the
  test accepts the flip, and the executed flip renormalizes `#MIN <=s x` through
  `replaceLessequal` into `#MAX <s x` — false for every `x`, like the comparison it was
  meant to negate.
-/

namespace GhidraDec

namespace Funcdata

variable (s : Funcdata)

/-- `Varnode::loneDescend`: the reader of a varnode with exactly one reader. -/
def loneDescend (v : Nat) : Option Nat :=
  match s.descendOf v with
  | [o] => some o
  | _ => none

/-- The defining op of input `i` of `o`, when that input has `o` as its only reader and is
written: the two conditions `opFlipInPlaceTest` checks before following an input. -/
def flipInput (o i : Nat) : Option Nat :=
  match s.getIn o i with
  | some v => if s.loneDescend v = some o then s.defOf v else none
  | none => none

/-- `opFlipInPlaceTest`: `0` if the flip normalizes, `1` if it is ambivalent, `2` if it does
not apply; the ops to flip are appended to `fliplist` in the order the source pushes
them. -/
def opFlipInPlaceTest : Nat → Nat → List Nat → Nat × List Nat
  | 0, _, fliplist => (2, fliplist)
  | fuel + 1, o, fliplist =>
    match s.codeOf o with
    | .cbranch =>
      match s.flipInput o 1 with
      | some d => opFlipInPlaceTest fuel d fliplist
      | none => (2, fliplist)
    | .intEqual | .floatEqual => (1, fliplist ++ [o])
    | .boolNegate | .intNotequal | .floatNotequal => (0, fliplist ++ [o])
    | .intSless | .intLess =>
      (if (s.constantIn o 0).isSome then 0 else 1, fliplist ++ [o])
    | .intSlessequal | .intLessequal =>
      (if (s.constantIn o 1).isSome then 1 else 0, fliplist ++ [o])
    | .boolOr | .boolAnd =>
      match s.flipInput o 0 with
      | none => (2, fliplist)
      | some d0 =>
        let (subtest1, fliplist) := opFlipInPlaceTest fuel d0 fliplist
        if subtest1 = 2 then (2, fliplist)
        else
          match s.flipInput o 1 with
          | none => (2, fliplist)
          | some d1 =>
            let (subtest2, fliplist) := opFlipInPlaceTest fuel d1 fliplist
            if subtest2 = 2 then (2, fliplist) else (subtest1, fliplist ++ [o])
    | _ => (2, fliplist)

/-- One op of `opFlipInPlaceExecute`. -/
def flipOp (o : Nat) : Except String Funcdata :=
  let (opc, flipyes) := getBooleanflip (s.codeOf o)
  if opc = .copy then
    match s.getIn o 0, s.outputOf o with
    | some vn, some out =>
      match s.loneDescend out with
      | some otherop => .ok ((s.opSetInput otherop vn (s.getSlot otherop out)).opDestroy o)
      | none => .ok s
    | _, _ => .ok s
  else if opc = .max then
    if s.codeOf o = .boolAnd then .ok (s.opSetOpcode o .boolOr)
    else if s.codeOf o = .boolOr then .ok (s.opSetOpcode o .boolAnd)
    else .error "Bad flipInPlace op"
  else
    let s := s.opSetOpcode o opc
    if flipyes then
      let s := s.opSwapInput o 0 1
      if opc = .intLessequal ∨ opc = .intSlessequal then .ok (s.replaceLessequal o).1 else .ok s
    else .ok s

/-- `opFlipInPlaceExecute`: flip the collected ops in order. -/
def opFlipInPlaceExecute (fliplist : List Nat) : Except String Funcdata :=
  fliplist.foldlM (fun s o => s.flipOp o) s

variable {s} {o : Nat}

theorem opFlipInPlaceTest_intSless (hcode : s.codeOf o = .intSless) (fuel : Nat)
    (fliplist : List Nat) :
    s.opFlipInPlaceTest (fuel + 1) o fliplist =
      (if (s.constantIn o 0).isSome then 0 else 1, fliplist ++ [o]) := by
  simp [opFlipInPlaceTest, hcode]

/-- Flipping `INT_SLESS`: op-code `INT_SLESSEQUAL`, operands swapped, then
`replaceLessequal`. -/
theorem flipOp_intSless (hcode : s.codeOf o = .intSless) :
    s.flipOp o =
      .ok (((s.opSetOpcode o .intSlessequal).opSwapInput o 0 1).replaceLessequal o).1 := by
  simp [flipOp, hcode, getBooleanflip]

/-- **The flip that does not negate.** For `x <s #MIN` with a constant of one to seven bytes
in slot 1, `opFlipInPlaceTest` accepts the flip, and after `opFlipInPlaceExecute` the op
computes `#MAX <s x`: false for every `x`, as the original comparison was, instead of its
negation. -/
theorem opFlipInPlace_sless_bottom (h : Linked s) {x : Varnode} (hcode : s.codeOf o = .intSless)
    (h0 : s.constantIn o 0 = none) (h1 : s.constantIn o 1 = some x)
    (hs : 1 ≤ x.size ∧ x.size < 8) (hoff : x.offset = 2 ^ (8 * x.size - 1)) (fuel : Nat) :
    s.opFlipInPlaceTest (fuel + 1) o [] = (1, [o]) ∧
      ∃ t, s.opFlipInPlaceExecute [o] = .ok t ∧ ∀ env,
        s.compareValue env x.size o = false ∧ t.compareValue env x.size o = false := by
  obtain ⟨v1, hv1, hx1, -⟩ := getIn_of_constantIn h1
  have hl : 1 < (s.inrefsOf o).length := lt_of_getIn hv1
  have hop : (s.op o).isSome := by
    by_contra hn; simp [getIn, inrefsOf, Option.not_isSome_iff_eq_none.mp hn] at hv1
  set s2 := (s.opSetOpcode o .intSlessequal).opSwapInput o 0 1 with hs2
  have hget : ∀ k, s2.getIn o k = if k = 1 then s.getIn o 0 else if k = 0 then s.getIn o 1
      else s.getIn o k := fun k => by
    rw [hs2, getIn_opSwapInput (by simpa using (by omega : 0 < (s.inrefsOf o).length))
      (by simpa using hl)]
    simp
  have hc2 : s2.codeOf o = .intSlessequal := by simp [hs2, codeOf_opSetOpcode hop]
  have hk0 : s2.constantIn o 0 = some x := by
    simpa [constantIn, hget, hs2] using h1
  have hlc : s2.lessequalConstant o = some (0, x, -1) := by
    unfold lessequalConstant; rw [hk0]
  have hadj := lessequalAdjust_bottom hs
  rw [← hoff] at hadj
  have h2 : ReadersMatch s2 :=
    ((h.opSetOpcode o .intSlessequal).opSwapInput
      (by simpa using (by omega : 0 < (s.inrefsOf o).length))
      (by simpa using hl)).readers
  have htrue : (s2.replaceLessequal o).2 = true := by
    unfold replaceLessequal; rw [hlc]; dsimp only; rw [hc2, hadj]
  obtain ⟨i, y, diff, code, res, hc, ha, hcode', hi, hj⟩ :=
    replaceLessequal_spec h2 (Prod.ext rfl htrue : s2.replaceLessequal o = (_, true))
  obtain ⟨rfl, hyx, rfl⟩ : i = 0 ∧ y = x ∧ diff = -1 := by simpa [hlc] using hc.symm
  have hxy := hyx.symm
  subst hxy
  rw [hc2, hadj] at ha
  obtain ⟨rfl, rfl⟩ := Prod.mk.inj (Option.some.inj ha).symm
  refine ⟨by simp [opFlipInPlaceTest_intSless hcode, h0], (s2.replaceLessequal o).1, ?_,
    fun env => ⟨?_, ?_⟩⟩
  · simp [opFlipInPlaceExecute, flipOp_intSless hcode, ← hs2]
  · have hb := toSigned_bounds hs.1 (s.slotValue env o 0)
    have hv : toSigned x.size x.offset = -((2 ^ (8 * x.size - 1) : Nat) : Int) := by
      rw [toSigned_of_lt hs.1 (by rw [hoff, two_pow_size_eq hs.1]; omega), hoff,
        if_neg (lt_irrefl _), two_pow_size_eq hs.1]
      push_cast; omega
    simp only [compareValue, hcode, evalCompare, slotValue_of_constantIn env h1,
      decide_eq_false_iff_not, not_lt, hv]
    omega
  · have hb := toSigned_bounds hs.1 (s2.slotValue env o 1)
    have hH1 : 1 ≤ 2 ^ (8 * x.size - 1) := Nat.one_le_two_pow
    have hv : toSigned x.size (2 ^ (8 * x.size - 1) - 1) =
        ((2 ^ (8 * x.size - 1) - 1 : Nat) : Int) := by
      rw [toSigned_of_lt hs.1 (by rw [two_pow_size_eq hs.1]; omega), if_pos (by omega)]
    simp only [compareValue, hcode', evalCompare, hi env, hj env 1 (by omega), hoff,
      decide_eq_false_iff_not, not_lt, hv]
    omega

/-- The failing input: `r <s #0x80` on a one-byte register `r`, false for every `r`, is
still false for every `r` after the flip. -/
theorem opFlipInPlace_sless_bottom_byte :
    (byteCompare .intSless 0x80).opFlipInPlaceTest 1 0 [] = (1, [0]) ∧
      ∃ t, (byteCompare .intSless 0x80).opFlipInPlaceExecute [0] = .ok t ∧ ∀ env,
        (byteCompare .intSless 0x80).compareValue env 1 0 = false ∧
          t.compareValue env 1 0 = false :=
  opFlipInPlace_sless_bottom (s := byteCompare .intSless 0x80) (o := 0)
    (x := { loc := ⟨⟨0, .constant, 2 ^ 64 - 1, false, 1⟩, 0x80⟩, size := 1, descend := [0] })
    (Linked.of_check (by decide)) rfl rfl rfl (by decide) rfl 0

end Funcdata

end GhidraDec
