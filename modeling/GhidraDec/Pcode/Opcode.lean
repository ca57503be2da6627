/-!
# P-code Op-codes

The op-codes of the p-code register-transfer language (`OpCode`, the `CPUI_*` constants of
the source), together with the classifications that the analysis core reads off an op-code:

* `OpCode.isFlowBreak` — the ops that end a basic block (`BRANCH`, `CBRANCH`, `BRANCHIND`,
  `RETURN`);
* `OpCode.isMarker` — the pseudo-ops `MULTIEQUAL` and `INDIRECT`, which never carry a
  constant input;
* `OpCode.isIndirectEffect` — the ops an `INDIRECT` guard may shadow (`CALL`, `CALLIND`,
  `STORE`);
* `getBooleanflip` — the negation table of the comparison op-codes.

`get_booleanflip` lives in `opcodes.cc`, which is not part of the sources; the table here is
the p-code negation table: `¬ (a == b)` is `a != b`, and `¬ (a < b)` is `b <= a`, with the
operands reordered.
-/

namespace GhidraDec

/-- The p-code op-codes, in the order of the source's `OpCode` enumeration. -/
inductive OpCode
  | copy | load | store | branch | cbranch | branchind | call | callind | callother | ret
  | intEqual | intNotequal | intSless | intSlessequal | intLess | intLessequal
  | intZext | intSext | intAdd | intSub | intCarry | intScarry | intSborrow
  | int2comp | intNegate | intXor | intAnd | intOr | intLeft | intRight | intSright
  | intMult | intDiv | intSdiv | intRem | intSrem
  | boolNegate | boolXor | boolAnd | boolOr
  | floatEqual | floatNotequal | floatLess | floatLessequal | floatNan
  | floatAdd | floatDiv | floatMult | floatSub | floatNeg | floatAbs | floatSqrt
  | floatInt2float | floatFloat2float | floatTrunc | floatCeil | floatFloor | floatRound
  | multiequal | indirect | piece | subpiece | cast | ptradd | ptrsub | segmentop
  | cpoolref | new | insert | extract | popcount | max
  deriving DecidableEq, Repr

namespace OpCode

/-- An op that ends its basic block: a branch of any kind or a return. -/
def isFlowBreak : OpCode → Bool
  | branch | cbranch | branchind | ret => true
  | _ => false

/-- The marker pseudo-ops, `MULTIEQUAL` and `INDIRECT` (`PcodeOp::isMarker`). -/
def isMarker : OpCode → Bool
  | multiequal | indirect => true
  | _ => false

/-- The ops whose side effects an `INDIRECT` guard records. -/
def isIndirectEffect : OpCode → Bool
  | call | callind | store => true
  | _ => false

/-- An effect op is neither a marker nor a flow break. -/
theorem isIndirectEffect_not {c : OpCode} (h : c.isIndirectEffect = true) :
    c.isMarker = false ∧ c.isFlowBreak = false := by
  cases c <;> simp_all [isIndirectEffect, isMarker, isFlowBreak]

end OpCode

/-- The boolean flip of an op-code (`get_booleanflip`): the op-code computing the negation,
and whether the two operands must be swapped. `COPY` stands for "drop the `BOOL_NEGATE`",
`MAX` for "no flip by op-code". -/
def getBooleanflip : OpCode → OpCode × Bool
  | .intEqual => (.intNotequal, false)
  | .intNotequal => (.intEqual, false)
  | .intSless => (.intSlessequal, true)
  | .intSlessequal => (.intSless, true)
  | .intLess => (.intLessequal, true)
  | .intLessequal => (.intLess, true)
  | .boolNegate => (.copy, false)
  | .floatEqual => (.floatNotequal, false)
  | .floatNotequal => (.floatEqual, false)
  | .floatLess => (.floatLessequal, true)
  | .floatLessequal => (.floatLess, true)
  | _ => (.max, false)

end GhidraDec
