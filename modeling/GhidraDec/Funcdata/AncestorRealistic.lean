import GhidraDec.Funcdata.ReaderWalk

/-!
# Realistic Ancestors of a Parameter

`AncestorRealistic::execute(op, slot, trial, allowFail)` (`funcdata_varnode.cc`) decides whether
the varnode that a `CALL`, `CALLIND` or `RETURN` reads in `slot` has a realistic source for a
parameter: a solid movement into it (a non-incidental `COPY`, a `LOAD`, arithmetic), as opposed to
a killed-by-call placeholder or an unaffected pass-through. It walks the ancestors depth first
with an explicit stack of `State`s, each an op and the slot it reads, and a command that is either
`enter_node` or one of four pops. Varnodes it visits are marked, so a cycle ends at a visited
varnode (a success), and the marks are cleared at the end. A `MULTIEQUAL` passes the pops of its
inputs to the flags of the state *beneath* it, and reads them once its last input is done.
`checkConditionalExe` then takes the in-edge of the solid movement from the `MULTIEQUAL`'s own
flags, which no pop marks, so it always looks at in-edge 1.

The walk is modelled faithfully below (`enterNode`, `uponPop`, `execute`), and beside it the
recursive classifier it implements (`visitVn`, `visitSlots`, `realistic`): the command that entering
a varnode delivers to the state reading it. The classifier is the walk's own recursion, shared flags
and in-edge 1 included; it is not a statement of what the walk is meant to decide. The flags of
varnodes and ops the walk reads (`op.hh`, `varnode.hh`) and the trial (`fspec.hh`) are outside the
sources: they are the parameters `AncestorFlags` and the structure `ParamTrial`. The mark bits are a
map threaded through the walk. Where the source would follow a null or dangling pointer the model
gives `none`, and the main loop is bounded by a fuel argument.

## Main results

* `visitVn_cases`, `visitSlots_cases`: what one round of the classifier can do;
* `visit_steps`: the explicit-stack walk simulates the recursive classifier, the flags of each
  `MULTIEQUAL` kept in the state beneath it, which sibling `MULTIEQUAL`s share;
* `visit_preserves`: a property of what the walk carries that marking and setting the trial keep
  holds after the classifier;
* `visitVn_clearMarks`: clearing the marks the classifier made gives back the bits on entry.

That the walk ends, and that `execute` then gives what `realistic` gives, is in
`GhidraDec.Funcdata.AncestorEnds`.
-/

namespace GhidraDec

/-- Modelled from the spec: the flags of a parameter trial (`ParamTrial`, `fspec.hh`, outside the
sources) that the walk reads or sets. -/
structure ParamTrial where
  killedByCall : Bool
  condExeEffect : Bool
  indCreateFormed : Bool := false
  deriving DecidableEq, Repr

/-- Modelled from the spec: the op flags (`PcodeOp::isCall`, `PcodeOp::isIndirectCreation`) and
varnode flags (`Varnode::isUnaffected` and the rest) that the walk reads, outside the store
model. -/
structure AncestorFlags where
  isCall : Nat → Bool
  isIndirectCreation : Nat → Bool
  isUnaffected : Nat → Bool
  isPersist : Nat → Bool
  isDirectWrite : Nat → Bool
  isIndirectZero : Nat → Bool
  isReturnAddress : Nat → Bool
  isIncidentalCopy : Nat → Bool

namespace AncestorRealistic

/-- The flags of a `State`: `seen_solid0`, `seen_solid1` and `seen_kill`. -/
structure Flags where
  solid0 : Bool := false
  solid1 : Bool := false
  kill : Bool := false
  deriving DecidableEq, Repr

namespace Flags

/-- `State::markSolid`. -/
def markSolid (f : Flags) (slot : Nat) : Flags :=
  if slot = 0 then { f with solid0 := true } else { f with solid1 := true }

/-- `State::markKill`. -/
def markKill (f : Flags) : Flags := { f with kill := true }

/-- `State::seenSolid`. -/
def seenSolid (f : Flags) : Bool := f.solid0 || f.solid1

/-- `State::seenKill`. -/
def seenKill (f : Flags) : Bool := f.kill

/-- `State::getSolidSlot`. -/
def getSolidSlot (f : Flags) : Nat := if f.solid0 then 0 else 1

end Flags

/-- `AncestorRealistic::State`: an op along the path, the slot it reads and the varnode there, and
its flags. -/
structure State where
  op : Nat
  vn : Option Nat
  slot : Nat
  flags : Flags := {}
  deriving DecidableEq, Repr

/-- The four pops of the traversal: `pop_success`, `pop_solid`, `pop_fail`, `pop_failkill`. -/
inductive Pop
  | success | solid | fail | failkill
  deriving DecidableEq, Repr

/-- The commands of the traversal: `enter_node`, or a pop. -/
inductive Command
  | enterNode
  | pop (p : Pop)
  deriving DecidableEq, Repr

/-- An `AncestorRealistic` during a walk: the trial, the state stack (top first), the varnodes
marked so far, the mark bits of all varnodes, the number of `MULTIEQUAL`s on the path and
`allowFailingPath`. -/
structure Walk where
  trial : ParamTrial
  stateStack : List State
  markedVn : List Nat
  marks : Nat → Bool
  multiDepth : Nat
  allowFailingPath : Bool

/-- The mark bits with the one of `v` set to `b`. -/
def setMark (marks : Nat → Bool) (v : Nat) (b : Bool) : Nat → Bool :=
  fun u => if u = v then b else marks u

/-- The mark bits once those of the varnodes marked by the walk are cleared. -/
def clearMarks (markedVn : List Nat) (marks : Nat → Bool) : Nat → Bool :=
  markedVn.foldl (fun m v => setMark m v false) marks

/-- What the defining op of a varnode just marked leads to: a pop at once, or its state pushed. -/
inductive Next
  | pop (p : Pop)
  | push

/-- What entering a varnode leads to: a visited or unwritten varnode pops at once; a written one is
marked and goes on with its defining op. -/
inductive Entry
  | pop (p : Pop)
  | written (d : Nat)

/-- What the walk carries besides its stack and depth: the trial, the varnodes marked so far and
the mark bits. -/
structure Visit where
  trial : ParamTrial
  markedVn : List Nat
  marks : Nat → Bool

/-- `AncestorRealistic::mark`, on what the walk carries. -/
def Visit.mark (ctx : Visit) (v : Nat) : Visit :=
  { ctx with markedVn := ctx.markedVn ++ [v], marks := setMark ctx.marks v true }

/-- The walk carrying `ctx`, with the state stack `stack` at depth `depth`. -/
def Visit.walk (ctx : Visit) (stack : List State) (depth : Nat) (allowFail : Bool) : Walk :=
  ⟨ctx.trial, stack, ctx.markedVn, ctx.marks, depth, allowFail⟩

/-- The mark bits of what the walk carries, from the bits `marks₀` on entry: those of `marks₀`
with the bits of the varnodes marked so far set, each of them clear on entry. -/
structure Visit.MarksFrom (marks₀ : Nat → Bool) (ctx : Visit) : Prop where
  marks : ∀ u, ctx.marks u = (marks₀ u || decide (u ∈ ctx.markedVn))
  fresh : ∀ u ∈ ctx.markedVn, marks₀ u = false

theorem Visit.MarksFrom.mark {marks₀ : Nat → Bool} {ctx : Visit} {v : Nat} (t : ParamTrial)
    (h : ctx.MarksFrom marks₀) (hv : ctx.marks v = false) :
    ({ ctx.mark v with trial := t } : Visit).MarksFrom marks₀ where
  marks u := by
    by_cases hu : u = v
    · subst hu; simp [Visit.mark, setMark]
    · simp [Visit.mark, setMark, hu, h.marks u]
  fresh u hu := by
    rcases List.mem_append.mp hu with hu | hu
    · exact h.fresh u hu
    · rw [List.mem_singleton.mp hu]
      exact (Bool.or_eq_false_iff.mp ((h.marks v).symm.trans hv)).1

theorem clearMarks_apply (l : List Nat) (m : Nat → Bool) (u : Nat) :
    clearMarks l m u = (!decide (u ∈ l) && m u) := by
  induction l generalizing m with
  | nil => simp [clearMarks]
  | cons a l ih =>
    simp only [clearMarks, List.foldl_cons] at ih ⊢
    rw [ih]
    by_cases hu : u = a <;> simp [setMark, hu]

/-- Clearing the bits of the varnodes marked so far gives back the bits on entry. -/
theorem Visit.MarksFrom.clearMarks_eq {marks₀ : Nat → Bool} {ctx : Visit}
    (h : ctx.MarksFrom marks₀) : clearMarks ctx.markedVn ctx.marks = marks₀ := by
  funext u
  rw [clearMarks_apply, h.marks u]
  by_cases hu : u ∈ ctx.markedVn
  · simp [hu, h.fresh u hu]
  · simp [hu]


end AncestorRealistic

namespace Funcdata

open AncestorRealistic

variable (s : Funcdata) (fl : AncestorFlags)

/-- `State(o, i)`: op `o` reading slot `i`, no flag set. -/
def newState (o i : Nat) : State := { op := o, vn := s.getIn o i, slot := i }

/-- The loop of `enterNode` down a chain of `COPY`s and `SUBPIECE`s through their first input (the
`do … while`), from op `o`: a fail at an unmarked input varnode that is unaffected or not
direct-write, solid once the chain leaves the `COPY`s and `SUBPIECE`s. The loop ends within as many
rounds as there are ops when no chain of copies is a cycle (`AncestorReady.copyChain_isSome`), and
never on a cycle (`execute_copy_cycle`). -/
def copyChain (marks : Nat → Bool) : Nat → Nat → Option Pop
  | 0, _ => none
  | fuel + 1, o => do
    let v ← s.getIn o 0
    let x ← s.vn v
    if !marks v && x.input && (fl.isUnaffected v || !fl.isDirectWrite v) then return .fail
    match x.defOp with
    | some d =>
      if s.codeOf d = .copy ∨ s.codeOf d = .subpiece then copyChain marks fuel d
      else return .solid
    | none => return .solid

/-- The first part of `AncestorRealistic::enterNode`, on the varnode `v`: a visited varnode is a
success; an unwritten input fails when unaffected, succeeds when persistent, fails when not
direct-write, and any other unwritten varnode succeeds; a written one goes on with its defining
op. -/
def enterVn (marks : Nat → Bool) (v : Nat) : Option Entry := do
  if marks v then return .pop .success
  let x ← s.vn v
  match x.defOp with
  | none =>
    if x.input then
      if fl.isUnaffected v then return .pop .fail
      if fl.isPersist v then return .pop .success
      if !fl.isDirectWrite v then return .pop .fail
    return .pop .success
  | some d => return .written d

/-- The rest of `AncestorRealistic::enterNode`, on the defining op `d` of the varnode just marked,
with the mark bits `marks` and the trial: an indirect creation sets the trial's flag and fails
with a kill on the indirect zero, succeeds otherwise; an `INDIRECT` through a call fails at the
return address or for a trial likely killed by call, and is pushed otherwise; an incidental
`COPY` or `SUBPIECE` is pushed and any other follows `copyChain`; a `MULTIEQUAL` is pushed; and any
other op is solid. -/
def defNext (marks : Nat → Bool) (trial : ParamTrial) (d : Nat) : Option (ParamTrial × Next) :=
  match s.codeOf d with
  | .indirect => do
    if fl.isIndirectCreation d then
      let i0 ← s.getIn d 0
      return ({ trial with indCreateFormed := true },
        .pop (if fl.isIndirectZero i0 then .failkill else .success))
    let indop ← s.iopTarget d
    if fl.isCall indop then
      let out ← s.outputOf d
      if fl.isReturnAddress out || trial.killedByCall then return (trial, .pop .fail)
    return (trial, .push)
  | .copy | .subpiece => do
    let out ← s.outputOf d
    let xo ← s.vn out
    let i0 ← s.getIn d 0
    let x0 ← s.vn i0
    if xo.loc.space.type = .internal ∨ xo.loc = x0.loc ∨ fl.isIncidentalCopy i0 = true then
      return (trial, .push)
    let p ← s.copyChain fl marks s.obank.length d
    return (trial, .pop p)
  | .multiequal => some (trial, .push)
  | _ => some (trial, .pop .solid)

/-- `AncestorRealistic::enterNode` on the state `st` on top: a written varnode is marked, and the
state of its defining op is pushed (a `MULTIEQUAL` one level deeper) unless it decides at once. -/
def enterNode (w : Walk) (st : State) : Option (Walk × Command) := do
  let v ← st.vn
  match ← s.enterVn fl w.marks v with
  | .pop p => return (w, .pop p)
  | .written d =>
    let marks := setMark w.marks v true
    let (trial, next) ← s.defNext fl marks w.trial d
    let w := { w with trial, markedVn := w.markedVn ++ [v], marks }
    match next with
    | .pop p => return (w, .pop p)
    | .push =>
      if s.codeOf d = .multiequal then
        return ({ w with stateStack := s.newState d 0 :: w.stateStack,
                         multiDepth := w.multiDepth + 1 }, .enterNode)
      else return ({ w with stateStack := s.newState d 0 :: w.stateStack }, .enterNode)

/-- Modelled from the spec: the number of out-edges of block `b` (`FlowBlock::sizeOut`), the
in-edges of all blocks that come from `b`. -/
def sizeOut (b : Nat) : Nat := (s.bblocks.flatMap fun bl => bl.inEdges).count b

/-- `AncestorRealistic::checkConditionalExe`: the block of the `MULTIEQUAL` of `st` has two
in-edges, and the one the flags of `st` name as solid comes from a block with one out-edge. -/
def checkConditionalExe (st : State) : Option Bool := do
  let b ← s.parentOf st.op
  let bl := s.block b
  if bl.inEdges.length ≠ 2 then return false
  let solidBlock ← bl.inEdges[st.flags.getSolidSlot]?
  return s.sizeOut solidBlock = 1

/-- The flags of the state beneath the `MULTIEQUAL` state `st` after the pop `p` of its input, at
`MULTIEQUAL` depth `depth`: a solid at the outermost two-input `MULTIEQUAL` is marked, a failkill
anywhere. -/
def phiFlags (p : Pop) (depth : Nat) (st : State) (prev : Flags) : Flags :=
  if p = .solid ∧ depth = 1 ∧ (s.inrefsOf st.op).length = 2 then prev.markSolid st.slot
  else if p = .failkill then prev.markKill else prev

/-- The pop of the `MULTIEQUAL` state `st` once its inputs are all done, from the flags `prev` of
the state beneath it: solid movement is a success, unless a kill was seen too, which fails unless
conditional execution explains it (the trial is then slated for retesting); a kill alone is a
failkill, and neither is a success. -/
def phiResult (allowFail : Bool) (trial : ParamTrial) (prev : Flags) (st : State) :
    Option (ParamTrial × Pop) :=
  if prev.seenSolid then
    if prev.seenKill then
      if allowFail then do
        let ok ← s.checkConditionalExe st
        return if ok then ({ trial with condExeEffect := true }, .success) else (trial, .fail)
      else some (trial, .fail)
    else some (trial, .success)
  else if prev.seenKill then some (trial, .failkill) else some (trial, .success)

/-- `AncestorRealistic::uponPop` on the state on top with the pop `p`: a state other than a
`MULTIEQUAL` is popped and passes `p` on; a `MULTIEQUAL` fails at once on a fail, otherwise records
`p` in the state beneath it and enters its next input, or pops with `phiResult` after its last. -/
def uponPop (w : Walk) (p : Pop) : Option (Walk × Command) :=
  match w.stateStack with
  | [] => none
  | st :: rest =>
    if s.codeOf st.op = .multiequal then
      match rest with
      | [] => none
      | prev :: rest' =>
        if p = .fail then
          some ({ w with multiDepth := w.multiDepth - 1, stateStack := rest }, .pop p)
        else
          let prev := { prev with flags := s.phiFlags p w.multiDepth st prev.flags }
          let st := { st with slot := st.slot + 1 }
          if st.slot = (s.inrefsOf st.op).length then do
            let (trial, p) ← s.phiResult w.allowFailingPath w.trial prev.flags st
            return ({ w with trial, multiDepth := w.multiDepth - 1, stateStack := prev :: rest' },
              .pop p)
          else
            some ({ w with stateStack := { st with vn := s.getIn st.op st.slot } :: prev :: rest' },
              .enterNode)
    else some ({ w with stateStack := rest }, .pop p)

/-- One round of the loop of `execute`. -/
def ancestorStep (w : Walk) : Command → Option (Walk × Command)
  | .enterNode => do
    let st ← w.stateStack.head?
    s.enterNode fl w st
  | .pop p => s.uponPop w p

/-- The loop of `execute`, until the state stack is empty. -/
def ancestorLoop : Nat → Walk → Command → Option (Walk × Command)
  | 0, _, _ => none
  | fuel + 1, w, c =>
    if w.stateStack = [] then some (w, c)
    else (s.ancestorStep fl w c).bind fun (w, c) => ancestorLoop fuel w c

/-- `AncestorRealistic::execute(op, slot, t, allowFail)` from the mark bits `marks`: whether the
varnode in the slot has realistic ancestors, with the trial and the mark bits the walk leaves. A
parameter that is itself an input is rejected at once unless the trial is being retested. -/
def execute (fuel op slot : Nat) (t : ParamTrial) (allowFail : Bool) (marks : Nat → Bool) :
    Option (Bool × ParamTrial × (Nat → Bool)) := do
  let v ← s.getIn op slot
  let x ← s.vn v
  if x.input && !t.condExeEffect then return (false, t, marks)
  let (w, c) ←
    s.ancestorLoop fl fuel ⟨t, [s.newState op slot], [], marks, 0, allowFail⟩ .enterNode
  return (c == .pop .success || c == .pop .solid, w.trial, clearMarks w.markedVn w.marks)

/-! ### The recursive classifier -/

mutual

/-- The recursive classifier: the pop that entering the varnode of the state `st` delivers to
`st`, at `MULTIEQUAL` depth `depth`, with the flags of `st` then (a `MULTIEQUAL` writing the
varnode records the pops of its inputs there). -/
def visitVn (allowFail : Bool) : Nat → Visit → State → Nat → Option (Visit × Flags × Pop)
  | 0, _, _, _ => none
  | fuel + 1, ctx, st, depth => do
    let v ← st.vn
    match ← s.enterVn fl ctx.marks v with
    | .pop p => return (ctx, st.flags, p)
    | .written d =>
      let (trial, next) ← s.defNext fl (setMark ctx.marks v true) ctx.trial d
      let ctx := { ctx.mark v with trial }
      match next with
      | .pop p => return (ctx, st.flags, p)
      | .push =>
        if s.codeOf d = .multiequal then
          visitSlots allowFail fuel ctx (s.newState d 0) st.flags (depth + 1)
        else do
          let (ctx, _, p) ← visitVn allowFail fuel ctx (s.newState d 0) depth
          return (ctx, st.flags, p)

/-- The inputs of the `MULTIEQUAL` of the state `ph`, from its slot on, at `MULTIEQUAL` depth
`depth`, with `prev` the flags of the state beneath it: a fail fails at once; otherwise each pop is
recorded in `prev`, and after the last input the `MULTIEQUAL` pops with `phiResult`. -/
def visitSlots (allowFail : Bool) :
    Nat → Visit → State → Flags → Nat → Option (Visit × Flags × Pop)
  | 0, _, _, _, _ => none
  | fuel + 1, ctx, ph, prev, depth => do
    let (ctx, f, p) ← visitVn allowFail fuel ctx ph depth
    if p = .fail then return (ctx, prev, .fail)
    let prev := s.phiFlags p depth ph prev
    let ph := { ph with flags := f, slot := ph.slot + 1 }
    if ph.slot = (s.inrefsOf ph.op).length then
      let (trial, p) ← s.phiResult allowFail ctx.trial prev ph
      return ({ ctx with trial }, prev, p)
    visitSlots allowFail fuel ctx { ph with vn := s.getIn ph.op ph.slot } prev depth

end

/-- What `execute` computes, by the recursive classifier: whether the varnode in the slot has
realistic ancestors, with the trial and the mark bits left. -/
def realistic (fuel op slot : Nat) (t : ParamTrial) (allowFail : Bool) (marks : Nat → Bool) :
    Option (Bool × ParamTrial × (Nat → Bool)) := do
  let v ← s.getIn op slot
  let x ← s.vn v
  if x.input && !t.condExeEffect then return (false, t, marks)
  let (ctx, _, p) ← s.visitVn fl allowFail fuel ⟨t, [], marks⟩ (s.newState op slot) 0
  return (p == .success || p == .solid, ctx.trial, clearMarks ctx.markedVn ctx.marks)

/-- One round of the loop of `execute`, from a walk with states left. -/
def Moves (a b : Walk × Command) : Prop :=
  a.1.stateStack ≠ [] ∧ s.ancestorStep fl a.1 a.2 = some b

section Proofs

variable {s fl}

/-! ### One round of the classifier -/

theorem enterVn_written {m : Nat → Bool} {v d : Nat} (h : s.enterVn fl m v = some (.written d)) :
    m v = false ∧ s.defOf v = some d := by
  cases hm : m v
  · cases hx : s.vn v with
    | none => simp [enterVn, hm, hx] at h
    | some x =>
      cases hd : x.defOp
      · simp [enterVn, hm, hx, hd] at h
        split_ifs at h <;> simp at h
      · simp [enterVn, hm, hx, hd] at h
        simp [defOf, hx, hd, h]
  · simp [enterVn, hm] at h

section Classifier

variable {allowFail : Bool} {n depth : Nat} {ctx : Visit} {st : State} {v d : Nat} {t : ParamTrial}

section Rounds

variable (hv : st.vn = some v)
include hv

theorem visitVn_succ_pop {p : Pop} (he : s.enterVn fl ctx.marks v = some (.pop p)) :
    s.visitVn fl allowFail (n + 1) ctx st depth = some (ctx, st.flags, p) := by
  simp [visitVn, hv, he]

variable (he : s.enterVn fl ctx.marks v = some (.written d))
include he

theorem visitVn_succ_written_pop {p : Pop}
    (hd : s.defNext fl (setMark ctx.marks v true) ctx.trial d = some (t, .pop p)) :
    s.visitVn fl allowFail (n + 1) ctx st depth =
      some ({ ctx.mark v with trial := t }, st.flags, p) := by
  simp [visitVn, hv, he, hd]

theorem visitVn_succ_phi
    (hd : s.defNext fl (setMark ctx.marks v true) ctx.trial d = some (t, .push))
    (hm : s.codeOf d = .multiequal) :
    s.visitVn fl allowFail (n + 1) ctx st depth =
      s.visitSlots fl allowFail n { ctx.mark v with trial := t } (s.newState d 0) st.flags
        (depth + 1) := by
  simp [visitVn, hv, he, hd, hm]

theorem visitVn_succ_push
    (hd : s.defNext fl (setMark ctx.marks v true) ctx.trial d = some (t, .push))
    (hm : s.codeOf d ≠ .multiequal) :
    s.visitVn fl allowFail (n + 1) ctx st depth =
      (s.visitVn fl allowFail n { ctx.mark v with trial := t } (s.newState d 0) depth).map
        fun r => (r.1, st.flags, r.2.2) := by
  simp only [visitVn, hv, he, hd, hm, Option.some_bind, Option.bind_eq_bind, if_false]
  rw [Option.map_eq_bind]
  rfl

end Rounds

/-- What one round of `visitVn` can do. -/
theorem visitVn_cases {r : Visit × Flags × Pop}
    (h : s.visitVn fl allowFail (n + 1) ctx st depth = some r) :
    ∃ v, st.vn = some v ∧
      ((∃ p, s.enterVn fl ctx.marks v = some (.pop p) ∧ r = (ctx, st.flags, p)) ∨
        ∃ d t, s.enterVn fl ctx.marks v = some (.written d) ∧
          ((∃ p, s.defNext fl (setMark ctx.marks v true) ctx.trial d = some (t, .pop p) ∧
              r = ({ ctx.mark v with trial := t }, st.flags, p)) ∨
            s.defNext fl (setMark ctx.marks v true) ctx.trial d = some (t, .push) ∧
              (s.codeOf d = .multiequal ∧ s.visitSlots fl allowFail n
                  { ctx.mark v with trial := t } (s.newState d 0) st.flags (depth + 1) = some r ∨
                s.codeOf d ≠ .multiequal ∧ ∃ ctx₂ f₂ p₂, s.visitVn fl allowFail n
                  { ctx.mark v with trial := t } (s.newState d 0) depth = some (ctx₂, f₂, p₂) ∧
                  r = (ctx₂, st.flags, p₂)))) := by
  obtain ⟨v, hv⟩ : ∃ v, st.vn = some v :=
    Option.ne_none_iff_exists'.mp fun hn => by simp [visitVn, hn] at h
  refine ⟨v, hv, ?_⟩
  cases he : s.enterVn fl ctx.marks v with
  | none => simp [visitVn, hv, he] at h
  | some e =>
  cases e with
  | pop p => exact .inl ⟨p, rfl, (Option.some.inj ((visitVn_succ_pop hv he).symm.trans h)).symm⟩
  | written d =>
  cases hd : s.defNext fl (setMark ctx.marks v true) ctx.trial d with
  | none => simp [visitVn, hv, he, hd] at h
  | some tn =>
  obtain ⟨t, p | _⟩ := tn
  · exact .inr ⟨d, t, rfl, .inl ⟨p, hd,
      (Option.some.inj ((visitVn_succ_written_pop hv he hd).symm.trans h)).symm⟩⟩
  refine .inr ⟨d, t, rfl, .inr ⟨hd, ?_⟩⟩
  by_cases hm : s.codeOf d = .multiequal
  · exact .inl ⟨hm, (visitVn_succ_phi hv he hd hm).symm.trans h⟩
  · rw [visitVn_succ_push hv he hd hm] at h
    obtain ⟨⟨ctx₂, f₂, p₂⟩, h₂, rfl⟩ := Option.map_eq_some'.mp h
    exact .inr ⟨hm, ctx₂, f₂, p₂, h₂, rfl⟩

section Slots

variable {ph : State} {prev : Flags} {ctx₁ : Visit} {f₁ : Flags} {p₁ : Pop}

theorem visitSlots_succ_fail (h₁ : s.visitVn fl allowFail n ctx ph depth = some (ctx₁, f₁, .fail)) :
    s.visitSlots fl allowFail (n + 1) ctx ph prev depth = some (ctx₁, prev, .fail) := by
  simp [visitSlots, h₁]

variable (h₁ : s.visitVn fl allowFail n ctx ph depth = some (ctx₁, f₁, p₁)) (hp : p₁ ≠ .fail)
include h₁ hp

theorem visitSlots_succ_last (hl : ph.slot + 1 = (s.inrefsOf ph.op).length) :
    s.visitSlots fl allowFail (n + 1) ctx ph prev depth =
      (s.phiResult allowFail ctx₁.trial (s.phiFlags p₁ depth ph prev)
        { ph with flags := f₁, slot := ph.slot + 1 }).map
        fun r => ({ ctx₁ with trial := r.1 }, s.phiFlags p₁ depth ph prev, r.2) := by
  simp only [visitSlots, h₁, hp, hl, Option.some_bind, Option.bind_eq_bind, if_false, if_true,
    Option.pure_def]
  rw [Option.map_eq_bind]
  rfl

theorem visitSlots_succ_next (hl : ph.slot + 1 ≠ (s.inrefsOf ph.op).length) :
    s.visitSlots fl allowFail (n + 1) ctx ph prev depth =
      s.visitSlots fl allowFail n ctx₁
        { ph with flags := f₁, slot := ph.slot + 1, vn := s.getIn ph.op (ph.slot + 1) }
        (s.phiFlags p₁ depth ph prev) depth := by
  simp [visitSlots, h₁, hp, hl]

end Slots

/-- What one round of `visitSlots` can do. -/
theorem visitSlots_cases {ph : State} {prev : Flags} {r : Visit × Flags × Pop}
    (h : s.visitSlots fl allowFail (n + 1) ctx ph prev depth = some r) :
    ∃ ctx₁ f₁ p₁, s.visitVn fl allowFail n ctx ph depth = some (ctx₁, f₁, p₁) ∧
      (p₁ = .fail ∧ r = (ctx₁, prev, .fail) ∨
        p₁ ≠ .fail ∧
          (ph.slot + 1 = (s.inrefsOf ph.op).length ∧ (∃ t p, s.phiResult allowFail ctx₁.trial
              (s.phiFlags p₁ depth ph prev) { ph with flags := f₁, slot := ph.slot + 1 } =
                some (t, p) ∧ r = ({ ctx₁ with trial := t }, s.phiFlags p₁ depth ph prev, p)) ∨
            ph.slot + 1 ≠ (s.inrefsOf ph.op).length ∧ s.visitSlots fl allowFail n ctx₁
              { ph with flags := f₁, slot := ph.slot + 1, vn := s.getIn ph.op (ph.slot + 1) }
              (s.phiFlags p₁ depth ph prev) depth = some r)) := by
  cases h₁ : s.visitVn fl allowFail n ctx ph depth with
  | none => simp [visitSlots, h₁] at h
  | some r₁ =>
  obtain ⟨ctx₁, f₁, p₁⟩ := r₁
  refine ⟨ctx₁, f₁, p₁, rfl, ?_⟩
  by_cases hp : p₁ = .fail
  · subst hp
    exact .inl ⟨rfl, (Option.some.inj ((visitSlots_succ_fail h₁).symm.trans h)).symm⟩
  by_cases hl : ph.slot + 1 = (s.inrefsOf ph.op).length
  · rw [visitSlots_succ_last h₁ hp hl] at h
    obtain ⟨⟨t, p⟩, hr, rfl⟩ := Option.map_eq_some'.mp h
    exact .inr ⟨hp, .inl ⟨hl, t, p, hr, rfl⟩⟩
  · exact .inr ⟨hp, .inr ⟨hl, (visitSlots_succ_next h₁ hp hl).symm.trans h⟩⟩

end Classifier

section Simulation

variable {allowFail : Bool} {ctx : Visit} {st : State} {rest : List State} {depth : Nat}

theorem ancestorLoop_of_moves {a b : Walk × Command} (h : Relation.ReflTransGen (s.Moves fl) a b)
    (hb : b.1.stateStack = []) : ∃ N, ∀ n, N < n → s.ancestorLoop fl n a.1 a.2 = some b := by
  induction h using Relation.ReflTransGen.head_induction_on with
  | refl =>
    refine ⟨0, fun n hn => ?_⟩
    obtain ⟨m, rfl⟩ := Nat.exists_eq_add_of_lt hn
    simp [ancestorLoop, hb]
  | head hab _ ih =>
    obtain ⟨N, hN⟩ := ih
    refine ⟨N + 1, fun n hn => ?_⟩
    obtain ⟨m, rfl⟩ := Nat.exists_eq_add_of_lt hn
    rw [ancestorLoop, if_neg hab.1, hab.2, Option.some_bind]
    exact hN _ (by omega)

theorem moves_enter_pop {v : Nat} {p : Pop} (hv : st.vn = some v)
    (he : s.enterVn fl ctx.marks v = some (.pop p)) :
    s.Moves fl (ctx.walk (st :: rest) depth allowFail, .enterNode)
      (ctx.walk (st :: rest) depth allowFail, .pop p) :=
  ⟨List.cons_ne_nil _ _, by simp [ancestorStep, Visit.walk, enterNode, hv, he]⟩

section Enter

variable {v d : Nat} {t : ParamTrial} (hv : st.vn = some v)
  (he : s.enterVn fl ctx.marks v = some (.written d))
include hv he

theorem moves_enter_written_pop {p : Pop}
    (hd : s.defNext fl (setMark ctx.marks v true) ctx.trial d = some (t, .pop p)) :
    s.Moves fl (ctx.walk (st :: rest) depth allowFail, .enterNode)
      ({ ctx.mark v with trial := t }.walk (st :: rest) depth allowFail, .pop p) :=
  ⟨List.cons_ne_nil _ _, by simp [ancestorStep, Visit.walk, Visit.mark, enterNode, hv, he, hd]⟩

theorem moves_enter_phi (hd : s.defNext fl (setMark ctx.marks v true) ctx.trial d = some (t, .push))
    (hm : s.codeOf d = .multiequal) :
    s.Moves fl (ctx.walk (st :: rest) depth allowFail, .enterNode)
      ({ ctx.mark v with trial := t }.walk (s.newState d 0 :: st :: rest) (depth + 1) allowFail,
        .enterNode) :=
  ⟨List.cons_ne_nil _ _, by simp [ancestorStep, Visit.walk, Visit.mark, enterNode, hv, he, hd, hm]⟩

theorem moves_enter_push
    (hd : s.defNext fl (setMark ctx.marks v true) ctx.trial d = some (t, .push))
    (hm : s.codeOf d ≠ .multiequal) :
    s.Moves fl (ctx.walk (st :: rest) depth allowFail, .enterNode)
      ({ ctx.mark v with trial := t }.walk (s.newState d 0 :: st :: rest) depth allowFail,
        .enterNode) :=
  ⟨List.cons_ne_nil _ _, by simp [ancestorStep, Visit.walk, Visit.mark, enterNode, hv, he, hd, hm]⟩

end Enter

theorem moves_pop_plain {p : Pop} (hm : s.codeOf st.op ≠ .multiequal) :
    s.Moves fl (ctx.walk (st :: rest) depth allowFail, .pop p)
      (ctx.walk rest depth allowFail, .pop p) :=
  ⟨List.cons_ne_nil _ _, by simp [ancestorStep, Visit.walk, uponPop, hm]⟩

section Phi

variable {ph below : State} (hm : s.codeOf ph.op = .multiequal)
include hm

theorem moves_pop_fail :
    s.Moves fl (ctx.walk (ph :: below :: rest) depth allowFail, .pop .fail)
      (ctx.walk (below :: rest) (depth - 1) allowFail, .pop .fail) :=
  ⟨List.cons_ne_nil _ _, by simp [ancestorStep, Visit.walk, uponPop, hm]⟩

theorem moves_pop_last {p p' : Pop} {t : ParamTrial} (hp : p ≠ .fail)
    (hl : ph.slot + 1 = (s.inrefsOf ph.op).length)
    (hr : s.phiResult allowFail ctx.trial (s.phiFlags p depth ph below.flags)
      { ph with slot := ph.slot + 1 } = some (t, p')) :
    s.Moves fl (ctx.walk (ph :: below :: rest) depth allowFail, .pop p)
      ({ ctx with trial := t }.walk
        ({ below with flags := s.phiFlags p depth ph below.flags } :: rest) (depth - 1) allowFail,
        .pop p') :=
  ⟨List.cons_ne_nil _ _, by simp [ancestorStep, Visit.walk, uponPop, hm, hp, hl.symm, hr]⟩

theorem moves_pop_next {p : Pop} (hp : p ≠ .fail) (hl : ph.slot + 1 ≠ (s.inrefsOf ph.op).length) :
    s.Moves fl (ctx.walk (ph :: below :: rest) depth allowFail, .pop p)
      (ctx.walk ({ ph with slot := ph.slot + 1, vn := s.getIn ph.op (ph.slot + 1) } ::
        { below with flags := s.phiFlags p depth ph below.flags } :: rest) depth allowFail,
        .enterNode) :=
  ⟨List.cons_ne_nil _ _, by simp [ancestorStep, Visit.walk, uponPop, hm, hp, hl]⟩

end Phi

/-- **The walk simulates the recursive classifier.** Entering the varnode of a state `st` on top
of any stack leads, after the rounds the classifier makes, to `st` on top again with the flags and
the pop that `visitVn` gives; the inputs of a `MULTIEQUAL` on top of the state beneath it lead to
that state, with the flags and the pop that `visitSlots` gives, one `MULTIEQUAL` shallower. -/
theorem visit_steps : ∀ n,
    (∀ {ctx st depth ctx' f p}, s.visitVn fl allowFail n ctx st depth = some (ctx', f, p) →
      ∀ rest, Relation.ReflTransGen (s.Moves fl)
        (ctx.walk (st :: rest) depth allowFail, .enterNode)
        (ctx'.walk ({ st with flags := f } :: rest) depth allowFail, .pop p)) ∧
    (∀ {ctx ph prev depth ctx' f p}, s.codeOf ph.op = .multiequal →
      s.visitSlots fl allowFail n ctx ph prev depth = some (ctx', f, p) →
      ∀ (below : State) rest, below.flags = prev → Relation.ReflTransGen (s.Moves fl)
        (ctx.walk (ph :: below :: rest) depth allowFail, .enterNode)
        (ctx'.walk ({ below with flags := f } :: rest) (depth - 1) allowFail, .pop p))
  | 0 => ⟨fun h => by simp [visitVn] at h, fun _ h => by simp [visitSlots] at h⟩
  | n + 1 => by
    obtain ⟨ihV, ihS⟩ := visit_steps n
    refine ⟨fun {ctx st depth ctx' f p} h rest => ?_,
      fun {ctx ph prev depth ctx' f p} hm h below rest hb => ?_⟩
    · obtain ⟨v, hv, ⟨p, he, h⟩ | ⟨d, t, he, ⟨p, hd, h⟩ | ⟨hd, ⟨hm, h⟩ | ⟨hm, _, _, _, h, h'⟩⟩⟩⟩ :=
        visitVn_cases h
      · cases h
        exact .single (moves_enter_pop hv he)
      · cases h
        exact .single (moves_enter_written_pop hv he hd)
      · exact .head (moves_enter_phi hv he hd hm) (ihS (by exact hm) h st rest rfl)
      · cases h'
        exact .head (moves_enter_push hv he hd hm) ((ihV h (st :: rest)).tail (moves_pop_plain hm))
    · subst hb
      have hm₁ {f₁ : Flags} : s.codeOf { ph with flags := f₁ }.op = .multiequal := hm
      obtain ⟨ctx₁, f₁, p₁, h₁, ⟨rfl, h⟩ | ⟨hp, ⟨hl, t, p', hr, h⟩ | ⟨hl, h⟩⟩⟩ := visitSlots_cases h
      all_goals refine (ihV h₁ (below :: rest)).trans ?_
      · cases h
        exact .single (moves_pop_fail hm₁)
      · cases h
        exact .single (moves_pop_last hm₁ hp hl hr)
      · exact .head (moves_pop_next hm₁ hp hl) (ihS (by exact hm) h _ rest rfl)

end Simulation

/-! ### What the walk carries -/

section Carried

variable {allowFail : Bool}

/-- **What the classifier does to what it carries**: a property that marking an unmarked varnode
and setting the trial keep holds of what `visitVn` and `visitSlots` return. -/
theorem visit_preserves (P : Visit → Prop)
    (hmark : ∀ ctx v t, ctx.marks v = false → P ctx → P { ctx.mark v with trial := t })
    (htrial : ∀ ctx t, P ctx → P { ctx with trial := t }) : ∀ n,
    (∀ {ctx st depth r}, s.visitVn fl allowFail n ctx st depth = some r → P ctx → P r.1) ∧
    (∀ {ctx ph prev depth r}, s.visitSlots fl allowFail n ctx ph prev depth = some r →
      P ctx → P r.1)
  | 0 => ⟨fun h => by simp [visitVn] at h, fun h => by simp [visitSlots] at h⟩
  | n + 1 => by
    obtain ⟨ihV, ihS⟩ := visit_preserves P hmark htrial n
    refine ⟨fun h hP => ?_, fun h hP => ?_⟩
    · obtain ⟨v, -, ⟨p, -, rfl⟩ | ⟨d, t, he, h⟩⟩ := visitVn_cases h
      · exact hP
      have hP' := hmark _ v t (enterVn_written he).1 hP
      obtain ⟨p, -, rfl⟩ | ⟨-, ⟨-, h₂⟩ | ⟨-, _, _, _, h₂, rfl⟩⟩ := h
      · exact hP'
      · exact ihS h₂ hP'
      · exact (ihV h₂ hP' :)
    · obtain ⟨ctx₁, f₁, p₁, h₁, h⟩ := visitSlots_cases h
      have hP₁ : P ctx₁ := ihV h₁ hP
      obtain ⟨-, rfl⟩ | ⟨-, ⟨-, t, p', -, rfl⟩ | ⟨-, h₂⟩⟩ := h
      · exact hP₁
      · exact htrial _ _ hP₁
      · exact ihS h₂ hP₁

/-- The classifier only sets mark bits. -/
theorem visitVn_marks_mono {n depth : Nat} {ctx : Visit} {st : State} {r : Visit × Flags × Pop}
    (h : s.visitVn fl allowFail n ctx st depth = some r) :
    ∀ u, ctx.marks u = true → r.1.marks u = true :=
  (visit_preserves (fun c => ∀ u, ctx.marks u = true → c.marks u = true)
    (fun c v t _ hc u hu => by
      simp only [Visit.mark, setMark]
      split_ifs
      · rfl
      · exact hc u hu)
    (fun _ _ h => h) n).1 h fun _ h => h

/-- **The classifier leaves the marks it found**, once the bits of the varnodes it marked are
cleared. -/
theorem visitVn_clearMarks {n depth : Nat} {marks : Nat → Bool} {t : ParamTrial} {st : State}
    {r : Visit × Flags × Pop} (h : s.visitVn fl allowFail n ⟨t, [], marks⟩ st depth = some r) :
    clearMarks r.1.markedVn r.1.marks = marks :=
  ((visit_preserves (Visit.MarksFrom marks) (fun _ _ t hv h => h.mark t hv)
    (fun _ _ h => ⟨h.marks, h.fresh⟩) n).1 h
    ⟨fun u => by simp, fun u hu => by simp at hu⟩).clearMarks_eq

end Carried

end Proofs

end Funcdata

end GhidraDec
