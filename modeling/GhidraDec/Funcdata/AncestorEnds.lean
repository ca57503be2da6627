import Mathlib.Data.Finset.Card
import Mathlib.Tactic.IntervalCases
import GhidraDec.Funcdata.AncestorRealistic

/-!
# When the Ancestor Walk Ends

`AncestorRealistic::execute` (`funcdata_varnode.cc`) loops until its state stack is empty. Every
written varnode it enters is marked before its defining op is followed, and a marked varnode is
a success at once, so the recursion of the classifier ends on a finite store. The loop of
`enterNode` down a chain of `COPY`s and `SUBPIECE`s is another matter: it does not look at the
marks, and on a cycle of copies it goes round for ever.

`AncestorReady` is what the walk needs of a store: linked, every slot filled, a first input where
the walk reads one, an op named by every `INDIRECT` that is not an indirect creation, a block for
every `MULTIEQUAL`, and no cycle of copies. On such a store the explicit-stack walk and the
recursive classifier of `GhidraDec.Funcdata.AncestorRealistic` give the same result.

## Main results

* `AncestorReady.copyChain_isSome`: the loop down a chain of copies ends within as many rounds as
  there are ops;
* `AncestorReady.visit_ends`: the classifier ends, by induction on the unmarked varnodes;
* `execute_realistic`: `execute` ends, gives what `realistic` gives, and leaves the mark bits as it
  found them;
* `execute_condExe_solidSlot`: a `MULTIEQUAL` with a solid movement on in-edge 0 and a failkill on
  in-edge 1 is checked for conditional execution on in-edge 1, and the trial is rejected;
* `execute_copy_cycle`: on a cycle of copies `execute` never returns.
-/

namespace GhidraDec

namespace Funcdata

open AncestorRealistic

variable (s : Funcdata) (fl : AncestorFlags)

/-- Op `a` is a `COPY` or `SUBPIECE` whose first input the `COPY` or `SUBPIECE` `b` writes: a
round of the loop `copyChain` goes from `a` to `b`. -/
def CopyLink (a b : Nat) : Prop :=
  (s.codeOf a = .copy ∨ s.codeOf a = .subpiece) ∧ (s.codeOf b = .copy ∨ s.codeOf b = .subpiece) ∧
    ∃ v, s.getIn a 0 = some v ∧ s.defOf v = some b

/-- A store the walk runs on: linked, with every slot filled; the ops whose first input the walk
reads have one, an `INDIRECT` that is not an indirect creation names an op, and a `MULTIEQUAL`
sits in a block; and no chain of `COPY`s and `SUBPIECE`s through their first inputs is a
cycle. -/
structure AncestorReady : Prop where
  linked : Linked s
  filled : ∀ o, ∀ y ∈ s.inrefsOf o, y.isSome
  arity : ∀ o, s.codeOf o = .copy ∨ s.codeOf o = .subpiece ∨ s.codeOf o = .indirect ∨
    s.codeOf o = .multiequal → s.inrefsOf o ≠ []
  iop : ∀ o, s.codeOf o = .indirect → fl.isIndirectCreation o = false → (s.iopTarget o).isSome
  parent : ∀ o, s.codeOf o = .multiequal → (s.parentOf o).isSome
  copyAcyclic : ∀ o, ¬ Relation.TransGen s.CopyLink o o

/-- The varnodes of the bank whose mark bit is clear. -/
def unmarked (marks : Nat → Bool) : Finset Nat :=
  (Finset.range s.vbank.length).filter fun u => marks u = false

/-- The classifier gives one result, from some fuel on, from `ctx` on every state holding a
varnode of the bank. -/
def VnEnds (allowFail : Bool) (ctx : Visit) : Prop :=
  ∀ st depth, (∃ v, st.vn = some v ∧ (s.vn v).isSome) →
    ∃ r N, ∀ n, N ≤ n → s.visitVn fl allowFail n ctx st depth = some r

/-- The classifier gives one result, from some fuel on, from `ctx` on every `MULTIEQUAL` state
reading one of its slots. -/
def SlotsEnds (allowFail : Bool) (ctx : Visit) : Prop :=
  ∀ ph prev depth, s.codeOf ph.op = .multiequal → ph.slot < (s.inrefsOf ph.op).length →
    ph.vn = s.getIn ph.op ph.slot →
    ∃ r N, ∀ n, N ≤ n → s.visitSlots fl allowFail n ctx ph prev depth = some r

variable {s fl}

theorem lt_of_codeOf_ne_max {o : Nat} (h : s.codeOf o ≠ .max) : o < s.obank.length := by
  by_contra hle
  simp [codeOf, op_eq_none_of_le (not_lt.mp hle)] at h

theorem lt_of_codeOf_copy {o : Nat} (h : s.codeOf o = .copy ∨ s.codeOf o = .subpiece) :
    o < s.obank.length :=
  lt_of_codeOf_ne_max (by rcases h with h | h <;> rw [h] <;> decide)

theorem enterVn_isSome {m : Nat → Bool} {v : Nat} (hx : (s.vn v).isSome) :
    (s.enterVn fl m v).isSome := by
  obtain ⟨x, hx⟩ := Option.isSome_iff_exists.mp hx
  cases hd : x.defOp <;> cases m v <;> simp [enterVn, hx, hd] <;> split_ifs <;> simp

theorem defNext_push {m : Nat → Bool} {t t' : ParamTrial} {d : Nat}
    (h : s.defNext fl m t d = some (t', .push)) :
    s.codeOf d = .copy ∨ s.codeOf d = .subpiece ∨ s.codeOf d = .indirect ∨
      s.codeOf d = .multiequal := by
  unfold defNext at h
  split at h
  next hc => exact .inr (.inr (.inl hc))
  next hc => exact .inl hc
  next hc => exact .inr (.inl hc)
  next hc => exact .inr (.inr (.inr hc))
  next => cases h

theorem card_unmarked_le {m m' : Nat → Bool} (h : ∀ u, m u = true → m' u = true) :
    (s.unmarked m').card ≤ (s.unmarked m).card := by
  refine Finset.card_le_card fun u hu => ?_
  simp only [unmarked, Finset.mem_filter] at hu ⊢
  exact ⟨hu.1, by simpa using mt (h u) (by simpa using hu.2)⟩

theorem card_unmarked_mark_lt {m : Nat → Bool} {v : Nat} (hv : v < s.vbank.length)
    (hm : m v = false) : (s.unmarked (setMark m v true)).card < (s.unmarked m).card := by
  refine Finset.card_lt_card ((Finset.ssubset_iff_of_subset fun u hu => ?_).mpr
    ⟨v, by simp [unmarked, hv, hm], by simp [unmarked, setMark]⟩)
  simp only [unmarked, Finset.mem_filter, setMark] at hu ⊢
  split_ifs at hu <;> simp_all

section Ready

variable (hR : s.AncestorReady fl)
include hR

theorem AncestorReady.getIn_ready {o i : Nat} (hi : i < (s.inrefsOf o).length) :
    ∃ v, s.getIn o i = some v ∧ (s.vn v).isSome := by
  obtain ⟨v, hv⟩ := Option.isSome_iff_exists.mp (hR.filled o _ (List.getElem_mem hi))
  have hg : s.getIn o i = some v := by simp [getIn, List.getElem?_eq_getElem hi, hv]
  exact ⟨v, hg, hR.linked.readers.vn_isSome hg⟩

/-- The ops of a chain of `COPY`s leading to `o`, with `o`, are distinct ops of the bank, so there
are fewer of them than ops. -/
theorem AncestorReady.chain_length_lt {o : Nat} {path : List Nat} (hnd : path.Nodup)
    (hreach : ∀ q ∈ path, Relation.TransGen s.CopyLink q o)
    (ho : s.codeOf o = .copy ∨ s.codeOf o = .subpiece) : path.length < s.obank.length := by
  have hno : o ∉ path := fun h => hR.copyAcyclic o (hreach o h)
  have hsub : o :: path ⊆ List.range s.obank.length := by
    intro q hq
    rw [List.mem_range]
    rcases List.mem_cons.mp hq with rfl | hq
    · exact lt_of_codeOf_copy ho
    · obtain ⟨c, hc, -⟩ := Relation.TransGen.head'_iff.mp (hreach q hq)
      exact lt_of_codeOf_copy hc.1
  simpa using (List.subperm_of_subset (List.nodup_cons.mpr ⟨hno, hnd⟩) hsub).length_le

/-- The loop down a chain of `COPY`s ends within the fuel left, the ops already passed counted. -/
theorem AncestorReady.copyChain_isSome (marks : Nat → Bool) : ∀ fuel o (path : List Nat),
    path.Nodup → (∀ q ∈ path, Relation.TransGen s.CopyLink q o) →
    (s.codeOf o = .copy ∨ s.codeOf o = .subpiece) → s.obank.length ≤ fuel + path.length →
    (s.copyChain fl marks fuel o).isSome
  | 0, o, path, hnd, hreach, ho, hlen => by
    have := hR.chain_length_lt hnd hreach ho
    omega
  | fuel + 1, o, path, hnd, hreach, ho, hlen => by
    obtain ⟨v, hv, hx⟩ := hR.getIn_ready (List.length_pos.mpr (hR.arity o (by tauto)))
    obtain ⟨x, hx⟩ := Option.isSome_iff_exists.mp hx
    simp only [copyChain, hv, hx, Option.bind_eq_bind, Option.some_bind, Option.pure_def]
    split_ifs
    · rfl
    cases hd : x.defOp with
    | none => rfl
    | some d =>
      simp only
      split_ifs with hcd
      · refine AncestorReady.copyChain_isSome marks fuel d (o :: path)
          (List.nodup_cons.mpr ⟨fun h => hR.copyAcyclic o (hreach o h), hnd⟩) ?_ hcd
          (by simp only [List.length_cons]; omega)
        have hlink : s.CopyLink o d := ⟨ho, hcd, v, hv, by simp [defOf, hx, hd]⟩
        intro q hq
        rcases List.mem_cons.mp hq with rfl | hq
        · exact .single hlink
        · exact (hreach q hq).tail hlink
      · rfl

theorem AncestorReady.defNext_isSome {m : Nat → Bool} {t : ParamTrial} {v d : Nat}
    (hd : s.defOf v = some d) : (s.defNext fl m t d).isSome := by
  have hout : s.outputOf d = some v := (hR.linked.defs d v).mp hd
  obtain ⟨x, hx, -⟩ := Option.bind_eq_some.mp hd
  unfold defNext
  split
  next hc =>
    by_cases hic : fl.isIndirectCreation d
    · obtain ⟨w, hw, -⟩ := hR.getIn_ready (List.length_pos.mpr (hR.arity d (by simp [hc])))
      simp [hic, hw]
    · obtain ⟨i, hi⟩ := Option.isSome_iff_exists.mp (hR.iop d hc (by simpa using hic))
      simp [hic, hi, hout]
      split_ifs <;> simp
  all_goals try rfl
  all_goals
    rename_i hc
    obtain ⟨w, hw, hwx⟩ := hR.getIn_ready (List.length_pos.mpr (hR.arity d (by simp [hc])))
    obtain ⟨y, hy⟩ := Option.isSome_iff_exists.mp hwx
    obtain ⟨p, hp⟩ := Option.isSome_iff_exists.mp (hR.copyChain_isSome m
      s.obank.length d [] List.nodup_nil (by simp) (by simp [hc]) (by simp))
    simp [hout, hx, hw, hy, hp]
    split_ifs <;> simp

theorem AncestorReady.phiResult_isSome {allowFail : Bool} {t : ParamTrial} {prev : Flags}
    {st : State} (hm : s.codeOf st.op = .multiequal) :
    (s.phiResult allowFail t prev st).isSome := by
  obtain ⟨b, hb⟩ := Option.isSome_iff_exists.mp (hR.parent st.op hm)
  have hc : (s.checkConditionalExe st).isSome := by
    have h2 : st.flags.getSolidSlot < 2 := by unfold Flags.getSolidSlot; split_ifs <;> omega
    unfold checkConditionalExe
    simp only [hb, Option.bind_eq_bind, Option.some_bind]
    split_ifs with hl
    · rfl
    · rw [List.getElem?_eq_getElem (by omega)]
      rfl
  obtain ⟨ok, hok⟩ := Option.isSome_iff_exists.mp hc
  unfold phiResult
  split_ifs <;> simp [hok]

section Ends

variable {allowFail : Bool}

/-- Entering a varnode ends once the classifier ends from every state with fewer unmarked
varnodes: a written varnode is marked before its defining op is followed. -/
theorem AncestorReady.vnEnds {ctx : Visit}
    (ih : ∀ c : Visit, (s.unmarked c.marks).card < (s.unmarked ctx.marks).card →
      s.VnEnds fl allowFail c ∧ s.SlotsEnds fl allowFail c) :
    s.VnEnds fl allowFail ctx := by
  rintro st depth ⟨v, hv, hx⟩
  obtain ⟨e, he⟩ := Option.isSome_iff_exists.mp
    (enterVn_isSome hx : (s.enterVn fl ctx.marks v).isSome)
  cases e with
  | pop p => exact ⟨_, 1, fuel_succ fun n _ => visitVn_succ_pop hv he⟩
  | written d =>
  obtain ⟨hm, hd⟩ := enterVn_written he
  obtain ⟨⟨t, nx⟩, hn⟩ := Option.isSome_iff_exists.mp
    (hR.defNext_isSome hd : (s.defNext fl (setMark ctx.marks v true) ctx.trial d).isSome)
  have hlt := ih { ctx.mark v with trial := t }
    (card_unmarked_mark_lt (lt_of_vn_isSome hx) hm)
  cases nx with
  | pop p => exact ⟨_, 1, fuel_succ fun n _ => visitVn_succ_written_pop hv he hn⟩
  | push =>
  have har := List.length_pos.mpr (hR.arity d (defNext_push hn))
  by_cases hph : s.codeOf d = .multiequal
  · obtain ⟨r, N, hN⟩ := hlt.2 (s.newState d 0) st.flags (depth + 1) hph har rfl
    exact ⟨r, N + 1, fuel_succ fun n hn' => (visitVn_succ_phi hv he hn hph).trans (hN n hn')⟩
  · obtain ⟨⟨c, f, p⟩, N, hN⟩ := hlt.1 (s.newState d 0) depth (hR.getIn_ready har)
    exact ⟨(c, st.flags, p), N + 1, fuel_succ fun n hn' => by
      rw [visitVn_succ_push hv he hn hph, hN n hn']; rfl⟩

/-- The inputs of a `MULTIEQUAL` end once entering a varnode ends from every state with no more
unmarked varnodes: the classifier marks and never clears. -/
theorem AncestorReady.slotsEnds {ctx : Visit}
    (hV : ∀ c : Visit, (s.unmarked c.marks).card ≤ (s.unmarked ctx.marks).card →
      s.VnEnds fl allowFail c) :
    s.SlotsEnds fl allowFail ctx := by
  suffices h : ∀ k (c : Visit) ph prev depth,
      (s.unmarked c.marks).card ≤ (s.unmarked ctx.marks).card →
      (s.inrefsOf ph.op).length - ph.slot = k → s.codeOf ph.op = .multiequal →
      ph.slot < (s.inrefsOf ph.op).length → ph.vn = s.getIn ph.op ph.slot →
      ∃ r N, ∀ n, N ≤ n → s.visitSlots fl allowFail n c ph prev depth = some r from
    fun ph prev depth => h _ ctx ph prev depth le_rfl rfl
  intro k
  induction k with
  | zero => intro c ph prev depth _ hk _ hs; omega
  | succ k ih =>
  intro c ph prev depth hc hk hm hs hvn
  obtain ⟨v, hv, hx⟩ := hR.getIn_ready hs
  obtain ⟨⟨c₁, f₁, p₁⟩, N₁, hN₁⟩ := hV c hc ph depth ⟨v, hvn.trans hv, hx⟩
  have hc₁ := (card_unmarked_le (visitVn_marks_mono (hN₁ N₁ le_rfl))).trans hc
  by_cases hp : p₁ = .fail
  · subst hp
    exact ⟨_, N₁ + 1, fuel_succ fun n hn => visitSlots_succ_fail (hN₁ n hn)⟩
  by_cases hl : ph.slot + 1 = (s.inrefsOf ph.op).length
  · obtain ⟨⟨t, p⟩, hr⟩ := Option.isSome_iff_exists.mp (hR.phiResult_isSome hm :
      (s.phiResult allowFail c₁.trial (s.phiFlags p₁ depth ph prev)
        { ph with flags := f₁, slot := ph.slot + 1 }).isSome)
    exact ⟨_, N₁ + 1, fuel_succ fun n hn => by rw [visitSlots_succ_last (hN₁ n hn) hp hl, hr]; rfl⟩
  · obtain ⟨r, N₂, hN₂⟩ := ih c₁
      { ph with flags := f₁, slot := ph.slot + 1, vn := s.getIn ph.op (ph.slot + 1) }
      (s.phiFlags p₁ depth ph prev) depth hc₁ (by dsimp only; omega) hm (by dsimp only; omega) rfl
    exact ⟨r, max N₁ N₂ + 1, fuel_succ fun n hn =>
      (visitSlots_succ_next (hN₁ n (by omega)) hp hl).trans (hN₂ n (by omega))⟩

/-- **The classifier ends** on a store the walk runs on, by induction on the unmarked
varnodes. -/
theorem AncestorReady.visit_ends : ∀ m (ctx : Visit), (s.unmarked ctx.marks).card < m →
    s.VnEnds fl allowFail ctx ∧ s.SlotsEnds fl allowFail ctx
  | 0, _, h => absurd h (Nat.not_lt_zero _)
  | m + 1, ctx, h => by
    have hV : ∀ c : Visit, (s.unmarked c.marks).card ≤ m → s.VnEnds fl allowFail c :=
      fun c hc => hR.vnEnds fun c' hc' => AncestorReady.visit_ends m c' (by omega)
    exact ⟨hV ctx (by omega), hR.slotsEnds fun c hc => hV c (by omega)⟩

end Ends

end Ready

/-- **`execute` ends, agrees with the recursive classifier, and leaves the marks as it found
them**: for every op but a `MULTIEQUAL` (a `CALL`, `CALLIND` or `RETURN` among them), every slot it
has, every trial, both values of `allowFail` and all mark bits, on a store the walk runs on. -/
theorem execute_realistic (hR : s.AncestorReady fl) {op slot : Nat}
    (hop : s.codeOf op ≠ .multiequal) (hslot : slot < (s.inrefsOf op).length) (t : ParamTrial)
    (allowFail : Bool) (marks : Nat → Bool) :
    ∃ r, (∃ N, ∀ n, N ≤ n → s.execute fl n op slot t allowFail marks = some r) ∧
      (∃ N, ∀ n, N ≤ n → s.realistic fl n op slot t allowFail marks = some r) ∧
      r.2.2 = marks := by
  obtain ⟨v, hv, hx⟩ := hR.getIn_ready hslot
  obtain ⟨x, hx⟩ := Option.isSome_iff_exists.mp hx
  by_cases hin : (x.input && !t.condExeEffect) = true
  · refine ⟨(false, t, marks), ⟨0, fun n _ => ?_⟩, ⟨0, fun n _ => ?_⟩, rfl⟩
    · simp only [execute, hv, hx, hin, Option.bind_eq_bind, Option.some_bind, if_true]; rfl
    · simp only [realistic, hv, hx, hin, Option.bind_eq_bind, Option.some_bind, if_true]; rfl
  obtain ⟨⟨ctx, f, p⟩, N, hN⟩ := (hR.visit_ends _ ⟨t, [], marks⟩ (Nat.lt_succ_self _)).1
    (s.newState op slot) 0 ⟨v, hv, by simp [hx]⟩
  obtain ⟨M, hM⟩ := ancestorLoop_of_moves
    (((visit_steps N).1 (hN N le_rfl) []).tail (moves_pop_plain hop)) rfl
  refine ⟨(p == .success || p == .solid, ctx.trial, clearMarks ctx.markedVn ctx.marks),
    ⟨M + 1, fun n hn => ?_⟩, ⟨N, fun n hn => ?_⟩, visitVn_clearMarks (hN N le_rfl)⟩
  · have hM' : s.ancestorLoop fl n ⟨t, [s.newState op slot], [], marks, 0, allowFail⟩ .enterNode =
        some (ctx.walk [] 0 allowFail, .pop p) := hM n (by omega)
    simp only [execute, hv, hx, hin, hM', Option.bind_eq_bind, Option.some_bind,
      Bool.false_eq_true, if_false, Option.pure_def]
    cases p <;> rfl
  · simp only [realistic, hv, hx, hin, hN n hn, Option.bind_eq_bind, Option.some_bind,
      Bool.false_eq_true, if_false, Option.pure_def]

/-! ### A parameter through a loop -/

/-- Flags under which every varnode is affected, not persistent and direct-write, and no op is a
call, an indirect creation or an incidental copy. -/
def directWriteFlags : AncestorFlags where
  isCall _ := false
  isIndirectCreation _ := false
  isUnaffected _ := false
  isPersist _ := false
  isDirectWrite _ := true
  isIndirectZero _ := false
  isReturnAddress _ := false
  isIncidentalCopy _ := false

/-- A loop `v1 = MULTIEQUAL(v0, v2)`, `v2 = COPY(v1)` in one location (op 0 and op 1), and a
`CALL` (op 2) reading `v2` and the input `v0`. -/
def paramLoop : Funcdata where
  glb := ⟨⟨0, .constant, 2 ^ 64 - 1, false, 1⟩, ⟨1, .internal, 2 ^ 64 - 1, false, 1⟩,
    ⟨2, .iop, 2 ^ 64 - 1, false, 1⟩, rfl, rfl, rfl⟩
  vbank := [some { loc := ⟨codeAddr.space, 0⟩, size := 4, descend := [0, 2], input := true },
    some { loc := ⟨codeAddr.space, 4⟩, size := 4, defOp := some 0, descend := [1] },
    some { loc := ⟨codeAddr.space, 4⟩, size := 4, defOp := some 1, descend := [0, 2] }]
  obank := [some { code := .multiequal, addr := codeAddr, inrefs := [some 0, some 2],
                   output := some 1, parent := some 0 },
    some { code := .copy, addr := codeAddr, inrefs := [some 1], output := some 2,
           parent := some 0 },
    some { code := .call, addr := codeAddr, inrefs := [some 2, some 0], parent := some 0 }]
  bblocks := [{ ops := [0, 1, 2], inEdges := [0, 0] }]
  uniqId := 0

theorem paramLoop_ready : paramLoop.AncestorReady directWriteFlags where
  linked := Linked.of_check (by decide)
  filled o y hy := by
    have ho : o < 3 := lt_of_mem_inrefsOf hy
    revert y
    interval_cases o <;> decide
  arity o h := by
    have ho : o < 3 := lt_of_codeOf_ne_max (s := paramLoop)
      (by rcases h with h | h | h | h <;> rw [h] <;> decide)
    interval_cases o <;> decide
  iop o h := by
    have ho : o < 3 := lt_of_codeOf_ne_max (s := paramLoop) (by rw [h]; decide)
    revert h
    interval_cases o <;> decide
  parent o h := by
    have ho : o < 3 := lt_of_codeOf_ne_max (s := paramLoop) (by rw [h]; decide)
    revert h
    interval_cases o <;> decide
  copyAcyclic o h := by
    obtain ⟨b, ⟨hc, hb, v, hv, hd⟩, -⟩ := Relation.TransGen.head'_iff.mp h
    have ho : o < 3 := lt_of_codeOf_copy hc
    interval_cases o
    · revert hc; decide
    · obtain rfl : v = 1 := Option.some.inj hv.symm
      obtain rfl : b = 0 := Option.some.inj hd.symm
      revert hb; decide
    · revert hc; decide

/-- `execute` on the loop, from the first slot of the `CALL`. -/
theorem execute_realistic_paramLoop :
    paramLoop.AncestorReady directWriteFlags ∧ paramLoop.codeOf 2 ≠ .multiequal ∧
      0 < (paramLoop.inrefsOf 2).length ∧
      ∃ r, (∃ N, ∀ n, N ≤ n → paramLoop.execute directWriteFlags n 2 0 ⟨false, false, false⟩
          false (fun _ => false) = some r) ∧
        (∃ N, ∀ n, N ≤ n → paramLoop.realistic directWriteFlags n 2 0 ⟨false, false, false⟩
          false (fun _ => false) = some r) ∧ r.2.2 = fun _ => false :=
  ⟨paramLoop_ready, by decide, by decide,
    execute_realistic paramLoop_ready (by decide) (by decide) _ _ _⟩

/-- A parameter that is an input is rejected before any walk: the second slot of the `CALL`
of `paramLoop` reads the input `v0`, which entering classifies a success, and `execute` returns
false with every fuel. -/
example :
    paramLoop.enterVn directWriteFlags (fun _ => false) 0 = some (.pop .success) ∧
      ∀ n allowFail, paramLoop.execute directWriteFlags n 2 1 ⟨false, false, false⟩ allowFail
        (fun _ => false) = some (false, ⟨false, false, false⟩, fun _ => false) :=
  ⟨rfl, fun _ _ => rfl⟩

/-! ### Conditional execution checked on the wrong in-edge -/

/-- Flags under which op 1 is an indirect creation, varnode 3 the indirect zero, op 3 a call,
and every varnode is affected, not persistent and direct-write. -/
def condExeFlags : AncestorFlags where
  isCall o := o = 3
  isIndirectCreation o := o = 1
  isUnaffected _ := false
  isPersist _ := false
  isDirectWrite _ := true
  isIndirectZero v := v = 3
  isReturnAddress _ := false
  isIncidentalCopy _ := false

/-- A `RETURN` (op 4, block 2) of `v5 = MULTIEQUAL(v1, v2)` (op 2, block 2). Block 2 is entered
from block 0, whose one out-edge goes there, and from block 1, which has a second out-edge to
block 3. In block 0 the input `v0` is copied into `v1` (op 0), a solid movement; in block 1
the call (op 3) has an indirect creation (op 1) writing `v2` from the indirect zero `v3`. -/
def condExeStore : Funcdata where
  glb := ⟨⟨0, .constant, 2 ^ 64 - 1, false, 1⟩, ⟨1, .internal, 2 ^ 64 - 1, false, 1⟩,
    ⟨2, .iop, 2 ^ 64 - 1, false, 1⟩, rfl, rfl, rfl⟩
  vbank := [some { loc := ⟨codeAddr.space, 0⟩, size := 4, descend := [0], input := true },
    some { loc := ⟨codeAddr.space, 8⟩, size := 4, defOp := some 0, descend := [2] },
    some { loc := ⟨codeAddr.space, 8⟩, size := 4, defOp := some 1, descend := [2] },
    some { loc := ⟨⟨0, .constant, 2 ^ 64 - 1, false, 1⟩, 0⟩, size := 4, descend := [1] },
    some { loc := ⟨⟨2, .iop, 2 ^ 64 - 1, false, 1⟩, 3⟩, size := 4, descend := [1] },
    some { loc := ⟨codeAddr.space, 8⟩, size := 4, defOp := some 2, descend := [4] },
    some { loc := ⟨⟨0, .constant, 2 ^ 64 - 1, false, 1⟩, 0⟩, size := 4, descend := [4] },
    some { loc := ⟨codeAddr.space, 0x400⟩, size := 4, descend := [3] }]
  obank := [some { code := .copy, addr := codeAddr, inrefs := [some 0], output := some 1,
                   parent := some 0 },
    some { code := .indirect, addr := codeAddr, inrefs := [some 3, some 4], output := some 2,
           parent := some 1 },
    some { code := .multiequal, addr := codeAddr, inrefs := [some 1, some 2], output := some 5,
           parent := some 2 },
    some { code := .call, addr := codeAddr, inrefs := [some 7], parent := some 1 },
    some { code := .ret, addr := codeAddr, inrefs := [some 6, some 5], parent := some 2 }]
  bblocks := [{ ops := [0] }, { ops := [1, 3] }, { ops := [2, 4], inEdges := [0, 1] },
    { inEdges := [1] }]
  uniqId := 0

theorem condExeStore_ready : condExeStore.AncestorReady condExeFlags where
  linked := Linked.of_check (by decide)
  filled o y hy := by
    have ho : o < 5 := lt_of_mem_inrefsOf hy
    revert y
    interval_cases o <;> decide
  arity o h := by
    have ho : o < 5 := lt_of_codeOf_ne_max (s := condExeStore)
      (by rcases h with h | h | h | h <;> rw [h] <;> decide)
    interval_cases o <;> decide
  iop o h := by
    have ho : o < 5 := lt_of_codeOf_ne_max (s := condExeStore) (by rw [h]; decide)
    revert h
    interval_cases o <;> decide
  parent o h := by
    have ho : o < 5 := lt_of_codeOf_ne_max (s := condExeStore) (by rw [h]; decide)
    revert h
    interval_cases o <;> decide
  copyAcyclic o h := by
    obtain ⟨b, ⟨hc, hb, v, hv, hd⟩, -⟩ := Relation.TransGen.head'_iff.mp h
    have ho : o < 5 := lt_of_codeOf_copy hc
    interval_cases o
    · obtain rfl : v = 0 := Option.some.inj hv.symm
      simp [defOf, vn, condExeStore] at hd
    all_goals revert hc; decide

/-- **The solid in-edge is read from the wrong state.** The `MULTIEQUAL` of `condExeStore`
has a solid movement in slot 0 and a failkill in slot 1, and `uponPop` records both in the
flags of the state beneath it (the `RETURN`'s). `checkConditionalExe` reads the solid slot from
the `MULTIEQUAL`'s own flags, which are never marked, so it looks at in-edge 1, from block 1
with two out-edges, and refuses: `execute` rejects the trial. On the flags where the walk
recorded the solid slot it would look at in-edge 0, from block 0 with one out-edge, and
accept. -/
theorem execute_condExe_solidSlot :
    condExeStore.AncestorReady condExeFlags ∧
      condExeStore.checkConditionalExe ⟨2, some 2, 2, {}⟩ = some false ∧
      condExeStore.checkConditionalExe ⟨2, some 2, 2, { solid0 := true, kill := true }⟩ =
        some true ∧
      ∀ n, (condExeStore.execute condExeFlags (n + 7) 4 1 ⟨false, false, false⟩ true
        (fun _ => false)).map (fun r => (r.1, r.2.1)) = some (false, ⟨false, false, true⟩) :=
  ⟨condExeStore_ready, rfl, rfl, fun _ => rfl⟩

/-! ### A cycle of copies -/

/-- Two `COPY`s reading each other (op 0 writes `v0` from `v1`, op 1 writes `v1` from `v0`, in two
locations), and a `CALL` (op 2) reading `v0`. -/
def copyCycle : Funcdata where
  glb := ⟨⟨0, .constant, 2 ^ 64 - 1, false, 1⟩, ⟨1, .internal, 2 ^ 64 - 1, false, 1⟩,
    ⟨2, .iop, 2 ^ 64 - 1, false, 1⟩, rfl, rfl, rfl⟩
  vbank := [some { loc := ⟨codeAddr.space, 0⟩, size := 4, defOp := some 0, descend := [1, 2] },
    some { loc := ⟨codeAddr.space, 4⟩, size := 4, defOp := some 1, descend := [0] }]
  obank := [some { code := .copy, addr := codeAddr, inrefs := [some 1], output := some 0,
                   parent := some 0 },
    some { code := .copy, addr := codeAddr, inrefs := [some 0], output := some 1,
           parent := some 0 },
    some { code := .call, addr := codeAddr, inrefs := [some 0], parent := some 0 }]
  bblocks := [{ ops := [0, 1, 2] }]
  uniqId := 0

/-- The loop down the chain of copies goes round the cycle with any fuel. -/
theorem copyCycle_copyChain (marks : Nat → Bool) :
    ∀ k o, o < 2 → copyCycle.copyChain directWriteFlags marks k o = none
  | 0, _, _ => rfl
  | k + 1, o, ho => by
    interval_cases o
    · simpa [copyChain, getIn, inrefsOf, op, vn, codeOf, copyCycle]
        using copyCycle_copyChain marks k 1 (by omega)
    · simpa [copyChain, getIn, inrefsOf, op, vn, codeOf, copyCycle]
        using copyCycle_copyChain marks k 0 (by omega)

/-- **On a cycle of `COPY`s, `execute` never returns**: the `do … while` of `enterNode` down the
chain of copies goes round the cycle, so no fuel is enough. -/
theorem execute_copy_cycle : Linked copyCycle ∧
    (∀ k, copyCycle.copyChain directWriteFlags (fun _ => false) k 0 = none) ∧
    ∀ n t allowFail, copyCycle.execute directWriteFlags n 2 0 t allowFail (fun _ => false) = none :=
  ⟨Linked.of_check (by decide), fun k => copyCycle_copyChain _ k 0 (by omega), fun n _ _ => by
    cases n <;> rfl⟩

end Funcdata

end GhidraDec
