import GhidraDec.Funcdata.AncestorRealistic

/-!
# Marked Flow Scans

`Funcdata::checkIndirectUse` and `Funcdata::onlyOpUse` (`funcdata_varnode.cc`) are one worklist
search over the data-flow from a varnode. `vlist` starts with the varnode, marked; each round
takes the next entry of `vlist` and walks its readers. A reader is passed by, ends the search
with `false`, or is followed: its output, unless the output itself ends the search, is pushed
onto `vlist` and marked if it is not marked already. At the end the marks of `vlist` are
cleared. The two functions differ only in what they make of a reader (`ReaderStep`) and of an
output:

* `checkIndirectUse` passes an `INDIRECT` by, follows a `MULTIEQUAL` and stops at anything
  else: it asks whether every flow through `MULTIEQUAL`s ends in an `INDIRECT`.
  `markIndirectOnly` runs it on every illegal input and flags those it accepts.
* `onlyOpUse` passes by the slot of the trial in the call `opmatch`, calls that
  `checkCallDoubleUse` excuses, and a return reading the same slot when `opmatch` is a return;
  it stops at branches, loads, stores and other calls and returns, and at a persistent output;
  it follows every other op. It asks whether the varnode is used only as the parameter of
  `opmatch`.

The `while` loop is modelled with fuel: as many rounds as the bank has varnodes, and one more.
A followed op without an output is passed by (`checkIndirectUse` dereferences it). The flags
`onlyOpUse` reads and the answer of `checkCallDoubleUse` are parameters.

## Main results

* `ScanInv.scanReaders`, `scanReaders_true`, `scanReaders_false`: one round keeps the invariant
  of the worklist, and its answer is right for the readers it walked;
* `WorkInv.flowClean`: a worklist walked to its end is closed under the flow, so every varnode
  the flow reaches is in it;
* `flowScan_spec`: on a linked store, from mark bits clear wherever the flow reaches, the scan
  answers exactly whether every reader of every varnode the flow reaches is passed by or
  followed into an output that does not stop it, and leaves the mark bits as it found them;
* `checkIndirectUse_spec`, `markIndirectOnly_spec`, `onlyOpUse_spec`: what this says of each
  user.
-/

namespace GhidraDec

namespace Funcdata

open AncestorRealistic

/-- What a scan makes of one reader of a varnode: pass it by (`continue`), end the search with
`false`, or follow the flow into the reader's output. -/
inductive ReaderStep
  | skip
  | fail
  | follow
  deriving DecidableEq, Repr

/-- What a scan carries through its loops: the varnodes found so far and the mark bits. -/
structure IndirectScan where
  vlist : List Nat
  marks : Nat → Bool

variable (s : Funcdata) (step : Nat → Nat → ReaderStep) (stop : Nat → Bool)

/-- The loop of a scan over the readers `ops` of the varnode `v`: `step o v` says what to do
with the reader `o`, and `stop w` whether the output `w` of a followed reader ends the search.
The second component is `false` when the loop breaks. -/
def scanReaders (v : Nat) : List Nat → IndirectScan → IndirectScan × Bool
  | [], st => (st, true)
  | o :: ops, st =>
    match step o v with
    | .skip => scanReaders v ops st
    | .fail => (st, false)
    | .follow =>
      match s.outputOf o with
      | some w =>
        if stop w then (st, false)
        else if st.marks w then scanReaders v ops st
        else scanReaders v ops ⟨st.vlist ++ [w], setMark st.marks w true⟩
      | none => scanReaders v ops st

/-- The `while` loop of a scan from position `i` of `vlist`, for at most `fuel` rounds: it
stops once `i` reaches the end of `vlist` or a round answers `false`. -/
def scanWorklist : Nat → Nat → IndirectScan → IndirectScan × Bool
  | 0, _, st => (st, true)
  | fuel + 1, i, st =>
    match st.vlist[i]? with
    | none => (st, true)
    | some v =>
      match s.scanReaders step stop v (s.descendOf v) st with
      | (st', true) => scanWorklist fuel (i + 1) st'
      | (st', false) => (st', false)

/-- A marked scan from `vn`: its answer, and the mark bits once those of `vlist` are
cleared. -/
def flowScan (marks : Nat → Bool) (vn : Nat) : Bool × (Nat → Bool) :=
  let r := s.scanWorklist step stop (s.vbank.length + 1) 0 ⟨[vn], setMark marks vn true⟩
  (r.2, clearMarks r.1.vlist r.1.marks)

/-- What `checkIndirectUse` makes of a reader: an `INDIRECT` is passed by, a `MULTIEQUAL` is
followed, anything else ends the search. -/
def indirectStep (o _v : Nat) : ReaderStep :=
  if s.codeOf o = .indirect then .skip else if s.codeOf o = .multiequal then .follow else .fail

/-- `Funcdata::checkIndirectUse`: whether `vn` only flows into `INDIRECT`s through
`MULTIEQUAL`s, and the mark bits left. -/
def checkIndirectUse (marks : Nat → Bool) (vn : Nat) : Bool × (Nat → Bool) :=
  s.flowScan s.indirectStep (fun _ => false) marks vn

/-- `Funcdata::markIndirectOnly`: over the inputs in the order of the definition index, the
illegal ones that `checkIndirectUse` accepts get the flag `indirectonly`. The result lists them,
with the mark bits left. -/
def markIndirectOnly (isIllegalInput : Nat → Bool) (marks : Nat → Bool) :
    List Nat → List Nat × (Nat → Bool)
  | [] => ([], marks)
  | v :: vs =>
    if isIllegalInput v then
      let r := s.checkIndirectUse marks v
      let rest := markIndirectOnly isIllegalInput r.2 vs
      (if r.1 then v :: rest.1 else rest.1, rest.2)
    else markIndirectOnly isIllegalInput marks vs

/-- What `onlyOpUse` makes of a reader `o` of `v`, for the trial in slot `slot` of `opmatch`:
the trial's own slot is passed by; a branch, load or store ends the search; a call ends it
unless `checkCallDoubleUse` excuses it, and a return unless `opmatch` is a return reading `v`
in the same slot; any other op is followed. -/
def onlyOpStep (opmatch slot : Nat) (callDoubleUse : Nat → Nat → Bool) (o v : Nat) :
    ReaderStep :=
  if o = opmatch ∧ s.getIn o slot = some v then .skip
  else
    match s.codeOf o with
    | .branch | .cbranch | .branchind | .load | .store => .fail
    | .call | .callind => if callDoubleUse o v then .skip else .fail
    | .ret => if s.codeOf opmatch = .ret ∧ s.getIn o slot = some v then .skip else .fail
    | _ => .follow

/-- `Funcdata::onlyOpUse`: whether `invn` seems to be used only as the parameter in slot `slot`
of `opmatch`, with `isPersist` the persist flag of varnodes and `callDoubleUse` the answer of
`checkCallDoubleUse` for the trial; and the mark bits left. -/
def onlyOpUse (isPersist : Nat → Bool) (callDoubleUse : Nat → Nat → Bool) (opmatch slot : Nat)
    (marks : Nat → Bool) (invn : Nat) : Bool × (Nat → Bool) :=
  s.flowScan (s.onlyOpStep opmatch slot callDoubleUse) isPersist marks invn

/-! ### What a scan decides -/

/-- One step of the flow a scan follows: `v` is read by a followed op writing `w`. -/
def ScanFlow (v w : Nat) : Prop :=
  ∃ o ∈ s.descendOf v, step o v = .follow ∧ s.outputOf o = some w

/-- No reader of `v` ends the search: each is passed by, or followed into an output that does
not stop it. -/
def ReadersPass (v : Nat) : Prop :=
  ∀ o ∈ s.descendOf v, step o v ≠ .fail ∧
    (step o v = .follow → ∀ w, s.outputOf o = some w → stop w = false)

/-- No varnode that `vn` flows to has a reader that ends the search: what a scan decides. -/
def FlowClean (vn : Nat) : Prop :=
  ∀ w, Relation.ReflTransGen (s.ScanFlow step) vn w → s.ReadersPass step stop w

/-- What holds of a scan from `vn` at every point: the mark bits are those on entry `marks₀`
with the bits of `vlist` set, each clear on entry; `vlist` lists each varnode once, and only
varnodes that `vn` flows to. -/
structure ScanInv (marks₀ : Nat → Bool) (vn : Nat) (st : IndirectScan) : Prop where
  marks : ∀ u, st.marks u = (marks₀ u || decide (u ∈ st.vlist))
  fresh : ∀ u ∈ st.vlist, marks₀ u = false
  nodup : st.vlist.Nodup
  reach : ∀ u ∈ st.vlist, Relation.ReflTransGen (s.ScanFlow step) vn u

/-- The invariant of the `while` loop before round `i`: `vn` is in `vlist`, and no reader of
an entry before `i` ends the search, and the outputs of those followed are in `vlist`. -/
structure WorkInv (marks₀ : Nat → Bool) (vn i : Nat) (st : IndirectScan) : Prop where
  scan : s.ScanInv step marks₀ vn st
  start : vn ∈ st.vlist
  le : i ≤ st.vlist.length
  done : ∀ j < i, ∀ u, st.vlist[j]? = some u →
    s.ReadersPass step stop u ∧ ∀ w, s.ScanFlow step u w → w ∈ st.vlist

variable {s step stop} {marks₀ : Nat → Bool} {vn : Nat}

/-! ### One round -/

theorem vlist_prefix_scanReaders (v : Nat) :
    ∀ (ops : List Nat) (st : IndirectScan),
      st.vlist <+: (s.scanReaders step stop v ops st).1.vlist
  | [], _ => List.prefix_refl _
  | o :: ops, st => by
    unfold scanReaders
    split
    · exact vlist_prefix_scanReaders v ops st
    · exact List.prefix_refl _
    · split
      · split_ifs
        · exact List.prefix_refl _
        · exact vlist_prefix_scanReaders v ops st
        · exact (List.prefix_append _ _).trans (vlist_prefix_scanReaders v ops ⟨_ ++ [_], _⟩)
      · exact vlist_prefix_scanReaders v ops st

/-- A `false` answer names a reader that ends the search. -/
theorem scanReaders_false (v : Nat) :
    ∀ {ops : List Nat} {st : IndirectScan}, (s.scanReaders step stop v ops st).2 = false →
      ∃ o ∈ ops, step o v = .fail ∨
        step o v = .follow ∧ ∃ w, s.outputOf o = some w ∧ stop w = true
  | [], _, h => by cases h
  | o :: ops, st, h => by
    have hmem := List.mem_cons_self o ops
    have htail : ∀ {st'}, (s.scanReaders step stop v ops st').2 = false →
        ∃ p ∈ o :: ops, step p v = .fail ∨
          step p v = .follow ∧ ∃ w, s.outputOf p = some w ∧ stop w = true := fun h' => by
      obtain ⟨p, hp, hpf⟩ := scanReaders_false v h'
      exact ⟨p, List.mem_cons_of_mem _ hp, hpf⟩
    unfold scanReaders at h
    split at h
    · exact htail h
    · exact ⟨o, hmem, .inl ‹_›⟩
    · split at h
      · split_ifs at h with hs hm
        · exact ⟨o, hmem, .inr ⟨‹_›, _, ‹_›, hs⟩⟩
        · exact htail h
        · exact htail h
      · exact htail h

theorem ScanInv.push {st : IndirectScan} {w : Nat} (h : s.ScanInv step marks₀ vn st)
    (hw : st.marks w = false) (hr : Relation.ReflTransGen (s.ScanFlow step) vn w) :
    s.ScanInv step marks₀ vn ⟨st.vlist ++ [w], setMark st.marks w true⟩ where
  marks u := by
    by_cases hu : u = w
    · subst hu; simp [setMark]
    · simp [setMark, hu, h.marks u]
  fresh u hu := by
    rcases List.mem_append.mp hu with hu | hu
    · exact h.fresh u hu
    · rw [List.mem_singleton.mp hu]
      exact (Bool.or_eq_false_iff.mp ((h.marks w).symm.trans hw)).1
  nodup := h.nodup.append (List.nodup_singleton w) <| List.disjoint_singleton.mpr fun hm =>
    by simp [h.marks w, hm] at hw
  reach u hu := by
    rcases List.mem_append.mp hu with hu | hu
    · exact h.reach u hu
    · exact List.mem_singleton.mp hu ▸ hr

theorem ScanInv.scanReaders {v : Nat} :
    ∀ {ops : List Nat} {st : IndirectScan}, s.ScanInv step marks₀ vn st →
      (∀ o ∈ ops, step o v = .follow → ∀ w, s.outputOf o = some w →
        Relation.ReflTransGen (s.ScanFlow step) vn w) →
      s.ScanInv step marks₀ vn (s.scanReaders step stop v ops st).1
  | [], _, h, _ => h
  | o :: ops, st, h, hflow => by
    have hops := fun p hp => hflow p (List.mem_cons_of_mem o hp)
    unfold Funcdata.scanReaders
    split
    · exact ScanInv.scanReaders h hops
    · exact h
    · rename_i hf
      split
      next w hw =>
        split_ifs with hs hmw
        · exact h
        · exact ScanInv.scanReaders h hops
        · exact ScanInv.scanReaders
            (h.push (Bool.not_eq_true _ ▸ hmw) (hflow o (List.mem_cons_self _ _) hf w hw)) hops
      · exact ScanInv.scanReaders h hops

section Round

variable (hm : ∀ u, Relation.ReflTransGen (s.ScanFlow step) vn u → marks₀ u = false)
include hm

/-- A reachable varnode whose bit is set is in `vlist`. -/
theorem ScanInv.mem_of_marks {st : IndirectScan} {w : Nat} (h : s.ScanInv step marks₀ vn st)
    (hr : Relation.ReflTransGen (s.ScanFlow step) vn w) (hw : st.marks w = true) :
    w ∈ st.vlist := by
  simpa [h.marks w, hm w hr] using hw

/-- A `true` answer: no reader walked ends the search, and the output of every reader
followed is in `vlist`. -/
theorem scanReaders_true {v : Nat} :
    ∀ {ops : List Nat} {st : IndirectScan}, s.ScanInv step marks₀ vn st →
      (∀ o ∈ ops, step o v = .follow → ∀ w, s.outputOf o = some w →
        Relation.ReflTransGen (s.ScanFlow step) vn w) →
      (s.scanReaders step stop v ops st).2 = true →
      (∀ o ∈ ops, step o v ≠ .fail ∧
        (step o v = .follow → ∀ w, s.outputOf o = some w → stop w = false)) ∧
        ∀ o ∈ ops, step o v = .follow → ∀ w, s.outputOf o = some w →
          w ∈ (s.scanReaders step stop v ops st).1.vlist
  | [], _, _, _, _ => ⟨by simp, by simp⟩
  | o :: ops, st, h, hflow, hr => by
    have hops := fun p hp => hflow p (List.mem_cons_of_mem o hp)
    have hpre : ∀ st', st'.vlist <+: (s.scanReaders step stop v ops st').1.vlist :=
      vlist_prefix_scanReaders v ops
    unfold Funcdata.scanReaders at hr ⊢
    split at hr
    next hsk =>
      obtain ⟨h1, h2⟩ := scanReaders_true h hops hr
      exact ⟨List.forall_mem_cons.2 ⟨by simp [hsk], h1⟩,
        List.forall_mem_cons.2 ⟨by simp [hsk], h2⟩⟩
    next => cases hr
    next hf =>
      rcases hw : s.outputOf o with _ | w <;> simp only [hw] at hr ⊢
      · obtain ⟨h1, h2⟩ := scanReaders_true h hops hr
        exact ⟨List.forall_mem_cons.2 ⟨⟨by simp [hf], fun _ w' h' => by simp [hw] at h'⟩, h1⟩,
          List.forall_mem_cons.2 ⟨fun _ w' h' => by simp [hw] at h', h2⟩⟩
      · have hrw := hflow o (List.mem_cons_self _ _) hf w hw
        by_cases hs : stop w = true
        · simp [hs] at hr
        simp only [Bool.not_eq_true] at hs
        have hone : ∀ res : IndirectScan × Bool, res.2 = true →
            (∀ p ∈ ops, step p v ≠ .fail ∧
              (step p v = .follow → ∀ w, s.outputOf p = some w → stop w = false)) →
            (∀ o' ∈ o :: ops, step o' v ≠ .fail ∧
              (step o' v = .follow → ∀ w', s.outputOf o' = some w' → stop w' = false)) :=
          fun _ _ h1 => List.forall_mem_cons.2 ⟨⟨by simp [hf], fun _ w' h' => by
            rw [hw] at h'; cases h'; exact hs⟩, h1⟩
        by_cases hmw : st.marks w = true
        · simp only [hs, hmw, Bool.false_eq_true, ↓reduceIte] at hr ⊢
          obtain ⟨h1, h2⟩ := scanReaders_true h hops hr
          exact ⟨hone _ hr h1, List.forall_mem_cons.2 ⟨fun _ w' h' => by
            rw [hw] at h'; cases h'
            exact (hpre st).subset (h.mem_of_marks hm hrw hmw), h2⟩⟩
        · simp only [Bool.not_eq_true] at hmw
          simp only [hs, hmw, Bool.false_eq_true, ↓reduceIte] at hr ⊢
          obtain ⟨h1, h2⟩ := scanReaders_true (h.push hmw hrw) hops hr
          exact ⟨hone _ hr h1, List.forall_mem_cons.2 ⟨fun _ w' h' => by
            rw [hw] at h'; cases h'
            exact (hpre ⟨st.vlist ++ [w], setMark st.marks w true⟩).subset
              (List.mem_append_right _ (List.mem_singleton_self w)), h2⟩⟩

end Round

/-- A worklist walked to its end holds every varnode that `vn` flows to, so no reader of any of
them ends the search. -/
theorem WorkInv.flowClean {i : Nat} {st : IndirectScan} (h : s.WorkInv step stop marks₀ vn i st)
    (hi : st.vlist.length ≤ i) : s.FlowClean step stop vn := by
  have hdone : ∀ u ∈ st.vlist, s.ReadersPass step stop u ∧
      ∀ w, s.ScanFlow step u w → w ∈ st.vlist := fun u hu => by
    obtain ⟨j, hj⟩ := List.mem_iff_getElem?.1 hu
    exact h.done j (by have := (List.getElem?_eq_some_iff.1 hj).1; omega) u hj
  have hmem : ∀ w, Relation.ReflTransGen (s.ScanFlow step) vn w → w ∈ st.vlist := by
    intro w hw
    induction hw with
    | refl => exact h.start
    | tail _ hf ih => exact (hdone _ ih).2 _ hf
  exact fun w hw => (hdone w (hmem w hw)).1

/-- On a linked store a scan finds at most one varnode more than the bank holds: `vn`, and
outputs of ops, which are in the bank. -/
theorem ScanInv.length_le (hL : Linked s) {st : IndirectScan}
    (h : s.ScanInv step marks₀ vn st) : st.vlist.length ≤ s.vbank.length + 1 := by
  have hsub : st.vlist ⊆ vn :: List.range s.vbank.length := by
    intro u hu
    rcases (h.reach u hu).cases_tail with rfl | ⟨x, -, o, -, -, ho⟩
    · exact List.mem_cons_self _ _
    · have hv := hL.defs.vn_isSome ho
      exact List.mem_cons_of_mem _ <| List.mem_range.2 <| Nat.lt_of_not_le fun hl => by
        simp [vn_eq_none_of_le hl] at hv
  simpa using (List.subperm_of_subset h.nodup hsub).length_le

/-- Clearing the bits of `vlist` gives back the bits on entry. -/
theorem ScanInv.clearMarks_eq {st : IndirectScan} (h : s.ScanInv step marks₀ vn st) :
    clearMarks st.vlist st.marks = marks₀ := by
  funext u
  rw [clearMarks_apply, h.marks u]
  by_cases hu : u ∈ st.vlist
  · simp [hu, h.fresh u hu]
  · simp [hu]

/-- One round that answers `true` leads to the invariant before the next round. -/
theorem WorkInv.next {i u : Nat} {st st' : IndirectScan} (h : s.WorkInv step stop marks₀ vn i st)
    (hv : st.vlist[i]? = some u) (hinv : s.ScanInv step marks₀ vn st')
    (hpre : st.vlist <+: st'.vlist) (h1 : s.ReadersPass step stop u)
    (h2 : ∀ o ∈ s.descendOf u, step o u = .follow → ∀ w, s.outputOf o = some w →
      w ∈ st'.vlist) :
    s.WorkInv step stop marks₀ vn (i + 1) st' where
  scan := hinv
  start := hpre.subset h.start
  le := (List.getElem?_eq_some_iff.1 hv).1.trans_le hpre.length_le
  done j hj u' hu' := by
    obtain ⟨t, ht⟩ := hpre
    rcases Nat.lt_succ_iff_lt_or_eq.1 hj with hj | rfl
    · have hlt := h.le
      rw [← ht, List.getElem?_append_left (by omega)] at hu'
      obtain ⟨hr, hf⟩ := h.done j hj u' hu'
      exact ⟨hr, fun w hw => ht ▸ List.mem_append_left t (hf w hw)⟩
    · rw [← ht, List.getElem?_append_left (List.getElem?_eq_some_iff.1 hv).1, hv] at hu'
      cases hu'
      exact ⟨h1, fun w ⟨o, ho, hc, hw⟩ => h2 o ho hc w hw⟩

/-- The invariant before the first round: `vlist` holds `vn`, marked. -/
theorem WorkInv.init (hm : ∀ u, Relation.ReflTransGen (s.ScanFlow step) vn u → marks₀ u = false) :
    s.WorkInv step stop marks₀ vn 0 ⟨[vn], setMark marks₀ vn true⟩ where
  scan := ⟨fun u => by by_cases hu : u = vn <;> simp [setMark, hu],
    by simpa using hm vn .refl, List.nodup_singleton vn,
    fun u hu => List.mem_singleton.1 hu ▸ .refl⟩
  start := List.mem_singleton_self vn
  le := by simp
  done j hj := absurd hj (Nat.not_lt_zero j)

section Run

variable (hm : ∀ u, Relation.ReflTransGen (s.ScanFlow step) vn u → marks₀ u = false)
  (hL : Linked s)
include hm hL

/-- **The worklist loop.** From the invariant before round `i`, with fuel enough for every
round the bank allows, the loop keeps the invariant of the scan and answers whether no varnode
that `vn` flows to has a reader that ends the search. -/
theorem WorkInv.scanWorklist :
    ∀ {fuel i : Nat} {st : IndirectScan}, s.WorkInv step stop marks₀ vn i st →
      s.vbank.length + 1 ≤ fuel + i →
      s.ScanInv step marks₀ vn (s.scanWorklist step stop fuel i st).1 ∧
        ((s.scanWorklist step stop fuel i st).2 = true ↔ s.FlowClean step stop vn)
  | 0, i, st, h, hf => by
    have := h.scan.length_le hL
    exact ⟨h.scan, iff_of_true rfl (h.flowClean (by omega))⟩
  | fuel + 1, i, st, h, hf => by
    unfold Funcdata.scanWorklist
    rcases hv : st.vlist[i]? with _ | u
    · exact ⟨h.scan, iff_of_true rfl (h.flowClean (List.getElem?_eq_none_iff.1 hv))⟩
    · dsimp only
      have hu := h.scan.reach u (List.mem_iff_getElem?.2 ⟨i, hv⟩)
      have hflow : ∀ o ∈ s.descendOf u, step o u = .follow → ∀ w,
          s.outputOf o = some w → Relation.ReflTransGen (s.ScanFlow step) vn w :=
        fun o ho hc w hw => hu.tail ⟨o, ho, hc, hw⟩
      have hinv : s.ScanInv step marks₀ vn (s.scanReaders step stop u (s.descendOf u) st).1 :=
        h.scan.scanReaders hflow
      have hpre : st.vlist <+: (s.scanReaders step stop u (s.descendOf u) st).1.vlist :=
        vlist_prefix_scanReaders u _ st
      rcases hr : s.scanReaders step stop u (s.descendOf u) st with ⟨st', _ | _⟩
      · rw [hr] at hinv
        obtain ⟨o, ho, hfail⟩ := scanReaders_false u (by rw [hr])
        refine ⟨hinv, iff_of_false Bool.false_ne_true fun hc => ?_⟩
        have := hc u hu o ho
        rcases hfail with hfail | ⟨hfo, w, hw, hs⟩
        · exact this.1 hfail
        · exact absurd (this.2 hfo w hw) (by simp [hs])
      · obtain ⟨h1, h2⟩ := scanReaders_true hm h.scan hflow (by rw [hr])
        rw [hr] at hinv hpre h2
        exact WorkInv.scanWorklist (h.next hv hinv hpre h1 h2) (by omega)

/-- **A marked scan decides its question.** On a linked store, from mark bits clear on every
varnode the flow of `vn` reaches, the scan answers `true` exactly when no varnode that `vn`
flows to has a reader that ends the search, and it leaves the mark bits as it found them. -/
theorem flowScan_spec :
    ((s.flowScan step stop marks₀ vn).1 = true ↔ s.FlowClean step stop vn) ∧
      (s.flowScan step stop marks₀ vn).2 = marks₀ :=
  have h := (WorkInv.init hm).scanWorklist hm hL (by omega)
  ⟨h.2, h.1.clearMarks_eq⟩

end Run

/-! ### `checkIndirectUse` and `markIndirectOnly` -/

/-- One step of the flow `checkIndirectUse` follows: `v` is read by a `MULTIEQUAL` writing `w`. -/
def MultiFlow (v w : Nat) : Prop :=
  ∃ o ∈ s.descendOf v, s.codeOf o = .multiequal ∧ s.outputOf o = some w

/-- Every reader of `v` is an `INDIRECT` or a `MULTIEQUAL`. -/
def ReadByIndirect (v : Nat) : Prop :=
  ∀ o ∈ s.descendOf v, s.codeOf o = .indirect ∨ s.codeOf o = .multiequal

/-- Every varnode that `vn` flows to through `MULTIEQUAL`s is read only by `INDIRECT`s and
`MULTIEQUAL`s: every flow of `vn` ends in an `INDIRECT`. -/
def IndirectOnly (vn : Nat) : Prop :=
  ∀ w, Relation.ReflTransGen s.MultiFlow vn w → s.ReadByIndirect w

theorem indirectStep_follow {o v : Nat} :
    s.indirectStep o v = .follow ↔ s.codeOf o = .multiequal := by
  unfold indirectStep
  split_ifs <;> simp_all

theorem scanFlow_indirectStep : s.ScanFlow s.indirectStep = s.MultiFlow := by
  funext v w
  simp only [ScanFlow, MultiFlow, indirectStep_follow]

theorem flowClean_indirectStep :
    s.FlowClean s.indirectStep (fun _ => false) vn ↔ s.IndirectOnly vn := by
  rw [FlowClean, IndirectOnly, scanFlow_indirectStep]
  refine forall₂_congr fun w _ => forall₂_congr fun o _ => ?_
  unfold indirectStep
  split_ifs <;> simp_all

section Indirect

variable (hL : Linked s)
include hL

theorem checkIndirectUse_fst (hm : ∀ u, Relation.ReflTransGen s.MultiFlow vn u → marks₀ u = false) :
    (s.checkIndirectUse marks₀ vn).1 = true ↔ s.IndirectOnly vn :=
  ((flowScan_spec (scanFlow_indirectStep ▸ hm) hL).1).trans flowClean_indirectStep

theorem checkIndirectUse_snd (hm : ∀ u, Relation.ReflTransGen s.MultiFlow vn u → marks₀ u = false) :
    (s.checkIndirectUse marks₀ vn).2 = marks₀ :=
  (flowScan_spec (scanFlow_indirectStep ▸ hm) hL).2

end Indirect

/-- **`checkIndirectUse` decides indirect-only flow.** On a linked store, from mark bits that are
clear on every varnode the flow of `vn` reaches, the search answers `true` exactly when every
varnode that `vn` flows to through `MULTIEQUAL`s is read only by `INDIRECT`s and `MULTIEQUAL`s,
and it leaves the mark bits as it found them. -/
theorem checkIndirectUse_spec (hL : Linked s) {marks : Nat → Bool}
    (hm : ∀ u, Relation.ReflTransGen s.MultiFlow vn u → marks u = false) :
    ((s.checkIndirectUse marks vn).1 = true ↔ s.IndirectOnly vn) ∧
      (s.checkIndirectUse marks vn).2 = marks :=
  ⟨checkIndirectUse_fst hL hm, checkIndirectUse_snd hL hm⟩

/-- **`markIndirectOnly` flags exactly the indirect-only illegal inputs.** On a linked store,
from mark bits clear wherever the flow of an input reaches, the inputs flagged are exactly the
illegal inputs every flow of which hits only `INDIRECT`s: each search leaves the bits as it
found them, so each input is judged on the bits on entry. -/
theorem markIndirectOnly_spec (hL : Linked s) (isIllegalInput : Nat → Bool) :
    ∀ {inputs : List Nat} {marks : Nat → Bool},
      (∀ v ∈ inputs, ∀ u, Relation.ReflTransGen s.MultiFlow v u → marks u = false) →
      (∀ v, v ∈ (s.markIndirectOnly isIllegalInput marks inputs).1 ↔
        v ∈ inputs ∧ isIllegalInput v = true ∧ s.IndirectOnly v) ∧
        (s.markIndirectOnly isIllegalInput marks inputs).2 = marks
  | [], _, _ => ⟨by simp [markIndirectOnly], rfl⟩
  | v :: vs, marks, hm => by
    have hv := hm v (List.mem_cons_self _ _)
    obtain ⟨ih, ihm⟩ := markIndirectOnly_spec hL isIllegalInput fun w hw =>
      hm w (List.mem_cons_of_mem v hw)
    unfold Funcdata.markIndirectOnly
    by_cases hi : isIllegalInput v = true
    · simp only [hi, ↓reduceIte, checkIndirectUse_snd hL hv]
      refine ⟨fun w => ?_, ihm⟩
      by_cases hc : (s.checkIndirectUse marks v).1 = true
      · have hio := (checkIndirectUse_fst hL hv).1 hc
        simp only [hc, ↓reduceIte, List.mem_cons, ih]
        constructor
        · rintro (rfl | h) <;> [exact ⟨.inl rfl, hi, hio⟩; exact ⟨.inr h.1, h.2⟩]
        · rintro ⟨rfl | h, h'⟩ <;> [exact .inl rfl; exact .inr ⟨h, h'⟩]
      · have hio := mt (checkIndirectUse_fst hL hv).2 hc
        simp only [hc, Bool.false_eq_true, ↓reduceIte, List.mem_cons, ih]
        constructor
        · exact fun h => ⟨.inr h.1, h.2⟩
        · rintro ⟨rfl | h, h'⟩ <;> [exact absurd h'.2 hio; exact ⟨h, h'⟩]
    · simp only [hi, Bool.false_eq_true, ↓reduceIte, List.mem_cons]
      refine ⟨fun w => ?_, ihm⟩
      rw [ih]
      constructor
      · exact fun h => ⟨.inr h.1, h.2⟩
      · rintro ⟨rfl | h, h'⟩ <;> [exact absurd h'.1 hi; exact ⟨h, h'⟩]

/-- A store with two inputs merged by a `MULTIEQUAL` whose output only an `INDIRECT` reads, and a
third input read by a `COPY`. -/
def phiStore : Funcdata where
  glb := ⟨⟨0, .constant, 2 ^ 64 - 1, false, 1⟩, ⟨2, .internal, 2 ^ 64 - 1, false, 1⟩,
    ⟨3, .iop, 2 ^ 64 - 1, false, 1⟩, rfl, rfl, rfl⟩
  vbank := [
    some { loc := ⟨⟨1, .processor, 0xffffffff, false, 1⟩, 0x10⟩, size := 4, input := true,
           descend := [0] },
    some { loc := ⟨⟨1, .processor, 0xffffffff, false, 1⟩, 0x10⟩, size := 4, input := true,
           descend := [0] },
    some { loc := ⟨⟨1, .processor, 0xffffffff, false, 1⟩, 0x10⟩, size := 4, defOp := some 0,
           descend := [1] },
    some { loc := ⟨⟨3, .iop, 2 ^ 64 - 1, false, 1⟩, 2⟩, size := 4, descend := [1] },
    some { loc := ⟨⟨1, .processor, 0xffffffff, false, 1⟩, 0x10⟩, size := 4, defOp := some 1 },
    some { loc := ⟨⟨1, .processor, 0xffffffff, false, 1⟩, 0x14⟩, size := 4, input := true,
           descend := [2] },
    some { loc := ⟨⟨2, .internal, 2 ^ 64 - 1, false, 1⟩, 0⟩, size := 4, defOp := some 2 }]
  obank := [
    some { code := .multiequal, addr := ⟨⟨1, .processor, 0xffffffff, false, 1⟩, 0x100⟩,
           inrefs := [some 0, some 1], output := some 2, parent := some 0 },
    some { code := .indirect, addr := ⟨⟨1, .processor, 0xffffffff, false, 1⟩, 0x104⟩,
           inrefs := [some 2, some 3], output := some 4, parent := some 0 },
    some { code := .copy, addr := ⟨⟨1, .processor, 0xffffffff, false, 1⟩, 0x108⟩,
           inrefs := [some 5], output := some 6, parent := some 0 }]
  bblocks := [{ ops := [0, 1, 2] }]
  uniqId := 16

theorem checkIndirectUse_spec_phiStore :
    Linked phiStore ∧
      ((phiStore.checkIndirectUse (fun _ => false) 0).1 = true ↔ phiStore.IndirectOnly 0) ∧
        (phiStore.checkIndirectUse (fun _ => false) 0).2 = fun _ => false :=
  have h : Linked phiStore := Linked.of_check (by decide)
  ⟨h, checkIndirectUse_spec h fun _ _ => rfl⟩

theorem markIndirectOnly_spec_phiStore :
    Linked phiStore ∧
      (∀ v, v ∈ (phiStore.markIndirectOnly (fun _ => true) (fun _ => false) [0, 1, 5]).1 ↔
        v ∈ [0, 1, 5] ∧ (fun _ => true) v = true ∧ phiStore.IndirectOnly v) ∧
        (phiStore.markIndirectOnly (fun _ => true) (fun _ => false) [0, 1, 5]).2 =
          fun _ => false :=
  have h : Linked phiStore := Linked.of_check (by decide)
  ⟨h, markIndirectOnly_spec h (fun _ => true) fun _ _ _ _ => rfl⟩

/-- The two merged inputs only reach the `INDIRECT`; the third reaches a `COPY`. -/
example :
    (phiStore.markIndirectOnly (fun _ => true) (fun _ => false) [0, 1, 5]).1 = [0, 1] := by
  decide

/-! ### `onlyOpUse` -/

/-- **`onlyOpUse` decides a single use.** On a linked store, from mark bits clear wherever the
flow of `invn` through ops that are not uses reaches, `onlyOpUse` answers `true` exactly when no
varnode that `invn` flows to is read by a branch, load, store, or by a call or return that the
trial does not excuse, and no op it flows through writes a persistent varnode; it leaves the
mark bits as it found them. -/
theorem onlyOpUse_spec (hL : Linked s) (isPersist : Nat → Bool)
    (callDoubleUse : Nat → Nat → Bool) (opmatch slot : Nat) {marks : Nat → Bool} {invn : Nat}
    (hm : ∀ u, Relation.ReflTransGen (s.ScanFlow (s.onlyOpStep opmatch slot callDoubleUse))
      invn u → marks u = false) :
    ((s.onlyOpUse isPersist callDoubleUse opmatch slot marks invn).1 = true ↔
      ∀ w, Relation.ReflTransGen (s.ScanFlow (s.onlyOpStep opmatch slot callDoubleUse)) invn w →
        ∀ o ∈ s.descendOf w, s.onlyOpStep opmatch slot callDoubleUse o w ≠ .fail ∧
          (s.onlyOpStep opmatch slot callDoubleUse o w = .follow →
            ∀ u, s.outputOf o = some u → isPersist u = false)) ∧
      (s.onlyOpUse isPersist callDoubleUse opmatch slot marks invn).2 = marks :=
  flowScan_spec hm hL

/-- A store where an input is passed in slot 1 of a `CALL` and copied into a varnode nothing
reads. -/
def callStore : Funcdata where
  glb := ⟨⟨0, .constant, 2 ^ 64 - 1, false, 1⟩, ⟨2, .internal, 2 ^ 64 - 1, false, 1⟩,
    ⟨3, .iop, 2 ^ 64 - 1, false, 1⟩, rfl, rfl, rfl⟩
  vbank := [
    some { loc := ⟨⟨1, .processor, 0xffffffff, false, 1⟩, 0x10⟩, size := 4, input := true,
           descend := [0, 1] },
    some { loc := ⟨⟨2, .internal, 2 ^ 64 - 1, false, 1⟩, 0⟩, size := 4, defOp := some 1 },
    some { loc := ⟨⟨1, .processor, 0xffffffff, false, 1⟩, 0x4000⟩, size := 1, descend := [0] }]
  obank := [
    some { code := .call, addr := ⟨⟨1, .processor, 0xffffffff, false, 1⟩, 0x100⟩,
           inrefs := [some 2, some 0], parent := some 0 },
    some { code := .copy, addr := ⟨⟨1, .processor, 0xffffffff, false, 1⟩, 0x104⟩,
           inrefs := [some 0], output := some 1, parent := some 0 }]
  bblocks := [{ ops := [1, 0] }]
  uniqId := 16

theorem onlyOpUse_spec_callStore :
    Linked callStore ∧
      (∀ u, Relation.ReflTransGen (callStore.ScanFlow (callStore.onlyOpStep 0 1 fun _ _ => false))
        0 u → (fun _ => false : Nat → Bool) u = false) ∧
      ((callStore.onlyOpUse (fun _ => false) (fun _ _ => false) 0 1 (fun _ => false) 0).1 = true ↔
        ∀ w, Relation.ReflTransGen (callStore.ScanFlow (callStore.onlyOpStep 0 1 fun _ _ => false))
            0 w →
          ∀ o ∈ callStore.descendOf w, callStore.onlyOpStep 0 1 (fun _ _ => false) o w ≠ .fail ∧
            (callStore.onlyOpStep 0 1 (fun _ _ => false) o w = .follow →
              ∀ u, callStore.outputOf o = some u → (fun _ => false : Nat → Bool) u = false)) ∧
      (callStore.onlyOpUse (fun _ => false) (fun _ _ => false) 0 1 (fun _ => false) 0).2 =
        fun _ => false :=
  have h : Linked callStore := Linked.of_check (by decide)
  ⟨h, fun _ _ => rfl, onlyOpUse_spec h (fun _ => false) (fun _ _ => false) 0 1 fun _ _ => rfl⟩

/-- The input is used only as the parameter: the copy's output is not persistent and is read
by nothing. -/
example :
    (callStore.onlyOpUse (fun _ => false) (fun _ _ => false) 0 1 (fun _ => false) 0).1 = true := by
  decide

end Funcdata

end GhidraDec
