import GhidraDec.Funcdata.BlockEdit
import GhidraDec.Funcdata.AdjustInputs

/-!
# Splitting the Uses of a Varnode

`Funcdata::splitUses(vn)` (`funcdata_varnode.cc`) gives each read of `vn` its own copy of the
op defining `vn`: for each reader it builds a copy of the defining op, with the same op-code,
address and inputs and a new output at `vn`'s storage, places it before the defining op, and
makes the reading slot read the new output.

The loop walks the live reader list of `vn` with an iterator. `opSetInput` on the reader
erases the first entry of that reader from the list, which lies before the iterator, so the
iterator always stands at the head of the list: the loop takes the head of the live list
until the list is empty. And the copy's inputs are set with `opSetInput` too, so where the
defining op reads `vn` itself, every copy made before the defining op's own turn reads `vn`
and joins the list: the loop then makes more copies than there were reads, and the copies
read the defining op's new output.

## Main results

* `splitUsesRound_spec`: a round keeps the linkage, takes its reader off the head of the list
  and appends the copy once per slot in which the defining op reads `vn`;
* `splitUses_of_not_self`: when the defining op does not read `vn`, the loop makes exactly one
  copy per read and leaves `vn` with no readers;
* `splitUses_self_loop`: a `MULTIEQUAL` reading its own output, with one other reader, gets
  three copies for its two reads, and its new output has three readers.
-/

namespace GhidraDec

namespace Funcdata

variable (s : Funcdata)

/-- One round of the loop of `Funcdata::splitUses` on the reader `useop` of `v`, which `op`
defines: a copy of `op` with a new output at `v`'s storage (`loc`, `size`), placed before
`op`, and the slot of `useop` that reads `v` reads the copy's output instead. -/
def splitUsesRound (v op : Nat) (loc : Address) (size useop : Nat) : Funcdata :=
  let slot := s.getSlot useop v
  let (s, newop) := s.newOp (s.inrefsOf op).length (s.opAddr op)
  let (s, newvn) := s.newVarnode size loc
  let s := s.opSetOutput newop newvn
  let s := s.opSetOpcode newop (s.codeOf op)
  let s := (List.range (s.inrefsOf op).length).foldl (fun s i =>
    match s.getIn op i with
    | some w => s.opSetInput newop w i
    | none => s) s
  let s := s.opSetInput useop newvn slot
  s.opInsertBefore newop op

/-- The loop of `Funcdata::splitUses`, for at most `fuel` rounds: while `v` has readers, a
round on the first. -/
def splitUsesLoop (v op : Nat) (loc : Address) (size : Nat) : Nat → Funcdata → Funcdata
  | 0, s => s
  | fuel + 1, s =>
    match s.descendOf v with
    | [] => s
    | useop :: _ => splitUsesLoop v op loc size fuel (s.splitUsesRound v op loc size useop)

/-- `Funcdata::splitUses`: nothing for a varnode with fewer than two readers; otherwise the
loop. Before the defining op's own round each round appends at most one copy per input slot,
so `readers × (inputs + 1)` rounds are enough. -/
def splitUses (v : Nat) : Funcdata :=
  match s.vn v, s.defOf v with
  | some x, some op =>
    match s.descendOf v with
    | [] | [_] => s
    | _ => splitUsesLoop v op x.loc x.size
        ((s.descendOf v).length * ((s.inrefsOf op).length + 1)) s
  | _, _ => s

variable {s} {t : Funcdata} {v op c k o w x : Nat}

/-! ### Store lemmas -/

theorem opSetOutput_fresh (ho : s.outputOf o = none) (hv : s.defOf w = none) :
    s.opSetOutput o w = (s.setDefField w (some o)).setOutputField o (some w) := by
  simp [opSetOutput, ho, hv]

theorem length_obank_opInsertBefore (o follow : Nat) :
    (s.opInsertBefore o follow).obank.length = s.obank.length := by
  unfold opInsertBefore; split
  · simp [opInsert, modifyOp, modifyBlock]
  · rfl

theorem Linked.opInsertBefore (h : Linked s) (o follow : Nat) :
    Linked (s.opInsertBefore o follow) := by
  unfold Funcdata.opInsertBefore; split
  · exact h.opInsert ..
  · exact h

theorem isSome_vn_of_storageOf (h : t.storageOf x = s.storageOf x) :
    (t.vn x).isSome = (s.vn x).isSome := by
  have := congrArg Option.isSome h
  simpa [storageOf] using this

theorem not_constant_of_storageOf (h : t.storageOf x = s.storageOf x)
    (hx : ∀ y, s.vn x = some y → y.isConstant = false) :
    ∀ y, t.vn x = some y → y.isConstant = false := by
  intro y hy
  cases hs : s.vn x with
  | none => simp [storageOf, hy, hs] at h
  | some z =>
    simp only [storageOf, hy, hs, Option.map_some', Option.some.injEq, Prod.mk.injEq] at h
    simpa [Varnode.isConstant, h.1] using hx z hs

/-! ### The input loop of a round -/

/-- The copy `c` of `op` after the input loop of a round has set its first `k` slots, from
the store `s` in which `c` was made: the slots of `c` from `k` on are still empty, `v` has
gained `c` once for each of the first `k` slots of `op` that read it, and the other ops and
the varnodes of `s` are as they were. -/
structure InputsCopied (s t : Funcdata) (v op c k : Nat) : Prop where
  linked : Linked t
  olen : t.obank.length = s.obank.length
  vlen : s.vbank.length ≤ t.vbank.length
  readers : t.descendOf v =
    s.descendOf v ++ List.replicate (((s.inrefsOf op).take k).count (some v)) c
  storageOf : ∀ x < s.vbank.length, t.storageOf x = s.storageOf x
  getIn : ∀ p ≠ c, ∀ j, t.getIn p j = s.getIn p j
  fresh : ∀ j, k ≤ j → t.getIn c j = none
  slots : (t.inrefsOf c).length = (s.inrefsOf op).length

/-- **One turn of the input loop**: slot `k` of the copy gets what slot `k` of `op` reads. -/
theorem InputsCopied.step (hI : InputsCopied s t v op c k) (hs : Linked s) (hco : c ≠ op)
    (hv : ∀ y, s.vn v = some y → y.isConstant = false) (hvl : v < s.vbank.length)
    (hk : k < (s.inrefsOf op).length) :
    InputsCopied s (match t.getIn op k with
      | some w => t.opSetInput c w k
      | none => t) v op c (k + 1) := by
  have htake : (s.inrefsOf op).take (k + 1) = (s.inrefsOf op).take k ++ [s.getIn op k] := by
    rw [List.take_succ, List.getElem?_eq_getElem hk, getIn_of_lt hk]; rfl
  rw [hI.getIn op (Ne.symm hco) k]
  cases hi : s.getIn op k with
  | none =>
    refine { hI with readers := ?_, fresh := fun j hj => hI.fresh j (by omega) }
    simp [hI.readers, htake, hi]
  | some w =>
    have hne : t.getIn c k ≠ some w := by simp [hI.fresh k le_rfl]
    have hws : w < s.vbank.length := lt_of_vn_isSome (hs.readers.vn_isSome hi)
    have hw : (t.vn w).isSome := by
      rw [isSome_vn_of_storageOf (hI.storageOf w hws)]; exact hs.readers.vn_isSome hi
    have hkc : k < (t.inrefsOf c).length := hI.slots ▸ hk
    refine ⟨hI.linked.opSetInput hw hkc, by rw [length_obank_opSetInput, hI.olen],
      hI.vlen.trans (length_vbank_opSetInput ..), ?_,
      fun x hx => by rw [storageOf_opSetInput (hx.trans_le hI.vlen), hI.storageOf x hx],
      fun p hp j => by rw [getIn_opSetInput_of_ne hp, hI.getIn p hp j],
      fun j hj => by rw [getIn_opSetInput_of_slot_ne (by omega), hI.fresh j (by omega)],
      by rw [inrefsOf_opSetInput hne, if_pos rfl, List.length_set, hI.slots]⟩
    rw [descendOf_opSetInput hI.linked.readers hne hw, hI.fresh k le_rfl, htake]
    by_cases hwv : w = v
    · subst hwv
      rw [inputCandidate_of_not_constant (not_constant_of_storageOf (hI.storageOf w hvl) hv)]
      simp [hI.readers, hi, List.replicate_succ']
    · have hcand : v ≠ (t.inputCandidate w).2 := by
        rcases t.inputCandidate_snd w with h | h <;> rw [h]
        · exact Ne.symm hwv
        · have := hI.vlen; omega
      simp [hcand, hI.readers, hi, Ne.symm hwv]

theorem InputsCopied.start (h : Linked s) (hf : ∀ j, s.getIn c j = none)
    (hn : (s.inrefsOf c).length = (s.inrefsOf op).length) : InputsCopied s s v op c 0 :=
  ⟨h, rfl, le_rfl, by simp, fun _ _ => rfl, fun _ _ _ => rfl, fun j _ => hf j, hn⟩

/-- **The input loop**, by induction on the number of slots set. -/
theorem InputsCopied.loop (h0 : InputsCopied s s v op c 0) (hs : Linked s) (hco : c ≠ op)
    (hv : ∀ y, s.vn v = some y → y.isConstant = false) (hvl : v < s.vbank.length) :
    ∀ k ≤ (s.inrefsOf op).length, InputsCopied s ((List.range k).foldl (fun t i =>
      match t.getIn op i with
      | some w => t.opSetInput c w i
      | none => t) s) v op c k
  | 0, _ => h0
  | k + 1, hk => by
    rw [List.range_succ, List.foldl_append]
    exact (InputsCopied.loop h0 hs hco hv hvl k (by omega)).step hs hco hv hvl hk

@[simp] theorem descendOf_opInsertBefore (o follow : Nat) :
    (s.opInsertBefore o follow).descendOf = s.descendOf := by
  unfold opInsertBefore; split <;> rfl

@[simp] theorem storageOf_opInsertBefore (o follow : Nat) :
    (s.opInsertBefore o follow).storageOf = s.storageOf := by
  unfold opInsertBefore; split <;> rfl

@[simp] theorem getIn_opInsertBefore (o follow : Nat) :
    (s.opInsertBefore o follow).getIn = s.getIn := by
  unfold opInsertBefore; split
  · exact getIn_opInsert ..
  · rfl

/-- The copy before its inputs are set: a new op of `n` empty slots whose output is a new
varnode at `loc`. -/
theorem shell_spec (h : Linked s) (n : Nat) (pc : Address) (size : Nat) (loc : Address)
    (code : OpCode) :
    let t := (((s.newOp n pc).1.newVarnode size loc).1.opSetOutput s.obank.length
      s.vbank.length).opSetOpcode s.obank.length code
    Linked t ∧ t.obank.length = s.obank.length + 1 ∧ t.vbank.length = s.vbank.length + 1 ∧
      (∀ x < s.vbank.length, t.descendOf x = s.descendOf x ∧ t.storageOf x = s.storageOf x) ∧
      t.storageOf s.vbank.length = some (loc, size) ∧
      (∀ p < s.obank.length, t.inrefsOf p = s.inrefsOf p) ∧
      (∀ j, t.getIn s.obank.length j = none) ∧ (t.inrefsOf s.obank.length).length = n := by
  intro t
  have hout : ((s.newOp n pc).1.newVarnode size loc).1.outputOf s.obank.length = none := by
    simp [newOp, newVarnode, outputOf]
  have hdef : ((s.newOp n pc).1.newVarnode size loc).1.defOf s.vbank.length = none := by
    simp [newOp, createOp, newVarnode, defOf]
  have ht : t = ((((s.newOp n pc).1.newVarnode size loc).1.setDefField s.vbank.length
      (some s.obank.length)).setOutputField s.obank.length (some s.vbank.length)).opSetOpcode
        s.obank.length code := by
    simp only [t, opSetOutput_fresh hout hdef]
  refine ⟨((h.newOp n pc).createVn rfl rfl).opSetOutput (by simp [newOp, newVarnode])
    (by simp [newOp, createOp, newVarnode]) |>.opSetOpcode .., ?_⟩
  rw [ht]
  refine ⟨by simp [opSetOpcode, setOutputField, setDefField, newVarnode],
    by simp [opSetOpcode, setOutputField, setDefField, newVarnode], fun x hx => ?_,
    by simp [newVarnode], fun p hp => ?_, fun j => ?_, ?_⟩
  · simp only [opSetOpcode, descendOf_modifyOp, descendOf_setOutputField, descendOf_setDefField,
      storageOf_modifyOp, storageOf_setOutputField, storageOf_setDefField, newVarnode,
      storageOf_createVn, length_vbank_newOp, hx.ne, if_false]
    simp [descendOf, storageOf, hx.ne]
  · simp only [inrefsOf_opSetOpcode, inrefsOf_setOutputField, inrefsOf_setDefField, newVarnode,
      inrefsOf_createVn]
    simp [newOp, inrefsOf, hp.ne]
  · simp [newVarnode, getIn_newOp]
  · simp only [inrefsOf_opSetOpcode, inrefsOf_setOutputField, inrefsOf_setDefField, newVarnode,
      inrefsOf_createVn]
    simp [newOp, inrefsOf]

/-! ### A round and the loop -/

/-- What a round of `splitUses` on the reader `useop` of `v` leaves, from the store `s` it
starts in: the invariant; one op more; `useop` gone from the head of `v`'s readers, and the
copy appended once for each slot of `op` that reads `v`; the storage of `v`; and the slots of
the ops other than `useop`. -/
structure SplitRound (s t : Funcdata) (v op useop : Nat) (rest : List Nat) : Prop where
  linked : Linked t
  olen : t.obank.length = s.obank.length + 1
  readers : t.descendOf v =
    rest ++ List.replicate ((s.inrefsOf op).count (some v)) s.obank.length
  storageOf : t.storageOf v = s.storageOf v
  getIn : ∀ p < s.obank.length, p ≠ useop → ∀ j, t.getIn p j = s.getIn p j

theorem splitUsesRound_spec (loc : Address) (size : Nat) {useop : Nat} {rest : List Nat}
    (h : Linked s)
    (hv : ∀ y, s.vn v = some y → y.isConstant = false)
    (hd : s.descendOf v = useop :: rest) (hop : op < s.obank.length) :
    SplitRound s (s.splitUsesRound v op loc size useop) v op useop rest := by
  have hslot : s.getIn useop (s.getSlot useop v) = some v :=
    getIn_getSlot (h.readers.mem_inrefs (hd ▸ List.mem_cons_self useop rest))
  have hvl : v < s.vbank.length := lt_of_vn_isSome (h.readers.vn_isSome hslot)
  have huse : useop < s.obank.length := lt_of_getIn_eq_some hslot
  unfold splitUsesRound
  dsimp only
  simp only [newOp_snd, newVarnode_snd, length_vbank_newOp]
  generalize (((s.newOp (s.inrefsOf op).length (s.opAddr op)).1.newVarnode size loc).1.opSetOutput
    s.obank.length s.vbank.length).codeOf op = code
  obtain ⟨h₀, holen, hvlen, hold, hnew, hrefs, hfresh, hslots⟩ :=
    shell_spec h (s.inrefsOf op).length (s.opAddr op) size loc code
  generalize (((s.newOp (s.inrefsOf op).length (s.opAddr op)).1.newVarnode size loc).1.opSetOutput
    s.obank.length s.vbank.length).opSetOpcode s.obank.length code = t₀ at *
  have hco : s.obank.length ≠ op := hop.ne'
  generalize hIdef : List.foldl _ t₀ _ = I
  have hI : InputsCopied t₀ I v op s.obank.length (t₀.inrefsOf op).length := by
    rw [← hIdef]
    exact (InputsCopied.start h₀ hfresh (by rw [hslots, hrefs op hop])).loop h₀ hco
      (not_constant_of_storageOf (hold v hvl).2 hv) (by omega) _ le_rfl
  have hI₀ : I.getIn useop (s.getSlot useop v) = some v := by
    rw [hI.getIn useop huse.ne, getIn, hrefs useop huse]; exact hslot
  have hnv : (I.vn s.vbank.length).isSome := by
    have := congrArg Option.isSome ((hI.storageOf _ (by omega)).trans hnew)
    simpa [storageOf] using this
  refine ⟨(hI.linked.opSetInput hnv (lt_of_getIn hI₀)).opInsertBefore ..,
    by rw [length_obank_opInsertBefore, length_obank_opSetInput, hI.olen, holen], ?_, ?_,
    fun p hp hpu j => ?_⟩
  · rw [descendOf_opInsertBefore, descendOf_opSetInput_old hI.linked hI₀ (by omega), hI.readers,
      List.take_length, (hold v hvl).1, hd, hrefs op hop, List.cons_append, List.erase_cons_head]
  · rw [storageOf_opInsertBefore, storageOf_opSetInput (by have := hI.vlen; omega),
      hI.storageOf v (by omega), (hold v hvl).2]
  · rw [getIn_opInsertBefore, getIn_opSetInput_of_ne hpu, hI.getIn p hp.ne, getIn, hrefs p hp]
    rfl

theorem count_inrefsOf_eq_zero (hn : ∀ j, s.getIn op j ≠ some v) :
    (s.inrefsOf op).count (some v) = 0 := by
  refine List.count_eq_zero.mpr fun hm => ?_
  obtain ⟨j, hj⟩ := List.mem_iff_getElem?.mp hm
  exact hn j (getIn_eq_some_iff.mpr hj)

/-- **The loop when `op` does not read `v`** (by induction on the fuel): each round takes its
reader off the list and appends nothing, so the loop ends with no readers of `v` after exactly
one round per reader. -/
theorem splitUsesLoop_of_not_self (loc : Address) (size : Nat) :
    ∀ (fuel : Nat) (t : Funcdata), Linked t → (∀ y, t.vn v = some y → y.isConstant = false) →
      op < t.obank.length → (∀ j, t.getIn op j ≠ some v) → (t.descendOf v).length ≤ fuel →
      (splitUsesLoop v op loc size fuel t).descendOf v = [] ∧
        (splitUsesLoop v op loc size fuel t).obank.length =
          t.obank.length + (t.descendOf v).length
  | 0, t, _, _, _, _, hf => by
    simp [splitUsesLoop, List.eq_nil_of_length_eq_zero (Nat.le_zero.mp hf)]
  | fuel + 1, t, h, hv, hop, hn, hf => by
    cases hd : t.descendOf v with
    | nil => simp [splitUsesLoop, hd]
    | cons useop rest =>
      have hR := splitUsesRound_spec loc size h hv hd hop
      have huse : useop ≠ op := fun he => hn _ (he ▸ getIn_getSlot
        (h.readers.mem_inrefs (hd ▸ List.mem_cons_self useop rest)))
      have hrd : (t.splitUsesRound v op loc size useop).descendOf v = rest := by
        rw [hR.readers, count_inrefsOf_eq_zero hn, List.replicate_zero, List.append_nil]
      have ih := splitUsesLoop_of_not_self loc size fuel _ hR.linked
        (not_constant_of_storageOf hR.storageOf hv) (by rw [hR.olen]; omega)
        (fun j => by rw [hR.getIn op hop (Ne.symm huse) j]; exact hn j)
        (by rw [hrd]; rw [hd] at hf; simpa using hf)
      simp only [splitUsesLoop, hd, ih.1, ih.2, hR.olen, hrd, true_and, List.length_cons]
      omega

/-- **Splitting a varnode that its defining op does not read**: `splitUses` makes one copy per
read, adding exactly as many ops as `v` had readers, and leaves `v` with no readers. -/
theorem splitUses_of_not_self (h : Linked s) (hv : ∀ y, s.vn v = some y → y.isConstant = false)
    (hd : s.defOf v = some op) (hn : ∀ j, s.getIn op j ≠ some v)
    (h2 : 2 ≤ (s.descendOf v).length) :
    (s.splitUses v).descendOf v = [] ∧
      (s.splitUses v).obank.length = s.obank.length + (s.descendOf v).length := by
  obtain ⟨x, hx⟩ := Option.isSome_iff_exists.mp (h.defs.vn_isSome ((h.defs op v).mp hd))
  have hop := lt_of_outputOf ((h.defs op v).mp hd)
  have hrun := splitUsesLoop_of_not_self x.loc x.size
    ((s.descendOf v).length * ((s.inrefsOf op).length + 1)) s h hv hop hn
    (Nat.le_mul_of_pos_right _ (Nat.succ_pos _))
  unfold splitUses
  rw [hx, hd]
  dsimp only
  split
  · simp_all
  · simp_all
  · exact hrun

/-! ### The self-reading `MULTIEQUAL` -/

/-- A loop head: block 1 reads varnode 0 from block 0 and varnode 1 from itself into the
`MULTIEQUAL` op 0, whose output is varnode 1; op 1 copies varnode 1 into varnode 2. Varnode 1
has two reads, by op 0 and by op 1. -/
def selfLoop : Funcdata where
  glb := ⟨⟨0, .constant, 2 ^ 64 - 1, false, 1⟩, ⟨2, .internal, 2 ^ 64 - 1, false, 1⟩,
    ⟨3, .iop, 2 ^ 64 - 1, false, 1⟩, rfl, rfl, rfl⟩
  vbank := [
    some { loc := ⟨⟨1, .processor, 0xffff, false, 1⟩, 0x10⟩, size := 4, input := true,
           descend := [0] },
    some { loc := ⟨⟨1, .processor, 0xffff, false, 1⟩, 0x10⟩, size := 4, defOp := some 0,
           descend := [0, 1] },
    some { loc := ⟨⟨1, .processor, 0xffff, false, 1⟩, 0x20⟩, size := 4, defOp := some 1 }]
  obank := [
    some { code := .multiequal, addr := ⟨⟨1, .processor, 0xffff, false, 1⟩, 0x100⟩,
           inrefs := [some 0, some 1], output := some 1, parent := some 1 },
    some { code := .copy, addr := ⟨⟨1, .processor, 0xffff, false, 1⟩, 0x100⟩,
           inrefs := [some 1], output := some 2, parent := some 1 }]
  bblocks := [{}, { ops := [0, 1], inEdges := [0, 1] }]
  uniqId := 0

/-- **A `MULTIEQUAL` reading its own output gets a copy too many.** Varnode 1 has two reads,
yet `splitUses` makes three copies (ops 2, 3 and 4) before it runs out of readers: the copy
made for op 0's own read reads varnode 1 and is split in turn. The `MULTIEQUAL` now reads
varnode 3 from itself, and varnode 3 has three readers, op 0 and the copies 3 and 4. -/
theorem splitUses_self_loop :
    Linked selfLoop ∧ selfLoop.descendOf 1 = [0, 1] ∧
      (selfLoop.splitUses 1).obank.length = selfLoop.obank.length + 3 ∧
      (selfLoop.splitUses 1).descendOf 1 = [] ∧ (selfLoop.splitUses 1).getIn 0 1 = some 3 ∧
      (selfLoop.splitUses 1).descendOf 3 = [0, 3, 4] :=
  ⟨Linked.of_check (by decide), by decide, by decide, by decide, by decide, by decide⟩

end Funcdata

end GhidraDec
