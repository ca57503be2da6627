import GhidraDec.Funcdata.Linkage

/-!
# The Linkage Invariant

The store keeps the data-flow graph twice: an op lists its input varnodes, a varnode lists
its readers (`descend`), and the output of an op is mirrored by the defining op of a
varnode. `Linked` states that the two copies agree:

* `ReadersMatch` — op `o` occurs in the reader list of `v` exactly as often as `o` holds
  `v` in a filled input slot (an op reading `v` in two slots is listed twice);
* `DefsMatch` — `v` is defined by `o` exactly when `o` outputs `v`;
* `ConstantsUnshared` — a constant that is not a spacebase has at most one reader.

## Main results

* `Linked.opSetInput`, `Linked.opUnsetInput`, `Linked.opSwapInput`, `Linked.opInsertInput`,
  `Linked.opRemoveInput`, `Linked.opSetAllInput`, `Linked.opSetOutput`,
  `Linked.opUnsetOutput`, `Linked.destroyVarnode`: each edit of a slot, an output or a
  varnode keeps the invariant;
* `Linked.of_check`: a computable check that establishes the invariant of a concrete store.

Every edit is assembled from two steps on slots — `unlink` (erase the reader, clear the
slot) and `link` (append the reader, fill the slot) — and from the two output steps, so
each of the two counting arguments is made once.
-/

namespace GhidraDec

namespace Funcdata

/-- Reader lists agree with input slots, counted with multiplicity. -/
def ReadersMatch (s : Funcdata) : Prop :=
  ∀ o v, (s.descendOf v).count o = (s.inrefsOf o).count (some v)

/-- Defining ops agree with op outputs. -/
def DefsMatch (s : Funcdata) : Prop :=
  ∀ o v, s.defOf v = some o ↔ s.outputOf o = some v

/-- A constant that is not a spacebase has at most one reader. -/
def ConstantsUnshared (s : Funcdata) : Prop :=
  ∀ v x, s.vn v = some x → x.isConstant = true → x.spacebase = false → x.descend.length ≤ 1

/-- The linkage invariant of the store. -/
structure Linked (s : Funcdata) : Prop where
  readers : ReadersMatch s
  defs : DefsMatch s
  consts : ConstantsUnshared s

variable {s : Funcdata} {o v w i : Nat}

/-! ### Counting slots -/

/-- The count of a value after writing one slot whose old content is known. -/
theorem count_set_of_getElem? {l : List (Option Nat)} (h : l[i]? = some x) (y a : Option Nat) :
    (l.set i y).count a = l.count a - (if x = a then 1 else 0) + (if y = a then 1 else 0) := by
  obtain ⟨hi, rfl⟩ := List.getElem?_eq_some_iff.mp h
  simpa using List.count_set y a l i hi

/-- A slot's content is counted in the list. -/
theorem one_le_count_of_getElem? {l : List (Option Nat)} {x : Option Nat} (h : l[i]? = some x) :
    1 ≤ l.count x := by
  obtain ⟨hi, rfl⟩ := List.getElem?_eq_some_iff.mp h
  exact List.count_pos_iff.mpr (List.getElem_mem hi)

/-- The first occurrence of a member is found by `indexOf`. -/
theorem getElem?_indexOf_of_mem {a : Option Nat} : ∀ {l : List (Option Nat)}, a ∈ l →
    l[l.indexOf a]? = some a
  | x :: l, h => by
    by_cases hx : x = a
    · simp [List.indexOf_cons, hx]
    · have hl : a ∈ l := (List.mem_cons.mp h).resolve_left (Ne.symm hx)
      have hb : (x == a) = false := by simpa using hx
      simp [List.indexOf_cons, hb, getElem?_indexOf_of_mem hl]

/-- The count of a value after deleting one slot whose content is known. -/
theorem count_eraseIdx_of_getElem? {l : List (Option Nat)} (h : l[i]? = some x) (a : Option Nat) :
    (l.eraseIdx i).count a = l.count a - (if x = a then 1 else 0) := by
  have hl : l.take i ++ x :: l.drop (i + 1) = l := by
    obtain ⟨hi, rfl⟩ := List.getElem?_eq_some_iff.mp h
    rw [← List.drop_eq_getElem_cons hi, List.take_append_drop]
  have hc := congrArg (List.count a) hl
  rw [List.eraseIdx_eq_take_drop_succ]
  simp only [List.count_append, List.count_cons, beq_iff_eq] at hc ⊢
  split_ifs at hc ⊢ <;> omega

/-- Opening an empty slot leaves every count of a filled value alone. -/
theorem count_insert_none (l : List (Option Nat)) (i v : Nat) :
    (l.take i ++ none :: l.drop i).count (some v) = l.count (some v) := by
  have hc := congrArg (List.count (some v)) (List.take_append_drop i l)
  rw [List.count_append] at hc
  simp [List.count_cons, hc]

/-- Exchanging two slots leaves every count alone. -/
theorem count_swap {l : List (Option Nat)} {j : Nat} (hi : i < l.length) (hj : j < l.length)
    (a : Option Nat) : ((l.set i l[j]).set j l[i]).count a = l.count a := by
  have h1 : (l.set i l[j])[j]? = some l[j] := by
    rw [List.getElem?_set]; split_ifs <;> simp_all
  rw [count_set_of_getElem? h1, count_set_of_getElem? (List.getElem?_eq_getElem hi)]
  have := one_le_count_of_getElem? (List.getElem?_eq_getElem hi)
  split_ifs <;> simp_all

theorem getIn_eq_some_iff : s.getIn o i = some v ↔ (s.inrefsOf o)[i]? = some (some v) := by
  cases h : (s.inrefsOf o)[i]? <;> simp [getIn, h]

/-! ### Consequences of `ReadersMatch` -/

/-- A varnode read by some slot is listed in the bank. -/
theorem lt_of_getIn (hi : s.getIn o i = some v) : i < (s.inrefsOf o).length :=
  (List.getElem?_eq_some_iff.mp (getIn_eq_some_iff.mp hi)).1

theorem ReadersMatch.vn_isSome (h : ReadersMatch s) (hi : s.getIn o i = some v) :
    (s.vn v).isSome := by
  have hc := one_le_count_of_getElem? (getIn_eq_some_iff.mp hi)
  rw [← h o v] at hc
  cases hv : s.vn v
  · simp [descendOf, hv] at hc
  · rfl

/-- Every reader of a varnode holds it in some slot. -/
theorem ReadersMatch.mem_inrefs (h : ReadersMatch s) (ho : o ∈ s.descendOf v) :
    some v ∈ s.inrefsOf o := by
  rw [← List.count_pos_iff, ← h o v]
  exact List.count_pos_iff.mpr ho

/-- Nothing reads a slot of the bank that is past its end. -/
theorem ReadersMatch.count_eq_zero_of_le (h : ReadersMatch s) (hv : s.vbank.length ≤ v) (o : Nat) :
    (s.inrefsOf o).count (some v) = 0 := by
  rw [← h o v]
  simp [descendOf, vn_eq_none_of_le hv]

/-- The slot `getSlot` finds holds the varnode. -/
theorem getIn_getSlot (hv : some v ∈ s.inrefsOf o) : s.getIn o (s.getSlot o v) = some v := by
  rw [getIn_eq_some_iff, getSlot, getElem?_indexOf_of_mem hv]

/-! ### The two slot steps -/

/-- Unlinking a filled slot keeps the reader lists in step. -/
theorem ReadersMatch.unlink (h : ReadersMatch s) (hi : s.getIn o i = some v) :
    ReadersMatch ((s.eraseDescend v o).setInput o i none) := by
  have hget := getIn_eq_some_iff.mp hi
  have hpos := one_le_count_of_getElem? hget
  intro p w
  have hpw := h p w
  rw [descendOf_setInput, descendOf_eraseDescend, inrefsOf_setInput, inrefsOf_eraseDescend]
  by_cases hw : w = v <;> by_cases hp : p = o
  · subst hw hp
    simp [count_set_of_getElem? hget, hpw]
  · subst hw
    simp [hp, List.count_erase, hpw, Ne.symm hp]
  · subst hp
    simp [hw, count_set_of_getElem? hget, hpw, Ne.symm hw]
  · simp [hw, hp, hpw]

/-- Linking an existing varnode into an empty slot keeps the reader lists in step. -/
theorem ReadersMatch.link (h : ReadersMatch s) (hv : (s.vn v).isSome)
    (hi : (s.inrefsOf o)[i]? = some none) :
    ReadersMatch ((s.addDescend v o).setInput o i (some v)) := by
  intro p w
  have hpw := h p w
  rw [descendOf_setInput, descendOf_addDescend hv, inrefsOf_setInput, inrefsOf_addDescend]
  by_cases hw : w = v <;> by_cases hp : p = o
  · subst hw hp
    simp [count_set_of_getElem? hi, hpw]
  · subst hw
    simp [hp, List.count_append, hpw, Ne.symm hp]
  · subst hp
    simp [hw, count_set_of_getElem? hi, hpw, Ne.symm hw]
  · simp [hw, hp, hpw]

/-! ### The invariant under the primitive steps -/

/-- An edit that keeps the varnodes, the input slots and the outputs keeps the invariant. -/
theorem Linked.congr {s' : Funcdata} (h : Linked s) (hv : ∀ v, s'.vn v = s.vn v)
    (hi : ∀ o, s'.inrefsOf o = s.inrefsOf o) (ho : ∀ o, s'.outputOf o = s.outputOf o) :
    Linked s' where
  readers p w := by simpa [descendOf, hv, hi] using h.readers p w
  defs p w := by simpa [defOf, hv, ho] using h.defs p w
  consts w x := by rw [hv]; exact h.consts w x

theorem ConstantsUnshared.modifyVn (h : ConstantsUnshared s) {f : Varnode → Varnode}
    (hf : ∀ x, s.vn v = some x → (f x).isConstant = true → (f x).spacebase = false →
      (f x).descend.length ≤ 1) :
    ConstantsUnshared (s.modifyVn v f) := by
  intro w y hy hc hs
  rw [vn_modifyVn] at hy
  split_ifs at hy with hw
  · obtain ⟨x, hx, rfl⟩ := Option.map_eq_some'.mp hy
    exact hf x (hw ▸ hx) hc hs
  · exact h w y hy hc hs

/-- Unlinking a filled slot keeps the invariant. -/
theorem Linked.unlink (h : Linked s) (hi : s.getIn o i = some v) :
    Linked ((s.eraseDescend v o).setInput o i none) where
  readers := h.readers.unlink hi
  defs p w := by simpa using h.defs p w
  consts := h.consts.modifyVn fun x hx hc hs =>
    (List.length_erase_le _ _).trans (h.consts v x hx hc hs)

/-- Linking an existing varnode into an empty slot keeps the invariant, provided the
varnode is not a constant that already has a reader. -/
theorem Linked.link (h : Linked s) (hv : (s.vn v).isSome) (hi : (s.inrefsOf o)[i]? = some none)
    (hc : ∀ x, s.vn v = some x → x.isConstant = true → x.spacebase = false → x.descend = []) :
    Linked ((s.addDescend v o).setInput o i (some v)) where
  readers := h.readers.link hv hi
  defs p w := by simpa using h.defs p w
  consts := h.consts.modifyVn fun x hx hcx hs => by simp [hc x hx hcx hs]

theorem ReadersMatch.createVn (h : ReadersMatch s) {x : Varnode} (hx : x.descend = []) :
    ReadersMatch (s.createVn x).1 := by
  intro p w
  by_cases hw : w = s.vbank.length
  · subst hw
    simp [descendOf, hx, h.count_eq_zero_of_le le_rfl]
  · simpa [descendOf, hw] using h p w

theorem ConstantsUnshared.createVn (h : ConstantsUnshared s) {x : Varnode} (hx : x.descend = []) :
    ConstantsUnshared (s.createVn x).1 := by
  intro w y hy
  rw [vn_createVn] at hy
  split_ifs at hy
  · cases hy; simp [hx]
  · exact h w y hy

/-- The slot past the end of the bank has no definition. -/
theorem defOf_length : s.defOf s.vbank.length = none := by
  simp [defOf, vn_eq_none_of_le le_rfl]

theorem defOf_createVn (x : Varnode) (w : Nat) :
    (s.createVn x).1.defOf w = if w = s.vbank.length then x.defOp else s.defOf w := by
  unfold defOf; split_ifs with hw <;> simp [hw]

/-- A new varnode without readers or definition keeps the invariant. -/
theorem Linked.createVn (h : Linked s) {x : Varnode} (hx : x.descend = []) (hd : x.defOp = none) :
    Linked (s.createVn x).1 where
  readers := h.readers.createVn hx
  defs p w := by
    rw [defOf_createVn, outputOf_createVn]
    split_ifs with hw
    · subst hw
      simp only [hd, reduceCtorEq, false_iff]
      intro ho
      have := defOf_length (s := s)
      simp [(h.defs p _).mpr ho] at this
    · exact h.defs p w
  consts := h.consts.createVn hx

/-! ### Input edits -/

theorem getIn_of_lt (hi : i < (s.inrefsOf o).length) : s.getIn o i = (s.inrefsOf o)[i] := by
  simp [getIn, List.getElem?_eq_getElem hi]

theorem getElem?_of_getIn_none (hi : i < (s.inrefsOf o).length) (h : s.getIn o i = none) :
    (s.inrefsOf o)[i]? = some none := by
  rw [List.getElem?_eq_getElem hi, ← getIn_of_lt hi, h]

theorem opUnsetInput_of_getIn (hi : s.getIn o i = some v) :
    s.opUnsetInput o i = (s.eraseDescend v o).setInput o i none := by
  simp [opUnsetInput, hi]

theorem opUnsetInput_of_getIn_none (hi : s.getIn o i = none) : s.opUnsetInput o i = s := by
  simp [opUnsetInput, hi]

/-- `opUnsetInput` empties slot `i` of `o` and no other slot. -/
theorem inrefsOf_opUnsetInput (o i p : Nat) :
    (s.opUnsetInput o i).inrefsOf p =
      if p = o then (s.inrefsOf o).set i none else s.inrefsOf p := by
  cases hi : s.getIn o i with
  | some v => simp [opUnsetInput_of_getIn hi, inrefsOf_setInput]
  | none =>
    rw [opUnsetInput_of_getIn_none hi]
    split_ifs with hp
    · subst hp
      by_cases hl : i < (s.inrefsOf p).length
      · have hslot := getElem?_of_getIn_none hl hi
        refine List.ext_getElem? fun j => ?_
        rw [List.getElem?_set]
        split_ifs with hij <;> [subst hij; skip] <;> simp_all
      · rw [List.set_eq_of_length_le (Nat.le_of_not_lt hl)]
    · rfl

theorem Linked.opUnsetInput (h : Linked s) (o i : Nat) : Linked (s.opUnsetInput o i) := by
  cases hi : s.getIn o i with
  | none => rwa [opUnsetInput_of_getIn_none hi]
  | some v => rw [opUnsetInput_of_getIn hi]; exact h.unlink hi

theorem Linked.newConstant (h : Linked s) (sz val : Nat) : Linked (s.newConstant sz val).1 :=
  h.createVn rfl rfl

/-- What `inputCandidate` can do: keep the varnode, which is then not a constant with a
reader, or hand out a fresh copy of a constant with a reader. -/
theorem inputCandidate_spec (v : Nat) :
    (s.inputCandidate v = (s, v) ∧
      ∀ x, s.vn v = some x → x.isConstant = true → x.spacebase = false → x.descend = []) ∨
    ∃ x, s.vn v = some x ∧ x.isConstant = true ∧ x.descend ≠ [] ∧ x.spacebase = false ∧
      s.inputCandidate v = s.newConstant x.size x.offset := by
  unfold inputCandidate
  cases hv : s.vn v with
  | none => simp
  | some x =>
    by_cases hc : x.isConstant = true ∧ x.descend ≠ [] ∧ x.spacebase = false
    · right
      obtain ⟨h1, h2, h3⟩ := hc
      exact ⟨x, rfl, h1, h2, h3, by simp [h1, h3, List.isEmpty_iff, h2]⟩
    · left
      refine ⟨?_, fun y hy hcy hsy => ?_⟩
      · show (if _ then _ else _) = _
        rw [if_neg]
        simpa [List.isEmpty_iff, and_assoc] using hc
      · cases hy
        by_contra hne
        exact hc ⟨hcy, hne, hsy⟩

/-- The second half of `opSetInput` keeps the invariant on a slot that does not already
hold the varnode. -/
theorem Linked.relinkInput (h : Linked s) (hv : (s.vn v).isSome) (hi : i < (s.inrefsOf o).length)
    (hne : s.getIn o i ≠ some v)
    (hc : ∀ x, s.vn v = some x → x.isConstant = true → x.spacebase = false → x.descend = []) :
    Linked (s.relinkInput o v i) := by
  unfold Funcdata.relinkInput
  cases hget : s.getIn o i with
  | none => simpa [hget] using h.link hv (getElem?_of_getIn_none hi hget) hc
  | some w =>
    have hwv : v ≠ w := fun e => hne (e ▸ hget)
    simp only [hget, Option.isSome_some, if_true, opUnsetInput_of_getIn hget]
    refine (h.unlink hget).link ?_ ?_ ?_
    · simpa [eraseDescend, hwv] using hv
    · simp [inrefsOf_setInput, List.getElem?_set, hi]
    · intro x hx; simp [eraseDescend, hwv] at hx; exact hc x hx

/-- A varnode past the end of the bank is in no slot. -/
theorem ReadersMatch.getIn_ne_of_le (h : ReadersMatch s) (hv : s.vbank.length ≤ v) :
    s.getIn o i ≠ some v := fun hi =>
  absurd (one_le_count_of_getElem? (getIn_eq_some_iff.mp hi)) (by
    rw [h.count_eq_zero_of_le hv]; omega)

/-- **`opSetInput` keeps the invariant**, for every op, valid slot and varnode. -/
theorem Linked.opSetInput (h : Linked s) (hv : (s.vn v).isSome) (hi : i < (s.inrefsOf o).length) :
    Linked (s.opSetInput o v i) := by
  unfold Funcdata.opSetInput
  split_ifs with hne
  · exact h
  rcases s.inputCandidate_spec v with ⟨hc, hfree⟩ | ⟨x, -, -, -, -, hc⟩
  · rw [hc]; exact h.relinkInput hv hi hne hfree
  · rw [hc]
    refine (h.newConstant _ _).relinkInput (by simp [Funcdata.newConstant]) hi
      (h.readers.getIn_ne_of_le le_rfl) ?_
    intro y hy; simp [Funcdata.newConstant] at hy; simp [← hy]

/-! ### What `opSetInput` does to slots and varnodes -/

@[simp] theorem inrefsOf_inputCandidate (v p : Nat) :
    (s.inputCandidate v).1.inrefsOf p = s.inrefsOf p := by
  unfold inputCandidate; split <;> [split <;> rfl; rfl]

theorem isSome_vn_inputCandidate (v w : Nat) (hw : (s.vn w).isSome) :
    ((s.inputCandidate v).1.vn w).isSome := by
  unfold inputCandidate
  split <;> [split; skip] <;> simp_all [Funcdata.newConstant]
  split_ifs <;> simp [hw]

theorem inrefsOf_relinkInput (o v i p : Nat) :
    (s.relinkInput o v i).inrefsOf p =
      if p = o then (s.inrefsOf o).set i (some v) else s.inrefsOf p := by
  unfold relinkInput
  split_ifs <;> simp_all [inrefsOf_setInput, inrefsOf_opUnsetInput]

theorem isSome_vn_relinkInput (o v i w : Nat) (hw : (s.vn w).isSome) :
    ((s.relinkInput o v i).vn w).isSome := by
  unfold relinkInput opUnsetInput
  split_ifs <;> [split; skip] <;>
    simp only [vn_setInput, addDescend, eraseDescend, isSome_vn_modifyVn, hw]

/-- The slots after `opSetInput`: slot `i` of `o` holds the varnode `inputCandidate`
hands out, and nothing else changes. -/
theorem inrefsOf_opSetInput (hne : s.getIn o i ≠ some v) (p : Nat) :
    (s.opSetInput o v i).inrefsOf p =
      if p = o then (s.inrefsOf o).set i (some (s.inputCandidate v).2) else s.inrefsOf p := by
  simp [Funcdata.opSetInput, hne, inrefsOf_relinkInput]

theorem length_inrefsOf_opSetInput (o v i p : Nat) :
    ((s.opSetInput o v i).inrefsOf p).length = (s.inrefsOf p).length := by
  by_cases hne : s.getIn o i = some v
  · simp [Funcdata.opSetInput, hne]
  · rw [inrefsOf_opSetInput hne]; split_ifs <;> simp_all

theorem isSome_vn_opSetInput (o v i w : Nat) (hw : (s.vn w).isSome) :
    ((s.opSetInput o v i).vn w).isSome := by
  unfold Funcdata.opSetInput
  split_ifs
  · exact hw
  · exact isSome_vn_relinkInput _ _ _ _ (isSome_vn_inputCandidate _ _ hw)

/-- A varnode without readers is linked as it is. -/
theorem inputCandidate_of_descend_nil (hv : ∀ x, s.vn v = some x → x.descend = []) :
    s.inputCandidate v = (s, v) := by
  unfold inputCandidate
  cases h : s.vn v with
  | none => rfl
  | some x => simp [hv x h]

/-- The slots after `opSetInput`, one at a time. -/
theorem getIn_opSetInput (hne : s.getIn o i ≠ some v) (p k : Nat) :
    (s.opSetInput o v i).getIn p k =
      if p = o ∧ k = i ∧ i < (s.inrefsOf o).length then some (s.inputCandidate v).2
      else s.getIn p k := by
  simp only [getIn, inrefsOf_opSetInput hne]
  by_cases hp : p = o
  · subst hp; by_cases hk : k = i
    · subst hk; by_cases hl : k < (s.inrefsOf p).length
      · simp [List.getElem?_set, hl]
      · simp [List.getElem?_set, hl, List.getElem?_eq_none (Nat.le_of_not_lt hl)]
    · simp [List.getElem?_set_ne (Ne.symm hk), hk]
  · simp [hp]

@[simp] theorem storageOf_opUnsetInput (o i w : Nat) :
    (s.opUnsetInput o i).storageOf w = s.storageOf w := by
  unfold opUnsetInput; split <;> simp

@[simp] theorem storageOf_relinkInput (o v i w : Nat) :
    (s.relinkInput o v i).storageOf w = s.storageOf w := by
  unfold relinkInput; split_ifs <;> simp

@[simp] theorem codeOf_opUnsetInput (o i p : Nat) : (s.opUnsetInput o i).codeOf p = s.codeOf p := by
  unfold opUnsetInput; split <;> simp [eraseDescend]

@[simp] theorem codeOf_relinkInput (o v i p : Nat) :
    (s.relinkInput o v i).codeOf p = s.codeOf p := by
  unfold relinkInput; split_ifs <;> simp [addDescend]

@[simp] theorem codeOf_opSetInput (o v i p : Nat) : (s.opSetInput o v i).codeOf p = s.codeOf p := by
  unfold Funcdata.opSetInput
  split_ifs
  · rfl
  · rcases s.inputCandidate_spec v with ⟨hc, -⟩ | ⟨x, -, -, -, -, hc⟩ <;> rw [hc] <;>
      simp [Funcdata.newConstant]

/-- `opSetInput` keeps the storage of every varnode that existed before it. -/
theorem storageOf_opSetInput (hw : w < s.vbank.length) (o v i : Nat) :
    (s.opSetInput o v i).storageOf w = s.storageOf w := by
  unfold Funcdata.opSetInput
  split_ifs
  · rfl
  · rcases s.inputCandidate_spec v with ⟨hc, -⟩ | ⟨x, -, -, -, -, hc⟩ <;> rw [hc] <;>
      simp [Funcdata.newConstant, Nat.ne_of_lt hw]

/-! ### The other input edits -/

/-- **`opSwapInput` keeps the invariant**: it permutes the slots of one op. -/
theorem Linked.opSwapInput (h : Linked s) {j : Nat} (hi : i < (s.inrefsOf o).length)
    (hj : j < (s.inrefsOf o).length) : Linked (s.opSwapInput o i j) where
  readers p w := by
    have := h.readers p w
    by_cases hp : p = o
    · subst hp; simp_all [Funcdata.opSwapInput, inrefsOf_setInput, getIn_of_lt, count_swap]
    · simp_all [Funcdata.opSwapInput, inrefsOf_setInput]
  defs p w := by simpa [Funcdata.opSwapInput] using h.defs p w
  consts := h.consts

/-- The slots of `o` after `opSwapInput`, one at a time. -/
theorem getIn_opSwapInput {j : Nat} (hi : i < (s.inrefsOf o).length)
    (hj : j < (s.inrefsOf o).length) (k : Nat) :
    (s.opSwapInput o i j).getIn o k =
      if k = j then s.getIn o i else if k = i then s.getIn o j else s.getIn o k := by
  simp only [Funcdata.opSwapInput, getIn, inrefsOf_setInput, if_true]
  by_cases hkj : k = j
  · subst hkj; simp [hj]
  · by_cases hki : k = i
    · subst hki; simp [hkj, List.getElem?_set_ne (Ne.symm hkj), hi]
    · simp [hkj, hki, List.getElem?_set_ne (Ne.symm hkj), List.getElem?_set_ne (Ne.symm hki)]

@[simp] theorem storageOf_opSwapInput (o i j w : Nat) :
    (s.opSwapInput o i j).storageOf w = s.storageOf w := rfl

@[simp] theorem vn_opSwapInput (o i j w : Nat) : (s.opSwapInput o i j).vn w = s.vn w := rfl

@[simp] theorem codeOf_opSwapInput (o i j p : Nat) :
    (s.opSwapInput o i j).codeOf p = s.codeOf p := by
  simp [Funcdata.opSwapInput]

theorem Linked.insertInputField (h : Linked s) (o i : Nat) : Linked (s.insertInputField o i) where
  readers p w := by
    rw [Funcdata.insertInputField, inrefsOf_modifyInrefs, descendOf_modifyInrefs]
    split_ifs with hp
    · rw [count_insert_none, hp.1]; exact h.readers o w
    · exact h.readers p w
  defs p w := by simpa [Funcdata.insertInputField] using h.defs p w
  consts := h.consts

/-- **`opInsertInput` keeps the invariant**, for every op, slot up to the number of inputs,
and varnode. -/
theorem Linked.opInsertInput (h : Linked s) (hv : (s.vn v).isSome) (ho : (s.op o).isSome)
    (hi : i ≤ (s.inrefsOf o).length) : Linked (s.opInsertInput o v i) := by
  refine (h.insertInputField o i).opSetInput hv ?_
  rw [Funcdata.insertInputField, inrefsOf_modifyInrefs, if_pos ⟨rfl, ho⟩]
  simp [Nat.min_eq_left hi]

/-- **`opRemoveInput` keeps the invariant**, for every op and slot. -/
theorem Linked.opRemoveInput (h : Linked s) (o i : Nat) : Linked (s.opRemoveInput o i) := by
  have h1 := h.opUnsetInput o i
  refine ⟨fun p w => ?_, fun p w => ?_, h1.consts⟩
  · rw [Funcdata.opRemoveInput, Funcdata.removeInputField, inrefsOf_modifyInrefs]
    split_ifs with hp
    · obtain ⟨rfl, -⟩ := hp
      by_cases hl : i < ((s.opUnsetInput p i).inrefsOf p).length
      · have hslot : ((s.opUnsetInput p i).inrefsOf p)[i]? = some none := by
          simp_all [inrefsOf_opUnsetInput, List.getElem?_set]
        rw [count_eraseIdx_of_getElem? hslot]
        simpa using h1.readers p w
      · rw [List.eraseIdx_of_length_le (Nat.le_of_not_lt hl)]
        exact h1.readers p w
    · exact h1.readers p w
  · simpa [Funcdata.opRemoveInput, Funcdata.removeInputField] using h1.defs p w

/-! ### Unlinking and replacing every input -/

/-- Emptying the slots at the listed indices, read back slot by slot. -/
theorem getElem?_foldl_set_none (l : List Nat) (L : List (Option Nat)) (j : Nat) :
    (l.foldl (fun acc i => acc.set i none) L)[j]? =
      if j ∈ l then L[j]?.map fun _ => none else L[j]? := by
  induction l generalizing L with
  | nil => simp
  | cons i l ih =>
    rw [List.foldl_cons, ih, List.getElem?_set]
    by_cases hij : i = j
    · subst hij
      by_cases hl : i < L.length <;> simp [hl, List.getElem?_eq_none, Nat.le_of_not_lt]
    · have hji : j ≠ i := Ne.symm hij
      simp [hij, hji]

theorem foldl_range_set_none (L : List (Option Nat)) :
    (List.range L.length).foldl (fun acc i => acc.set i none) L = List.replicate L.length none := by
  refine List.ext_getElem? fun j => ?_
  rw [getElem?_foldl_set_none]
  by_cases hj : j < L.length
  · simp [hj, List.getElem?_eq_getElem hj]
  · simp [hj, List.getElem?_eq_none (Nat.le_of_not_lt hj), List.getElem?_replicate]

theorem inrefsOf_foldl_opUnsetInput (o p : Nat) (l : List Nat) :
    (l.foldl (fun s i => s.opUnsetInput o i) s).inrefsOf p =
      if p = o then l.foldl (fun acc i => acc.set i none) (s.inrefsOf o) else s.inrefsOf p := by
  induction l generalizing s with
  | nil => by_cases hp : p = o <;> simp [hp]
  | cons i l ih =>
    rw [List.foldl_cons, ih]
    simp only [inrefsOf_opUnsetInput]
    by_cases hp : p = o <;> simp [hp]

theorem isSome_vn_opUnsetInput (o i w : Nat) :
    ((s.opUnsetInput o i).vn w).isSome = (s.vn w).isSome := by
  unfold opUnsetInput; split <;> simp only [vn_setInput, eraseDescend, isSome_vn_modifyVn]

theorem isSome_op_opUnsetInput (o i p : Nat) :
    ((s.opUnsetInput o i).op p).isSome = (s.op p).isSome := by
  unfold opUnsetInput
  split <;> simp only [setInput, modifyInrefs, isSome_op_modifyOp, eraseDescend, op_modifyVn]

theorem isSome_foldl_opUnsetInput (o v p : Nat) (l : List Nat) :
    ((l.foldl (fun s i => s.opUnsetInput o i) s).vn v).isSome = (s.vn v).isSome ∧
      ((l.foldl (fun s i => s.opUnsetInput o i) s).op p).isSome = (s.op p).isSome := by
  induction l generalizing s with
  | nil => simp
  | cons i l ih => simp [ih, isSome_vn_opUnsetInput, isSome_op_opUnsetInput]

/-- After `opUnsetAllInputs` every slot of the op is empty. -/
theorem inrefsOf_opUnsetAllInputs (o p : Nat) :
    (s.opUnsetAllInputs o).inrefsOf p =
      if p = o then List.replicate (s.inrefsOf o).length none else s.inrefsOf p := by
  rw [opUnsetAllInputs, inrefsOf_foldl_opUnsetInput]
  split_ifs with hp
  · subst hp; exact foldl_range_set_none _
  · rfl

theorem Linked.foldl_opUnsetInput (h : Linked s) (o : Nat) (l : List Nat) :
    Linked (l.foldl (fun s i => s.opUnsetInput o i) s) := by
  induction l generalizing s with
  | nil => exact h
  | cons i l ih => exact ih (h.opUnsetInput o i)

theorem Linked.opUnsetAllInputs (h : Linked s) (o : Nat) : Linked (s.opUnsetAllInputs o) :=
  h.foldl_opUnsetInput o _

/-- Resizing an op whose slots are all empty keeps the invariant. -/
theorem Linked.setNumInputs (h : Linked s) (hempty : ∀ x ∈ s.inrefsOf o, x = none) (n : Nat) :
    Linked (s.setNumInputs o n) where
  readers p w := by
    rw [Funcdata.setNumInputs, inrefsOf_modifyInrefs, descendOf_modifyInrefs, h.readers p w]
    split_ifs with hp
    · obtain ⟨rfl, -⟩ := hp
      rw [List.count_eq_zero.mpr fun hm => by simpa using hempty _ hm]
      simp [List.count_replicate]
    · rfl
  defs p w := by simpa [Funcdata.setNumInputs] using h.defs p w
  consts := h.consts

theorem Linked.foldl_opSetInput (o : Nat) : ∀ (ps : List (Nat × Nat)) {s : Funcdata}, Linked s →
    (∀ iv ∈ ps, iv.1 < (s.inrefsOf o).length ∧ (s.vn iv.2).isSome) →
    Linked (ps.foldl (fun s iv => s.opSetInput o iv.2 iv.1) s)
  | [], _, h, _ => h
  | iv :: ps, s, h, hps => by
    have ⟨hi, hv⟩ := hps iv (List.mem_cons_self _ _)
    refine Linked.foldl_opSetInput o ps (h.opSetInput hv hi) fun jw hjw => ?_
    have ⟨hj, hw⟩ := hps jw (List.mem_cons_of_mem _ hjw)
    exact ⟨by rwa [length_inrefsOf_opSetInput], isSome_vn_opSetInput _ _ _ _ hw⟩

/-- **`opSetAllInput` keeps the invariant**, for every op and list of varnodes (a varnode
may occur several times). -/
theorem Linked.opSetAllInput (h : Linked s) (ho : (s.op o).isSome) {vvec : List Nat}
    (hv : ∀ v ∈ vvec, (s.vn v).isSome) : Linked (s.opSetAllInput o vvec) := by
  have hslots : ∀ x ∈ (s.opUnsetAllInputs o).inrefsOf o, x = none := by
    simp [inrefsOf_opUnsetAllInputs, List.mem_replicate]
  refine Linked.foldl_opSetInput o _ ((h.opUnsetAllInputs o).setNumInputs hslots _) ?_
  intro iv hiv
  have hvn := hv _ (List.snd_mem_of_mem_enum hiv)
  refine ⟨?_, (isSome_foldl_opUnsetInput (s := s) o iv.2 o _).1.trans hvn⟩
  have hop : ((s.opUnsetAllInputs o).op o).isSome :=
    (isSome_foldl_opUnsetInput (s := s) o 0 o _).2.trans ho
  rw [Funcdata.setNumInputs, inrefsOf_modifyInrefs, if_pos ⟨rfl, hop⟩, List.length_replicate]
  exact List.fst_lt_of_mem_enum hiv

/-! ### Output edits -/

theorem op_isSome_of_outputOf (ho : s.outputOf o = some v) : (s.op o).isSome := by
  cases hop : s.op o <;> simp_all [outputOf]

theorem DefsMatch.vn_isSome (h : DefsMatch s) (ho : s.outputOf o = some v) : (s.vn v).isSome := by
  have hd := (h o v).mpr ho
  cases hv : s.vn v <;> simp_all [defOf]

theorem ConstantsUnshared.setDefField (h : ConstantsUnshared s) (v : Nat) (d : Option Nat) :
    ConstantsUnshared (s.setDefField v d) :=
  h.modifyVn fun x hx hc hs => h v x hx hc hs

theorem outputOf_opUnsetOutput (o p : Nat) :
    (s.opUnsetOutput o).outputOf p = if p = o then none else s.outputOf p := by
  unfold opUnsetOutput
  cases hout : s.outputOf o with
  | none => split_ifs with hp <;> [rw [hp, hout]; rfl]
  | some v =>
    rw [outputOf_setDefField, outputOf_setOutputField]
    by_cases hp : p = o
    · subst hp; cases h : s.op p <;> simp_all [outputOf]
    · simp [hp]

theorem defOf_opUnsetOutput (o w : Nat) :
    (s.opUnsetOutput o).defOf w = if s.outputOf o = some w then none else s.defOf w := by
  unfold opUnsetOutput
  cases hout : s.outputOf o with
  | none => simp
  | some v =>
    rw [defOf_setDefField, defOf_setOutputField]
    by_cases hw : w = v
    · subst hw; cases h : s.vn w <;> simp [defOf, h]
    · simp [hw, Ne.symm hw]

theorem isSome_vn_opUnsetOutput (o w : Nat) :
    ((s.opUnsetOutput o).vn w).isSome = (s.vn w).isSome := by
  unfold opUnsetOutput; split <;> simp only [vn_setOutputField, setDefField, isSome_vn_modifyVn]

theorem isSome_op_opUnsetOutput (o p : Nat) :
    ((s.opUnsetOutput o).op p).isSome = (s.op p).isSome := by
  unfold opUnsetOutput
  split <;> simp only [setDefField, op_modifyVn, setOutputField, isSome_op_modifyOp]

/-- **`opUnsetOutput` keeps the invariant**: the output becomes free. -/
theorem Linked.opUnsetOutput (h : Linked s) (o : Nat) : Linked (s.opUnsetOutput o) where
  readers p w := by
    have := h.readers p w
    unfold Funcdata.opUnsetOutput; split <;> simp_all
  defs p w := by
    rw [defOf_opUnsetOutput, outputOf_opUnsetOutput]
    by_cases hw : s.outputOf o = some w <;> by_cases hp : p = o
    · simp [hw, hp]
    · simp only [hw, if_true, reduceCtorEq, false_iff, hp, if_false]
      intro hpw
      have := ((h.defs o w).mpr hw).symm.trans ((h.defs p w).mpr hpw)
      exact hp (Option.some.inj this).symm
    · subst hp
      simp only [hw, if_false, if_true, reduceCtorEq, iff_false]
      exact fun hd => hw ((h.defs p w).mp hd)
    · simp only [hw, hp, if_false]; exact h.defs p w
  consts := by
    unfold Funcdata.opUnsetOutput; split
    · exact h.consts
    · exact (h.consts.setDefField _ _ : ConstantsUnshared _)

/-- Binding a free varnode to an op without output keeps the invariant. -/
theorem Linked.bindOutput (h : Linked s) (hv : (s.vn v).isSome) (ho : (s.op o).isSome)
    (hdv : s.defOf v = none) (hoo : s.outputOf o = none) :
    Linked ((s.setDefField v (some o)).setOutputField o (some v)) where
  readers p w := by simpa using h.readers p w
  defs p w := by
    rw [defOf_setOutputField, defOf_setDefField, outputOf_setOutputField, outputOf_setDefField,
      op_setDefField]
    by_cases hw : w = v <;> by_cases hp : p = o
    · simp [hw, hp, hv, ho]
    · subst hw
      simp only [hv, and_self, if_true, Option.some.injEq, hp, false_and, if_false]
      refine ⟨fun e => absurd e.symm hp, fun hpw => ?_⟩
      simp [(h.defs p w).mpr hpw] at hdv
    · subst hp
      simp only [hw, false_and, if_false, ho, and_self, if_true, Option.some.injEq]
      refine ⟨fun hd => ?_, fun e => absurd e.symm hw⟩
      simp [(h.defs p w).mp hd] at hoo
    · simp only [hw, hp, false_and, if_false]; exact h.defs p w
  consts := (h.consts.setDefField _ _ : ConstantsUnshared _)

/-- **`opSetOutput` keeps the invariant**, for every op and varnode of the store. -/
theorem Linked.opSetOutput (h : Linked s) (ho : (s.op o).isSome) (hv : (s.vn v).isSome) :
    Linked (s.opSetOutput o v) := by
  by_cases heq : s.outputOf o = some v
  · simpa [Funcdata.opSetOutput, heq] using h
  have h1 : ∀ s1, s1 = (if (s.outputOf o).isSome then s.opUnsetOutput o else s) →
      Linked s1 ∧ s1.outputOf o = none ∧ (s1.vn v).isSome ∧ (s1.op o).isSome := by
    rintro s1 rfl
    split_ifs with hso
    · simp [h.opUnsetOutput o, outputOf_opUnsetOutput, isSome_vn_opUnsetOutput,
        isSome_op_opUnsetOutput, hv, ho]
    · simpa [h, hv, ho] using hso
  rw [Funcdata.opSetOutput, if_neg heq]
  dsimp only
  generalize hs1 : (if (s.outputOf o).isSome then s.opUnsetOutput o else s) = s1
  obtain ⟨h1, h1o, h1v, h1op⟩ := h1 s1 hs1.symm
  cases hd : s1.defOf v with
  | none => exact h1.bindOutput h1v h1op hd h1o
  | some d =>
    have hdo : d ≠ o := fun e => by simp [e ▸ (h1.defs d v).mp hd] at h1o
    have hdout : s1.outputOf d = some v := (h1.defs d v).mp hd
    refine (h1.opUnsetOutput d).bindOutput ?_ ?_ ?_ ?_
    · rwa [isSome_vn_opUnsetOutput]
    · rwa [isSome_op_opUnsetOutput]
    · rw [defOf_opUnsetOutput, if_pos hdout]
    · rw [outputOf_opUnsetOutput, if_neg (Ne.symm hdo), h1o]

/-! ### Removal -/

/-- Without a member, `indexOf` points past the end. -/
theorem indexOf_of_not_mem' {a : Option Nat} : ∀ {l : List (Option Nat)}, a ∉ l →
    l.indexOf a = l.length
  | [], _ => rfl
  | x :: l, h => by
    have hx : (x == a) = false := by
      rw [beq_eq_false_iff_ne]; rintro rfl; exact h (List.mem_cons_self _ _)
    simp [List.indexOf_cons, hx, indexOf_of_not_mem' fun hl => h (List.mem_cons_of_mem _ hl)]

/-- Clearing the slot `getSlot` finds removes one read of `v` from `o`, or nothing when
`o` does not read `v`. -/
theorem count_clearSlot (o v p w : Nat) :
    ((s.setInput o (s.getSlot o v) none).inrefsOf p).count (some w) =
      (s.inrefsOf p).count (some w) - (if w = v ∧ p = o then 1 else 0) := by
  rw [inrefsOf_setInput]
  by_cases hp : p = o
  · subst hp
    by_cases hm : some v ∈ s.inrefsOf p
    · rw [if_pos rfl, getSlot, count_set_of_getElem? (getElem?_indexOf_of_mem hm)]
      by_cases hw : w = v
      · subst hw; simp
      · simp [hw, Ne.symm hw]
    · rw [if_pos rfl, getSlot, indexOf_of_not_mem' hm, List.set_eq_of_length_le le_rfl]
      by_cases hw : w = v
      · subst hw; simp [List.count_eq_zero.mpr hm]
      · simp [hw]
  · simp [hp]

theorem count_clearReads (v p w : Nat) (L : List Nat) :
    ((L.foldl (fun s o => s.setInput o (s.getSlot o v) none) s).inrefsOf p).count (some w) =
      (s.inrefsOf p).count (some w) - (if w = v then L.count p else 0) := by
  induction L generalizing s with
  | nil => simp
  | cons o L ih =>
    rw [List.foldl_cons, ih, count_clearSlot]
    by_cases hw : w = v <;> by_cases hp : p = o <;> simp [hw, hp, List.count_cons, Nat.sub_sub]
    · omega

theorem vn_clearReads (v : Nat) (L : List Nat) :
    (L.foldl (fun s o => s.setInput o (s.getSlot o v) none) s).vn = s.vn := by
  induction L generalizing s with
  | nil => rfl
  | cons o L ih => rw [List.foldl_cons, ih]; rfl

theorem outputOf_clearReads (v : Nat) (L : List Nat) :
    (L.foldl (fun s o => s.setInput o (s.getSlot o v) none) s).outputOf = s.outputOf := by
  induction L generalizing s with
  | nil => rfl
  | cons o L ih => rw [List.foldl_cons, ih]; funext p; simp

theorem isSome_op_clearReads (v p : Nat) (L : List Nat) :
    ((L.foldl (fun s o => s.setInput o (s.getSlot o v) none) s).op p).isSome = (s.op p).isSome := by
  induction L generalizing s with
  | nil => rfl
  | cons o L ih =>
    rw [List.foldl_cons, ih]; simp only [setInput, modifyInrefs, isSome_op_modifyOp]

/-- The last step of `destroyVarnode`: freeing `v` once its reads are cleared and its
defining op no longer outputs it. -/
theorem Linked.destroyVn_of_cleared (h : Linked s) {s2 : Funcdata} (hvn : s2.vn = s.vn)
    (hin : ∀ p w, (s2.inrefsOf p).count (some w) =
      (s.inrefsOf p).count (some w) - (if w = v then (s.descendOf v).count p else 0))
    (hout : ∀ p, s2.outputOf p = if s.defOf v = some p then none else s.outputOf p) :
    Linked (s2.destroyVn v) := by
  have hdef : ∀ w, s2.defOf w = s.defOf w := by simp [defOf, hvn]
  refine ⟨fun p w => ?_, fun p w => ?_, fun w x hx => ?_⟩
  · rw [descendOf_destroyVn, inrefsOf_destroyVn, hin]
    by_cases hw : w = v
    · subst hw; simp [h.readers p w]
    · rw [if_neg hw, if_neg hw, Nat.sub_zero, ← h.readers p w]
      simp [descendOf, hvn]
  · rw [defOf_destroyVn, outputOf_destroyVn, hout, hdef]
    by_cases hw : w = v
    · subst hw
      simp only [if_true, reduceCtorEq, false_iff]
      split_ifs with hd
      · simp
      · exact fun hpw => hd ((h.defs p w).mpr hpw)
    · simp only [hw, if_false]
      split_ifs with hd
      · simp only [reduceCtorEq, iff_false]
        intro hwp
        exact hw (Option.some.inj (((h.defs p w).mp hwp).symm.trans ((h.defs p v).mp hd)))
      · simpa [defOf, hvn] using h.defs p w
  · rw [vn_destroyVn] at hx
    split_ifs at hx
    exact h.consts w x (by rw [← hvn]; exact hx)

/-- **`destroyVarnode` keeps the invariant**: every slot reading the varnode is cleared
before it is freed, also when one op reads it in several slots. -/
theorem Linked.destroyVarnode (h : Linked s) (v : Nat) : Linked (s.destroyVarnode v) := by
  unfold Funcdata.destroyVarnode
  dsimp only
  have hvn := vn_clearReads (s := s) v (s.descendOf v)
  have hout := outputOf_clearReads (s := s) v (s.descendOf v)
  have hin := fun p w => count_clearReads (s := s) v p w (s.descendOf v)
  have hop := fun p => isSome_op_clearReads (s := s) v p (s.descendOf v)
  generalize (s.descendOf v).foldl (fun s o => s.setInput o (s.getSlot o v) none) s = s1
    at hvn hout hin hop
  have hdef : s1.defOf v = s.defOf v := by simp [defOf, hvn]
  split
  next d hd =>
    rw [hdef] at hd
    have hd1 : (s1.op d).isSome := by
      rw [hop]; exact op_isSome_of_outputOf ((h.defs d v).mp hd)
    refine h.destroyVn_of_cleared hvn (by simpa using hin) fun p => ?_
    rw [outputOf_setOutputField, hout, hd]
    by_cases hp : p = d
    · subst hp; simp [hd1]
    · simp [hp, Ne.symm hp]
  next hd =>
    rw [hdef] at hd
    exact h.destroyVn_of_cleared hvn hin fun p => by simp [hd, hout]

/-! ### Checking the invariant on a concrete store -/

/-- The invariant checked on the finitely many indices of a store: the three conditions on
the ops and varnodes in the banks, and every cross-reference inside the banks. -/
def linkedCheck (s : Funcdata) : Bool :=
  (List.range s.obank.length).all (fun o => (List.range s.vbank.length).all fun v =>
    (s.descendOf v).count o == (s.inrefsOf o).count (some v) &&
      (s.defOf v == some o) == (s.outputOf o == some v)) &&
  (List.range s.vbank.length).all (fun v =>
    (s.descendOf v).all (· < s.obank.length) && (s.defOf v).all (· < s.obank.length) &&
      (s.vn v).all fun x => !(x.isConstant && !x.spacebase) || decide (x.descend.length ≤ 1)) &&
  (List.range s.obank.length).all (fun o =>
    (s.inrefsOf o).all (·.all (· < s.vbank.length)) && (s.outputOf o).all (· < s.vbank.length))

theorem all_eq_true_iff {α : Type} {p : α → Bool} {x : Option α} :
    x.all p = true ↔ ∀ a, x = some a → p a = true := by
  cases x <;> simp [Option.all]

/-- A store that passes `linkedCheck` is linked. -/
theorem Linked.of_check (hc : linkedCheck s = true) : Linked s := by
  simp only [linkedCheck, Bool.and_eq_true, List.all_eq_true, List.mem_range, beq_iff_eq,
    Bool.or_eq_true, Bool.not_eq_true', decide_eq_true_eq, all_eq_true_iff] at hc
  obtain ⟨⟨hpair, hv⟩, ho⟩ := hc
  have hvn : ∀ v, s.vbank.length ≤ v → s.descendOf v = [] ∧ s.defOf v = none := fun v hv' => by
    simp [descendOf, defOf, vn_eq_none_of_le hv']
  have hop : ∀ o, s.obank.length ≤ o → s.inrefsOf o = [] ∧ s.outputOf o = none := fun o ho' => by
    simp [inrefsOf, outputOf, op_eq_none_of_le ho']
  refine ⟨fun o v => ?_, fun o v => ?_, fun v x hx hcx hsx => ?_⟩
  · by_cases hvl : v < s.vbank.length
    · by_cases hol : o < s.obank.length
      · exact (hpair o hol v hvl).1
      · rw [(hop o (Nat.le_of_not_lt hol)).1, List.count_nil]
        exact List.count_eq_zero_of_not_mem fun hm => hol ((hv v hvl).1.1 o hm)
    · rw [(hvn v (Nat.le_of_not_lt hvl)).1, List.count_nil, eq_comm]
      refine List.count_eq_zero_of_not_mem fun hm => hvl ?_
      by_cases hol : o < s.obank.length
      · simpa using (ho o hol).1 _ hm
      · simp [(hop o (Nat.le_of_not_lt hol)).1] at hm
  · by_cases hvl : v < s.vbank.length
    · by_cases hol : o < s.obank.length
      · simpa using (hpair o hol v hvl).2
      · rw [(hop o (Nat.le_of_not_lt hol)).2]
        exact iff_of_false (fun hd => hol ((hv v hvl).1.2 o hd)) (by simp)
    · rw [(hvn v (Nat.le_of_not_lt hvl)).2]
      refine iff_of_false (by simp) fun hout => hvl ?_
      by_cases hol : o < s.obank.length
      · exact (ho o hol).2 v hout
      · simp [(hop o (Nat.le_of_not_lt hol)).2] at hout
  · have hvl : v < s.vbank.length := by
      by_contra hle; simp [vn_eq_none_of_le (Nat.le_of_not_lt hle)] at hx
    simpa [hcx, hsx] using (hv v hvl).2 x hx

end Funcdata

end GhidraDec
