import GhidraDec.Pcode.Store

/-!
# Marking an Input Varnode

`Funcdata::setInputVarnode` makes a free varnode a formal input of the function. Input
varnodes must not share a byte, so before marking `vn` the function looks for an input that
collides with it. It does not scan the inputs: it asks the def-ordered index of the
`VarnodeBank` for the first input at or after the address just past `vn`
(`vn->getAddr() + vn->getSize()`) and tests only the input before that one, the input that
starts last before `vn` ends. When the inputs are pairwise disjoint that input is the only
one that can overlap `vn` — provided the address past `vn` really lies past it.

At the top of an address space it does not: `Address::operator+` wraps the offset, so for a
varnode whose last byte is the last offset of its space the key is offset `0`, no input of
the space comes before it, and an input overlapping `vn` goes unseen.

The address arithmetic (`Address::operator+`, `Address::operator<`, `Address::overlap`,
`Varnode::overlap`) and the def-ordered index of the `VarnodeBank` are not part of the
sources. They are modelled from the specification's storage descriptors (space, offset,
size) and the ordering the bank's def index uses for inputs: by address — space index, then
offset — and then by size. `VarnodeBank::setInput` is modelled as setting the input flag.
The flags `setInputVarnode` sets after marking (`setVarnodeProperties`, the effect records
of the prototype) are read by no modelled function and are left out.

## Main results

* `setInputVarnode_cases`: the three outcomes — the error, the existing input of the same
  storage, or `vn` itself marked;
* `prevInput_spec`: the input the def index yields is the last input below the address;
* `setInputVarnode_inputsDisjoint`: when `vn` ends before the last offset of its space, the
  inputs stay pairwise disjoint;
* `setInputVarnode_top_of_space`: a varnode ending at the last byte of its space is marked
  an input on top of an input it overlaps.
-/

namespace GhidraDec

/-- `AddrSpace::wrapOffset`: an offset brought into the space, `0 … highest`. -/
def AddrSpace.wrapOffset (spc : AddrSpace) (off : Int) : Nat :=
  (off % ((spc.highest + 1 : Nat) : Int)).toNat

namespace Address

/-- `Address::operator+`: the address `n` bytes on, wrapping within the space. -/
def add (a : Address) (n : Nat) : Address := ⟨a.space, a.space.wrapOffset (a.offset + n)⟩

/-- `Address::operator<`: by space index, then by offset. -/
def lt (a b : Address) : Bool :=
  a.space.index < b.space.index || a.space.index == b.space.index && a.offset < b.offset

/-- `Address::overlap(skip, op, size)`: the position of the byte `skip` on from this address
within the `size` bytes at `op`, or `-1` when it lies outside them, in another space or in
the constant space. -/
def overlap (a : Address) (skip : Nat) (op : Address) (size : Nat) : Int :=
  if a.space ≠ op.space ∨ a.space.type = .constant then -1
  else
    let dist := a.space.wrapOffset ((a.offset + skip : Nat) - (op.offset : Int))
    if size ≤ dist then -1 else dist

end Address

namespace Varnode

/-- `Varnode::overlap`: where the first byte of this varnode (its last byte, in a
big-endian space) lies within `op`, counted from `op`'s least significant byte, or `-1`. -/
def overlap (x op : Varnode) : Int :=
  if !x.loc.space.bigEndian then x.loc.overlap 0 op.loc op.size
  else
    let over := x.loc.overlap (x.size - 1) op.loc op.size
    if over ≠ -1 then (op.size : Int) - 1 - over else -1

/-- The order of the def index on input varnodes: by address, then by size. -/
def defLt (x y : Varnode) : Bool :=
  x.loc.lt y.loc || x.loc.space.index == y.loc.space.index && x.offset == y.offset &&
    x.size < y.size

/-- Two varnodes share a byte: the same space, not the constant space, and byte ranges that
meet. -/
def intersects (x y : Varnode) : Bool :=
  x.loc.space == y.loc.space && !x.isConstant && x.offset < y.offset + y.size &&
    y.offset < x.offset + x.size

/-- A varnode inside its space: at least one byte, and no byte past the space's last
offset. -/
def InSpace (x : Varnode) : Prop := 0 < x.size ∧ x.offset + x.size ≤ x.loc.space.highest + 1

@[simp] theorem intersects_setInput (x y : Varnode) (b : Bool) :
    ({ x with input := b } : Varnode).intersects y = x.intersects y := rfl

@[simp] theorem intersects_setInput_right (x y : Varnode) (b : Bool) :
    x.intersects { y with input := b } = x.intersects y := rfl

end Varnode

/-! ### Addresses and overlap -/

theorem AddrSpace.wrapOffset_of_lt (spc : AddrSpace) {d : Int} (h0 : 0 ≤ d)
    (h1 : d < (spc.highest + 1 : Nat)) : spc.wrapOffset d = d.toNat := by
  rw [AddrSpace.wrapOffset, Int.emod_eq_of_lt h0 h1]

/-- Away from the top of the space, the address `n` bytes on is the offset plus `n`. -/
theorem Address.add_of_lt {a : Address} {n : Nat} (h : a.offset + n ≤ a.space.highest) :
    a.add n = ⟨a.space, a.offset + n⟩ := by
  rw [Address.add, AddrSpace.wrapOffset_of_lt _ (by omega) (by omega)]
  rfl

/-- Within one space, the byte `skip` on from `a` lies in `op`'s range at its distance from
`op`. -/
theorem Address.overlap_of_mem {a op : Address} (skip size : Nat) (hs : a.space = op.space)
    (hc : a.space.type ≠ .constant) (hle : op.offset ≤ a.offset + skip)
    (hlt : a.offset + skip < op.offset + size) (hh : a.offset + skip ≤ a.space.highest) :
    a.overlap skip op size = ((a.offset + skip - op.offset : Nat) : Int) := by
  unfold Address.overlap
  rw [if_neg (not_or.mpr ⟨not_not.mpr hs, hc⟩)]
  dsimp only
  rw [AddrSpace.wrapOffset_of_lt _ (by omega) (by omega), if_neg (by omega)]
  omega

namespace Varnode

theorem intersects_iff {x y : Varnode} :
    x.intersects y = true ↔ x.loc.space = y.loc.space ∧ x.loc.space.type ≠ .constant ∧
      x.offset < y.offset + y.size ∧ y.offset < x.offset + x.size := by
  simp [intersects, isConstant, and_assoc]

theorem intersects_comm (x y : Varnode) : x.intersects y = y.intersects x := by
  apply Bool.eq_iff_iff.mpr
  simp only [intersects_iff]
  constructor <;> rintro ⟨hs, hc, h1, h2⟩ <;> exact ⟨hs.symm, hs ▸ hc, h2, h1⟩

/-- **The source's overlap test sees every intersection** of two varnodes inside their
space: one of the two directions `setInputVarnode` tries reports it. -/
theorem overlap_ne_of_intersects {x y : Varnode} (hx : x.InSpace) (hy : y.InSpace)
    (h : x.intersects y = true) : x.overlap y ≠ -1 ∨ y.overlap x ≠ -1 := by
  obtain ⟨hs, hc, h1, h2⟩ := intersects_iff.mp h
  obtain ⟨hx0, hxh⟩ := hx
  obtain ⟨hy0, hyh⟩ := hy
  rw [← hs] at hyh
  simp only [Varnode.offset] at *
  have hc' : y.loc.space.type ≠ .constant := hs ▸ hc
  unfold overlap
  rw [← hs]
  cases x.loc.space.bigEndian
  · simp only [Bool.not_false, ite_true]
    by_cases hle : y.loc.offset ≤ x.loc.offset
    · left; rw [Address.overlap_of_mem 0 y.size hs hc (by omega) (by omega) (by omega)]; omega
    · right
      rw [Address.overlap_of_mem 0 x.size hs.symm hc' (by omega) (by omega) (by rw [← hs]; omega)]
      omega
  · simp only [Bool.not_true, Bool.false_eq_true, ite_false]
    by_cases hle : x.loc.offset + x.size ≤ y.loc.offset + y.size
    · left
      rw [Address.overlap_of_mem (x.size - 1) y.size hs hc (by omega) (by omega) (by omega),
        if_pos (by omega)]
      omega
    · right
      rw [Address.overlap_of_mem (y.size - 1) x.size hs.symm hc' (by omega) (by omega)
        (by rw [← hs]; omega),
        if_pos (by omega)]
      omega

theorem defLt_irrefl (x : Varnode) : x.defLt x = false := by
  simp [defLt, Address.lt]

theorem defLt_trans {x y z : Varnode} (hxy : x.defLt y = true) (hyz : y.defLt z = true) :
    x.defLt z = true := by
  simp only [defLt, Address.lt, Varnode.offset, Bool.or_eq_true, Bool.and_eq_true,
    decide_eq_true_eq, beq_iff_eq] at *
  omega

end Varnode

namespace Funcdata

variable (s : Funcdata)

/-- One position of the def index scanned for `prevInput`: the input at `v` replaces the
best one so far when its address is below `addr` and it comes later in def order. -/
def prevStep (addr : Address) (best : Option Nat) (v : Nat) : Option Nat :=
  match s.vn v with
  | some x =>
    if x.input && x.loc.lt addr && ((best.bind s.vn).all fun b => b.defLt x) then some v
    else best
  | none => best

/-- The input before `addr` in the def index: the input `--beginDef(Varnode::input, addr)`
names when `beginDef` is not the index's first position. Of the inputs whose address is
below `addr`, the last one in def order. -/
def prevInput (addr : Address) : Option Nat :=
  (List.range s.vbank.length).foldl (s.prevStep addr) none

/-- What `prevInput` promises of the positions `ws` scanned so far: its answer `best` is an
input below `addr`, and every input below `addr` among `ws` comes no later in def order. -/
def PrevSpec (addr : Address) (ws : List Nat) (best : Option Nat) : Prop :=
  (∀ p ∈ best, ∃ xp, s.vn p = some xp ∧ xp.input ∧ xp.loc.lt addr) ∧
    ∀ w ∈ ws, ∀ y, s.vn w = some y → y.input → y.loc.lt addr →
      ∃ p xp, best = some p ∧ s.vn p = some xp ∧ xp.defLt y = false

/-- The input `setInputVarnode` finds overlapping `x`: the input before the address past `x`,
when it overlaps `x` in either direction. -/
def overlappingInput (x : Varnode) : Option Nat :=
  (s.prevInput (x.loc.add x.size)).filter fun w =>
    (s.vn w).any fun invn => invn.input && (x.overlap invn != -1 || invn.overlap x != -1)

/-- `VarnodeBank::setInput`: mark a varnode an input. -/
def markInput (v : Nat) : Funcdata := s.modifyVn v fun x => { x with input := true }

/-- `Funcdata::setInputVarnode`: the store and the input varnode that stands for `v`. -/
def setInputVarnode (v : Nat) : Except String (Funcdata × Nat) :=
  match s.vn v with
  | none => .ok (s, v)
  | some x =>
    if x.input then .ok (s, v)
    else
      match s.overlappingInput x with
      | some w =>
        if s.storageOf w = some (x.loc, x.size) then .ok (s, w)
        else .error "Overlapping input varnodes"
      | none => .ok (s.markInput v, v)

/-- No two input varnodes of the store share a byte. -/
def InputsDisjoint : Prop :=
  ∀ v < s.vbank.length, ∀ w < s.vbank.length, v ≠ w →
    ((s.vn v).any fun x => (s.vn w).any fun y => x.input && y.input && x.intersects y) = false

instance : DecidablePred InputsDisjoint := fun s => by unfold InputsDisjoint; infer_instance

/-! ### The three outcomes -/

variable {s}

/-- **`setInputVarnode` throws, returns the input already at `vn`'s storage, or marks
`vn`**; it changes the store only in the last case. -/
theorem setInputVarnode_cases {v r : Nat} {t : Funcdata} {x : Varnode} (hx : s.vn v = some x)
    (hr : s.setInputVarnode v = .ok (t, r)) :
    t = s ∧ r = v ∧ x.input ∨
      t = s ∧ (s.vn r).any (·.input) ∧ s.storageOf r = some (x.loc, x.size) ∨
      t = s.markInput v ∧ r = v ∧ s.overlappingInput x = none := by
  unfold setInputVarnode at hr
  rw [hx] at hr
  dsimp only at hr
  split_ifs at hr with hin
  · cases hr; exact Or.inl ⟨rfl, rfl, hin⟩
  · split at hr
    · rename_i w hw
      split_ifs at hr with hst
      cases hr
      obtain ⟨-, hw⟩ := Option.filter_eq_some.mp hw
      refine Or.inr (Or.inl ⟨rfl, ?_, hst⟩)
      cases h : s.vn r <;> simp_all
    · cases hr; exact Or.inr (Or.inr ⟨rfl, rfl, by assumption⟩)

/-! ### The input before an address -/

/-- One position of the scan keeps `PrevSpec`. -/
theorem prevStep_spec {addr : Address} {ws : List Nat} {best : Option Nat}
    (h : s.PrevSpec addr ws best) (v : Nat) :
    s.PrevSpec addr (ws ++ [v]) (s.prevStep addr best v) := by
  obtain ⟨hval, hbeat⟩ := h
  have hnew : ∀ w ∈ ws ++ [v], ∀ y, s.vn w = some y → w ∉ ws → s.vn v = some y := by
    intro w hw y hy hws
    rcases List.mem_append.mp hw with hw | hw
    · exact absurd hw hws
    · rwa [List.mem_singleton.mp hw] at hy
  unfold prevStep
  cases hv : s.vn v with
  | none =>
    refine ⟨hval, fun w hw y hy => ?_⟩
    by_cases hws : w ∈ ws
    · exact hbeat w hws y hy
    · rw [hnew w hw y hy hws] at hv; cases hv
  | some x =>
    dsimp only
    split_ifs with hc
    · simp only [Bool.and_eq_true] at hc
      obtain ⟨⟨hxi, hxl⟩, hall⟩ := hc
      refine ⟨fun p hp => ⟨x, (Option.mem_some_iff.mp hp) ▸ hv, hxi, hxl⟩,
        fun w hw y hy hyi hyl => ⟨v, x, rfl, hv, ?_⟩⟩
      by_cases hws : w ∈ ws
      · obtain ⟨p, xp, rfl, hp, hxy⟩ := hbeat w hws y hy hyi hyl
        simp only [Option.some_bind, hp, Option.all_some] at hall
        cases hxy' : x.defLt y
        · rfl
        · rw [Varnode.defLt_trans hall hxy'] at hxy; cases hxy
      · rw [hnew w hw y hy hws] at hv; cases hv; exact Varnode.defLt_irrefl _
    · refine ⟨hval, fun w hw y hy hyi hyl => ?_⟩
      by_cases hws : w ∈ ws
      · exact hbeat w hws y hy hyi hyl
      · rw [hnew w hw y hy hws] at hv; cases hv
        cases best with
        | none => simp [hyi, hyl] at hc
        | some b =>
          cases hb : s.vn b with
          | none => simp [hb, hyi, hyl] at hc
          | some xb => exact ⟨b, xb, rfl, hb, by simpa [hb, hyi, hyl] using hc⟩

theorem foldl_prevStep_spec {addr : Address} :
    ∀ (l ws : List Nat) (best : Option Nat), s.PrevSpec addr ws best →
      s.PrevSpec addr (ws ++ l) (l.foldl (s.prevStep addr) best)
  | [], ws, best, h => by simpa using h
  | v :: l, ws, best, h => by
    simpa using foldl_prevStep_spec l (ws ++ [v]) _ (prevStep_spec h v)

/-- **`prevInput` is the last input below the address in def order.** -/
theorem prevInput_spec (addr : Address) :
    s.PrevSpec addr (List.range s.vbank.length) (s.prevInput addr) := by
  simpa using foldl_prevStep_spec (List.range s.vbank.length) [] none
    ⟨fun p hp => (by cases hp), fun w hw => (by cases hw)⟩

theorem lt_length_of_vn {v : Nat} {x : Varnode} (h : s.vn v = some x) : v < s.vbank.length := by
  by_contra hn
  rw [vn_eq_none_of_le (Nat.le_of_not_lt hn)] at h
  cases h

/-! ### Away from the top of a space -/

section NoWrap

variable {x : Varnode} (hxs : x.InSpace) (hend : x.offset + x.size ≤ x.loc.space.highest)
  (hins : ∀ w y, s.vn w = some y → y.input → y.InSpace)
  (hidx : ∀ w y, s.vn w = some y → y.input → y.loc.space.index = x.loc.space.index →
    y.loc.space = x.loc.space)

include hxs hend hins hidx in
/-- When the address past `x` does not wrap, an input that intersects `x` makes the input
before that address intersect `x` too, so `overlappingInput` finds an input. -/
theorem overlappingInput_isSome (hd : s.InputsDisjoint) {w : Nat} {y : Varnode}
    (hy : s.vn w = some y) (hyi : y.input) (hxy : x.intersects y) :
    (s.overlappingInput x).isSome := by
  obtain ⟨hs, hc, h1, h2⟩ := Varnode.intersects_iff.mp hxy
  simp only [Varnode.offset] at h1 h2 hend
  have hkey := Address.add_of_lt hend
  have hyx : y.loc.space.index = x.loc.space.index := by rw [hs]
  have hlt : y.loc.lt (x.loc.add x.size) = true := by
    simp only [hkey, Address.lt, Bool.or_eq_true, Bool.and_eq_true, decide_eq_true_eq,
      beq_iff_eq]
    omega
  obtain ⟨hval, hbeat⟩ := s.prevInput_spec (x.loc.add x.size)
  obtain ⟨p, xp, hp, hxp, hpy⟩ := hbeat w (List.mem_range.mpr (lt_length_of_vn hy)) y hy hyi hlt
  obtain ⟨xp', hxp', hpi, hpl⟩ := hval p hp
  rw [hxp] at hxp'
  cases hxp'
  simp only [hkey, Varnode.defLt, Address.lt, Varnode.offset, Bool.or_eq_true, Bool.and_eq_true,
    Bool.or_eq_false_iff, Bool.and_eq_false_iff, decide_eq_true_eq, decide_eq_false_iff_not,
    beq_iff_eq, beq_eq_false_iff_ne] at hpy hpl
  have hpx : xp.loc.space = x.loc.space := hidx p xp hxp hpi (by omega)
  obtain ⟨hp0, -⟩ := hins p xp hxp hpi
  have hint : x.intersects xp = true := by
    by_cases hge : x.loc.offset ≤ xp.loc.offset
    · exact Varnode.intersects_iff.mpr ⟨hpx.symm, hc, by simp only [Varnode.offset]; omega,
        by simp only [Varnode.offset]; omega⟩
    · by_cases hpw : p = w
      · subst hpw; rw [hy] at hxp; cases hxp; exact hxy
      · have hdis := hd p (lt_length_of_vn hxp) w (lt_length_of_vn hy) hpw
        simp only [hxp, hy, Option.any_some, hpi, hyi, Bool.true_and] at hdis
        rw [Varnode.intersects_iff.mpr ⟨hpx.trans hs, hpx ▸ hc,
          by simp only [Varnode.offset]; omega, by simp only [Varnode.offset]; omega⟩] at hdis
        cases hdis
  unfold overlappingInput
  rw [hp]
  simp [Option.filter, hxp, hpi,
    Varnode.overlap_ne_of_intersects hxs (hins p xp hxp hpi) hint]

include hxs hend hins hidx in
/-- **Away from the top of its space, `setInputVarnode` keeps the inputs disjoint**: when the
bytes of `vn` end before the last offset of its space, the one input the source tests is
enough. -/
theorem setInputVarnode_inputsDisjoint (hd : s.InputsDisjoint) {v r : Nat} {t : Funcdata}
    (hx : s.vn v = some x) (hr : s.setInputVarnode v = .ok (t, r)) : t.InputsDisjoint := by
  rcases setInputVarnode_cases hx hr with ⟨rfl, -⟩ | ⟨rfl, -⟩ | ⟨rfl, -, hnone⟩
  · exact hd
  · exact hd
  have hclear : ∀ w y, s.vn w = some y → y.input → x.intersects y = false :=
    fun w y hy hyi => by
      cases h : x.intersects y
      · rfl
      · have := overlappingInput_isSome hxs hend hins hidx hd hy hyi h
        rw [hnone] at this
        cases this
  intro a ha b hb hab
  simp only [markInput, length_vbank_modifyVn] at ha hb
  simp only [markInput, vn_modifyVn, hx, Option.map_some']
  by_cases hav : a = v <;> by_cases hbv : b = v
  · omega
  · rw [if_pos hav, if_neg hbv]
    cases hy : s.vn b with
    | none => rfl
    | some y =>
      cases hyi : y.input
      · simp [hyi]
      · simp [hyi, hclear b y hy hyi]
  · rw [if_neg hav, if_pos hbv]
    cases hy : s.vn a with
    | none => rfl
    | some y =>
      cases hyi : y.input
      · simp [hyi]
      · simp [hyi, Varnode.intersects_comm y, hclear a y hy hyi]
  · rw [if_neg hav, if_neg hbv]
    exact hd a ha b hb hab

end NoWrap

/-! ### The top of a space -/

/-- A 4-byte processor space, and a function whose only input is the 2-byte varnode at its
last two offsets; varnode 1, four bytes ending at the same last offset, is free. -/
def topOfSpace : Funcdata where
  glb := ⟨⟨0, .constant, 2 ^ 64 - 1, false, 1⟩, ⟨2, .internal, 2 ^ 64 - 1, false, 1⟩,
    ⟨3, .iop, 2 ^ 64 - 1, false, 1⟩, rfl, rfl, rfl⟩
  vbank := [some
      { loc := ⟨⟨1, .processor, 0xffffffff, false, 1⟩, 0xfffffffe⟩, size := 2,
        input := true },
    some { loc := ⟨⟨1, .processor, 0xffffffff, false, 1⟩, 0xfffffffc⟩, size := 4 }]
  obank := []
  bblocks := []
  uniqId := 0

/-- **The overlap at the top of a space goes unseen.** The address past varnode 1 wraps to
offset `0`, no input comes before it in the def index, and `setInputVarnode` marks
varnode 1 an input: the inputs, disjoint before, now overlap. -/
theorem setInputVarnode_top_of_space :
    InputsDisjoint topOfSpace ∧
      topOfSpace.setInputVarnode 1 = .ok (topOfSpace.markInput 1, 1) ∧
      ¬ InputsDisjoint (topOfSpace.markInput 1) :=
  ⟨by decide, rfl, by decide⟩

end Funcdata

end GhidraDec
