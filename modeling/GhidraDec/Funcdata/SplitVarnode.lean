import GhidraDec.Funcdata.Lessequal
import GhidraDec.Translate.JoinAddress

/-!
# Splitting a Varnode

`Funcdata::splitVarnode` (`funcdata_varnode.cc`) cuts a varnode into a least significant piece
of `lowsize` bytes and a most significant piece of the rest. In a big-endian space the most
significant piece keeps the varnode's address and the least significant one starts `highsize`
bytes on; in a little-endian space it is the other way round. Both are new free varnodes that
keep the `addrforce` flag of the original (the store keeps no other flag `splitVarnode`
copies), and the consumed bits of the original are shared out between them.

The varnode is given by its fields. Its consumed-bit mask is not a field of the store; what
`splitVarnode` does with it is `splitConsume`.

## Main results

* `Linked.splitVarnode`: the split keeps a linked store linked;
* `splitVarnode_constructJoinAddress`: the two pieces are contiguous and their sizes add up to
  the original's, so `AddrSpaceManager::constructJoinAddress` joins them back to the original
  address whenever it does not need a join record;
* `splitConsume_spec`: the consumed bits of the two pieces put together are those of the
  original.
-/

namespace GhidraDec

namespace Funcdata

variable (s : Funcdata)

/-- `Funcdata::splitVarnode`: `x` cut into `vnhi` of `size - lowsize` bytes and `vnlo` of
`lowsize` bytes, new varnodes with the `addrforce` flag of `x`. Returns the store, `vnlo` and
`vnhi`. -/
def splitVarnode (x : Varnode) (lowsize : Nat) : Funcdata × Nat × Nat :=
  let highsize := x.size - lowsize
  let addrhi := if x.loc.space.bigEndian then x.loc else x.loc.add lowsize
  let addrlo := if x.loc.space.bigEndian then x.loc.add highsize else x.loc
  let hi := s.newVarnode highsize addrhi
  let lo := hi.1.newVarnode lowsize addrlo
  let setFlags := fun y : Varnode => { y with addrForce := y.addrForce || x.addrForce }
  ((lo.1.modifyVn hi.2 setFlags).modifyVn lo.2 setFlags, lo.2, hi.2)

/-- The consumed bits `splitVarnode` gives the pieces: those above the low `lowsize` bytes,
shifted down, to `vnhi`, and those within them to `vnlo`. -/
def splitConsume (consume lowsize : Nat) : Nat × Nat :=
  (consume >>> (8 * lowsize), consume &&& calcMask lowsize)

/-- The most significant piece of `x`, cut `lowsize` bytes from its least significant end. -/
def splitHigh (x : Varnode) (lowsize : Nat) : Varnode :=
  { loc := if x.loc.space.bigEndian then x.loc else x.loc.add lowsize, size := x.size - lowsize,
    addrForce := x.addrForce }

/-- The least significant piece of `x`, of `lowsize` bytes. -/
def splitLow (x : Varnode) (lowsize : Nat) : Varnode :=
  { loc := if x.loc.space.bigEndian then x.loc.add (x.size - lowsize) else x.loc,
    size := lowsize, addrForce := x.addrForce }

variable {s}

/-- The store after a split: the two pieces appended to the bank, the rest as it was. -/
theorem vn_splitVarnode (x : Varnode) (lowsize w : Nat) :
    (s.splitVarnode x lowsize).1.vn w =
      if w = s.vbank.length + 1 then some (splitLow x lowsize)
      else if w = s.vbank.length then some (splitHigh x lowsize) else s.vn w := by
  simp only [splitVarnode, newVarnode, vn_modifyVn, vn_createVn, createVn_snd,
    length_vbank_createVn]
  by_cases h₁ : w = s.vbank.length + 1
  · simp [h₁, splitLow]
  · by_cases h₀ : w = s.vbank.length
    · simp [h₀, splitHigh]
    · simp [h₁, h₀]

@[simp] theorem splitVarnode_snd (x : Varnode) (lowsize : Nat) :
    (s.splitVarnode x lowsize).2 = (s.vbank.length + 1, s.vbank.length) := by
  simp [splitVarnode, newVarnode]

theorem Linked.splitVarnode (h : Linked s) (x : Varnode) (lowsize : Nat) :
    Linked (s.splitVarnode x lowsize).1 := by
  have h₂ := (h.createVn (x := splitHigh x lowsize) rfl rfl).createVn
    (x := splitLow x lowsize) rfl rfl
  refine h₂.congr (fun w => ?_) (fun o => ?_) (fun o => ?_)
  · rw [vn_splitVarnode, vn_createVn, vn_createVn, length_vbank_createVn]
  · simp [Funcdata.splitVarnode, newVarnode]
  · simp [Funcdata.splitVarnode, newVarnode]

section Join

variable (pieceLt : VarnodeData → VarnodeData → Bool) (joinspace defaultSpace : AddrSpace)
  (hasRegister : AddrSpace → Nat → Nat → Bool)

/-- The pieces of a split are contiguous, and the earlier of the two is the original's
address. -/
theorem splitHigh_isContiguous (x : Varnode) (lowsize : Nat) :
    (splitHigh x lowsize).loc.isContiguous (splitHigh x lowsize).size (splitLow x lowsize).loc
      (splitLow x lowsize).size = true ∧
      (if (splitHigh x lowsize).loc.space.bigEndian then (splitHigh x lowsize).loc
        else (splitLow x lowsize).loc) = x.loc := by
  cases hb : x.loc.space.bigEndian <;>
    simp [splitHigh, splitLow, Address.isContiguous, Address.add, hb]

/-- **Splitting and joining back.** Splitting `x` keeps a linked store linked and adds the two
pieces. They are contiguous, their sizes add up to the size of `x`, and whenever
`constructJoinAddress` does not need a join record for them (in a spacebase space, in the
default space, or where the translator names a register of the whole size) it joins them back
to the address of `x`, leaving the join manager alone. -/
theorem splitVarnode_constructJoinAddress (h : Linked s) {x : Varnode} {lowsize : Nat}
    (hlow : lowsize ≤ x.size)
    (htype : x.loc.space.type = .spacebase ∨ x.loc.space.type = .processor)
    (hmap : x.loc.space.type = .spacebase ∨ x.loc.space = defaultSpace ∨
      hasRegister x.loc.space x.loc.offset x.size = true) (m : Translate.JoinManager) :
    Linked (s.splitVarnode x lowsize).1 ∧
      ∃ hi lo, (s.splitVarnode x lowsize).1.vn (s.splitVarnode x lowsize).2.2 = some hi ∧
        (s.splitVarnode x lowsize).1.vn (s.splitVarnode x lowsize).2.1 = some lo ∧
        hi.loc.isContiguous hi.size lo.loc lo.size = true ∧ hi.size + lo.size = x.size ∧
        Translate.constructJoinAddress pieceLt joinspace defaultSpace hasRegister m
          hi.loc hi.size lo.loc lo.size = .ok (m, x.loc) := by
  refine ⟨h.splitVarnode x lowsize, splitHigh x lowsize, splitLow x lowsize, ?_, ?_, ?_⟩
  · simp [vn_splitVarnode]
  · simp [vn_splitVarnode]
  obtain ⟨hc, he⟩ := splitHigh_isContiguous x lowsize
  have hsz : (splitHigh x lowsize).size + (splitLow x lowsize).size = x.size := by
    simp only [splitHigh, splitLow]; omega
  have hsp : (splitHigh x lowsize).loc.space = x.loc.space ∧
      (splitLow x lowsize).loc.space = x.loc.space := by
    constructor <;> dsimp only [splitHigh, splitLow] <;> split_ifs <;> rfl
  refine ⟨hc, hsz, ?_⟩
  unfold Translate.constructJoinAddress
  rw [if_neg (by rw [hsp.1, hsp.2]; rcases htype with ht | ht <;> simp [ht]), he, hsz, hc]
  rcases hmap with hm | hm | hm <;> simp [hsp.1, hsp.2, hm]

/-- A big-endian RAM space, the default space of the store below. -/
def bigRam : AddrSpace := ⟨1, .processor, 0xffffffff, true, 1⟩

/-- An 8-byte varnode of the RAM space. -/
def ramWord : Varnode := { loc := ⟨bigRam, 0x1000⟩, size := 8 }

/-- A store holding `ramWord`. -/
def splitStore : Funcdata where
  glb := ⟨⟨0, .constant, 2 ^ 64 - 1, false, 1⟩, ⟨2, .internal, 2 ^ 64 - 1, false, 1⟩,
    ⟨3, .iop, 2 ^ 64 - 1, false, 1⟩, rfl, rfl, rfl⟩
  vbank := [some ramWord]
  obank := []
  bblocks := []
  uniqId := 16

theorem splitVarnode_constructJoinAddress_ramWord :
    Linked splitStore ∧ 4 ≤ ramWord.size ∧
      (ramWord.loc.space.type = .spacebase ∨ ramWord.loc.space.type = .processor) ∧
      (ramWord.loc.space.type = .spacebase ∨ ramWord.loc.space = bigRam ∨
        (fun _ _ _ => false : AddrSpace → Nat → Nat → Bool) ramWord.loc.space
          ramWord.loc.offset ramWord.size = true) ∧
      Linked (splitStore.splitVarnode ramWord 4).1 ∧
      ∃ hi lo, (splitStore.splitVarnode ramWord 4).1.vn (splitStore.splitVarnode ramWord 4).2.2 =
          some hi ∧
        (splitStore.splitVarnode ramWord 4).1.vn (splitStore.splitVarnode ramWord 4).2.1 =
          some lo ∧
        hi.loc.isContiguous hi.size lo.loc lo.size = true ∧ hi.size + lo.size = ramWord.size ∧
        Translate.constructJoinAddress Translate.varnodeDataLt Translate.joinSpace bigRam
          (fun _ _ _ => false) ⟨[], 0⟩ hi.loc hi.size lo.loc lo.size = .ok (⟨[], 0⟩, ramWord.loc) :=
  have h : Linked splitStore := Linked.of_check (by decide)
  ⟨h, by decide, .inr rfl, .inr (.inl rfl),
    splitVarnode_constructJoinAddress Translate.varnodeDataLt Translate.joinSpace bigRam
      (fun _ _ _ => false) h (by decide) (.inr rfl) (.inr (.inl rfl)) ⟨[], 0⟩⟩

/-- In the big-endian space the most significant half keeps the address and the least
significant half starts four bytes on. -/
example :
    (splitStore.splitVarnode ramWord 4).1.vbank.drop 1 =
      [some { loc := ⟨bigRam, 0x1000⟩, size := 4 }, some { loc := ⟨bigRam, 0x1004⟩, size := 4 }] :=
  rfl

end Join

/-- **The consumed bits are shared out.** For a least significant piece of fewer than eight
bytes, the bits `splitVarnode` gives the least significant piece are those of the original in
its bytes, and the bits it gives the other piece, shifted back up, are the rest. -/
theorem splitConsume_spec {consume lowsize : Nat} (h : lowsize < 8) :
    (splitConsume consume lowsize).2 < 2 ^ (8 * lowsize) ∧
      (splitConsume consume lowsize).2 +
        (splitConsume consume lowsize).1 * 2 ^ (8 * lowsize) = consume := by
  have hm : calcMask lowsize = 2 ^ (8 * lowsize) - 1 := by
    rw [calcMask, Nat.min_eq_left (by omega)]
  simp only [splitConsume, hm, Nat.and_pow_two_sub_one_eq_mod, Nat.shiftRight_eq_div_pow]
  exact ⟨Nat.mod_lt _ (Nat.two_pow_pos _), Nat.mod_add_div' consume _⟩

end Funcdata

end GhidraDec
