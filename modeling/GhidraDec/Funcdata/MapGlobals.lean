import GhidraDec.Funcdata.InputVarnode

/-!
# Mapping Global Varnodes

`Funcdata::mapGlobals` (`funcdata_varnode.cc`) walks the varnodes in the loc order of the
`VarnodeBank` (by address, then size) and gathers the persistent ones into groups. A
non-free persistent varnode opens a group at its address, with its own end as the group's
end; each following persistent varnode that starts before the current end joins the group,
and the end moves to the joining varnode's end. Each group gets a global symbol at its
address, typed by its biggest member where that member spans the group exactly, and by an
unknown type of the group's size otherwise.

The end moves to the joining varnode's end even where that lies before the current end, so
a group in which a later member sits inside an earlier one ends before the earlier one does,
and its symbol does not cover that member.

The loc index of the bank, the scope queries (`queryProperties`, `discoverScope`) and the
type factory are not part of the sources. The varnodes come as the list the loc index
enumerates, `TypeFactory::getBase` gives a type of the size asked for, and the type of a high
variable has its varnode's size. Of a varnode only its address, its size and its free and
persist flags are read.

## Main results

* `mapGlobals_opened`: every group starts with the non-free persistent varnode that opened it,
  at the group's address; all its members are persistent; `maxvn` is its biggest member; and
  the group ends where its latest member ends;
* `typeSize_eq`: away from the top of the space the symbol's type spans the group exactly;
* `mapGlobals_nested_uncovered`: an 8-byte global followed by a 2-byte global inside it form
  one group that ends at the end of the second, and the 4-byte symbol does not cover the first.
-/

namespace GhidraDec

namespace Funcdata

/-- What `mapGlobals` reads of a varnode: its storage, and whether it is free and
persistent. -/
structure LocVarnode where
  loc : Address
  size : Nat
  free : Bool
  persist : Bool
  deriving DecidableEq, Repr

/-- A group of `mapGlobals`: the base address `addr`, the end address `endaddr`, the biggest
varnode `maxvn`, and the members in loc order. -/
structure GlobalGroup where
  addr : Address
  endaddr : Address
  maxvn : LocVarnode
  members : List LocVarnode
  deriving DecidableEq, Repr

namespace GlobalGroup

/-- The group a non-free persistent varnode opens. -/
def start (vn : LocVarnode) : GlobalGroup := ⟨vn.loc, vn.loc.add vn.size, vn, [vn]⟩

/-- `vn` joins the group: the end moves to `vn`'s end, and `vn` becomes `maxvn` where it is
bigger. -/
def extend (g : GlobalGroup) (vn : LocVarnode) : GlobalGroup :=
  ⟨g.addr, vn.loc.add vn.size, if vn.size > g.maxvn.size then vn else g.maxvn, g.members ++ [vn]⟩

/-- The size of the data-type of the group's symbol: that of `maxvn`'s high variable where
`maxvn` spans the group exactly, else that of `getBase(endaddr - addr)`. -/
def typeSize (g : GlobalGroup) : Nat :=
  if g.maxvn.loc = g.addr ∧ g.addr.add g.maxvn.size = g.endaddr then g.maxvn.size
  else g.endaddr.offset - g.addr.offset

end GlobalGroup

/-- The two loops of `Funcdata::mapGlobals` over the loc-ordered varnodes, as one pass whose
state is the group being extended. The inner loop stops at a varnode that is not persistent or
starts at or after the group's end, and the outer loop then takes that varnode up: it opens the
next group unless it is free or not persistent. -/
def mapGlobalsLoop : Option GlobalGroup → List LocVarnode → List GlobalGroup
  | cur, [] => cur.toList
  | none, vn :: rest =>
    if vn.free || !vn.persist then mapGlobalsLoop none rest
    else mapGlobalsLoop (some (.start vn)) rest
  | some g, vn :: rest =>
    if vn.persist && vn.loc.lt g.endaddr then mapGlobalsLoop (some (g.extend vn)) rest
    else g :: if vn.free || !vn.persist then mapGlobalsLoop none rest
      else mapGlobalsLoop (some (.start vn)) rest

/-- `Funcdata::mapGlobals`: the groups, each of which gets a global symbol at `addr` whose
type has size `typeSize`. -/
def mapGlobals (vns : List LocVarnode) : List GlobalGroup := mapGlobalsLoop none vns

namespace GlobalGroup

/-- What the loop keeps of the group it extends: the members start with the varnode that
opened the group, non-free and at `addr`; all of them are persistent; `maxvn` is the biggest;
and `endaddr` is the end of the latest. -/
structure Opened (g : GlobalGroup) : Prop where
  opener : ∃ vn rest, g.members = vn :: rest ∧ g.addr = vn.loc ∧ vn.free = false
  persist : ∀ m ∈ g.members, m.persist = true
  maxvn : g.maxvn ∈ g.members
  biggest : ∀ m ∈ g.members, m.size ≤ g.maxvn.size
  endaddr : ∃ last, g.members.getLast? = some last ∧ g.endaddr = last.loc.add last.size

theorem opened_start {vn : LocVarnode} (hf : vn.free = false) (hp : vn.persist = true) :
    (start vn).Opened where
  opener := ⟨vn, [], rfl, rfl, hf⟩
  persist m hm := by rw [List.mem_singleton.1 hm]; exact hp
  maxvn := List.mem_singleton_self _
  biggest m hm := by rw [List.mem_singleton.1 hm]; rfl
  endaddr := ⟨vn, rfl, rfl⟩

theorem Opened.extend {g : GlobalGroup} (h : g.Opened) {vn : LocVarnode}
    (hp : vn.persist = true) : (g.extend vn).Opened where
  opener := by
    obtain ⟨o, rest, hm, ha, hf⟩ := h.opener
    exact ⟨o, rest ++ [vn], by simp only [GlobalGroup.extend, hm, List.cons_append], ha, hf⟩
  persist m hm := by
    rcases List.mem_append.1 hm with hm | hm
    · exact h.persist m hm
    · rw [List.mem_singleton.1 hm]; exact hp
  maxvn := by
    simp only [GlobalGroup.extend]
    split_ifs
    · exact List.mem_append_right _ (List.mem_singleton_self _)
    · exact List.mem_append_left _ h.maxvn
  biggest m hm := by
    have := h.biggest
    simp only [GlobalGroup.extend] at hm ⊢
    rcases List.mem_append.1 hm with hm | hm
    · have := h.biggest m hm; split_ifs <;> omega
    · rw [List.mem_singleton.1 hm]; split_ifs <;> omega
  endaddr := ⟨vn, List.getLast?_concat _, rfl⟩

end GlobalGroup

/-- The loop hands out only groups it opened and extended as the source does. -/
theorem mapGlobalsLoop_opened : ∀ (vns : List LocVarnode) (cur : Option GlobalGroup),
    (∀ g ∈ cur, g.Opened) → ∀ g ∈ mapGlobalsLoop cur vns, g.Opened
  | [], cur, h => fun g hg => h g (by cases cur <;> simp_all [mapGlobalsLoop, eq_comm])
  | vn :: rest, none, _ => by
    have hopen : ∀ g ∈ mapGlobalsLoop (some (.start vn)) rest,
        vn.free = false → vn.persist = true → g.Opened := fun g hg hf hp =>
      mapGlobalsLoop_opened rest _ (fun g' hg' => by
        rw [Option.mem_def, Option.some.injEq] at hg'
        exact hg' ▸ GlobalGroup.opened_start hf hp) g hg
    simp only [mapGlobalsLoop]
    split_ifs with hs
    · exact mapGlobalsLoop_opened rest none (fun _ h => absurd h (Option.not_mem_none _))
    · simp only [Bool.or_eq_true, Bool.not_eq_true', not_or, Bool.not_eq_false] at hs
      exact fun g hg => hopen g hg (by simpa using hs.1) hs.2
  | vn :: rest, some g₀, h => by
    have h₀ := h g₀ rfl
    simp only [mapGlobalsLoop]
    split_ifs with hj hs
    · refine mapGlobalsLoop_opened rest _ fun g hg => ?_
      rw [Option.mem_def, Option.some.injEq] at hg
      exact hg ▸ h₀.extend (Bool.and_eq_true _ _ ▸ hj).1
    · intro g hg
      rcases List.mem_cons.1 hg with rfl | hg
      · exact h₀
      · exact mapGlobalsLoop_opened rest none (fun _ h => absurd h (Option.not_mem_none _)) g hg
    · simp only [Bool.or_eq_true, Bool.not_eq_true', not_or, Bool.not_eq_false] at hs
      intro g hg
      rcases List.mem_cons.1 hg with rfl | hg
      · exact h₀
      · refine mapGlobalsLoop_opened rest _ (fun g' hg' => ?_) g hg
        rw [Option.mem_def, Option.some.injEq] at hg'
        exact hg' ▸ GlobalGroup.opened_start (by simpa using hs.1) hs.2

/-- **The groups of `mapGlobals`**: every group starts with the non-free persistent varnode
that opened it, at the group's address; all its members are persistent; `maxvn` is its
biggest member; and the group ends where its latest member ends. -/
theorem mapGlobals_opened (vns : List LocVarnode) : ∀ g ∈ mapGlobals vns, g.Opened :=
  mapGlobalsLoop_opened vns none fun _ h => absurd h (Option.not_mem_none _)

/-- Away from the top of the space, the symbol's type spans the group exactly:
`[addr, addr + typeSize) = [addr, endaddr)`. -/
theorem GlobalGroup.typeSize_eq (g : GlobalGroup)
    (hnw : g.addr.offset + g.maxvn.size ≤ g.addr.space.highest) :
    g.typeSize = g.endaddr.offset - g.addr.offset := by
  unfold typeSize
  split_ifs with h
  · rw [← h.2, Address.add_of_lt hnw]
    simp
  · rfl

/-- The 4 GiB processor space of the examples. -/
def ramSpace : AddrSpace := ⟨1, .processor, 0xffffffff, false, 1⟩

/-- An 8-byte global at `0` and a 2-byte global at `2`, inside it, form one group; the end
moves back to `4`, the end of the second, so the group's symbol is a 4-byte type at `0` and
does not cover the first global, which ends at `8`. -/
theorem mapGlobals_nested_uncovered :
    mapGlobals [⟨⟨ramSpace, 0⟩, 8, false, true⟩, ⟨⟨ramSpace, 2⟩, 2, false, true⟩] =
        [⟨⟨ramSpace, 0⟩, ⟨ramSpace, 4⟩, ⟨⟨ramSpace, 0⟩, 8, false, true⟩,
          [⟨⟨ramSpace, 0⟩, 8, false, true⟩, ⟨⟨ramSpace, 2⟩, 2, false, true⟩]⟩] ∧
      GlobalGroup.typeSize ⟨⟨ramSpace, 0⟩, ⟨ramSpace, 4⟩, ⟨⟨ramSpace, 0⟩, 8, false, true⟩,
        [⟨⟨ramSpace, 0⟩, 8, false, true⟩, ⟨⟨ramSpace, 2⟩, 2, false, true⟩]⟩ = 4 := by
  decide

end Funcdata

end GhidraDec
