/-
# WaylandMap.Word — the slot word of `union map_entry` and its three macros.

A slot of either array of a `wl_map` is one `uintptr_t`. It holds either a stored reference packed
with one flag bit (`entry->data = data; entry->next |= (flags & 0x1) << 1`), or a free-list link
`(i << 1) | 1` copied from the 32-bit `free_list`. `map_entry_is_free`, `map_entry_get_data` and
`map_entry_get_flags` unpack it. This module fixes the word as `BitVec 64` and ids as `BitVec 32`,
states the source's constants, and proves the decoding laws once:

* a packed 4-byte-aligned reference is never free and unpacks to itself and its flag bit
  (`mapEntryGetData_packEntry`, `mapEntryGetFlags_packEntry`, `mapEntryIsFree_packEntry`);
* a link word is free, is never zero, survives the 64→32 truncation of `map->free_list = entry->next`,
  and gives its index back under `>> 1` while the index is below `2^31` (`freeLink_ushiftRight`).

Every later module reads slot words only through these lemmas.
-/
import Mathlib.Data.BitVec

namespace WaylandMap

/-! ## §1 — words, ids and the source's constants -/

/-- `uintptr_t`: one slot of a `wl_map` array (`union map_entry`), also the type of a reference. -/
abbrev Word := BitVec 64

/-- `WL_MAP_SERVER_SIDE`. -/
def wlMapServerSide : BitVec 32 := 0

/-- `WL_MAP_CLIENT_SIDE`. -/
def wlMapClientSide : BitVec 32 := 1

/-- `WL_SERVER_ID_START`: ids at or above it resolve to `server_entries`. -/
def wlServerIdStart : BitVec 32 := 0xff000000

/-- `WL_MAP_MAX_OBJECTS`: the bound both capacity checks compare an index against. -/
def wlMapMaxObjects : BitVec 32 := 0x00f00000

@[simp] theorem wlServerIdStart_toNat : wlServerIdStart.toNat = 0xff000000 := rfl

@[simp] theorem wlMapMaxObjects_toNat : wlMapMaxObjects.toNat = 0x00f00000 := rfl

@[simp] theorem wlMapServerSide_ne_clientSide : wlMapServerSide ≠ wlMapClientSide := by decide

@[simp] theorem wlMapClientSide_ne_serverSide : wlMapClientSide ≠ wlMapServerSide := by decide

/-- A reference the table may store: its two low bits are clear, so the packing has room. -/
def Aligned (d : Word) : Prop := d.toNat % 4 = 0

instance : DecidablePred Aligned := fun d => inferInstanceAs (Decidable (d.toNat % 4 = 0))

theorem Aligned.getLsbD_zero {d : Word} (h : Aligned d) : d.getLsbD 0 = false := by
  simp only [Aligned] at h
  simp [BitVec.getLsbD, Nat.testBit]; omega

theorem Aligned.getLsbD_one {d : Word} (h : Aligned d) : d.getLsbD 1 = false := by
  simp only [Aligned] at h
  simp [BitVec.getLsbD, Nat.testBit, Nat.shiftRight_succ]; omega

/-! ## §2 — the macros and the two ways a slot word is written -/

/-- `map_entry_is_free(entry)`: bit 0 of the word. -/
def mapEntryIsFree (w : Word) : Bool := w &&& 1#64 != 0#64

/-- `map_entry_get_data(entry)`: the word with its two low bits cleared. -/
def mapEntryGetData (w : Word) : Word := w &&& ~~~3#64

/-- `map_entry_get_flags(entry)`: bit 1 of the word. -/
def mapEntryGetFlags (w : Word) : Word := (w >>> 1) &&& 1#64

/-- The word `entry->data = data; entry->next |= (flags & 0x1) << 1;` leaves in a slot; the
shifted flag is a 32-bit value widened by the `|=`. -/
def packEntry (data : Word) (flags : BitVec 32) : Word :=
  data ||| ((flags &&& 1#32) <<< 1).setWidth 64

/-- `(i << 1) | 1`: the 32-bit link `wl_map_remove` stores in `free_list`. -/
def freeLink (i : BitVec 32) : BitVec 32 := (i <<< 1) ||| 1#32

/-! ## §3 — decoding laws -/

section Packed

open BitVec

variable {d : Word} (h : Aligned d) (f : BitVec 32)
include h

/-- **A packed reference unpacks to itself.** -/
@[simp] theorem mapEntryGetData_packEntry : mapEntryGetData (packEntry d f) = d := by
  ext i
  rcases i with ⟨_ | _ | i, hi⟩ <;>
    simp only [mapEntryGetData, packEntry, getLsbD_and, getLsbD_not, getLsbD_or, getLsbD_setWidth,
      getLsbD_shiftLeft, getLsbD_ofNat] <;>
    simp [h.getLsbD_zero, h.getLsbD_one, Nat.testBit_succ, hi]

/-- **A packed reference is never read as a free-list link.** -/
@[simp] theorem mapEntryIsFree_packEntry : mapEntryIsFree (packEntry d f) = false := by
  have hlow : packEntry d f &&& 1#64 = 0#64 := by
    ext i
    rcases i with ⟨_ | _ | i, hi⟩ <;> simp [packEntry, h.getLsbD_zero, Nat.testBit_succ]
  simp [mapEntryIsFree, hlow]

/-- **The flag read back is bit 0 of the flags stored.** -/
@[simp] theorem mapEntryGetFlags_packEntry :
    (mapEntryGetFlags (packEntry d f)).setWidth 32 = f &&& 1#32 := by
  ext i
  rcases i with ⟨_ | i, hi⟩ <;>
    simp [mapEntryGetFlags, packEntry, h.getLsbD_one, Nat.testBit_succ, hi]

end Packed

@[simp] theorem mapEntryIsFree_zero : mapEntryIsFree 0#64 = false := by decide

@[simp] theorem mapEntryGetData_zero : mapEntryGetData 0#64 = 0#64 := by decide

@[simp] theorem mapEntryGetFlags_zero : (mapEntryGetFlags 0#64).setWidth 32 = 0#32 := by decide

/-- **A slot word that is not free is zero exactly when its reference and its flag read as zero.** -/
theorem eq_zero_of_unpack_eq_zero {w : Word} (hfree : mapEntryIsFree w = false)
    (hd : mapEntryGetData w = 0#64) (hf : (mapEntryGetFlags w).setWidth 32 = 0#32) : w = 0#64 := by
  have h0 : w &&& 1#64 = 0#64 := by simpa [mapEntryIsFree] using hfree
  ext i
  rcases i with ⟨_ | _ | i, hi⟩
  · simpa using congrArg (BitVec.getLsbD · 0) h0
  · simpa [mapEntryGetFlags] using congrArg (BitVec.getLsbD · 0) hf
  · have := congrArg (BitVec.getLsbD · (i + 2)) hd
    simp only [mapEntryGetData, BitVec.getLsbD_and, BitVec.getLsbD_not, BitVec.getLsbD_ofNat,
      BitVec.getLsbD_zero] at this
    simpa [Nat.testBit_succ, hi] using this

/-- A link copied into a slot is read as free. -/
@[simp] theorem mapEntryIsFree_freeLink (i : BitVec 32) :
    mapEntryIsFree ((freeLink i).setWidth 64) = true := by
  have hlow : (freeLink i).setWidth 64 &&& 1#64 = 1#64 := by
    ext j
    rcases j with ⟨_ | j, hj⟩ <;> simp [freeLink, Nat.testBit_succ]
  simp [mapEntryIsFree, hlow]

theorem freeLink_ne_zero (i : BitVec 32) : freeLink i ≠ 0#32 := by
  intro h
  simpa [freeLink] using congrArg (BitVec.getLsbD · 0) h

/-- `free_list >> 1` recovers the index while `i << 1` did not overflow. -/
theorem freeLink_ushiftRight {i : BitVec 32} (h : i.toNat < 2 ^ 31) : freeLink i >>> 1 = i := by
  ext ⟨j, hj⟩
  simp only [freeLink, BitVec.getLsbD_ushiftRight, BitVec.getLsbD_or, BitVec.getLsbD_shiftLeft,
    BitVec.getLsbD_ofNat]
  by_cases hj31 : j < 31
  · simp [hj31, show j + 1 < 32 by omega, Nat.add_comm 1 j, Nat.testBit_succ]
  · obtain rfl : j = 31 := by omega
    simp [BitVec.getLsbD, Nat.testBit_lt_two_pow h]

end WaylandMap
