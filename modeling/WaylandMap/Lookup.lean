/-
# WaylandMap.Lookup — the table as a finite map from ids to (reference, flag).

`wl_map_lookup` and `wl_map_lookup_flags` read one slot word and unpack it. This module proves
the four laws that make the table a finite map over the whole 32-bit id space: what a successful
`insert_at`, `insert_new`, `remove` and `reserve_new` leave for the id they touched, every id and
every aligned reference, from every state of a disciplined run. `lookupWith_of_getD` is the one
reading of a lookup everything here goes through.

`insert_at` and `reserve_new` obey their law from any state. `insert_new` needs the invariant
(the popped index is in range, the link it copies is a link) and a bound: the law is stated while
the own array holds fewer than `2^32` slots, since past that the `uint32_t count` it computes the
id from wraps (`insertNew_wraps_past_two_pow_32` shows the table then issues a live id).
-/
import WaylandMap.Capacity

namespace WaylandMap.Lookup

/-! ## §1 — reading one slot -/

variable {get : Word → Word} {m m' : WlMap} {i : BitVec 32}

/-- **A lookup reads one word**: the resolved slot, if it is below the truncated count and not
free. -/
theorem lookupWith_of_getD {w : Word}
    (hw : (m.entries (resolve i).1).getD (resolve i).2.toNat 0#64 = w) :
    lookupWith get m i =
      if (resolve i).2.toNat < (m.entries (resolve i).1).length % 2 ^ 32 ∧ mapEntryIsFree w = false
      then get w else 0#64 := by
  unfold lookupWith
  generalize resolve i = r at hw ⊢
  obtain ⟨ns, k⟩ := r
  simp only [BitVec.lt_def, slotCount_toNat] at hw ⊢
  rw [hw]

/-- A slot holding the word 0 reads as NULL and flag 0. -/
theorem lookupWith_zero (hget : get 0#64 = 0#64)
    (hw : (m.entries (resolve i).1).getD (resolve i).2.toNat 0#64 = 0#64) : lookupWith get m i = 0#64 := by
  rw [lookupWith_of_getD hw]; split_ifs <;> simp [hget]

/-- A slot on the free chain reads as NULL and flag 0, whatever its place on the chain. -/
theorem lookupWith_linkOf (hget : get 0#64 = 0#64) {s : List Nat}
    (hw : (m.entries (resolve i).1).getD (resolve i).2.toNat 0#64 = (linkOf s).setWidth 64) :
    lookupWith get m i = 0#64 := by
  cases s with
  | nil => exact lookupWith_zero hget hw
  | cons j s => rw [lookupWith_of_getD hw]; simp [linkOf]

/-- An id whose slot holds 0 looks up to NULL and flag 0. -/
theorem lookup_of_zero (hw : (m.entries (resolve i).1).getD (resolve i).2.toNat 0#64 = 0#64) :
    wlMapLookup m i = 0#64 ∧ wlMapLookupFlags m i = 0#32 :=
  ⟨lookupWith_zero (by simp) hw, by
    rw [wlMapLookupFlags, lookupWith_zero (by simp [mapEntryGetFlags]) hw]; rfl⟩

/-- An id whose slot is on the free chain looks up to NULL and flag 0. -/
theorem lookup_of_linkOf {s : List Nat}
    (hw : (m.entries (resolve i).1).getD (resolve i).2.toNat 0#64 = (linkOf s).setWidth 64) :
    wlMapLookup m i = 0#64 ∧ wlMapLookupFlags m i = 0#32 :=
  ⟨lookupWith_linkOf (by simp) hw, by
    rw [wlMapLookupFlags, lookupWith_linkOf (by simp [mapEntryGetFlags]) hw]; rfl⟩

/-- A slot holding a packed aligned reference, below the count, reads back what was packed. -/
theorem lookup_packEntry {d : Word} {f : BitVec 32} (hd : Aligned d)
    (hlt : (resolve i).2.toNat < (m.entries (resolve i).1).length % 2 ^ 32)
    (hw : (m.entries (resolve i).1).getD (resolve i).2.toNat 0#64 = packEntry d f) :
    wlMapLookup m i = d ∧ wlMapLookupFlags m i = f &&& 1#32 := by
  unfold wlMapLookup wlMapLookupFlags
  have hfree : mapEntryIsFree (packEntry d f) = false := mapEntryIsFree_packEntry hd f
  rw [lookupWith_of_getD hw, lookupWith_of_getD hw, if_pos ⟨hlt, hfree⟩, if_pos ⟨hlt, hfree⟩]
  exact ⟨mapEntryGetData_packEntry hd f, mapEntryGetFlags_packEntry hd f⟩

/-! ## §2 — the four laws -/

/-- **`insert_at` binds**: after a successful `insert_at(flags, i, d)` of an aligned `d`, from any
state, `i` looks up to `d` and flag bit `flags & 1`. -/
theorem insertAt_lookup {f : BitVec 32} {d : Word} {a : Option Word} {u : Unit} (hd : Aligned d)
    (h : wlMapInsertAt m f i d a = (m', .ok u)) :
    wlMapLookup m' i = d ∧ wlMapLookupFlags m' i = f &&& 1#32 := by
  obtain ⟨hk, e, rfl, he⟩ := wlMapInsertAt_ok h
  have hcount : (resolve i).2.toNat < e.length % 2 ^ 32 := by
    rcases he with ⟨rfl, hlt⟩ | ⟨gb, -, rfl, hkL⟩
    · exact hlt
    · simp only [List.length_append, List.length_singleton]; omega
  have hlen : (resolve i).2.toNat < e.length := lt_of_lt_of_le hcount (Nat.mod_le _ _)
  apply lookup_packEntry hd
  · simpa using hcount
  · simp [List.getD_eq_getElem?_getD, List.getElem?_set_self hlen]

/-- **`reserve_new` leaves NULL**: after a successful `reserve_new(i)`, from any state, `i` looks
up to NULL and flag 0. -/
theorem reserveNew_lookup {a : Option Word} {u : Unit} (h : wlMapReserveNew m i a = (m', .ok u)) :
    wlMapLookup m' i = 0#64 ∧ wlMapLookupFlags m' i = 0#32 := by
  obtain ⟨ns, k, hr, hk, ⟨rfl, -, hw⟩ | ⟨gb, -, hkL, rfl⟩⟩ := wlMapReserveNew_ok h
  all_goals have hres := resolveFor_eq_some hr
  · exact lookup_of_zero (by rw [← hres]; exact hw)
  · refine lookup_of_zero ?_
    rw [← hres]
    simp [List.getD_eq_getElem?_getD, List.getElem?_set_self
      (show k.toNat < (m.entries ns ++ [gb]).length by simp; omega)]

variable {side : BitVec 32} {g : Ghost}

/-- An index `insert_new` issues lands in the side's own namespace. -/
theorem issued_namespace (side : BitVec 32) {t : Nat} (ht : t ≤ 0xf00000) :
    if side = wlMapClientSide then BitVec.ofNat 32 t + idBase side < wlServerIdStart
    else wlServerIdStart ≤ BitVec.ofNat 32 t + idBase side := by
  unfold idBase
  split_ifs
  · simp only [BitVec.lt_def, BitVec.toNat_add, BitVec.toNat_ofNat, wlServerIdStart_toNat]; omega
  · simp only [BitVec.le_def, BitVec.toNat_add, BitVec.toNat_ofNat, wlServerIdStart_toNat]; omega

/-- **`insert_new` binds**: in a reachable state whose own array holds fewer than `2^32` slots, a
successful `insert_new(flags, d)` of an aligned `d` issues an id of the side's own namespace whose
slot holds the packed entry, and the id looks up to `d` and flag bit `flags & 1`. -/
theorem insertNew_lookup {f : BitVec 32} {d : Word} {a : Option Word} {id : BitVec 32}
    (hi : Inv side m g) (hd : Aligned d) (hlen : (m.entries (ownNs side)).length < 2 ^ 32)
    (h : wlMapInsertNew m f d a = some (m', .ok id)) :
    (if side = wlMapClientSide then id < wlServerIdStart else wlServerIdStart ≤ id) ∧
    (m'.entries (ownNs side))[(resolve id).2.toNat]? = some (packEntry d f) ∧
    wlMapLookup m' id = d ∧ wlMapLookupFlags m' id = f &&& 1#32 := by
  rcases hi.insertNew_cases h with ⟨j, s, hrem, hid, rfl⟩ | ⟨-, -, -, hid⟩ |
    ⟨gb, -, -, ⟨hL, hid, rfl⟩ | ⟨-, hid, -⟩⟩
  · have hj : j ≤ 0xf00000 := hi.removed_le j (by simp [hrem])
    have hjL : j < (m.entries (ownNs side)).length := hi.removed_lt j (by simp [hrem])
    obtain rfl := Except.ok.inj hid
    have hres := resolve_issued side hj
    refine ⟨issued_namespace side hj, ?_, lookup_packEntry hd ?_ ?_⟩ <;>
      simp only [hres, BitVec.toNat_ofNat, Nat.mod_eq_of_lt (show j < 2 ^ 32 by omega)]
    · simp [List.getElem?_set_self hjL]
    · simp; omega
    · simp [List.getD_eq_getElem?_getD, List.getElem?_set_self hjL]
  · cases hid
  · obtain rfl := Except.ok.inj hid
    have hL' : (m.entries (ownNs side)).length % 2 ^ 32 = (m.entries (ownNs side)).length :=
      Nat.mod_eq_of_lt hlen
    have hres := resolve_issued_toNat side hL
    rw [hL'] at hL hres
    refine ⟨issued_namespace side hL, ?_, lookup_packEntry hd ?_ ?_⟩ <;>
      simp only [hres, BitVec.toNat_ofNat, Nat.mod_eq_of_lt hlen]
    · simp
    · simp; omega
    · simp [List.getD_eq_getElem?_getD]
  · cases hid

/-- **`remove` unbinds**: in a reachable state, removing an allocated own id is defined and leaves
the id looking up to NULL and flag 0. -/
theorem remove_lookup (hi : Inv side m g) (ha : g.Allows side (.remove i))
    (hown : (resolve i).1 = ownNs side) :
    ∃ m', wlMapRemove m i = some m' ∧ wlMapLookup m' i = 0#64 ∧ wlMapLookupFlags m' i = 0#32 := by
  have hk := hi.allocated_spec _ (ha hown)
  rw [hi.remove_eq, if_pos hown, if_pos hk.2.1]
  have hw : (((m.setEntries (ownNs side) ((m.entries (ownNs side)).set (resolve i).2.toNat
      ((linkOf g.removed).setWidth 64))).setFreeList (linkOf ((resolve i).2.toNat :: g.removed))).entries
        (resolve i).1).getD (resolve i).2.toNat 0#64 = (linkOf g.removed).setWidth 64 := by
    rw [hown]
    simp [List.getD_eq_getElem?_getD, List.getElem?_set_self hk.2.1]
  exact ⟨_, rfl, lookup_of_linkOf hw⟩

/-- A peer id's `remove` changes nothing. -/
theorem remove_peer (hi : Inv side m g) (hpeer : (resolve i).1 ≠ ownNs side) :
    wlMapRemove m i = some m := by
  rw [hi.remove_eq, if_neg hpeer]

/-! ## §3 — the finite-map laws over disciplined runs -/

/-- **The table is a finite map.** In every state of a disciplined run, for every id, flag word
and aligned reference: a successful `insert_at` binds the id to the reference and flag bit; a
successful `insert_new` made while the own array holds fewer than `2^32` slots issues an id of the
side's own namespace (below `WL_SERVER_ID_START` on the client side, at or above it on the server
side) whose own slot holds the entry, with the same two equations; removing an allocated own id is
defined and unbinds it, removing a peer id changes nothing; and a successful `reserve_new` leaves
its id unbound. -/
theorem finite_map_laws {side : BitVec 32} {m : WlMap} {g : Ghost} (h : Tracked side m g) :
    (∀ (f i : BitVec 32) (d : Word) (a : Option Word) (m' : WlMap) (u : Unit), Aligned d →
      wlMapInsertAt m f i d a = (m', .ok u) →
      wlMapLookup m' i = d ∧ wlMapLookupFlags m' i = f &&& 1#32) ∧
    (∀ (f : BitVec 32) (d : Word) (a : Option Word) (m' : WlMap) (id : BitVec 32), Aligned d →
      (m.entries (ownNs side)).length < 2 ^ 32 → wlMapInsertNew m f d a = some (m', .ok id) →
      (if side = wlMapClientSide then id < wlServerIdStart else wlServerIdStart ≤ id) ∧
      (m'.entries (ownNs side))[(resolve id).2.toNat]? = some (packEntry d f) ∧
      wlMapLookup m' id = d ∧ wlMapLookupFlags m' id = f &&& 1#32) ∧
    (∀ i : BitVec 32, (resolve i).1 = ownNs side → g.allocated (resolve i).2.toNat = true →
      ∃ m', wlMapRemove m i = some m' ∧ wlMapLookup m' i = 0#64 ∧ wlMapLookupFlags m' i = 0#32) ∧
    (∀ i : BitVec 32, (resolve i).1 ≠ ownNs side → wlMapRemove m i = some m) ∧
    (∀ (i : BitVec 32) (a : Option Word) (m' : WlMap) (u : Unit),
      wlMapReserveNew m i a = (m', .ok u) → wlMapLookup m' i = 0#64 ∧ wlMapLookupFlags m' i = 0#32) :=
  have hi := h.inv
  ⟨fun _ _ _ _ _ _ hd hc => insertAt_lookup hd hc,
    fun _ _ _ _ _ hd hlen hc => insertNew_lookup hi hd hlen hc,
    fun _ hown halloc => remove_lookup hi (fun _ => halloc) hown,
    fun _ hpeer => remove_peer hi hpeer,
    fun _ _ _ _ hc => reserveNew_lookup hc⟩

theorem finite_map_laws_sampleMap :
    Tracked wlMapClientSide sampleMap sampleGhost ∧
    (∀ (f i : BitVec 32) (d : Word) (a : Option Word) (m' : WlMap) (u : Unit), Aligned d →
      wlMapInsertAt sampleMap f i d a = (m', .ok u) →
      wlMapLookup m' i = d ∧ wlMapLookupFlags m' i = f &&& 1#32) ∧
    (∀ (f : BitVec 32) (d : Word) (a : Option Word) (m' : WlMap) (id : BitVec 32), Aligned d →
      (sampleMap.entries (ownNs wlMapClientSide)).length < 2 ^ 32 →
      wlMapInsertNew sampleMap f d a = some (m', .ok id) →
      (if wlMapClientSide = wlMapClientSide then id < wlServerIdStart else wlServerIdStart ≤ id) ∧
      (m'.entries (ownNs wlMapClientSide))[(resolve id).2.toNat]? = some (packEntry d f) ∧
      wlMapLookup m' id = d ∧ wlMapLookupFlags m' id = f &&& 1#32) ∧
    (∀ i : BitVec 32, (resolve i).1 = ownNs wlMapClientSide →
      sampleGhost.allocated (resolve i).2.toNat = true →
      ∃ m', wlMapRemove sampleMap i = some m' ∧ wlMapLookup m' i = 0#64 ∧
        wlMapLookupFlags m' i = 0#32) ∧
    (∀ i : BitVec 32, (resolve i).1 ≠ ownNs wlMapClientSide → wlMapRemove sampleMap i = some sampleMap) ∧
    (∀ (i : BitVec 32) (a : Option Word) (m' : WlMap) (u : Unit),
      wlMapReserveNew sampleMap i a = (m', .ok u) →
      wlMapLookup m' i = 0#64 ∧ wlMapLookupFlags m' i = 0#32) :=
  ⟨tracked_sampleMap, finite_map_laws tracked_sampleMap⟩

/-! ## §4 — past `2^32` slots -/

open Capacity (filledMap filledGhost filledMap_clientEntries_length filledMap_getElem?_of_lt
  tracked_overfilledMap)

/-- On a client table of `k + n = 2^32` slots whose first `k` hold the reference 4, the `uint32_t
count` of the appended slot is 0: `insert_new(0, 8)` issues the id 0, which still reads slot 0. -/
theorem insertNew_filledMap_wraps {k n : Nat} (hk : 0 < k) (hkn : k + n = 2 ^ 32) :
    ∃ m', wlMapInsertNew (filledMap k n) 0#32 8#64 (some 0#64) = some (m', .ok 0#32) ∧
      wlMapLookup m' 0#32 = 4#64 := by
  have hlen := filledMap_clientEntries_length k n
  rw [wlMapInsertNew_of_freeList_zero rfl, storeNew_of_le _ _ (by
    show (filledMap k n).clientEntries.length % 2 ^ 32 ≤ _; omega)]
  refine ⟨_, congrArg some (Prod.ext rfl (congrArg Except.ok (BitVec.eq_of_toNat_eq ?_))), ?_⟩
  · show (BitVec.ofNat 32 (filledMap k n).clientEntries.length + 0#32).toNat = 0
    simp [hlen, hkn]
  · have hres : resolve 0#32 = (.client, 0#32) := resolve_lt (by decide)
    refine (lookup_packEntry (f := 0#32) (by decide) ?_ ?_).1 <;> rw [hres]
    · simp [hlen]; omega
    · simp [List.getD_eq_getElem?_getD]
      rw [List.getElem_append_left (by omega)]
      exact List.getElem_eq_iff.mpr (filledMap_getElem?_of_lt hk)

/-- **Past `2^32` slots the `insert_new` law fails.** A disciplined run drives a client table to
`WL_MAP_MAX_OBJECTS + 1` bound slots and then, by refused `insert_new`s, to `2^32` slots; the next
`insert_new(0, 8)` of the aligned reference 8 succeeds with the id 0, which looks up to 4. -/
theorem insertNew_wraps_past_two_pow_32 :
    Tracked wlMapClientSide (filledMap (0xf00000 + 1) (2 ^ 32 - (0xf00000 + 1)))
      (filledGhost (0xf00000 + 1)) ∧ Aligned 8#64 ∧
    ∃ m', wlMapInsertNew (filledMap (0xf00000 + 1) (2 ^ 32 - (0xf00000 + 1))) 0#32 8#64 (some 0#64) =
        some (m', .ok 0#32) ∧ wlMapLookup m' 0#32 = 4#64 :=
  ⟨tracked_overfilledMap _ rfl _ (by omega), by decide,
    insertNew_filledMap_wraps (by omega) (by omega)⟩

end WaylandMap.Lookup
