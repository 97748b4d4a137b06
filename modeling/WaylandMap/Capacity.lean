/-
# WaylandMap.Capacity — `WL_MAP_MAX_OBJECTS`: what the capacity checks bound, and what they do not.

Both checks compare with `>`: `wl_map_insert_at` and `wl_map_reserve_new` refuse an index above
`WL_MAP_MAX_OBJECTS`, `wl_map_insert_new` refuses when `count = entry - start` is above it. So every
index a call binds or reserves is at most `WL_MAP_MAX_OBJECTS` (`capacity_bounds`), and the array
`insert_new` never allocates from stays within `WL_MAP_MAX_OBJECTS + 1` slots. The side's own array
does not: `wl_map_insert_new` takes its slot before the check ("wl_array only grows, so if we have
too many objects at this point there's no way to clean up"), so each refused call appends a NULL
slot (`failed_calls_atomic`). Every other failure leaves the table as it was.

`filledMap k n` is the client table after `k` successful `insert_new(0, 4)` and `n` refused ones;
`tracked_filledMap` and `tracked_overfilledMap` reach it by induction on the run; the full-table
results (`insertNew_binds_index_max`, `insertNew_refused_grows_array`, and `Lookup`'s wrap past
`2^32` slots) are stated at it.
-/
import WaylandMap.FreeList

namespace WaylandMap.Capacity

/-! ## §1 — driving a client table to the bound and past it -/

/-- The client table after `k` successful `insert_new(0, 4)` and then `n` refused ones. -/
def filledMap (k n : Nat) : WlMap :=
  ⟨List.replicate k (packEntry 4#64 0#32) ++ List.replicate n 0#64, [], wlMapClientSide, 0#32⟩

/-- Its history: the first `k` indices issued, none removed. -/
def filledGhost (k : Nat) : Ghost := ⟨fun j => decide (j < k), []⟩

@[simp] theorem filledMap_side (k n : Nat) : (filledMap k n).side = wlMapClientSide := rfl

@[simp] theorem filledMap_freeList (k n : Nat) : (filledMap k n).freeList = 0#32 := rfl

@[simp] theorem filledMap_entries_client (k n : Nat) :
    (filledMap k n).entries .client = (filledMap k n).clientEntries := rfl

theorem filledMap_getElem?_of_lt {k n j : Nat} (hj : j < k) :
    (filledMap k n).clientEntries[j]? = some (packEntry 4#64 0#32) := by
  simp [filledMap, List.getElem?_append_left (show j < (List.replicate k _).length by simpa), hj]

/-- Stated for variable counts, so that no proof at a literal bound unfolds `List.replicate`. -/
theorem filledMap_clientEntries_length (k n : Nat) : (filledMap k n).clientEntries.length = k + n := by
  simp [filledMap]

/-- Below the bound, `insert_new(0, 4)` on a filled table issues the next index. -/
theorem wlMapInsertNew_filledMap {k : Nat} (hk : k ≤ 0xf00000) :
    wlMapInsertNew (filledMap k 0) 0#32 4#64 (some 0#64) =
      some (filledMap (k + 1) 0, .ok (BitVec.ofNat 32 k)) := by
  rw [wlMapInsertNew_of_freeList_zero rfl, storeNew_of_le _ _ (by simp [filledMap, WlMap.entries]; omega)]
  simp [filledMap, WlMap.entries, WlMap.setEntries, List.replicate_succ']

/-- Past the bound (and below `2^32` slots), `insert_new(0, 4)` is refused and appends a NULL slot. -/
theorem wlMapInsertNew_overfilledMap (k n : Nat) (hk : 0xf00000 < k + n) (hn : k + n < 2 ^ 32) :
    wlMapInsertNew (filledMap k n) 0#32 4#64 (some 0#64) =
      some (filledMap k (n + 1), .error .enospc) := by
  rw [wlMapInsertNew_of_freeList_zero rfl, storeNew_of_lt _ _ (by simp [filledMap, WlMap.entries]; omega)]
  simp [filledMap, WlMap.entries, WlMap.setEntries, List.replicate_succ']

/-- The history after the next successful `insert_new(0, 4)`. -/
theorem filledGhost_record {k : Nat} (hk : k ≤ 0xf00000) :
    (filledGhost k).record wlMapClientSide (.insertNew 0#32 4#64 (some 0#64)) (.ok (BitVec.ofNat 32 k)) =
      filledGhost (k + 1) := by
  have hres : resolve (BitVec.ofNat 32 k) = (.client, BitVec.ofNat 32 k) :=
    resolve_lt (by simp only [BitVec.lt_def, BitVec.toNat_ofNat, wlServerIdStart_toNat]; omega)
  simp only [Ghost.record_insertNew_ok, hres, BitVec.toNat_ofNat, Nat.mod_eq_of_lt
    (show k < 2 ^ 32 by omega), filledGhost, List.erase_nil, Ghost.mk.injEq, and_true]
  funext j
  by_cases hj : j = k <;> simp [Function.update_apply, hj]; omega

/-- **A client table reaches `k ≤ WL_MAP_MAX_OBJECTS + 1` bound slots** by a disciplined run. -/
theorem tracked_filledMap : ∀ k, k ≤ 0xf00000 + 1 →
    Tracked wlMapClientSide (filledMap k 0) (filledGhost k)
  | 0, _ => (Tracked.init (.inl rfl)).congr rfl (by simp [filledGhost, Ghost.empty])
  | k + 1, hk =>
    ((tracked_filledMap k (by omega)).step
      (show (filledGhost k).Allows wlMapClientSide (.insertNew 0#32 4#64 (some 0#64)) from trivial)
      ((wlMapCall_insertNew _ _ _ _).trans (wlMapInsertNew_filledMap (by omega)))).congr rfl
      (filledGhost_record (by omega))

/-- **... and keeps growing past it**, one NULL slot per refused `insert_new`. -/
theorem tracked_overfilledMap (k : Nat) (hk : k = 0xf00000 + 1) : ∀ n, k + n ≤ 2 ^ 32 →
    Tracked wlMapClientSide (filledMap k n) (filledGhost k)
  | 0, _ => tracked_filledMap k hk.le
  | n + 1, hn =>
    ((tracked_overfilledMap k hk n (by omega)).step
      (show (filledGhost k).Allows wlMapClientSide (.insertNew 0#32 4#64 (some 0#64)) from trivial)
      ((wlMapCall_insertNew _ _ _ _).trans (wlMapInsertNew_overfilledMap k n (by omega) (by omega)))).congr
      rfl (Ghost.record_insertNew_error _ _ _ _ _ _)

/-! ## §2 — failed calls -/

/-- **Failed calls.** In every state of a disciplined run, a failing `insert_at` or `reserve_new`
leaves the table exactly as it was. A failing `insert_new` either found `wl_array_add` refusing
(`ENOMEM`, the allocator answered NULL), which changes nothing, or was refused by the capacity
check (`ENOSPC`), which happens only with an empty free list and leaves `free_list`, the other
array and every existing slot as they were but appends one NULL slot to the side's own array. -/
theorem failed_calls_atomic {side : BitVec 32} {m : WlMap} {g : Ghost} (h : Tracked side m g) :
    (∀ (f i : BitVec 32) (d : Word) (a : Option Word) (m' : WlMap) (e : Errno),
      wlMapInsertAt m f i d a = (m', .error e) → m' = m) ∧
    (∀ (i : BitVec 32) (a : Option Word) (m' : WlMap) (e : Errno),
      wlMapReserveNew m i a = (m', .error e) → m' = m) ∧
    (∀ (f : BitVec 32) (d : Word) (a : Option Word) (m' : WlMap) (e : Errno),
      wlMapInsertNew m f d a = some (m', .error e) →
      (e = .enomem ∧ a = none ∧ m' = m) ∨
      (e = .enospc ∧ m.freeList = 0#32 ∧
        m' = m.setEntries (ownNs side) (m.entries (ownNs side) ++ [0#64]))) := by
  refine ⟨fun _ _ _ _ _ _ hc => wlMapInsertAt_error hc, fun _ _ _ _ hc => wlMapReserveNew_error hc,
    fun f d a m' e hc => ?_⟩
  have hi := h.inv
  rcases hi.insertNew_cases hc with ⟨_, _, _, ho, _⟩ | ⟨_, ha, rfl, ho⟩ |
    ⟨_, hrem, _, ⟨_, ho, _⟩ | ⟨_, ho, rfl⟩⟩
  · cases ho
  · exact .inl ⟨Except.error.inj ho, ha, rfl⟩
  · cases ho
  · exact .inr ⟨Except.error.inj ho, by rw [hi.freeList_eq, hrem]; rfl, rfl⟩

theorem failed_calls_atomic_sampleMap :
    Tracked wlMapClientSide sampleMap sampleGhost ∧
    (∀ (f i : BitVec 32) (d : Word) (a : Option Word) (m' : WlMap) (e : Errno),
      wlMapInsertAt sampleMap f i d a = (m', .error e) → m' = sampleMap) ∧
    (∀ (i : BitVec 32) (a : Option Word) (m' : WlMap) (e : Errno),
      wlMapReserveNew sampleMap i a = (m', .error e) → m' = sampleMap) ∧
    (∀ (f : BitVec 32) (d : Word) (a : Option Word) (m' : WlMap) (e : Errno),
      wlMapInsertNew sampleMap f d a = some (m', .error e) →
      (e = .enomem ∧ a = none ∧ m' = sampleMap) ∨
      (e = .enospc ∧ sampleMap.freeList = 0#32 ∧
        m' = sampleMap.setEntries (ownNs wlMapClientSide)
          (sampleMap.entries (ownNs wlMapClientSide) ++ [0#64]))) :=
  ⟨tracked_sampleMap, failed_calls_atomic tracked_sampleMap⟩

/-- **A refused `insert_new` still grows the array.** Once a client table holds
`WL_MAP_MAX_OBJECTS + 1` slots, the next `insert_new` fails with `ENOSPC` and leaves one more. -/
theorem insertNew_refused_grows_array :
    Tracked wlMapClientSide (filledMap (0xf00000 + 1) 0) (filledGhost (0xf00000 + 1)) ∧
    wlMapInsertNew (filledMap (0xf00000 + 1) 0) 0#32 4#64 (some 0#64) =
      some (filledMap (0xf00000 + 1) 1, .error .enospc) ∧
    (filledMap (0xf00000 + 1) 1).clientEntries.length =
      (filledMap (0xf00000 + 1) 0).clientEntries.length + 1 :=
  ⟨tracked_filledMap _ le_rfl, wlMapInsertNew_overfilledMap (0xf00000 + 1) 0 (by omega) (by omega),
    by rw [filledMap_clientEntries_length, filledMap_clientEntries_length]⟩

/-! ## §3 — what the bound bounds -/

/-- Every id `wl_map_insert_new` issues, from any state, resolves to an index of the side's own
array within the bound. -/
theorem wlMapInsertNew_ok_resolve {m m' : WlMap} {f : BitVec 32} {d : Word} {a : Option Word}
    {id : BitVec 32} (h : wlMapInsertNew m f d a = some (m', .ok id)) :
    (resolve id).1 = ownNs m.side ∧ (resolve id).2.toNat ≤ 0xf00000 := by
  obtain ⟨idx, hidx, rfl⟩ :
      ∃ idx, idx % 2 ^ 32 ≤ 0xf00000 ∧ id = BitVec.ofNat 32 idx + idBase m.side := by
    rcases wlMapInsertNew_eq_some h with ⟨_, _, _, hr⟩ | ⟨_, _, hr⟩ | ⟨_, _, _, hr⟩
    · exact ⟨_, by simpa only [WlMap.side_setFreeList] using storeNew_ok hr.symm⟩
    · cases hr
    · exact ⟨_, by simpa only [WlMap.side_setEntries] using storeNew_ok hr.symm⟩
  rw [resolve_issued_toNat m.side hidx]
  simpa using hidx

/-- A call leaves an array other than the side's own as long as it was, or grows it by the one
slot `insert_at` or `reserve_new` appends at a count within the bound. -/
theorem wlMapCall_length_of_ne {m m' : WlMap} {c : Call} {o : Outcome} {ns : Ns}
    (h : wlMapCall m c = some (m', o)) (hns : ns ≠ ownNs m.side) :
    (m'.entries ns).length = (m.entries ns).length ∨
      ((m.entries ns).length % 2 ^ 32 ≤ 0xf00000 ∧
        (m'.entries ns).length = (m.entries ns).length + 1) := by
  rcases wlMapCall_shape h with rfl | ⟨ns', _, _, rfl⟩ | ⟨ns', _, _, _, rfl⟩ | ⟨ns', _, _, g, hk, rfl⟩ |
    ⟨_, _, _, rfl⟩
  · exact .inl rfl
  · left; by_cases hn : ns' = ns <;> simp [hn]
  · left; by_cases hn : ns' = ns <;> simp [hn]
  · by_cases hn : ns' = ns
    · subst hn; exact .inr ⟨hk, by simp⟩
    · left; simp [hn]
  · left; simp [hns.symm]

/-- **The array `insert_new` does not allocate from holds at most `WL_MAP_MAX_OBJECTS + 1`
slots** in every state of every run. -/
theorem reachable_peer_le {side : BitVec 32} {m : WlMap} (h : Reachable side m) :
    (m.entries (peerNs side)).length ≤ 0xf00000 + 1 := by
  induction h with
  | init => simp
  | step hm hc ih =>
    rcases wlMapCall_length_of_ne hc (by rw [hm.side_eq]; exact peerNs_ne_ownNs side) with
      he | ⟨hk, he⟩ <;> rw [he]
    · exact ih
    · rw [Nat.mod_eq_of_lt (by omega)] at hk; omega

/-- **What `WL_MAP_MAX_OBJECTS` bounds.** In every state some run from `wl_map_init(map, side)`
reaches, whatever it removed: the array `wl_map_insert_new` does not allocate from holds at most
`WL_MAP_MAX_OBJECTS + 1` slots; a successful `insert_at` or `reserve_new` binds or reserves an
index of at most `WL_MAP_MAX_OBJECTS`, and a successful `insert_new` issues an id of the side's own
namespace whose index is at most `WL_MAP_MAX_OBJECTS`; and while the own array holds more than
`WL_MAP_MAX_OBJECTS` (and fewer than `2^32`) slots with an empty free list, every `insert_new`
fails, and leaves the free list empty and the array no shorter, so the next one fails too. -/
theorem capacity_bounds {side : BitVec 32} {m : WlMap} (h : Reachable side m) :
    (m.entries (peerNs side)).length ≤ 0xf00000 + 1 ∧
    (∀ (f i : BitVec 32) (d : Word) (a : Option Word) (m' : WlMap) (u : Unit),
      wlMapInsertAt m f i d a = (m', .ok u) → (resolve i).2.toNat ≤ 0xf00000) ∧
    (∀ (i : BitVec 32) (a : Option Word) (m' : WlMap) (u : Unit),
      wlMapReserveNew m i a = (m', .ok u) → (resolve i).2.toNat ≤ 0xf00000) ∧
    (∀ (f : BitVec 32) (d : Word) (a : Option Word) (m' : WlMap) (id : BitVec 32),
      wlMapInsertNew m f d a = some (m', .ok id) →
      (resolve id).1 = ownNs side ∧ (resolve id).2.toNat ≤ 0xf00000) ∧
    (m.freeList = 0#32 → 0xf00000 < (m.entries (ownNs side)).length →
      (m.entries (ownNs side)).length < 2 ^ 32 →
      ∀ (f : BitVec 32) (d : Word) (a : Option Word), ∃ m' e,
        wlMapInsertNew m f d a = some (m', .error e) ∧ m'.freeList = 0#32 ∧
        (m.entries (ownNs side)).length ≤ (m'.entries (ownNs side)).length) := by
  have hside := h.side_eq
  refine ⟨reachable_peer_le h, fun _ _ _ _ _ _ hc => (wlMapInsertAt_ok hc).1, fun _ _ _ _ hc => ?_,
    fun _ _ _ _ _ hc => hside ▸ wlMapInsertNew_ok_resolve hc, fun hz hmax hlen f d a => ?_⟩
  · obtain ⟨_, k, hr, hk, -⟩ := wlMapReserveNew_ok hc
    rwa [← resolveFor_eq_some hr]
  · subst hside
    cases a with
    | none => exact ⟨m, .enomem, by simp [wlMapInsertNew, hz], hz, le_rfl⟩
    | some gb =>
      rw [wlMapInsertNew_of_freeList_zero hz, storeNew_of_lt f d (by rwa [Nat.mod_eq_of_lt hlen])]
      exact ⟨_, _, rfl, by simpa using hz, by simp⟩

theorem capacity_bounds_filledMap :
    Reachable wlMapClientSide (filledMap (0xf00000 + 1) 0) ∧
    ((filledMap (0xf00000 + 1) 0).entries (peerNs wlMapClientSide)).length ≤ 0xf00000 + 1 ∧
    (∀ (f i : BitVec 32) (d : Word) (a : Option Word) (m' : WlMap) (u : Unit),
      wlMapInsertAt (filledMap (0xf00000 + 1) 0) f i d a = (m', .ok u) →
      (resolve i).2.toNat ≤ 0xf00000) ∧
    (∀ (i : BitVec 32) (a : Option Word) (m' : WlMap) (u : Unit),
      wlMapReserveNew (filledMap (0xf00000 + 1) 0) i a = (m', .ok u) →
      (resolve i).2.toNat ≤ 0xf00000) ∧
    (∀ (f : BitVec 32) (d : Word) (a : Option Word) (m' : WlMap) (id : BitVec 32),
      wlMapInsertNew (filledMap (0xf00000 + 1) 0) f d a = some (m', .ok id) →
      (resolve id).1 = ownNs wlMapClientSide ∧ (resolve id).2.toNat ≤ 0xf00000) ∧
    ((filledMap (0xf00000 + 1) 0).freeList = 0#32 →
      0xf00000 < ((filledMap (0xf00000 + 1) 0).entries (ownNs wlMapClientSide)).length →
      ((filledMap (0xf00000 + 1) 0).entries (ownNs wlMapClientSide)).length < 2 ^ 32 →
      ∀ (f : BitVec 32) (d : Word) (a : Option Word), ∃ m' e,
        wlMapInsertNew (filledMap (0xf00000 + 1) 0) f d a = some (m', .error e) ∧
        m'.freeList = 0#32 ∧
        ((filledMap (0xf00000 + 1) 0).entries (ownNs wlMapClientSide)).length ≤
          (m'.entries (ownNs wlMapClientSide)).length) :=
  have h := (tracked_filledMap _ le_rfl).reachable
  ⟨h, capacity_bounds h⟩

/-- **The own array passes the bound.** A client table of `WL_MAP_MAX_OBJECTS` bound slots, its
free list empty, still issues the id `WL_MAP_MAX_OBJECTS`; the next `insert_new` is refused and
leaves `WL_MAP_MAX_OBJECTS + 2` slots. -/
theorem insertNew_binds_index_max :
    Tracked wlMapClientSide (filledMap 0xf00000 0) (filledGhost 0xf00000) ∧
    (filledMap 0xf00000 0).freeList = 0#32 ∧
    (filledMap 0xf00000 0).clientEntries.length = 0xf00000 ∧
    wlMapInsertNew (filledMap 0xf00000 0) 0#32 4#64 (some 0#64) =
      some (filledMap (0xf00000 + 1) 0, .ok (BitVec.ofNat 32 0xf00000)) ∧
    wlMapInsertNew (filledMap (0xf00000 + 1) 0) 0#32 4#64 (some 0#64) =
      some (filledMap (0xf00000 + 1) 1, .error .enospc) ∧
    (filledMap (0xf00000 + 1) 1).clientEntries.length = 0xf00000 + 2 :=
  ⟨tracked_filledMap _ (by omega), rfl, filledMap_clientEntries_length _ _,
    wlMapInsertNew_filledMap le_rfl, wlMapInsertNew_overfilledMap _ 0 (by omega) (by omega),
    filledMap_clientEntries_length _ _⟩

end WaylandMap.Capacity
