/-
# WaylandMap.Resource — `wl_resource_destroy` on a server's object table.

`wl_resource_destroy` (`libwayland-server.c`) reads the resource's flags, runs `destroy_resource`
(the destroy signals, the destroy callback, the `free`) and then unbinds the id: a client id is
rebound to NULL with `wl_map_insert_at`, since `wl_map_remove` refuses client ids on the server
side, and a server id is removed, which puts its index on the free list. Only that last step
touches the map when the callback and the listeners leave it alone.

From every state of a disciplined run of a server table, destroying a resource bound at `id`
unbinds `id` (its slot is no longer visited by `wl_map_for_each`), keeps every other id, lets a
client id be reserved again and hands a server id to the next `wl_map_insert_new`
(`resource_destroy`). The table never looks at what it stores, so a resource bound at a second
id is still visited there (`destroy_leaves_second_binding`).
-/
import WaylandMap.ForEach

namespace WaylandMap.Resource

open ForEach (liveEntry liveEntry_linkOf recordVisit)

/-! ## §1 — the model -/

/-- `wl_resource_destroy`, as it acts on `client->objects`, for the resource whose
`resource->object.id` is `id`. `destroy_resource` and the `WL_DISPLAY_DELETE_ID` event do not
touch the map. `alloc` answers the `wl_array_add` of `wl_map_insert_at`, should it ask. -/
def wlResourceDestroy (map : WlMap) (id : BitVec 32) (alloc : Option Word) : Option WlMap :=
  if id < wlServerIdStart then some (wlMapInsertAt map 0#32 id 0#64 alloc).1
  else wlMapRemove map id

/-! ## §2 — one slot written, every other id kept -/

theorem resolve_injective {i j : BitVec 32} (h : resolve i = resolve j) : i = j := by
  unfold resolve at h
  split_ifs at h <;> simp_all [Prod.ext_iff]

variable {get : Word → Word} {m : WlMap}

/-- Writing one slot leaves every id of another slot looking up as before. -/
theorem lookupWith_setEntries_set {ns : Ns} {k : Nat} {w : Word} {i : BitVec 32}
    (hi : (resolve i).1 ≠ ns ∨ (resolve i).2.toNat ≠ k) :
    lookupWith get (m.setEntries ns ((m.entries ns).set k w)) i = lookupWith get m i := by
  rw [Lookup.lookupWith_of_getD rfl, Lookup.lookupWith_of_getD rfl]
  by_cases hns : ns = (resolve i).1
  · subst hns
    have hk : k ≠ (resolve i).2.toNat := fun h => (hi.resolve_left (not_not.mpr rfl)) h.symm
    simp [List.getD_eq_getElem?_getD, List.getElem?_set_ne hk]
  · simp [hns]

theorem lookups_setEntries_set {ns : Ns} {k : Nat} {w : Word} {i : BitVec 32}
    (hi : (resolve i).1 ≠ ns ∨ (resolve i).2.toNat ≠ k) :
    wlMapLookup (m.setEntries ns ((m.entries ns).set k w)) i = wlMapLookup m i ∧
      wlMapLookupFlags (m.setEntries ns ((m.entries ns).set k w)) i = wlMapLookupFlags m i :=
  ⟨lookupWith_setEntries_set hi, congrArg (BitVec.setWidth 32) (lookupWith_setEntries_set hi)⟩

/-- An id other than `id` resolves to another slot. -/
theorem resolve_ne_of_ne {i id : BitVec 32} (h : i ≠ id) :
    (resolve i).1 ≠ (resolve id).1 ∨ (resolve i).2.toNat ≠ (resolve id).2.toNat := by
  by_contra hc
  push_neg at hc
  exact h (resolve_injective (Prod.ext hc.1 (BitVec.eq_of_toNat_eq hc.2)))

/-- A bound id lies below the count, in a slot that is not free and not zero. -/
theorem bound_slot {id : BitVec 32} (hb : wlMapLookup m id ≠ 0#64) :
    (resolve id).2.toNat < (m.entries (resolve id).1).length % 2 ^ 32 ∧
      (m.entries (resolve id).1).getD (resolve id).2.toNat 0#64 ≠ 0#64 := by
  rw [wlMapLookup, Lookup.lookupWith_of_getD rfl] at hb
  split_ifs at hb with hc
  · exact ⟨hc.1, fun h0 => hb (by rw [h0]; rfl)⟩
  · exact absurd rfl hb

theorem lookups_setFreeList {i : BitVec 32} (fl : BitVec 32) :
    wlMapLookup (m.setFreeList fl) i = wlMapLookup m i ∧
      wlMapLookupFlags (m.setFreeList fl) i = wlMapLookupFlags m i := by
  simp only [wlMapLookup, wlMapLookupFlags, Lookup.lookupWith_of_getD rfl, WlMap.entries_setFreeList,
    and_self]

/-- With `free_list` the link of `j`, `wl_map_insert_new` pops `j` and stores there. -/
theorem wlMapInsertNew_of_link {j : Nat} {s : List Nat} {w : Word} (hj : j ≤ 0xf00000)
    (hfl : m.freeList = linkOf (j :: s)) (hw : (m.entries (ownNs m.side))[j]? = some w)
    (f : BitVec 32) (d : Word) (a : Option Word) :
    wlMapInsertNew m f d a = some (storeNew (m.setFreeList (w.setWidth 32)) (ownNs m.side) j f d) := by
  have hne : linkOf (j :: s) ≠ 0#32 := linkOf_eq_zero_iff.not.mpr (List.cons_ne_nil j s)
  simp [wlMapInsertNew, hne, hfl, linkOf_cons_ushiftRight hj, hw]

theorem slot_set {ns : Ns} {k : Nat} (hk : k < (m.entries ns).length) (w : Word) :
    ((m.setEntries ns ((m.entries ns).set k w)).entries ns).getD k 0#64 = w := by
  simp [List.getD_eq_getElem?_getD, List.getElem?_set_self hk]

/-- An own id is its slot index past the side's base. -/
theorem resolve_add_idBase {side i : BitVec 32} (h : (resolve i).1 = ownNs side) :
    (resolve i).2 + idBase side = i := by
  unfold resolve ownNs idBase at *
  split_ifs at h ⊢ <;> simp_all [BitVec.sub_add_cancel]

/-- **A pushed index is reissued at once.** Right after `wl_map_remove` pushes index `k` of the
side's own array, the next `wl_map_insert_new` pops `k` and succeeds. -/
theorem insertNew_after_push {ns : Ns} {k : Nat} {s : List Nat} (hns : ownNs m.side = ns)
    (hk : k ≤ 0xf00000) (hlen : k < (m.entries ns).length) (f : BitVec 32) (d : Word)
    (a : Option Word) :
    ∃ m', wlMapInsertNew ((m.setEntries ns ((m.entries ns).set k ((linkOf s).setWidth 64))).setFreeList
      (linkOf (k :: s))) f d a = some (m', .ok (BitVec.ofNat 32 k + idBase m.side)) := by
  subst hns
  rw [@wlMapInsertNew_of_link _ k s ((linkOf s).setWidth 64) hk rfl
      (by simp [List.getElem?_set_self hlen]) f d a,
    storeNew_of_le f d (by rw [Nat.mod_eq_of_lt (by omega)]; exact hk)]
  simp only [WlMap.side_setFreeList, WlMap.side_setEntries]
  exact ⟨_, rfl⟩

/-! ## §3 — destroying a resource -/

variable {g : Ghost} {id : BitVec 32}

/-- A client id is rebound to NULL in place. -/
theorem destroy_client_id (hi : Inv wlMapServerSide m g) (hlt : id < wlServerIdStart)
    (hb : wlMapLookup m id ≠ 0#64) (a : Option Word) :
    (resolve id).2.toNat ≤ 0xf00000 ∧ wlResourceDestroy m id a =
      some (m.setEntries (resolve id).1 ((m.entries (resolve id).1).set (resolve id).2.toNat 0#64)) := by
  obtain ⟨hk, -⟩ := bound_slot hb
  have hkmax : (resolve id).2.toNat ≤ 0xf00000 := by
    have hmod := Nat.mod_le (m.entries (resolve id).1).length (2 ^ 32)
    have hpeer := hi.peer_le
    simp only [resolve_lt hlt, peerNs_server] at hmod hk hpeer ⊢
    omega
  exact ⟨hkmax, by rw [wlResourceDestroy, if_pos hlt, wlMapInsertAt_of_lt a hkmax hk]; rfl⟩

/-- A server id is removed: its slot takes the old head, `free_list` its link. -/
theorem destroy_server_id (hi : Inv wlMapServerSide m g) (hge : ¬ id < wlServerIdStart)
    (hb : wlMapLookup m id ≠ 0#64) (a : Option Word) :
    (resolve id).2.toNat ≤ 0xf00000 ∧ wlResourceDestroy m id a =
      some ((m.setEntries (resolve id).1 ((m.entries (resolve id).1).set (resolve id).2.toNat
        ((linkOf g.removed).setWidth 64))).setFreeList (linkOf ((resolve id).2.toNat :: g.removed))) := by
  have hown : (resolve id).1 = ownNs wlMapServerSide := by rw [resolve_ge hge]; rfl
  obtain ⟨hk, hw⟩ := bound_slot hb
  rw [hown] at hk hw
  have hlen := lt_of_lt_of_le hk (Nat.mod_le _ _)
  have hkmax : (resolve id).2.toNat ≤ 0xf00000 := by
    by_contra hgt
    exact hw (hi.spare_zero (resolve id).2.toNat _ (by omega) (BitVec.isLt _)
      (by simp only [List.getD_eq_getElem?_getD, List.getElem?_eq_getElem hlen, Option.getD_some]))
  refine ⟨hkmax, ?_⟩
  rw [wlResourceDestroy, if_neg hge, hi.remove_eq, if_pos hown, if_pos hlen, hown]

/-- **Destroying a resource unbinds its id and nothing else.** In every state of a disciplined
run of a server table, let `id` be bound (it looks up non-NULL) and destroy its resource, the
destroy callback and listeners leaving the map alone. Then `id` looks up NULL with flag 0 and its
slot is no longer visited by `wl_map_for_each`; every other id keeps its lookup and flag; a client
id can be reserved again at once; and the next `wl_map_insert_new` reissues a server id. -/
theorem resource_destroy {m : WlMap} {g : Ghost} (h : Tracked wlMapServerSide m g) {id : BitVec 32}
    (hb : wlMapLookup m id ≠ 0#64) (a : Option Word) :
    ∃ m', wlResourceDestroy m id a = some m' ∧
      wlMapLookup m' id = 0#64 ∧ wlMapLookupFlags m' id = 0#32 ∧
      liveEntry ((m'.entries (resolve id).1).getD (resolve id).2.toNat 0#64) = none ∧
      (∀ i, i ≠ id →
        wlMapLookup m' i = wlMapLookup m i ∧ wlMapLookupFlags m' i = wlMapLookupFlags m i) ∧
      (id < wlServerIdStart → ∀ a' : Option Word, wlMapReserveNew m' id a' = (m', .ok ())) ∧
      (¬ id < wlServerIdStart → ∀ (f : BitVec 32) (d : Word) (a' : Option Word),
        ∃ m'', wlMapInsertNew m' f d a' = some (m'', .ok id)) := by
  have hi := h.inv
  obtain ⟨hlt, -⟩ := bound_slot hb
  have hlen := lt_of_lt_of_le hlt (Nat.mod_le _ _)
  by_cases hid : id < wlServerIdStart
  · obtain ⟨hkmax, hd⟩ := destroy_client_id hi hid hb a
    have hslot := slot_set hlen 0#64
    refine ⟨_, hd, (Lookup.lookup_of_zero hslot).1, (Lookup.lookup_of_zero hslot).2,
      by rw [hslot]; rfl, fun i hne => lookups_setEntries_set (resolve_ne_of_ne hne),
      fun _ a' => wlMapReserveNew_of_zero a' ?_ hkmax (by simpa using hlt) hslot, fun h' => absurd hid h'⟩
    rw [WlMap.side_setEntries, hi.side_eq, resolveFor_reserve hi.valid,
      if_neg (by simp [resolve_lt hid])]
  · obtain ⟨hkmax, hd⟩ := destroy_server_id hi hid hb a
    have hslot := slot_set hlen ((linkOf g.removed).setWidth 64)
    refine ⟨_, hd, ?_, ?_, ?_, fun i hne => ?_, fun h' => absurd h' hid, fun _ f d a' => ?_⟩
    · rw [(lookups_setFreeList _).1]; exact (Lookup.lookup_of_linkOf hslot).1
    · rw [(lookups_setFreeList _).2]; exact (Lookup.lookup_of_linkOf hslot).2
    · rw [WlMap.entries_setFreeList, hslot]; exact liveEntry_linkOf _
    · rw [(lookups_setFreeList _).1, (lookups_setFreeList _).2]
      exact lookups_setEntries_set (resolve_ne_of_ne hne)
    · have hown : ownNs m.side = (resolve id).1 := by rw [hi.side_eq, resolve_ge hid]; rfl
      obtain ⟨m'', h''⟩ := insertNew_after_push hown hkmax hlen f d a'
      rw [BitVec.ofNat_toNat, BitVec.setWidth_eq, resolve_add_idBase hown.symm] at h''
      exact ⟨m'', h''⟩

/-- A server table whose first `wl_map_insert_new` bound the resource `8` at `0xff000000`. -/
def boundServerMap : WlMap := ⟨[], [8#64], wlMapServerSide, 0#32⟩

/-- The history of that one call. -/
def boundServerGhost : Ghost :=
  Ghost.empty.record wlMapServerSide (.insertNew 0#32 8#64 (some 0#64)) (.ok wlServerIdStart)

theorem tracked_boundServerMap : Tracked wlMapServerSide boundServerMap boundServerGhost :=
  .step (.init (.inr rfl)) trivial rfl

theorem resource_destroy_boundServerMap :
    Tracked wlMapServerSide boundServerMap boundServerGhost ∧
    wlMapLookup boundServerMap wlServerIdStart ≠ 0#64 ∧
    ∃ m', wlResourceDestroy boundServerMap wlServerIdStart none = some m' ∧
      wlMapLookup m' wlServerIdStart = 0#64 ∧ wlMapLookupFlags m' wlServerIdStart = 0#32 ∧
      liveEntry ((m'.entries (resolve wlServerIdStart).1).getD
        (resolve wlServerIdStart).2.toNat 0#64) = none ∧
      (∀ i, i ≠ wlServerIdStart → wlMapLookup m' i = wlMapLookup boundServerMap i ∧
        wlMapLookupFlags m' i = wlMapLookupFlags boundServerMap i) ∧
      (wlServerIdStart < wlServerIdStart → ∀ a' : Option Word,
        wlMapReserveNew m' wlServerIdStart a' = (m', .ok ())) ∧
      (¬ wlServerIdStart < wlServerIdStart → ∀ (f : BitVec 32) (d : Word) (a' : Option Word),
        ∃ m'', wlMapInsertNew m' f d a' = some (m'', .ok wlServerIdStart)) :=
  have hb : wlMapLookup boundServerMap wlServerIdStart ≠ 0#64 := by decide
  ⟨tracked_boundServerMap, hb, resource_destroy tracked_boundServerMap hb none⟩

/-- A server table where the client bound the resource `8` at its ids 0 and 1. -/
def twiceBoundMap : WlMap := ⟨[8#64, 8#64], [], wlMapServerSide, 0#32⟩

/-- **A second binding survives.** The map never compares references, so a disciplined run may
bind the resource `8` at the client ids 0 and 1. Destroying it through id 0 rebinds slot 0 to NULL,
and `wl_map_for_each` still visits `8`, from slot 1. -/
theorem destroy_leaves_second_binding :
    Tracked wlMapServerSide twiceBoundMap
      ((Ghost.empty.record wlMapServerSide (.insertAt 0#32 0#32 8#64 (some 0#64)) (.ok 0#32)).record
        wlMapServerSide (.insertAt 0#32 1#32 8#64 (some 0#64)) (.ok 0#32)) ∧
    wlMapLookup twiceBoundMap 0#32 = 8#64 ∧
    wlResourceDestroy twiceBoundMap 0#32 none = some ⟨[0#64, 8#64], [], wlMapServerSide, 0#32⟩ ∧
    wlMapForEach ⟨[0#64, 8#64], [], wlMapServerSide, 0#32⟩ recordVisit [] = [(8#64, 0#32)] :=
  ⟨.step (.step (.init (.inr rfl)) (fun h => absurd h (by decide)) rfl) (fun h => absurd h (by decide)) rfl,
    by decide, rfl, by decide⟩

end WaylandMap.Resource
