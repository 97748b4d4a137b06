/-
# WaylandMap.Refinement — a disciplined table is a memory-safe finite map from ids.

Two results about whole runs of the model of `libwayland-map.c`, for the caller discipline of `Run`
(`Ghost.Allows`: remove only allocated own ids, never `insert_at` a removed own index),
phrased over call lists by `AllowedRun`: each call is allowed in the state the earlier ones
reached.

*Memory safety* (`allowed_run_defined`): such a run never reaches the out-of-bounds accesses the
model writes as `none`. `wl_map_insert_new` pops an index inside the array, since the free list
only holds removed indices, and `wl_map_remove` writes inside it, since it only takes allocated
ids (`call_isSome`).

*Refinement* (`lookups_refine_idMap`): what `wl_map_lookup` and `wl_map_lookup_flags` say of every
id is an abstract map `IdMap` from ids to (reference, flag bit), which starts empty and which each
call changes as its purpose says: a successful `insert_at`, and a successful `insert_new` at the id
it returned, bind; a `remove` of an own id unbinds; every other call — every failure, every
`reserve_new`, a `remove` of a peer id — leaves every id alone. It holds for runs that bind only
aligned references, while the side's own array stays below `2^32` slots (past that the `uint32_t`
counts wrap, `insertNew_wraps_past_two_pow_32`).

What costs thought is the frame: that a call leaves every *other* id alone. A write in place is
`Resource.lookupWith_setEntries_set`; growth by one slot is `lookupWith_append`, which needs the
count not to wrap; and the NULL slot a refused `insert_new` appends is `lookupWith_append_zero`.

*Reissue* (`remove_insertNew_rebinds`): the free list is a stack, so a `remove` followed by an
`insert_new` gives the removed id back and restores the free list: the pair is a rebind in place,
the table `insert_at` at that id leaves.
-/
import WaylandMap.Resource

namespace WaylandMap.Refinement

open Resource (lookupWith_setEntries_set resolve_ne_of_ne wlMapInsertNew_of_link resolve_add_idBase)

/-! ## §1 — memory safety -/

variable {side : BitVec 32} {m m' : WlMap} {g : Ghost}

/-- **An allowed call is defined**: from a state of a disciplined run, the free list's head is an
index inside the own array, and an allocated own id's index too. -/
theorem call_isSome (hi : Inv side m g) {c : Call} (ha : g.Allows side c) :
    (wlMapCall m c).isSome := by
  cases c with
  | insertNew f d a =>
    rw [wlMapCall_insertNew]
    cases hrem : g.removed with
    | nil =>
      have hz : m.freeList = 0#32 := by rw [hi.freeList_eq, hrem]; rfl
      cases a <;> simp [wlMapInsertNew, hz, wlArrayAdd]
    | cons j s =>
      have hth := hi.threaded
      rw [hrem] at hth
      rw [wlMapInsertNew_of_link (hi.removed_le j (by simp [hrem])) (by rw [hi.freeList_eq, hrem])
        (by rw [hi.side_eq]; exact hth.1)]
      rfl
  | insertAt => rfl
  | reserveNew => rfl
  | remove i =>
    rw [wlMapCall, Option.isSome_map', hi.remove_eq]
    split_ifs with hown hlt
    · rfl
    · exact absurd (hi.allocated_spec _ (ha hown)).2.1 hlt
    · rfl

/-- Every call of the list is allowed in the state the calls before it reached, whatever those
returned. -/
def AllowedRun (side : BitVec 32) : WlMap → Ghost → List Call → Prop
  | _, _, [] => True
  | m, g, c :: cs => g.Allows side c ∧
      ∀ m' o, wlMapCall m c = some (m', o) → AllowedRun side m' (g.record side c o) cs

/-- **Disciplined runs are memory safe.** From every state of a disciplined run, a list of calls
each allowed where it is made runs to its end without an out-of-bounds access, and ends in a state
of a disciplined run. -/
theorem allowed_run_defined (h : Tracked side m g) :
    ∀ {cs : List Call}, AllowedRun side m g cs →
      ∃ m' os g', wlMapRun m cs = some (m', os) ∧ Tracked side m' g' := by
  intro cs
  induction cs generalizing m g with
  | nil => exact fun _ => ⟨m, [], g, rfl, h⟩
  | cons c cs ih =>
    rintro ⟨ha, hrest⟩
    obtain ⟨⟨m1, o⟩, hc⟩ := Option.isSome_iff_exists.mp (call_isSome h.inv ha)
    obtain ⟨m', os, g', hr, ht⟩ := ih (.step h ha hc) (hrest m1 o hc)
    exact ⟨m', o :: os, g', by rw [wlMapRun_cons_of_call hc, hr]; rfl, ht⟩

/-! ## §2 — the abstract table -/

/-- What the table stands for: each id's reference and flag bit. -/
abbrev IdMap := BitVec 32 → Word × BitVec 32

/-- No id bound. -/
def IdMap.empty : IdMap := fun _ => (0#64, 0#32)

/-- What a call is for, given what it returned: a successful `insert_at`, or `insert_new` at the
id it issued, binds the reference with the flag bit; a `remove` of an own id unbinds it; every
other call leaves the map alone. -/
def absCall (side : BitVec 32) (t : IdMap) : Call → Outcome → IdMap
  | .insertNew f d _, .ok id => Function.update t id (d, f &&& 1#32)
  | .insertAt f i d _, .ok _ => Function.update t i (d, f &&& 1#32)
  | .remove i, _ => if (resolve i).1 = ownNs side then Function.update t i (0#64, 0#32) else t
  | _, _ => t

/-- `absCall` along a run. -/
def absRun (side : BitVec 32) : IdMap → List Call → List Outcome → IdMap
  | t, c :: cs, o :: os => absRun side (absCall side t c o) cs os
  | t, _, _ => t

/-- The abstraction: what the two lookups say of each id. -/
def lookupView (m : WlMap) : IdMap := fun i => (wlMapLookup m i, wlMapLookupFlags m i)

/-- The calls that bind bind an aligned reference. -/
def CallAligned : Call → Prop
  | .insertNew _ d _ => Aligned d
  | .insertAt _ _ d _ => Aligned d
  | _ => True

instance : DecidablePred CallAligned
  | .insertNew _ d _ => inferInstanceAs (Decidable (Aligned d))
  | .insertAt _ _ d _ => inferInstanceAs (Decidable (Aligned d))
  | .reserveNew _ _ => isTrue trivial
  | .remove _ => isTrue trivial

theorem lookupView_wlMapInit (side : BitVec 32) : lookupView (wlMapInit side) = IdMap.empty := by
  funext i
  have h0 := Lookup.lookup_of_zero
    (show ((wlMapInit side).entries (resolve i).1).getD (resolve i).2.toNat 0#64 = 0#64 by simp)
  exact Prod.ext h0.1 h0.2

/-! ## §3 — the frame: a call leaves every other id alone -/

variable {get : Word → Word}

theorem lookupWith_setFreeList (fl : BitVec 32) (i : BitVec 32) :
    lookupWith get (m.setFreeList fl) i = lookupWith get m i := by
  simp only [lookupWith, WlMap.entries_setFreeList]

/-- Growing an array by one slot keeps every id of another slot, while the count does not wrap. -/
theorem lookupWith_append {ns : Ns} {w : Word} {i : BitVec 32}
    (hL : (m.entries ns).length + 1 < 2 ^ 32)
    (hi : (resolve i).1 ≠ ns ∨ (resolve i).2.toNat ≠ (m.entries ns).length) :
    lookupWith get (m.setEntries ns (m.entries ns ++ [w])) i = lookupWith get m i := by
  rw [Lookup.lookupWith_of_getD rfl, Lookup.lookupWith_of_getD rfl]
  by_cases hns : ns = (resolve i).1
  · subst hns
    have hk := hi.resolve_left (not_not.mpr rfl)
    simp only [WlMap.entries_setEntries, if_true, List.length_append, List.length_singleton,
      Nat.mod_eq_of_lt hL, Nat.mod_eq_of_lt (show (m.entries (resolve i).1).length < 2 ^ 32 by omega)]
    rcases Nat.lt_or_gt_of_ne hk with hlt | hgt
    · simp only [List.getD_eq_getElem?_getD, List.getElem?_append_left hlt, hlt,
        show (resolve i).2.toNat < (m.entries (resolve i).1).length + 1 by omega, true_and]
    · rw [if_neg (by omega), if_neg (by omega)]
  · simp [hns]

/-- The NULL slot a refused `insert_new` (or a `reserve_new`) appends keeps every id, its own
included: it read NULL beyond the count and reads NULL from the slot. -/
theorem lookupWith_append_zero (hget : get 0#64 = 0#64) {ns : Ns}
    (hL : (m.entries ns).length + 1 < 2 ^ 32) (i : BitVec 32) :
    lookupWith get (m.setEntries ns (m.entries ns ++ [0#64])) i = lookupWith get m i := by
  by_cases hi : (resolve i).1 ≠ ns ∨ (resolve i).2.toNat ≠ (m.entries ns).length
  · exact lookupWith_append hL hi
  · push_neg at hi
    obtain ⟨rfl, hk⟩ := hi
    rw [Lookup.lookupWith_zero hget (by simp [hk, List.getD_eq_getElem?_getD]),
      Lookup.lookupWith_zero hget (by simp [hk, List.getD_eq_getElem?_getD])]

/-- Two tables agree on an id when every unpacking that reads 0 as 0 does. -/
theorem lookupView_congr {i : BitVec 32}
    (h : ∀ get : Word → Word, get 0#64 = 0#64 → lookupWith get m' i = lookupWith get m i) :
    lookupView m' i = lookupView m i := by
  simp only [lookupView, wlMapLookup, wlMapLookupFlags, h _ (by decide : mapEntryGetData 0#64 = 0#64),
    h _ (by decide : mapEntryGetFlags 0#64 = 0#64)]

theorem set_length_append (e : List Word) (w w' : Word) : (e ++ [w]).set e.length w' = e ++ [w'] := by
  simp [List.set_append_right]

/-- An array the invariant does not bound by `WL_MAP_MAX_OBJECTS` is the own one. -/
theorem length_succ_lt (hi : Inv side m g) {ns : Ns} (hns : ns = ownNs side → (m.entries ns).length + 1 < 2 ^ 32) :
    (m.entries ns).length + 1 < 2 ^ 32 := by
  by_cases h : ns = ownNs side
  · exact hns h
  · have := hi.peer_le
    rw [← eq_peerNs_of_ne_ownNs h] at this
    omega

/-- A call never shrinks an array. -/
theorem wlMapCall_length_le {c : Call} {o : Outcome} (h : wlMapCall m c = some (m', o)) (ns : Ns) :
    (m.entries ns).length ≤ (m'.entries ns).length := by
  rcases wlMapCall_shape h with rfl | ⟨ns', _, _, rfl⟩ | ⟨ns', _, _, _, rfl⟩ | ⟨ns', _, _, _, -, rfl⟩ |
    ⟨_, _, _, rfl⟩
  · exact le_rfl
  all_goals first
    | (by_cases hn : ns' = ns <;> simp [hn])
    | (by_cases hn : ownNs m.side = ns <;> simp [hn])

/-- A call that binds or unbinds `id` and leaves every other id alone is an update of the view. -/
theorem lookupView_eq_update {id : BitVec 32} {v : Word × BitVec 32} (hdata : wlMapLookup m' id = v.1)
    (hflags : wlMapLookupFlags m' id = v.2) (hother : ∀ j, j ≠ id → ∀ get : Word → Word, get 0#64 = 0#64 →
      lookupWith get m' j = lookupWith get m j) :
    lookupView m' = Function.update (lookupView m) id v := by
  funext j
  by_cases hj : j = id
  · subst hj; rw [Function.update_same]; exact Prod.ext hdata hflags
  · rw [Function.update_noteq hj]; exact lookupView_congr (hother j hj)

/-! ## §4 — one call, one abstract step -/

variable {f : BitVec 32} {d : Word} {a : Option Word}

@[simp] theorem absCall_reserveNew (t : IdMap) (i : BitVec 32) (o : Outcome) :
    absCall side t (.reserveNew i a) o = t := by cases o <;> rfl

theorem absCall_remove (t : IdMap) (i : BitVec 32) (o : Outcome) :
    absCall side t (.remove i) o =
      if (resolve i).1 = ownNs side then Function.update t i (0#64, 0#32) else t := by
  cases o <;> rfl

theorem insertAt_view (hi : Inv side m g) (hd : Aligned d) {i : BitVec 32} {u : Unit}
    (h : wlMapInsertAt m f i d a = (m', .ok u)) (hlen : (m'.entries (ownNs side)).length < 2 ^ 32) :
    lookupView m' = Function.update (lookupView m) i (d, f &&& 1#32) := by
  have hnew := Lookup.insertAt_lookup hd h
  refine lookupView_eq_update hnew.1 hnew.2 fun j hj get _ => ?_
  obtain ⟨-, e, rfl, ⟨rfl, -⟩ | ⟨gb, -, rfl, hkL⟩⟩ := wlMapInsertAt_ok h
  · exact lookupWith_setEntries_set (resolve_ne_of_ne hj)
  · have hL : (m.entries (resolve i).1).length + 1 < 2 ^ 32 := length_succ_lt hi fun hns => by
      rw [hns] at hlen ⊢
      simpa using hlen
    rw [Nat.mod_eq_of_lt (by omega)] at hkL
    have hne := resolve_ne_of_ne hj
    rw [hkL] at hne ⊢
    rw [set_length_append]
    exact lookupWith_append hL hne

theorem insertNew_view (hi : Inv side m g) (hd : Aligned d) {o : Outcome}
    (h : wlMapInsertNew m f d a = some (m', o)) (hlen : (m'.entries (ownNs side)).length < 2 ^ 32) :
    lookupView m' = absCall side (lookupView m) (.insertNew f d a) o := by
  have hlen0 : (m.entries (ownNs side)).length < 2 ^ 32 :=
    lt_of_le_of_lt (wlMapCall_length_le (show wlMapCall m (.insertNew f d a) = some (m', o) from h) _) hlen
  rcases hi.insertNew_cases h with ⟨j, s, hrem, rfl, rfl⟩ | ⟨-, -, rfl, rfl⟩ |
    ⟨gb, -, -, ⟨hL, rfl, rfl⟩ | ⟨-, rfl, rfl⟩⟩
  · have hnew := (Lookup.insertNew_lookup hi hd hlen0 h).2.2
    refine lookupView_eq_update hnew.1 hnew.2 fun i hi' get _ => ?_
    have hj : j ≤ 0xf00000 := hi.removed_le j (by simp [hrem])
    have hne := resolve_ne_of_ne hi'
    rw [resolve_issued side hj, BitVec.toNat_ofNat, Nat.mod_eq_of_lt (by omega)] at hne
    have hset := @lookupWith_setEntries_set get (m.setFreeList (linkOf s)) _ _ (packEntry d f) _ hne
    rw [WlMap.entries_setFreeList] at hset
    rw [hset, lookupWith_setFreeList]
  · rfl
  · have hnew := (Lookup.insertNew_lookup hi hd hlen0 h).2.2
    refine lookupView_eq_update hnew.1 hnew.2 fun i hi' get _ => ?_
    have hne := resolve_ne_of_ne hi'
    rw [Nat.mod_eq_of_lt hlen0] at hL
    rw [resolve_issued side hL, BitVec.toNat_ofNat, Nat.mod_eq_of_lt hlen0] at hne
    exact lookupWith_append (by simpa using hlen) hne
  · funext i
    exact lookupView_congr fun get hget => lookupWith_append_zero hget (by simpa using hlen) i

theorem reserveNew_view (hi : Inv side m g) {i : BitVec 32} {r : Except Errno Unit}
    (h : wlMapReserveNew m i a = (m', r)) (hlen : (m'.entries (ownNs side)).length < 2 ^ 32) :
    lookupView m' = lookupView m := by
  rcases r with e | u
  · rw [wlMapReserveNew_error h]
  · obtain ⟨ns, k, -, -, ⟨rfl, -⟩ | ⟨gb, -, hkL, rfl⟩⟩ := wlMapReserveNew_ok h
    · rfl
    · have hL : (m.entries ns).length + 1 < 2 ^ 32 := length_succ_lt hi fun hns => by
        subst hns; simpa using hlen
      rw [Nat.mod_eq_of_lt (by omega)] at hkL
      rw [hkL, set_length_append]
      funext j
      exact lookupView_congr fun get hget => lookupWith_append_zero hget hL j

theorem remove_view (hi : Inv side m g) {i : BitVec 32} (ha : g.Allows side (.remove i))
    (h : wlMapRemove m i = some m') (o : Outcome) :
    lookupView m' = absCall side (lookupView m) (.remove i) o := by
  rw [absCall_remove]
  split_ifs with hown
  · obtain ⟨m'', hm'', h0⟩ := Lookup.remove_lookup hi ha hown
    obtain rfl : m'' = m' := Option.some.inj (hm''.symm.trans h)
    refine lookupView_eq_update h0.1 h0.2 fun j hj get _ => ?_
    rw [hi.remove_eq, if_pos hown, if_pos (hi.allocated_spec _ (ha hown)).2.1] at hm''
    obtain rfl := Option.some.inj hm''
    rw [lookupWith_setFreeList, ← hown]
    exact lookupWith_setEntries_set (resolve_ne_of_ne hj)
  · rw [Lookup.remove_peer hi hown] at h
    obtain rfl := Option.some.inj h
    rfl

/-- **One call is one abstract step**: from a state of a disciplined run, an allowed call that
binds only an aligned reference changes the view as `absCall` says, while the own array stays
below `2^32` slots. -/
theorem call_view (hi : Inv side m g) {c : Call} {o : Outcome} (ha : g.Allows side c)
    (hd : CallAligned c) (h : wlMapCall m c = some (m', o))
    (hlen : (m'.entries (ownNs side)).length < 2 ^ 32) :
    lookupView m' = absCall side (lookupView m) c o := by
  cases c with
  | insertNew f d a => exact insertNew_view hi hd h hlen
  | insertAt f i d a =>
    obtain ⟨rfl, rfl⟩ := Prod.mk.inj (Option.some.inj h)
    rcases hr : wlMapInsertAt m f i d a with ⟨m1, e | u⟩
    · obtain rfl := wlMapInsertAt_error hr; rfl
    · rw [hr] at hlen
      exact insertAt_view hi hd hr hlen
  | reserveNew i a =>
    obtain ⟨rfl, rfl⟩ := Prod.mk.inj (Option.some.inj h)
    rw [absCall_reserveNew]
    exact reserveNew_view hi rfl hlen
  | remove i =>
    obtain ⟨m'', hm, hr⟩ := Option.map_eq_some'.mp h
    obtain ⟨rfl, rfl⟩ := Prod.mk.inj hr
    exact remove_view hi ha hm _

/-! ## §5 — whole runs -/

theorem wlMapRun_length_le : ∀ {cs : List Call} {m m' : WlMap} {os : List Outcome},
    wlMapRun m cs = some (m', os) → ∀ ns, (m.entries ns).length ≤ (m'.entries ns).length
  | [], _, _, _, hr, _ => by cases hr; exact le_rfl
  | _ :: _, _, _, _, hr, ns => by
    obtain ⟨_, _, _, hc, hr2, -⟩ := wlMapRun_cons_eq_some hr
    exact le_trans (wlMapCall_length_le hc ns) (wlMapRun_length_le hr2 ns)

/-- The invariant and `AllowedRun` carry the step over a whole run. -/
theorem allowed_run_view (hi : Inv side m g) :
    ∀ {cs : List Call} {m' : WlMap} {os : List Outcome}, AllowedRun side m g cs →
      (∀ c ∈ cs, CallAligned c) → wlMapRun m cs = some (m', os) →
      (m'.entries (ownNs side)).length < 2 ^ 32 → lookupView m' = absRun side (lookupView m) cs os := by
  intro cs
  induction cs generalizing m g with
  | nil => intro m' os _ _ hr _; cases hr; rfl
  | cons c cs ih =>
    intro m' os hA hd hr hlen
    obtain ⟨m1, o, os2, hc, hr2, rfl⟩ := wlMapRun_cons_eq_some hr
    have hlen1 := lt_of_le_of_lt (wlMapRun_length_le hr2 _) hlen
    rw [absRun, ← call_view hi hA.1 (hd c (List.mem_cons_self c cs)) hc hlen1]
    exact ih (hi.step hA.1 hc) (hA.2 m1 o hc) (fun c' hc' => hd c' (List.mem_cons_of_mem c hc')) hr2 hlen

/-- **The table refines a finite map from ids.** For every run from `wl_map_init(map, side)`,
side client or server, whose calls are each allowed where they are made and bind only aligned
references, if the side's own array ends below `2^32` slots then every id's
(`wl_map_lookup`, `wl_map_lookup_flags`) is what the abstract map `absRun` gives: the empty map
changed by each call as its purpose says, from the call's arguments and what it returned. -/
theorem lookups_refine_idMap {side : BitVec 32} (hs : ValidSide side) {cs : List Call} {m : WlMap}
    {os : List Outcome} (hA : AllowedRun side (wlMapInit side) Ghost.empty cs)
    (hd : ∀ c ∈ cs, CallAligned c) (hr : wlMapRun (wlMapInit side) cs = some (m, os))
    (hlen : (m.entries (ownNs side)).length < 2 ^ 32) :
    ∀ i, (wlMapLookup m i, wlMapLookupFlags m i) = absRun side IdMap.empty cs os i := by
  intro i
  rw [← lookupView_wlMapInit side]
  exact congrFun (allowed_run_view (Inv.init hs) hA hd hr hlen) i

/-! ## §6 — removing and reissuing -/

@[simp] theorem setFreeList_setFreeList (fl fl' : BitVec 32) :
    (m.setFreeList fl).setFreeList fl' = m.setFreeList fl' := rfl

theorem setFreeList_of_eq {fl : BitVec 32} (h : m.freeList = fl) : m.setFreeList fl = m := by
  cases m; cases h; rfl

/-- **`remove` then `insert_new` is a rebind in place.** From every state of a disciplined run,
removing an allocated own id and then calling `wl_map_insert_new(flags, d)` reissues the same id,
and leaves the table as it was except for that id's slot, which holds the new entry: the free list
is back to what it was. When the own array holds fewer than `2^32` slots, this is the table
`wl_map_insert_at(flags, id, d)` leaves. -/
theorem remove_insertNew_rebinds (h : Tracked side m g) {i : BitVec 32} (hown : (resolve i).1 = ownNs side)
    (halloc : g.allocated (resolve i).2.toNat = true) (f : BitVec 32) (d : Word) (a : Option Word) :
    ∃ m1, wlMapRemove m i = some m1 ∧
      wlMapInsertNew m1 f d a = some (m.setEntries (ownNs side)
        ((m.entries (ownNs side)).set (resolve i).2.toNat (packEntry d f)), .ok i) ∧
      ((m.entries (ownNs side)).length < 2 ^ 32 → wlMapInsertAt m f i d a = (m.setEntries (ownNs side)
        ((m.entries (ownNs side)).set (resolve i).2.toNat (packEntry d f)), .ok ())) := by
  have hi := h.inv
  obtain ⟨hkmax, hlen, -⟩ := hi.allocated_spec _ halloc
  refine ⟨_, by rw [hi.remove_eq, if_pos hown, if_pos hlen], ?_, fun hL => ?_⟩
  · rw [@wlMapInsertNew_of_link _ _ g.removed ((linkOf g.removed).setWidth 64) hkmax rfl
        (by simp [hi.side_eq, List.getElem?_set_self hlen]),
      storeNew_of_le f d (by rw [Nat.mod_eq_of_lt (by omega)]; exact hkmax)]
    simp only [WlMap.side_setFreeList, WlMap.side_setEntries, hi.side_eq,
      BitVec.setWidth_setWidth_of_le _ (by decide : 32 ≤ 64),
      WlMap.entries_setFreeList, WlMap.entries_setEntries, if_true, List.set_set, setFreeList_setFreeList,
      WlMap.setFreeList_setEntries, WlMap.setEntries_setEntries, setFreeList_of_eq hi.freeList_eq,
      BitVec.ofNat_toNat, BitVec.setWidth_eq, resolve_add_idBase hown]
  · rw [wlMapInsertAt_of_lt a (by omega) (by rw [hown, Nat.mod_eq_of_lt hL]; exact hlen), hown]

theorem remove_insertNew_rebinds_sampleMap :
    Tracked wlMapClientSide sampleMap sampleGhost ∧ (resolve 1#32).1 = ownNs wlMapClientSide ∧
    sampleGhost.allocated (resolve 1#32).2.toNat = true ∧
    ∃ m1, wlMapRemove sampleMap 1#32 = some m1 ∧
      wlMapInsertNew m1 0#32 12#64 none = some (sampleMap.setEntries (ownNs wlMapClientSide)
        ((sampleMap.entries (ownNs wlMapClientSide)).set (resolve 1#32).2.toNat (packEntry 12#64 0#32)),
          .ok 1#32) ∧
      ((sampleMap.entries (ownNs wlMapClientSide)).length < 2 ^ 32 →
        wlMapInsertAt sampleMap 0#32 1#32 12#64 none = (sampleMap.setEntries (ownNs wlMapClientSide)
          ((sampleMap.entries (ownNs wlMapClientSide)).set (resolve 1#32).2.toNat (packEntry 12#64 0#32)),
            .ok ())) :=
  ⟨tracked_sampleMap, rfl, rfl, remove_insertNew_rebinds tracked_sampleMap (by rfl) (by rfl) 0#32 12#64 none⟩

/-! ## §7 — one run, checked -/

/-- Along a defined call, `AllowedRun` asks the call to be allowed and the rest of the run to be. -/
theorem allowedRun_cons_of_call {c : Call} {o : Outcome} {cs : List Call}
    (hc : wlMapCall m c = some (m', o)) :
    AllowedRun side m g (c :: cs) ↔ g.Allows side c ∧ AllowedRun side m' (g.record side c o) cs := by
  refine ⟨fun ⟨ha, hr⟩ => ⟨ha, hr m' o hc⟩, fun ⟨ha, hr⟩ => ⟨ha, fun m1 o1 h1 => ?_⟩⟩
  obtain ⟨rfl, rfl⟩ := Prod.mk.inj (Option.some.inj (h1.symm.trans hc))
  exact hr

/-- The run that leaves `sampleMap`: bind 4 at id 0 and 8 with its flag at id 1, remove id 0. -/
def sampleCalls : List Call :=
  [.insertNew 0#32 4#64 (some 0#64), .insertNew 1#32 8#64 (some 0#64), .remove 0#32]

theorem allowedRun_sampleCalls :
    AllowedRun wlMapClientSide (wlMapInit wlMapClientSide) Ghost.empty sampleCalls :=
  (@allowedRun_cons_of_call _ _ ⟨[4#64], [], wlMapClientSide, 0#32⟩ _ _ (.ok 0#32) _ (by rfl)).2 ⟨trivial,
    (@allowedRun_cons_of_call _ _ ⟨[4#64, 10#64], [], wlMapClientSide, 0#32⟩ _ _ (.ok 1#32) _ (by rfl)).2
      ⟨trivial, (@allowedRun_cons_of_call _ _ sampleMap _ _ (.ok 0#32) _ (by rfl)).2 ⟨fun _ => rfl, trivial⟩⟩⟩

theorem allowed_run_defined_sampleCalls :
    Tracked wlMapClientSide (wlMapInit wlMapClientSide) Ghost.empty ∧
    AllowedRun wlMapClientSide (wlMapInit wlMapClientSide) Ghost.empty sampleCalls ∧
    ∃ m' os g', wlMapRun (wlMapInit wlMapClientSide) sampleCalls = some (m', os) ∧
      Tracked wlMapClientSide m' g' :=
  ⟨.init (.inl rfl), allowedRun_sampleCalls,
    allowed_run_defined (.init (.inl rfl)) allowedRun_sampleCalls⟩

theorem lookups_refine_idMap_sampleCalls :
    ValidSide wlMapClientSide ∧
    AllowedRun wlMapClientSide (wlMapInit wlMapClientSide) Ghost.empty sampleCalls ∧
    (∀ c ∈ sampleCalls, CallAligned c) ∧
    wlMapRun (wlMapInit wlMapClientSide) sampleCalls = some (sampleMap, [.ok 0#32, .ok 1#32, .ok 0#32]) ∧
    (sampleMap.entries (ownNs wlMapClientSide)).length < 2 ^ 32 ∧
    ∀ i, (wlMapLookup sampleMap i, wlMapLookupFlags sampleMap i) =
      absRun wlMapClientSide IdMap.empty sampleCalls [.ok 0#32, .ok 1#32, .ok 0#32] i :=
  have hr : wlMapRun (wlMapInit wlMapClientSide) sampleCalls =
      some (sampleMap, [.ok 0#32, .ok 1#32, .ok 0#32]) := rfl
  ⟨.inl rfl, allowedRun_sampleCalls, by decide, hr, by decide,
    lookups_refine_idMap (.inl rfl) allowedRun_sampleCalls (by decide) hr (by decide)⟩

end WaylandMap.Refinement
