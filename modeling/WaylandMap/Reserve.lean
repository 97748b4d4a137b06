/-
# WaylandMap.Reserve — `wl_map_reserve_new` agrees with the lookups.

`wl_map_reserve_new` decides whether an id of the other side's namespace may be taken by testing
the slot's raw word (`start[i].data != NULL`), where the lookups unpack it first. `for_each_helper`
makes a raw test of the same kind and disagrees with the lookups on a NULL reference stored with
its flag (`forEach_visits_null_reference`). `reserve_new` does not. In every state a run reaches
whose binding calls only bind aligned references, no slot of the peer array is marked free
(`PeerClean`: the peer array only ever receives packed aligned entries and zeros), and a word that
is not marked free is 0 exactly when it reads as NULL with flag 0 (`eq_zero_of_unpack_eq_zero`).
So for every peer id within `WL_MAP_MAX_OBJECTS` and below the count, `reserve_new` succeeds and
changes nothing when the id looks up NULL with flag 0, and fails with `EINVAL`, changing nothing,
otherwise (`reserveNew_eq_of_lookups`): it never takes an id bound by a reference or by a flag.

No discipline on `remove` or `insert_at` is needed: the own array, where `remove` threads the free
list, is never the array `reserve_new` reads.
-/
import WaylandMap.Refinement

namespace WaylandMap.Reserve

open Capacity (reachable_peer_le)
open Refinement (CallAligned set_length_append)

/-! ## §1 — the peer array holds no free mark -/

/-- No slot of the peer array is marked free. -/
def PeerClean (side : BitVec 32) (m : WlMap) : Prop :=
  ∀ w ∈ m.entries (peerNs side), mapEntryIsFree w = false

variable {side : BitVec 32} {m m' : WlMap}

theorem PeerClean.setFreeList (hc : PeerClean side m) (fl : BitVec 32) :
    PeerClean side (m.setFreeList fl) :=
  fun w hw => hc w (by simpa using hw)

/-- Writing an array keeps the peer array clean when what is written there is clean. -/
theorem PeerClean.setEntries (hc : PeerClean side m) {ns : Ns} {e : List Word}
    (he : ns = peerNs side → ∀ w ∈ e, mapEntryIsFree w = false) : PeerClean side (m.setEntries ns e) := by
  intro w hw
  rw [WlMap.entries_setEntries] at hw
  split_ifs at hw with h
  · exact he h w hw
  · exact hc w hw

theorem clean_set {e : List Word} (he : ∀ w ∈ e, mapEntryIsFree w = false) {x : Word}
    (hx : mapEntryIsFree x = false) (k : Nat) : ∀ w ∈ e.set k x, mapEntryIsFree w = false := by
  intro w hw
  rcases List.mem_or_eq_of_mem_set hw with hw | rfl
  · exact he w hw
  · exact hx

theorem clean_append {e : List Word} (he : ∀ w ∈ e, mapEntryIsFree w = false) {x : Word}
    (hx : mapEntryIsFree x = false) : ∀ w ∈ e ++ [x], mapEntryIsFree w = false := by
  intro w hw
  rcases List.mem_append.mp hw with hw | hw
  · exact he w hw
  · rw [List.mem_singleton.mp hw]; exact hx

/-- A slot the peer array takes at its end, while it is within the bound: the count does not wrap,
so the slot written is the appended one. -/
theorem clean_grown {e : List Word} (he : ∀ w ∈ e, mapEntryIsFree w = false) (hle : e.length ≤ 0xf00000 + 1)
    {g x : Word} (hx : mapEntryIsFree x = false) {k : Nat} (hk : k = e.length % 2 ^ 32) :
    ∀ w ∈ (e ++ [g]).set k x, mapEntryIsFree w = false := by
  rw [hk, Nat.mod_eq_of_lt (by omega), set_length_append]
  exact clean_append he hx

/-- **Every call that binds only an aligned reference keeps the peer array clean.** -/
theorem PeerClean.call (hc : PeerClean side m) (hs : ValidSide side) (hside : m.side = side)
    (hle : (m.entries (peerNs side)).length ≤ 0xf00000 + 1) {c : Call} {o : Outcome}
    (hd : CallAligned c) (h : wlMapCall m c = some (m', o)) : PeerClean side m' := by
  have hown : ∀ {e : List Word}, ownNs m.side = peerNs side → ∀ w ∈ e, mapEntryIsFree w = false :=
    fun h => absurd h (by rw [hside]; exact ownNs_ne_peerNs side)
  cases c with
  | insertNew f d a =>
    rcases wlMapInsertNew_eq_some h with ⟨next, -, -, hr⟩ | ⟨-, -, hr⟩ | ⟨g, -, -, hr⟩ <;>
      obtain rfl : m' = _ := congrArg Prod.fst hr
    · obtain ⟨w, hw⟩ := storeNew_fst (m.setFreeList (next.setWidth 32)) (ownNs m.side)
        (m.freeList >>> 1).toNat f d
      rw [hw]
      exact (hc.setFreeList _).setEntries hown
    · exact hc
    · obtain ⟨w, hw⟩ := storeNew_fst (m.setEntries (ownNs m.side) (m.entries (ownNs m.side) ++ [g]))
        (ownNs m.side) (m.entries (ownNs m.side)).length f d
      rw [hw]
      exact (hc.setEntries hown).setEntries hown
  | insertAt f i d a =>
    obtain ⟨rfl, rfl⟩ := Prod.mk.inj (Option.some.inj h)
    rcases hr : wlMapInsertAt m f i d a with ⟨m1, e | u⟩
    · rw [wlMapInsertAt_error hr]; exact hc
    · obtain ⟨-, e, rfl, he⟩ := wlMapInsertAt_ok hr
      refine hc.setEntries fun hns => ?_
      have hpack := mapEntryIsFree_packEntry (show Aligned d from hd) f
      rw [hns] at he
      rcases he with ⟨rfl, -⟩ | ⟨g, -, rfl, hkL⟩
      · exact clean_set hc hpack _
      · exact clean_grown hc hle hpack hkL
  | reserveNew i a =>
    obtain ⟨rfl, rfl⟩ := Prod.mk.inj (Option.some.inj h)
    rcases hr : wlMapReserveNew m i a with ⟨m1, e | u⟩
    · rw [wlMapReserveNew_error hr]; exact hc
    · obtain ⟨ns, k, -, -, ⟨rfl, -⟩ | ⟨g, -, hkL, rfl⟩⟩ := wlMapReserveNew_ok hr
      · exact hc
      · refine hc.setEntries fun hns => ?_
        subst hns
        exact clean_grown hc hle mapEntryIsFree_zero hkL
  | remove i =>
    obtain ⟨m1, hm, hr⟩ := Option.map_eq_some'.mp h
    obtain ⟨rfl, rfl⟩ := Prod.mk.inj hr
    rw [wlMapRemove_eq, hside, resolveFor_remove hs] at hm
    by_cases hi : (resolve i).1 = ownNs side
    · rw [if_pos hi] at hm
      generalize resolve i = r at hi hm
      obtain ⟨ns, k⟩ := r
      dsimp only at hi hm
      split_ifs at hm
      cases hm
      exact (hc.setEntries fun hns => absurd (hi.symm.trans hns) (ownNs_ne_peerNs side)).setFreeList _
    · rw [if_neg hi] at hm
      cases hm
      exact hc

/-- The run lemma: from a reachable clean state, a run of aligned binds stays clean. -/
theorem PeerClean.run (hs : ValidSide side) {cs : List Call} :
    ∀ {m m' : WlMap} {os : List Outcome}, Reachable side m → PeerClean side m →
      (∀ c ∈ cs, CallAligned c) → wlMapRun m cs = some (m', os) → PeerClean side m' := by
  induction cs with
  | nil => intro m m' os _ hc _ hr; cases hr; exact hc
  | cons c cs ih =>
    intro m m' os hm hc hd hr
    obtain ⟨m1, o, os2, hcall, hr2, rfl⟩ := wlMapRun_cons_eq_some hr
    exact ih (.step hm hcall) (hc.call hs hm.side_eq (reachable_peer_le hm)
      (hd c (List.mem_cons_self c cs)) hcall) (fun c' hc' => hd c' (List.mem_cons_of_mem c hc')) hr2

/-! ## §2 — the raw test and the lookups -/

theorem wlMapReserveNew_of_ne_zero {i : BitVec 32} {ns : Ns} {k : BitVec 32}
    (a : Option Word) (hr : resolveFor m.side wlMapClientSide wlMapServerSide i = some (ns, k))
    (hk : k.toNat ≤ 0xf00000) (hlt : k.toNat < (m.entries ns).length % 2 ^ 32)
    (hz : (m.entries ns).getD k.toNat 0#64 ≠ 0#64) : wlMapReserveNew m i a = (m, .error .einval) := by
  unfold wlMapReserveNew
  rw [hr]
  simp only [BitVec.lt_def, wlMapMaxObjects_toNat, slotCount_toNat, BitVec.toNat_eq]
  rw [if_neg (by omega), if_neg (by omega), if_neg (by omega), if_pos hz]

/-- A word not marked free is 0 exactly when it unpacks to NULL and flag 0. -/
theorem eq_zero_iff_unpack {w : Word} (hfree : mapEntryIsFree w = false) :
    w = 0#64 ↔ mapEntryGetData w = 0#64 ∧ (mapEntryGetFlags w).setWidth 32 = 0#32 :=
  ⟨fun h => by subst h; exact ⟨mapEntryGetData_zero, mapEntryGetFlags_zero⟩,
    fun h => eq_zero_of_unpack_eq_zero hfree h.1 h.2⟩

/-- **`reserve_new` takes exactly the unbound peer ids.** In every state a run from
`wl_map_init(map, side)` reaches, side client or server, whose `insert_new` and `insert_at` calls
bind only aligned references: for every id of the other side's namespace whose index is within
`WL_MAP_MAX_OBJECTS` and below the count, `wl_map_reserve_new` leaves the table as it is and
succeeds when the id looks up NULL with flag 0, and fails with `EINVAL` otherwise. -/
theorem reserveNew_eq_of_lookups (hs : ValidSide side) {cs : List Call} {m : WlMap} {os : List Outcome}
    (hd : ∀ c ∈ cs, CallAligned c) (hr : wlMapRun (wlMapInit side) cs = some (m, os)) {i : BitVec 32}
    (hpeer : (resolve i).1 = peerNs side) (hk : (resolve i).2.toNat ≤ 0xf00000)
    (hlt : (resolve i).2.toNat < (m.entries (peerNs side)).length) (a : Option Word) :
    wlMapReserveNew m i a = if wlMapLookup m i = 0#64 ∧ wlMapLookupFlags m i = 0#32
      then (m, .ok ()) else (m, .error .einval) := by
  have hm := Reachable.init.run hr
  have hclean := PeerClean.run hs Reachable.init (fun _ hw => by simp at hw) hd hr
  have hcount : (resolve i).2.toNat < (m.entries (resolve i).1).length % 2 ^ 32 := by
    have := reachable_peer_le hm
    rw [hpeer, Nat.mod_eq_of_lt (by omega)]
    exact hlt
  have hres : resolveFor m.side wlMapClientSide wlMapServerSide i = some ((resolve i).1, (resolve i).2) := by
    rw [hm.side_eq, resolveFor_reserve hs, if_neg (by rw [hpeer]; exact peerNs_ne_ownNs side)]
  have hfree : mapEntryIsFree ((m.entries (resolve i).1).getD (resolve i).2.toNat 0#64) = false :=
    hclean _ (by
      rw [← hpeer, List.getD_eq_getElem?_getD, List.getElem?_eq_getElem (hpeer ▸ hlt), Option.getD_some]
      apply List.getElem_mem)
  have hlook : wlMapLookup m i = 0#64 ∧ wlMapLookupFlags m i = 0#32 ↔
      (m.entries (resolve i).1).getD (resolve i).2.toNat 0#64 = 0#64 := by
    rw [eq_zero_iff_unpack hfree, wlMapLookup, wlMapLookupFlags, Lookup.lookupWith_of_getD rfl,
      Lookup.lookupWith_of_getD rfl, if_pos ⟨hcount, hfree⟩, if_pos ⟨hcount, hfree⟩]
  split_ifs with hz
  · exact wlMapReserveNew_of_zero a hres hk hcount (hlook.mp hz)
  · exact wlMapReserveNew_of_ne_zero a hres hk hcount (mt hlook.mpr hz)

/-- A client told by the server about its object `0xff000000`, bound to the reference 8. -/
def peerCalls : List Call := [.insertAt 0#32 0xff000000#32 8#64 (some 0#64)]

def peerMap : WlMap := ⟨[], [8#64], wlMapClientSide, 0#32⟩

theorem reserveNew_eq_of_lookups_peerCalls :
    ValidSide wlMapClientSide ∧ (∀ c ∈ peerCalls, CallAligned c) ∧
    wlMapRun (wlMapInit wlMapClientSide) peerCalls = some (peerMap, [.ok 0#32]) ∧
    (resolve 0xff000000#32).1 = peerNs wlMapClientSide ∧ (resolve 0xff000000#32).2.toNat ≤ 0xf00000 ∧
    (resolve 0xff000000#32).2.toNat < (peerMap.entries (peerNs wlMapClientSide)).length ∧
    wlMapReserveNew peerMap 0xff000000#32 none =
      if wlMapLookup peerMap 0xff000000#32 = 0#64 ∧ wlMapLookupFlags peerMap 0xff000000#32 = 0#32
      then (peerMap, .ok ()) else (peerMap, .error .einval) :=
  have hr : wlMapRun (wlMapInit wlMapClientSide) peerCalls = some (peerMap, [.ok 0#32]) := rfl
  ⟨.inl rfl, by decide, hr, by decide, by decide, by decide,
    reserveNew_eq_of_lookups (.inl rfl) (by decide) hr (by decide) (by decide) (by decide) none⟩

end WaylandMap.Reserve
