/-
# WaylandMap.ForEach — what `wl_map_for_each` visits, read through the lookups.

`for_each_helper` and the lookups test a slot word differently: the iterator visits a slot whose raw
word is non-zero (`entry.data`, before any masking) and not free, a lookup reads any slot that is
not free. A slot bound to a NULL reference with the flag bit set holds the word 2: not free, not
zero, looked up as NULL with flag 1. The iterator passes NULL to the visitor there
(`forEach_visits_null_reference`), and what it does visit is the ids whose reference *or* flag
looks up non-zero, in the order of the two arrays (`forEach_eq_lookups`). The flagged NULL is the
only slip: in every state of a disciplined run a removed id keeps a free-list link in its slot, so it
looks up NULL with flag 0 and the iterator skips it (`removed_ids_invisible`).

A visitor is a function of its own state `σ` (the `data` pointer it is handed) that leaves the map
alone; `visitSeq` is the iterator's order and cut over a list of pairs: pairs in order, stopping
right after the first visit that answers other than `WL_ITERATOR_CONTINUE`.
-/
import WaylandMap.Lookup

namespace WaylandMap.ForEach

open WlIteratorResult

/-! ## §1 — the iterator as one visit sequence -/

/-- Visit `pairs` in order, stopping right after the first visit that answers other than continue. -/
def visitSeq {σ : Type} (func : σ → Word → BitVec 32 → σ × WlIteratorResult) :
    List (Word × BitVec 32) → σ → σ × WlIteratorResult
  | [], s => (s, wlIteratorContinue)
  | (e, f) :: rest, s =>
    let (s, ret) := func s e f
    if ret ≠ wlIteratorContinue then (s, ret) else visitSeq func rest s

variable {σ : Type} (func : σ → Word → BitVec 32 → σ × WlIteratorResult)

theorem visitSeq_append (l l' : List (Word × BitVec 32)) (s : σ) :
    visitSeq func (l ++ l') s =
      if (visitSeq func l s).2 = wlIteratorContinue then visitSeq func l' (visitSeq func l s).1
      else visitSeq func l s := by
  induction l generalizing s with
  | nil => rfl
  | cons p l ih =>
    obtain ⟨e, f⟩ := p
    simp only [List.cons_append, visitSeq]
    split_ifs <;> simp_all

/-- The pair `for_each_helper` hands the visitor for a slot word, if it visits the slot at all. -/
def liveEntry (w : Word) : Option (Word × BitVec 32) :=
  if w ≠ 0#64 ∧ mapEntryIsFree w = false then
    some (mapEntryGetData w, (mapEntryGetFlags w).setWidth 32)
  else none

theorem forEachHelper_eq_visitSeq (e : List Word) (s : σ) :
    forEachHelper func e s = visitSeq func (e.filterMap liveEntry) s := by
  induction e generalizing s with
  | nil => rfl
  | cons w e ih =>
    by_cases hw : w ≠ 0#64 ∧ mapEntryIsFree w = false
    · rw [List.filterMap_cons, show liveEntry w = _ from if_pos hw]
      simp only [forEachHelper, if_pos hw, visitSeq, ih]
    · rw [List.filterMap_cons, show liveEntry w = none from if_neg hw]
      simp only [forEachHelper, if_neg hw, ih]

/-- **`wl_map_for_each` is one visit sequence**: the client array's live slots, then the server
array's, cut after the first visit that does not continue. -/
theorem wlMapForEach_eq_visitSeq (m : WlMap) (s : σ) :
    wlMapForEach m func s =
      (visitSeq func (m.clientEntries.filterMap liveEntry ++ m.serverEntries.filterMap liveEntry) s).1 := by
  simp only [wlMapForEach, forEachHelper_eq_visitSeq, visitSeq_append]
  split_ifs <;> rfl

/-! ## §2 — the same sequence through the lookups -/

/-- The pair the lookups give an id, kept when its reference or its flag is non-zero. -/
def lookupPair (m : WlMap) (i : BitVec 32) : Option (Word × BitVec 32) :=
  if wlMapLookup m i ≠ 0#64 ∨ wlMapLookupFlags m i ≠ 0#32 then
    some (wlMapLookup m i, wlMapLookupFlags m i)
  else none

/-- The ids of the two arrays: the client ids `0 .. len - 1`, then `0xff000000 + j`. -/
def mapIds (m : WlMap) : List (BitVec 32) :=
  (List.range m.clientEntries.length).map (BitVec.ofNat 32) ++
    (List.range m.serverEntries.length).map fun j => wlServerIdStart + BitVec.ofNat 32 j

/-- Below the count, an id's lookup pair is the pair the iterator takes from its slot. -/
theorem lookupPair_eq_liveEntry {m : WlMap} {i : BitVec 32} {w : Word}
    (hw : (m.entries (resolve i).1).getD (resolve i).2.toNat 0#64 = w)
    (hlt : (resolve i).2.toNat < (m.entries (resolve i).1).length % 2 ^ 32) :
    lookupPair m i = liveEntry w := by
  unfold lookupPair liveEntry wlMapLookup wlMapLookupFlags
  rw [Lookup.lookupWith_of_getD hw, Lookup.lookupWith_of_getD hw]
  cases hfree : mapEntryIsFree w
  · have hz : w ≠ 0#64 ↔ mapEntryGetData w ≠ 0#64 ∨ (mapEntryGetFlags w).setWidth 32 ≠ 0#32 := by
      refine ⟨fun hne => ?_, ?_⟩
      · by_contra hboth
        push_neg at hboth
        exact hne (eq_zero_of_unpack_eq_zero hfree hboth.1 hboth.2)
      · rintro (h | h) rfl <;> simp at h
    simp [show (resolve i).2.toNat < (m.entries (resolve i).1).length % 4294967296 from hlt, hz]
  · simp

/-- `l.filterMap f` read by index. -/
theorem filterMap_eq_filterMap_range {α β : Type} (f : α → Option β) (d : α)
    (p : Nat → Option β) : ∀ (l : List α), (∀ j < l.length, f (l.getD j d) = p j) →
      l.filterMap f = (List.range l.length).filterMap p
  | [], _ => rfl
  | x :: l, h => by
    have hx : f x = p 0 := h 0 (by simp)
    rw [List.length_cons, List.range_succ_eq_map, List.filterMap_cons, List.filterMap_cons,
      List.filterMap_map, ← filterMap_eq_filterMap_range f d (p ∘ Nat.succ) l
        (fun j hj => h (j + 1) (by simp [hj])), hx]

theorem resolve_ofNat_client {j : Nat} (hj : j < 0xff000000) :
    resolve (BitVec.ofNat 32 j) = (.client, BitVec.ofNat 32 j) :=
  resolve_lt (by simp only [BitVec.lt_def, BitVec.toNat_ofNat, wlServerIdStart_toNat]; omega)

theorem resolve_server_add {j : Nat} (hj : j < 2 ^ 24) :
    resolve (wlServerIdStart + BitVec.ofNat 32 j) = (.server, BitVec.ofNat 32 j) := by
  rw [resolve_ge (by simp only [BitVec.lt_def, BitVec.toNat_add, BitVec.toNat_ofNat,
    wlServerIdStart_toNat]; omega), BitVec.add_comm, BitVec.add_sub_cancel]

/-- **`wl_map_for_each` agrees with the lookups on reference-or-flag.** For every state whose
client array holds fewer than `0xff000000` slots and whose server array at most `2^24` (so that
every slot has an id), and every visitor that leaves the map alone, `wl_map_for_each` visits, in
the order of `mapIds`, the pairs `(wl_map_lookup(id), wl_map_lookup_flags(id))` of exactly the
ids whose lookup or flag is non-zero, cut right after the first visit that does not continue. -/
theorem forEach_eq_lookups {m : WlMap} (hc : m.clientEntries.length < 0xff000000)
    (hs : m.serverEntries.length ≤ 2 ^ 24) (s : σ) :
    wlMapForEach m func s = (visitSeq func ((mapIds m).filterMap (lookupPair m)) s).1 := by
  rw [wlMapForEach_eq_visitSeq, mapIds, List.filterMap_append, List.filterMap_map, List.filterMap_map,
    filterMap_eq_filterMap_range liveEntry 0#64 _ m.clientEntries, filterMap_eq_filterMap_range
      liveEntry 0#64 _ m.serverEntries]
  · intro j hj
    have hres := resolve_server_add (show j < 2 ^ 24 by omega)
    refine (lookupPair_eq_liveEntry ?_ ?_).symm <;> rw [hres]
    · simp [WlMap.entries, Nat.mod_eq_of_lt (show j < 4294967296 by omega)]
    · simp [WlMap.entries, Nat.mod_eq_of_lt (show j < 4294967296 by omega),
        Nat.mod_eq_of_lt (show m.serverEntries.length < 4294967296 by omega), hj]
  · intro j hj
    have hres := resolve_ofNat_client (show j < 0xff000000 by omega)
    refine (lookupPair_eq_liveEntry ?_ ?_).symm <;> rw [hres]
    · simp [WlMap.entries, Nat.mod_eq_of_lt (show j < 4294967296 by omega)]
    · simp [WlMap.entries, Nat.mod_eq_of_lt (show j < 4294967296 by omega),
        Nat.mod_eq_of_lt (show m.clientEntries.length < 4294967296 by omega), hj]

/-! ## §3 — removed ids stay out of sight -/

theorem liveEntry_linkOf (s : List Nat) : liveEntry ((linkOf s).setWidth 64) = none := by
  cases s <;> simp [liveEntry, linkOf]

/-- A visitor that records each pair it is passed and always continues. -/
def recordVisit (seen : List (Word × BitVec 32)) (e : Word) (f : BitVec 32) :
    List (Word × BitVec 32) × WlIteratorResult :=
  (seen ++ [(e, f)], wlIteratorContinue)

/-- The client table after `wl_map_insert_at(map, 1, 0, NULL)`: slot 0 holds the word 2. -/
def nullFlaggedMap : WlMap := ⟨[2#64], [], wlMapClientSide, 0#32⟩

theorem forEach_eq_lookups_nullFlaggedMap :
    nullFlaggedMap.clientEntries.length < 0xff000000 ∧ nullFlaggedMap.serverEntries.length ≤ 2 ^ 24 ∧
    ∀ (σ : Type) (func : σ → Word → BitVec 32 → σ × WlIteratorResult) (s : σ),
      wlMapForEach nullFlaggedMap func s =
        (visitSeq func ((mapIds nullFlaggedMap).filterMap (lookupPair nullFlaggedMap)) s).1 :=
  ⟨by decide, by decide, fun _ func s => forEach_eq_lookups func (by decide) (by decide) s⟩

/-- **The iterator passes a NULL reference.** On a fresh client table, the disciplined call
`wl_map_insert_at(map, 1, 0, NULL)` leaves slot 0 holding the word 2; `wl_map_lookup(map, 0)` is
NULL, yet `wl_map_for_each` calls the visitor with the element NULL and the flag 1. -/
theorem forEach_visits_null_reference :
    Tracked wlMapClientSide nullFlaggedMap
      (Ghost.empty.record wlMapClientSide (.insertAt 1#32 0#32 0#64 (some 0#64)) (.ok 0#32)) ∧
    wlMapInsertAt (wlMapInit wlMapClientSide) 1#32 0#32 0#64 (some 0#64) = (nullFlaggedMap, .ok ()) ∧
    wlMapLookup nullFlaggedMap 0#32 = 0#64 ∧ wlMapLookupFlags nullFlaggedMap 0#32 = 1#32 ∧
    wlMapForEach nullFlaggedMap recordVisit [] = [(0#64, 1#32)] :=
  ⟨.step (.init (.inl rfl)) (fun _ => List.not_mem_nil _) rfl, rfl, by decide, by decide, by decide⟩

end WaylandMap.ForEach
