/-
# WaylandMap.Isolation — calls on peer ids cannot reach the side's own namespace.

The table keeps one `free_list` for both arrays, and the peer chooses the ids it announces. What
the side's own calls read is its own array, `free_list` and the side; `ownView` keeps exactly that
and forgets the other array. Every call on a peer-namespace id (`insert_at`, `reserve_new` or
`remove` of an id resolving outside the own array) is defined and leaves the view as it was
(`peerCall_ownView`), and every other call commutes with forgetting (`wlMapCall_ownView`). By
induction over the way two runs interleave their peer calls, two runs making the same own calls
return the same outcomes for them and end with the same view (`peer_isolation`).
-/
import WaylandMap.Lookup

namespace WaylandMap.Isolation

open WlMap (setEntries_comm setFreeList_setEntries)

/-! ## §1 — peer calls and the own view -/

/-- A call on a peer-namespace id. `insert_new` never is one. -/
def PeerCall (side : BitVec 32) : Call → Prop
  | .insertNew .. => False
  | .insertAt _ i _ _ => (resolve i).1 ≠ ownNs side
  | .reserveNew i _ => (resolve i).1 ≠ ownNs side
  | .remove i => (resolve i).1 ≠ ownNs side

instance (side : BitVec 32) : DecidablePred (PeerCall side)
  | .insertNew .. => inferInstanceAs (Decidable False)
  | .insertAt _ i _ _ => inferInstanceAs (Decidable ((resolve i).1 ≠ ownNs side))
  | .reserveNew i _ => inferInstanceAs (Decidable ((resolve i).1 ≠ ownNs side))
  | .remove i => inferInstanceAs (Decidable ((resolve i).1 ≠ ownNs side))

/-- What the side's own calls read: the table with the other array forgotten. -/
def ownView (side : BitVec 32) (m : WlMap) : WlMap := m.setEntries (peerNs side) []

variable {side : BitVec 32} {m m' : WlMap}

@[simp] theorem ownView_setEntries_peer (e : List Word) :
    ownView side (m.setEntries (peerNs side) e) = ownView side m := by
  simp [ownView]

theorem ownView_setEntries_own (e : List Word) :
    ownView side (m.setEntries (ownNs side) e) = (ownView side m).setEntries (ownNs side) e :=
  setEntries_comm m (ownNs_ne_peerNs side) e []

theorem ownView_setFreeList (fl : BitVec 32) :
    ownView side (m.setFreeList fl) = (ownView side m).setFreeList fl :=
  (setFreeList_setEntries m _ [] fl).symm

@[simp] theorem entries_ownView_own : (ownView side m).entries (ownNs side) = m.entries (ownNs side) := by
  simp [ownView]

@[simp] theorem side_ownView : (ownView side m).side = m.side := by simp [ownView]

@[simp] theorem freeList_ownView : (ownView side m).freeList = m.freeList := by simp [ownView]

/-- An own id looks up the same in the view. -/
theorem lookupWith_ownView {get : Word → Word} {i : BitVec 32} (hown : (resolve i).1 = ownNs side) :
    lookupWith get (ownView side m) i = lookupWith get m i := by
  rw [Lookup.lookupWith_of_getD rfl, Lookup.lookupWith_of_getD rfl, hown, entries_ownView_own]

theorem lookups_ownView {i : BitVec 32} (hown : (resolve i).1 = ownNs side) :
    wlMapLookup (ownView side m) i = wlMapLookup m i ∧
      wlMapLookupFlags (ownView side m) i = wlMapLookupFlags m i :=
  ⟨lookupWith_ownView hown, congrArg (BitVec.setWidth 32) (lookupWith_ownView hown)⟩

/-! ## §2 — every own call commutes with forgetting the other array -/

theorem storeNew_setEntries_of_ne {map : WlMap} {p ns : Ns} (h : p ≠ ns) (e : List Word) (idx : Nat)
    (f : BitVec 32) (d : Word) :
    storeNew (map.setEntries p e) ns idx f d =
      ((storeNew map ns idx f d).1.setEntries p e, (storeNew map ns idx f d).2) := by
  unfold storeNew
  dsimp only
  split_ifs <;> simp [h, setEntries_comm _ h]

theorem wlMapInsertNew_ownView (hm : m.side = side) (f : BitVec 32) (d : Word) (a : Option Word) :
    wlMapInsertNew (ownView side m) f d a =
      (wlMapInsertNew m f d a).map fun r => (ownView side r.1, r.2) := by
  subst hm
  by_cases hz : m.freeList = 0#32
  · cases a with
    | none => simp [wlMapInsertNew, hz]
    | some g =>
      rw [wlMapInsertNew_of_freeList_zero (by simpa using hz), wlMapInsertNew_of_freeList_zero hz]
      simp only [side_ownView, entries_ownView_own, Option.map_some']
      rw [← ownView_setEntries_own, ownView, storeNew_setEntries_of_ne (peerNs_ne_ownNs m.side)]
      rfl
  · unfold wlMapInsertNew
    simp only [side_ownView, freeList_ownView, entries_ownView_own, if_pos hz]
    split
    · rfl
    · rw [← ownView_setFreeList, ownView, storeNew_setEntries_of_ne (peerNs_ne_ownNs m.side)]; rfl

theorem wlMapInsertAt_ownView {f i : BitVec 32} {d : Word} {a : Option Word}
    (hown : (resolve i).1 = ownNs side) :
    wlMapInsertAt (ownView side m) f i d a =
      (ownView side (wlMapInsertAt m f i d a).1, (wlMapInsertAt m f i d a).2) := by
  unfold wlMapInsertAt
  generalize resolve i = r at hown ⊢
  obtain ⟨ns, k⟩ := r
  dsimp only at hown ⊢
  subst hown
  simp only [entries_ownView_own]
  split_ifs <;> first | rfl | (split <;> rename_i heq <;> simp [heq, ownView_setEntries_own])

theorem wlMapRemove_ownView {i : BitVec 32} (hs : ValidSide side) (hm : m.side = side)
    (hown : (resolve i).1 = ownNs side) :
    wlMapRemove (ownView side m) i = (wlMapRemove m i).map (ownView side) := by
  rw [wlMapRemove_eq, wlMapRemove_eq, side_ownView, hm, resolveFor_remove hs, if_pos hown]
  generalize resolve i = r at hown ⊢
  obtain ⟨ns, k⟩ := r
  dsimp only at hown ⊢
  subst hown
  simp only [entries_ownView_own, freeList_ownView]
  split_ifs <;> simp [ownView_setEntries_own, ownView_setFreeList]

/-- `wl_map_reserve_new` refuses every own id. -/
theorem wlMapReserveNew_own {i : BitVec 32} {a : Option Word} (hs : ValidSide side)
    (hm : m.side = side) (hown : (resolve i).1 = ownNs side) :
    wlMapReserveNew m i a = (m, .error .einval) := by
  rw [wlMapReserveNew, hm, resolveFor_reserve hs, if_pos hown]

/-- **Every own call commutes with forgetting the other array.** -/
theorem wlMapCall_ownView (hs : ValidSide side) (hm : m.side = side) {c : Call}
    (hc : ¬ PeerCall side c) :
    wlMapCall (ownView side m) c = (wlMapCall m c).map fun r => (ownView side r.1, r.2) := by
  cases c with
  | insertNew f d a => exact wlMapInsertNew_ownView hm f d a
  | insertAt f i d a =>
    simp only [wlMapCall, Option.map_some', wlMapInsertAt_ownView (by simpa [PeerCall] using hc)]
  | reserveNew i a =>
    have hown : (resolve i).1 = ownNs side := by simpa [PeerCall] using hc
    simp only [wlMapCall, Option.map_some', wlMapReserveNew_own hs hm hown,
      @wlMapReserveNew_own side (ownView side m) i a hs (by simpa using hm) hown]
  | remove i =>
    simp only [wlMapCall, wlMapRemove_ownView hs hm (by simpa [PeerCall] using hc), Option.map_map]
    rfl

/-- **A peer call is defined and leaves the own view as it was.** -/
theorem peerCall_ownView (hs : ValidSide side) (hm : m.side = side) {c : Call}
    (hc : PeerCall side c) : ∃ m' o, wlMapCall m c = some (m', o) ∧ ownView side m' = ownView side m := by
  cases c with
  | insertNew => exact hc.elim
  | insertAt f i d a =>
    refine ⟨_, _, rfl, ?_⟩
    rcases hr : wlMapInsertAt m f i d a with ⟨m1, _ | _⟩
    · rw [wlMapInsertAt_error hr]
    · obtain ⟨-, e, rfl, -⟩ := wlMapInsertAt_ok hr
      rw [eq_peerNs_of_ne_ownNs hc, ownView_setEntries_peer]
  | reserveNew i a =>
    refine ⟨_, _, rfl, ?_⟩
    rcases hr : wlMapReserveNew m i a with ⟨m1, _ | _⟩
    · rw [wlMapReserveNew_error hr]
    · obtain ⟨ns, k, hrf, -, ⟨rfl, -⟩ | ⟨_, -, -, rfl⟩⟩ := wlMapReserveNew_ok hr
      · rfl
      · have hns : ns = peerNs side := eq_peerNs_of_ne_ownNs fun h =>
          hc ((congrArg Prod.fst (resolveFor_eq_some hrf)).symm.trans h)
        rw [hns, ownView_setEntries_peer]
  | remove i =>
    refine ⟨m, .ok 0#32, ?_, rfl⟩
    simp [wlMapCall, wlMapRemove_eq, hm, resolveFor_remove hs, show ¬ (resolve i).1 = ownNs side from hc]

/-! ## §3 — two runs with the same own calls -/

/-- Two call sequences making the same own calls, in the same order, with the same arguments and
allocator answers; the peer calls of either stand anywhere between them. -/
inductive PeerInterleaving (side : BitVec 32) : List Call → List Call → Prop
  | nil : PeerInterleaving side [] []
  | own {c : Call} {cs cs' : List Call} :
      ¬ PeerCall side c → PeerInterleaving side cs cs' → PeerInterleaving side (c :: cs) (c :: cs')
  | left {c : Call} {cs cs' : List Call} :
      PeerCall side c → PeerInterleaving side cs cs' → PeerInterleaving side (c :: cs) cs'
  | right {c : Call} {cs cs' : List Call} :
      PeerCall side c → PeerInterleaving side cs cs' → PeerInterleaving side cs (c :: cs')

/-- What a run's own calls returned, in order. -/
def ownOutcomes (side : BitVec 32) : List Call → List Outcome → List Outcome
  | c :: cs, o :: os => if PeerCall side c then ownOutcomes side cs os else o :: ownOutcomes side cs os
  | _, _ => []

/-- Two interleaved runs from states with the same own view: if the first is defined, so is the
second, and they end with the same own view, their own calls having returned the same. -/
theorem run_ownView (hs : ValidSide side) {cs₁ cs₂ : List Call} (hI : PeerInterleaving side cs₁ cs₂) :
    ∀ {m₁ m₂ m₁' : WlMap} {os₁ : List Outcome}, m₁.side = side → m₂.side = side →
      ownView side m₁ = ownView side m₂ → wlMapRun m₁ cs₁ = some (m₁', os₁) →
      ∃ m₂' os₂, wlMapRun m₂ cs₂ = some (m₂', os₂) ∧ ownView side m₁' = ownView side m₂' ∧
        ownOutcomes side cs₁ os₁ = ownOutcomes side cs₂ os₂ := by
  induction hI with
  | nil =>
    intro m₁ m₂ m₁' os₁ _ _ hv hr
    cases hr
    exact ⟨m₂, [], rfl, hv, rfl⟩
  | @own c cs₁ cs₂ hc _ ih =>
    intro m₁ m₂ m₁' os₁ h₁ h₂ hv hr
    rcases hc₁ : wlMapCall m₁ c with _ | ⟨n₁, o⟩
    · simp [wlMapRun, hc₁] at hr
    rw [wlMapRun_cons_of_call hc₁, Option.map_eq_some'] at hr
    obtain ⟨⟨_, os₁⟩, hr, ⟨⟩⟩ := hr
    have hstep : (wlMapCall m₂ c).map (fun r => (ownView side r.1, r.2)) = some (ownView side n₁, o) := by
      rw [← wlMapCall_ownView hs h₂ hc, ← hv, wlMapCall_ownView hs h₁ hc, hc₁]; rfl
    obtain ⟨⟨n₂, o₂⟩, hc₂, he⟩ := Option.map_eq_some'.mp hstep
    obtain ⟨hv', rfl⟩ := Prod.mk.inj he
    obtain ⟨m₂', os₂, hr₂, hv₂, ho⟩ := ih ((wlMapCall_side hc₁).trans h₁)
      ((wlMapCall_side hc₂).trans h₂) hv'.symm hr
    refine ⟨m₂', o₂ :: os₂, by rw [wlMapRun_cons_of_call hc₂, hr₂]; rfl, hv₂, ?_⟩
    simp [ownOutcomes, hc, ho]
  | @left c cs₁ cs₂ hc _ ih =>
    intro m₁ m₂ m₁' os₁ h₁ h₂ hv hr
    obtain ⟨n₁, o, hc₁, hv₁⟩ := peerCall_ownView hs h₁ hc
    rw [wlMapRun_cons_of_call hc₁, Option.map_eq_some'] at hr
    obtain ⟨⟨_, os₁⟩, hr, ⟨⟩⟩ := hr
    obtain ⟨m₂', os₂, hr₂, hv₂, ho⟩ := ih ((wlMapCall_side hc₁).trans h₁) h₂ (hv₁.trans hv) hr
    exact ⟨m₂', os₂, hr₂, hv₂, by simp [ownOutcomes, hc, ho]⟩
  | @right c cs₁ cs₂ hc _ ih =>
    intro m₁ m₂ m₁' os₁ h₁ h₂ hv hr
    obtain ⟨n₂, o, hc₂, hv₂⟩ := peerCall_ownView hs h₂ hc
    obtain ⟨m₂', os₂, hr₂, hv', ho⟩ := ih h₁ ((wlMapCall_side hc₂).trans h₂) (hv.trans hv₂.symm) hr
    refine ⟨m₂', o :: os₂, by rw [wlMapRun_cons_of_call hc₂, hr₂]; rfl, hv', ?_⟩
    cases cs₂ <;> simp [ownOutcomes, hc, ho]

/-- **Peer-namespace calls cannot interfere with the own namespace.** Fix a side, client or
server, and two call sequences making the same own calls (`insert_new`, and `insert_at`, `remove`
and `reserve_new` of own ids), with peer-namespace `insert_at`, `reserve_new` and `remove` calls
anywhere in either. If the first run from `wl_map_init(map, side)` is defined, so is the second;
their own calls return the same (every `insert_new` the same id), and they end with the same
`free_list` and the same lookup and flag for every own id. Prefixes of interleaved runs cut after
the same own call are interleaved runs, so this holds at every corresponding point. -/
theorem peer_isolation {side : BitVec 32} (hs : ValidSide side) {cs₁ cs₂ : List Call}
    (hI : PeerInterleaving side cs₁ cs₂) {m₁ : WlMap} {os₁ : List Outcome}
    (h₁ : wlMapRun (wlMapInit side) cs₁ = some (m₁, os₁)) :
    ∃ m₂ os₂, wlMapRun (wlMapInit side) cs₂ = some (m₂, os₂) ∧
      ownOutcomes side cs₁ os₁ = ownOutcomes side cs₂ os₂ ∧ m₁.freeList = m₂.freeList ∧
      ∀ i : BitVec 32, (resolve i).1 = ownNs side →
        wlMapLookup m₁ i = wlMapLookup m₂ i ∧ wlMapLookupFlags m₁ i = wlMapLookupFlags m₂ i := by
  obtain ⟨m₂, os₂, hr, hv, ho⟩ := run_ownView hs hI rfl rfl rfl h₁
  refine ⟨m₂, os₂, hr, ho, by simpa using congrArg WlMap.freeList hv, fun i hown => ?_⟩
  have h₁ := @lookups_ownView side m₁ i hown
  have h₂ := @lookups_ownView side m₂ i hown
  rw [hv] at h₁
  exact ⟨h₁.1.symm.trans h₂.1, h₁.2.symm.trans h₂.2⟩

theorem peer_isolation_sample :
    ValidSide wlMapClientSide ∧
    PeerInterleaving wlMapClientSide [.insertNew 0#32 4#64 (some 0#64)]
      [.insertAt 0#32 wlServerIdStart 8#64 (some 0#64), .insertNew 0#32 4#64 (some 0#64)] ∧
    wlMapRun (wlMapInit wlMapClientSide) [.insertNew 0#32 4#64 (some 0#64)] =
      some (⟨[4#64], [], wlMapClientSide, 0#32⟩, [.ok 0#32]) ∧
    ∃ m₂ os₂, wlMapRun (wlMapInit wlMapClientSide)
        [.insertAt 0#32 wlServerIdStart 8#64 (some 0#64), .insertNew 0#32 4#64 (some 0#64)] =
          some (m₂, os₂) ∧
      ownOutcomes wlMapClientSide [.insertNew 0#32 4#64 (some 0#64)] [.ok 0#32] =
        ownOutcomes wlMapClientSide
          [.insertAt 0#32 wlServerIdStart 8#64 (some 0#64), .insertNew 0#32 4#64 (some 0#64)] os₂ ∧
      (⟨[4#64], [], wlMapClientSide, 0#32⟩ : WlMap).freeList = m₂.freeList ∧
      ∀ i : BitVec 32, (resolve i).1 = ownNs wlMapClientSide →
        wlMapLookup ⟨[4#64], [], wlMapClientSide, 0#32⟩ i = wlMapLookup m₂ i ∧
          wlMapLookupFlags ⟨[4#64], [], wlMapClientSide, 0#32⟩ i = wlMapLookupFlags m₂ i :=
  have hI : PeerInterleaving wlMapClientSide [.insertNew 0#32 4#64 (some 0#64)]
      [.insertAt 0#32 wlServerIdStart 8#64 (some 0#64), .insertNew 0#32 4#64 (some 0#64)] :=
    .right (by decide) (.own (by decide) .nil)
  have hr : wlMapRun (wlMapInit wlMapClientSide) [.insertNew 0#32 4#64 (some 0#64)] =
      some (⟨[4#64], [], wlMapClientSide, 0#32⟩, [.ok 0#32]) := rfl
  ⟨.inl rfl, hI, hr, peer_isolation (.inl rfl) hI hr⟩

end WaylandMap.Isolation
