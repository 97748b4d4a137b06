/-
# WaylandMap.Run — runs of the table, and the history a disciplined caller keeps.

A run starts at `wl_map_init(map, side)` and makes calls, each with the allocator's answer for its
`wl_array_add`. `Reachable side` is every state some run reaches without undefined behaviour.

The free list stays sound only for a caller that hands `wl_map_remove` a currently allocated own
id and never hands `wl_map_insert_at` a currently removed own index: `insert_at` writes a slot
without unlinking it from the free list. That discipline is about history, so a run carries a
`Ghost`: the own indices issued by `insert_new` or bound by `insert_at` and not removed
since, and the own indices removed and not reissued since, most recent first. `Ghost.record`
updates it from each call and what the call returned, never from the table's insides, and
`Tracked side` is every (state, history) pair a run obeying `Ghost.Allows` reaches.
-/
import WaylandMap.Map

namespace WaylandMap

/-! ## §1 — sides and namespaces -/

/-- The array `wl_map_insert_new` does not allocate from. -/
def peerNs (side : BitVec 32) : Ns := if side = wlMapClientSide then .server else .client

@[simp] theorem peerNs_client : peerNs wlMapClientSide = .server := rfl

@[simp] theorem peerNs_server : peerNs wlMapServerSide = .client := rfl

/-- The two sides a table is created for. -/
def ValidSide (side : BitVec 32) : Prop := side = wlMapClientSide ∨ side = wlMapServerSide

instance (side : BitVec 32) : Decidable (ValidSide side) :=
  inferInstanceAs (Decidable (_ ∨ _))

@[simp] theorem ownNs_ne_peerNs (side : BitVec 32) : ownNs side ≠ peerNs side := by
  unfold ownNs peerNs; split_ifs <;> simp

@[simp] theorem peerNs_ne_ownNs (side : BitVec 32) : peerNs side ≠ ownNs side :=
  (ownNs_ne_peerNs side).symm

theorem eq_peerNs_of_ne_ownNs {side : BitVec 32} {ns : Ns} (h : ns ≠ ownNs side) :
    ns = peerNs side := by
  unfold ownNs peerNs at *; split_ifs at * <;> cases ns <;> simp_all

theorem resolve_lt {i : BitVec 32} (h : i < wlServerIdStart) : resolve i = (.client, i) :=
  if_pos h

theorem resolve_ge {i : BitVec 32} (h : ¬ i < wlServerIdStart) :
    resolve i = (.server, i - wlServerIdStart) := if_neg h

/-- Whatever the side check keeps resolves as `resolve` does. -/
theorem resolveFor_eq_some {side lo hi i : BitVec 32} {r : Ns × BitVec 32}
    (h : resolveFor side lo hi i = some r) : r = resolve i := by
  unfold resolveFor at h; unfold resolve; split_ifs at h ⊢ <;> simp_all

/-- `wl_map_remove`'s side check keeps exactly the side's own namespace. -/
theorem resolveFor_remove {side : BitVec 32} (hs : ValidSide side) (i : BitVec 32) :
    resolveFor side wlMapServerSide wlMapClientSide i =
      if (resolve i).1 = ownNs side then some (resolve i) else none := by
  rcases hs with rfl | rfl <;> unfold resolveFor resolve ownNs <;> split_ifs <;> simp_all

/-- `wl_map_reserve_new`'s side check keeps exactly the other side's namespace. -/
theorem resolveFor_reserve {side : BitVec 32} (hs : ValidSide side) (i : BitVec 32) :
    resolveFor side wlMapClientSide wlMapServerSide i =
      if (resolve i).1 = ownNs side then none else some (resolve i) := by
  rcases hs with rfl | rfl <;> unfold resolveFor resolve ownNs <;> split_ifs <;> simp_all

/-- An index `wl_map_insert_new` issues resolves back to itself in the side's own array. -/
theorem resolve_issued (side : BitVec 32) {t : Nat} (ht : t ≤ 0xf00000) :
    resolve (BitVec.ofNat 32 t + idBase side) = (ownNs side, BitVec.ofNat 32 t) := by
  have ht' : t < 2 ^ 32 := by omega
  unfold resolve idBase ownNs
  split_ifs with h1 h2 h2
  · simp
  · simp only [BitVec.lt_def, wlServerIdStart_toNat, BitVec.toNat_add, BitVec.toNat_ofNat] at h2
    omega
  · simp only [BitVec.lt_def, wlServerIdStart_toNat, BitVec.toNat_add, BitVec.toNat_ofNat] at h2
    omega
  · simp

/-! ## §2 — calls and runs -/

/-- One call of the table's interface, with the allocator's answer for its `wl_array_add`. -/
inductive Call
  | insertNew (flags : BitVec 32) (data : Word) (alloc : Option Word)
  | insertAt (flags i : BitVec 32) (data : Word) (alloc : Option Word)
  | reserveNew (i : BitVec 32) (alloc : Option Word)
  | remove (i : BitVec 32)
  deriving DecidableEq, Repr

/-- What a call returned: the id `wl_map_insert_new` issued (0 for the calls returning `int` 0 or
`void`), or the failure's `errno`. -/
abbrev Outcome := Except Errno (BitVec 32)

/-- One call on the table; `none` is undefined behaviour. -/
def wlMapCall (m : WlMap) : Call → Option (WlMap × Outcome)
  | .insertNew f d a => wlMapInsertNew m f d a
  | .insertAt f i d a =>
    let r := wlMapInsertAt m f i d a
    some (r.1, r.2.map fun _ => 0#32)
  | .reserveNew i a =>
    let r := wlMapReserveNew m i a
    some (r.1, r.2.map fun _ => 0#32)
  | .remove i => (wlMapRemove m i).map (·, .ok 0#32)

@[simp] theorem wlMapCall_insertNew (m : WlMap) (f : BitVec 32) (d : Word) (a : Option Word) :
    wlMapCall m (.insertNew f d a) = wlMapInsertNew m f d a := rfl

/-- The states some run from `wl_map_init(map, side)` reaches. -/
inductive Reachable (side : BitVec 32) : WlMap → Prop
  | init : Reachable side (wlMapInit side)
  | step {m m' : WlMap} {c : Call} {o : Outcome} :
      Reachable side m → wlMapCall m c = some (m', o) → Reachable side m'

/-- **What one call can do to the table**: nothing; write one slot of an array; write one slot and
set `free_list` (`remove`, and `insert_new` popping the free list); append one slot within the bound
and write one (`insert_at`, `reserve_new`); or append one slot to the side's own array and write one
(`insert_new` growing it, whatever the bound). -/
theorem wlMapCall_shape {m m' : WlMap} {c : Call} {o : Outcome} (h : wlMapCall m c = some (m', o)) :
    m' = m ∨ (∃ ns k w, m' = m.setEntries ns ((m.entries ns).set k w)) ∨
      (∃ ns k w fl, m' = (m.setEntries ns ((m.entries ns).set k w)).setFreeList fl) ∨
      (∃ ns k w g, (m.entries ns).length % 2 ^ 32 ≤ 0xf00000 ∧
        m' = m.setEntries ns ((m.entries ns ++ [g]).set k w)) ∨
      (∃ k w g, m' = m.setEntries (ownNs m.side) ((m.entries (ownNs m.side) ++ [g]).set k w)) := by
  cases c with
  | insertNew f d a =>
    rcases wlMapInsertNew_eq_some h with ⟨next, -, -, hr⟩ | ⟨-, -, hr⟩ | ⟨g, -, -, hr⟩ <;>
      obtain rfl : m' = _ := congrArg Prod.fst hr
    · obtain ⟨w, hw⟩ := storeNew_fst (m.setFreeList (next.setWidth 32)) (ownNs m.side)
        (m.freeList >>> 1).toNat f d
      refine .inr (.inr (.inl ⟨ownNs m.side, (m.freeList >>> 1).toNat, w, next.setWidth 32, ?_⟩))
      rw [hw, WlMap.setFreeList_setEntries, WlMap.entries_setFreeList]
    · exact .inl rfl
    · obtain ⟨w, hw⟩ := storeNew_fst (m.setEntries (ownNs m.side) (m.entries (ownNs m.side) ++ [g]))
        (ownNs m.side) (m.entries (ownNs m.side)).length f d
      exact .inr (.inr (.inr (.inr ⟨(m.entries (ownNs m.side)).length, w, g, by simp [hw]⟩)))
  | insertAt f i d a =>
    simp only [wlMapCall, Option.some.injEq, Prod.mk.injEq] at h
    rcases hr : wlMapInsertAt m f i d a with ⟨m'', _ | _⟩ <;> rw [hr] at h <;> rw [← h.1]
    · exact .inl (wlMapInsertAt_error hr)
    · obtain ⟨hk, e, rfl, ⟨rfl, -⟩ | ⟨g, -, rfl, hkL⟩⟩ := wlMapInsertAt_ok hr
      · exact .inr (.inl ⟨_, _, _, rfl⟩)
      · exact .inr (.inr (.inr (.inl ⟨_, _, _, g, by omega, rfl⟩)))
  | reserveNew i a =>
    simp only [wlMapCall, Option.some.injEq, Prod.mk.injEq] at h
    rcases hr : wlMapReserveNew m i a with ⟨m'', _ | _⟩ <;> rw [hr] at h <;> rw [← h.1]
    · exact .inl (wlMapReserveNew_error hr)
    · obtain ⟨ns, k, -, hk, ⟨rfl, -⟩ | ⟨g, -, hkL, rfl⟩⟩ := wlMapReserveNew_ok hr
      · exact .inl rfl
      · exact .inr (.inr (.inr (.inl ⟨ns, _, _, g, by omega, rfl⟩)))
  | remove i =>
    simp only [wlMapCall, Option.map_eq_some', Prod.mk.injEq] at h
    obtain ⟨m'', hr, rfl, -⟩ := h
    rw [wlMapRemove_eq] at hr
    split at hr
    · cases hr; exact .inl rfl
    · split_ifs at hr; cases hr
      exact .inr (.inr (.inl ⟨_, _, _, _, rfl⟩))

/-- No call changes the side. -/
theorem wlMapCall_side {m m' : WlMap} {c : Call} {o : Outcome} (h : wlMapCall m c = some (m', o)) :
    m'.side = m.side := by
  rcases wlMapCall_shape h with rfl | ⟨_, _, _, rfl⟩ | ⟨_, _, _, _, rfl⟩ | ⟨_, _, _, _, -, rfl⟩ |
    ⟨_, _, _, rfl⟩ <;> simp

theorem Reachable.side_eq {side : BitVec 32} {m : WlMap} (h : Reachable side m) : m.side = side := by
  induction h with
  | init => rfl
  | step _ hc ih => exact (wlMapCall_side hc).trans ih

/-- A run as a function: the calls made one after another from `m`, with what each returned;
`none` as soon as one is undefined. -/
def wlMapRun (m : WlMap) : List Call → Option (WlMap × List Outcome)
  | [] => some (m, [])
  | c :: cs => (wlMapCall m c).bind fun r => (wlMapRun r.1 cs).map fun s => (s.1, r.2 :: s.2)

@[simp] theorem wlMapRun_nil (m : WlMap) : wlMapRun m [] = some (m, []) := rfl

theorem wlMapRun_cons_of_call {m m' : WlMap} {c : Call} {o : Outcome} (h : wlMapCall m c = some (m', o))
    (cs : List Call) : wlMapRun m (c :: cs) = (wlMapRun m' cs).map fun s => (s.1, o :: s.2) := by
  simp [wlMapRun, h]

/-- A defined run of one more call is a defined first call followed by a defined run. -/
theorem wlMapRun_cons_eq_some {m m' : WlMap} {c : Call} {cs : List Call} {os : List Outcome}
    (h : wlMapRun m (c :: cs) = some (m', os)) :
    ∃ m1 o os', wlMapCall m c = some (m1, o) ∧ wlMapRun m1 cs = some (m', os') ∧ os = o :: os' := by
  rcases hc : wlMapCall m c with _ | ⟨m1, o⟩
  · simp [wlMapRun, hc] at h
  · rw [wlMapRun_cons_of_call hc, Option.map_eq_some'] at h
    obtain ⟨⟨m2, os2⟩, hr, he⟩ := h
    cases he
    exact ⟨m1, o, os2, rfl, hr, rfl⟩

theorem wlMapRun_append (m : WlMap) (cs cs' : List Call) :
    wlMapRun m (cs ++ cs') =
      (wlMapRun m cs).bind fun r => (wlMapRun r.1 cs').map fun s => (s.1, r.2 ++ s.2) := by
  induction cs generalizing m with
  | nil => simp
  | cons c cs ih =>
    rcases hc : wlMapCall m c with _ | ⟨m1, o⟩
    · simp [wlMapRun, hc]
    · rw [List.cons_append, wlMapRun_cons_of_call hc, wlMapRun_cons_of_call hc, ih]
      rcases wlMapRun m1 cs with _ | ⟨m2, os⟩ <;> simp [Function.comp_def]

/-- Every state a run function reaches from a reachable state is reachable. -/
theorem Reachable.run {side : BitVec 32} {m m' : WlMap} {cs : List Call} {os : List Outcome}
    (h : Reachable side m) (hr : wlMapRun m cs = some (m', os)) : Reachable side m' := by
  induction cs generalizing m os with
  | nil => cases hr; exact h
  | cons c cs ih =>
    rcases hc : wlMapCall m c with _ | ⟨m1, o⟩
    · simp [wlMapRun, hc] at hr
    · rw [wlMapRun_cons_of_call hc, Option.map_eq_some'] at hr
      obtain ⟨⟨m2, os2⟩, hr, he⟩ := hr
      cases he
      exact ih (h.step hc) hr

/-! ## §3 — the history a run carries -/

/-- The own-namespace history of a run. -/
structure Ghost where
  /-- Own indices issued by `insert_new` or bound by `insert_at`, and not removed since. -/
  allocated : Nat → Bool
  /-- Own indices removed and not reissued since, most recently removed first. -/
  removed : List Nat

/-- The history of a run that has made no call. -/
def Ghost.empty : Ghost := ⟨fun _ => false, []⟩

/-- The caller discipline the free list relies on: `remove` only of an allocated own id, `insert_at`
never at a removed own index. Peer-namespace calls are unrestricted. -/
def Ghost.Allows (side : BitVec 32) (g : Ghost) : Call → Prop
  | .remove i => (resolve i).1 = ownNs side → g.allocated (resolve i).2.toNat = true
  | .insertAt _ i _ _ => (resolve i).1 = ownNs side → (resolve i).2.toNat ∉ g.removed
  | _ => True

/-- The history after a call, from the call and what it returned. -/
def Ghost.record (side : BitVec 32) (g : Ghost) : Call → Outcome → Ghost
  | .insertNew .., .ok id =>
    ⟨Function.update g.allocated (resolve id).2.toNat true, g.removed.erase (resolve id).2.toNat⟩
  | .insertAt _ i _ _, .ok _ =>
    if (resolve i).1 = ownNs side then
      { g with allocated := Function.update g.allocated (resolve i).2.toNat true }
    else g
  | .remove i, _ =>
    if (resolve i).1 = ownNs side then
      ⟨Function.update g.allocated (resolve i).2.toNat false, (resolve i).2.toNat :: g.removed⟩
    else g
  | _, _ => g

/-- The (state, history) pairs a run obeying the discipline reaches from `wl_map_init`. -/
inductive Tracked (side : BitVec 32) : WlMap → Ghost → Prop
  | init : ValidSide side → Tracked side (wlMapInit side) Ghost.empty
  | step {m m' : WlMap} {g : Ghost} {c : Call} {o : Outcome} :
      Tracked side m g → g.Allows side c → wlMapCall m c = some (m', o) →
      Tracked side m' (g.record side c o)

@[simp] theorem Ghost.record_insertNew_ok (side : BitVec 32) (g : Ghost) (f : BitVec 32) (d : Word)
    (a : Option Word) (id : BitVec 32) :
    g.record side (.insertNew f d a) (.ok id) =
      ⟨Function.update g.allocated (resolve id).2.toNat true, g.removed.erase (resolve id).2.toNat⟩ :=
  rfl

@[simp] theorem Ghost.record_insertNew_error (side : BitVec 32) (g : Ghost) (f : BitVec 32)
    (d : Word) (a : Option Word) (e : Errno) : g.record side (.insertNew f d a) (.error e) = g := rfl

@[simp] theorem Ghost.record_insertAt_error (side : BitVec 32) (g : Ghost) (f i : BitVec 32)
    (d : Word) (a : Option Word) (e : Errno) : g.record side (.insertAt f i d a) (.error e) = g := rfl

@[simp] theorem Ghost.record_insertAt_ok (side : BitVec 32) (g : Ghost) (f i : BitVec 32)
    (d : Word) (a : Option Word) (id : BitVec 32) :
    g.record side (.insertAt f i d a) (.ok id) =
      if (resolve i).1 = ownNs side then
        { g with allocated := Function.update g.allocated (resolve i).2.toNat true }
      else g := rfl

@[simp] theorem Ghost.record_remove (side : BitVec 32) (g : Ghost) (i : BitVec 32) (o : Outcome) :
    g.record side (.remove i) o =
      if (resolve i).1 = ownNs side then
        ⟨Function.update g.allocated (resolve i).2.toNat false, (resolve i).2.toNat :: g.removed⟩
      else g := by
  cases o <;> rfl

@[simp] theorem Ghost.record_reserveNew (side : BitVec 32) (g : Ghost) (i : BitVec 32)
    (a : Option Word) (o : Outcome) : g.record side (.reserveNew i a) o = g := by
  cases o <;> rfl

theorem Tracked.congr {side : BitVec 32} {m m' : WlMap} {g g' : Ghost} (h : Tracked side m g)
    (hm : m = m') (hg : g = g') : Tracked side m' g' := hm ▸ hg ▸ h

theorem Tracked.reachable {side : BitVec 32} {m : WlMap} {g : Ghost} (h : Tracked side m g) :
    Reachable side m := by
  induction h with
  | init => exact .init
  | step _ _ hc ih => exact ih.step hc

/-! ## §4 — a sample run -/

/-- The history of a client table after `insert_new(0, 4)`, `insert_new(1, 8)` and `remove(0)`. -/
def sampleGhost : Ghost :=
  ((Ghost.empty.record wlMapClientSide (.insertNew 0#32 4#64 (some 0#64)) (.ok 0#32)).record
    wlMapClientSide (.insertNew 1#32 8#64 (some 0#64)) (.ok 1#32)).record wlMapClientSide
    (.remove 0#32) (.ok 0#32)

/-- That table: slot 0 holds the end-of-chain link, slot 1 the reference 8 with its flag set. -/
def sampleMap : WlMap := ⟨[0#64, 10#64], [], wlMapClientSide, 1#32⟩

/-- The sample run obeys the discipline. -/
theorem tracked_sampleMap : Tracked wlMapClientSide sampleMap sampleGhost :=
  .step (.step (.step (.init (.inl rfl)) trivial rfl) trivial rfl) (fun _ => rfl) rfl

end WaylandMap
