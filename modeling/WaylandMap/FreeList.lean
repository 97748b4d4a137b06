/-
# WaylandMap.FreeList — the slot-threaded free list and the invariant of disciplined runs.

`wl_map_remove` pushes an index by writing the old `free_list` into the slot and the link
`(i << 1) | 1` into `free_list`; `wl_map_insert_new` pops by reading `free_list >> 1` and copying
that slot back. Nothing else stores the links, so the chain is only as sound as the calls that
touch the slots on it. `Threaded e s` says the indices `s` are chained through `e` exactly as
these two functions leave them (`linkOf s` is the word heading the chain `s`).

`Inv side m g` is the invariant of `Tracked` runs: `free_list` heads the history's removed stack,
threaded through the side's own array, without repetition, within `WL_MAP_MAX_OBJECTS`; every
allocated index is a bound slot off the stack; the slots a failed `insert_new` appended below
`2^32` hold 0; and the array `insert_new` never allocates from has at most `WL_MAP_MAX_OBJECTS + 1`
slots. `Inv.insertNew_cases` and `Inv.remove_cases` say once what the two free-list calls do in
such a state; `Tracked.inv` is the run lemma.
-/
import WaylandMap.Run
import Mathlib.Data.Finset.Card
import Mathlib.Data.List.Nodup

namespace WaylandMap

/-! ## §1 — the chain -/

/-- The word heading the chain `s`: 0 when it is empty, the link to its first index otherwise. -/
def linkOf : List Nat → BitVec 32
  | [] => 0#32
  | j :: _ => freeLink (BitVec.ofNat 32 j)

/-- Each index of `s` holds, in `e`, the (widened) link to the rest of `s`. -/
def Threaded (e : List Word) : List Nat → Prop
  | [] => True
  | j :: s => e[j]? = some ((linkOf s).setWidth 64) ∧ Threaded e s

@[simp] theorem threaded_nil (e : List Word) : Threaded e [] := trivial

@[simp] theorem threaded_cons (e : List Word) (j : Nat) (s : List Nat) :
    Threaded e (j :: s) ↔ e[j]? = some ((linkOf s).setWidth 64) ∧ Threaded e s := Iff.rfl

theorem linkOf_eq_zero_iff {s : List Nat} : linkOf s = 0#32 ↔ s = [] := by
  cases s <;> simp [linkOf, freeLink_ne_zero]

/-- A chain survives any array that agrees on its indices. -/
theorem Threaded.frame {e e' : List Word} :
    ∀ {s : List Nat}, Threaded e s → (∀ j ∈ s, e'[j]? = e[j]?) → Threaded e' s
  | [], _, _ => trivial
  | j :: s, ⟨hj, hs⟩, he =>
    ⟨(he j (List.mem_cons_self j s)).trans hj, hs.frame fun k hk => he k (List.mem_cons_of_mem j hk)⟩

/-- Every index on the chain holds a link word. -/
theorem Threaded.mem_link {e : List Word} :
    ∀ {s : List Nat}, Threaded e s → ∀ j ∈ s, ∃ t, e[j]? = some ((linkOf t).setWidth 64)
  | [], _, _, hj => absurd hj (List.not_mem_nil _)
  | k :: s, ⟨hk, hs⟩, j, hj => by
    rcases List.mem_cons.mp hj with rfl | hj
    · exact ⟨s, hk⟩
    · exact hs.mem_link j hj

theorem Threaded.lt_length {e : List Word} {s : List Nat} (h : Threaded e s) : ∀ j ∈ s, j < e.length :=
  fun j hj => let ⟨_, hl⟩ := h.mem_link j hj; (List.getElem?_eq_some_iff.mp hl).1

/-- Writing a slot off the chain keeps it. -/
theorem Threaded.set {e : List Word} {s : List Nat} (h : Threaded e s) {k : Nat} (hk : k ∉ s)
    (w : Word) : Threaded (e.set k w) s :=
  h.frame fun j hj => List.getElem?_set_ne (fun hkj : k = j => hk (hkj ▸ hj))

/-- Growing the array keeps the chain. -/
theorem Threaded.append {e : List Word} {s : List Nat} (h : Threaded e s) (t : List Word) :
    Threaded (e ++ t) s :=
  h.frame fun j hj => List.getElem?_append_left (h.lt_length j hj)

/-- Reading the link of an index at most `WL_MAP_MAX_OBJECTS` back gives the index. -/
theorem linkOf_cons_ushiftRight {j : Nat} (hj : j ≤ 0xf00000) (s : List Nat) :
    (linkOf (j :: s) >>> 1).toNat = j := by
  rw [linkOf, freeLink_ushiftRight (by simp; omega)]
  simp; omega

/-! ## §2 — following the links as the code would -/

/-- **The invariant of disciplined runs.** -/
structure Inv (side : BitVec 32) (m : WlMap) (g : Ghost) : Prop where
  side_eq : m.side = side
  valid : ValidSide side
  freeList_eq : m.freeList = linkOf g.removed
  threaded : Threaded (m.entries (ownNs side)) g.removed
  nodup : g.removed.Nodup
  removed_le : ∀ j ∈ g.removed, j ≤ 0xf00000
  allocated_spec : ∀ j, g.allocated j = true →
    j ≤ 0xf00000 ∧ j < (m.entries (ownNs side)).length ∧ j ∉ g.removed
  spare_zero : ∀ j w, 0xf00000 < j → j < 2 ^ 32 → (m.entries (ownNs side))[j]? = some w → w = 0#64
  peer_le : (m.entries (peerNs side)).length ≤ 0xf00000 + 1

@[simp] theorem entries_wlMapInit (side : BitVec 32) (ns : Ns) : (wlMapInit side).entries ns = [] := by
  cases ns <;> rfl

theorem Inv.init {side : BitVec 32} (hs : ValidSide side) : Inv side (wlMapInit side) Ghost.empty where
  side_eq := rfl
  valid := hs
  freeList_eq := rfl
  threaded := trivial
  nodup := List.nodup_nil
  removed_le := by simp [Ghost.empty]
  allocated_spec := by simp [Ghost.empty]
  spare_zero := by simp
  peer_le := by simp

variable {side : BitVec 32} {m m' : WlMap} {g : Ghost}

theorem Inv.removed_lt (hi : Inv side m g) : ∀ j ∈ g.removed, j < (m.entries (ownNs side)).length :=
  hi.threaded.lt_length

/-- **What `wl_map_insert_new` does in a reachable state**: pop the most recently removed index,
or (the stack empty) refuse when the allocator does, grow by a bound slot, or grow by a NULL slot
when the truncated count is past `WL_MAP_MAX_OBJECTS`. -/
theorem Inv.insertNew_cases {f : BitVec 32} {d : Word} {a : Option Word} {o : Outcome}
    (hi : Inv side m g) (h : wlMapInsertNew m f d a = some (m', o)) :
    (∃ j s, g.removed = j :: s ∧ o = .ok (BitVec.ofNat 32 j + idBase side) ∧
      m' = (m.setFreeList (linkOf s)).setEntries (ownNs side)
        ((m.entries (ownNs side)).set j (packEntry d f))) ∨
    (g.removed = [] ∧ a = none ∧ m' = m ∧ o = .error .enomem) ∨
    (∃ gb, g.removed = [] ∧ a = some gb ∧
      (((m.entries (ownNs side)).length % 2 ^ 32 ≤ 0xf00000 ∧
          o = .ok (BitVec.ofNat 32 (m.entries (ownNs side)).length + idBase side) ∧
          m' = m.setEntries (ownNs side) (m.entries (ownNs side) ++ [packEntry d f])) ∨
       (0xf00000 < (m.entries (ownNs side)).length % 2 ^ 32 ∧ o = .error .enospc ∧
          m' = m.setEntries (ownNs side) (m.entries (ownNs side) ++ [0#64])))) := by
  have hside := hi.side_eq
  subst hside
  rcases wlMapInsertNew_eq_some h with ⟨next, hne, hnext, hr⟩ | ⟨hz, rfl, hr⟩ | ⟨gb, hz, rfl, hr⟩
  · obtain ⟨j, s, hrem⟩ : ∃ j s, g.removed = j :: s := by
      cases hrm : g.removed with
      | nil => simp [hi.freeList_eq, hrm, linkOf] at hne
      | cons j s => exact ⟨j, s, rfl⟩
    have hj : j ≤ 0xf00000 := hi.removed_le j (by simp [hrem])
    have hth := hi.threaded
    rw [hrem] at hth
    rw [hi.freeList_eq, hrem, linkOf_cons_ushiftRight hj, hth.1, Option.some.injEq] at hnext
    subst hnext
    rw [hi.freeList_eq, hrem, linkOf_cons_ushiftRight hj, storeNew_of_le f d (by omega),
      Prod.mk.injEq] at hr
    simp only [WlMap.entries_setFreeList, BitVec.setWidth_setWidth_of_le _ (by decide : 32 ≤ 64),
      BitVec.setWidth_eq] at hr
    exact .inl ⟨j, s, hrem, hr.2, hr.1⟩
  · have hrem : g.removed = [] := linkOf_eq_zero_iff.mp (hi.freeList_eq ▸ hz)
    exact .inr (.inl ⟨hrem, rfl, (Prod.mk.inj hr).1, (Prod.mk.inj hr).2⟩)
  · have hrem : g.removed = [] := linkOf_eq_zero_iff.mp (hi.freeList_eq ▸ hz)
    refine .inr (.inr ⟨gb, hrem, rfl, ?_⟩)
    by_cases hL : (m.entries (ownNs m.side)).length % 2 ^ 32 ≤ 0xf00000
    · rw [storeNew_of_le f d hL, Prod.mk.injEq] at hr
      simp only [WlMap.entries_setEntries, if_true, WlMap.side_setEntries, List.set_append_right _ _
        le_rfl, Nat.sub_self, List.set_cons_zero, WlMap.setEntries_setEntries] at hr
      exact .inl ⟨hL, hr.2, hr.1⟩
    · rw [storeNew_of_lt f d (by omega), Prod.mk.injEq] at hr
      simp only [WlMap.entries_setEntries, if_true, List.set_append_right _ _
        le_rfl, Nat.sub_self, List.set_cons_zero, WlMap.setEntries_setEntries] at hr
      exact .inr ⟨by omega, hr.2, hr.1⟩

/-! ## §4 — every call keeps the invariant -/

theorem update_eq_true_iff {f : Nat → Bool} {t k : Nat} {b : Bool} :
    Function.update f t b k = true ↔ (k = t ∧ b = true) ∨ (k ≠ t ∧ f k = true) := by
  by_cases h : k = t <;> simp [Function.update_apply, h]

/-- The own index an issued id resolves to. -/
theorem resolve_issued_toNat (side : BitVec 32) {L : Nat} (hL : L % 2 ^ 32 ≤ 0xf00000) :
    resolve (BitVec.ofNat 32 L + idBase side) = (ownNs side, BitVec.ofNat 32 (L % 2 ^ 32)) := by
  rw [← resolve_issued side hL]; congr 2; exact BitVec.eq_of_toNat_eq (by simp)

/-- Growing the own array by one slot while nothing is removed keeps the invariant, when the new
slot is NULL or its index is within the bound and every allocated index lies in the grown array. -/
theorem Inv.grow {alloc alloc' : Nat → Bool} {x : Word} (hi : Inv side m ⟨alloc, []⟩)
    (hx : x = 0#64 ∨ (m.entries (ownNs side)).length % 2 ^ 32 ≤ 0xf00000)
    (halloc : ∀ k, alloc' k = true → k ≤ 0xf00000 ∧ k < (m.entries (ownNs side)).length + 1) :
    Inv side (m.setEntries (ownNs side) (m.entries (ownNs side) ++ [x])) ⟨alloc', []⟩ := by
  refine ⟨by simp [hi.side_eq], hi.valid, by simpa using hi.freeList_eq, trivial, List.nodup_nil,
    by simp, fun k hk => by simpa using halloc k hk, fun k w hk hk2 hw => ?_, by simpa using hi.peer_le⟩
  simp only [WlMap.entries_setEntries, if_true, List.getElem?_append] at hw
  split_ifs at hw with hkL
  · exact hi.spare_zero k w hk hk2 hw
  · obtain ⟨hlt, rfl⟩ := List.getElem?_eq_some_iff.mp hw
    rcases hx with rfl | hx
    · simp
    · simp at hlt; omega

theorem Inv.insertNew {f : BitVec 32} {d : Word} {a : Option Word} {o : Outcome}
    (hi : Inv side m g) (h : wlMapInsertNew m f d a = some (m', o)) :
    Inv side m' (g.record side (.insertNew f d a) o) := by
  obtain ⟨alloc, removed⟩ := g
  rcases hi.insertNew_cases h with ⟨j, s, hrem, rfl, rfl⟩ | ⟨-, -, rfl, rfl⟩ | ⟨gb, hrem, -, h'⟩
  · dsimp only at hrem; subst hrem
    have hj : j ≤ 0xf00000 := hi.removed_le j (by simp)
    have hjL : j < (m.entries (ownNs side)).length := hi.removed_lt j (by simp)
    have hnd := List.nodup_cons.mp hi.nodup
    have hth := hi.threaded
    simp only [Ghost.record_insertNew_ok, resolve_issued side hj, BitVec.toNat_ofNat,
      Nat.mod_eq_of_lt (show j < 2 ^ 32 by omega), List.erase_cons_head]
    refine ⟨by simp [hi.side_eq], hi.valid, by simp, by simpa using hth.2.set hnd.1 _, hnd.2,
      fun k hk => hi.removed_le k (by simp [hk]), ?_, ?_, by simpa using hi.peer_le⟩
    · intro k hk
      rcases update_eq_true_iff.mp hk with ⟨rfl, -⟩ | ⟨hkj, hk⟩
      · simpa [hj, hjL] using hnd.1
      · have := hi.allocated_spec k hk
        simp_all
    · intro k w hk hk2 hw
      simp only [WlMap.entries_setEntries, if_true, WlMap.entries_setFreeList,
        List.getElem?_set_ne (show j ≠ k by omega)] at hw
      exact hi.spare_zero k w hk hk2 hw
  · simpa using hi
  · dsimp only at hrem; subst hrem
    rcases h' with ⟨hL, rfl, rfl⟩ | ⟨hL, rfl, rfl⟩
    · simp only [Ghost.record_insertNew_ok, resolve_issued_toNat side hL, BitVec.toNat_ofNat,
        Nat.mod_mod, List.erase_nil]
      refine hi.grow (.inr hL) fun k hk => ?_
      rcases update_eq_true_iff.mp hk with ⟨rfl, -⟩ | ⟨-, hk⟩
      · omega
      · obtain ⟨hk1, hk2, -⟩ := hi.allocated_spec k hk
        omega
    · exact hi.grow (.inl rfl) fun k hk =>
        let ⟨hk1, hk2, _⟩ := hi.allocated_spec k hk; ⟨hk1, by omega⟩

/-- A write to the peer array keeps the invariant while that array stays within its bound. -/
theorem Inv.setEntries_peer (hi : Inv side m g) {e : List Word} (he : e.length ≤ 0xf00000 + 1) :
    Inv side (m.setEntries (peerNs side) e) g :=
  ⟨by simp [hi.side_eq], hi.valid, by simpa using hi.freeList_eq, by simpa using hi.threaded,
    hi.nodup, hi.removed_le, fun j hj => by simpa using hi.allocated_spec j hj,
    fun j w hj hj2 hw => hi.spare_zero j w hj hj2 (by simpa using hw), by simpa using he⟩

/-- A slot `insert_at` or `reserve_new` may append lands at the index it writes, unless the count
wrapped; so past `WL_MAP_MAX_OBJECTS` and below `2^32` the array is unchanged. -/
theorem getElem?_grown {e : List Word} {gb : Word} {k j : Nat} {w : Word}
    (hk : k ≤ 0xf00000) (hkL : k = e.length % 2 ^ 32) (hj : 0xf00000 < j) (hj2 : j < 2 ^ 32)
    (hw : (e ++ [gb])[j]? = some w) : e[j]? = some w := by
  rw [List.getElem?_append] at hw
  split_ifs at hw with hjL
  · exact hw
  · obtain ⟨hlt, -⟩ := List.getElem?_eq_some_iff.mp hw
    simp at hlt; omega

theorem Inv.insertAt {f i : BitVec 32} {d : Word} {a : Option Word} {r : Except Errno Unit}
    (hi : Inv side m g) (ha : g.Allows side (.insertAt f i d a))
    (h : wlMapInsertAt m f i d a = (m', r)) :
    Inv side m' (g.record side (.insertAt f i d a) (r.map fun _ => 0#32)) := by
  rcases r with e | u
  · rw [wlMapInsertAt_error h]; simpa using hi
  obtain ⟨hk, e, rfl, he⟩ := wlMapInsertAt_ok h
  have hmap : (Except.ok u : Except Errno Unit).map (fun _ => 0#32) = .ok 0#32 := rfl
  rw [hmap, Ghost.record_insertAt_ok]
  have ha : (resolve i).1 = ownNs side → (resolve i).2.toNat ∉ g.removed := ha
  generalize (resolve i).1 = ns at ha he ⊢
  generalize (resolve i).2.toNat = k at ha hk he ⊢
  have hlen : k < e.length := by
    rcases he with ⟨rfl, hlt⟩ | ⟨gb, -, rfl, hkL⟩ <;> (try simp) <;> omega
  by_cases hns : ns = ownNs side
  · subst hns
    have hkr : k ∉ g.removed := ha rfl
    have hth : Threaded e g.removed := by
      rcases he with ⟨rfl, -⟩ | ⟨gb, -, rfl, -⟩
      · exact hi.threaded
      · exact hi.threaded.append _
    simp only [if_true]
    refine ⟨by simp [hi.side_eq], hi.valid, by simpa using hi.freeList_eq, by simpa using hth.set hkr _,
      hi.nodup, hi.removed_le, ?_, ?_, by simpa using hi.peer_le⟩
    · intro j hj
      rcases update_eq_true_iff.mp hj with ⟨rfl, -⟩ | ⟨-, hj⟩
      · simpa [hk, hlen] using hkr
      · have hj := hi.allocated_spec j hj
        have : (m.entries (ownNs side)).length ≤ e.length := by
          rcases he with ⟨rfl, -⟩ | ⟨gb, -, rfl, -⟩ <;> simp
        exact ⟨hj.1, by simp; omega, hj.2.2⟩
    · intro j w hj hj2 hw
      simp only [WlMap.entries_setEntries, if_true, List.getElem?_set_ne (show k ≠ j by omega)] at hw
      rcases he with ⟨rfl, -⟩ | ⟨gb, -, rfl, hkL⟩
      · exact hi.spare_zero j w hj hj2 hw
      · exact hi.spare_zero j w hj hj2 (getElem?_grown hk hkL hj hj2 hw)
  · rw [if_neg hns]
    rw [eq_peerNs_of_ne_ownNs hns] at he ⊢
    refine hi.setEntries_peer ?_
    have := hi.peer_le
    rcases he with ⟨rfl, -⟩ | ⟨gb, -, rfl, hkL⟩
    · simpa using this
    · simp; omega

theorem Inv.reserveNew {i : BitVec 32} {a : Option Word} {r : Except Errno Unit}
    (hi : Inv side m g) (h : wlMapReserveNew m i a = (m', r)) :
    Inv side m' (g.record side (.reserveNew i a) (r.map fun _ => 0#32)) := by
  rw [Ghost.record_reserveNew]
  rcases r with e | u
  · rwa [wlMapReserveNew_error h]
  obtain ⟨ns, k, hr, hk, ⟨rfl, -⟩ | ⟨gb, -, hkL, rfl⟩⟩ := wlMapReserveNew_ok h
  · exact hi
  · rw [hi.side_eq, resolveFor_reserve hi.valid] at hr
    split_ifs at hr with hns
    rw [Option.some.inj hr] at hns
    have hns : ns ≠ ownNs side := hns
    rw [eq_peerNs_of_ne_ownNs hns] at hkL ⊢
    refine hi.setEntries_peer ?_
    have := hi.peer_le
    simp; omega

/-- **What `wl_map_remove` does in a reachable state**: an own id's slot takes the link heading the
removed stack and `free_list` the link of its index (undefined past the array); a peer id is left
alone. -/
theorem Inv.remove_eq {i : BitVec 32} (hi : Inv side m g) :
    wlMapRemove m i = if (resolve i).1 = ownNs side then
        (if (resolve i).2.toNat < (m.entries (ownNs side)).length then
          some ((m.setEntries (ownNs side) ((m.entries (ownNs side)).set (resolve i).2.toNat
            ((linkOf g.removed).setWidth 64))).setFreeList (linkOf ((resolve i).2.toNat :: g.removed)))
         else none)
      else some m := by
  rw [wlMapRemove_eq, hi.side_eq, resolveFor_remove hi.valid]
  by_cases hown : (resolve i).1 = ownNs side
  · simp only [if_pos hown]
    rw [← hown]
    simp [hi.freeList_eq, linkOf]
  · simp [hown]

theorem Inv.remove {i : BitVec 32} (hi : Inv side m g) (ha : g.Allows side (.remove i))
    (h : wlMapRemove m i = some m') : Inv side m' (g.record side (.remove i) (.ok 0#32)) := by
  have ha : (resolve i).1 = ownNs side → g.allocated (resolve i).2.toNat = true := ha
  rw [hi.remove_eq] at h
  rw [Ghost.record_remove]
  by_cases hown : (resolve i).1 = ownNs side
  · rw [if_pos hown] at h ⊢
    split_ifs at h with hlt
    obtain rfl := Option.some.inj h
    obtain ⟨hk, hkL, hkr⟩ := hi.allocated_spec _ (ha hown)
    generalize (resolve i).2.toNat = k at hk hkL hkr ⊢
    refine ⟨by simp [hi.side_eq], hi.valid, rfl, ?_, List.nodup_cons.mpr ⟨hkr, hi.nodup⟩, ?_, ?_, ?_,
      by simpa using hi.peer_le⟩
    · simpa [hkL] using hi.threaded.set hkr _
    · intro j hj
      rcases List.mem_cons.mp hj with rfl | hj
      · exact hk
      · exact hi.removed_le j hj
    · intro j hj
      rcases update_eq_true_iff.mp hj with ⟨-, hf⟩ | ⟨hjk, hj⟩
      · cases hf
      · have := hi.allocated_spec j hj
        simp [this.1, this.2.1, this.2.2, hjk]
    · intro j w hj hj2 hw
      simp only [WlMap.entries_setFreeList, WlMap.entries_setEntries, if_true,
        List.getElem?_set_ne (show k ≠ j by omega)] at hw
      exact hi.spare_zero j w hj hj2 hw
  · rw [if_neg hown] at h ⊢
    obtain rfl := Option.some.inj h
    exact hi

/-- **One call of a disciplined run keeps the invariant.** -/
theorem Inv.step {c : Call} {o : Outcome} (hi : Inv side m g) (ha : g.Allows side c)
    (h : wlMapCall m c = some (m', o)) : Inv side m' (g.record side c o) := by
  cases c with
  | insertNew f d a => exact hi.insertNew h
  | insertAt f i d a =>
    obtain ⟨rfl, rfl⟩ := Prod.mk.inj (Option.some.inj h)
    exact hi.insertAt ha rfl
  | reserveNew i a =>
    obtain ⟨rfl, rfl⟩ := Prod.mk.inj (Option.some.inj h)
    exact hi.reserveNew rfl
  | remove i =>
    obtain ⟨m'', hm, hr⟩ := Option.map_eq_some'.mp h
    obtain ⟨rfl, rfl⟩ := Prod.mk.inj hr
    exact hi.remove ha hm

/-- **Every state a disciplined run reaches satisfies the invariant.** -/
theorem Tracked.inv (h : Tracked side m g) : Inv side m g := by
  induction h with
  | init hs => exact Inv.init hs
  | step _ ha hc ih => exact ih.step ha hc

/-! ## §5 — free-list integrity -/

end WaylandMap
