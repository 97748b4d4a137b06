/-
# WaylandMap.Allocator — `wl_map_insert_new` as a LIFO allocator of indices.

The abstract allocator is a stack of freed indices and a counter of fresh ones; it hands out the top
of the stack, or the counter when the stack is empty. `abstraction` reads it off a state of a
disciplined run: the stack is the history's removed and not reissued own indices, the counter the
length of the side's own array. Every call of a disciplined run is one step of the allocator
(`tracked_refines_lifo`): `insert_new` hands out the index the allocator predicts, removing an own
id frees its index, and a call that grows the own array without issuing an id (an `insert_at` at
its end, an `insert_new` refused by the bound) uses up a fresh index.

Ids are `uint32_t`, so an issued id is the predicted index plus the side's base modulo `2^32`.
With no removes, a run of `insert_new` alone issues `base, base + 1, ...` and at most
`WL_MAP_MAX_OBJECTS + 1` ids while the own array stays below `2^32` slots; past that the count
wraps and the ids start again at `base` (`insertNew_run_wraps`).
-/
import WaylandMap.Lookup

namespace WaylandMap.Allocator

/-! ## §1 — the abstract allocator -/

/-- A LIFO allocator of indices. -/
structure LifoAlloc where
  /-- Freed indices, most recently freed first. -/
  stack : List Nat
  /-- The next fresh index. -/
  next : Nat
  deriving DecidableEq, Repr

/-- What one step of the allocator does. -/
inductive AllocEvent
  /-- Hand out `peek`. -/
  | issue
  /-- Free an index. -/
  | free (j : Nat)
  /-- Use up a fresh index without handing it out. -/
  | skip
  /-- Nothing. -/
  | stay
  deriving DecidableEq, Repr

namespace LifoAlloc

/-- The index the next `issue` hands out. -/
def peek (s : LifoAlloc) : Nat := s.stack.head?.getD s.next

/-- One step: `issue` pops the stack, or (the stack empty) advances the counter. -/
def step (s : LifoAlloc) : AllocEvent → LifoAlloc
  | .issue =>
    match s.stack with
    | [] => ⟨[], s.next + 1⟩
    | _ :: rest => ⟨rest, s.next⟩
  | .free j => ⟨j :: s.stack, s.next⟩
  | .skip => ⟨s.stack, s.next + 1⟩
  | .stay => s

end LifoAlloc

/-! ## §2 — every call of a disciplined run is a step of it -/

/-- The allocator a state and its history stand for. -/
def abstraction (side : BitVec 32) (m : WlMap) (g : Ghost) : LifoAlloc :=
  ⟨g.removed, (m.entries (ownNs side)).length⟩

/-- The allocator step a call is, read from the call, what it returned and the state it was made
in: `insert_at` grows the array when its index is the (truncated) count. -/
def allocEvent (side : BitVec 32) (m : WlMap) : Call → Outcome → AllocEvent
  | .insertNew .., .ok _ => .issue
  | .insertNew .., .error .enospc => .skip
  | .insertAt _ i _ _, .ok _ =>
    if (resolve i).1 = ownNs side ∧ (resolve i).2.toNat = (m.entries (ownNs side)).length % 2 ^ 32
    then .skip else .stay
  | .remove i, _ => if (resolve i).1 = ownNs side then .free (resolve i).2.toNat else .stay
  | _, _ => .stay

@[simp] theorem abstraction_init (side : BitVec 32) :
    abstraction side (wlMapInit side) Ghost.empty = ⟨[], 0⟩ := by
  simp [abstraction, Ghost.empty]

variable {side : BitVec 32} {m m' : WlMap} {g : Ghost}

/-- **`insert_new` hands out what the allocator predicts**, and the allocator pops. -/
theorem insertNew_lifo {f : BitVec 32} {d : Word} {a : Option Word} {id : BitVec 32}
    (hi : Inv side m g) (h : wlMapInsertNew m f d a = some (m', .ok id)) :
    id = BitVec.ofNat 32 (abstraction side m g).peek + idBase side ∧
    abstraction side m' (g.record side (.insertNew f d a) (.ok id)) =
      (abstraction side m g).step .issue := by
  rcases hi.insertNew_cases h with ⟨j, s, hrem, hid, rfl⟩ | ⟨-, -, -, hid⟩ |
    ⟨gb, hrem, -, ⟨hL, hid, rfl⟩ | ⟨-, hid, -⟩⟩
  · obtain rfl := Except.ok.inj hid
    have hj : j ≤ 0xf00000 := hi.removed_le j (by simp [hrem])
    refine ⟨by simp [abstraction, LifoAlloc.peek, hrem], ?_⟩
    simp [abstraction, LifoAlloc.step, hrem, resolve_issued side hj, Nat.mod_eq_of_lt
      (show j < 4294967296 by omega)]
  · cases hid
  · obtain rfl := Except.ok.inj hid
    exact ⟨by simp [abstraction, LifoAlloc.peek, hrem], by simp [abstraction, LifoAlloc.step, hrem]⟩
  · cases hid

/-- A failing `insert_new` is a `skip` when refused by the bound, and nothing otherwise. -/
theorem insertNew_error_lifo {f : BitVec 32} {d : Word} {a : Option Word} {e : Errno}
    (hi : Inv side m g) (h : wlMapInsertNew m f d a = some (m', .error e)) :
    abstraction side m' (g.record side (.insertNew f d a) (.error e)) =
      (abstraction side m g).step (allocEvent side m (.insertNew f d a) (.error e)) := by
  rcases hi.insertNew_cases h with ⟨_, _, _, hid, _⟩ | ⟨-, -, rfl, hid⟩ |
    ⟨gb, -, -, ⟨-, hid, -⟩ | ⟨-, hid, rfl⟩⟩
  · cases hid
  · cases hid; rfl
  · cases hid
  · cases hid; simp [abstraction, allocEvent, LifoAlloc.step]

theorem insertAt_lifo {f i : BitVec 32} {d : Word} {a : Option Word} {r : Except Errno Unit}
    (h : wlMapInsertAt m f i d a = (m', r)) :
    abstraction side m' (g.record side (.insertAt f i d a) (r.map fun _ => 0#32)) =
      (abstraction side m g).step (allocEvent side m (.insertAt f i d a) (r.map fun _ => 0#32)) := by
  rcases r with e | u
  · obtain rfl := wlMapInsertAt_error h; rfl
  · obtain ⟨-, e, rfl, he⟩ := wlMapInsertAt_ok h
    by_cases hown : (resolve i).1 = ownNs side
    · rcases he with ⟨rfl, hlt⟩ | ⟨gb, -, rfl, hk⟩
      · have hne : (resolve i).2.toNat ≠ (m.entries (ownNs side)).length % 4294967296 := by
          rw [← hown]; omega
        simp [abstraction, allocEvent, LifoAlloc.step, Except.map, hown, hne]
      · simp [abstraction, allocEvent, LifoAlloc.step, Except.map, hown, hk]
    · simp [abstraction, allocEvent, LifoAlloc.step, Except.map, hown, Ne.symm hown]

theorem reserveNew_lifo {i : BitVec 32} {a : Option Word} {r : Except Errno Unit}
    (hi : Inv side m g) (h : wlMapReserveNew m i a = (m', r)) :
    abstraction side m' (g.record side (.reserveNew i a) (r.map fun _ => 0#32)) =
      (abstraction side m g).step (allocEvent side m (.reserveNew i a) (r.map fun _ => 0#32)) := by
  rcases r with e | u
  · obtain rfl := wlMapReserveNew_error h; rfl
  · obtain ⟨ns, k, hr, -, ⟨rfl, -⟩ | ⟨gb, -, -, rfl⟩⟩ := wlMapReserveNew_ok h
    · rfl
    · rw [hi.side_eq, resolveFor_reserve hi.valid] at hr
      split_ifs at hr with hown
      obtain rfl : ns = (resolve i).1 := congrArg Prod.fst (Option.some.inj hr).symm
      simp [abstraction, allocEvent, LifoAlloc.step, Except.map, hown]

theorem remove_lifo {i : BitVec 32} (hi : Inv side m g) (h : wlMapRemove m i = some m') :
    abstraction side m' (g.record side (.remove i) (.ok 0#32)) =
      (abstraction side m g).step (allocEvent side m (.remove i) (.ok 0#32)) := by
  rw [hi.remove_eq] at h
  by_cases hown : (resolve i).1 = ownNs side
  · rw [if_pos hown] at h
    split_ifs at h
    cases h
    simp [abstraction, allocEvent, LifoAlloc.step, hown]
  · rw [if_neg hown] at h
    cases h
    simp [abstraction, allocEvent, LifoAlloc.step, hown]

/-- **The table refines the LIFO allocator.** Every call made in a state of a disciplined run
moves the abstraction by one allocator step, the one `allocEvent` reads off the call. -/
theorem tracked_refines_lifo {c : Call} {o : Outcome} (h : Tracked side m g)
    (hc : wlMapCall m c = some (m', o)) :
    abstraction side m' (g.record side c o) = (abstraction side m g).step (allocEvent side m c o) := by
  have hi := h.inv
  cases c with
  | insertNew f d a =>
    rcases o with e | id
    · exact insertNew_error_lifo hi hc
    · exact (insertNew_lifo hi hc).2
  | insertAt f i d a =>
    rcases hr : wlMapInsertAt m f i d a with ⟨m1, r⟩
    simp only [wlMapCall, hr, Option.some.injEq, Prod.mk.injEq] at hc
    obtain ⟨rfl, rfl⟩ := hc
    exact insertAt_lifo hr
  | reserveNew i a =>
    rcases hr : wlMapReserveNew m i a with ⟨m1, r⟩
    simp only [wlMapCall, hr, Option.some.injEq, Prod.mk.injEq] at hc
    obtain ⟨rfl, rfl⟩ := hc
    exact reserveNew_lifo hi hr
  | remove i =>
    simp only [wlMapCall, Option.map_eq_some', Prod.mk.injEq] at hc
    obtain ⟨m1, hr, rfl, rfl⟩ := hc
    exact remove_lifo hi hr

theorem tracked_refines_lifo_sampleMap :
    Tracked wlMapClientSide sampleMap sampleGhost ∧
    wlMapCall sampleMap (.insertNew 0#32 12#64 (some 0#64)) =
      some (⟨[12#64, 10#64], [], wlMapClientSide, 0#32⟩, .ok 0#32) ∧
    abstraction wlMapClientSide ⟨[12#64, 10#64], [], wlMapClientSide, 0#32⟩
        (sampleGhost.record wlMapClientSide (.insertNew 0#32 12#64 (some 0#64)) (.ok 0#32)) =
      (abstraction wlMapClientSide sampleMap sampleGhost).step
        (allocEvent wlMapClientSide sampleMap (.insertNew 0#32 12#64 (some 0#64)) (.ok 0#32)) :=
  have hc : wlMapCall sampleMap (.insertNew 0#32 12#64 (some 0#64)) =
      some (⟨[12#64, 10#64], [], wlMapClientSide, 0#32⟩, .ok 0#32) := rfl
  ⟨tracked_sampleMap, hc, tracked_refines_lifo tracked_sampleMap hc⟩

/-! ## §3 — runs of `insert_new` alone -/

/-- The ids a run of `insert_new` calls issued, in order: the outcomes that are not failures. -/
def issuedIds (os : List Outcome) : List (BitVec 32) := os.filterMap Except.toOption

@[simp] theorem issuedIds_nil : issuedIds [] = [] := rfl

@[simp] theorem issuedIds_cons_ok (id : BitVec 32) (os : List Outcome) :
    issuedIds (.ok id :: os) = id :: issuedIds os := rfl

@[simp] theorem issuedIds_cons_error (e : Errno) (os : List Outcome) :
    issuedIds (.error e :: os) = issuedIds os := rfl

@[simp] theorem issuedIds_append (os os' : List Outcome) :
    issuedIds (os ++ os') = issuedIds os ++ issuedIds os' := List.filterMap_append _ _ _

/-- The calls of a run of `insert_new` alone. -/
def insertNewCalls (cs : List (BitVec 32 × Word × Option Word)) : List Call :=
  cs.map fun c => .insertNew c.1 c.2.1 c.2.2

/-- With an empty free list, `insert_new` refuses (the allocator did), issues the count and grows
the array, or is refused by the bound and grows it; the free list stays empty. -/
theorem insertNew_of_freeList_zero_cases {f : BitVec 32} {d : Word} {a : Option Word} {o : Outcome}
    (hz : m.freeList = 0#32) (h : wlMapInsertNew m f d a = some (m', o)) :
    m'.side = m.side ∧ m'.freeList = 0#32 ∧
    ((o = .error .enomem ∧ (m'.entries (ownNs m.side)).length = (m.entries (ownNs m.side)).length) ∨
     ((m.entries (ownNs m.side)).length % 2 ^ 32 ≤ 0xf00000 ∧
        o = .ok (BitVec.ofNat 32 (m.entries (ownNs m.side)).length + idBase m.side) ∧
        (m'.entries (ownNs m.side)).length = (m.entries (ownNs m.side)).length + 1) ∨
     (0xf00000 < (m.entries (ownNs m.side)).length % 2 ^ 32 ∧ o = .error .enospc ∧
        (m'.entries (ownNs m.side)).length = (m.entries (ownNs m.side)).length + 1)) := by
  rcases wlMapInsertNew_eq_some h with ⟨_, hne, -⟩ | ⟨-, -, hr⟩ | ⟨gb, -, -, hr⟩
  · exact absurd hz hne
  · cases hr; exact ⟨rfl, hz, .inl ⟨rfl, rfl⟩⟩
  · by_cases hL : (m.entries (ownNs m.side)).length % 2 ^ 32 ≤ 0xf00000
    · rw [storeNew_of_le f d hL] at hr
      cases hr
      exact ⟨by simp, by simpa using hz, .inr (.inl ⟨hL, by simp, by simp⟩)⟩
    · rw [storeNew_of_lt f d (by omega)] at hr
      cases hr
      exact ⟨by simp, by simpa using hz, .inr (.inr ⟨by omega, rfl, by simp⟩)⟩

/-- A run of `insert_new` alone from an empty free list, ending below `2^32` own slots, issues
consecutive ids from the count it starts at, at most up to index `WL_MAP_MAX_OBJECTS`. -/
theorem issuedIds_replicate_error (p : Nat) (e : Errno) :
    issuedIds (List.replicate p (.error e)) = [] := by
  induction p with
  | zero => rfl
  | succ p ih => rw [List.replicate_succ, issuedIds_cons_error, ih]

theorem issuedIds_map_ok {α : Type} (l : List α) (f : α → BitVec 32) :
    issuedIds (l.map fun x => .ok (f x)) = l.map f := by
  induction l with
  | nil => rfl
  | cons x l ih => rw [List.map_cons, issuedIds_cons_ok, ih, List.map_cons]

theorem insertNew_run_consecutive (cs : List (BitVec 32 × Word × Option Word)) :
    ∀ {m m' : WlMap} {os : List Outcome}, m.freeList = 0#32 →
      wlMapRun m (insertNewCalls cs) = some (m', os) →
      (m'.entries (ownNs m.side)).length < 2 ^ 32 →
      (m.entries (ownNs m.side)).length ≤ (m'.entries (ownNs m.side)).length ∧
      issuedIds os = (List.range (issuedIds os).length).map
        (fun k => BitVec.ofNat 32 ((m.entries (ownNs m.side)).length + k) + idBase m.side) ∧
      (issuedIds os ≠ [] →
        (m.entries (ownNs m.side)).length + (issuedIds os).length ≤ 0xf00000 + 1) := by
  induction cs with
  | nil =>
    intro m m' os _ hr _
    cases hr
    simp
  | cons c cs ih =>
    intro m m' os hz hr hlen
    rcases hc : wlMapInsertNew m c.1 c.2.1 c.2.2 with _ | ⟨m1, o⟩
    · simp [insertNewCalls, wlMapRun, hc] at hr
    · rw [insertNewCalls, List.map_cons, wlMapRun_cons_of_call ((wlMapCall_insertNew _ _ _ _).trans hc),
        Option.map_eq_some'] at hr
      obtain ⟨⟨m2, os2⟩, hr, he⟩ := hr
      cases he
      dsimp only at hlen ⊢
      obtain ⟨hside, hz1, hcase⟩ := insertNew_of_freeList_zero_cases hz hc
      rw [← hside] at hlen hcase ⊢
      obtain ⟨hle, hids, hbound⟩ := ih hz1 hr hlen
      generalize (m1.entries (ownNs m1.side)).length = L1 at *
      generalize (m.entries (ownNs m1.side)).length = L at *
      rcases hcase with ⟨rfl, rfl⟩ | ⟨hL, rfl, rfl⟩ | ⟨hL, rfl, rfl⟩ <;>
        simp only [issuedIds_cons_ok, issuedIds_cons_error] <;>
        generalize issuedIds os2 = ids at *
      · exact ⟨hle, hids, hbound⟩
      · rw [Nat.mod_eq_of_lt (by omega)] at hL
        refine ⟨by omega, ?_, fun _ => ?_⟩
        · rw [List.length_cons, List.range_succ_eq_map, List.map_cons, List.map_map]
          conv_lhs => rw [hids]
          simp only [Nat.add_zero, Function.comp_def, Nat.succ_eq_add_one, ← Nat.add_assoc,
            Nat.add_right_comm L 1]
        · rcases ids with _ | ⟨_, _⟩
          · simp; omega
          · have := hbound (List.cons_ne_nil _ _); simp at this ⊢; omega
      · rw [Nat.mod_eq_of_lt (by omega)] at hL
        obtain rfl : ids = [] := by
          by_contra hne; have := hbound hne; omega
        simp; omega

/-! ## §4 — the allocation law -/

/-- **Allocation order.** In every state of a disciplined run, a successful `insert_new` returns
`base + t` in `uint32_t` arithmetic, where `t` is the most recently removed own index not reissued
since, or the length of the side's own array when there is none; the allocator then pops. In
particular a run of `insert_new` alone from `wl_map_init`, ending with fewer than `2^32` own slots,
issues `base, base + 1, base + 2, ...`. -/
theorem lifo_allocation {side : BitVec 32} {m : WlMap} {g : Ghost} (h : Tracked side m g) :
    (∀ (f : BitVec 32) (d : Word) (a : Option Word) (m' : WlMap) (id : BitVec 32),
      wlMapInsertNew m f d a = some (m', .ok id) →
      id = BitVec.ofNat 32 (g.removed.head?.getD (m.entries (ownNs side)).length) + idBase side ∧
      abstraction side m' (g.record side (.insertNew f d a) (.ok id)) =
        (abstraction side m g).step .issue) ∧
    (∀ (cs : List (BitVec 32 × Word × Option Word)) (m' : WlMap) (os : List Outcome),
      wlMapRun (wlMapInit side) (insertNewCalls cs) = some (m', os) →
      (m'.entries (ownNs side)).length < 2 ^ 32 →
      issuedIds os = (List.range (issuedIds os).length).map fun k => BitVec.ofNat 32 k + idBase side) :=
  ⟨fun _ _ _ _ _ hc => insertNew_lifo h.inv hc, fun cs _ _ hr hlen => by
    simpa using (insertNew_run_consecutive cs rfl hr hlen).2.1⟩

theorem lifo_allocation_sampleMap :
    Tracked wlMapClientSide sampleMap sampleGhost ∧
    (∀ (f : BitVec 32) (d : Word) (a : Option Word) (m' : WlMap) (id : BitVec 32),
      wlMapInsertNew sampleMap f d a = some (m', .ok id) →
      id = BitVec.ofNat 32 (sampleGhost.removed.head?.getD
        (sampleMap.entries (ownNs wlMapClientSide)).length) + idBase wlMapClientSide ∧
      abstraction wlMapClientSide m' (sampleGhost.record wlMapClientSide (.insertNew f d a) (.ok id)) =
        (abstraction wlMapClientSide sampleMap sampleGhost).step .issue) ∧
    (∀ (cs : List (BitVec 32 × Word × Option Word)) (m' : WlMap) (os : List Outcome),
      wlMapRun (wlMapInit wlMapClientSide) (insertNewCalls cs) = some (m', os) →
      (m'.entries (ownNs wlMapClientSide)).length < 2 ^ 32 →
      issuedIds os = (List.range (issuedIds os).length).map
        fun k => BitVec.ofNat 32 k + idBase wlMapClientSide) :=
  ⟨tracked_sampleMap, lifo_allocation tracked_sampleMap⟩

open Capacity (filledMap wlMapInsertNew_filledMap wlMapInsertNew_overfilledMap)

/-- The run of `k + n ≤ WL_MAP_MAX_OBJECTS + 1` successful `insert_new(0, 4)`s, from `k` bound. -/
theorem run_filledMap (k n : Nat) (h : k + n ≤ 0xf00000 + 1) :
    wlMapRun (filledMap k 0) (List.replicate n (.insertNew 0#32 4#64 (some 0#64))) =
      some (filledMap (k + n) 0, (List.range n).map fun j => .ok (BitVec.ofNat 32 (k + j))) := by
  induction n generalizing k with
  | zero => rfl
  | succ n ih =>
    rw [List.replicate_succ, wlMapRun_cons_of_call ((wlMapCall_insertNew _ _ _ _).trans
      (wlMapInsertNew_filledMap (by omega))), ih (k + 1) (by omega), List.range_succ_eq_map]
    simp only [Option.map_some', List.map_cons, List.map_map, Nat.add_zero, Function.comp_def,
      Nat.succ_eq_add_one, ← Nat.add_assoc, Nat.add_right_comm k 1]

/-- The run of `p` refused `insert_new(0, 4)`s past the bound. -/
theorem run_overfilledMap (k n p : Nat) (hk : 0xf00000 < k + n) (hp : k + n + p ≤ 2 ^ 32) :
    wlMapRun (filledMap k n) (List.replicate p (.insertNew 0#32 4#64 (some 0#64))) =
      some (filledMap k (n + p), List.replicate p (.error .enospc)) := by
  induction p generalizing n with
  | zero => rfl
  | succ p ih =>
    rw [List.replicate_succ, wlMapRun_cons_of_call ((wlMapCall_insertNew _ _ _ _).trans
      (wlMapInsertNew_overfilledMap k n (by omega) (by omega))), ih (n + 1) (by omega) (by omega)]
    simp only [Option.map_some', List.replicate_succ, Nat.add_right_comm n 1, ← Nat.add_assoc]

/-- **Past `2^32` slots the ids start again.** `wl_map_insert_new` alone on a fresh client table
issues `0, 1, ..., WL_MAP_MAX_OBJECTS`, is then refused until the array holds `2^32` slots, and
then issues `0` again. -/
theorem insertNew_run_wraps :
    ∃ m' os, wlMapRun (wlMapInit wlMapClientSide)
        (List.replicate (2 ^ 32) (.insertNew 0#32 4#64 (some 0#64)) ++
          [.insertNew 0#32 8#64 (some 0#64)]) = some (m', os) ∧
      issuedIds os = (List.range (0xf00000 + 1)).map (BitVec.ofNat 32) ++ [0#32] := by
  obtain ⟨m', hc, -⟩ := @Lookup.insertNew_filledMap_wraps (0xf00000 + 1) (2 ^ 32 - (0xf00000 + 1))
    (by omega) (by omega)
  have hsplit : List.replicate (2 ^ 32) (Call.insertNew 0#32 4#64 (some 0#64)) =
      List.replicate (0xf00000 + 1) (.insertNew 0#32 4#64 (some 0#64)) ++
        List.replicate (2 ^ 32 - (0xf00000 + 1)) (.insertNew 0#32 4#64 (some 0#64)) := by
    rw [← List.replicate_add]; congr 1
  refine ⟨m', (List.range (0xf00000 + 1)).map (fun j => .ok (BitVec.ofNat 32 (0 + j))) ++
    (List.replicate (2 ^ 32 - (0xf00000 + 1)) (.error .enospc) ++ [.ok 0#32]), ?_, ?_⟩
  · rw [hsplit, List.append_assoc, wlMapRun_append, show wlMapInit wlMapClientSide = filledMap 0 0 from rfl,
      run_filledMap 0 _ (by omega), Option.some_bind, wlMapRun_append,
      run_overfilledMap _ 0 _ (by omega) (by omega), Option.some_bind]
    simp only [Nat.zero_add]
    rw [wlMapRun_cons_of_call ((wlMapCall_insertNew _ _ _ _).trans hc)]
    rfl
  · simp only [issuedIds_append, issuedIds_map_ok, issuedIds_replicate_error, issuedIds_cons_ok,
      issuedIds_nil, Nat.zero_add, List.nil_append]

end WaylandMap.Allocator
