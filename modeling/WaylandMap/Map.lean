/-
# WaylandMap.Map — `libwayland-map.c` as Lean functions.

Each `def` below translates one function of `libwayland-map.c` (or one block every function of a
family shares) and keeps its control flow: the id resolution against `WL_SERVER_ID_START`, the
capacity check against `WL_MAP_MAX_OBJECTS`, the `uint32_t count` the array size is stored in
(`slotCount`, truncated modulo `2^32`), and the order in which `wl_map_insert_new` takes a slot
before it checks the bound. Two pieces `libwayland-map.c` uses are declared in `libwayland-base.h`
and `libwayland-util`, which are not in the repository: `struct wl_map` and `wl_array_add`. They are
modelled from the spec and say so.

C's undefined behaviour is explicit: `wl_map_insert_new` and `wl_map_remove` index the array with
an index they never check (the popped `free_list >> 1`, the caller's id), and return `none` when it
is outside. `wl_map_insert_at`, `wl_map_reserve_new`, the lookups and the iterator never index
outside (they compare with the count first), so they are total.
-/
import WaylandMap.Word

namespace WaylandMap

/-! ## §1 — the table -/

/-- Modelled from the spec: `struct wl_map` is declared in `libwayland-base.h`, not in the
repository. Its fields are the ones `libwayland-map.c` reads: the two arrays (a `struct wl_array`
by its `size / sizeof(union map_entry)` slots), the side, and the `free_list` head, a 32-bit value
like every id of the spec's data model. -/
structure WlMap where
  clientEntries : List Word
  serverEntries : List Word
  side : BitVec 32
  freeList : BitVec 32
  deriving DecidableEq, Repr

/-- The two arrays an id or a side selects. -/
inductive Ns
  | client
  | server
  deriving DecidableEq, Repr

namespace WlMap

/-- The array `ns` names. -/
def entries (m : WlMap) : Ns → List Word
  | .client => m.clientEntries
  | .server => m.serverEntries

/-- The table with array `ns` replaced. -/
def setEntries (m : WlMap) : Ns → List Word → WlMap
  | .client, e => { m with clientEntries := e }
  | .server, e => { m with serverEntries := e }

/-- The table with `free_list` replaced. -/
def setFreeList (m : WlMap) (fl : BitVec 32) : WlMap := { m with freeList := fl }

@[simp] theorem entries_setFreeList (m : WlMap) (fl : BitVec 32) (ns : Ns) :
    (m.setFreeList fl).entries ns = m.entries ns := by cases ns <;> rfl

@[simp] theorem side_setFreeList (m : WlMap) (fl : BitVec 32) : (m.setFreeList fl).side = m.side :=
  rfl

@[simp] theorem freeList_setFreeList (m : WlMap) (fl : BitVec 32) :
    (m.setFreeList fl).freeList = fl := rfl

@[simp] theorem entries_setEntries (m : WlMap) (ns ns' : Ns) (e : List Word) :
    (m.setEntries ns e).entries ns' = if ns = ns' then e else m.entries ns' := by
  cases ns <;> cases ns' <;> rfl

@[simp] theorem side_setEntries (m : WlMap) (ns : Ns) (e : List Word) :
    (m.setEntries ns e).side = m.side := by cases ns <;> rfl

@[simp] theorem freeList_setEntries (m : WlMap) (ns : Ns) (e : List Word) :
    (m.setEntries ns e).freeList = m.freeList := by cases ns <;> rfl

@[simp] theorem setEntries_self (m : WlMap) (ns : Ns) : m.setEntries ns (m.entries ns) = m := by
  cases ns <;> rfl

@[simp] theorem setEntries_setEntries (m : WlMap) (ns : Ns) (e e' : List Word) :
    (m.setEntries ns e).setEntries ns e' = m.setEntries ns e' := by cases ns <;> rfl

theorem setEntries_comm (m : WlMap) {ns ns' : Ns} (h : ns ≠ ns') (e e' : List Word) :
    (m.setEntries ns e).setEntries ns' e' = (m.setEntries ns' e').setEntries ns e := by
  cases ns <;> cases ns' <;> first | rfl | exact absurd rfl h

theorem setFreeList_setEntries (m : WlMap) (ns : Ns) (e : List Word) (fl : BitVec 32) :
    (m.setEntries ns e).setFreeList fl = (m.setFreeList fl).setEntries ns e := by cases ns <;> rfl

end WlMap

/-- The `errno` a failing call leaves. -/
inductive Errno
  /-- `ENOSPC`: the index is beyond `WL_MAP_MAX_OBJECTS`. -/
  | enospc
  /-- `EINVAL`: the id skips ahead of the array, or names a namespace or slot the call may not take. -/
  | einval
  /-- `wl_array_add` returned NULL; the `errno` is the allocator's. -/
  | enomem
  deriving DecidableEq, Repr

/-- Modelled from the spec: `wl_array_add(entries, sizeof(union map_entry))`, from `libwayland-util`
(not in the repository). `alloc` is the allocator's answer: `none` when it refuses (NULL, the array
unchanged), `some g` when it grants one more slot, whose uninitialised contents are `g`. -/
def wlArrayAdd (e : List Word) (alloc : Option Word) : Option (List Word) :=
  alloc.map fun g => e ++ [g]

@[simp] theorem wlArrayAdd_none (e : List Word) : wlArrayAdd e none = none := rfl

@[simp] theorem wlArrayAdd_some (e : List Word) (g : Word) : wlArrayAdd e (some g) = some (e ++ [g]) :=
  rfl

/-- `count = entries->size / sizeof *start` with `count` a `uint32_t`. -/
def slotCount (e : List Word) : BitVec 32 := BitVec.ofNat 32 e.length

/-- `wl_map_init`: the `memset` to zero, then the side. -/
def wlMapInit (side : BitVec 32) : WlMap := ⟨[], [], side, 0#32⟩

@[simp] theorem side_wlMapInit (side : BitVec 32) : (wlMapInit side).side = side := rfl

@[simp] theorem freeList_wlMapInit (side : BitVec 32) : (wlMapInit side).freeList = 0#32 := rfl

/-! ## §2 — id resolution -/

/-- The resolution `wl_map_insert_at` and the lookups open with. -/
def resolve (i : BitVec 32) : Ns × BitVec 32 :=
  if i < wlServerIdStart then (.client, i) else (.server, i - wlServerIdStart)

/-- The side-checked resolution `wl_map_reserve_new` and `wl_map_remove` open with: the call gives
up on a low id when the side is `lowRefused`, on a high id when it is `highRefused`. -/
def resolveFor (side lowRefused highRefused i : BitVec 32) : Option (Ns × BitVec 32) :=
  if i < wlServerIdStart then
    if side = lowRefused then none else some (.client, i)
  else
    if side = highRefused then none else some (.server, i - wlServerIdStart)

/-- The array `wl_map_insert_new` allocates from. -/
def ownNs (side : BitVec 32) : Ns := if side = wlMapClientSide then .client else .server

/-- The `base` `wl_map_insert_new` adds to the index. -/
def idBase (side : BitVec 32) : BitVec 32 := if side = wlMapClientSide then 0#32 else wlServerIdStart

@[simp] theorem ownNs_client : ownNs wlMapClientSide = .client := rfl

@[simp] theorem ownNs_server : ownNs wlMapServerSide = .server := rfl

@[simp] theorem idBase_client : idBase wlMapClientSide = 0#32 := rfl

@[simp] theorem idBase_server : idBase wlMapServerSide = wlServerIdStart := rfl

/-! ## §3 — the mutators -/

/-- The tail of `wl_map_insert_new` once `entry` is slot `idx` of array `ns`: `count = entry - start`
in a `uint32_t`, the capacity check (which NULLs the slot it refuses), and the store. -/
def storeNew (map : WlMap) (ns : Ns) (idx : Nat) (flags : BitVec 32) (data : Word) :
    WlMap × Except Errno (BitVec 32) :=
  let count := BitVec.ofNat 32 idx
  if wlMapMaxObjects < count then
    (map.setEntries ns ((map.entries ns).set idx 0#64), .error .enospc)
  else
    (map.setEntries ns ((map.entries ns).set idx (packEntry data flags)),
      .ok (count + idBase map.side))

/-- `wl_map_insert_new`: pop the free list if it is non-empty, else grow the side's array, then
`storeNew`. `none` when the popped index is outside the array. -/
def wlMapInsertNew (map : WlMap) (flags : BitVec 32) (data : Word) (alloc : Option Word) :
    Option (WlMap × Except Errno (BitVec 32)) :=
  let ns := ownNs map.side
  if map.freeList ≠ 0#32 then
    let idx := (map.freeList >>> 1).toNat
    match (map.entries ns)[idx]? with
    | none => none
    | some next => some (storeNew (map.setFreeList (next.setWidth 32)) ns idx flags data)
  else
    match wlArrayAdd (map.entries ns) alloc with
    | none => some (map, .error .enomem)
    | some e => some (storeNew (map.setEntries ns e) ns (map.entries ns).length flags data)

/-- `wl_map_insert_at`. -/
def wlMapInsertAt (map : WlMap) (flags i : BitVec 32) (data : Word) (alloc : Option Word) :
    WlMap × Except Errno Unit :=
  let (ns, i) := resolve i
  if wlMapMaxObjects < i then (map, .error .enospc)
  else if slotCount (map.entries ns) < i then (map, .error .einval)
  else
    let grown := if slotCount (map.entries ns) = i then wlArrayAdd (map.entries ns) alloc
      else some (map.entries ns)
    match grown with
    | none => (map, .error .enomem)
    | some e => (map.setEntries ns (e.set i.toNat (packEntry data flags)), .ok ())

/-- `wl_map_reserve_new`: only into the other side's namespace, only at a NULL slot or one past
the end. -/
def wlMapReserveNew (map : WlMap) (i : BitVec 32) (alloc : Option Word) :
    WlMap × Except Errno Unit :=
  match resolveFor map.side wlMapClientSide wlMapServerSide i with
  | none => (map, .error .einval)
  | some (ns, i) =>
    if wlMapMaxObjects < i then (map, .error .enospc)
    else if slotCount (map.entries ns) < i then (map, .error .einval)
    else if slotCount (map.entries ns) = i then
      match wlArrayAdd (map.entries ns) alloc with
      | none => (map, .error .enomem)
      | some e => (map.setEntries ns (e.set i.toNat 0#64), .ok ())
    else if (map.entries ns).getD i.toNat 0#64 ≠ 0#64 then (map, .error .einval)
    else (map, .ok ())

/-- `wl_map_remove`: a no-op outside the side's own namespace; otherwise the slot takes the old
head and `free_list` the new link. `none` when the index is outside the array. -/
def wlMapRemove (map : WlMap) (i : BitVec 32) : Option WlMap :=
  match resolveFor map.side wlMapServerSide wlMapClientSide i with
  | none => some map
  | some (ns, i) =>
    if i.toNat < (map.entries ns).length then
      some ((map.setEntries ns ((map.entries ns).set i.toNat (map.freeList.setWidth 64))).setFreeList
        (freeLink i))
    else none

/-! ## §4 — the readers -/

/-- The body `wl_map_lookup` and `wl_map_lookup_flags` share: resolve, compare with the truncated
count, skip a free slot, unpack with `get`; 0 (NULL) otherwise. -/
def lookupWith (get : Word → Word) (map : WlMap) (i : BitVec 32) : Word :=
  let (ns, i) := resolve i
  let entry := (map.entries ns).getD i.toNat 0#64
  if i < slotCount (map.entries ns) ∧ mapEntryIsFree entry = false then get entry else 0#64

/-- `wl_map_lookup`. -/
def wlMapLookup (map : WlMap) (i : BitVec 32) : Word := lookupWith mapEntryGetData map i

/-- `wl_map_lookup_flags`: the flag word returned as a `uint32_t`. -/
def wlMapLookupFlags (map : WlMap) (i : BitVec 32) : BitVec 32 :=
  (lookupWith mapEntryGetFlags map i).setWidth 32

/-- Modelled from the spec: `enum wl_iterator_result`, declared in `libwayland-base.h`. -/
inductive WlIteratorResult
  | wlIteratorStop
  | wlIteratorContinue
  deriving DecidableEq, Repr

open WlIteratorResult

/-- `for_each_helper` with a visitor `func` whose `data` argument is its own state `σ`: every slot
whose raw word is non-zero and not free is visited, until a visit answers other than continue. -/
def forEachHelper {σ : Type} (func : σ → Word → BitVec 32 → σ × WlIteratorResult) :
    List Word → σ → σ × WlIteratorResult
  | [], s => (s, wlIteratorContinue)
  | entry :: rest, s =>
    if entry ≠ 0#64 ∧ mapEntryIsFree entry = false then
      let (s, ret) := func s (mapEntryGetData entry) ((mapEntryGetFlags entry).setWidth 32)
      if ret ≠ wlIteratorContinue then (s, ret) else forEachHelper func rest s
    else forEachHelper func rest s

/-- `wl_map_for_each`: the client array, then the server array if nothing stopped. -/
def wlMapForEach {σ : Type} (map : WlMap) (func : σ → Word → BitVec 32 → σ × WlIteratorResult)
    (s : σ) : σ :=
  let (s, ret) := forEachHelper func map.clientEntries s
  if ret = wlIteratorContinue then (forEachHelper func map.serverEntries s).1 else s

end WaylandMap

namespace WaylandMap

/-! ## §5 — one spec lemma per mutator

Later modules read the mutators only through these: what a call can do, guards included. -/

theorem slotCount_toNat (e : List Word) : (slotCount e).toNat = e.length % 2 ^ 32 := by
  simp [slotCount]

theorem storeNew_of_le {map : WlMap} {ns : Ns} {idx : Nat} (f : BitVec 32) (d : Word)
    (h : idx % 2 ^ 32 ≤ 0xf00000) :
    storeNew map ns idx f d = (map.setEntries ns ((map.entries ns).set idx (packEntry d f)),
      .ok (BitVec.ofNat 32 idx + idBase map.side)) := by
  rw [storeNew, if_neg (by simp only [BitVec.lt_def, BitVec.toNat_ofNat]; simp; omega)]

theorem storeNew_of_lt {map : WlMap} {ns : Ns} {idx : Nat} (f : BitVec 32) (d : Word)
    (h : 0xf00000 < idx % 2 ^ 32) :
    storeNew map ns idx f d = (map.setEntries ns ((map.entries ns).set idx 0#64), .error .enospc) := by
  rw [storeNew, if_pos (by simp only [BitVec.lt_def, BitVec.toNat_ofNat]; simpa using h)]

/-- `storeNew` writes slot `idx` of array `ns` and nothing else. -/
theorem storeNew_fst (map : WlMap) (ns : Ns) (idx : Nat) (f : BitVec 32) (d : Word) :
    ∃ w, (storeNew map ns idx f d).1 = map.setEntries ns ((map.entries ns).set idx w) := by
  unfold storeNew; dsimp only; split_ifs <;> exact ⟨_, rfl⟩

@[simp] theorem storeNew_side (map : WlMap) (ns : Ns) (idx : Nat) (f : BitVec 32) (d : Word) :
    (storeNew map ns idx f d).1.side = map.side := by
  unfold storeNew; dsimp only; split_ifs <;> simp

/-- `storeNew` succeeds only for an index within the bound, and issues it plus the side's base. -/
theorem storeNew_ok {map m' : WlMap} {ns : Ns} {idx : Nat} {f : BitVec 32} {d : Word}
    {id : BitVec 32} (h : storeNew map ns idx f d = (m', .ok id)) :
    idx % 2 ^ 32 ≤ 0xf00000 ∧ id = BitVec.ofNat 32 idx + idBase map.side := by
  by_cases hidx : idx % 2 ^ 32 ≤ 0xf00000
  · rw [storeNew_of_le f d hidx] at h
    exact ⟨hidx, (Except.ok.inj (Prod.mk.inj h).2).symm⟩
  · rw [storeNew_of_lt f d (by omega)] at h
    cases (Prod.mk.inj h).2

/-- **What `wl_map_insert_new` can do**: pop a link and store, refuse to grow, or grow and store. -/
theorem wlMapInsertNew_eq_some {m : WlMap} {f : BitVec 32} {d : Word} {a : Option Word}
    {r : WlMap × Except Errno (BitVec 32)} (h : wlMapInsertNew m f d a = some r) :
    (∃ next, m.freeList ≠ 0#32 ∧
        (m.entries (ownNs m.side))[(m.freeList >>> 1).toNat]? = some next ∧
        r = storeNew (m.setFreeList (next.setWidth 32)) (ownNs m.side)
          (m.freeList >>> 1).toNat f d) ∨
      (m.freeList = 0#32 ∧ a = none ∧ r = (m, .error .enomem)) ∨
      (∃ g, m.freeList = 0#32 ∧ a = some g ∧
        r = storeNew (m.setEntries (ownNs m.side) (m.entries (ownNs m.side) ++ [g])) (ownNs m.side)
          (m.entries (ownNs m.side)).length f d) := by
  unfold wlMapInsertNew at h
  dsimp only at h
  split_ifs at h with hfl
  · split at h
    · cases h
    · exact .inl ⟨_, hfl, ‹_›, (Option.some.inj h).symm⟩
  · have hfl : m.freeList = 0#32 := not_not.mp hfl
    cases a <;> simp only [wlArrayAdd_none, wlArrayAdd_some, Option.some.injEq] at h
    · exact .inr (.inl ⟨hfl, rfl, h.symm⟩)
    · exact .inr (.inr ⟨_, hfl, rfl, h.symm⟩)

/-- With an empty free list, `wl_map_insert_new` grows the side's array and stores at its end. -/
theorem wlMapInsertNew_of_freeList_zero {m : WlMap} (hz : m.freeList = 0#32) (f : BitVec 32)
    (d g : Word) :
    wlMapInsertNew m f d (some g) =
      some (storeNew (m.setEntries (ownNs m.side) (m.entries (ownNs m.side) ++ [g])) (ownNs m.side)
        (m.entries (ownNs m.side)).length f d) := by
  simp [wlMapInsertNew, hz]

/-- A failing `wl_map_insert_at` leaves the table as it was. -/
theorem wlMapInsertAt_error {m m' : WlMap} {f i : BitVec 32} {d : Word} {a : Option Word}
    {e : Errno} (h : wlMapInsertAt m f i d a = (m', .error e)) : m' = m := by
  unfold wlMapInsertAt at h
  obtain ⟨ns, k⟩ := resolve i
  dsimp only at h
  split_ifs at h <;> (try split at h) <;> simp_all

/-- **What a successful `wl_map_insert_at` does**: with `(ns, k)` the resolved id, `k` is within
the bound, and slot `k` of the array (grown by one slot when `k` equals the count) takes the
packed reference. -/
theorem wlMapInsertAt_ok {m m' : WlMap} {f i : BitVec 32} {d : Word} {a : Option Word} {u : Unit}
    (h : wlMapInsertAt m f i d a = (m', .ok u)) :
    (resolve i).2.toNat ≤ 0xf00000 ∧ ∃ e, m' = m.setEntries (resolve i).1
        (e.set (resolve i).2.toNat (packEntry d f)) ∧
      ((e = m.entries (resolve i).1 ∧ (resolve i).2.toNat < (m.entries (resolve i).1).length % 2 ^ 32) ∨
       (∃ g, a = some g ∧ e = m.entries (resolve i).1 ++ [g] ∧
         (resolve i).2.toNat = (m.entries (resolve i).1).length % 2 ^ 32)) := by
  unfold wlMapInsertAt at h
  generalize resolve i = r at h ⊢
  obtain ⟨ns, k⟩ := r
  simp only [BitVec.lt_def, wlMapMaxObjects_toNat, slotCount_toNat, BitVec.toNat_eq] at h ⊢
  split_ifs at h with h1 h2 h3
  · cases h
  · cases h
  · cases a <;> simp only [wlArrayAdd_none, wlArrayAdd_some, Prod.mk.injEq, reduceCtorEq,
      and_false] at h
    exact ⟨by omega, _, h.1.symm, .inr ⟨_, rfl, rfl, by omega⟩⟩
  · exact ⟨by omega, _, (Prod.mk.inj h).1.symm, .inl ⟨rfl, by omega⟩⟩

/-- A failing `wl_map_reserve_new` leaves the table as it was. -/
theorem wlMapReserveNew_error {m m' : WlMap} {i : BitVec 32} {a : Option Word} {e : Errno}
    (h : wlMapReserveNew m i a = (m', .error e)) : m' = m := by
  unfold wlMapReserveNew at h
  split at h
  · simp_all
  · split_ifs at h <;> (try split at h) <;> simp_all

/-- **What a successful `wl_map_reserve_new` does**: the side check passed with `(ns, k)`, `k` is
within the bound, and either slot `k` already holds the word 0, or the array grows by one slot
and slot `k` is set to 0. -/
theorem wlMapReserveNew_ok {m m' : WlMap} {i : BitVec 32} {a : Option Word} {u : Unit}
    (h : wlMapReserveNew m i a = (m', .ok u)) :
    ∃ ns k, resolveFor m.side wlMapClientSide wlMapServerSide i = some (ns, k) ∧
      k.toNat ≤ 0xf00000 ∧
      ((m' = m ∧ k.toNat < (m.entries ns).length % 2 ^ 32 ∧ (m.entries ns).getD k.toNat 0#64 = 0#64) ∨
       (∃ g, a = some g ∧ k.toNat = (m.entries ns).length % 2 ^ 32 ∧
         m' = m.setEntries ns ((m.entries ns ++ [g]).set k.toNat 0#64))) := by
  unfold wlMapReserveNew at h
  split at h
  · simp at h
  · rename_i ns k hr
    refine ⟨ns, k, hr, ?_⟩
    simp only [BitVec.lt_def, wlMapMaxObjects_toNat, slotCount_toNat, BitVec.toNat_eq] at h
    split_ifs at h with h1 h2 h3 h4 <;> (try cases a) <;> simp_all <;> omega

/-- Below the count and within the bound, `wl_map_insert_at` rebinds the slot in place. -/
theorem wlMapInsertAt_of_lt {m : WlMap} {f i : BitVec 32} {d : Word} (a : Option Word)
    (hk : (resolve i).2.toNat ≤ 0xf00000)
    (hlt : (resolve i).2.toNat < (m.entries (resolve i).1).length % 2 ^ 32) :
    wlMapInsertAt m f i d a = (m.setEntries (resolve i).1
      ((m.entries (resolve i).1).set (resolve i).2.toNat (packEntry d f)), .ok ()) := by
  unfold wlMapInsertAt
  generalize resolve i = r at hk hlt ⊢
  obtain ⟨ns, k⟩ := r
  simp only [BitVec.lt_def, wlMapMaxObjects_toNat, slotCount_toNat, BitVec.toNat_eq] at hk hlt ⊢
  rw [if_neg (by omega), if_neg (by omega), if_neg (by omega)]

/-- Below the count and within the bound, `wl_map_reserve_new` accepts a slot holding 0 and
changes nothing. -/
theorem wlMapReserveNew_of_zero {m : WlMap} {i : BitVec 32} {ns : Ns} {k : BitVec 32}
    (a : Option Word) (hr : resolveFor m.side wlMapClientSide wlMapServerSide i = some (ns, k))
    (hk : k.toNat ≤ 0xf00000) (hlt : k.toNat < (m.entries ns).length % 2 ^ 32)
    (hz : (m.entries ns).getD k.toNat 0#64 = 0#64) : wlMapReserveNew m i a = (m, .ok ()) := by
  unfold wlMapReserveNew
  rw [hr]
  simp only [BitVec.lt_def, wlMapMaxObjects_toNat, slotCount_toNat, BitVec.toNat_eq]
  rw [if_neg (by omega), if_neg (by omega), if_neg (by omega), if_neg (not_not.mpr hz)]

/-- **What `wl_map_remove` does**: nothing when the side check refuses the id; otherwise the slot
takes the old head (as a 64-bit word) and `free_list` the new link, or the index is outside. -/
theorem wlMapRemove_eq {m : WlMap} {i : BitVec 32} :
    wlMapRemove m i = match resolveFor m.side wlMapServerSide wlMapClientSide i with
      | none => some m
      | some (ns, k) => if k.toNat < (m.entries ns).length then
          some ((m.setEntries ns ((m.entries ns).set k.toNat (m.freeList.setWidth 64))).setFreeList
            (freeLink k))
        else none := rfl

end WaylandMap
