import FlashSpark.Core.SetAssoc
import FlashSpark.L2Store.Store

/-!
# Fetching one owned row: the cache and the miss path

`adapter/row_store.cpp:104-147`. `fetch_row` is three atomic pieces: the locked
probe (`probe`), the unlocked reads (`readRow`) and the locked insert
(`insert`). `Lookup.lean` interleaves them.

* `probe_spec`, `insert_inv`: under `CacheInv` a hit is the row asked for, and
  inserting a row of the table keeps `CacheInv`.
* `Serves`: what a miss reads of an owned row is the row; `WF.serves` gives that for
  the plain table, the pinned scales and the mapping, `serves_of_packed` for an
  attached shard.
* `readRow_complete`: full reads give a row.
-/
namespace FlashSpark.L2.RowStore
open SetAssoc

/-- mirrors adapter/row_store.cpp:64-66,73: the mappings and counters a lookup
changes. `keys` holds `id + 1`, 0 for an empty line; fresh mappings are zero. -/
structure Cache where
  cache : Nat → UInt8
  keys : Nat → Nat
  victim : Nat → Nat
  hits : Nat
  misses : Nat
  reads : Nat

def Cache.empty : Cache := ⟨fun _ => 0, fun _ => 0, fun _ => 0, 0, 0, 0⟩

def setOf (s : Store) (id : Nat) : Nat := if s.sets ≠ 0 then id % s.sets else 0

/-- mirrors adapter/row_store.cpp:112-122 (`fetch_row`, the locked probe). -/
def probe (s : Store) (c : Cache) (id : Nat) : Option Bytes :=
  if s.sets ≠ 0 then
    let base := setOf s id * s.ways
    ((List.range s.ways).find? fun w => c.keys (base + w) == id + 1).map fun w =>
      slice c.cache ((base + w) * kRowBytes) kRowBytes
  else none

/-- mirrors adapter/row_store.cpp:124-137 (`fetch_row`, the reads of a miss):
the row and how many reads were counted. `got i` answers the `i`-th `pread`. -/
def readRow (s : Store) (id : Nat) (got : Nat → Nat) : Option (Bytes × Nat) :=
  match s.packedFd with
  | some shard =>
    readFrom s (.packed shard) (kPackedHeader + (id - s.rowLo) * kRowBytes) kRowBytes (got 0)
  | none =>
    match readFrom s .table (s.weightOffset + id * kWeightBytes) kWeightBytes (got 0) with
    | none => none
    | some (weight, n) =>
      match s.scales with
      | some scales => some (weight ++ slice scales ((id - s.rowLo) * kScaleBytes) kScaleBytes, n)
      | none =>
        match readFrom s .table (s.scaleOffset + id * kScaleBytes) kScaleBytes (got 1) with
        | none => none
        | some (scale, m) => some (weight ++ scale, n + m)

/-- mirrors adapter/row_store.cpp:139-146 (`fetch_row`, the locked insert). -/
def insert (s : Store) (c : Cache) (id : Nat) (row : Bytes) : Cache :=
  if s.sets ≠ 0 then
    let set := setOf s id
    let base := set * s.ways
    let w := c.victim set % s.ways
    { c with
      victim := Function.update c.victim set ((c.victim set + 1) % s.ways % 256)
      cache := blit c.cache ((base + w) * kRowBytes) row
      keys := Function.update c.keys (base + w) (id + 1) }
  else c

/-! ## The cache memoises the table -/

/-- Every filled line holds the row its key names, in that row's set. -/
def CacheInv (s : Store) (c : Cache) : Prop :=
  ∀ set w, set < s.sets → w < s.ways → c.keys (set * s.ways + w) ≠ 0 →
    (c.keys (set * s.ways + w) - 1) % s.sets = set ∧
      slice c.cache ((set * s.ways + w) * kRowBytes) kRowBytes =
        tableRow s (c.keys (set * s.ways + w) - 1)

/-- The table of lines behind the flat mappings. -/
def Cache.table (c : Cache) : Table Bytes :=
  ⟨fun i => if c.keys i = 0 then none else some (c.keys i - 1),
   fun i => slice c.cache (i * kRowBytes) kRowBytes⟩

theorem Cache.table_keys {c : Cache} {i k : Nat} :
    c.table.keys i = some k ↔ c.keys i = k + 1 := by
  simp only [Cache.table]
  split <;> simp <;> omega

theorem cacheInv_iff_sound (s : Store) (c : Cache) :
    CacheInv s c ↔ Sound (tableRow s) s.sets s.ways c.table := by
  constructor
  · intro h
    refine ⟨fun set w k hset hw hk => ?_, fun set w k hset hw hk => ?_⟩ <;>
      rw [Cache.table_keys] at hk <;>
      have hkey := h set w hset hw (by rw [show set * s.ways + w = slot s.ways set w from rfl, hk]; omega) <;>
      rw [show set * s.ways + w = slot s.ways set w from rfl, hk, Nat.add_sub_cancel] at hkey
    · exact hkey.1
    · exact hkey.2
  · intro h set w hset hw hk
    have hkey : c.table.keys (slot s.ways set w) = some (c.keys (set * s.ways + w) - 1) := by
      rw [Cache.table_keys]; unfold slot; omega
    exact ⟨h.home set w _ hset hw hkey, h.line set w _ hset hw hkey⟩

theorem cacheInv_empty (s : Store) : CacheInv s Cache.empty :=
  fun _ _ _ _ h => absurd rfl h

/-- The flat insert is the table's `put`. -/
theorem insert_table {s : Store} {c : Cache} {id : Nat} {row : Bytes} (hs : s.sets ≠ 0)
    (hrow : row.length = kRowBytes) :
    (insert s c id row).table =
      c.table.put (slot s.ways (id % s.sets) (c.victim (id % s.sets) % s.ways)) id row := by
  have hset : setOf s id = id % s.sets := if_pos hs
  unfold insert Cache.table Table.put
  rw [if_pos hs]
  simp only [hset, Table.mk.injEq]
  refine ⟨funext fun i => ?_, funext fun i => ?_⟩
  · simp only [Function.update_apply, slot]
    split <;> simp
  · rw [slice_blit_record _ _ _ _ _ hrow, Function.update_apply]
    rfl

theorem insert_inv {s : Store} {c : Cache} {id : Nat} (hw : s.WF) (hid : id < s.rows)
    (h : CacheInv s c) : CacheInv s (insert s c id (tableRow s id)) := by
  by_cases hs : s.sets = 0
  · intro set _ hset; omega
  · rw [cacheInv_iff_sound] at h ⊢
    rw [insert_table hs (tableRow_length hw hid)]
    exact h.put (Nat.mod_lt _ hw.ways_pos)

/-- A hit returns the row asked for. -/
theorem probe_spec {s : Store} {c : Cache} {id : Nat} {row : Bytes} (h : CacheInv s c)
    (hp : probe s c id = some row) : row = tableRow s id := by
  unfold probe at hp
  split at hp
  · rename_i hs
    obtain ⟨w, hfind, rfl⟩ := Option.map_eq_some_iff.mp hp
    have hw : w < s.ways := List.mem_range.mp (List.mem_of_find?_eq_some hfind)
    have hkey : c.keys (setOf s id * s.ways + w) = id + 1 := by
      simpa using List.find?_some hfind
    rw [setOf, if_pos hs] at hkey ⊢
    exact ((cacheInv_iff_sound s c).mp h).hit (Nat.pos_of_ne_zero hs) hw (Cache.table_keys.mpr hkey)
  · cases hp

/-! ## The miss path -/

def Owned (s : Store) (id : Nat) : Prop := s.rowLo ≤ id ∧ id < s.rowHi

/-- What a miss on an owned row reads, if it does not fail, is that row. -/
def Serves (s : Store) : Prop :=
  ∀ id, Owned s id → ∀ got row n, readRow s id got = some (row, n) → row = tableRow s id

/-- Without a shard: the plain table, its mapping, the pinned scales. -/
theorem Store.WF.serves {s : Store} (hw : s.WF) (hp : s.packedFd = none) : Serves s := by
  intro id ⟨hlo, hhi⟩ got row n h
  unfold readRow at h
  rw [hp] at h
  dsimp only at h
  split at h
  · cases h
  · rename_i weight k hread
    have hweight : weight = weightBytes s id := readFrom_spec hw.resident_eq hread
    split at h
    · rename_i scales hsc
      obtain ⟨rfl, -⟩ := Prod.mk.inj (Option.some.inj h)
      rw [hw.scales_eq scales hsc id hlo hhi, hweight, tableRow]
    · split at h
      · cases h
      · rename_i scale m hread'
        have hscale : scale = scaleBytes s id := readFrom_spec hw.resident_eq hread'
        obtain ⟨rfl, -⟩ := Prod.mk.inj (Option.some.inj h)
        rw [hweight, hscale, tableRow]

/-- With a shard whose records, counted from `row_lo`, are the owned rows. -/
theorem serves_of_packed {s : Store} (hw : s.WF) {shard : Bytes} (hp : s.packedFd = some shard)
    (hrows : PackedRows s shard s.rowLo s.rowHi) : Serves s := by
  intro id ⟨hlo, hhi⟩ got row n h
  unfold readRow at h
  rw [hp] at h
  rw [readFrom_spec hw.resident_eq h]
  exact hrows id hlo hhi

/-- Reads that deliver what the files hold do not fail. -/
theorem readRow_complete {s : Store} (hw : s.WF) {id : Nat} (hid : Owned s id)
    (hshard : ∀ shard, s.packedFd = some shard →
      kPackedHeader + (s.rowHi - s.rowLo) * kRowBytes ≤ shard.length)
    {got : Nat → Nat} (hgot : ∀ i, 8192 ≤ got i) : ∃ r, readRow s id got = some r := by
  obtain ⟨hlo, hhi⟩ := hid
  have full : ∀ off len n i, len ≤ kRowBytes → min (requested off len) n ≤ got i :=
    fun off len n i hlen =>
      Nat.le_trans (Nat.le_trans (Nat.min_le_left _ _) (requested_le off len hlen).2) (hgot i)
  have hrows := hw.hi_le_rows
  unfold readRow
  split
  · rename_i shard hp
    have hfit := hshard shard hp
    exact readFrom_complete (by simp only [Store.contents, kRowBytes] at *; omega) (Nat.le_refl _)
      (full _ _ _ _ (Nat.le_refl _))
  · have hwf := hw.weights_fit
    have hsf := hw.scales_fit
    have hwfit : s.weightOffset + id * kWeightBytes + kWeightBytes ≤ (s.contents .table).length := by
      simp only [Store.contents, kWeightBytes] at *
      omega
    obtain ⟨⟨weight, n⟩, hweight⟩ :=
      readFrom_complete hwfit (by decide) (full _ _ _ 0 (by decide))
    rw [hweight]
    dsimp only
    split
    · exact ⟨_, rfl⟩
    · have hsfit : s.scaleOffset + id * kScaleBytes + kScaleBytes ≤ (s.contents .table).length := by
        simp only [Store.contents, kScaleBytes] at *
        omega
      obtain ⟨⟨scale, m⟩, hscale⟩ :=
        readFrom_complete hsfit (by decide) (full _ _ _ 1 (by decide))
      rw [hscale]
      exact ⟨_, rfl⟩

end FlashSpark.L2.RowStore
