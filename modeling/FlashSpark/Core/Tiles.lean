import FlashSpark.Core.Launch

/-!
# Tiled launches

The programs of a tiled launch are a grid of `rows` by `tiles`; program `(row, t)`
works on lanes `t * blk + arange(0, blk)`. Which cells a lane stores to is its own
affair, so are the masks. Where no lane stores what a program reads or another lane
stores (`Tiled.Apart`), a launch leaves in every cell what the lane that stores it
computes from the initial memory, and all other cells alone.
-/
namespace FlashSpark.Launch

variable {Loc : Type*} {β : Loc → Type*} [DecidableEq Loc]

/-- The one value stored to a cell. -/
theorem applyStores_eq {ss : Stores β} {m : Memory β} {l : Loc} {v : β l} (hmem : ⟨l, v⟩ ∈ ss)
    (hval : ∀ v', ⟨l, v'⟩ ∈ ss → v' = v) : applyStores ss m l = v := by
  induction ss generalizing m with
  | nil => cases hmem
  | cons s ss ih =>
    by_cases hl : l ∈ locs ss
    · obtain ⟨⟨l', v'⟩, hs, rfl⟩ := List.mem_map.mp hl
      obtain rfl := hval v' (List.mem_cons_of_mem _ hs)
      exact ih hs fun w hw => hval w (List.mem_cons_of_mem _ hw)
    · rcases List.mem_cons.mp hmem with rfl | hmem
      · exact applyStores_head hl
      · exact absurd (List.mem_map_of_mem hmem) hl

theorem applyStores_flatMap {α : Type*} {as : List α} {f : α → Stores β} {m : Memory β} {l : Loc} {v : β l}
    {a : α} (ha : a ∈ as) (hmem : ⟨l, v⟩ ∈ f a) (hval : ∀ a' ∈ as, ∀ v', ⟨l, v'⟩ ∈ f a' → v' = v) :
    applyStores (as.flatMap f) m l = v := by
  refine applyStores_eq (List.mem_flatMap.mpr ⟨a, ha, hmem⟩) fun v' hv' => ?_
  obtain ⟨a', ha', hv'⟩ := List.mem_flatMap.mp hv'
  exact hval a' ha' v' hv'

/-- `t * blk + arange(0, blk)`. -/
def tileLanes (blk t : Nat) : List Nat := (List.range blk).map (t * blk + ·)

theorem mem_tileLanes {blk t j : Nat} : j ∈ tileLanes blk t ↔ t * blk ≤ j ∧ j < t * blk + blk := by
  simp only [tileLanes, List.mem_map, List.mem_range]
  constructor
  · intro h
    obtain ⟨i, hi, rfl⟩ := h
    omega
  · intro h
    obtain ⟨hge, hlt⟩ := h
    exact ⟨j - t * blk, by omega, by omega⟩

/-- `triton.cdiv`. -/
def cdiv (n blk : Nat) : Nat := (n + blk - 1) / blk

theorem le_cdiv_mul (n : Nat) {blk : Nat} (h : 0 < blk) : n ≤ cdiv n blk * blk := by
  have hsplit := Nat.div_add_mod (n + blk - 1) blk
  have hmod := Nat.mod_lt (n + blk - 1) h
  rw [cdiv, Nat.mul_comm]
  omega

/-- A lane stores what it computes from the cells in `reads`. -/
structure Tiled (β : Loc → Type*) where
  rows : Nat
  tiles : Nat
  blk : Nat
  reads : Set Loc
  lane : Memory β → Nat → Nat → Stores β
  depends : ∀ m m' row j, row < rows → (∀ l ∈ reads, m l = m' l) → lane m row j = lane m' row j

namespace Tiled
variable (K : Tiled β)

def task (row : Fin K.rows) (t : Nat) : Task β where
  reads := K.reads
  stores m := (tileLanes K.blk t).flatMap (K.lane m row)
  depends m m' h := by
    have hlane : K.lane m row = K.lane m' row := funext fun j => K.depends m m' row j row.isLt h
    rw [hlane]

def launch (m m' : Memory β) : Prop :=
  Completes (fun b : Fin K.rows × Fin K.tiles => K.task b.1 b.2) m m'

/-- Lanes store where nothing is read, and not where another lane stores. -/
structure Apart (m : Memory β) : Prop where
  reads : ∀ row j l, row < K.rows → l ∈ locs (K.lane m row j) → l ∉ K.reads
  lanes : ∀ row j row' j' l, row < K.rows → row' < K.rows → l ∈ locs (K.lane m row j) →
    l ∈ locs (K.lane m row' j') → row = row' ∧ j = j'

variable {K} {m m' : Memory β}

omit [DecidableEq Loc] in
theorem mem_task {b : Fin K.rows × Fin K.tiles} {l : Loc} :
    l ∈ locs ((K.task b.1 b.2).stores m) ↔ ∃ j ∈ tileLanes K.blk b.2, l ∈ locs (K.lane m b.1 j) := by
  simp only [locs, task, List.mem_map, List.mem_flatMap]
  constructor
  · intro h
    obtain ⟨s, ⟨j, hj, hs⟩, rfl⟩ := h
    exact ⟨j, hj, s, hs, rfl⟩
  · intro h
    obtain ⟨j, hj, s, hs, rfl⟩ := h
    exact ⟨s, ⟨j, hj, hs⟩, rfl⟩

omit [DecidableEq Loc] in
theorem Apart.raceFree (h : K.Apart m) :
    RaceFree (fun b : Fin K.rows × Fin K.tiles => K.task b.1 b.2) m where
  reads b b' _ l hl := by
    obtain ⟨j, -, hl⟩ := mem_task.mp hl
    exact h.reads b.1 j l b.1.isLt hl
  stores b b' hne l hl hl' := by
    obtain ⟨j, hj, hl⟩ := mem_task.mp hl
    obtain ⟨j', hj', hl'⟩ := mem_task.mp hl'
    obtain ⟨hrow, rfl⟩ := h.lanes _ _ _ _ l b.1.isLt b'.1.isLt hl hl'
    rw [mem_tileLanes] at hj hj'
    -- lane `j` belongs to one tile only
    have htile : ∀ {t t' : Nat}, t * K.blk ≤ j → j < t' * K.blk + K.blk → t ≤ t' := by
      intro t t' hge hlt
      by_contra hgt
      have := Nat.mul_le_mul_right K.blk (show t' + 1 ≤ t by omega)
      rw [Nat.succ_mul] at this
      omega
    exact hne (Prod.ext (Fin.ext hrow) (Fin.ext (Nat.le_antisymm (htile hj.1 hj'.2) (htile hj'.1 hj.2))))

/-- What a lane stores is there at the end. -/
theorem launch_stored (h : K.Apart m) (hrun : K.launch m m') {row j : Nat} (hrow : row < K.rows)
    (hj : j < K.tiles * K.blk) {l : Loc} {v : β l} (hmem : ⟨l, v⟩ ∈ K.lane m row j)
    (hval : ∀ v', ⟨l, v'⟩ ∈ K.lane m row j → v' = v) : m' l = v := by
  have hblk : 0 < K.blk := Nat.pos_of_ne_zero fun h0 => by simp [h0] at hj
  have htile : j / K.blk < K.tiles := Nat.div_lt_of_lt_mul (by rwa [Nat.mul_comm])
  have hin : j ∈ tileLanes K.blk (j / K.blk) := by
    rw [mem_tileLanes]
    have := Nat.div_add_mod' j K.blk
    have := Nat.mod_lt j hblk
    omega
  have hloc : l ∈ locs (K.lane m row j) := List.mem_map_of_mem hmem
  let b : Fin K.rows × Fin K.tiles := (⟨row, hrow⟩, ⟨j / K.blk, htile⟩)
  have hstored := (completes_effects h.raceFree hrun).stored b trivial l (mem_task.mpr ⟨j, hin, hloc⟩)
  rw [hstored]
  refine applyStores_flatMap hin hmem fun j' _ v' hv' => ?_
  obtain ⟨-, rfl⟩ := h.lanes row j row j' l hrow hrow hloc (List.mem_map_of_mem hv')
  exact hval v' hv'

theorem launch_kept (h : K.Apart m) (hrun : K.launch m m') {l : Loc}
    (hl : ∀ row j, row < K.rows → j < K.tiles * K.blk → l ∉ locs (K.lane m row j)) : m' l = m l := by
  refine (completes_effects h.raceFree hrun).kept l fun b _ hmem => ?_
  obtain ⟨j, hj, hmem⟩ := mem_task.mp hmem
  refine hl b.1 j b.1.isLt ?_ hmem
  have := Nat.mul_le_mul_right K.blk (show (b.2 : Nat) + 1 ≤ K.tiles from b.2.isLt)
  rw [Nat.succ_mul] at this
  exact Nat.lt_of_lt_of_le (mem_tileLanes.mp hj).2 this

theorem exists_launch (K : Tiled β) (m : Memory β) : ∃ m', K.launch m m' := exists_completes _ m

end Tiled
end FlashSpark.Launch
