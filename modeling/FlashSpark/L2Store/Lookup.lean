import FlashSpark.Core.LTS
import FlashSpark.Core.Threads
import FlashSpark.L2Store.Fetch

/-!
# Concurrent lookups

`adapter/row_store.cpp:149-164,355-363`. Any number of lookups are in progress;
each is a list of `serve` calls (one for the whole job, or one per ticket of the
I/O pool), and each `serve` call is a thread whose atomic steps are the id check
with the locked probe, the unlocked reads, the locked insert and the copy to the
caller's buffers. A failed check or read aborts the process: `failed` is set and
nothing moves any more.

* `serveCalls_cover`: the `serve` calls of a lookup cover all its ids.
* `inv_inductive`: `Inv` (the cache invariant, what every thread holds in its
  `row`, what it has delivered) is inductive.
* `goodIds_run`: when every id asked for is a row, no run aborts for an id.
`Refines.lean` concludes from the invariant what a loaded store delivers.
-/
namespace FlashSpark.L2.RowStore

/-- mirrors adapter/row_store.cpp:39-40 -/
def kChunk : Nat := 1
def kSerialBelow : Nat := 8

/-- mirrors adapter/row_store.cpp:76-81; `count` is `ids.length`. The ghosts
`weights₀`, `scales₀` are the buffers as the caller handed them over. -/
structure Work where
  ids : List Int
  weights : Nat → UInt8
  scales : Nat → UInt8
  weights₀ : Nat → UInt8
  scales₀ : Nat → UInt8

def Work.id (w : Work) (i : Nat) : Int := w.ids.getD i (-1)

def Work.put (w : Work) (i : Nat) (weight scale : Bytes) : Work :=
  { w with weights := blit w.weights (i * kWeightBytes) weight,
           scales := blit w.scales (i * kScaleBytes) scale }

/-- A call `serve(work, start, stop)`. -/
structure Call where
  work : Nat
  start : Nat
  stop : Nat

inductive Pc where
  | next
  | missed
  | filled (row : Bytes)
  | copy (row : Bytes)

structure Server where
  call : Call
  pos : Nat
  pc : Pc

structure State where
  cache : Cache
  works : List Work
  servers : List Server
  failed : Option String

/-- The `serve` calls of one lookup: the whole job, or the pool's tickets.
mirrors adapter/row_store.cpp:355-363 (`row_store_lookup`) and :187,217-222 -/
def serveCalls (pool : Bool) (k count : Nat) : List Call :=
  if pool = false ∨ count < kSerialBelow then [⟨k, 0, count⟩]
  else (List.range ((count + kChunk - 1) / kChunk)).map fun ticket =>
    ⟨k, ticket * kChunk, min (ticket * kChunk + kChunk) count⟩

def lookup (pool : Bool) (σ : State) (ids : List Int) (weights scales : Nat → UInt8) : State :=
  { σ with
    works := σ.works ++ [⟨ids, weights, scales, weights, scales⟩]
    servers := σ.servers ++
      (serveCalls pool σ.works.length ids.length).map fun c => ⟨c, c.start, .next⟩ }

/-- One atomic step of thread `j`, at an index it has not finished.
mirrors adapter/row_store.cpp:152-162 (`serve`) and :105-146 (`fetch_row`) -/
def serveStep (s : Store) (σ : State) (j : Nat) (sv : Server) (w : Work) (got : Nat → Nat) : State :=
  let i := sv.pos
  let id := w.id i
  let goto pc := σ.servers.set j { sv with pc := pc }
  let advance := σ.servers.set j { sv with pos := i + 1, pc := .next }
  match sv.pc with
  | .next =>
    if id < 0 ∨ s.rows ≤ id.toNat then { σ with failed := some "row ID out of bounds" }
    else if id.toNat < s.rowLo ∨ s.rowHi ≤ id.toNat then
      let zeros := w.put i (List.replicate kWeightBytes 0) (List.replicate kScaleBytes 0)
      { σ with works := σ.works.set sv.call.work zeros, servers := advance }
    else
      match probe s σ.cache id.toNat with
      | some row =>
        { σ with cache := { σ.cache with hits := σ.cache.hits + 1 }, servers := goto (.copy row) }
      | none => { σ with servers := goto .missed }
  | .missed =>
    match readRow s id.toNat got with
    | none => { σ with failed := some "short or failed direct read" }
    | some (row, n) =>
      { σ with
        cache := { σ.cache with reads := σ.cache.reads + n, misses := σ.cache.misses + 1 }
        servers := goto (.filled row) }
  | .filled row =>
    { σ with cache := insert s σ.cache id.toNat row, servers := goto (.copy row) }
  | .copy row =>
    let out := w.put i (block row 0 kWeightBytes) (block row kWeightBytes kScaleBytes)
    { σ with works := σ.works.set sv.call.work out, servers := advance }

inductive Label where
  | lookup (ids : List Int) (weights scales : Nat → UInt8)
  | serve (j : Nat) (got : Nat → Nat)

/-- Lookups on the loaded store `s`; `pool`: the I/O pool exists. -/
def lookups (s : Store) (pool : Bool) : LTS State Label where
  init σ := σ = ⟨Cache.empty, [], [], none⟩
  step σ l σ' := σ.failed = none ∧
    match l with
    | .lookup ids weights scales => σ' = lookup pool σ ids weights scales
    | .serve j got => ∃ sv w, σ.servers[j]? = some sv ∧ σ.works[sv.call.work]? = some w ∧
        sv.pos < sv.call.stop ∧ σ' = serveStep s σ j sv w got

/-! ## What a lookup is for -/

def BadId (rows : Nat) (id : Int) : Prop := id < 0 ∨ rows ≤ id.toNat

/-- Output `i` of a lookup is the plain table's: the row of an owned id, zeros
otherwise. -/
def Delivered (file : Bytes) (woff soff lo hi : Nat) (w : Work) (i : Nat) : Prop :=
  let id := (w.id i).toNat
  (slice w.weights (i * kWeightBytes) kWeightBytes, slice w.scales (i * kScaleBytes) kScaleBytes) =
    if lo ≤ id ∧ id < hi then
      (block file (woff + id * kWeightBytes) kWeightBytes, block file (soff + id * kScaleBytes) kScaleBytes)
    else (List.replicate kWeightBytes 0, List.replicate kScaleBytes 0)

/-- Output `i` still holds what the caller's buffers held. -/
def Untouched (w : Work) (i : Nat) : Prop :=
  slice w.weights (i * kWeightBytes) kWeightBytes = slice w.weights₀ (i * kWeightBytes) kWeightBytes ∧
    slice w.scales (i * kScaleBytes) kScaleBytes = slice w.scales₀ (i * kScaleBytes) kScaleBytes

/-- All `serve` calls of lookup `k` have finished. -/
def Returned (σ : State) (k : Nat) : Prop :=
  ∀ sv ∈ σ.servers, sv.call.work = k → sv.pos = sv.call.stop

/-! ## The `serve` calls cover the job -/

theorem serveCalls_work {pool : Bool} {k count : Nat} {c : Call} (h : c ∈ serveCalls pool k count) :
    c.work = k ∧ c.start ≤ c.stop ∧ c.stop ≤ count := by
  unfold serveCalls at h
  split at h
  · rw [List.mem_singleton] at h
    subst h
    exact ⟨rfl, Nat.zero_le _, Nat.le_refl _⟩
  · obtain ⟨t, ht, rfl⟩ := List.mem_map.mp h
    rw [List.mem_range] at ht
    refine ⟨rfl, ?_, ?_⟩ <;> simp only [kChunk] at * <;> omega

theorem serveCalls_cover (pool : Bool) (k : Nat) {count i : Nat} (hi : i < count) :
    ∃ c ∈ serveCalls pool k count, c.work = k ∧ c.start ≤ i ∧ i < c.stop := by
  unfold serveCalls
  split
  · exact ⟨⟨k, 0, count⟩, List.mem_singleton.mpr rfl, rfl, Nat.zero_le _, hi⟩
  · refine ⟨_, List.mem_map.mpr ⟨i, List.mem_range.mpr ?_, rfl⟩, rfl, ?_, ?_⟩ <;>
      simp only [kChunk] <;> omega

/-! ## The invariant -/

/-- Work `w` served up to and including index `i`. -/
def ServedAt (s : Store) (w : Work) (i : Nat) : Prop :=
  ¬ BadId s.rows (w.id i) ∧ Delivered s.fd s.weightOffset s.scaleOffset s.rowLo s.rowHi w i

/-- What thread `sv` holds, by its program counter. -/
def Holds (s : Store) (id : Int) : Pc → Prop
  | .next => True
  | .missed => ¬ BadId s.rows id ∧ Owned s id.toNat
  | .filled row => ¬ BadId s.rows id ∧ Owned s id.toNat ∧ row = tableRow s id.toNat
  | .copy row => ¬ BadId s.rows id ∧ Owned s id.toNat ∧ row = tableRow s id.toNat

structure ServerOk (s : Store) (w : Work) (sv : Server) : Prop where
  start_le : sv.call.start ≤ sv.pos
  pos_le : sv.pos ≤ sv.call.stop
  stop_le : sv.call.stop ≤ w.ids.length
  holds : Holds s (w.id sv.pos) sv.pc
  done : ∀ i, sv.call.start ≤ i → i < sv.pos → ServedAt s w i

def WorkOk (s : Store) (w : Work) : Prop := ∀ i, BadId s.rows (w.id i) → Untouched w i

/-- Who aborted, and why. -/
def Blame (s : Store) (σ : State) (reason : String) : Prop :=
  ∃ sv ∈ σ.servers, ∃ w, σ.works[sv.call.work]? = some w ∧ sv.pos < sv.call.stop ∧
    (reason = "row ID out of bounds" ∧ BadId s.rows (w.id sv.pos) ∨
      reason = "short or failed direct read" ∧ sv.pc = .missed)

structure Inv (s : Store) (σ : State) : Prop where
  cache : CacheInv s σ.cache
  servers : ∀ sv ∈ σ.servers, ∃ w, σ.works[sv.call.work]? = some w ∧ ServerOk s w sv
  works : ∀ w ∈ σ.works, WorkOk s w
  cover : ∀ k w, σ.works[k]? = some w → ∀ i, i < w.ids.length →
    ∃ c ∈ σ.servers.map Server.call, c.work = k ∧ c.start ≤ i ∧ i < c.stop
  blame : ∀ reason, σ.failed = some reason → Blame s σ reason

/-- Writing output `i` does not move output `j ≠ i`. -/
theorem Work.put_other {w : Work} {i j : Nat} {weight scale : Bytes} (hij : j ≠ i)
    (hw : weight.length = kWeightBytes) (hs : scale.length = kScaleBytes) :
    slice (w.put i weight scale).weights (j * kWeightBytes) kWeightBytes =
        slice w.weights (j * kWeightBytes) kWeightBytes ∧
      slice (w.put i weight scale).scales (j * kScaleBytes) kScaleBytes =
        slice w.scales (j * kScaleBytes) kScaleBytes := by
  refine ⟨?_, ?_⟩
  · exact (slice_blit_record _ _ _ _ _ hw).trans (if_neg hij)
  · exact (slice_blit_record _ _ _ _ _ hs).trans (if_neg hij)

theorem Work.put_self {w : Work} {i : Nat} {weight scale : Bytes}
    (hw : weight.length = kWeightBytes) (hs : scale.length = kScaleBytes) :
    slice (w.put i weight scale).weights (i * kWeightBytes) kWeightBytes = weight ∧
      slice (w.put i weight scale).scales (i * kScaleBytes) kScaleBytes = scale := by
  refine ⟨?_, ?_⟩
  · exact (slice_blit_record _ _ _ _ _ hw).trans (if_pos rfl)
  · exact (slice_blit_record _ _ _ _ _ hs).trans (if_pos rfl)

/-- The bytes the plain table wants at output `i`. -/
structure Wanted (s : Store) (w : Work) (i : Nat) (weight scale : Bytes) : Prop where
  good : ¬ BadId s.rows (w.id i)
  weight_length : weight.length = kWeightBytes
  scale_length : scale.length = kScaleBytes
  eq : (weight, scale) = if s.rowLo ≤ (w.id i).toNat ∧ (w.id i).toNat < s.rowHi then
      (weightBytes s (w.id i).toNat, scaleBytes s (w.id i).toNat)
    else (List.replicate kWeightBytes 0, List.replicate kScaleBytes 0)

theorem Wanted.served {s : Store} {w : Work} {i : Nat} {weight scale : Bytes}
    (h : Wanted s w i weight scale) : ServedAt s (w.put i weight scale) i := by
  refine ⟨h.good, ?_⟩
  obtain ⟨h₁, h₂⟩ := Work.put_self (w := w) (i := i) h.weight_length h.scale_length
  unfold Delivered
  rw [h₁, h₂]
  exact h.eq

/-- Delivering output `i` keeps every other delivered output. -/
theorem ServedAt.put {s : Store} {w : Work} {i j : Nat} {weight scale : Bytes}
    (hput : Wanted s w i weight scale) (h : ServedAt s w j) : ServedAt s (w.put i weight scale) j := by
  by_cases hij : j = i
  · subst hij; exact hput.served
  · refine ⟨h.1, ?_⟩
    obtain ⟨h₁, h₂⟩ := Work.put_other (w := w) hij hput.weight_length hput.scale_length
    unfold Delivered
    rw [h₁, h₂]
    exact h.2

theorem ServerOk.put {s : Store} {w : Work} {sv : Server} {i : Nat} {weight scale : Bytes}
    (hput : Wanted s w i weight scale) (h : ServerOk s w sv) :
    ServerOk s (w.put i weight scale) sv where
  start_le := h.start_le
  pos_le := h.pos_le
  stop_le := h.stop_le
  holds := h.holds
  done j hj hlt := (h.done j hj hlt).put hput

theorem WorkOk.put {s : Store} {w : Work} {i : Nat} {weight scale : Bytes}
    (hput : Wanted s w i weight scale) (h : WorkOk s w) : WorkOk s (w.put i weight scale) := by
  intro j hbad
  have hij : j ≠ i := by rintro rfl; exact hput.good hbad
  obtain ⟨h₁, h₂⟩ := Work.put_other (w := w) hij hput.weight_length hput.scale_length
  unfold Untouched
  rw [h₁, h₂]
  exact h j hbad

/-- A step of thread `j` that leaves the works alone. -/
theorem Inv.goto {s : Store} {σ : State} (h : Inv s σ) {j : Nat} {sv sv' : Server} {w : Work}
    {c : Cache} (hj : σ.servers[j]? = some sv) (hw : σ.works[sv.call.work]? = some w)
    (hcall : sv'.call = sv.call) (hok : ServerOk s w sv') (hc : CacheInv s c)
    (hf : σ.failed = none) :
    Inv s { σ with cache := c, servers := σ.servers.set j sv' } where
  cache := hc
  servers x hx := by
    rcases List.mem_or_eq_of_mem_set hx with hx | rfl
    · exact h.servers x hx
    · exact ⟨w, by rw [hcall]; exact hw, hok⟩
  works := h.works
  cover k w' hk i hi := by
    rw [map_set_of_eq Server.call hj hcall]
    exact h.cover k w' hk i hi
  blame r hr := absurd hr (by simp [hf])

/-- A step of thread `j` that delivers output `sv.pos` and moves on. -/
theorem Inv.deliver {s : Store} {σ : State} (h : Inv s σ) {j : Nat} {sv : Server} {w : Work}
    {weight scale : Bytes} (hj : σ.servers[j]? = some sv) (hw : σ.works[sv.call.work]? = some w)
    (hpos : sv.pos < sv.call.stop) (hput : Wanted s w sv.pos weight scale)
    (hf : σ.failed = none) :
    Inv s { σ with works := σ.works.set sv.call.work (w.put sv.pos weight scale),
                   servers := σ.servers.set j { sv with pos := sv.pos + 1, pc := .next } } := by
  have hlt : sv.call.work < σ.works.length := (List.getElem?_eq_some_iff.mp hw).1
  obtain ⟨w₀, hw₀, hok⟩ := h.servers sv (List.mem_of_getElem? hj)
  obtain rfl : w₀ = w := Option.some.inj (hw₀.symm.trans hw)
  -- a thread of the same work sees the new output, any other thread an unchanged work
  have hget : ∀ (k : Nat) (w' : Work), σ.works[k]? = some w' →
      ∃ w'', (σ.works.set sv.call.work (w₀.put sv.pos weight scale))[k]? = some w'' ∧
        (∀ x, ServerOk s w' x → ServerOk s w'' x) := by
    intro k w' hk
    by_cases hkw : sv.call.work = k
    · subst hkw
      obtain rfl : w₀ = w' := Option.some.inj (hw.symm.trans hk)
      exact ⟨w₀.put sv.pos weight scale, by rw [List.getElem?_set, if_pos rfl, if_pos hlt],
        fun x hx => hx.put hput⟩
    · exact ⟨w', by rw [List.getElem?_set, if_neg hkw, hk], fun x hx => hx⟩
  refine ⟨h.cache, fun x hx => ?_, fun x hx => ?_, fun k w' hk i hi => ?_, fun r hr => ?_⟩
  · rcases List.mem_or_eq_of_mem_set hx with hx | rfl
    · obtain ⟨w', hw', hxok⟩ := h.servers x hx
      obtain ⟨w'', hget', himp⟩ := hget _ _ hw'
      exact ⟨w'', hget', himp x hxok⟩
    · refine ⟨w₀.put sv.pos weight scale, ?_, ?_⟩
      · dsimp only
        rw [List.getElem?_set, if_pos rfl, if_pos hlt]
      · refine ⟨Nat.le_succ_of_le hok.start_le, hpos, hok.stop_le, trivial, fun i hi hlt => ?_⟩
        by_cases hip : i = sv.pos
        · subst hip; exact hput.served
        · dsimp only at hi hlt
          exact (hok.done i hi (by omega)).put hput
  · rcases List.mem_or_eq_of_mem_set hx with hx | rfl
    · exact h.works x hx
    · exact (h.works w₀ (List.mem_of_getElem? hw)).put hput
  · dsimp only at hk ⊢
    rw [map_set_of_eq Server.call (b := { sv with pos := sv.pos + 1, pc := .next }) hj rfl]
    rw [List.getElem?_set] at hk
    by_cases hkw : sv.call.work = k
    · rw [if_pos hkw, if_pos hlt] at hk
      obtain rfl := Option.some.inj hk
      subst hkw
      exact h.cover _ w₀ hw i hi
    · rw [if_neg hkw] at hk
      exact h.cover k w' hk i hi
  · exact absurd hr (by simp [hf])

theorem CacheInv.congr {s : Store} {c c' : Cache} (h : CacheInv s c) (hk : c'.keys = c.keys)
    (hb : c'.cache = c.cache) : CacheInv s c' := by
  intro set w hset hw hne
  rw [hk] at hne
  rw [hk, hb]
  exact h set w hset hw hne

/-- One step of one thread keeps the invariant. -/
theorem serveStep_inv {s : Store} (hwf : s.WF) (hs : Serves s) {σ : State} (h : Inv s σ) {j : Nat}
    {sv : Server} {w : Work} (got : Nat → Nat) (hj : σ.servers[j]? = some sv)
    (hw : σ.works[sv.call.work]? = some w) (hpos : sv.pos < sv.call.stop) (hf : σ.failed = none) :
    Inv s (serveStep s σ j sv w got) := by
  obtain ⟨w₀, hw₀, hok⟩ := h.servers sv (List.mem_of_getElem? hj)
  obtain rfl : w₀ = w := Option.some.inj (hw₀.symm.trans hw)
  have goto : ∀ pc, Holds s (w₀.id sv.pos) pc → ServerOk s w₀ { sv with pc := pc } := fun pc hpc =>
    ⟨hok.start_le, hok.pos_le, hok.stop_le, hpc, hok.done⟩
  have abort : ∀ r, (r = "row ID out of bounds" ∧ BadId s.rows (w₀.id sv.pos) ∨
      r = "short or failed direct read" ∧ sv.pc = .missed) → Inv s { σ with failed := some r } := by
    intro r hr
    refine ⟨h.cache, h.servers, h.works, h.cover, fun reason hreason => ?_⟩
    obtain rfl := Option.some.inj hreason
    exact ⟨sv, List.mem_of_getElem? hj, w₀, hw, hpos, hr⟩
  have hholds := hok.holds
  unfold serveStep
  dsimp only
  split
  · rename_i hpc
    split
    · rename_i hbad
      exact abort _ (.inl ⟨rfl, hbad⟩)
    rename_i hgood
    split
    · rename_i hout
      refine h.deliver hj hw hpos ⟨hgood, List.length_replicate, List.length_replicate, ?_⟩ hf
      rw [if_neg (by omega)]
    rename_i hown
    have howned : Owned s (w₀.id sv.pos).toNat := ⟨by omega, by omega⟩
    split
    · rename_i row hrow
      exact h.goto hj hw rfl (goto _ ⟨hgood, howned, probe_spec h.cache hrow⟩)
        (h.cache.congr rfl rfl) hf
    · exact h.goto hj hw rfl (goto .missed ⟨hgood, howned⟩) h.cache hf
  · rename_i hpc
    rw [hpc] at hholds
    split
    · exact abort _ (.inr ⟨rfl, hpc⟩)
    · rename_i row n hrow
      exact h.goto hj hw rfl (goto _ ⟨hholds.1, hholds.2, hs _ hholds.2 _ _ _ hrow⟩)
        (h.cache.congr rfl rfl) hf
  · rename_i row hpc
    rw [hpc] at hholds
    obtain ⟨hgood, howned, rfl⟩ := hholds
    have hid : (w₀.id sv.pos).toNat < s.rows := by simp only [BadId] at hgood; omega
    exact h.goto hj hw rfl (goto _ ⟨hgood, howned, rfl⟩) (insert_inv hwf hid h.cache) hf
  · rename_i row hpc
    rw [hpc] at hholds
    obtain ⟨hgood, howned, rfl⟩ := hholds
    have hid : (w₀.id sv.pos).toNat < s.rows := by simp only [BadId] at hgood; omega
    have hweight : block (tableRow s (w₀.id sv.pos).toNat) 0 kWeightBytes =
        weightBytes s (w₀.id sv.pos).toNat := tableRow_take hwf hid
    have hscale : block (tableRow s (w₀.id sv.pos).toNat) kWeightBytes kScaleBytes =
        scaleBytes s (w₀.id sv.pos).toNat := by
      rw [block, tableRow_drop hwf hid, ← scaleBytes_length hwf hid, List.take_length]
    rw [hweight, hscale]
    refine h.deliver hj hw hpos ⟨hgood, weightBytes_length hwf hid, scaleBytes_length hwf hid, ?_⟩ hf
    exact (if_pos howned).symm

/-- A new lookup keeps the invariant. -/
theorem lookup_inv {s : Store} {σ : State} (h : Inv s σ) (pool : Bool) (ids : List Int)
    (weights scales : Nat → UInt8) (hf : σ.failed = none) :
    Inv s (lookup pool σ ids weights scales) := by
  have hold : ∀ (k : Nat) (w : Work), σ.works[k]? = some w →
      (σ.works ++ [(⟨ids, weights, scales, weights, scales⟩ : Work)])[k]? = some w := by
    intro k w hk
    rw [List.getElem?_append_left (List.getElem?_eq_some_iff.mp hk).1, hk]
  refine ⟨h.cache, fun sv hsv => ?_, fun w hw => ?_, fun k w hk i hi => ?_, fun r hr => ?_⟩
  · rcases List.mem_append.mp hsv with hsv | hsv
    · obtain ⟨w, hw, hok⟩ := h.servers sv hsv
      exact ⟨w, hold _ _ hw, hok⟩
    · obtain ⟨c, hc, rfl⟩ := List.mem_map.mp hsv
      obtain ⟨hwork, hstart, hstop⟩ := serveCalls_work hc
      refine ⟨⟨ids, weights, scales, weights, scales⟩, ?_, ?_⟩
      · show (σ.works ++ [_])[c.work]? = _
        rw [hwork, List.getElem?_append_right (Nat.le_refl _), Nat.sub_self]; rfl
      · exact ⟨Nat.le_refl _, hstart, hstop, trivial, fun i hi hlt => absurd hlt (Nat.not_lt.mpr hi)⟩
  · rcases List.mem_append.mp hw with hw | hw
    · exact h.works w hw
    · obtain rfl := List.mem_singleton.mp hw
      exact fun _ _ => ⟨rfl, rfl⟩
  · rw [lookup, List.map_append, List.map_map]
    by_cases hlt : k < σ.works.length
    · have hk' : σ.works[k]? = some w := by
        rw [← hk]; exact (List.getElem?_append_left hlt).symm
      obtain ⟨c, hc, hcov⟩ := h.cover k w hk' i hi
      exact ⟨c, List.mem_append_left _ hc, hcov⟩
    · have hk' : k = σ.works.length ∧ w = ⟨ids, weights, scales, weights, scales⟩ := by
        have hk := hk
        unfold lookup at hk
        dsimp only at hk
        rw [List.getElem?_append_right (Nat.not_lt.mp hlt)] at hk
        obtain ⟨hlen, heq⟩ := List.getElem?_eq_some_iff.mp hk
        simp only [List.length_singleton] at hlen
        refine ⟨by omega, ?_⟩
        rw [← heq]; simp [show k - σ.works.length = 0 by omega]
      obtain ⟨rfl, rfl⟩ := hk'
      obtain ⟨c, hc, hcov⟩ := serveCalls_cover pool σ.works.length hi
      exact ⟨c, List.mem_append_right _ (List.mem_map.mpr ⟨c, hc, rfl⟩), hcov⟩
  · rw [show (lookup pool σ ids weights scales).failed = σ.failed from rfl, hf] at hr
    cases hr

theorem inv_step {s : Store} (hwf : s.WF) (hs : Serves s) {pool : Bool} {σ σ' : State} {l : Label}
    (h : Inv s σ) (hstep : (lookups s pool).step σ l σ') : Inv s σ' := by
  obtain ⟨hf, hl⟩ := hstep
  cases l with
  | lookup ids weights scales => subst hl; exact lookup_inv h pool ids weights scales hf
  | serve j got =>
    obtain ⟨sv, w, hj, hw, hpos, rfl⟩ := hl
    exact serveStep_inv hwf hs h got hj hw hpos hf

theorem inv_inductive {s : Store} (hwf : s.WF) (hs : Serves s) (pool : Bool) :
    (lookups s pool).Inductive (Inv s) where
  init σ hσ := by
    subst hσ
    exact ⟨cacheInv_empty s, by simp, by simp, by simp, by simp⟩
  step _ _ _ h hstep := inv_step hwf hs h hstep

/-! ## Lookups of ids that are rows -/

section GoodIds
variable {s : Store} {pool : Bool}

/-- Every id that any lookup asks for is a row, and nothing was aborted for its id. -/
structure GoodIds (s : Store) (σ : State) : Prop where
  servers : ∀ sv ∈ σ.servers, ∃ w, σ.works[sv.call.work]? = some w ∧ sv.call.stop ≤ w.ids.length ∧
    ∀ id ∈ w.ids, ¬BadId s.rows id
  served : σ.failed ≠ some "row ID out of bounds"

theorem GoodIds.lookup {σ : State} (h : GoodIds s σ) {ids : List Int} (hids : ∀ id ∈ ids, ¬BadId s.rows id)
    (weights scales : Nat → UInt8) : GoodIds s (RowStore.lookup pool σ ids weights scales) := by
  refine ⟨fun sv hsv => ?_, h.served⟩
  rcases List.mem_append.mp hsv with hsv | hsv
  · obtain ⟨w, hw, hstop, hgood⟩ := h.servers sv hsv
    refine ⟨w, ?_, hstop, hgood⟩
    show (σ.works ++ [_])[sv.call.work]? = _
    rw [List.getElem?_append_left (List.getElem?_eq_some_iff.mp hw).1, hw]
  · obtain ⟨c, hc, rfl⟩ := List.mem_map.mp hsv
    obtain ⟨hwork, -, hstop⟩ := serveCalls_work hc
    refine ⟨⟨ids, weights, scales, weights, scales⟩, ?_, hstop, hids⟩
    show (σ.works ++ [_])[c.work]? = _
    rw [hwork, List.getElem?_append_right (Nat.le_refl _), Nat.sub_self]
    rfl

/-- A serve step changes no call and no id. -/
theorem GoodIds.moved {σ σ' : State} (h : GoodIds s σ) (hfailed : σ'.failed ≠ some "row ID out of bounds")
    (hcalls : ∀ sv' ∈ σ'.servers, ∃ sv ∈ σ.servers, sv'.call = sv.call)
    (hworks : ∀ (k : Nat) (w : Work), σ.works[k]? = some w →
      ∃ w' : Work, σ'.works[k]? = some w' ∧ w'.ids = w.ids) : GoodIds s σ' := by
  refine ⟨fun sv' hsv' => ?_, hfailed⟩
  obtain ⟨sv, hsv, hcall⟩ := hcalls sv' hsv'
  obtain ⟨w, hw, hstop, hgood⟩ := h.servers sv hsv
  obtain ⟨w', hw', hids⟩ := hworks _ w hw
  rw [hcall]
  exact ⟨w', hw', by rwa [hids], by rwa [hids]⟩

theorem calls_set {σ : State} {j : Nat} {sv sv' : Server} (hj : σ.servers[j]? = some sv)
    (hcall : sv'.call = sv.call) : ∀ x ∈ σ.servers.set j sv', ∃ y ∈ σ.servers, x.call = y.call := by
  intro x hx
  rcases List.mem_or_eq_of_mem_set hx with hx | rfl
  · exact ⟨x, hx, rfl⟩
  · exact ⟨sv, List.mem_of_getElem? hj, hcall⟩

theorem works_set {σ : State} {i : Nat} {w w' : Work} (hi : σ.works[i]? = some w) (hids : w'.ids = w.ids) :
    ∀ (k : Nat) (x : Work), σ.works[k]? = some x →
      ∃ x' : Work, (σ.works.set i w')[k]? = some x' ∧ x'.ids = x.ids := by
  intro k x hx
  by_cases hk : i = k
  · subst hk
    obtain rfl : w = x := Option.some.inj (hi.symm.trans hx)
    exact ⟨w', by rw [List.getElem?_set_self (List.getElem?_eq_some_iff.mp hi).1], hids⟩
  · exact ⟨x, by rw [List.getElem?_set_ne hk, hx], rfl⟩

theorem GoodIds.serve {σ : State} (h : GoodIds s σ) {j : Nat} {sv : Server} {w : Work} (got : Nat → Nat)
    (hj : σ.servers[j]? = some sv) (hw : σ.works[sv.call.work]? = some w) (hpos : sv.pos < sv.call.stop) :
    GoodIds s (serveStep s σ j sv w got) := by
  have hkeep (k : Nat) (x : Work) (hx : σ.works[k]? = some x) :
      ∃ x' : Work, σ.works[k]? = some x' ∧ x'.ids = x.ids := ⟨x, hx, rfl⟩
  have hgood : ¬(w.id sv.pos < 0 ∨ s.rows ≤ (w.id sv.pos).toNat) := by
    obtain ⟨w', hw', hstop, hgood⟩ := h.servers sv (List.mem_of_getElem? hj)
    obtain rfl : w = w' := Option.some.inj (hw.symm.trans hw')
    have hlt : sv.pos < w.ids.length := Nat.lt_of_lt_of_le hpos hstop
    rw [Work.id, List.getD_eq_getElem _ _ hlt]
    exact hgood _ (List.getElem_mem hlt)
  unfold serveStep
  dsimp only
  cases sv.pc with
  | next =>
    dsimp only
    rw [if_neg hgood]
    split
    · exact h.moved h.served (calls_set hj rfl) (works_set hw rfl)
    · split
      · exact h.moved h.served (calls_set hj rfl) hkeep
      · exact h.moved h.served (calls_set hj rfl) hkeep
  | missed =>
    dsimp only
    split
    · exact h.moved (by simp) (fun sv' hsv' => ⟨sv', hsv', rfl⟩) hkeep
    · exact h.moved h.served (calls_set hj rfl) hkeep
  | filled row => exact h.moved h.served (calls_set hj rfl) hkeep
  | copy row => exact h.moved h.served (calls_set hj rfl) (works_set hw rfl)

/-- Lookups of good ids only: no run aborts for an id. -/
theorem goodIds_run {σ σ' : State} {ls : List Label} (hrun : (lookups s pool).Run σ ls σ') (h : GoodIds s σ)
    (hls : ∀ ids weights scales, .lookup ids weights scales ∈ ls → ∀ id ∈ ids, ¬BadId s.rows id) :
    GoodIds s σ' := by
  induction hrun with
  | nil => exact h
  | @cons σ₀ σ₁ σ₂ l ls hstep _ ih =>
    refine ih ?_ fun ids weights scales hmem => hls ids weights scales (List.mem_cons_of_mem l hmem)
    obtain ⟨-, hl⟩ := hstep
    cases l with
    | lookup ids weights scales =>
      subst hl
      exact h.lookup (hls ids weights scales List.mem_cons_self) weights scales
    | serve j got =>
      obtain ⟨sv, w, hj, hw, hpos, rfl⟩ := hl
      exact h.serve got hj hw hpos

end GoodIds

end FlashSpark.L2.RowStore
