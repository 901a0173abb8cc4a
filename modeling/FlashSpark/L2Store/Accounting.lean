import FlashSpark.L2Store.Refines

/-!
# The size of the cache and its counters

`row_store_open` divides the budget into sets (adapter/row_store.cpp:337-341), `fetch_row`
picks a victim by an 8-bit cursor (:139-146), and `row_store_stats` reports hits, misses and
reads. The counters are bumped one by one at different moments of a fetch, so the lookups are
interleaved here at each of them: `fetches` splits the steps of `lookups` further, and
`fetches_lookups` says that nothing else changes.

* `rowStoreOpen_sized`: the cache that is mapped and reported fits the budget.
* `fetchTurn_ok`: what one step does to the counters and to what its thread has still to count.
* `Ledger`: the invariant; `ledger_inductive`: every step keeps it.
* `cache_accounting`: the counters in every reachable state.
-/
namespace FlashSpark.L2.RowStore.Accounting

/-! ## Sizing -/

/-- `isspace`. -/
def isSpace (c : Char) : Bool := c == ' ' || ('\t' ≤ c && c ≤ '\r')

/-- `strtoull(raw, &end, 10)`; `none`: `end == raw`. -/
def strtoull (raw : String) : Option Nat :=
  let chars := raw.toList.dropWhile isSpace
  let minus := chars.head? == some '-'
  let digits := (if minus ∨ chars.head? = some '+' then chars.tail else chars).takeWhile Char.isDigit
  let value := digits.foldl (fun n c => 10 * n + (c.toNat - '0'.toNat)) 0
  if digits = [] then none
  else if 2 ^ 64 ≤ value then some (2 ^ 64 - 1)
  else if minus then some ((2 ^ 64 - value) % 2 ^ 64)
  else some value

/-- mirrors adapter/row_store.cpp:42-49 (`env_u64`) -/
def envU64 (raw : Option String) (fallback : Nat) : Nat :=
  match raw with
  | none => fallback
  | some raw => if raw = "" then fallback else (strtoull raw).getD fallback

/-- The cache bytes `row_store_stats` reports. mirrors adapter/row_store.cpp:367 -/
def cacheBytes (s : Store) : Nat := s.slots * (kRowBytes + 8) + s.sets

/-- The shape of the cache mappings. -/
structure Sized (s : Store) : Prop where
  ways_pos : 1 ≤ s.ways
  ways_le : s.ways ≤ 16
  slots_eq : s.slots = s.sets * s.ways

/-- Sets are as many as fit: one set costs its ways and one cursor. -/
theorem sets_fit (budget ways : Nat) :
    budget / ((kRowBytes + 8) * ways + 1) * ways * (kRowBytes + 8) + budget / ((kRowBytes + 8) * ways + 1) ≤
      budget := by
  have h := Nat.div_mul_le_self budget ((kRowBytes + 8) * ways + 1)
  calc budget / ((kRowBytes + 8) * ways + 1) * ways * (kRowBytes + 8) + budget / ((kRowBytes + 8) * ways + 1)
      = budget / ((kRowBytes + 8) * ways + 1) * ((kRowBytes + 8) * ways + 1) := by ring
    _ ≤ budget := h

theorem rowStoreOpen_sized {io : OpenIo} {file : Option Bytes} {rows woff soff budget : Nat} {ram : Bool}
    {cacheWays : Nat} {s : Store} (h : rowStoreOpen io file rows woff soff budget ram cacheWays = .ok (some s)) :
    Sized s ∧ cacheBytes s ≤ budget := by
  unfold rowStoreOpen at h
  split at h
  · cases h
  split at h
  · cases h
  split at h
  · cases h
  split at h
  · cases h
  have hbudget : (if ram = true then 0 else budget) ≤ budget := by split <;> omega
  generalize (if ram = true then 0 else budget) = budget' at h hbudget
  dsimp only at h
  split at h
  · cases h
  obtain rfl := Option.some.inj (Except.ok.inj h)
  refine ⟨⟨Nat.le_max_left _ _, Nat.max_le.mpr ⟨by decide, Nat.min_le_left _ _⟩, rfl⟩, ?_⟩
  exact Nat.le_trans (sets_fit budget' _) hbudget

/-- Calls of `row_store_range` and `row_store_attach_packed` that return. -/
inductive Configured (s₀ : Store) : Store → Prop where
  | opened : Configured s₀ s₀
  | range {s s' : Store} {lo hi : Nat} {residentScales : Bool} {io : PinIo} :
      Configured s₀ s → rowStoreRange s lo hi residentScales io = .ok s' → Configured s₀ s'
  | attach {s s' : Store} {shard : Option Bytes} {layerId got : Nat} {fstat : Bool} :
      Configured s₀ s → rowStoreAttachPacked s shard layerId got fstat = .ok (some s') → Configured s₀ s'

/-- They leave the cache as it was mapped. -/
structure SameCache (s s' : Store) : Prop where
  sets : s'.sets = s.sets
  ways : s'.ways = s.ways
  slots : s'.slots = s.slots

theorem SameCache.refl (s : Store) : SameCache s s := ⟨rfl, rfl, rfl⟩

theorem SameCache.trans {s s' s'' : Store} (h : SameCache s s') (h' : SameCache s' s'') : SameCache s s'' :=
  ⟨h'.sets.trans h.sets, h'.ways.trans h.ways, h'.slots.trans h.slots⟩

theorem pinScales_sameCache {s s' : Store} {io : PinIo} (h : pinScales s io = some s') : SameCache s s' := by
  unfold pinScales at h
  dsimp only at h
  split at h
  · cases h
  split at h
  · obtain rfl := Option.some.inj h
    exact ⟨rfl, rfl, rfl⟩
  split at h
  · cases h
  · obtain ⟨out, -, rfl⟩ := Option.map_eq_some_iff.mp h
    exact ⟨rfl, rfl, rfl⟩

theorem range_sameCache {s s' : Store} {lo hi : Nat} {residentScales : Bool} {io : PinIo}
    (h : rowStoreRange s lo hi residentScales io = .ok s') : SameCache s s' := by
  unfold rowStoreRange at h
  split at h
  · cases h
  split at h
  · cases h
  dsimp only at h
  split at h
  · obtain rfl := Except.ok.inj h
    cases hpin : pinScales { s with rowLo := lo, rowHi := hi } io with
    | none => exact ⟨rfl, rfl, rfl⟩
    | some pinned =>
      have hsame := pinScales_sameCache hpin
      exact ⟨hsame.sets, hsame.ways, hsame.slots⟩
  · obtain rfl := Except.ok.inj h
    exact ⟨rfl, rfl, rfl⟩

theorem Configured.sameCache {s₀ s : Store} (h : Configured s₀ s) : SameCache s₀ s := by
  induction h with
  | opened => exact SameCache.refl s₀
  | range _ hrange ih => exact ih.trans (range_sameCache hrange)
  | attach _ hattach ih =>
    obtain ⟨shard, -, rfl, -⟩ := attach_spec hattach
    exact ih.trans ⟨rfl, rfl, rfl⟩

theorem SameCache.sized {s s' : Store} (h : SameCache s s') (hs : Sized s) : Sized s' := by
  refine ⟨?_, ?_, ?_⟩
  · rw [h.ways]; exact hs.ways_pos
  · rw [h.ways]; exact hs.ways_le
  · rw [h.slots, h.sets, h.ways]; exact hs.slots_eq

/-- A line of a row's set is one of the mapped slots. -/
theorem Sized.slot_lt {s : Store} (h : Sized s) (hs : s.sets ≠ 0) (id : Nat) {w : Nat} (hw : w < s.ways) :
    setOf s id < s.sets ∧ setOf s id * s.ways + w < s.slots := by
  have hset : setOf s id < s.sets := by
    rw [setOf, if_pos hs]
    exact Nat.mod_lt _ (Nat.pos_of_ne_zero hs)
  refine ⟨hset, ?_⟩
  have hle := Nat.mul_le_mul_right s.ways (show setOf s id + 1 ≤ s.sets from hset)
  rw [h.slots_eq]
  rw [Nat.succ_mul] at hle
  omega

/-! ## Fetches, one counter at a time -/

/-- Where a thread is in `serve`. `hit`: the row is copied, the hit not counted; `read`,
`scale`: a `pread` has returned, its `n` reads are not counted; `row`: the row is complete,
the miss not counted; `counted`: not inserted yet. -/
inductive Pc where
  | next
  | hit (row : Bytes)
  | missed
  | read (part : Bytes) (n : Nat)
  | weight (part : Bytes)
  | scale (row : Bytes) (n : Nat)
  | row (row : Bytes)
  | counted (row : Bytes)
  | copy (row : Bytes)

structure Server where
  call : Call
  pos : Nat
  pc : Pc

structure State where
  cache : Cache
  works : List Work
  servers : List Server
  failed : Option String

inductive Effect where
  | abort (reason : String)
  | goto (c : Cache) (pc : Pc)
  | deliver (weight scale : Bytes)

def owned (s : Store) (id : Int) : Bool := decide (0 ≤ id ∧ s.rowLo ≤ id.toNat ∧ id.toNat < s.rowHi)

/-- The first read of a miss: the packed row, or the weight. -/
def firstRead (s : Store) (id got : Nat) : Option (Bytes × Nat) :=
  match s.packedFd with
  | some shard => readFrom s (.packed shard) (kPackedHeader + (id - s.rowLo) * kRowBytes) kRowBytes got
  | none => readFrom s .table (s.weightOffset + id * kWeightBytes) kWeightBytes got

/-- What follows the first read: nothing, the pinned scale, or the second read. -/
def afterFirst (s : Store) (id : Nat) (part : Bytes) : Pc :=
  match s.packedFd with
  | some _ => .row part
  | none =>
    match s.scales with
    | some scales => .row (part ++ slice scales ((id - s.rowLo) * kScaleBytes) kScaleBytes)
    | none => .weight part

/-- One atomic step on the id at hand. mirrors adapter/row_store.cpp:152-162 (`serve`),
:109-147 (`fetch_row`) and :88-102 (`read_from`) -/
def fetchTurn (s : Store) (c : Cache) (id : Int) (pc : Pc) (got : Nat) : Effect :=
  match pc with
  | .next =>
    if id < 0 ∨ s.rows ≤ id.toNat then .abort "row ID out of bounds"
    else if id.toNat < s.rowLo ∨ s.rowHi ≤ id.toNat then
      .deliver (List.replicate kWeightBytes 0) (List.replicate kScaleBytes 0)
    else
      match probe s c id.toNat with
      | some row => .goto c (.hit row)
      | none => .goto c .missed
  | .hit row => .goto { c with hits := c.hits + 1 } (.copy row)
  | .missed =>
    match firstRead s id.toNat got with
    | none => .abort "short or failed direct read"
    | some (part, n) => .goto c (.read part n)
  | .read part n => .goto { c with reads := c.reads + n } (afterFirst s id.toNat part)
  | .weight part =>
    match readFrom s .table (s.scaleOffset + id.toNat * kScaleBytes) kScaleBytes got with
    | none => .abort "short or failed direct read"
    | some (scale, n) => .goto c (.scale (part ++ scale) n)
  | .scale row n => .goto { c with reads := c.reads + n } (.row row)
  | .row row => .goto { c with misses := c.misses + 1 } (.counted row)
  | .counted row => .goto (insert s c id.toNat row) (.copy row)
  | .copy row => .deliver (block row 0 kWeightBytes) (block row kWeightBytes kScaleBytes)

def State.apply (σ : State) (j : Nat) (sv : Server) (w : Work) : Effect → State
  | .abort reason => { σ with failed := some reason }
  | .goto c pc => { σ with cache := c, servers := σ.servers.set j { sv with pc := pc } }
  | .deliver weight scale =>
    { σ with
      works := σ.works.set sv.call.work (w.put sv.pos weight scale)
      servers := σ.servers.set j { sv with pos := sv.pos + 1, pc := .next } }

def State.lookup (pool : Bool) (σ : State) (ids : List Int) (weights scales : Nat → UInt8) : State :=
  { σ with
    works := σ.works ++ [⟨ids, weights, scales, weights, scales⟩]
    servers := σ.servers ++
      (serveCalls pool σ.works.length ids.length).map fun c => ⟨c, c.start, .next⟩ }

inductive Label where
  | lookup (ids : List Int) (weights scales : Nat → UInt8)
  | turn (j got : Nat)

/-- Lookups on the loaded store `s`; `pool`: the I/O pool exists. -/
def fetches (s : Store) (pool : Bool) : LTS State Label where
  init σ := σ = ⟨Cache.empty, [], [], none⟩
  step σ l σ' := σ.failed = none ∧
    match l with
    | .lookup ids weights scales => σ' = σ.lookup pool ids weights scales
    | .turn j got => ∃ sv w, σ.servers[j]? = some sv ∧ σ.works[sv.call.work]? = some w ∧
        sv.pos < sv.call.stop ∧ σ' = σ.apply j sv w (fetchTurn s σ.cache (w.id sv.pos) sv.pc got)

/-! ## What a thread has counted -/

/-- Its id is among the hits or the misses already. -/
def Pc.counts : Pc → Nat
  | .counted _ => 1
  | .copy _ => 1
  | _ => 0

/-- Its read is counted and its miss is not. -/
def Pc.unmissed : Pc → Nat
  | .row _ => 1
  | _ => 0

/-- What the reads of a miss have brought so far. -/
def Reads (s : Store) (id : Nat) : Pc → Prop
  | .read part n => ∃ got, firstRead s id got = some (part, n)
  | .weight part => s.packedFd = none ∧ s.scales = none ∧ ∃ got n, firstRead s id got = some (part, n)
  | .scale row _ => s.packedFd = none ∧ ∃ got n, readRow s id got = some (row, n)
  | .row row => ∃ got n, readRow s id got = some (row, n)
  | _ => True

/-- A thread inside `fetch_row` is there for an owned id. -/
structure Fetching (s : Store) (id : Int) (pc : Pc) : Prop where
  owned : pc ≠ .next → owned s id = true
  reads : Reads s id.toNat pc

theorem Fetching.next (s : Store) (id : Int) : Fetching s id .next := ⟨fun h => absurd rfl h, trivial⟩

theorem readRow_of_first {s : Store} {id got : Nat} {part : Bytes} {n : Nat}
    (hfirst : firstRead s id got = some (part, n)) : Reads s id (afterFirst s id part) := by
  unfold firstRead at hfirst
  unfold afterFirst
  cases hpacked : s.packedFd with
  | some shard =>
    rw [hpacked] at hfirst
    refine ⟨fun _ => got, n, ?_⟩
    unfold readRow
    rw [hpacked]
    exact hfirst
  | none =>
    rw [hpacked] at hfirst
    cases hscales : s.scales with
    | some scales =>
      refine ⟨fun _ => got, n, ?_⟩
      unfold readRow
      rw [hpacked, hscales]
      dsimp only at hfirst ⊢
      rw [hfirst]
    | none =>
      refine ⟨hpacked, hscales, got, n, ?_⟩
      unfold firstRead
      rw [hpacked]
      exact hfirst

theorem readRow_of_second {s : Store} {id got got' : Nat} {part scale : Bytes} {n m : Nat}
    (hpacked : s.packedFd = none) (hscales : s.scales = none) (hfirst : firstRead s id got = some (part, n))
    (hsecond : readFrom s .table (s.scaleOffset + id * kScaleBytes) kScaleBytes got' = some (scale, m)) :
    readRow s id (fun i => if i = 0 then got else got') = some (part ++ scale, n + m) := by
  unfold firstRead at hfirst
  unfold readRow
  rw [hpacked] at hfirst ⊢
  dsimp only at hfirst ⊢
  rw [if_pos rfl, hfirst, hscales]
  dsimp only
  rw [if_neg Nat.one_ne_zero, hsecond]

/-- What a step does, for a thread whose reads so far are known. -/
def TurnOk (s : Store) (c : Cache) (id : Int) (pc : Pc) : Effect → Prop
  | .abort _ => True
  | .goto c' pc' => Fetching s id pc' ∧
      c'.hits + c'.misses + pc.counts = c.hits + c.misses + pc'.counts ∧
      (s.packedFd ≠ none → c'.reads + c.misses + pc.unmissed = c.reads + c'.misses + pc'.unmissed) ∧
      ∀ set, c.victim set < s.ways → c'.victim set < s.ways
  | .deliver _ _ => pc.counts = (if owned s id = true then 1 else 0) ∧ pc.unmissed = 0

theorem packed_reads_one {s : Store} {id got : Nat} {part : Bytes} {n : Nat} (hpacked : s.packedFd ≠ none)
    (hfirst : firstRead s id got = some (part, n)) : n = 1 := by
  unfold firstRead at hfirst
  cases hshard : s.packedFd with
  | none => exact absurd hshard hpacked
  | some shard =>
    rw [hshard] at hfirst
    exact (readFrom_packed hfirst).2

theorem insert_counters (s : Store) (c : Cache) (id : Nat) (row : Bytes) :
    (insert s c id row).hits = c.hits ∧ (insert s c id row).misses = c.misses ∧
      (insert s c id row).reads = c.reads := by
  unfold insert
  split
  · exact ⟨rfl, rfl, rfl⟩
  · exact ⟨rfl, rfl, rfl⟩

/-- The cursor stays below the ways. -/
theorem insert_victim {s : Store} {c : Cache} (hways : 0 < s.ways) (id : Nat) (row : Bytes) (set : Nat)
    (h : c.victim set < s.ways) : (insert s c id row).victim set < s.ways := by
  unfold insert
  split
  · dsimp only
    rw [Function.update_apply]
    split
    · have := Nat.mod_lt (c.victim (setOf s id) + 1) hways
      have := Nat.mod_le ((c.victim (setOf s id) + 1) % s.ways) 256
      omega
    · exact h
  · exact h

theorem fetchTurn_ok {s : Store} (hways : 0 < s.ways) (c : Cache) {id : Int} {pc : Pc} (got : Nat)
    (h : Fetching s id pc) : TurnOk s c id pc (fetchTurn s c id pc got) := by
  unfold fetchTurn
  cases pc with
  | next =>
    dsimp only
    split
    · trivial
    rename_i hgood
    split
    · rename_i hout
      refine ⟨?_, rfl⟩
      rw [if_neg]
      · rfl
      · rw [owned, decide_eq_true_eq]
        omega
    rename_i hin
    have howned : owned s id = true := by
      rw [owned, decide_eq_true_eq]
      omega
    split
    · exact ⟨⟨fun _ => howned, trivial⟩, rfl, fun _ => rfl, fun _ hv => hv⟩
    · exact ⟨⟨fun _ => howned, trivial⟩, rfl, fun _ => rfl, fun _ hv => hv⟩
  | hit row =>
    have howned := h.owned nofun
    refine ⟨⟨fun _ => howned, trivial⟩, ?_, fun _ => rfl, fun _ hv => hv⟩
    simp only [Pc.counts]
    omega
  | missed =>
    have howned := h.owned nofun
    dsimp only
    split
    · trivial
    · rename_i part n hread
      exact ⟨⟨fun _ => howned, got, hread⟩, rfl, fun _ => rfl, fun _ hv => hv⟩
  | read part n =>
    have howned := h.owned nofun
    obtain ⟨got', hfirst⟩ := h.reads
    refine ⟨⟨fun _ => howned, readRow_of_first hfirst⟩, ?_, fun hpacked => ?_, fun _ hv => hv⟩
    · have : (afterFirst s id.toNat part).counts = 0 := by
        unfold afterFirst
        split
        · rfl
        · split <;> rfl
      rw [this]
      rfl
    · have hone := packed_reads_one hpacked hfirst
      have hafter : (afterFirst s id.toNat part).unmissed = 1 := by
        unfold afterFirst
        split
        · rfl
        · rename_i hnone
          exact absurd hnone hpacked
      rw [hafter]
      simp only [Pc.unmissed]
      omega
  | weight part =>
    have howned := h.owned nofun
    obtain ⟨hpacked, hscales, got', n, hfirst⟩ := h.reads
    dsimp only
    split
    · trivial
    · rename_i scale m hread
      exact ⟨⟨fun _ => howned, hpacked, _, _, readRow_of_second hpacked hscales hfirst hread⟩, rfl,
        fun hsome => absurd hpacked hsome, fun _ hv => hv⟩
  | scale row n =>
    have howned := h.owned nofun
    obtain ⟨hpacked, hread⟩ := h.reads
    exact ⟨⟨fun _ => howned, hread⟩, rfl, fun hsome => absurd hpacked hsome, fun _ hv => hv⟩
  | row row =>
    have howned := h.owned nofun
    refine ⟨⟨fun _ => howned, trivial⟩, ?_, fun _ => ?_, fun _ hv => hv⟩
    · simp only [Pc.counts]
      omega
    · simp only [Pc.unmissed]
      omega
  | counted row =>
    have howned := h.owned nofun
    obtain ⟨hhits, hmisses, hreads⟩ := insert_counters s c id.toNat row
    refine ⟨⟨fun _ => howned, trivial⟩, ?_, fun _ => ?_, insert_victim hways id.toNat row⟩
    · rw [hhits, hmisses]
      rfl
    · rw [hmisses, hreads]
      rfl
  | copy row =>
    refine ⟨?_, rfl⟩
    rw [if_pos (h.owned nofun)]
    rfl

/-! ## The ledger -/

/-- The id at place `i` of lookup `k`. -/
def State.id (σ : State) (k i : Nat) : Int := (σ.works[k]?).elim (-1) (·.id i)

def State.count (σ : State) (k : Nat) : Nat := (σ.works[k]?).elim 0 (·.ids.length)

/-- The owned ids a thread has served. -/
def Server.served (s : Store) (id : Nat → Int) (sv : Server) : Nat :=
  (List.range' sv.call.start (sv.pos - sv.call.start)).countP fun i => owned s (id i)

def State.served (s : Store) (σ : State) : Nat :=
  (σ.servers.map fun sv => sv.served s (σ.id sv.call.work)).sum

/-- What a thread has contributed to hits and misses. -/
def State.account (s : Store) (σ : State) (sv : Server) : Nat :=
  sv.served s (σ.id sv.call.work) + sv.pc.counts

structure ServerOk (s : Store) (σ : State) (sv : Server) : Prop where
  work_lt : sv.call.work < σ.works.length
  start_le : sv.call.start ≤ sv.pos
  pos_le : sv.pos ≤ sv.call.stop
  busy : sv.pc ≠ .next → sv.pos < sv.call.stop
  fetching : Fetching s (σ.id sv.call.work sv.pos) sv.pc

/-- The counters are what the threads have contributed. -/
structure Ledger (s : Store) (pool : Bool) (σ : State) : Prop where
  servers : ∀ sv ∈ σ.servers, ServerOk s σ sv
  total : σ.cache.hits + σ.cache.misses = (σ.servers.map (σ.account s)).sum
  reads : s.packedFd ≠ none → σ.cache.reads = σ.cache.misses + (σ.servers.map fun sv => sv.pc.unmissed).sum
  victim : ∀ set, σ.cache.victim set < s.ways
  calls : σ.servers.map Server.call = (List.range σ.works.length).flatMap fun k => serveCalls pool k (σ.count k)

/-- The states of a step: the works keep their ids. -/
structure SameIds (σ σ' : State) : Prop where
  length : σ'.works.length = σ.works.length
  id : σ'.id = σ.id
  count : σ'.count = σ.count

theorem ServerOk.congr {s : Store} {σ σ' : State} {sv : Server} (h : ServerOk s σ sv) (hids : SameIds σ σ') :
    ServerOk s σ' sv :=
  ⟨hids.length ▸ h.work_lt, h.start_le, h.pos_le, h.busy, hids.id ▸ h.fetching⟩

theorem sameIds_set {σ : State} {k : Nat} {w : Work} (hw : σ.works[k]? = some w) (i : Nat) (weight scale : Bytes)
    (c : Cache) (servers : List Server) :
    SameIds σ { σ with cache := c, works := σ.works.set k (w.put i weight scale), servers := servers } := by
  have hget (k' : Nat) : (σ.works.set k (w.put i weight scale))[k']? =
      if k = k' then some (w.put i weight scale) else σ.works[k']? := by
    rw [List.getElem?_set]
    split
    · rw [if_pos (List.getElem?_eq_some_iff.mp hw).1]
    · rfl
  refine ⟨List.length_set, ?_, ?_⟩
  · funext k' i'
    simp only [State.id, hget]
    split
    · rename_i hk
      subst hk
      rw [hw]
      rfl
    · rfl
  · funext k'
    simp only [State.count, hget]
    split
    · rename_i hk
      subst hk
      rw [hw]
      rfl
    · rfl

theorem Ledger.init {s : Store} (hways : 0 < s.ways) (pool : Bool) : Ledger s pool ⟨Cache.empty, [], [], none⟩ where
  servers _ h := nomatch h
  total := rfl
  reads _ := rfl
  victim _ := hways
  calls := rfl

/-- A step that stays at its id. -/
theorem Ledger.goto {s : Store} {pool : Bool} {σ : State} (h : Ledger s pool σ) {j : Nat} {sv : Server}
    (hj : σ.servers[j]? = some sv) (hpos : sv.pos < sv.call.stop) {c : Cache} {pc : Pc}
    (hturn : TurnOk s σ.cache (σ.id sv.call.work sv.pos) sv.pc (.goto c pc)) :
    Ledger s pool { σ with cache := c, servers := σ.servers.set j { sv with pc := pc } } := by
  obtain ⟨hfetching, hcounts, hreads, hvictim⟩ := hturn
  have hok := h.servers sv (List.mem_of_getElem? hj)
  refine ⟨fun x hx => ?_, ?_, fun hpacked => ?_, fun set => hvictim set (h.victim set), ?_⟩
  · rcases List.mem_or_eq_of_mem_set hx with hx | rfl
    · have hx := h.servers x hx
      exact ⟨hx.work_lt, hx.start_le, hx.pos_le, hx.busy, hx.fetching⟩
    · exact ⟨hok.work_lt, hok.start_le, hok.pos_le, fun _ => hpos, hfetching⟩
  · obtain ⟨rest, hrest, hset⟩ := sum_map_set (σ.account s) hj
    have htotal := h.total
    refine Eq.trans ?_ (hset _).symm
    rw [hrest] at htotal
    simp only [State.account, Server.served] at htotal ⊢
    omega
  · obtain ⟨rest, hrest, hset⟩ := sum_map_set (fun x : Server => x.pc.unmissed) hj
    have hold := h.reads hpacked
    have hnew := hreads hpacked
    rw [hrest] at hold
    refine Eq.trans ?_ (congrArg (c.misses + ·) (hset _).symm)
    dsimp only at hold ⊢
    omega
  · refine Eq.trans ?_ h.calls
    exact map_set_of_eq Server.call hj rfl

/-- A step that delivers its id and goes on to the next. -/
theorem Ledger.deliver {s : Store} {pool : Bool} {σ : State} (h : Ledger s pool σ) {j : Nat} {sv : Server}
    (hj : σ.servers[j]? = some sv) {w : Work} (hw : σ.works[sv.call.work]? = some w)
    (hpos : sv.pos < sv.call.stop) {weight scale : Bytes}
    (hturn : TurnOk s σ.cache (σ.id sv.call.work sv.pos) sv.pc (.deliver weight scale)) :
    Ledger s pool (σ.apply j sv w (.deliver weight scale)) := by
  obtain ⟨hcounts, hunmissed⟩ := hturn
  have hids := sameIds_set hw sv.pos weight scale σ.cache
    (σ.servers.set j { sv with pos := sv.pos + 1, pc := .next })
  have hok := h.servers sv (List.mem_of_getElem? hj)
  refine ⟨fun x hx => ?_, ?_, fun hpacked => ?_, h.victim, ?_⟩
  · refine ServerOk.congr ?_ hids
    rcases List.mem_or_eq_of_mem_set hx with hx | rfl
    · exact h.servers x hx
    · exact ⟨hok.work_lt, Nat.le_succ_of_le hok.start_le, hpos, fun hne => absurd rfl hne, Fetching.next s _⟩
  · obtain ⟨rest, hrest, hset⟩ := sum_map_set (σ.account s) hj
    have htotal := h.total
    have hsame : (σ.apply j sv w (.deliver weight scale)).account s = σ.account s := by
      funext x
      unfold State.account
      rw [show (σ.apply j sv w (.deliver weight scale)).id = σ.id from hids.id]
    rw [hsame]
    refine Eq.trans ?_ (hset _).symm
    rw [hrest] at htotal
    -- one more place, which counts if its id is owned
    have hrange : List.range' sv.call.start (sv.pos + 1 - sv.call.start) =
        List.range' sv.call.start (sv.pos - sv.call.start) ++ [sv.pos] := by
      have hle := hok.start_le
      rw [show sv.pos + 1 - sv.call.start = sv.pos - sv.call.start + 1 by omega, List.range'_1_concat,
        Nat.add_sub_cancel' hle]
    simp only [State.account, Server.served] at htotal ⊢
    rw [hrange, List.countP_append, List.countP_singleton, ← hcounts]
    exact htotal
  · obtain ⟨rest, hrest, hset⟩ := sum_map_set (fun x : Server => x.pc.unmissed) hj
    have hold := h.reads hpacked
    rw [hrest, hunmissed] at hold
    exact hold.trans (congrArg (σ.cache.misses + ·) (hset ⟨sv.call, sv.pos + 1, .next⟩).symm)
  · refine Eq.trans ?_ (h.calls.trans ?_)
    · exact map_set_of_eq Server.call hj rfl
    · rw [show (σ.apply j sv w (.deliver weight scale)).count = σ.count from hids.count]
      exact congrArg (fun n => (List.range n).flatMap _) hids.length.symm

/-- A new lookup has nothing counted. -/
theorem Ledger.lookup {s : Store} {pool : Bool} {σ : State} (h : Ledger s pool σ) (ids : List Int)
    (weights scales : Nat → UInt8) : Ledger s pool (σ.lookup pool ids weights scales) := by
  have hold (k : Nat) (hk : k < σ.works.length) :
      (σ.lookup pool ids weights scales).works[k]? = σ.works[k]? := List.getElem?_append_left hk
  have hid (k : Nat) (hk : k < σ.works.length) : (σ.lookup pool ids weights scales).id k = σ.id k := by
    funext i
    rw [State.id, State.id, hold k hk]
  have hlen : (σ.lookup pool ids weights scales).works.length = σ.works.length + 1 := List.length_append
  have hnew : ∀ sv ∈ (serveCalls pool σ.works.length ids.length).map fun c => (⟨c, c.start, .next⟩ : Server),
      ∃ c ∈ serveCalls pool σ.works.length ids.length, sv = ⟨c, c.start, .next⟩ := fun sv hsv => by
    obtain ⟨c, hc, rfl⟩ := List.mem_map.mp hsv
    exact ⟨c, hc, rfl⟩
  -- the new threads stand at their first id
  have hzero (f : Server → Nat) (hf : ∀ c, f ⟨c, c.start, .next⟩ = 0) :
      (((serveCalls pool σ.works.length ids.length).map fun c => (⟨c, c.start, .next⟩ : Server)).map f).sum = 0 := by
    refine List.sum_eq_zero fun n hn => ?_
    obtain ⟨sv, hsv, rfl⟩ := List.mem_map.mp hn
    obtain ⟨c, -, rfl⟩ := hnew sv hsv
    exact hf c
  refine ⟨fun sv hsv => ?_, ?_, fun hpacked => ?_, h.victim, ?_⟩
  · rcases List.mem_append.mp hsv with hsv | hsv
    · have hok := h.servers sv hsv
      refine ⟨?_, hok.start_le, hok.pos_le, hok.busy, ?_⟩
      · rw [hlen]
        exact Nat.lt_succ_of_lt hok.work_lt
      · rw [hid _ hok.work_lt]
        exact hok.fetching
    · obtain ⟨c, hc, rfl⟩ := hnew sv hsv
      obtain ⟨hwork, hstart, -⟩ := serveCalls_work hc
      refine ⟨?_, Nat.le_refl _, hstart, fun hne => absurd rfl hne, Fetching.next s _⟩
      rw [hlen, hwork]
      exact Nat.lt_succ_self _
  · show σ.cache.hits + σ.cache.misses = ((σ.servers ++ _).map _).sum
    rw [List.map_append, List.sum_append, hzero _ fun c => by simp [State.account, Server.served, Pc.counts],
      Nat.add_zero, h.total]
    refine congrArg List.sum (List.map_congr_left fun sv hsv => ?_)
    rw [State.account, State.account, hid _ (h.servers sv hsv).work_lt]
  · show σ.cache.reads = σ.cache.misses + ((σ.servers ++ _).map _).sum
    rw [List.map_append, List.sum_append, hzero _ fun _ => rfl, Nat.add_zero]
    exact h.reads hpacked
  · show (σ.servers ++ _).map Server.call = _
    rw [List.map_append, h.calls, hlen, List.range_succ, List.flatMap_append, List.flatMap_singleton, List.map_map]
    congr 1
    · refine List.flatMap_congr fun k hk => ?_
      rw [State.count, State.count, hold k (List.mem_range.mp hk)]
    · have hcount : (σ.lookup pool ids weights scales).count σ.works.length = ids.length := by
        simp [State.count, State.lookup]
      rw [hcount]
      exact List.map_id _

theorem ledger_inductive {s : Store} (hways : 0 < s.ways) (pool : Bool) :
    (fetches s pool).Inductive (Ledger s pool) where
  init σ hσ := by
    subst hσ
    exact Ledger.init hways pool
  step σ l σ' h hstep := by
    obtain ⟨-, hl⟩ := hstep
    cases l with
    | lookup ids weights scales =>
      subst hl
      exact h.lookup ids weights scales
    | turn j got =>
      obtain ⟨sv, w, hj, hw, hpos, rfl⟩ := hl
      have hid : w.id sv.pos = σ.id sv.call.work sv.pos := by rw [State.id, hw]; rfl
      have hok := h.servers sv (List.mem_of_getElem? hj)
      have hturn := fetchTurn_ok hways σ.cache got hok.fetching
      rw [hid]
      cases heffect : fetchTurn s σ.cache (σ.id sv.call.work sv.pos) sv.pc got with
      | abort reason =>
        exact ⟨fun sv hsv => (h.servers sv hsv).congr ⟨rfl, rfl, rfl⟩, h.total, h.reads, h.victim, h.calls⟩
      | goto c pc =>
        rw [heffect] at hturn
        exact h.goto hj hpos hturn
      | deliver weight scale =>
        rw [heffect] at hturn
        exact h.deliver hj hw hpos hturn

/-! ## What the counters say -/

/-- The `serve` calls of a lookup go over its places once. -/
theorem serveCalls_places (pool : Bool) (k count : Nat) :
    (serveCalls pool k count).flatMap (fun c => List.range' c.start (c.stop - c.start)) = List.range count := by
  unfold serveCalls
  split
  · rw [List.flatMap_singleton, Nat.sub_zero, List.range_eq_range']
  · rw [List.flatMap_map]
    have hone : ∀ t ∈ List.range ((count + kChunk - 1) / kChunk),
        List.range' (t * kChunk) (min (t * kChunk + kChunk) count - t * kChunk) = [t] := by
      intro t ht
      rw [List.mem_range] at ht
      simp only [kChunk] at ht ⊢
      rw [show min (t * 1 + 1) count - t * 1 = 1 by omega, Nat.mul_one]
      rfl
    refine (List.flatMap_congr hone).trans ?_
    rw [List.flatMap_singleton']
    exact congrArg List.range (by simp [kChunk])

/-- The owned ids of a lookup. -/
theorem countP_ids (s : Store) (w : Work) :
    (List.range w.ids.length).countP (fun i => owned s (w.id i)) = w.ids.countP (owned s) := by
  have hids : (List.range w.ids.length).map w.id = w.ids := by
    refine List.ext_getElem (by simp) fun i h₁ h₂ => ?_
    simp [Work.id, h₂]
  conv_rhs => rw [← hids]
  rw [List.countP_map]
  rfl

/-- When all calls have finished, all owned ids are served. -/
theorem Ledger.served_all {s : Store} {pool : Bool} {σ : State} (h : Ledger s pool σ)
    (hdone : ∀ sv ∈ σ.servers, sv.pos = sv.call.stop) :
    σ.served s = (σ.works.map fun w => w.ids.countP (owned s)).sum := by
  have hcalls : σ.served s = ((σ.servers.map Server.call).map fun c =>
      (List.range' c.start (c.stop - c.start)).countP fun i => owned s (σ.id c.work i)).sum := by
    rw [List.map_map]
    refine congrArg List.sum (List.map_congr_left fun sv hsv => ?_)
    rw [Server.served, hdone sv hsv]
    rfl
  have hwork (k : Nat) (hk : k ∈ List.range σ.works.length) :
      ((serveCalls pool k (σ.count k)).map fun c =>
        (List.range' c.start (c.stop - c.start)).countP fun i => owned s (σ.id c.work i)).sum =
      (σ.works[k]?).elim 0 fun w => w.ids.countP (owned s) := by
    have hk : k < σ.works.length := List.mem_range.mp hk
    have hget : σ.works[k]? = some σ.works[k] := List.getElem?_eq_getElem hk
    have hsame : ((serveCalls pool k (σ.count k)).map fun c =>
        (List.range' c.start (c.stop - c.start)).countP fun i => owned s (σ.id c.work i)) =
        (serveCalls pool k (σ.count k)).map fun c =>
          (List.range' c.start (c.stop - c.start)).countP fun i => owned s (σ.works[k].id i) := by
      refine List.map_congr_left fun c hc => ?_
      rw [(serveCalls_work hc).1]
      simp only [State.id, hget, Option.elim_some]
    rw [hsame, hget, Option.elim_some, ← countP_ids]
    have hcount : σ.count k = σ.works[k].ids.length := by simp only [State.count, hget, Option.elim_some]
    rw [hcount, ← serveCalls_places pool k, List.countP_flatMap]
    rfl
  rw [hcalls, h.calls, List.map_flatMap, List.flatMap_def, List.sum_flatten, List.map_map]
  refine (congrArg List.sum (List.map_congr_left hwork)).trans ?_
  refine congrArg List.sum (List.ext_getElem (by simp) fun k h₁ h₂ => ?_)
  have hk : k < σ.works.length := by simpa using h₂
  simp [hk]

/-- Where every thread is between two ids, nothing is left to be counted. -/
theorem sum_idle {σ : State} (f : Pc → Nat) (hf : f .next = 0) (hidle : ∀ sv ∈ σ.servers, sv.pc = .next) :
    (σ.servers.map fun sv => f sv.pc).sum = 0 := by
  refine List.sum_eq_zero fun n hn => ?_
  obtain ⟨sv, hsv, rfl⟩ := List.mem_map.mp hn
  rw [hidle sv hsv, hf]

/-- What holds of the cache's cursors and counters. -/
structure Accounted (s : Store) (σ : State) : Prop where
  /-- The victim of every set, and with it every line a fetch looks at or fills, is a slot. -/
  victim : ∀ set, σ.cache.victim set < s.ways
  slot : s.sets ≠ 0 → ∀ id w, w < s.ways → setOf s id < s.sets ∧ setOf s id * s.ways + w < s.slots
  /-- At any moment: what is served, and what is counted but not delivered. -/
  counted : σ.cache.hits + σ.cache.misses = σ.served s + (σ.servers.map fun sv => sv.pc.counts).sum
  idle : (∀ sv ∈ σ.servers, sv.pc = .next) → σ.cache.hits + σ.cache.misses = σ.served s
  returned : (∀ sv ∈ σ.servers, sv.pos = sv.call.stop) →
    σ.cache.hits + σ.cache.misses = (σ.works.map fun w => w.ids.countP (owned s)).sum
  packed : s.packedFd ≠ none → (∀ sv ∈ σ.servers, sv.pc = .next) → σ.cache.misses = σ.cache.reads

theorem Ledger.accounted {s : Store} {pool : Bool} {σ : State} (hs : Sized s) (h : Ledger s pool σ) :
    Accounted s σ := by
  have hcounted : σ.cache.hits + σ.cache.misses = σ.served s + (σ.servers.map fun sv => sv.pc.counts).sum := by
    rw [h.total]
    unfold State.served State.account
    exact List.sum_map_add
  have hidle (hnext : ∀ sv ∈ σ.servers, sv.pc = .next) : σ.cache.hits + σ.cache.misses = σ.served s := by
    rw [hcounted, sum_idle Pc.counts rfl hnext, Nat.add_zero]
  refine ⟨h.victim, fun hsets id w hw => hs.slot_lt hsets id hw, hcounted, hidle, fun hdone => ?_,
    fun hpacked hnext => ?_⟩
  · rw [← h.served_all hdone]
    refine hidle fun sv hsv => ?_
    by_contra hne
    exact Nat.lt_irrefl _ (hdone sv hsv ▸ (h.servers sv hsv).busy hne)
  · rw [h.reads hpacked, sum_idle Pc.unmissed rfl hnext, Nat.add_zero]

/-- **Sizing and accounting.** The cache fits the budget; in every state that lookups reach
on the store, however it was configured, every cursor names a slot and the counters are
exact. -/
theorem cache_accounting {io : OpenIo} {file : Option Bytes} {rows woff soff budget : Nat} {ram : Bool}
    {setting : Option String} {s₀ : Store}
    (hopen : rowStoreOpen io file rows woff soff budget ram (envU64 setting 4) = .ok (some s₀)) :
    1 ≤ s₀.ways ∧ s₀.ways ≤ 16 ∧ s₀.slots * (kRowBytes + 8) + s₀.sets ≤ budget ∧
    ∀ s, Configured s₀ s → cacheBytes s = cacheBytes s₀ ∧
      ∀ pool σ, (fetches s pool).Reachable σ → Accounted s σ := by
  obtain ⟨hsized, hbytes⟩ := rowStoreOpen_sized hopen
  refine ⟨hsized.ways_pos, hsized.ways_le, hbytes, fun s hconf => ⟨?_, fun pool σ hσ => ?_⟩⟩
  · have hsame := hconf.sameCache
    rw [cacheBytes, cacheBytes, hsame.slots, hsame.sets]
  · have hs := hconf.sameCache.sized hsized
    exact ((ledger_inductive hs.ways_pos pool).reachable σ hσ).accounted hs

/-- A step that can be run. -/
def State.next (s : Store) (pool : Bool) (σ : State) : Label → Option State
  | .lookup ids weights scales => if σ.failed.isNone then some (σ.lookup pool ids weights scales) else none
  | .turn j got =>
    match σ.servers[j]? with
    | none => none
    | some sv =>
      match σ.works[sv.call.work]? with
      | none => none
      | some w =>
        if σ.failed.isNone ∧ sv.pos < sv.call.stop then
          some (σ.apply j sv w (fetchTurn s σ.cache (w.id sv.pos) sv.pc got))
        else none

def State.walk (s : Store) (pool : Bool) (σ : State) (ls : List Label) : Option State :=
  ls.foldlM (State.next s pool) σ

theorem next_step {s : Store} {pool : Bool} {σ σ' : State} {l : Label} (h : σ.next s pool l = some σ') :
    (fetches s pool).step σ l σ' := by
  cases l with
  | lookup ids weights scales =>
    simp only [State.next, Option.ite_none_right_eq_some, Option.isNone_iff_eq_none] at h
    exact ⟨h.1, (Option.some.inj h.2).symm⟩
  | turn j got =>
    simp only [State.next] at h
    split at h
    · cases h
    rename_i sv hsv
    split at h
    · cases h
    rename_i w hw
    simp only [Option.ite_none_right_eq_some, Option.isNone_iff_eq_none] at h
    exact ⟨h.1.1, sv, w, hsv, hw, h.1.2, (Option.some.inj h.2).symm⟩

theorem walk_run {s : Store} {pool : Bool} {σ σ' : State} {ls : List Label} (h : σ.walk s pool ls = some σ') :
    (fetches s pool).Run σ ls σ' := by
  induction ls generalizing σ with
  | nil =>
    obtain rfl := Option.some.inj h
    exact .nil _
  | cons l ls ih =>
    simp only [State.walk, List.foldlM_cons, Option.bind_eq_bind, Option.bind_eq_some_iff] at h
    obtain ⟨σ₁, hnext, hrest⟩ := h
    exact .cons (next_step hnext) (ih hrest)

/-- Row 0 is owned and row 1 is not: ids 0, 1, 0 are a miss, zeros and a hit. -/
def demoWalk : Option State :=
  State.walk demoStore false ⟨Cache.empty, [], [], none⟩
    (.lookup [0, 1, 0] (fun _ => 9) (fun _ => 9) :: List.replicate 12 (.turn 0 8192))

theorem demoWalk_accounted : ∃ σ, demoWalk = some σ ∧ Accounted demoStore σ ∧ σ.cache.hits + σ.cache.misses = 2 := by
  have hopen : rowStoreOpen ⟨true, true, true, true⟩ (some demoFile) 2 0 512 1500 false (envU64 none 4) =
      .ok (some { demoStore with rowHi := 2 }) := by
    have hlen : demoFile.length = 528 := List.length_replicate
    simp [rowStoreOpen, demoStore, hlen, kRowBytes, envU64]
  have hrange : rowStoreRange { demoStore with rowHi := 2 } 0 1 false ⟨true, true, fun _ => 0⟩ = .ok demoStore := rfl
  have hcounts : (demoWalk.map fun σ => (σ.cache.hits, σ.cache.misses)) = some (1, 1) := by decide +kernel
  obtain ⟨σ, hσ, hcount⟩ := Option.map_eq_some_iff.mp hcounts
  obtain ⟨hhits, hmisses⟩ := Prod.mk.inj hcount
  have hconf := Configured.range .opened hrange
  have haccounted := ((cache_accounting hopen).2.2.2 demoStore hconf).2 false σ ⟨_, _, rfl, walk_run hσ⟩
  exact ⟨σ, hσ, haccounted, by rw [hhits, hmisses]⟩

/-! ## Nothing but the counters is new -/

/-- The step of `lookups` a thread is at: from the first read to the miss it is about to
read. -/
def Pc.abs : Pc → RowStore.Pc
  | .next => .next
  | .hit bytes => .copy bytes
  | .missed => .missed
  | .read _ _ => .missed
  | .weight _ => .missed
  | .scale _ _ => .missed
  | .row _ => .missed
  | .counted bytes => .filled bytes
  | .copy bytes => .copy bytes

def Server.abs (sv : Server) : RowStore.Server := ⟨sv.call, sv.pos, sv.pc.abs⟩

/-- The caches agree but for the counters. -/
structure SameLines (c c' : Cache) : Prop where
  cache : c'.cache = c.cache
  keys : c'.keys = c.keys
  victim : c'.victim = c.victim

theorem SameLines.refl (c : Cache) : SameLines c c := ⟨rfl, rfl, rfl⟩

theorem SameLines.probe {c c' : Cache} (h : SameLines c c') (s : Store) (id : Nat) :
    RowStore.probe s c' id = RowStore.probe s c id := by
  unfold RowStore.probe
  rw [h.keys, h.cache]

theorem SameLines.insert {c c' : Cache} (h : SameLines c c') (s : Store) (id : Nat) (row : Bytes) :
    SameLines (RowStore.insert s c id row) (RowStore.insert s c' id row) := by
  unfold RowStore.insert
  split
  · rw [h.keys, h.cache, h.victim]
    exact ⟨rfl, rfl, rfl⟩
  · exact h

structure Same (σ : State) (τ : RowStore.State) : Prop where
  works : τ.works = σ.works
  servers : τ.servers = σ.servers.map Server.abs
  failed : τ.failed = σ.failed
  cache : SameLines σ.cache τ.cache

theorem afterFirst_abs (s : Store) (id : Nat) (part : Bytes) : (afterFirst s id part).abs = .missed := by
  unfold afterFirst
  split
  · rfl
  · split <;> rfl

section Simulation
variable {s : Store} {pool : Bool} {σ : State} {τ : RowStore.State} {j : Nat} {sv : Server}

/-- A step that is none of `lookups`. -/
theorem Same.stay (h : Same σ τ) (hj : σ.servers[j]? = some sv) {c : Cache} (hc : SameLines σ.cache c) {pc : Pc}
    (hpc : pc.abs = sv.pc.abs) : Same { σ with cache := c, servers := σ.servers.set j { sv with pc := pc } } τ where
  works := h.works
  servers := by
    rw [map_set_of_eq Server.abs hj]
    · exact h.servers
    · rw [Server.abs, Server.abs, hpc]
  failed := h.failed
  cache := ⟨h.cache.cache.trans hc.cache.symm, h.cache.keys.trans hc.keys.symm, h.cache.victim.trans hc.victim.symm⟩

/-- A step that is one of `lookups`. -/
theorem Same.move (h : Same σ τ) (j : Nat) (sv : Server) (w : Work) (c c' : Cache) (hc : SameLines c c') (pc : Pc) :
    Same (σ.apply j sv w (.goto c pc))
      { τ with cache := c', servers := τ.servers.set j { sv.abs with pc := pc.abs } } where
  works := h.works
  servers := by
    show _ = (σ.servers.set j _).map _
    rw [h.servers, List.map_set]
    rfl
  failed := h.failed
  cache := hc

theorem Same.abort (h : Same σ τ) (reason : String) :
    Same { σ with failed := some reason } { τ with failed := some reason } :=
  ⟨h.works, h.servers, rfl, h.cache⟩

theorem Same.deliver (h : Same σ τ) (j : Nat) (sv : Server) (w : Work) (weight scale : Bytes) :
    Same (σ.apply j sv w (.deliver weight scale))
      { τ with
        works := τ.works.set sv.call.work (w.put sv.pos weight scale)
        servers := τ.servers.set j { sv.abs with pos := sv.pos + 1, pc := .next } } where
  works := congrArg (List.set · _ _) h.works
  servers := by
    show _ = (σ.servers.set j _).map _
    rw [h.servers, List.map_set]
    rfl
  failed := h.failed
  cache := h.cache

/-- A step of a thread is a step of `lookups` or none. -/
theorem Same.turn (h : Same σ τ) (pool : Bool) (hj : σ.servers[j]? = some sv) {w : Work}
    (hw : σ.works[sv.call.work]? = some w) (hpos : sv.pos < sv.call.stop) (hfailed : σ.failed = none) (got : Nat)
    (hfetching : Fetching s (w.id sv.pos) sv.pc) :
    ∃ ls τ', (lookups s pool).Run τ ls τ' ∧
      Same (σ.apply j sv w (fetchTurn s σ.cache (w.id sv.pos) sv.pc got)) τ' := by
  have hone (got : Nat → Nat) : (lookups s pool).Run τ [.serve j got] (serveStep s τ j sv.abs w got) := by
    refine .cons ⟨h.failed.trans hfailed, sv.abs, w, ?_, ?_, hpos, rfl⟩ (.nil _)
    · rw [h.servers, List.getElem?_map, hj]
      rfl
    · rw [h.works]
      exact hw
  have hstay {c : Cache} {pc : Pc} (hc : SameLines σ.cache c) (hpc : pc.abs = sv.pc.abs) :
      ∃ ls τ', (lookups s pool).Run τ ls τ' ∧ Same (σ.apply j sv w (.goto c pc)) τ' :=
    ⟨[], τ, .nil τ, h.stay hj hc hpc⟩
  have hmove (got : Nat → Nat) {effect : Effect}
      (hsame : Same (σ.apply j sv w effect) (serveStep s τ j sv.abs w got)) :
      ∃ ls τ', (lookups s pool).Run τ ls τ' ∧ Same (σ.apply j sv w effect) τ' :=
    ⟨_, _, hone got, hsame⟩
  unfold fetchTurn
  cases hpc : sv.pc with
  | next =>
    refine hmove (fun _ => 0) ?_
    unfold serveStep
    simp only [Server.abs, hpc, Pc.abs, h.cache.probe]
    split
    · exact h.abort _
    split
    · exact h.deliver j sv w _ _
    generalize RowStore.probe s σ.cache (w.id sv.pos).toNat = line
    rcases line with _ | row
    · exact h.move j sv w _ _ h.cache .missed
    · exact h.move j sv w σ.cache { τ.cache with hits := τ.cache.hits + 1 }
        ⟨h.cache.cache, h.cache.keys, h.cache.victim⟩ (.hit row)
  | hit row => exact hstay ⟨rfl, rfl, rfl⟩ (by rw [hpc]; rfl)
  | missed =>
    dsimp only
    cases hfirst : firstRead s (w.id sv.pos).toNat got with
    | none =>
      refine hmove (fun _ => got) ?_
      have hnone : readRow s (w.id sv.pos).toNat (fun _ => got) = none := by
        unfold firstRead at hfirst
        unfold readRow
        cases hpacked : s.packedFd with
        | some shard =>
          rw [hpacked] at hfirst
          exact hfirst
        | none =>
          rw [hpacked] at hfirst
          dsimp only at hfirst ⊢
          rw [hfirst]
      unfold serveStep
      simp only [Server.abs, hpc, Pc.abs, hnone]
      exact h.abort _
    | some r => exact hstay (SameLines.refl _) (by rw [hpc]; rfl)
  | read part n => exact hstay ⟨rfl, rfl, rfl⟩ (by rw [hpc]; exact afterFirst_abs s _ part)
  | weight part =>
    rw [hpc] at hfetching
    obtain ⟨hpacked, hscales, got', n, hfirst⟩ := hfetching.reads
    dsimp only
    cases hsecond : readFrom s .table (s.scaleOffset + (w.id sv.pos).toNat * kScaleBytes) kScaleBytes got with
    | none =>
      refine hmove (fun i => if i = 0 then got' else got) ?_
      have hnone : readRow s (w.id sv.pos).toNat (fun i => if i = 0 then got' else got) = none := by
        unfold firstRead at hfirst
        unfold readRow
        rw [hpacked] at hfirst ⊢
        dsimp only at hfirst ⊢
        rw [if_pos rfl, hfirst, hscales]
        dsimp only
        rw [if_neg Nat.one_ne_zero, hsecond]
      unfold serveStep
      simp only [Server.abs, hpc, Pc.abs, hnone]
      exact h.abort _
    | some r => exact hstay (SameLines.refl _) (by rw [hpc]; rfl)
  | scale row n => exact hstay ⟨rfl, rfl, rfl⟩ (by rw [hpc]; rfl)
  | row row =>
    rw [hpc] at hfetching
    obtain ⟨got', n, hread⟩ := hfetching.reads
    refine hmove got' ?_
    unfold serveStep
    simp only [Server.abs, hpc, Pc.abs, hread]
    exact h.move j sv w { σ.cache with misses := σ.cache.misses + 1 }
      { τ.cache with reads := τ.cache.reads + n, misses := τ.cache.misses + 1 }
      ⟨h.cache.cache, h.cache.keys, h.cache.victim⟩ (.counted row)
  | counted row =>
    refine hmove (fun _ => 0) ?_
    unfold serveStep
    simp only [Server.abs, hpc, Pc.abs]
    exact h.move j sv w _ _ (h.cache.insert s (w.id sv.pos).toNat row) (.copy row)
  | copy row =>
    refine hmove (fun _ => 0) ?_
    unfold serveStep
    simp only [Server.abs, hpc, Pc.abs]
    exact h.deliver j sv w _ _

theorem Same.lookup (h : Same σ τ) (ids : List Int) (weights scales : Nat → UInt8) :
    Same (σ.lookup pool ids weights scales) (RowStore.lookup pool τ ids weights scales) where
  works := congrArg (· ++ _) h.works
  servers := by
    show τ.servers ++ _ = (σ.servers ++ _).map _
    rw [h.servers, h.works, List.map_append, List.map_map]
    rfl
  failed := h.failed
  cache := h.cache

end Simulation

/-- Counting step by step adds no behaviour: what `fetches` reaches, `lookups` reaches, with
other counters. -/
theorem fetches_lookups {s : Store} (hways : 0 < s.ways) (pool : Bool) {σ : State}
    (h : (fetches s pool).Reachable σ) : ∃ τ, (lookups s pool).Reachable τ ∧ Same σ τ := by
  have hinductive : (fetches s pool).Inductive fun σ =>
      Ledger s pool σ ∧ ∃ τ, (lookups s pool).Reachable τ ∧ Same σ τ := by
    refine ⟨fun σ hσ => ?_, fun σ l σ' hyp hstep => ?_⟩
    · refine ⟨(ledger_inductive hways pool).init σ hσ, ⟨Cache.empty, [], [], none⟩, ⟨_, [], rfl, .nil _⟩, ?_⟩
      subst hσ
      exact ⟨rfl, rfl, rfl, SameLines.refl _⟩
    · obtain ⟨hledger, τ, hτ, hsame⟩ := hyp
      refine ⟨(ledger_inductive hways pool).step σ l σ' hledger hstep, ?_⟩
      obtain ⟨hfailed, hl⟩ := hstep
      cases l with
      | lookup ids weights scales =>
        subst hl
        have hlookup : (lookups s pool).step τ (.lookup ids weights scales)
            (RowStore.lookup pool τ ids weights scales) := ⟨hsame.failed.trans hfailed, rfl⟩
        exact ⟨_, hτ.step hlookup, hsame.lookup ids weights scales⟩
      | turn j got =>
        obtain ⟨sv, w, hj, hw, hpos, rfl⟩ := hl
        have hfetching := (hledger.servers sv (List.mem_of_getElem? hj)).fetching
        have hid : σ.id sv.call.work sv.pos = w.id sv.pos := by rw [State.id, hw]; rfl
        rw [hid] at hfetching
        obtain ⟨ls, τ', hrun, hsame'⟩ := hsame.turn pool hj hw hpos hfailed got hfetching
        exact ⟨τ', hτ.run hrun, hsame'⟩
  exact (hinductive.reachable σ h).2

end FlashSpark.L2.RowStore.Accounting
