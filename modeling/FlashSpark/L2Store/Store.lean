import FlashSpark.Core.Mem

/-!
# The row store: opening, ownership range, pinned scales, packed shard

`adapter/row_store.cpp:27-106,268-429`. A `Store` is what the C++ `Store` holds
once the table is loaded; the row cache and the counters, which lookups change,
are `Cache` in `Fetch.lean`. Files are byte lists. A system call the kernel
answers is a parameter: `got` is the byte count a `pread` returned (0 for an
error or end of file, and never more than was asked for or is there, `pread`).
`fail` aborts the process: it is `Except.error` with the source's reason.

* `pinLoop_spec`: whatever the short reads, a pinned scale shard holds exactly
  the owned scale rows.
* `readFrom_spec`, `readFrom_complete`: the page-aligned read returns the bytes
  asked for or fails, and does not fail when the kernel returns what is there.
* `rowStoreOpen_wf`, `rowStoreRange_wf`: the load-time calls keep `Store.WF`;
  `attach_spec`: an attach only adds a shard whose header names this range.
-/
namespace FlashSpark.L2.RowStore

/-- mirrors adapter/row_store.cpp:29-34 -/
def kRowBytes : Nat := 264
def kWeightBytes : Nat := 256
def kScaleBytes : Nat := 8
def kPage : Nat := 4096
def kPackedHeader : Nat := 4096
def kPackedMagic : Nat := 0x31344e4531565344

/-- mirrors adapter/row_store.cpp:60-74, the fields lookups only read.
`resident`: the mapped shard; `scales`: the pinned owned scale rows;
`packedFd`: the attached shard's contents. -/
structure Store where
  fd : Bytes
  rows : Nat
  weightOffset : Nat
  scaleOffset : Nat
  slots : Nat
  rowLo : Nat
  rowHi : Nat
  sets : Nat
  ways : Nat
  resident : Option Bytes
  scales : Option (Nat → UInt8)
  scalesSize : Nat
  packedFd : Option Bytes

/-! ## Reads -/

/-- The bytes `pread(fd, buf, n, off)` delivered when it returned `got`. -/
def pread (file : Bytes) (n off got : Nat) : Bytes := (block file off n).take got

inductive Fd where
  | table
  | packed (shard : Bytes)

def Store.contents (s : Store) : Fd → Bytes
  | .table => s.fd
  | .packed shard => shard

/-- `offset & ~(kPage - 1)`. -/
def pageBase (offset : Nat) : Nat := offset - offset % kPage

/-- The length asked of `pread`: whole pages from `pageBase offset`. -/
def requested (offset length : Nat) : Nat :=
  (offset - pageBase offset + length + kPage - 1) / kPage * kPage

/-- mirrors adapter/row_store.cpp:88-102 (`read_from`): the bytes and how many
reads were counted; `none` is `fail("short or failed direct read")`. -/
def readFrom (s : Store) (fd : Fd) (offset length got : Nat) : Option (Bytes × Nat) :=
  match s.resident, fd with
  | some map, .table => some (block map offset length, 0)
  | _, _ =>
    let delta := offset - pageBase offset
    let page := pread (s.contents fd) (requested offset length) (pageBase offset) got
    if page.length < delta + length then none else some (block page delta length, 1)

/-! ## Loading -/

/-- The system calls of `row_store_open` that may be refused. -/
structure OpenIo where
  fstat : Bool
  mmapResident : Bool
  mlock : Bool
  mmapCache : Bool

/-- mirrors adapter/row_store.cpp:309-353 (`row_store_open`). `file = none`: the
open failed; `ram`: `OFFLOAD_MODE=ram`; `cacheWays`: what `env_u64` reads from
`DSV41_CACHE_WAYS`. -/
def rowStoreOpen (io : OpenIo) (file : Option Bytes) (rows woff soff budget : Nat) (ram : Bool)
    (cacheWays : Nat) : Except String (Option Store) :=
  match file with
  | none => .ok none
  | some file =>
    if io.fstat = false ∨ woff > file.length ∨ soff > file.length ∨
        rows > (file.length - woff) / 256 ∨ rows > (file.length - soff) / 8 then
      .error "invalid table extent"
    else if ram = true ∧ io.mmapResident = false then .error "resident mapping"
    else if ram = true ∧ io.mlock = false then
      .error "RAM mode requires memlock capability and sufficient RAM"
    else
      let budget := if ram then 0 else budget
      let ways := max 1 (min 16 cacheWays)
      let sets := budget / ((kRowBytes + 8) * ways + 1)
      let slots := sets * ways
      if slots ≠ 0 ∧ io.mmapCache = false then .error "cache allocation"
      else
        .ok (some
          { fd := file, rows := rows, weightOffset := woff, scaleOffset := soff, slots := slots,
            rowLo := 0, rowHi := rows, sets := sets, ways := ways,
            resident := if ram then some file else none, scales := none, scalesSize := 0,
            packedFd := none })

/-- The read loop of `pin_scales` (adapter/row_store.cpp:289-300): `got offset`
is what the `pread` at `offset` returned. -/
def pinLoop (file : Bytes) (start stop : Nat) (got : Nat → Nat) (offset : Nat)
    (out : Nat → UInt8) : Option (Nat → UInt8) :=
  if _h : offset < stop then
    let want := min (8 <<< 20) ((stop - offset + kPage - 1) / kPage * kPage)
    let buffer := pread file want offset (got offset)
    if _hb : buffer.length = 0 then none
    else
      let lo := max offset start
      let hi := min (offset + buffer.length) stop
      pinLoop file start stop got (offset + buffer.length)
        (if hi > lo then blit out (lo - start) (block buffer (lo - offset) (hi - lo)) else out)
  else some out
termination_by stop - offset
decreasing_by simp only [buffer, want] at _hb ⊢; omega

/-- What the system gives `pin_scales`: its allocations, and its reads. -/
structure PinIo where
  mapped : Bool
  aligned : Bool
  got : Nat → Nat

/-- mirrors adapter/row_store.cpp:269-305 (`pin_scales`); `none` is `false`. -/
def pinScales (s : Store) (io : PinIo) : Option Store :=
  let count := s.rowHi - s.rowLo
  let bytes := count * kScaleBytes
  let start := s.scaleOffset + s.rowLo * kScaleBytes
  let stop := start + bytes
  if count = 0 ∨ io.mapped = false then none
  else
    match s.resident with
    | some map =>
      some { s with scales := some (blit (fun _ => 0) 0 (block map start bytes)), scalesSize := bytes }
    | none =>
      if io.aligned = false then none
      else
        (pinLoop s.fd start stop io.got (pageBase start) fun _ => 0).map fun out =>
          { s with scales := some out, scalesSize := bytes }

/-- mirrors adapter/row_store.cpp:404-417 (`row_store_range`);
`residentScales`: `env_flag("DSV41_RESIDENT_SCALES", true)`. -/
def rowStoreRange (s : Store) (lo hi : Nat) (residentScales : Bool) (io : PinIo) :
    Except String Store :=
  if lo > hi ∨ hi > s.rows then .error "invalid row ownership range"
  else if s.scales.isSome = true ∧ (lo ≠ s.rowLo ∨ hi ≠ s.rowHi) then
    .error "ownership range changed after the scale shard was pinned"
  else
    let s := { s with rowLo := lo, rowHi := hi }
    if s.scales.isNone = true ∧ hi > lo ∧ residentScales = true then .ok ((pinScales s io).getD s)
    else .ok s

/-- Field `i` of the packed header. -/
def headerWord (header : Bytes) (i : Nat) : Nat := ofLe (block header (8 * i) 8)

/-- mirrors adapter/row_store.cpp:379-402 (`row_store_attach_packed`).
`shard = none`: the open failed (returns 0); `fstat`: that call succeeded. -/
def rowStoreAttachPacked (s : Store) (shard : Option Bytes) (layerId got : Nat) (fstat : Bool) :
    Except String (Option Store) :=
  match shard with
  | none => .ok none
  | some shard =>
    let header := pread shard kPage 0 got
    let magic := headerWord header 0
    let layer := headerWord header 1
    let lo := headerWord header 2
    let hi := headerWord header 3
    let rows := headerWord header 4
    let rowBytes := headerWord header 5
    if header.length < kPage then .error "packed Engram shard has no header"
    else if magic ≠ kPackedMagic ∨ layer ≠ layerId ∨ lo ≠ s.rowLo ∨ hi ≠ s.rowHi ∨ rows ≠ s.rows ∨
        rowBytes ≠ kRowBytes then
      .error "packed Engram shard does not match this rank's range; re-run the pack step"
    else if fstat = false ∨ shard.length < kPackedHeader + (hi - lo) * kRowBytes then
      .error "packed Engram shard is truncated"
    else .ok (some { s with packedFd := some shard })

/-- The range a shard file's header names. -/
def shardLo (shard : Bytes) : Nat := headerWord (block shard 0 kPage) 2
def shardHi (shard : Bytes) : Nat := headerWord (block shard 0 kPage) 3

/-! ## What the store is for -/

def weightBytes (s : Store) (id : Nat) : Bytes := block s.fd (s.weightOffset + id * kWeightBytes) kWeightBytes

def scaleBytes (s : Store) (id : Nat) : Bytes := block s.fd (s.scaleOffset + id * kScaleBytes) kScaleBytes

/-- Row `id` of the plain table: 256 weight bytes and 8 scale bytes. -/
def tableRow (s : Store) (id : Nat) : Bytes := weightBytes s id ++ scaleBytes s id

/-- A packed shard whose records are the rows `[lo, hi)` of the table. -/
def PackedRows (s : Store) (shard : Bytes) (lo hi : Nat) : Prop :=
  ∀ id, lo ≤ id → id < hi → block shard (kPackedHeader + (id - lo) * kRowBytes) kRowBytes = tableRow s id

/-- The extents `row_store_open` checks, and what the load-time calls establish. -/
structure Store.WF (s : Store) : Prop where
  weights_fit : s.weightOffset + s.rows * kWeightBytes ≤ s.fd.length
  scales_fit : s.scaleOffset + s.rows * kScaleBytes ≤ s.fd.length
  lo_le_hi : s.rowLo ≤ s.rowHi
  hi_le_rows : s.rowHi ≤ s.rows
  ways_pos : 0 < s.ways
  resident_eq : ∀ map, s.resident = some map → map = s.fd
  scales_eq : ∀ buf, s.scales = some buf → ∀ id, s.rowLo ≤ id → id < s.rowHi →
    slice buf ((id - s.rowLo) * kScaleBytes) kScaleBytes = scaleBytes s id

theorem weightBytes_length {s : Store} (h : s.WF) {id : Nat} (hid : id < s.rows) :
    (weightBytes s id).length = kWeightBytes := by
  have := h.weights_fit
  exact block_length_of_le (by simp only [kWeightBytes] at *; omega)

theorem scaleBytes_length {s : Store} (h : s.WF) {id : Nat} (hid : id < s.rows) :
    (scaleBytes s id).length = kScaleBytes := by
  have := h.scales_fit
  exact block_length_of_le (by simp only [kScaleBytes] at *; omega)

theorem tableRow_length {s : Store} (h : s.WF) {id : Nat} (hid : id < s.rows) :
    (tableRow s id).length = kRowBytes := by
  rw [tableRow, List.length_append, weightBytes_length h hid, scaleBytes_length h hid]; rfl

theorem tableRow_take {s : Store} (h : s.WF) {id : Nat} (hid : id < s.rows) :
    (tableRow s id).take kWeightBytes = weightBytes s id := by
  rw [tableRow, ← weightBytes_length h hid, List.take_left]

theorem tableRow_drop {s : Store} (h : s.WF) {id : Nat} (hid : id < s.rows) :
    (tableRow s id).drop kWeightBytes = scaleBytes s id := by
  rw [tableRow, ← weightBytes_length h hid, List.drop_left]

/-! ## Page-aligned reads -/

theorem pread_length (file : Bytes) (n off got : Nat) :
    (pread file n off got).length = min got (min n (file.length - off)) := by
  rw [pread, List.length_take, block_length]

/-- A block inside the bytes delivered is a block of the file. -/
theorem block_pread {file : Bytes} {n off got a len : Nat}
    (h : a + len ≤ (pread file n off got).length) :
    block (pread file n off got) a len = block file (off + a) len := by
  rw [pread_length] at h
  have : pread file n off got = block file off (min got n) := by
    unfold pread block
    rw [List.take_take]
  rw [this, block_block _ _ _ _ _ (by omega)]

/-- A `pread` that returned all it was asked for. -/
theorem pread_full {file : Bytes} {n off got : Nat} (h : n ≤ (pread file n off got).length) :
    pread file n off got = block file off n := by
  have hlen := pread_length file n off got
  rw [pread, List.take_of_length_le]
  rw [block_length]; omega

theorem requested_le (offset length : Nat) (h : length ≤ kRowBytes) :
    offset - pageBase offset + length ≤ requested offset length ∧ requested offset length ≤ 8192 := by
  have hm := Nat.mod_lt offset (show 0 < kPage by decide)
  have hle := Nat.mod_le offset kPage
  simp only [requested, pageBase, kPage, kRowBytes] at *
  omega

theorem pageBase_add (offset : Nat) : pageBase offset + (offset - pageBase offset) = offset := by
  have := Nat.mod_le offset kPage
  unfold pageBase; omega

/-- Descriptor `fd` may be read through the page buffer or the mapping. -/
def Store.Readable (s : Store) : Prop := ∀ map, s.resident = some map → map = s.fd

/-- What `read_from` delivers is the bytes asked for. -/
theorem readFrom_spec {s : Store} (hr : s.Readable) {fd : Fd} {offset length got : Nat} {bs : Bytes}
    {n : Nat}
    (h : readFrom s fd offset length got = some (bs, n)) : bs = block (s.contents fd) offset length := by
  unfold readFrom at h
  split at h
  · rename_i map hmap
    obtain ⟨rfl, -⟩ := Prod.mk.inj (Option.some.inj h)
    rw [hr map hmap]; rfl
  · dsimp only at h
    split at h
    · cases h
    · rename_i hlen
      obtain ⟨rfl, -⟩ := Prod.mk.inj (Option.some.inj h)
      rw [block_pread (Nat.not_lt.mp hlen), pageBase_add]

/-- A read of the shard copies bytes that were read, and counts one read. -/
theorem readFrom_packed {s : Store} {shard : Bytes} {offset length got : Nat} {r : Bytes × Nat}
    (h : readFrom s (.packed shard) offset length got = some r) :
    offset - pageBase offset + length ≤
        (pread shard (requested offset length) (pageBase offset) got).length ∧ r.2 = 1 := by
  unfold readFrom at h
  split at h
  · rename_i hfd
    cases hfd
  dsimp only at h
  split at h
  · cases h
  · rename_i hlen
    obtain rfl := Option.some.inj h
    exact ⟨Nat.not_lt.mp hlen, rfl⟩

/-- So it never goes past the file. -/
theorem readFrom_fits {s : Store} {shard : Bytes} {offset length got : Nat} {r : Bytes × Nat}
    (h : readFrom s (.packed shard) offset length got = some r) (hpos : 0 < length) :
    offset + length ≤ shard.length := by
  have hp := pageBase_add offset
  have hlen := (readFrom_packed h).1
  rw [pread_length] at hlen
  omega

/-- It fails only when `pread` returned less than it was asked for and less than
the file holds: a short final page is enough. -/
theorem readFrom_complete {s : Store} {fd : Fd} {offset length got : Nat}
    (hfit : offset + length ≤ (s.contents fd).length) (hlen : length ≤ kRowBytes)
    (hgot : min (requested offset length) ((s.contents fd).length - pageBase offset) ≤ got) :
    ∃ r, readFrom s fd offset length got = some r := by
  unfold readFrom
  split
  · exact ⟨_, rfl⟩
  · have hp := pageBase_add offset
    have hq := (requested_le offset length hlen).1
    refine ⟨_, if_neg ?_⟩
    rw [pread_length]
    omega

/-! ## Pinned scales -/

/-- `pin_scales` copies file offsets `[start, stop)` to `out`: everything below
the loop's `offset` is already there. -/
theorem pinLoop_spec (file : Bytes) (start stop : Nat) (got : Nat → Nat) (offset : Nat)
    (out : Nat → UInt8) :
    (∀ a, start ≤ a → a < offset → a < stop → file[a]? = some (out (a - start))) →
    ∀ out', pinLoop file start stop got offset out = some out' →
      ∀ a, start ≤ a → a < stop → file[a]? = some (out' (a - start)) := by
  fun_induction pinLoop file start stop got offset out with
  | case1 => intro _ out' h; cases h
  | case2 offset out hlt want buffer hne lo hi ih =>
    intro hdone
    apply ih
    intro a ha hlow hstop
    by_cases hold : a < offset
    · -- below this read: the copy starts at `lo ≥ offset`
      split
      · rw [blit_outside _ _ _ _ (by omega)]; exact hdone a ha hold hstop
      · exact hdone a ha hold hstop
    · have hbuf : (block buffer (lo - offset) (hi - lo)).length = hi - lo :=
        block_length_of_le (by omega)
      have hcell : buffer[a - offset]? = file[a]? := by
        have hb : buffer = block file offset (min (got offset) want) := by
          simp only [buffer, pread, block, List.take_take]
        have hl : buffer.length ≤ min (got offset) want := by rw [hb, block_length]; omega
        rw [hb, block_getElem?, if_pos (by omega)]
        congr 1; omega
      rw [dif_pos (show hi > lo by omega), blit_apply, dif_pos (by omega), ← List.getElem?_eq_getElem,
        block_getElem?, if_pos (by omega), ← hcell]
      congr 1; omega
  | case3 offset out hge =>
    intro hdone out' h
    obtain rfl := Option.some.inj h
    exact fun a ha hs => hdone a ha (by omega) hs

/-- The pinned buffer holds the owned scale rows. -/
theorem pinScales_spec {s s' : Store} {io : PinIo} (hr : s.Readable)
    (hfit : s.scaleOffset + s.rowHi * kScaleBytes ≤ s.fd.length) (h : pinScales s io = some s') :
    s' = { s with scales := s'.scales, scalesSize := s'.scalesSize } ∧
      ∀ buf, s'.scales = some buf → ∀ id, s.rowLo ≤ id → id < s.rowHi →
        slice buf ((id - s.rowLo) * kScaleBytes) kScaleBytes = scaleBytes s id := by
  have key : ∀ buf : Nat → UInt8,
      (∀ a, s.scaleOffset + s.rowLo * kScaleBytes ≤ a →
        a < s.scaleOffset + s.rowLo * kScaleBytes + (s.rowHi - s.rowLo) * kScaleBytes →
        s.fd[a]? = some (buf (a - (s.scaleOffset + s.rowLo * kScaleBytes)))) →
      ∀ id, s.rowLo ≤ id → id < s.rowHi →
        slice buf ((id - s.rowLo) * kScaleBytes) kScaleBytes = scaleBytes s id := by
    intro buf hbuf id hlo hhi
    apply List.ext_getElem?
    intro i
    rw [slice_getElem?, scaleBytes, block_getElem?]
    split
    · simp only [kScaleBytes] at *
      rw [hbuf (s.scaleOffset + id * 8 + i) (by omega) (by omega)]
      congr 2; omega
    · rfl
  unfold pinScales at h
  dsimp only at h
  split at h
  · cases h
  · split at h
    · rename_i map hmap
      obtain rfl := Option.some.inj h
      refine ⟨rfl, fun buf hb => key buf fun a ha hs => ?_⟩
      obtain rfl := Option.some.inj hb
      rw [hr map hmap] 
      have hlen : (block s.fd (s.scaleOffset + s.rowLo * kScaleBytes)
          ((s.rowHi - s.rowLo) * kScaleBytes)).length = (s.rowHi - s.rowLo) * kScaleBytes :=
        block_length_of_le (by simp only [kScaleBytes] at *; omega)
      rw [blit_apply, dif_pos (by omega), ← List.getElem?_eq_getElem, block_getElem?,
        if_pos (by omega)]
      congr 1; omega
    · split at h
      · cases h
      · obtain ⟨out, hout, rfl⟩ := Option.map_eq_some_iff.mp h
        refine ⟨rfl, fun buf hb => key buf ?_⟩
        obtain rfl := Option.some.inj hb
        refine pinLoop_spec _ _ _ _ _ _ (fun a ha hlow => ?_) _ hout
        have : pageBase (s.scaleOffset + s.rowLo * kScaleBytes) ≤ s.scaleOffset + s.rowLo * kScaleBytes :=
          Nat.sub_le _ _
        omega

/-! ## Attaching a shard -/

/-- A shard whose header names this store, and which is long enough, is attached. -/
theorem attach_accepts {s : Store} {shard : Bytes} {layerId got : Nat} (hgot : kPage ≤ got)
    (hpage : kPage ≤ shard.length) (hmagic : headerWord (block shard 0 kPage) 0 = kPackedMagic)
    (hlayer : headerWord (block shard 0 kPage) 1 = layerId) (hlo : shardLo shard = s.rowLo)
    (hhi : shardHi shard = s.rowHi) (hrows : headerWord (block shard 0 kPage) 4 = s.rows)
    (hbytes : headerWord (block shard 0 kPage) 5 = kRowBytes)
    (hsize : kPackedHeader + (s.rowHi - s.rowLo) * kRowBytes ≤ shard.length) :
    rowStoreAttachPacked s (some shard) layerId got true =
      .ok (some { s with packedFd := some shard }) := by
  have hfull : (pread shard kPage 0 got).length = kPage := by rw [pread_length]; omega
  unfold shardLo at hlo
  unfold shardHi at hhi
  unfold rowStoreAttachPacked
  dsimp only
  rw [if_neg (by omega), pread_full (Nat.le_of_eq hfull.symm), hmagic, hlayer, hlo, hhi, hrows,
    hbytes, if_neg (by simp), if_neg (by rw [Nat.not_lt.mpr hsize |> eq_false]; simp)]

/-- A shard whose header names another layer, range or table is not attached. -/
theorem attach_rejects {s : Store} {shard : Bytes} {layerId : Nat} (got : Nat) (fstat : Bool)
    (h : headerWord (block shard 0 kPage) 1 ≠ layerId ∨ shardLo shard ≠ s.rowLo ∨
      shardHi shard ≠ s.rowHi ∨ headerWord (block shard 0 kPage) 4 ≠ s.rows) :
    ∃ reason, rowStoreAttachPacked s (some shard) layerId got fstat = .error reason := by
  unfold shardLo shardHi at h
  unfold rowStoreAttachPacked
  dsimp only
  split
  · exact ⟨_, rfl⟩
  · rename_i hheader
    rw [pread_full (Nat.not_lt.mp hheader), if_pos (by tauto)]
    exact ⟨_, rfl⟩

/-! ## The load-time calls keep `WF` -/

theorem rowStoreOpen_wf {io : OpenIo} {file : Option Bytes} {rows woff soff budget : Nat}
    {ram : Bool} {cacheWays : Nat} {s : Store}
    (h : rowStoreOpen io file rows woff soff budget ram cacheWays = .ok (some s)) :
    s.WF ∧ s.packedFd = none ∧ s.scales = none ∧ s.rows = rows ∧ file = some s.fd ∧
      s.weightOffset = woff ∧ s.scaleOffset = soff := by
  unfold rowStoreOpen at h
  split at h
  · cases h
  rename_i file
  split at h
  · cases h
  rename_i hext
  split at h
  · cases h
  split at h
  · cases h
  generalize (if ram = true then 0 else budget) = budget' at h
  generalize hres : (if ram = true then some file else none) = res at h
  dsimp only at h
  split at h
  · cases h
  simp only [Except.ok.injEq, Option.some.injEq] at h
  subst h
  refine ⟨⟨?_, ?_, Nat.zero_le _, Nat.le_refl _, by simp, ?_, by simp⟩, rfl, rfl, rfl, rfl, rfl, rfl⟩
  · simp only [kWeightBytes]; omega
  · simp only [kScaleBytes]; omega
  · rintro map rfl
    split at hres
    · exact (Option.some.inj hres).symm
    · cases hres

/-- A successful range call moves the range and keeps `WF`; it never touches the
attached shard. -/
theorem rowStoreRange_wf {s s' : Store} {lo hi : Nat} {flag : Bool} {io : PinIo} (hw : s.WF)
    (h : rowStoreRange s lo hi flag io = .ok s') :
    s'.WF ∧ s'.rowLo = lo ∧ s'.rowHi = hi ∧ s'.packedFd = s.packedFd ∧ s'.rows = s.rows ∧
      s'.fd = s.fd ∧ s'.weightOffset = s.weightOffset ∧ s'.scaleOffset = s.scaleOffset ∧
      s'.sets = s.sets ∧ s'.ways = s.ways ∧ s'.resident = s.resident := by
  unfold rowStoreRange at h
  split at h
  · cases h
  rename_i hext
  split at h
  · cases h
  rename_i hmove
  have hfit : s.scaleOffset + hi * kScaleBytes ≤ s.fd.length := by
    have := hw.scales_fit
    simp only [kScaleBytes] at *; omega
  -- the range alone, before any pinning
  have hset : ({ s with rowLo := lo, rowHi := hi } : Store).WF := by
    refine ⟨hw.weights_fit, hw.scales_fit, by simp only; omega, by simp only; omega, hw.ways_pos,
      hw.resident_eq, ?_⟩
    intro buf hb
    have heq : lo = s.rowLo ∧ hi = s.rowHi := by
      have hsome : s.scales.isSome = true := by rw [show s.scales = some buf from hb]; rfl
      rw [not_and] at hmove
      have := hmove hsome
      omega
    obtain ⟨rfl, rfl⟩ := heq
    exact hw.scales_eq buf hb
  dsimp only at h
  split at h
  · obtain rfl := Except.ok.inj h
    cases hp : pinScales { s with rowLo := lo, rowHi := hi } io with
    | none => exact ⟨hset, rfl, rfl, rfl, rfl, rfl, rfl, rfl, rfl, rfl, rfl⟩
    | some s₂ =>
      obtain ⟨heq, hsc⟩ := pinScales_spec hset.resident_eq hfit hp
      rw [Option.getD_some]
      generalize s₂.scales = sc at *
      generalize s₂.scalesSize = n at *
      subst heq
      exact ⟨⟨hset.weights_fit, hset.scales_fit, hset.lo_le_hi, hset.hi_le_rows, hset.ways_pos,
        hset.resident_eq, hsc⟩, rfl, rfl, rfl, rfl, rfl, rfl, rfl, rfl, rfl, rfl⟩
  · obtain rfl := Except.ok.inj h
    exact ⟨hset, rfl, rfl, rfl, rfl, rfl, rfl, rfl, rfl, rfl, rfl⟩

theorem Store.WF.attach {s : Store} (h : s.WF) (shard : Bytes) :
    ({ s with packedFd := some shard } : Store).WF where
  weights_fit := h.weights_fit
  scales_fit := h.scales_fit
  lo_le_hi := h.lo_le_hi
  hi_le_rows := h.hi_le_rows
  ways_pos := h.ways_pos
  resident_eq := h.resident_eq
  scales_eq := h.scales_eq

/-- A successful attach only adds the shard, whose header names this range. -/
theorem attach_spec {s s' : Store} {shard : Option Bytes} {layerId got : Nat} {fstat : Bool}
    (h : rowStoreAttachPacked s shard layerId got fstat = .ok (some s')) :
    ∃ sh, shard = some sh ∧ s' = { s with packedFd := some sh } ∧ shardLo sh = s.rowLo ∧
      shardHi sh = s.rowHi ∧
      kPackedHeader + (s.rowHi - s.rowLo) * kRowBytes ≤ sh.length := by
  unfold rowStoreAttachPacked at h
  split at h
  · cases h
  · rename_i sh
    dsimp only at h
    split at h
    · cases h
    rename_i hheader
    rw [pread_full (Nat.not_lt.mp hheader)] at h
    split at h
    · cases h
    rename_i hmatch
    split at h
    · cases h
    rename_i hsize
    simp only [Except.ok.injEq, Option.some.injEq] at h
    have hlo : shardLo sh = s.rowLo := by unfold shardLo; omega
    have hhi : shardHi sh = s.rowHi := by unfold shardHi; omega
    rw [show headerWord (block sh 0 kPage) 2 = s.rowLo from hlo,
      show headerWord (block sh 0 kPage) 3 = s.rowHi from hhi] at hsize
    exact ⟨sh, rfl, h.symm, hlo, hhi, by omega⟩

end FlashSpark.L2.RowStore
