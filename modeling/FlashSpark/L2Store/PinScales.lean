import FlashSpark.L2Store.Store

/-!
# Pinning under short reads

`pin_scales` (adapter/row_store.cpp:269-305) as the system sees it: the sequence of what its
`pread`s return, in 64-bit arithmetic, with the cells of the pinned mapping that were never
written kept apart from those that hold a zero, and what is still allocated. `pinScales` of
`Store.lean` is what a call that returns comes to (`pinScalesRun_returns`).

* `Pinned`: the loop's invariant; `Pinned.turn`: one read keeps it, whatever it returned.
* `pinReads_answered`: the loop ends, since each read that returns bytes moves it on.
* `pin_scales_exact`: what a call leaves, and that it returns.
-/
namespace FlashSpark.L2.RowStore

def u64 (n : Nat) : Nat := n % 2 ^ 64

theorem u64_of_lt {n : Nat} (h : n < 2 ^ 64) : u64 n = n := Nat.mod_eq_of_lt h

/-! ## The code -/

/-- What a `pread` returns. `interrupted`: -1 with `EINTR`, asked again; `bytes 0`: the end of
the file. -/
inductive Pread where
  | interrupted
  | failed
  | bytes (n : Nat)
  deriving DecidableEq

inductive Alloc where
  | map
  | raw
  deriving DecidableEq

/-- The loop's variables; `out` has no value where nothing was written. -/
structure Pinning where
  offset : Nat
  out : Nat → Option UInt8

/-- What a call has come to; `ret = none`: a `pread` has not returned yet. -/
structure PinRun where
  ret : Option Bool
  store : Store
  out : Nat → Option UInt8
  live : List Alloc

/-- mirrors adapter/row_store.cpp:285, :291 -/
def pinWant (stop offset : Nat) : Nat := min (8 <<< 20) (u64 (stop - offset + kPage - 1) / kPage * kPage)

/-- mirrors adapter/row_store.cpp:296-299 -/
def Pinning.copy (p : Pinning) (start stop : Nat) (buffer : Bytes) : Pinning :=
  let lo := max p.offset start
  let hi := min (u64 (p.offset + buffer.length)) stop
  { offset := u64 (p.offset + buffer.length)
    out := if hi > lo then blit p.out (lo - start) ((block buffer (lo - p.offset) (hi - lo)).map some) else p.out }

inductive PinLoop where
  | reading (p : Pinning)
  | failed (p : Pinning)
  | finished (p : Pinning)

/-- mirrors adapter/row_store.cpp:290-300 -/
def pinReads (file : Bytes) (start stop : Nat) : List Pread → Pinning → PinLoop
  | [], p => if p.offset < stop then .reading p else .finished p
  | answer :: answers, p =>
    if p.offset < stop then
      match answer with
      | .interrupted => pinReads file start stop answers p
      | .failed => .failed p
      | .bytes n =>
        let buffer := pread file (pinWant stop p.offset) p.offset n
        if buffer.length = 0 then .failed p
        else pinReads file start stop answers (p.copy start stop buffer)
    else .finished p

/-- mirrors adapter/row_store.cpp:269-305 (`pin_scales`); `mapped`, `aligned`: `mmap` and
`posix_memalign` succeeded, `answers`: what the `pread`s return, in order -/
def pinScalesRun (s : Store) (mapped aligned : Bool) (answers : List Pread) : PinRun :=
  let count := s.rowHi - s.rowLo
  let bytes := u64 (count * kScaleBytes)
  let empty : Nat → Option UInt8 := fun _ => none
  let start := u64 (s.scaleOffset + u64 (s.rowLo * kScaleBytes))
  let stop := u64 (start + bytes)
  let pinned out : Store := { s with scales := some fun i => (out i).getD 0, scalesSize := bytes }
  if count = 0 then ⟨some false, s, empty, []⟩
  else if mapped = false then ⟨some false, s, empty, []⟩
  else
    match s.resident with
    | some map =>
      let out := blit empty 0 ((block map start bytes).map some)
      ⟨some true, pinned out, out, [.map]⟩
    | none =>
      if aligned = false then ⟨some false, s, empty, []⟩
      else
        match pinReads s.fd start stop answers ⟨pageBase start, empty⟩ with
        | .reading p => ⟨none, s, p.out, [.map, .raw]⟩
        | .failed p => ⟨some false, s, p.out, []⟩
        | .finished p => ⟨some true, pinned p.out, p.out, [.map]⟩

/-! ## The range lies in the file -/

/-- What `row_store_open` and `row_store_range` check: file sizes are signed 64-bit numbers. -/
structure Extents (s : Store) : Prop where
  lo_le_hi : s.rowLo ≤ s.rowHi
  stop_lt : s.scaleOffset + s.rowHi * kScaleBytes < 2 ^ 63
  resident : ∀ map, s.resident = some map →
    map = s.fd ∧ s.scaleOffset + s.rowHi * kScaleBytes ≤ map.length

/-- The store `row_store_range` pins the scales of. -/
theorem Store.WF.extents {s : Store} (h : s.WF) (hsize : s.fd.length < 2 ^ 63) {lo hi : Nat} (hlo : lo ≤ hi)
    (hhi : hi ≤ s.rows) : Extents { s with rowLo := lo, rowHi := hi } := by
  have hfit : s.scaleOffset + hi * kScaleBytes ≤ s.fd.length :=
    Nat.le_trans (Nat.add_le_add_left (Nat.mul_le_mul_right _ hhi) _) h.scales_fit
  refine ⟨hlo, Nat.lt_of_le_of_lt hfit hsize, fun map hmap => ?_⟩
  obtain rfl := h.resident_eq map hmap
  exact ⟨rfl, hfit⟩

def Store.scaleStart (s : Store) : Nat := s.scaleOffset + s.rowLo * kScaleBytes

def Store.ownedBytes (s : Store) : Nat := (s.rowHi - s.rowLo) * kScaleBytes

section Loop
variable {file : Bytes} {start stop : Nat} {p : Pinning}

/-- The loop is at `p`: everything owned and below its offset is written and right, nothing
else is written. -/
structure Pinned (file : Bytes) (start stop : Nat) (p : Pinning) : Prop where
  offset_lt : p.offset < stop + kPage
  done : ∀ a, start ≤ a → a < stop → a < p.offset → ∃ b, p.out (a - start) = some b ∧ file[a]? = some b
  outside : ∀ i, stop - start ≤ i → p.out i = none

theorem pinWant_lt {stop offset : Nat} (hstop : stop < 2 ^ 63) (h : offset < stop) :
    offset + pinWant stop offset < stop + kPage := by
  have hwant : pinWant stop offset ≤ (stop - offset + kPage - 1) / kPage * kPage := by
    unfold pinWant
    rw [u64_of_lt (by simp only [kPage]; omega)]
    exact Nat.min_le_right _ _
  simp only [kPage] at *
  omega

/-- The bytes a read delivered, and where the loop goes on. -/
theorem pread_window (file : Bytes) {offset : Nat} (hstop : stop < 2 ^ 63) (h : offset < stop) (n : Nat) :
    u64 (offset + (pread file (pinWant stop offset) offset n).length) =
        offset + (pread file (pinWant stop offset) offset n).length ∧
      offset + (pread file (pinWant stop offset) offset n).length < stop + kPage := by
  have hlt := pinWant_lt hstop h
  have hlen : (pread file (pinWant stop offset) offset n).length ≤ pinWant stop offset := by
    rw [pread_length]
    omega
  refine ⟨u64_of_lt ?_, by omega⟩
  simp only [kPage] at hlt
  omega

theorem pread_getElem? {want offset n a : Nat} (hle : offset ≤ a)
    (hlt : a < offset + (pread file want offset n).length) : (pread file want offset n)[a - offset]? = file[a]? := by
  have hblock : pread file want offset n = block file offset (min n want) := by
    unfold pread block
    rw [List.take_take]
  have hlen : (block file offset (min n want)).length ≤ min n want := by
    rw [block_length]
    exact Nat.min_le_left _ _
  rw [hblock] at hlt ⊢
  rw [block_getElem?, if_pos (by omega), Nat.add_sub_cancel' hle]

/-- What a read leaves in the mapping: the wanted part of what it delivered. -/
theorem Pinning.copy_out {buffer : Bytes} (hwrap : u64 (p.offset + buffer.length) = p.offset + buffer.length)
    (i : Nat) : (p.copy start stop buffer).out i =
      if max p.offset start ≤ start + i ∧ start + i < min (p.offset + buffer.length) stop then
        buffer[start + i - p.offset]?
      else p.out i := by
  unfold Pinning.copy
  dsimp only
  rw [hwrap]
  generalize hlo : max p.offset start = lo
  generalize hhi : min (p.offset + buffer.length) stop = hi
  by_cases hin : hi > lo
  · have hlen : ((block buffer (lo - p.offset) (hi - lo)).map some).length = hi - lo := by
      rw [List.length_map, block_length_of_le (by omega)]
    rw [if_pos hin, blit_apply]
    split
    · rename_i hcell
      rw [hlen] at hcell
      rw [if_pos (by omega), List.getElem_map, ← List.getElem?_eq_getElem, block_getElem?, if_pos (by omega)]
      congr 1
      omega
    · rename_i hcell
      rw [hlen] at hcell
      rw [if_neg (by omega)]
  · rw [if_neg hin, if_neg (by omega)]

/-- One read that returned bytes keeps the invariant. -/
theorem Pinned.turn (h : Pinned file start stop p) (hstop : stop < 2 ^ 63) (hlt : p.offset < stop) (n : Nat) :
    Pinned file start stop (p.copy start stop (pread file (pinWant stop p.offset) p.offset n)) := by
  obtain ⟨hwrap, hnext⟩ := pread_window file hstop hlt n
  generalize hbuf : pread file (pinWant stop p.offset) p.offset n = buffer at hwrap hnext
  have hoffset : (p.copy start stop buffer).offset = p.offset + buffer.length := hwrap
  refine ⟨hoffset ▸ hnext, fun a hstart ha hbelow => ?_, fun i hi => ?_⟩
  · rw [hoffset] at hbelow
    rw [Pinning.copy_out hwrap, Nat.add_sub_cancel' hstart]
    by_cases hold : a < p.offset
    · rw [if_neg (by omega)]
      exact h.done a hstart ha hold
    · -- among the bytes of this read
      have hin : a - p.offset < buffer.length := by omega
      have hcell : buffer[a - p.offset]? = file[a]? := by
        rw [← hbuf] at hbelow ⊢
        exact pread_getElem? (by omega) hbelow
      rw [if_pos (by omega), ← hcell, List.getElem?_eq_getElem hin]
      exact ⟨_, rfl, rfl⟩
  · rw [Pinning.copy_out hwrap, if_neg (by omega)]
    exact h.outside i hi

/-- What holds where the loop has come to. -/
def PinLoop.Sound (file : Bytes) (start stop : Nat) : PinLoop → Prop
  | .reading p => Pinned file start stop p
  | .failed p => Pinned file start stop p
  | .finished p => Pinned file start stop p ∧ stop ≤ p.offset

theorem Pinned.reads (hstop : stop < 2 ^ 63) (answers : List Pread) (h : Pinned file start stop p) :
    (pinReads file start stop answers p).Sound file start stop := by
  induction answers generalizing p with
  | nil =>
    unfold pinReads
    by_cases hlt : p.offset < stop
    · rw [if_pos hlt]
      exact h
    · rw [if_neg hlt]
      exact ⟨h, Nat.not_lt.mp hlt⟩
  | cons answer answers ih =>
    unfold pinReads
    by_cases hlt : p.offset < stop
    · rw [if_pos hlt]
      cases answer with
      | interrupted => exact ih h
      | failed => exact h
      | bytes n =>
        dsimp only
        split
        · exact h
        · exact ih (h.turn hstop hlt n)
    · rw [if_neg hlt]
      exact ⟨h, Nat.not_lt.mp hlt⟩

/-- Reads that were answered, be it with an error, are enough if there are as many as there
are bytes to come. -/
theorem pinReads_answered (file : Bytes) (start : Nat) (hstop : stop < 2 ^ 63) (p : Pinning) (answers : List Pread)
    (hmany : stop - p.offset ≤ (answers.filter (· ≠ .interrupted)).length) :
    ∀ p', pinReads file start stop answers p ≠ .reading p' := by
  induction answers generalizing p with
  | nil =>
    intro p'
    have hge : ¬p.offset < stop := by
      rw [List.filter_nil, List.length_nil] at hmany
      omega
    unfold pinReads
    rw [if_neg hge]
    exact nofun
  | cons answer answers ih =>
    intro p'
    unfold pinReads
    by_cases hlt : p.offset < stop
    · rw [if_pos hlt]
      cases answer with
      | interrupted => exact ih p (by simpa using hmany) p'
      | failed => exact nofun
      | bytes n =>
        dsimp only
        split
        · exact nofun
        · rename_i hsome
          have hoffset : (p.copy start stop (pread file (pinWant stop p.offset) p.offset n)).offset =
              p.offset + (pread file (pinWant stop p.offset) p.offset n).length :=
            (pread_window file hstop hlt n).1
          refine ih _ ?_ p'
          rw [hoffset]
          rw [List.filter_cons_of_pos (by simp), List.length_cons] at hmany
          omega
    · rw [if_neg hlt]
      exact nofun

end Loop

/-! ## The whole call -/

section Call
variable {s : Store}

theorem Extents.stop_eq (h : Extents s) : s.scaleStart + s.ownedBytes = s.scaleOffset + s.rowHi * kScaleBytes := by
  have := h.lo_le_hi
  unfold Store.scaleStart Store.ownedBytes
  simp only [kScaleBytes]
  omega

/-- The 64-bit sums are the exact ones. -/
theorem Extents.no_wrap (h : Extents s) :
    u64 ((s.rowHi - s.rowLo) * kScaleBytes) = s.ownedBytes ∧
      u64 (s.scaleOffset + u64 (s.rowLo * kScaleBytes)) = s.scaleStart ∧
      u64 (s.scaleStart + s.ownedBytes) = s.scaleStart + s.ownedBytes := by
  have hstop := h.stop_lt
  rw [← h.stop_eq] at hstop
  unfold Store.scaleStart Store.ownedBytes at *
  have hlo : u64 (s.rowLo * kScaleBytes) = s.rowLo * kScaleBytes := u64_of_lt (by omega)
  rw [hlo]
  exact ⟨u64_of_lt (by omega), u64_of_lt (by omega), u64_of_lt (by omega)⟩

theorem pageBase_le (offset : Nat) : pageBase offset ≤ offset := Nat.sub_le _ _

theorem pinned_start (s : Store) :
    Pinned s.fd s.scaleStart (s.scaleStart + s.ownedBytes) ⟨pageBase s.scaleStart, fun _ => none⟩ where
  offset_lt := by
    have := pageBase_le s.scaleStart
    simp only [kPage]
    omega
  done a hstart _ hbelow := by
    have := pageBase_le s.scaleStart
    dsimp only at hbelow
    omega
  outside _ _ := rfl

/-- Every owned byte is written and is the file's. -/
def Filled (s : Store) (out : Nat → Option UInt8) : Prop :=
  ∀ i, i < s.ownedBytes → ∃ b, out i = some b ∧ s.fd[s.scaleStart + i]? = some b

theorem Pinned.filled {p : Pinning} (h : Pinned s.fd s.scaleStart (s.scaleStart + s.ownedBytes) p)
    (hdone : s.scaleStart + s.ownedBytes ≤ p.offset) : Filled s p.out := by
  intro i hi
  have hcell := h.done (s.scaleStart + i) (Nat.le_add_right _ _) (by omega) (by omega)
  rwa [Nat.add_sub_cancel_left] at hcell

/-- What a call has come to, whether it has returned or not. -/
structure Kept (s : Store) (r : PinRun) : Prop where
  outside : ∀ i, s.ownedBytes ≤ i → r.out i = none
  success : r.ret = some true → Filled s r.out ∧ r.live = [.map] ∧
    r.store = { s with scales := some fun i => (r.out i).getD 0, scalesSize := s.ownedBytes }
  failure : r.ret = some false → r.live = []
  same : r.ret ≠ some true → r.store = s

theorem Kept.refused (s : Store) : Kept s ⟨some false, s, fun _ => none, []⟩ :=
  ⟨fun _ _ => rfl, nofun, fun _ => rfl, fun _ => rfl⟩

theorem Extents.kept (h : Extents s) (mapped aligned : Bool) (answers : List Pread) :
    Kept s (pinScalesRun s mapped aligned answers) := by
  obtain ⟨hbytes, hstart, hstop⟩ := h.no_wrap
  have hlt : s.scaleStart + s.ownedBytes < 2 ^ 63 := by rw [h.stop_eq]; exact h.stop_lt
  unfold pinScalesRun
  dsimp only
  rw [hbytes, hstart, hstop]
  split
  · exact Kept.refused s
  split
  · exact Kept.refused s
  split
  · rename_i map hmap
    obtain ⟨rfl, hfit⟩ := h.resident map hmap
    rw [← h.stop_eq] at hfit
    have hlen : ((block s.fd s.scaleStart s.ownedBytes).map some).length = s.ownedBytes := by
      rw [List.length_map, block_length_of_le hfit]
    refine ⟨fun i hi => ?_, fun _ => ⟨fun i hi => ?_, rfl, rfl⟩, nofun, nofun⟩ <;> dsimp only
    · exact blit_outside _ _ _ _ (by omega)
    · have hcell : s.scaleStart + i < s.fd.length := by omega
      refine ⟨s.fd[s.scaleStart + i], ?_, List.getElem?_eq_getElem hcell⟩
      rw [blit_apply, dif_pos (by omega), List.getElem_map, ← List.getElem?_eq_getElem, block_getElem?,
        if_pos (by omega), Nat.sub_zero, List.getElem?_eq_getElem hcell]
  · split
    · exact Kept.refused s
    have hreads := (pinned_start s).reads hlt answers
    split
    · rename_i p hloop
      rw [hloop] at hreads
      exact ⟨fun i hi => hreads.outside i (by omega), nofun, nofun, fun _ => rfl⟩
    · rename_i p hloop
      rw [hloop] at hreads
      exact ⟨fun i hi => hreads.outside i (by omega), nofun, fun _ => rfl, fun _ => rfl⟩
    · rename_i p hloop
      rw [hloop] at hreads
      exact ⟨fun i hi => hreads.1.outside i (by omega), fun _ => ⟨hreads.1.filled hreads.2, rfl, rfl⟩, nofun,
        nofun⟩

theorem Extents.returns (h : Extents s) (mapped aligned : Bool) {answers : List Pread}
    (hmany : s.ownedBytes + kPage ≤ (answers.filter (· ≠ .interrupted)).length) :
    (pinScalesRun s mapped aligned answers).ret ≠ none := by
  obtain ⟨hbytes, hstart, hstop⟩ := h.no_wrap
  have hlt : s.scaleStart + s.ownedBytes < 2 ^ 63 := by rw [h.stop_eq]; exact h.stop_lt
  have hbase : s.scaleStart < pageBase s.scaleStart + kPage := by
    have := Nat.mod_lt s.scaleStart (show 0 < kPage by decide)
    have := Nat.mod_le s.scaleStart kPage
    unfold pageBase
    omega
  have hreads := pinReads_answered s.fd s.scaleStart hlt ⟨pageBase s.scaleStart, fun _ => none⟩ answers
    (by dsimp only; omega)
  unfold pinScalesRun
  dsimp only
  rw [hbytes, hstart, hstop]
  split
  · exact nofun
  split
  · exact nofun
  split
  · exact nofun
  split
  · exact nofun
  split
  · rename_i p hloop
    exact absurd hloop (hreads p)
  · exact nofun
  · exact nofun

end Call

/-! ## A call that returns is `pinScales` -/

/-- The loop of `Store.lean` looks at no answer below its offset. -/
theorem pinLoop_congr {file : Bytes} {start stop offset : Nat} {got got' : Nat → Nat} {out : Nat → UInt8}
    (h : ∀ o, offset ≤ o → got o = got' o) :
    pinLoop file start stop got offset out = pinLoop file start stop got' offset out := by
  fun_induction pinLoop file start stop got offset out with
  | case1 offset out hlt want buffer hempty =>
    rw [pinLoop, dif_pos hlt]
    dsimp only
    rw [← h offset (Nat.le_refl _), dif_pos hempty]
  | case2 offset out hlt want buffer hsome lo hi ih =>
    simp only [dite_eq_ite] at ih
    rw [ih fun o ho => h o (Nat.le_trans (Nat.le_add_right _ _) ho)]
    conv_rhs => rw [pinLoop, dif_pos hlt]
    dsimp only
    rw [← h offset (Nat.le_refl _), dif_neg hsome]
  | case3 offset out hge =>
    rw [pinLoop, dif_neg hge]

theorem getD_blit (out : Nat → Option UInt8) (off : Nat) (bs : Bytes) :
    (fun i => (blit out off (bs.map some) i).getD 0) = blit (fun i => (out i).getD 0) off bs := by
  funext i
  rw [blit_apply, blit_apply]
  simp only [List.length_map]
  split
  · rw [List.getElem_map]
    rfl
  · rfl

/-- What a finished loop has computed. -/
def PinLoop.result : PinLoop → Option (Option (Nat → UInt8))
  | .reading _ => none
  | .failed _ => some none
  | .finished p => some (some fun i => (p.out i).getD 0)

theorem pinReads_pinLoop {file : Bytes} {start stop : Nat} (hstop : stop < 2 ^ 63) (answers : List Pread)
    {p : Pinning} {r : Option (Nat → UInt8)} (hr : (pinReads file start stop answers p).result = some r) :
    ∃ got, pinLoop file start stop got p.offset (fun i => (p.out i).getD 0) = r := by
  induction answers generalizing p with
  | nil =>
    unfold pinReads at hr
    split at hr
    · cases hr
    · rename_i hge
      obtain rfl := Option.some.inj hr
      exact ⟨fun _ => 0, by rw [pinLoop, dif_neg hge]⟩
  | cons answer answers ih =>
    unfold pinReads at hr
    split at hr
    · rename_i hlt
      cases answer with
      | interrupted => exact ih hr
      | failed =>
        obtain rfl := Option.some.inj hr
        refine ⟨fun _ => 0, ?_⟩
        rw [pinLoop, dif_pos hlt]
        dsimp only
        rw [dif_pos (by simp [pread])]
      | bytes n =>
        have hwant : pinWant stop p.offset =
            min (8 <<< 20) ((stop - p.offset + kPage - 1) / kPage * kPage) := by
          unfold pinWant
          rw [u64_of_lt (by simp only [kPage]; omega)]
        dsimp only at hr
        split at hr
        · rename_i hempty
          obtain rfl := Option.some.inj hr
          refine ⟨fun _ => n, ?_⟩
          rw [pinLoop, dif_pos hlt]
          dsimp only
          rw [← hwant, dif_pos hempty]
        · rename_i hsome
          obtain ⟨got, hgot⟩ := ih hr
          have hwrap := (pread_window file hstop hlt n).1
          refine ⟨Function.update got p.offset n, ?_⟩
          rw [pinLoop, dif_pos hlt]
          dsimp only
          rw [Function.update_self, ← hwant, dif_neg hsome]
          have hafter (o : Nat) (ho : p.offset + (pread file (pinWant stop p.offset) p.offset n).length ≤ o) :
              Function.update got p.offset n o = got o :=
            Function.update_of_ne (by omega) _ _
          rw [pinLoop_congr hafter]
          unfold Pinning.copy at hgot
          dsimp only at hgot
          rw [hwrap] at hgot
          rw [← hgot]
          congr 1
          split
          · exact (getD_blit _ _ _).symm
          · rfl
    · rename_i hge
      obtain rfl := Option.some.inj hr
      exact ⟨fun _ => 0, by rw [pinLoop, dif_neg hge]⟩

/-- A call that returns is a call of `pinScales`. -/
theorem pinScalesRun_returns {s : Store} (h : Extents s) (mapped aligned : Bool) (answers : List Pread) {b : Bool}
    (hret : (pinScalesRun s mapped aligned answers).ret = some b) :
    ∃ got, pinScales s ⟨mapped, aligned, got⟩ =
      if b = true then some (pinScalesRun s mapped aligned answers).store else none := by
  obtain ⟨hbytes, hstart, hstop⟩ := h.no_wrap
  have hlt : s.scaleStart + s.ownedBytes < 2 ^ 63 := by rw [h.stop_eq]; exact h.stop_lt
  unfold pinScalesRun at hret ⊢
  unfold pinScales
  dsimp only at hret ⊢
  rw [hbytes, hstart, hstop] at hret ⊢
  by_cases hcount : s.rowHi - s.rowLo = 0
  · rw [if_pos hcount] at hret ⊢
    obtain rfl := Option.some.inj hret
    exact ⟨fun _ => 0, by rw [if_pos (Or.inl hcount)]; rfl⟩
  by_cases hmapped : mapped = false
  · rw [if_neg hcount, if_pos hmapped] at hret ⊢
    obtain rfl := Option.some.inj hret
    exact ⟨fun _ => 0, by rw [if_pos (Or.inr hmapped)]; rfl⟩
  rw [if_neg hcount, if_neg hmapped] at hret ⊢
  simp only [if_neg (not_or.mpr ⟨hcount, hmapped⟩)]
  cases hres : s.resident with
  | some map =>
    simp only [hres] at hret ⊢
    obtain rfl := Option.some.inj hret
    refine ⟨fun _ => 0, ?_⟩
    rw [if_pos rfl, getD_blit]
    rfl
  | none =>
    simp only [hres] at hret ⊢
    by_cases haligned : aligned = false
    · rw [if_pos haligned] at hret ⊢
      obtain rfl := Option.some.inj hret
      exact ⟨fun _ => 0, by rw [if_pos haligned]; rfl⟩
    rw [if_neg haligned] at hret ⊢
    have hloop := fun r => @pinReads_pinLoop s.fd s.scaleStart _ hlt answers ⟨pageBase s.scaleStart, fun _ => none⟩ r
    cases hreads : pinReads s.fd s.scaleStart (s.scaleStart + s.ownedBytes) answers
        ⟨pageBase s.scaleStart, fun _ => none⟩ with
    | reading p =>
      rw [hreads] at hret
      cases hret
    | failed p =>
      rw [hreads] at hret hloop
      obtain rfl := Option.some.inj hret
      obtain ⟨got, hgot⟩ := hloop none rfl
      refine ⟨got, ?_⟩
      rw [if_neg haligned]
      exact congrArg (Option.map _) hgot
    | finished p =>
      rw [hreads] at hret hloop
      obtain rfl := Option.some.inj hret
      obtain ⟨got, hgot⟩ := hloop _ rfl
      refine ⟨got, ?_⟩
      rw [if_neg haligned]
      exact congrArg (Option.map _) hgot

/-! ## The result -/

/-- **Pinning is exact.** Whatever the reads return, a call writes nothing outside its
mapping; it returns once as many reads are answered as there can be bytes to come; if it
succeeds, every owned scale byte is in place and is the file's; if not, the store is as it
was and nothing stays allocated. -/
theorem pin_scales_exact {s : Store} (h : Extents s) (mapped aligned : Bool) (answers : List Pread) :
    let r := pinScalesRun s mapped aligned answers
    (s.ownedBytes + kPage ≤ (answers.filter (· ≠ .interrupted)).length → r.ret ≠ none) ∧
    (∀ i, s.ownedBytes ≤ i → r.out i = none) ∧
    (r.ret = some true → Filled s r.out ∧ r.live = [.map] ∧
      r.store = { s with scales := some fun i => (r.out i).getD 0, scalesSize := s.ownedBytes }) ∧
    (r.ret = some false → r.live = []) ∧
    (r.ret ≠ some true → r.store.scales = s.scales ∧ r.store.scalesSize = s.scalesSize ∧ r.store = s) := by
  have hkept := h.kept mapped aligned answers
  refine ⟨h.returns mapped aligned, hkept.outside, hkept.success, hkept.failure, fun hret => ?_⟩
  rw [hkept.same hret]
  exact ⟨rfl, rfl, rfl⟩

/-- Three rows of a file of 40 bytes, of which the last two are owned. -/
def threeScales : Store where
  fd := (List.range 40).map UInt8.ofNat
  rows := 3
  weightOffset := 0
  scaleOffset := 10
  slots := 0
  rowLo := 1
  rowHi := 3
  sets := 0
  ways := 1
  resident := none
  scales := none
  scalesSize := 0
  packedFd := none

theorem threeScales_extents : Extents threeScales := ⟨by decide, by decide, nofun⟩

/-- Two short reads end before the first owned byte and inside the first row. -/
theorem threeScales_pinned :
    (pinScalesRun threeScales true true [.bytes 5, .interrupted, .bytes 16, .bytes 99]).ret = some true ∧
      Filled threeScales (pinScalesRun threeScales true true [.bytes 5, .interrupted, .bytes 16, .bytes 99]).out := by
  have hret :
      (pinScalesRun threeScales true true [.bytes 5, .interrupted, .bytes 16, .bytes 99]).ret = some true := by decide
  exact ⟨hret, ((pin_scales_exact threeScales_extents true true _).2.2.1 hret).1⟩

end FlashSpark.L2.RowStore
