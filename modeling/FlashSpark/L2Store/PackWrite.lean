import FlashSpark.Core.Crash
import FlashSpark.L2Store.PackEngram

/-!
# `pack_layer` on a disk

`PackEngram.lean` computes the bytes that `pack_layer` means to publish. Here it runs:
`scripts/pack_engram.py:51-97` as operations on the output directory, where the
process may be killed between two of them, the system may refuse one, which raises, and
an unbuffered `write` may store only part of its buffer, which the code does not look at.

* `storedRows_eq`, `storedRows_length`: what the chunk loop leaves in the file.
* `packLayer_meets`: what one call does to the directory, however it ends.
* `packLayer_refines`: with complete writes it publishes what `PackEngram` computes.
-/
namespace FlashSpark.L2.PackWrite
open PackEngram
open RowStore (pread_length)

/-- `engram-l{layer}-r{rank}of{tp}.bin`, and the same with suffix `.partial`. -/
inductive File where
  | shard (layer rank tp : Nat)
  | unfinished (layer rank tp : Nat)
  deriving DecidableEq

/-- `manifest-r{rank}of{tp}.json`, and the same with suffix `.tmp`. -/
inductive Doc where
  | manifest (rank tp : Nat)
  | temp (rank tp : Nat)
  deriving DecidableEq

/-- A text file: all of a document, or a part of one. -/
inductive Text (T : Type) where
  | torn
  | whole (t : T)

structure Dir (T : Type) where
  file : File → Option Bytes
  text : Doc → Option (Text T)

def Dir.put {T : Type} (d : Dir T) (f : File) (content : Option Bytes) : Dir T :=
  { d with file := Function.update d.file f content }

/-- What `tensor_span` finds: the shard of the checkpoint, its contents, and where the
two tables of a layer are in it. -/
structure Span where
  path : String
  file : Bytes
  rows : Nat
  weightOff : Nat
  scaleOff : Nat

inductive RunError where
  | pack (e : PackError)
  | checkpoint
  | fileNotFound
  | osError
  | valueError (message : String)
  | runtimeError (message : String)

/-- What the system may refuse: to open the two files, to read or write a chunk, to sync
or close the file, to rename it. -/
inductive PackOp where
  | openSource
  | openUnfinished
  | writeHeader
  | readWeights (start : Nat)
  | readScales (start : Nat)
  | writeBlock (start : Nat)
  | sync
  | rename
  deriving DecidableEq

/-- How many bytes the raw reads of a chunk return and the raw writes store at most, and
which operations the system refuses. -/
structure PackIo where
  got : Nat → Nat × Nat
  header : Nat
  stored : Nat → Nat
  refuses : PackOp → Bool

variable {T : Type}

def pathExists (f : File) : Prog (Dir T) RunError Bool := .op fun d => ((d.file f).isSome, d)

def stat (f : File) : Prog (Dir T) RunError Nat := .tryOp fun d =>
  (match d.file f with | none => .error .fileNotFound | some b => .ok b.length, d)

/-- An operation that the system may refuse, which leaves the directory as it is. -/
def attempt (refused : Bool) (f : Dir T → Dir T) : Prog (Dir T) RunError Unit := .tryOp fun d =>
  if refused then (.error .osError, d) else (.ok (), f d)

/-- `open(f, 'wb')`. -/
def create (io : PackIo) (f : File) : Prog (Dir T) RunError Unit :=
  attempt (io.refuses .openUnfinished) (·.put f (some []))

/-- A raw `write` that stores the first `n` bytes of its buffer. -/
def write (refused : Bool) (f : File) (buffer : Bytes) (n : Nat) : Prog (Dir T) RunError Unit :=
  attempt refused fun d => d.put f (some ((d.file f).getD [] ++ buffer.take n))

def rename (io : PackIo) (f g : File) : Prog (Dir T) RunError Unit := .tryOp fun d =>
  if io.refuses .rename then (.error .osError, d)
  else
    match d.file f with
    | none => (.error .fileNotFound, d)
    | some b => (.ok (), (d.put f none).put g (some b))

/-- mirrors scripts/pack_engram.py:77-87 -/
def readChunk (s : Span) (io : PackIo) (start n : Nat) : Prog (Dir T) RunError Bytes := do
  attempt (io.refuses (.readWeights start)) id
  attempt (io.refuses (.readScales start)) id
  match packChunk s.file s.weightOff s.scaleOff start n (io.got start) with
  | .error e => Prog.raise (.pack e)
  | .ok block => pure block

/-- mirrors scripts/pack_engram.py:74-88 -/
def writeRows (s : Span) (hi : Nat) {chunkRows : Nat} (hc : 0 < chunkRows) (io : PackIo) (dst : File)
    (start : Nat) : Prog (Dir T) RunError Unit :=
  if start < hi then do
    let stop := min (start + chunkRows) hi
    let block ← readChunk s io start (stop - start)
    write (io.refuses (.writeBlock start)) dst block (io.stored start)
    writeRows s hi hc io dst (start + chunkRows)
  else pure ()
termination_by hi - start

/-- mirrors scripts/pack_engram.py:72-94 -/
def writeShard (s : Span) (header : Bytes) (lo hi chunkRows : Nat) (io : PackIo)
    (dst target : File) : Prog (Dir T) RunError Unit := do
  attempt (io.refuses .openSource) id
  create io dst
  write (io.refuses .writeHeader) dst header io.header
  if hc : 0 < chunkRows then writeRows s hi hc io dst lo else Prog.raise (.pack .rangeStep)
  attempt (io.refuses .sync) id
  rename io dst target

/-- `target.exists() and target.stat().st_size == expected`. -/
def alreadyComplete (target : File) (expected : Nat) : Prog (Dir T) RunError Bool := do
  let present ← pathExists target
  if present then do
    let size ← stat target
    pure (size == expected)
  else pure false

/-- mirrors scripts/pack_engram.py:51-97 (`pack_layer`) -/
def packLayer (tensorSpan : Nat → Option Span) (layerId rank tp chunkRows : Nat) (io : PackIo) :
    Prog (Dir T) RunError File :=
  match tensorSpan layerId with
  | none => .raise .checkpoint
  | some s =>
    if tp = 0 then .raise (.pack .zeroRanks)
    else do
      let lo := s.rows * rank / tp
      let hi := s.rows * (rank + 1) / tp
      let target := File.shard layerId rank tp
      let dst := File.unfinished layerId rank tp
      let expected := headerBytes + (hi - lo) * rowBytes
      let complete ← alreadyComplete target expected
      if complete then pure target
      else match packHeader layerId lo hi s.rows with
        | .error e => Prog.raise (.pack e)
        | .ok header => do
          writeShard s header lo hi chunkRows io dst target
          pure target

/-! ## Chunks -/

/-- `P` of the first row of every chunk. -/
def EachChunk (lo hi chunkRows : Nat) (P : Nat → Prop) : Prop :=
  ∀ j, lo + j * chunkRows < hi → P (lo + j * chunkRows)

theorem eachChunk_step {lo hi chunkRows : Nat} {P : Nat → Prop} (h : lo < hi) :
    EachChunk lo hi chunkRows P ↔ P lo ∧ EachChunk (lo + chunkRows) hi chunkRows P := by
  have hsucc : ∀ j, lo + chunkRows + j * chunkRows = lo + (j + 1) * chunkRows := fun j => by ring
  constructor
  · intro hP
    refine ⟨by simpa using hP 0 (by simpa using h), fun j hj => ?_⟩
    rw [hsucc] at hj ⊢
    exact hP (j + 1) hj
  · intro hyp j hj
    obtain ⟨h0, hP⟩ := hyp
    cases j with
    | zero => simpa using h0
    | succ j =>
      rw [← hsucc] at hj ⊢
      exact hP j hj

theorem eachChunk_done {lo hi chunkRows : Nat} {P : Nat → Prop} (h : hi ≤ lo) :
    EachChunk lo hi chunkRows P := fun j hj => absurd hj (by omega)

/-- How many rows the chunk from `start` has. -/
def chunkSize (hi chunkRows start : Nat) : Nat := min (start + chunkRows) hi - start

/-- Both reads of the chunk from `start` return all that was asked for. -/
structure ChunkRead (s : Span) (io : PackIo) (hi chunkRows start : Nat) : Prop where
  weights : io.refuses (.readWeights start) = false
  scales : io.refuses (.readScales start) = false
  got_weights : chunkSize hi chunkRows start * weightBytes ≤
    min (io.got start).1 (s.file.length - (s.weightOff + start * weightBytes))
  got_scales : chunkSize hi chunkRows start * scaleBytes ≤
    min (io.got start).2 (s.file.length - (s.scaleOff + start * scaleBytes))

/-- The write of the chunk from `start` stores all of its buffer. -/
def ChunkStored (io : PackIo) (hi chunkRows start : Nat) : Prop :=
  chunkSize hi chunkRows start * rowBytes ≤ io.stored start

theorem ChunkRead.packChunk {s : Span} {io : PackIo} {hi chunkRows start : Nat}
    (h : ChunkRead s io hi chunkRows start) :
    ∃ b, packChunk s.file s.weightOff s.scaleOff start (chunkSize hi chunkRows start) (io.got start) =
      .ok b := by
  obtain ⟨-, -, hw, hs⟩ := h
  refine ⟨_, if_neg ?_⟩
  simp only [pread_length]
  omega

theorem chunkRead_of_packChunk {s : Span} {io : PackIo} {hi chunkRows start : Nat} {b : Bytes}
    (hw : io.refuses (.readWeights start) = false) (hs : io.refuses (.readScales start) = false)
    (h : packChunk s.file s.weightOff s.scaleOff start (chunkSize hi chunkRows start) (io.got start) =
      .ok b) : ChunkRead s io hi chunkRows start := by
  unfold PackEngram.packChunk at h
  simp only [pread_length] at h
  split at h
  · cases h
  · exact ⟨hw, hs, by omega, by omega⟩

theorem record_length {s : Span} {id : Nat} (hw : s.weightOff + id * weightBytes + weightBytes ≤ s.file.length)
    (hs : s.scaleOff + id * scaleBytes + scaleBytes ≤ s.file.length) :
    (record s.file s.weightOff s.scaleOff id).length = rowBytes := by
  rw [record, List.length_append, block_length_of_le hw, block_length_of_le hs]
  rfl

theorem ChunkRead.records_length {s : Span} {io : PackIo} {hi chunkRows start : Nat}
    (h : ChunkRead s io hi chunkRows start) :
    (records s.file s.weightOff s.scaleOff start (chunkSize hi chunkRows start)).length =
      chunkSize hi chunkRows start * rowBytes := by
  obtain ⟨-, -, hgw, hgs⟩ := h
  rw [records, flatMap_length_of_length (k := rowBytes), List.length_range]
  intro r hr
  have hr := List.mem_range.mp hr
  have hw := Nat.mul_le_mul_right weightBytes (show r + 1 ≤ chunkSize hi chunkRows start from hr)
  have hs := Nat.mul_le_mul_right scaleBytes (show r + 1 ≤ chunkSize hi chunkRows start from hr)
  simp only [weightBytes, scaleBytes] at hgw hgs hw hs
  refine record_length ?_ ?_
  · simp only [weightBytes]; omega
  · simp only [scaleBytes]; omega

/-- What the chunk loop leaves in the file, from the chunk at `start` on. -/
def storedRows (s : Span) (hi : Nat) {chunkRows : Nat} (hc : 0 < chunkRows) (io : PackIo)
    (start : Nat) : Bytes :=
  if start < hi then
    (records s.file s.weightOff s.scaleOff start (chunkSize hi chunkRows start)).take (io.stored start) ++
      storedRows s hi hc io (start + chunkRows)
  else []
termination_by hi - start

section Stored
variable {s : Span} {hi chunkRows : Nat} {io : PackIo}

theorem storedRows_step (hc : 0 < chunkRows) {start : Nat} (h : start < hi) :
    storedRows s hi hc io start =
      (records s.file s.weightOff s.scaleOff start (chunkSize hi chunkRows start)).take (io.stored start) ++
        storedRows s hi hc io (start + chunkRows) := by
  rw [storedRows, if_pos h]

theorem storedRows_done (hc : 0 < chunkRows) {start : Nat} (h : hi ≤ start) :
    storedRows s hi hc io start = [] := by
  rw [storedRows, if_neg (by omega)]

theorem records_split {start : Nat} (hlt : start < hi) :
    records s.file s.weightOff s.scaleOff start (chunkSize hi chunkRows start) ++
        records s.file s.weightOff s.scaleOff (start + chunkRows) (hi - (start + chunkRows)) =
      records s.file s.weightOff s.scaleOff start (hi - start) := by
  unfold chunkSize
  by_cases hlast : start + chunkRows ≤ hi
  · rw [show min (start + chunkRows) hi - start = chunkRows by omega,
      show hi - start = chunkRows + (hi - (start + chunkRows)) by omega, records, records, records,
      range_flatMap_add]
    simp only [Nat.add_assoc]
  · rw [show min (start + chunkRows) hi - start = hi - start by omega,
      show hi - (start + chunkRows) = 0 by omega]
    simp [records]

/-- Complete writes leave the rows. -/
theorem storedRows_eq (hc : 0 < chunkRows) (start : Nat) (hread : EachChunk start hi chunkRows
      (ChunkRead s io hi chunkRows)) (hstored : EachChunk start hi chunkRows (ChunkStored io hi chunkRows)) :
    storedRows s hi hc io start = records s.file s.weightOff s.scaleOff start (hi - start) := by
  fun_induction storedRows s hi hc io start with
  | case1 start hlt ih =>
    obtain ⟨hr, hread⟩ := (eachChunk_step hlt).mp hread
    obtain ⟨hs, hstored⟩ := (eachChunk_step hlt).mp hstored
    rw [ih hread hstored, List.take_of_length_le (by rw [hr.records_length]; exact hs), records_split hlt]
  | case2 start hge =>
    rw [show hi - start = 0 by omega]
    rfl

/-- A file as long as all the rows is one whose writes were all complete. -/
theorem storedRows_length (hc : 0 < chunkRows) (start : Nat)
    (hread : EachChunk start hi chunkRows (ChunkRead s io hi chunkRows)) :
    (storedRows s hi hc io start).length ≤ (hi - start) * rowBytes ∧
      ((hi - start) * rowBytes ≤ (storedRows s hi hc io start).length →
        EachChunk start hi chunkRows (ChunkStored io hi chunkRows)) := by
  fun_induction storedRows s hi hc io start with
  | case1 start hlt ih =>
    obtain ⟨hr, hread⟩ := (eachChunk_step hlt).mp hread
    obtain ⟨hle, hfull⟩ := ih hread
    have hsplit : (hi - start) * rowBytes =
        chunkSize hi chunkRows start * rowBytes + (hi - (start + chunkRows)) * rowBytes := by
      rw [← Nat.add_mul]
      congr 1
      unfold chunkSize
      omega
    rw [List.length_append, List.length_take, hr.records_length, hsplit]
    refine ⟨by omega, fun hge => (eachChunk_step hlt).mpr ⟨?_, hfull (by omega)⟩⟩
    unfold ChunkStored
    omega
  | case2 start hge => exact ⟨by simp, fun _ => eachChunk_done (by omega)⟩

end Stored

/-! ## What a call does to the directory -/

@[simp] theorem Dir.put_file_self (d : Dir T) (f : File) (c : Option Bytes) : (d.put f c).file f = c := by
  simp [Dir.put]

@[simp] theorem Dir.put_file_ne (d : Dir T) {f g : File} (c : Option Bytes) (h : g ≠ f) :
    (d.put f c).file g = d.file g := by simp [Dir.put, h]

@[simp] theorem Dir.put_put (d : Dir T) (f : File) (c c' : Option Bytes) :
    (d.put f c).put f c' = d.put f c' := by simp [Dir.put]

section Meets
variable {killed : Nat → Bool} {s : Span} {io : PackIo} {d₀ : Dir T} {dst target : File}

/-- Killed while only `dst` had changed. -/
def KilledIn (killed : Nat → Bool) (d₀ : Dir T) (dst : File) (d : Dir T) : Prop :=
  (∃ k, killed k = true) ∧ ∃ c, d = d₀.put dst c

/-- What one operation makes of the partial file, if the system lets it. -/
theorem attempt_meets {refused : Bool} {f : Dir T → Dir T} {c e : Option Bytes}
    (hf : f (d₀.put dst c) = d₀.put dst e) :
    Meets killed (fun d => d = d₀.put dst c) (attempt refused f)
      (fun _ d => refused = false ∧ d = d₀.put dst e) (fun _ d => refused = true ∧ ∃ c, d = d₀.put dst c)
      (KilledIn killed d₀ dst) := by
  refine Meets.tryOp (fun k d hk hd => ⟨⟨k, hk⟩, c, hd⟩) (fun d a hd hok => ?_) fun d e hd herr => ?_
  · subst hd
    split at hok
    · cases hok
    · rename_i hr
      rw [if_neg hr]
      exact ⟨by simpa using hr, hf⟩
  · subst hd
    split at herr
    · rename_i hr
      rw [if_pos hr]
      exact ⟨hr, c, rfl⟩
    · cases herr

theorem readChunk_meets {hi chunkRows start : Nat} {c : Option Bytes} :
    Meets killed (fun d => d = d₀.put dst c)
      (readChunk (T := T) s io start (chunkSize hi chunkRows start))
      (fun block d => ChunkRead s io hi chunkRows start ∧
        block = records s.file s.weightOff s.scaleOff start (chunkSize hi chunkRows start) ∧
        d = d₀.put dst c)
      (fun _ d => ¬ChunkRead s io hi chunkRows start ∧ ∃ c, d = d₀.put dst c)
      (KilledIn killed d₀ dst) := by
  refine Meets.bind ((attempt_meets rfl).mono (fun _ h => h) (fun _ _ h => h) (fun _ d ⟨hr, hd⟩ =>
    ⟨fun h => Bool.false_ne_true (h.weights.symm.trans hr), hd⟩) fun _ h => h) fun _ =>
    Meets.of_fact fun hweights => ?_
  refine Meets.bind ((attempt_meets rfl).mono (fun _ h => h) (fun _ _ h => h) (fun _ d ⟨hr, hd⟩ =>
    ⟨fun h => Bool.false_ne_true (h.scales.symm.trans hr), hd⟩) fun _ h => h) fun _ =>
    Meets.of_fact fun hscales => ?_
  cases hchunk : packChunk s.file s.weightOff s.scaleOff start (chunkSize hi chunkRows start)
      (io.got start) with
  | ok block =>
    exact Meets.ret fun d hd => ⟨chunkRead_of_packChunk hweights hscales hchunk, packChunk_spec hchunk, hd⟩
  | error e =>
    refine Meets.raise fun d hd => ⟨fun hread => ?_, c, hd⟩
    obtain ⟨b, hb⟩ := hread.packChunk
    rw [hchunk] at hb
    cases hb

theorem write_meets {refused : Bool} {c buffer : Bytes} {n : Nat} :
    Meets killed (fun d => d = d₀.put dst (some c)) (write refused dst buffer n)
      (fun _ d => refused = false ∧ d = d₀.put dst (some (c ++ buffer.take n)))
      (fun _ d => refused = true ∧ ∃ c, d = d₀.put dst c) (KilledIn killed d₀ dst) :=
  attempt_meets (by simp)

/-- The reads of the chunk from `start` are complete, and its write is not refused. -/
def ChunkDone (s : Span) (io : PackIo) (hi chunkRows start : Nat) : Prop :=
  ChunkRead s io hi chunkRows start ∧ io.refuses (.writeBlock start) = false

theorem writeRows_meets {hi chunkRows : Nat} (hc : 0 < chunkRows) (start : Nat) (c : Bytes) :
    Meets killed (fun d => d = d₀.put dst (some c)) (writeRows (T := T) s hi hc io dst start)
      (fun _ d => EachChunk start hi chunkRows (ChunkDone s io hi chunkRows) ∧
        d = d₀.put dst (some (c ++ storedRows s hi hc io start)))
      (fun _ d => ¬EachChunk start hi chunkRows (ChunkDone s io hi chunkRows) ∧ ∃ c, d = d₀.put dst c)
      (KilledIn killed d₀ dst) := by
  induction hn : hi - start using Nat.strong_induction_on generalizing start c with
  | _ n ih =>
    rw [writeRows]
    refine Meets.ite (fun hlt => ?_) fun hge => ?_
    · refine Meets.bind (readChunk_meets.mono (fun d hd => hd) (fun _ _ h => h)
        (fun e d ⟨hno, hd⟩ => ⟨fun hall => hno ((eachChunk_step hlt).mp hall).1.1, hd⟩) fun _ h => h)
        fun block => Meets.of_fact fun hread => Meets.of_fact fun hblock => ?_
      subst hblock
      refine Meets.bind (write_meets.mono (fun _ h => h) (fun _ _ h => h) (fun _ d ⟨hr, hd⟩ =>
        ⟨fun hall => Bool.false_ne_true (((eachChunk_step hlt).mp hall).1.2.symm.trans hr), hd⟩)
        fun _ h => h) fun _ => Meets.of_fact fun hwrite => ?_
      refine (ih _ (by omega) (start + chunkRows) _ rfl).mono (fun d hd => hd) (fun _ d ⟨hall, hd⟩ => ?_)
        (fun e d ⟨hno, hd⟩ => ⟨fun hall => hno ((eachChunk_step hlt).mp hall).2, hd⟩) fun _ h => h
      refine ⟨(eachChunk_step hlt).mpr ⟨⟨hread, hwrite⟩, hall⟩, ?_⟩
      rw [hd, storedRows_step hc hlt, List.append_assoc]
    · refine Meets.ret fun d hd => ⟨eachChunk_done (by omega), ?_⟩
      rw [hd, storedRows_done hc (by omega), List.append_nil]

end Meets

/-! ## One call -/

def expectedSize (s : Span) (rank tp : Nat) : Nat :=
  headerBytes + (s.rows * (rank + 1) / tp - s.rows * rank / tp) * rowBytes

/-- The target is there and has the size of a complete shard. -/
def HasComplete (s : Span) (layerId rank tp : Nat) (d : Dir T) : Prop :=
  ∃ b, d.file (.shard layerId rank tp) = some b ∧ b.length = expectedSize s rank tp

def AllRead (s : Span) (rank tp chunkRows : Nat) (io : PackIo) : Prop :=
  EachChunk (s.rows * rank / tp) (s.rows * (rank + 1) / tp) chunkRows
    (ChunkRead s io (s.rows * (rank + 1) / tp) chunkRows)

/-- The system refuses nothing but, maybe, a read. -/
structure PackIo.Allows (io : PackIo) (lo hi chunkRows : Nat) : Prop where
  openSource : io.refuses .openSource = false
  openUnfinished : io.refuses .openUnfinished = false
  writeHeader : io.refuses .writeHeader = false
  writeBlock : EachChunk lo hi chunkRows fun start => io.refuses (.writeBlock start) = false
  sync : io.refuses .sync = false
  rename : io.refuses .rename = false

def AllAllowed (s : Span) (rank tp chunkRows : Nat) (io : PackIo) : Prop :=
  io.Allows (s.rows * rank / tp) (s.rows * (rank + 1) / tp) chunkRows

/-- Every write of the call stores all of its buffer. -/
def AllStored (s : Span) (rank tp chunkRows : Nat) (io : PackIo) : Prop :=
  headerBytes ≤ io.header ∧ EachChunk (s.rows * rank / tp) (s.rows * (rank + 1) / tp) chunkRows
    (ChunkStored io (s.rows * (rank + 1) / tp) chunkRows)

def rankHeader (s : Span) (layerId rank tp : Nat) : Except PackError Bytes :=
  packHeader layerId (s.rows * rank / tp) (s.rows * (rank + 1) / tp) s.rows

/-- What the call publishes, whatever its writes stored. -/
def writtenShard (s : Span) (header : Bytes) (rank tp : Nat) {chunkRows : Nat} (hc : 0 < chunkRows)
    (io : PackIo) : Bytes :=
  header.take io.header ++ storedRows s (s.rows * (rank + 1) / tp) hc io (s.rows * rank / tp)

theorem Dir.put_same (d : Dir T) (f : File) : d.put f (d.file f) = d := by simp [Dir.put]

section Call
variable {killed : Nat → Bool} {tensorSpan : Nat → Option Span} {s : Span}
  {layerId rank tp chunkRows : Nat} {io : PackIo} {d₀ : Dir T}

theorem alreadyComplete_meets {dst target : File} {expected : Nat} {err : RunError → Dir T → Prop} :
    Meets killed (fun d => d = d₀) (alreadyComplete target expected)
      (fun complete d => (complete = true ↔ ∃ b, d₀.file target = some b ∧ b.length = expected) ∧ d = d₀)
      err (KilledIn killed d₀ dst) := by
  have hkill : ∀ k d, killed k = true → d = d₀ → KilledIn killed d₀ dst d := by
    rintro k d hk rfl
    exact ⟨⟨k, hk⟩, d.file dst, (d.put_same dst).symm⟩
  refine Meets.bind (Q := fun present d => present = (d₀.file target).isSome ∧ d = d₀)
    (Meets.op hkill fun d hd => by rw [hd]; exact ⟨rfl, rfl⟩) fun present => Meets.of_fact fun hp => ?_
  subst hp
  cases hfile : d₀.file target with
  | none => exact Meets.ret fun d hd => ⟨by simp, hd⟩
  | some b =>
    refine Meets.bind (Q := fun size d => size = b.length ∧ d = d₀) ?_ fun size =>
      Meets.of_fact fun hsize => Meets.ret fun d hd => ⟨by simp [hsize], hd⟩
    refine Meets.tryOp hkill (fun d size hd hok => ?_) fun d e hd herr => ?_
    · subst hd
      rw [hfile] at hok
      exact ⟨(Except.ok.inj hok).symm, rfl⟩
    · rw [hd, hfile] at herr
      cases herr

/-- Where every read is complete and nothing is refused, the target is what the writes
stored, and the partial file is gone. -/
theorem writeShard_meets {header : Bytes} {lo hi : Nat} {dst target : File} (hc : 0 < chunkRows) :
    Meets killed (fun d => d = d₀) (writeShard (T := T) s header lo hi chunkRows io dst target)
      (fun _ d => (EachChunk lo hi chunkRows (ChunkRead s io hi chunkRows) ∧ io.Allows lo hi chunkRows) ∧
        d = (d₀.put dst none).put target (some (header.take io.header ++ storedRows s hi hc io lo)))
      (fun _ d => ¬(EachChunk lo hi chunkRows (ChunkRead s io hi chunkRows) ∧ io.Allows lo hi chunkRows) ∧
        ∃ c, d = d₀.put dst c)
      (KilledIn killed d₀ dst) := by
  have hrefused : ∀ {b : Bool} {d : Dir T}, (io.Allows lo hi chunkRows → b = false) →
      b = true ∧ (∃ c, d = d₀.put dst c) →
      ¬(EachChunk lo hi chunkRows (ChunkRead s io hi chunkRows) ∧ io.Allows lo hi chunkRows) ∧
        ∃ c, d = d₀.put dst c :=
    fun hb h => ⟨fun hall => Bool.false_ne_true ((hb hall.2).symm.trans h.1), h.2⟩
  unfold writeShard
  rw [dif_pos hc]
  refine Meets.bind ((attempt_meets (c := d₀.file dst) rfl).mono (fun d hd => by rw [hd, Dir.put_same])
    (fun _ _ h => h) (fun _ _ => hrefused PackIo.Allows.openSource) fun _ h => h) fun _ =>
    Meets.of_fact fun hsource => ?_
  refine Meets.bind ((attempt_meets (e := some []) (by simp)).mono (fun _ h => h) (fun _ _ h => h)
    (fun _ _ => hrefused PackIo.Allows.openUnfinished) fun _ h => h) fun _ => Meets.of_fact fun hcreate => ?_
  refine Meets.bind (write_meets.mono (fun _ h => h) (fun _ _ h => h)
    (fun _ _ => hrefused PackIo.Allows.writeHeader) fun _ h => h) fun _ => Meets.of_fact fun hheader => ?_
  refine Meets.bind ((writeRows_meets hc _ _).mono (fun _ h => h) (fun _ _ h => h) (fun _ _ ⟨hno, hd⟩ =>
    ⟨fun h => hno fun j hj => ⟨h.1 j hj, h.2.writeBlock j hj⟩, hd⟩) fun _ h => h) fun _ =>
    Meets.of_fact fun hdone => ?_
  refine Meets.bind ((attempt_meets rfl).mono (fun _ h => h) (fun _ _ h => h)
    (fun _ _ => hrefused PackIo.Allows.sync) fun _ h => h) fun _ => Meets.of_fact fun hsync => ?_
  -- the rename finds the partial file
  refine Meets.tryOp (fun k d hk hd => ⟨⟨k, hk⟩, _, hd⟩) (fun d _ hd hok => ?_) fun d e hd herr => ?_
  · split at hok
    · cases hok
    · rename_i hrename
      refine ⟨⟨fun j hj => (hdone j hj).1, hsource, hcreate, hheader, fun j hj => (hdone j hj).2, hsync,
        by simpa using hrename⟩, ?_⟩
      rw [if_neg hrename, hd, Dir.put_file_self]
      simp
  · split at herr
    · rename_i hrename
      rw [if_pos hrename]
      exact hrefused PackIo.Allows.rename ⟨hrename, _, hd⟩
    · rw [hd, Dir.put_file_self] at herr
      cases herr

/-- **What `pack_layer` does.** A target of the right size is returned as it is; else,
where the header fits, every read is complete and nothing is refused, it is replaced by
what the writes stored; else the call raises. Until the end only the partial file has
changed. -/
theorem packLayer_meets (hspan : tensorSpan layerId = some s) (htp : 0 < tp) (hc : 0 < chunkRows) :
    Meets killed (fun d => d = d₀) (packLayer (T := T) tensorSpan layerId rank tp chunkRows io)
      (fun target d => target = .shard layerId rank tp ∧
        (HasComplete s layerId rank tp d₀ ∧ d = d₀ ∨
          ¬HasComplete s layerId rank tp d₀ ∧
            (AllRead s rank tp chunkRows io ∧ AllAllowed s rank tp chunkRows io) ∧
            ∃ header, rankHeader s layerId rank tp = .ok header ∧
              d = (d₀.put (.unfinished layerId rank tp) none).put (.shard layerId rank tp)
                (some (writtenShard s header rank tp hc io))))
      (fun _ d => ¬HasComplete s layerId rank tp d₀ ∧
        ((∀ header, rankHeader s layerId rank tp ≠ .ok header) ∨
          ¬(AllRead s rank tp chunkRows io ∧ AllAllowed s rank tp chunkRows io)) ∧
        ∃ c, d = d₀.put (.unfinished layerId rank tp) c)
      (KilledIn killed d₀ (.unfinished layerId rank tp)) := by
  unfold packLayer
  rw [hspan]
  dsimp only
  rw [if_neg (by omega)]
  refine Meets.bind alreadyComplete_meets fun complete => Meets.of_fact fun hcomplete => ?_
  cases complete with
  | true => exact Meets.ret fun d hd => ⟨rfl, .inl ⟨hcomplete.mp rfl, hd⟩⟩
  | false =>
    have hno : ¬HasComplete s layerId rank tp d₀ := fun h => Bool.false_ne_true (hcomplete.mpr h)
    rw [if_neg Bool.false_ne_true]
    cases hheader : packHeader layerId (s.rows * rank / tp) (s.rows * (rank + 1) / tp) s.rows with
    | error e =>
      refine Meets.raise fun d hd => ⟨hno, .inl fun header hok => ?_, d₀.file (.unfinished layerId rank tp), ?_⟩
      · rw [rankHeader, hheader] at hok
        cases hok
      · rw [hd, Dir.put_same]
    | ok header =>
      dsimp only
      refine Meets.bind (Q := fun _ d =>
        (AllRead s rank tp chunkRows io ∧ AllAllowed s rank tp chunkRows io) ∧
        d = (d₀.put (.unfinished layerId rank tp) none).put (.shard layerId rank tp)
          (some (writtenShard s header rank tp hc io))) ?_ fun _ =>
        Meets.ret fun d hd => ⟨rfl, .inr ⟨hno, hd.1, header, hheader, hd.2⟩⟩
      exact (writeShard_meets hc).mono (fun d hd => hd) (fun _ d ⟨hread, hd⟩ => ⟨hread, hd⟩)
        (fun e d ⟨hread, hd⟩ => ⟨hno, .inr hread, hd⟩) fun _ h => h

end Call

/-! ## Size and contents -/

section Exact
variable {s : Span} {layerId rank tp chunkRows : Nat} {io : PackIo} {header : Bytes}

theorem records_length {hi start : Nat} (hc : 0 < chunkRows)
    (hread : EachChunk start hi chunkRows (ChunkRead s io hi chunkRows)) :
    (records s.file s.weightOff s.scaleOff start (hi - start)).length = (hi - start) * rowBytes := by
  induction hn : hi - start using Nat.strong_induction_on generalizing start with
  | _ n ih =>
    subst hn
    by_cases hlt : start < hi
    · obtain ⟨hr, hread⟩ := (eachChunk_step hlt).mp hread
      rw [← records_split hlt, List.length_append, hr.records_length, ih _ (by omega) hread rfl,
        ← Nat.add_mul]
      congr 1
      unfold chunkSize
      omega
    · rw [show hi - start = 0 by omega]
      simp [records]

theorem rankHeader_length (h : rankHeader s layerId rank tp = .ok header) : header.length = headerBytes :=
  (packHeader_spec h).1

/-- A published file of the right size had no short write. -/
theorem allStored_of_length (h : rankHeader s layerId rank tp = .ok header) (hc : 0 < chunkRows)
    (hread : AllRead s rank tp chunkRows io)
    (hlen : (writtenShard s header rank tp hc io).length = expectedSize s rank tp) :
    AllStored s rank tp chunkRows io := by
  obtain ⟨hle, hfull⟩ := storedRows_length hc _ hread
  rw [writtenShard, expectedSize, List.length_append, List.length_take, rankHeader_length h] at hlen
  exact ⟨by omega, hfull (by omega)⟩

theorem writtenShard_eq (h : rankHeader s layerId rank tp = .ok header) (hc : 0 < chunkRows)
    (hread : AllRead s rank tp chunkRows io) (hstored : AllStored s rank tp chunkRows io) :
    writtenShard s header rank tp hc io = header ++ records s.file s.weightOff s.scaleOff
      (s.rows * rank / tp) (s.rows * (rank + 1) / tp - s.rows * rank / tp) := by
  rw [writtenShard, storedRows_eq hc _ hread hstored.2,
    List.take_of_length_le (by rw [rankHeader_length h]; exact hstored.1)]

/-- What a call publishes is the rank's shard exactly when no write was short. -/
theorem shardOf_written_iff (h : rankHeader s layerId rank tp = .ok header) (hc : 0 < chunkRows)
    (hread : AllRead s rank tp chunkRows io) :
    ShardOf s.file s.rows s.weightOff s.scaleOff layerId rank tp (writtenShard s header rank tp hc io) ↔
      AllStored s rank tp chunkRows io := by
  constructor
  · intro hyp
    obtain ⟨header', hheader', heq⟩ := hyp
    refine allStored_of_length h hc hread ?_
    rw [heq, List.length_append, (packHeader_spec hheader').1, records_length hc hread]
    rfl
  · intro hstored
    exact ⟨header, h, writtenShard_eq h hc hread hstored⟩

end Exact

/-- With complete writes a call publishes what `PackEngram.packLayer` computes. -/
theorem packLayer_refines {tensorSpan : Nat → Option Span} {s : Span} {layerId rank tp chunkRows : Nat}
    {io : PackIo} {killed : Nat → Bool} {d₀ : Dir T} {shard : Bytes}
    (hspan : tensorSpan layerId = some s) (htp : 0 < tp) (hc : 0 < chunkRows)
    (hstored : AllStored s rank tp chunkRows io)
    (hpure : PackEngram.packLayer (d₀.file (.shard layerId rank tp)) s.file s.rows s.weightOff s.scaleOff
      layerId rank tp chunkRows io.got = .ok shard) :
    Meets killed (fun d => d = d₀) (packLayer (T := T) tensorSpan layerId rank tp chunkRows io)
      (fun target d => d.file target = some shard) (fun _ _ => True) (fun _ => True) := by
  refine (packLayer_meets hspan htp hc).mono (fun d hd => hd) ?_ (fun _ _ _ => trivial) fun _ _ => trivial
  rintro _ d ⟨rfl, ⟨⟨b, hfile, hlen⟩, rfl⟩ | ⟨hno, ⟨hread, -⟩, header, hheader, rfl⟩⟩
  · -- the target was complete
    unfold expectedSize at hlen
    unfold PackEngram.packLayer at hpure
    rw [if_neg (by omega)] at hpure
    dsimp only at hpure
    rw [hfile, Option.filter_some, if_pos (beq_iff_eq.mpr hlen)] at hpure
    rw [hfile, Except.ok.inj hpure]
  · unfold PackEngram.packLayer at hpure
    rw [if_neg (by omega)] at hpure
    dsimp only at hpure
    have hfilter : (d₀.file (.shard layerId rank tp)).filter (fun target => target.length ==
        headerBytes + (s.rows * (rank + 1) / tp - s.rows * rank / tp) * rowBytes) = none := by
      rw [Option.filter_eq_none_iff]
      intro b hb hlen
      exact hno ⟨b, hb, beq_iff_eq.mp hlen⟩
    rw [hfilter] at hpure
    dsimp only at hpure
    rw [show packHeader layerId (s.rows * rank / tp) (s.rows * (rank + 1) / tp) s.rows = .ok header from
      hheader] at hpure
    dsimp only at hpure
    rw [dif_pos hc] at hpure
    cases hrows : packRows s.file s.weightOff s.scaleOff (s.rows * (rank + 1) / tp) hc io.got
        (s.rows * rank / tp) with
    | error e =>
      rw [hrows] at hpure
      cases hpure
    | ok out =>
      rw [hrows] at hpure
      rw [Dir.put_file_self, writtenShard_eq hheader hc hread hstored, ← Except.ok.inj hpure,
        packRows_spec hc _ _ _ hrows]

end FlashSpark.L2.PackWrite
