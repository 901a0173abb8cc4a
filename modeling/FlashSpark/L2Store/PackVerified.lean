import FlashSpark.Core.LTS
import FlashSpark.Core.Raise
import FlashSpark.L2Store.PackWrite

/-!
# Packing, verifying and the manifest

`scripts/pack-verified.py:21-95`, one run of it for each rank, any number of runs on
one output directory, any of which may be killed. A run packs only into a directory
that has neither a manifest nor any packed file of its rank, and writes the manifest
last, through a temporary file.

* `verify_meets`: `verify` changes nothing and accepts only files of the right size.
* `Inv`: a manifest is whole and speaks of shards that are exact in every byte.
* `main_meets`: a run keeps it, wherever it ends.
* `manifest_sound`: what a manifest on disk means, in every reachable directory.
-/
namespace FlashSpark.L2.PackVerified
open PackEngram PackWrite

/-- mirrors scripts/pack_engram.py:31 -/
def engramLayers : List Nat := [1, 14]

/-- The only choice of `--tp`. -/
def tp4 : Nat := 4

variable {Dg : Type}

structure LayerRecord (Dg : Type) where
  layer : Nat
  rank : Nat
  tp : Nat
  rowStart : Nat
  rowEnd : Nat
  totalRows : Nat
  packedFile : File
  bytes : Nat
  sha256 : Dg
  sampledRows : Nat
  sampleSeed : Nat
  sampledRowsExact : Bool
  sourceShard : String
  sourceWeightOffset : Nat
  sourceScaleOffset : Nat

structure Manifest (Dg : Type) where
  status : String
  rank : Nat
  tp : Nat
  checkpointConfigSha256 : Dg
  checkpointIndexSha256 : Dg
  layers : List (LayerRecord Dg)
  method : String

structure Checkpoint where
  config : Bytes
  index : Bytes
  tensorSpan : Nat → Option Span

/-- What a run is given: its environment's free space, what its writes store, and the
1024 draws of `rng.randrange(lo, hi)` under a seed. -/
structure RunIo where
  free : Nat
  pack : Nat → PackIo
  randrange : Nat → Nat → Nat → List Nat

abbrev OutDir (Dg : Type) := Dir (Manifest Dg)

def contents (f : File) : Prog (OutDir Dg) RunError Bytes := .tryOp fun d =>
  (match d.file f with | none => .error .fileNotFound | some b => .ok b, d)

/-- The rows that are compared.
mirrors scripts/pack-verified.py:32-35 -/
def sampleIds (lo hi : Nat) (draws : List Nat) : List Nat :=
  let candidates : List Int := [(lo : Int), lo + 1, (hi : Int) - 2, hi - 1] ++
    [14, 15, 16, 30, 31, 32, 510, 511, 512].map (fun i : Int => lo + i) ++ draws.map Int.ofNat
  let ids := candidates.filter fun i => decide ((lo : Int) ≤ i ∧ i < hi)
  (ids.map Int.toNat).dedup.insertionSort (· ≤ ·)

/-- mirrors scripts/pack-verified.py:25,37 -/
def headerMatches (packed : Bytes) (layer lo hi rows : Nat) : Bool :=
  (List.range 6).map (fun i => RowStore.headerWord (block packed 0 48) i) ==
    [magic, layer, lo, hi, rows, rowBytes]

/-- mirrors scripts/pack-verified.py:40-45 -/
def rowMatches (s : Span) (packed : Bytes) (lo row : Nat) : Bool :=
  let weights := block s.file (s.weightOff + row * weightBytes) weightBytes
  let scales := block s.file (s.scaleOff + row * scaleBytes) scaleBytes
  weights.length == weightBytes && scales.length == scaleBytes &&
    block packed (headerBytes + (row - lo) * rowBytes) rowBytes == weights ++ scales

/-- mirrors scripts/pack-verified.py:21-50 (`verify`) -/
def verify (sha256 : Bytes → Dg) (ck : Checkpoint) (io : RunIo) (rank tp layer : Nat) :
    Prog (OutDir Dg) RunError (LayerRecord Dg) :=
  match ck.tensorSpan layer with
  | none => .raise .checkpoint
  | some s => do
    let lo := s.rows * rank / tp
    let hi := s.rows * (rank + 1) / tp
    let target := File.shard layer rank tp
    let expected := headerBytes + (hi - lo) * rowBytes
    let size ← stat target
    Prog.require (size = expected) (.runtimeError "Packed shard has the wrong length")
    let seed := layer * 1000 + rank
    Prog.require (lo < hi) (.valueError "empty range for randrange()")
    let ids := sampleIds lo hi (io.randrange seed lo hi)
    let packed ← contents target
    Prog.require (headerMatches packed layer lo hi s.rows = true)
      (.runtimeError "Packed shard header does not match the owned range")
    Prog.each ids fun row => do
      Prog.tick
      Prog.require (rowMatches s packed lo row = true)
        (.runtimeError s!"Packed row differs from checkpoint at layer {layer}, row {row}")
    let digest ← contents target
    pure { layer := layer, rank := rank, tp := tp, rowStart := lo, rowEnd := hi, totalRows := s.rows,
           packedFile := target, bytes := expected, sha256 := sha256 digest, sampledRows := ids.length,
           sampleSeed := seed, sampledRowsExact := true, sourceShard := s.path,
           sourceWeightOffset := s.weightOff, sourceScaleOffset := s.scaleOff }

/-- mirrors scripts/pack-verified.py:67 -/
def readManifest (rank : Nat) : Prog (OutDir Dg) RunError (Option (Manifest Dg)) := .tryOp fun d =>
  (match d.text (.manifest rank tp4) with
    | none => .ok none
    | some .torn => .error (.valueError "Expecting value")
    | some (.whole m) => .ok (some m), d)

/-- mirrors scripts/pack-verified.py:69-74 -/
def checkOld [DecidableEq Dg] (sha256 : Bytes → Dg) (ck : Checkpoint) (old : Manifest Dg) :
    Prog (OutDir Dg) RunError Unit := do
  Prog.require (old.checkpointConfigSha256 = sha256 ck.config ∧ old.checkpointIndexSha256 = sha256 ck.index)
    (.runtimeError "The checkpoint identity differs from the existing packed manifest")
  Prog.each old.layers fun record => do
    let size ← stat record.packedFile
    Prog.require (size = record.bytes)
      (.runtimeError "An existing packed shard differs from its verified manifest")
    let digest ← contents record.packedFile
    Prog.require (sha256 digest = record.sha256)
      (.runtimeError "An existing packed shard differs from its verified manifest")

/-- mirrors scripts/pack-verified.py:77-79 -/
def checkFresh (rank layer : Nat) : Prog (OutDir Dg) RunError Unit := do
  let target ← pathExists (.shard layer rank tp4)
  Prog.require (target = false)
    (.runtimeError "Unmanifested packed data exists; choose a fresh output directory")
  let unfinished ← pathExists (.unfinished layer rank tp4)
  Prog.require (unfinished = false)
    (.runtimeError "Unmanifested packed data exists; choose a fresh output directory")

/-- mirrors scripts/pack-verified.py:80-82 -/
def needed (ck : Checkpoint) (rank layer : Nat) : Prog (OutDir Dg) RunError Nat :=
  match ck.tensorSpan layer with
  | none => .raise .checkpoint
  | some s => pure (headerBytes + (s.rows * (rank + 1) / tp4 - s.rows * rank / tp4) * rowBytes)

/-- mirrors scripts/pack-verified.py:76-87 -/
def packNew (ck : Checkpoint) (io : RunIo) (rank : Nat) : Prog (OutDir Dg) RunError Unit := do
  Prog.each engramLayers (checkFresh rank)
  let need ← Prog.collect engramLayers (needed ck rank)
  Prog.tick
  Prog.require (need.sum + 8 * 1024 ^ 3 ≤ io.free)
    (.runtimeError "Insufficient local disk space for packed shards plus 8 GiB reserve")
  Prog.each engramLayers fun layer => do
    let _ ← packLayer ck.tensorSpan layer rank tp4 (2 ^ 18) (io.pack layer)
    pure ()

def Dir.putText (d : OutDir Dg) (f : Doc) (t : Option (Text (Manifest Dg))) : OutDir Dg :=
  { d with text := Function.update d.text f t }

/-- `temp.write_text(...)`, which opens, writes and closes, then `temp.replace(manifest)`.
mirrors scripts/pack-verified.py:92-94 -/
def publish (rank : Nat) (record : Manifest Dg) : Prog (OutDir Dg) RunError Unit := do
  Prog.op fun d => ((), Dir.putText d (.temp rank tp4) (some .torn))
  Prog.op fun d => ((), Dir.putText d (.temp rank tp4) (some (.whole record)))
  Prog.op fun d => ((), Dir.putText (Dir.putText d (.temp rank tp4) none) (.manifest rank tp4)
    (d.text (.temp rank tp4)))

def method : String :=
  "Exact source packing; full output SHA-256 and deterministic random/boundary sample comparison " ++
  "against original weight and scale bytes. No tensor requantization."

/-- mirrors scripts/pack-verified.py:53-95 (`main`) -/
def main [DecidableEq Dg] (sha256 : Bytes → Dg) (ck : Checkpoint) (rank : Nat) (io : RunIo) :
    Prog (OutDir Dg) RunError Unit := do
  Prog.require (rank < tp4) (.valueError "Invalid TP4 rank")
  let old ← readManifest rank
  match old with
  | some m => checkOld sha256 ck m
  | none => packNew ck io rank
  let layers ← Prog.collect engramLayers (verify sha256 ck io rank tp4)
  publish rank
    { status := "PASS", rank := rank, tp := tp4, checkpointConfigSha256 := sha256 ck.config,
      checkpointIndexSha256 := sha256 ck.index, layers := layers, method := method }

/-! ## Reading leaves the directory alone -/

section Read
variable {killed : Nat → Bool} {d₀ : OutDir Dg}

theorem kept (k : Nat) (d : OutDir Dg) (_ : killed k = true) (hd : d = d₀) : d = d₀ := hd

theorem stat_meets {f : File} : Meets killed (fun d : OutDir Dg => d = d₀) (stat f)
    (fun size d => (∃ b, d₀.file f = some b ∧ size = b.length) ∧ d = d₀) (fun _ d => d = d₀)
    (fun d => d = d₀) := by
  refine Meets.tryOp kept (fun d size hd hok => ?_) fun d e hd _ => hd
  subst hd
  cases hf : d.file f with
  | none => simp [hf] at hok
  | some b => exact ⟨⟨b, rfl, by simpa [hf] using hok.symm⟩, rfl⟩

theorem contents_meets {f : File} : Meets killed (fun d : OutDir Dg => d = d₀) (contents f)
    (fun b d => d₀.file f = some b ∧ d = d₀) (fun _ d => d = d₀) (fun d => d = d₀) := by
  refine Meets.tryOp kept (fun d b hd hok => ?_) fun d e hd _ => hd
  subst hd
  cases hf : d.file f with
  | none => simp [hf] at hok
  | some b' => exact ⟨by simpa [hf] using hok, rfl⟩

theorem require_meets {c : Prop} [Decidable c] {e : RunError} :
    Meets killed (fun d : OutDir Dg => d = d₀) (Prog.require c e) (fun _ d => c ∧ d = d₀)
      (fun _ d => d = d₀) (fun d => d = d₀) :=
  Meets.require (fun _ hd hc => ⟨hc, hd⟩) fun _ hd _ => hd

/-- What `verify` records of a layer. -/
structure Recorded (sha256 : Bytes → Dg) (ck : Checkpoint) (rank tp layer : Nat) (d : OutDir Dg)
    (r : LayerRecord Dg) (s : Span) (b : Bytes) : Prop where
  span : ck.tensorSpan layer = some s
  rowStart : r.rowStart = s.rows * rank / tp
  rowEnd : r.rowEnd = s.rows * (rank + 1) / tp
  file : d.file (.shard layer rank tp) = some b
  size : b.length = expectedSize s rank tp
  packedFile : r.packedFile = .shard layer rank tp
  bytes : r.bytes = b.length
  sha : r.sha256 = sha256 b

theorem verify_meets {sha256 : Bytes → Dg} {ck : Checkpoint} {io : RunIo} {rank tp layer : Nat} :
    Meets killed (fun d => d = d₀) (verify sha256 ck io rank tp layer)
      (fun r d => (∃ s b, Recorded sha256 ck rank tp layer d₀ r s b) ∧ d = d₀) (fun _ d => d = d₀)
      (fun d => d = d₀) := by
  unfold verify
  cases hspan : ck.tensorSpan layer with
  | none => exact Meets.raise fun d hd => hd
  | some s =>
    refine Meets.bind stat_meets fun size => Meets.of_fact ?_
    intro hyp
    obtain ⟨b, hb, rfl⟩ := hyp
    refine Meets.bind require_meets fun _ => Meets.of_fact fun hsize => ?_
    refine Meets.bind require_meets fun _ => Meets.of_fact fun _ => ?_
    refine Meets.bind contents_meets fun packed => Meets.of_fact fun _ => ?_
    refine Meets.bind require_meets fun _ => Meets.of_fact fun _ => ?_
    refine Meets.bind (Meets.each (I := fun _ d => d = d₀) _ fun _ row _ _ => Meets.bind (Meets.tick kept)
      fun _ => require_meets.mono (fun _ h => h) (fun _ _ h => h.2) (fun _ _ h => h) fun _ h => h) fun _ => ?_
    refine Meets.bind contents_meets fun digest => Meets.of_fact fun hdigest => ?_
    obtain rfl := Option.some.inj (hb.symm.trans hdigest)
    exact Meets.ret fun d hd => ⟨⟨s, b, hspan, rfl, rfl, hb, hsize, rfl, hsize.symm, rfl⟩, hd⟩

theorem readManifest_meets {rank : Nat} :
    Meets killed (fun d : OutDir Dg => d = d₀) (readManifest rank)
      (fun old d => (d₀.text (.manifest rank tp4) = old.map Text.whole) ∧ d = d₀) (fun _ d => d = d₀)
      (fun d => d = d₀) := by
  refine Meets.tryOp kept (fun d old hd hok => ⟨?_, hd⟩) fun d e hd _ => hd
  subst hd
  cases ht : d.text (.manifest rank tp4) with
  | none =>
    obtain rfl : none = old := by simpa [ht] using hok
    rfl
  | some t =>
    cases t with
    | torn => simp [ht] at hok
    | whole m =>
      obtain rfl : some m = old := by simpa [ht] using hok
      rfl

/-- What `checkOld` compares. -/
def SameRecord (sha256 : Bytes → Dg) (d : OutDir Dg) (r : LayerRecord Dg) : Prop :=
  ∃ b, d.file r.packedFile = some b ∧ b.length = r.bytes ∧ sha256 b = r.sha256

theorem checkOld_meets [DecidableEq Dg] {sha256 : Bytes → Dg} {ck : Checkpoint} {old : Manifest Dg} :
    Meets killed (fun d => d = d₀) (checkOld sha256 ck old)
      (fun _ d => (∀ r ∈ old.layers, SameRecord sha256 d₀ r) ∧ d = d₀) (fun _ d => d = d₀)
      (fun d => d = d₀) := by
  refine Meets.bind require_meets fun _ => Meets.of_fact fun _ => ?_
  refine (Meets.each (I := fun done d => (∀ r ∈ done, SameRecord sha256 d₀ r) ∧ d = d₀) old.layers
    fun done r rest _ => Meets.of_fact fun hdone => ?_).mono (fun d hd => ⟨by simp, hd⟩)
    (fun _ _ h => h) (fun _ _ h => h) fun _ h => h
  refine Meets.bind stat_meets fun size => Meets.of_fact ?_
  intro hyp
  obtain ⟨b, hb, rfl⟩ := hyp
  refine Meets.bind require_meets fun _ => Meets.of_fact fun hsize => ?_
  refine Meets.bind contents_meets fun digest => Meets.of_fact fun hdigest => ?_
  obtain rfl := Option.some.inj (hb.symm.trans hdigest)
  refine require_meets.mono (fun _ h => h) (fun _ d h => ⟨fun r' hr' => ?_, h.2⟩) (fun _ _ h => h)
    fun _ h => h
  rcases List.mem_append.mp hr' with hr' | hr'
  · exact hdone r' hr'
  · obtain rfl := List.mem_singleton.mp hr'
    exact ⟨b, hb, hsize, h.1⟩

/-- Nothing of the rank is there. -/
def Fresh (rank layer : Nat) (d : OutDir Dg) : Prop :=
  d.file (.shard layer rank tp4) = none ∧ d.file (.unfinished layer rank tp4) = none

theorem checkFresh_meets {rank layer : Nat} :
    Meets killed (fun d : OutDir Dg => d = d₀) (checkFresh rank layer)
      (fun _ d => Fresh rank layer d₀ ∧ d = d₀) (fun _ d => d = d₀) (fun d => d = d₀) := by
  have hexists : ∀ f, Meets killed (fun d : OutDir Dg => d = d₀) (pathExists f)
      (fun present d => present = (d₀.file f).isSome ∧ d = d₀) (fun _ d => d = d₀) (fun d => d = d₀) :=
    fun f => Meets.op kept fun d hd => by rw [hd]; exact ⟨rfl, rfl⟩
  refine Meets.bind (hexists _) fun target => Meets.of_fact fun htarget => ?_
  refine Meets.bind require_meets fun _ => Meets.of_fact fun hno => ?_
  refine Meets.bind (hexists _) fun unfinished => Meets.of_fact fun hunfinished => ?_
  refine require_meets.mono (fun _ h => h) (fun _ d h => ⟨⟨?_, ?_⟩, h.2⟩) (fun _ _ h => h) fun _ h => h
  · simpa using htarget.symm.trans hno
  · simpa using hunfinished.symm.trans h.1

theorem checkAllFresh_meets {rank : Nat} :
    Meets killed (fun d : OutDir Dg => d = d₀) (Prog.each engramLayers (checkFresh rank))
      (fun _ d => (∀ layer ∈ engramLayers, Fresh rank layer d₀) ∧ d = d₀) (fun _ d => d = d₀)
      (fun d => d = d₀) := by
  refine (Meets.each (I := fun done d => (∀ layer ∈ done, Fresh rank layer d₀) ∧ d = d₀) engramLayers
    fun done layer rest _ => Meets.of_fact fun hdone => ?_).mono (fun d hd => ⟨by simp, hd⟩)
    (fun _ _ h => h) (fun _ _ h => h) fun _ h => h
  refine checkFresh_meets.mono (fun _ h => h) (fun _ d h => ⟨fun layer' hl => ?_, h.2⟩) (fun _ _ h => h)
    fun _ h => h
  rcases List.mem_append.mp hl with hl | hl
  · exact hdone layer' hl
  · obtain rfl := List.mem_singleton.mp hl
    exact h.1

theorem needed_meets {ck : Checkpoint} {rank layer : Nat} :
    Meets killed (fun d : OutDir Dg => d = d₀) (needed ck rank layer) (fun _ d => True ∧ d = d₀)
      (fun _ d => d = d₀) (fun d => d = d₀) := by
  unfold needed
  cases ck.tensorSpan layer with
  | none => exact Meets.raise fun d hd => hd
  | some s => exact Meets.ret fun d hd => ⟨trivial, hd⟩

end Read

/-! ## The invariant -/

section Inv
variable (sha256 : Bytes → Dg) (ck : Checkpoint)

/-- The rank's shard of a layer holds its header and its rows, in every byte. -/
def Exact (rank layer : Nat) (d : OutDir Dg) : Prop :=
  ∃ s b, ck.tensorSpan layer = some s ∧ d.file (.shard layer rank tp4) = some b ∧
    ShardOf s.file s.rows s.weightOff s.scaleOff layer rank tp4 b

structure ManifestOk (rank : Nat) (d : OutDir Dg) (m : Manifest Dg) : Prop where
  layers : List.Forall₂ (fun layer r => ∃ s b, Recorded sha256 ck rank tp4 layer d r s b) engramLayers m.layers
  exact : ∀ layer ∈ engramLayers, Exact ck rank layer d

/-- Manifests are whole, and what they speak of is exact. -/
def Inv (d : OutDir Dg) : Prop := ∀ rank t, d.text (.manifest rank tp4) = some t →
  ∃ m, t = .whole m ∧ ManifestOk sha256 ck rank d m

/-- A shard of the rank that has the right size is exact. -/
def SizedExact (rank : Nat) (d : OutDir Dg) : Prop := ∀ layer ∈ engramLayers, ∀ s b,
  ck.tensorSpan layer = some s → d.file (.shard layer rank tp4) = some b →
  b.length = expectedSize s rank tp4 → ShardOf s.file s.rows s.weightOff s.scaleOff layer rank tp4 b

end Inv

variable {sha256 : Bytes → Dg} {ck : Checkpoint} {rank : Nat} {d d₀ : OutDir Dg}

theorem ManifestOk.sizedExact {m : Manifest Dg} (h : ManifestOk sha256 ck rank d m) :
    SizedExact ck rank d := by
  intro layer hl s b hs hb _
  obtain ⟨s', b', hs', hb', hshard⟩ := h.exact layer hl
  obtain rfl := Option.some.inj (hs'.symm.trans hs)
  obtain rfl := Option.some.inj (hb'.symm.trans hb)
  exact hshard

/-- What a manifest promises depends on the rank's shards only. -/
theorem ManifestOk.congr {m : Manifest Dg} (h : ManifestOk sha256 ck rank d₀ m)
    (hfile : ∀ layer, d.file (.shard layer rank tp4) = d₀.file (.shard layer rank tp4)) :
    ManifestOk sha256 ck rank d m := by
  refine ⟨h.layers.imp ?_, fun layer hl => ?_⟩
  · rintro layer rec ⟨s, b, hrec⟩
    exact ⟨s, b, { hrec with file := by rw [hfile]; exact hrec.file }⟩
  · obtain ⟨s, b, hs, hb, hshard⟩ := h.exact layer hl
    exact ⟨s, b, hs, by rw [hfile]; exact hb, hshard⟩

/-- The invariant speaks of manifests and of the shards of their ranks only. -/
theorem Inv.congr (h : Inv sha256 ck d₀)
    (htext : ∀ r, d.text (.manifest r tp4) = d₀.text (.manifest r tp4))
    (hfile : ∀ r layer, d₀.text (.manifest r tp4) ≠ none →
      d.file (.shard layer r tp4) = d₀.file (.shard layer r tp4)) : Inv sha256 ck d := by
  intro r t ht
  rw [htext] at ht
  obtain ⟨m, rfl, hm⟩ := h r t ht
  exact ⟨m, rfl, hm.congr fun layer => hfile r layer (by rw [ht]; exact Option.some_ne_none _)⟩

/-! ## Packing -/

/-- Manifests and the shards of other ranks are as they were. -/
structure Kept (rank : Nat) (d₀ d : OutDir Dg) : Prop where
  text : d.text = d₀.text
  others : ∀ r layer, r ≠ rank → d.file (.shard layer r tp4) = d₀.file (.shard layer r tp4)

/-- The layers of `done` are packed, the rank's other shards are still not there. -/
structure Packed (ck : Checkpoint) (rank : Nat) (d₀ : OutDir Dg) (done : List Nat) (d : OutDir Dg) :
    Prop extends Kept rank d₀ d where
  packed : ∀ layer ∈ done, ∀ s b, ck.tensorSpan layer = some s →
    d.file (.shard layer rank tp4) = some b → b.length = expectedSize s rank tp4 →
    ShardOf s.file s.rows s.weightOff s.scaleOff layer rank tp4 b
  fresh : ∀ layer ∈ engramLayers, layer ∉ done → d.file (.shard layer rank tp4) = none

theorem Kept.put_unfinished (h : Kept rank d₀ d) {layer : Nat} (c : Option Bytes) :
    Kept rank d₀ (d.put (.unfinished layer rank tp4) c) :=
  ⟨h.text, fun r l hr => by rw [Dir.put_file_ne _ _ (by simp)]; exact h.others r l hr⟩

theorem Kept.inv (h : Kept rank d₀ d) (hinv : Inv sha256 ck d₀)
    (hnone : d₀.text (.manifest rank tp4) = none) : Inv sha256 ck d := by
  refine hinv.congr (fun r => by rw [h.text]) fun r layer hne => h.others r layer ?_
  rintro rfl
  exact hne hnone

/-- A shard that was just written and has the right size is exact. -/
theorem Packed.put_shard {done : List Nat} {layer : Nat} {s : Span} {io : PackIo} {header : Bytes}
    {chunkRows : Nat} (h : Packed ck rank d₀ done d) (hnew : layer ∉ done)
    (hspan : ck.tensorSpan layer = some s) (hc : 0 < chunkRows) (hread : AllRead s rank tp4 chunkRows io)
    (hheader : rankHeader s layer rank tp4 = .ok header) :
    Packed ck rank d₀ (done ++ [layer]) ((d.put (.unfinished layer rank tp4) none).put
      (.shard layer rank tp4) (some (writtenShard s header rank tp4 hc io))) := by
  have hother : ∀ l r, (l, r) ≠ (layer, rank) → ((d.put (.unfinished layer rank tp4) none).put
      (.shard layer rank tp4) (some (writtenShard s header rank tp4 hc io))).file (.shard l r tp4) =
      d.file (.shard l r tp4) := by
    intro l r hne
    rw [Dir.put_file_ne _ _ (by simpa [Prod.ext_iff] using hne), Dir.put_file_ne _ _ (by simp)]
  refine ⟨⟨h.text, fun r l hr => ?_⟩, fun l hl s' b hs' hb hlen => ?_, fun l hl hnot => ?_⟩
  · rw [hother l r (by simp [hr])]
    exact h.others r l hr
  · by_cases heq : l = layer
    · subst heq
      obtain rfl := Option.some.inj (hspan.symm.trans hs')
      rw [Dir.put_file_self] at hb
      obtain rfl := Option.some.inj hb
      exact (shardOf_written_iff hheader hc hread).mpr (allStored_of_length hheader hc hread hlen)
    · rw [hother l rank (by simp [heq])] at hb
      exact h.packed l (by simpa [heq] using hl) s' b hs' hb hlen
  · simp only [List.mem_append, List.mem_singleton, not_or] at hnot
    rw [hother l rank (by simp [hnot.2])]
    exact h.fresh l hl hnot.1

section Pack
variable {killed : Nat → Bool}

theorem packLayer_packed {io : PackIo} {done rest : List Nat} {layer : Nat}
    (hl : engramLayers = done ++ layer :: rest) :
    Meets killed (Packed ck rank d₀ done)
      (packLayer ck.tensorSpan layer rank tp4 (2 ^ 18) io)
      (fun _ => Packed ck rank d₀ (done ++ [layer])) (fun _ => Kept rank d₀) (Kept rank d₀) := by
  refine Meets.of_eq fun d₁ h => ?_
  have hnew : layer ∉ done := by
    have hnodup : (done ++ layer :: rest).Nodup := hl ▸ (by decide : engramLayers.Nodup)
    exact fun hin => (List.nodup_append.mp hnodup).2.2 layer hin layer List.mem_cons_self rfl
  have hmem : layer ∈ engramLayers := by rw [hl]; simp
  cases hspan : ck.tensorSpan layer with
  | none =>
    unfold PackWrite.packLayer
    rw [hspan]
    exact Meets.raise fun d hd => hd ▸ h.toKept
  | some s =>
    have hc : 0 < 2 ^ 18 := Nat.two_pow_pos 18
    refine (packLayer_meets hspan (by decide) hc).mono (fun d hd => hd) ?_ ?_ ?_
    · rintro _ d ⟨-, ⟨⟨b, hb, -⟩, -⟩ | ⟨-, ⟨hread, -⟩, header, hheader, rfl⟩⟩
      · rw [h.fresh layer hmem hnew] at hb
        cases hb
      · exact h.put_shard hnew hspan hc hread hheader
    · rintro _ d ⟨-, -, c, rfl⟩
      exact h.toKept.put_unfinished c
    · rintro d ⟨-, c, rfl⟩
      exact h.toKept.put_unfinished c

/-- A run that starts without a manifest packs into nothing, or changes nothing. -/
theorem packNew_meets {io : RunIo} (hnone : d₀.text (.manifest rank tp4) = none) (hinv : Inv sha256 ck d₀) :
    Meets killed (fun d => d = d₀) (packNew ck io rank)
      (fun _ d => Inv sha256 ck d ∧ SizedExact ck rank d) (fun _ => Inv sha256 ck) (Inv sha256 ck) := by
  have hstart : ∀ d, d = d₀ → Inv sha256 ck d := fun d hd => hd ▸ hinv
  refine Meets.bind (checkAllFresh_meets.mono (fun _ h => h) (fun _ _ h => h) (fun _ => hstart) hstart)
    fun _ => Meets.of_fact fun hfresh => ?_
  refine Meets.bind ((Meets.collect (R := fun _ _ => True) _ fun layer _ => needed_meets).mono
    (fun _ h => h) (fun _ _ h => h) (fun _ => hstart) hstart) fun need => Meets.of_fact fun _ => ?_
  refine Meets.bind (Meets.tick fun _ d _ => hstart d) fun _ => ?_
  refine Meets.bind (Meets.require (Q := fun _ d => d = d₀) (fun _ hd _ => hd) fun d hd _ => hstart d hd)
    fun _ => ?_
  have hloop : Meets killed (Packed ck rank d₀ []) (Prog.each engramLayers fun layer => do
      let _ ← packLayer ck.tensorSpan layer rank tp4 (2 ^ 18) (io.pack layer)
      pure ()) (fun _ => Packed ck rank d₀ engramLayers) (fun _ => Kept rank d₀) (Kept rank d₀) :=
    Meets.each engramLayers fun done layer rest hl =>
      Meets.bind (packLayer_packed hl) fun _ => Meets.ret fun _ h => h
  refine hloop.mono ?_ (fun _ d h => ⟨h.toKept.inv hinv hnone, h.packed⟩)
    (fun _ d h => h.inv hinv hnone) fun d h => h.inv hinv hnone
  rintro d rfl
  exact ⟨⟨rfl, fun _ _ _ => rfl⟩, by simp, fun layer hl _ => (hfresh layer hl).1⟩

end Pack

/-! ## Publishing -/

@[simp] theorem Dir.putText_self (d : OutDir Dg) (f : Doc) (t : Option (Text (Manifest Dg))) :
    (Dir.putText d f t).text f = t := by simp [Dir.putText]

@[simp] theorem Dir.putText_ne (d : OutDir Dg) {f g : Doc} (t : Option (Text (Manifest Dg))) (h : g ≠ f) :
    (Dir.putText d f t).text g = d.text g := by simp [Dir.putText, h]

theorem Inv.putTemp (h : Inv sha256 ck d) (t : Option (Text (Manifest Dg))) :
    Inv sha256 ck (Dir.putText d (.temp rank tp4) t) :=
  h.congr (fun r => Dir.putText_ne _ _ (by simp)) fun _ _ _ => rfl

theorem Inv.putManifest (h : Inv sha256 ck d) {m : Manifest Dg} (hm : ManifestOk sha256 ck rank d m) :
    Inv sha256 ck (Dir.putText d (.manifest rank tp4) (some (.whole m))) := by
  intro r t ht
  by_cases hr : r = rank
  · subst hr
    rw [Dir.putText_self] at ht
    exact ⟨m, (Option.some.inj ht).symm, hm.congr fun _ => rfl⟩
  · rw [Dir.putText_ne _ _ (by simp [hr])] at ht
    obtain ⟨m', rfl, hm'⟩ := h r t ht
    exact ⟨m', rfl, hm'.congr fun _ => rfl⟩

section Main
variable {killed : Nat → Bool}

theorem publish_meets {m : Manifest Dg} (hinv : Inv sha256 ck d₀) (hm : ManifestOk sha256 ck rank d₀ m) :
    Meets killed (fun d => d = d₀) (publish rank m) (fun _ => Inv sha256 ck) (fun _ => Inv sha256 ck)
      (Inv sha256 ck) := by
  refine Meets.bind (Q := fun _ d => d = Dir.putText d₀ (.temp rank tp4) (some .torn)) ?_ fun _ => ?_
  · exact Meets.op (fun k d _ hd => hd ▸ hinv) fun d hd => by rw [hd]
  refine Meets.bind (Q := fun _ d => d = Dir.putText (Dir.putText d₀ (.temp rank tp4) (some .torn))
    (.temp rank tp4) (some (.whole m))) ?_ fun _ => ?_
  · exact Meets.op (fun k d _ hd => hd ▸ hinv.putTemp _) fun d hd => by rw [hd]
  refine Meets.op (fun k d _ hd => hd ▸ (hinv.putTemp _).putTemp _) fun d hd => ?_
  subst hd
  rw [Dir.putText_self]
  exact (((hinv.putTemp _).putTemp _).putTemp _).putManifest (hm.congr fun _ => rfl)

/-- The layers that `verify` let pass are exact when no shard of their size is anything else. -/
theorem manifestOk_of_recorded (hsized : SizedExact ck rank d) {m : Manifest Dg}
    (h : List.Forall₂ (fun layer r => ∃ s b, Recorded sha256 ck rank tp4 layer d r s b) engramLayers m.layers) :
    ManifestOk sha256 ck rank d m := by
  refine ⟨h, fun layer hl => ?_⟩
  obtain ⟨r, -, s, b, hrec⟩ := forall₂_left_mem h hl
  exact ⟨s, b, hrec.span, hrec.file, hsized layer hl s b hrec.span hrec.file hrec.size⟩

/-- A run keeps the invariant, whether it returns, raises or is killed. -/
theorem main_meets [DecidableEq Dg] {io : RunIo} :
    Meets killed (Inv sha256 ck) (main sha256 ck rank io) (fun _ => Inv sha256 ck)
      (fun _ => Inv sha256 ck) (Inv sha256 ck) := by
  refine Meets.of_eq fun d₀ hinv => ?_
  have hstart : ∀ d, d = d₀ → Inv sha256 ck d := fun d hd => hd ▸ hinv
  -- what is left after the branch on the old manifest
  have hrest : Meets killed (fun d => Inv sha256 ck d ∧ SizedExact ck rank d) (do
      let layers ← Prog.collect engramLayers (verify sha256 ck io rank tp4)
      publish rank { status := "PASS", rank := rank, tp := tp4, checkpointConfigSha256 := sha256 ck.config,
                     checkpointIndexSha256 := sha256 ck.index, layers := layers, method := method })
      (fun _ => Inv sha256 ck) (fun _ => Inv sha256 ck) (Inv sha256 ck) := by
    refine Meets.of_eq fun d₁ ⟨hinv, hsized⟩ => ?_
    have hstart : ∀ d, d = d₁ → Inv sha256 ck d := fun d hd => hd ▸ hinv
    refine Meets.bind ((Meets.collect engramLayers fun layer _ => verify_meets).mono (fun _ h => h)
      (fun _ _ h => h) (fun _ => hstart) hstart) fun layers => Meets.of_fact fun hrec => ?_
    exact publish_meets hinv (manifestOk_of_recorded hsized hrec)
  unfold main
  refine Meets.bind (Meets.require (Q := fun _ d => d = d₀) (fun _ hd _ => hd) fun d hd _ => hstart d hd)
    fun _ => ?_
  refine Meets.bind (readManifest_meets.mono (fun _ h => h) (fun _ _ h => h) (fun _ => hstart) hstart)
    fun old => Meets.of_fact fun hold => ?_
  cases old with
  | none => exact Meets.bind (packNew_meets hold hinv) fun _ => hrest
  | some m =>
    refine Meets.bind (checkOld_meets.mono (fun _ h => h) (fun _ _ h => h) (fun _ => hstart) hstart)
      fun _ => Meets.of_fact fun _ => hrest.mono ?_ (fun _ _ h => h) (fun _ _ h => h) fun _ h => h
    rintro d rfl
    obtain ⟨m', -, hm⟩ := hinv rank _ hold
    exact ⟨hinv, hm.sizedExact⟩

/-! ## Runs that refuse -/

/-- A rank with packed files and no manifest is left as it is. -/
theorem main_unmanifested [DecidableEq Dg] {io : RunIo} (hnone : d₀.text (.manifest rank tp4) = none)
    {layer : Nat} (hl : layer ∈ engramLayers) (hfile : ¬Fresh rank layer d₀) :
    Meets killed (fun d => d = d₀) (main sha256 ck rank io) (fun _ _ => False) (fun _ d => d = d₀)
      (fun d => d = d₀) := by
  unfold main
  refine Meets.bind require_meets fun _ => Meets.of_fact fun _ => ?_
  refine Meets.bind readManifest_meets fun old => Meets.of_fact fun hold => ?_
  cases old with
  | some m => rw [hnone] at hold; cases hold
  | none =>
    refine Meets.bind (Q := fun _ _ => False) ?_ fun _ _ _ h => h.elim
    exact Meets.bind checkAllFresh_meets fun _ => Meets.of_fact fun hfresh => absurd (hfresh layer hl) hfile

/-- A recorded shard that is no longer the recorded one stops a run. -/
theorem main_altered [DecidableEq Dg] {io : RunIo} {m : Manifest Dg}
    (hm : d₀.text (.manifest rank tp4) = some (.whole m)) {r : LayerRecord Dg} (hr : r ∈ m.layers)
    (hdiff : ¬SameRecord sha256 d₀ r) :
    Meets killed (fun d => d = d₀) (main sha256 ck rank io) (fun _ _ => False) (fun _ d => d = d₀)
      (fun d => d = d₀) := by
  unfold main
  refine Meets.bind require_meets fun _ => Meets.of_fact fun _ => ?_
  refine Meets.bind readManifest_meets fun old => Meets.of_fact fun hold => ?_
  cases old with
  | none => rw [hm] at hold; cases hold
  | some m' =>
    obtain rfl : m = m' := Text.whole.inj (Option.some.inj (hm.symm.trans hold))
    refine Meets.bind (Q := fun _ _ => False) ?_ fun _ _ _ h => h.elim
    exact checkOld_meets.mono (fun _ h => h) (fun _ _ h => hdiff (h.1 r hr)) (fun _ _ h => h) fun _ h => h

/-- Where there is a manifest, a run writes no shard and no partial file. -/
theorem main_manifested [DecidableEq Dg] {io : RunIo} {t : Text (Manifest Dg)}
    (ht : d₀.text (.manifest rank tp4) = some t) :
    Meets killed (fun d => d = d₀) (main sha256 ck rank io) (fun _ d => d.file = d₀.file)
      (fun _ d => d.file = d₀.file) (fun d => d.file = d₀.file) := by
  have hstart : ∀ d, d = d₀ → d.file = d₀.file := fun d hd => by rw [hd]
  unfold main
  refine Meets.bind (require_meets.mono (fun _ h => h) (fun _ _ h => h) (fun _ => hstart) hstart)
    fun _ => Meets.of_fact fun _ => ?_
  refine Meets.bind (readManifest_meets.mono (fun _ h => h) (fun _ _ h => h) (fun _ => hstart) hstart)
    fun old => Meets.of_fact fun hold => ?_
  cases old with
  | none => rw [ht] at hold; cases hold
  | some m =>
    refine Meets.bind (checkOld_meets.mono (fun _ h => h) (fun _ _ h => h) (fun _ => hstart) hstart)
      fun _ => Meets.of_fact fun _ => ?_
    refine Meets.bind ((Meets.collect engramLayers fun layer _ => verify_meets).mono (fun _ h => h)
      (fun _ _ h => h) (fun _ => hstart) hstart) fun layers => Meets.of_fact fun _ => ?_
    -- the three operations of `publish` are about text files
    have hkeep : ∀ k (d : OutDir Dg), killed k = true → d.file = d₀.file → d.file = d₀.file :=
      fun _ _ _ h => h
    exact Meets.bind (Q := fun _ d => d.file = d₀.file) (Meets.op (fun _ d _ hd => hstart d hd) hstart)
      fun _ => Meets.bind (Q := fun _ d => d.file = d₀.file) (Meets.op hkeep fun _ h => h)
      fun _ => Meets.op hkeep fun _ h => h

end Main

/-! ## Runs of the script -/

/-- One run of the script: its rank, its environment, and where it is killed. -/
structure Run where
  rank : Nat
  io : RunIo
  killed : Nat → Bool

def emptyDir : OutDir Dg := ⟨fun _ => none, fun _ => none⟩

section System
variable [DecidableEq Dg] (sha256 : Bytes → Dg) (ck : Checkpoint)

def Run.exec (r : Run) (d : OutDir Dg) : Exit RunError Unit × Nat × OutDir Dg :=
  main sha256 ck r.rank r.io r.killed 0 d

def system : LTS (OutDir Dg) Run where
  init d := d = emptyDir
  step d r d' := (r.exec sha256 ck d).2.2 = d'

/-- The run does not return, and changes nothing. -/
def Run.Refused (r : Run) (d : OutDir Dg) : Prop :=
  (∀ u, (r.exec sha256 ck d).1 ≠ .returned u) ∧ (r.exec sha256 ck d).2.2 = d

end System

variable [DecidableEq Dg]

theorem refused_of_meets {r : Run}
    (h : Meets r.killed (fun d => d = d₀) (main sha256 ck r.rank r.io) (fun _ _ => False)
      (fun _ d => d = d₀) (fun d => d = d₀)) : r.Refused sha256 ck d₀ := (h 0 d₀ rfl).not_returned

theorem inv_inductive : (system sha256 ck).Inductive (Inv sha256 ck) where
  init := by
    rintro d rfl rank t ht
    cases ht
  step := by
    rintro d r _ hd rfl
    exact Exit.Sat.all (main_meets 0 d hd)

/-- **What a manifest means.** Any runs, killed anywhere, from an empty directory. A
manifest is whole and its rank's two shards are exact in every byte; without one, packed
or partial files of the rank make every further run of it refuse; with one, runs write no
packed file, and refuse once a shard is not what it was. -/
theorem manifest_sound (h : (system sha256 ck).Reachable d) (rank : Nat) :
    (∀ t, d.text (.manifest rank tp4) = some t →
      (∃ m, t = .whole m) ∧ ∀ layer ∈ engramLayers, Exact ck rank layer d) ∧
    (d.text (.manifest rank tp4) = none → ∀ layer ∈ engramLayers, ¬Fresh rank layer d →
      ∀ r : Run, r.rank = rank → r.Refused sha256 ck d) ∧
    (d.text (.manifest rank tp4) ≠ none → ∀ r : Run, r.rank = rank →
      (r.exec sha256 ck d).2.2.file = d.file) ∧
    ∀ d', d.text (.manifest rank tp4) ≠ none →
      d'.text (.manifest rank tp4) = d.text (.manifest rank tp4) →
      ∀ layer ∈ engramLayers, d'.file (.shard layer rank tp4) ≠ d.file (.shard layer rank tp4) →
      -- no collision of the digests
      (∀ b b', d.file (.shard layer rank tp4) = some b → d'.file (.shard layer rank tp4) = some b' →
        sha256 b' = sha256 b → b' = b) →
      ∀ r : Run, r.rank = rank → r.Refused sha256 ck d' := by
  have hinv := inv_inductive.reachable d h
  refine ⟨fun t ht => ?_, fun hnone layer hl hfile r hr => ?_, fun hne r hr => ?_,
    fun d' hne htext layer hl hdiff hcoll r hr => ?_⟩
  · obtain ⟨m, hm, hok⟩ := hinv rank t ht
    exact ⟨⟨m, hm⟩, hok.exact⟩
  · subst hr
    exact refused_of_meets (main_unmanifested hnone hl hfile)
  · subst hr
    obtain ⟨t, ht⟩ := Option.ne_none_iff_exists'.mp hne
    exact Exit.Sat.all (P := fun d' : OutDir Dg => d'.file = d.file) (main_manifested ht 0 d rfl)
  · subst hr
    obtain ⟨t, ht⟩ := Option.ne_none_iff_exists'.mp hne
    obtain ⟨m, rfl, hok⟩ := hinv _ t ht
    obtain ⟨rec, hrec, s, b, hr⟩ := forall₂_left_mem hok.layers hl
    refine refused_of_meets (main_altered (htext.trans ht) hrec ?_)
    intro hyp
    obtain ⟨b', hb', -, hsha⟩ := hyp
    rw [hr.packedFile] at hb'
    refine hdiff ?_
    rw [hb', hr.file, hcoll b b' hr.file hb' (hsha.trans hr.sha)]

/-! ## A run that was killed -/

/-- Four rows, one for each rank. -/
def fourRows : Checkpoint := ⟨[], [], fun _ => some ⟨"model.safetensors", [], 4, 0, 0⟩⟩

def completeIo : RunIo where
  free := 2 ^ 40
  pack _ := ⟨fun _ => (2 ^ 26, 2 ^ 21), headerBytes, fun _ => 2 ^ 27, fun _ => false⟩
  randrange _ lo _ := [lo]

/-- Rank 0, killed before it writes the header of its first shard. -/
def stopped : Run := ⟨0, completeIo, fun k => k == 9⟩

def again : Run := ⟨0, completeIo, fun _ => false⟩

/-- The partial file is there, so the next run refuses. -/
theorem stopped_then_refused : again.Refused id fourRows (stopped.exec id fourRows emptyDir).2.2 := by
  have hreach : (system id fourRows).Reachable (stopped.exec id fourRows emptyDir).2.2 :=
    ⟨emptyDir, [stopped], rfl, .cons rfl (.nil _)⟩
  have hpartial : (stopped.exec id fourRows emptyDir).2.2.file (.unfinished 1 0 tp4) = some [] := rfl
  refine (manifest_sound hreach 0).2.1 rfl 1 (by decide) (fun hfresh => ?_) again rfl
  rw [hfresh.2] at hpartial
  cases hpartial

end FlashSpark.L2.PackVerified
