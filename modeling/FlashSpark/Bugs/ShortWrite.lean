import FlashSpark.L2Store.PackWrite

/-!
# `pack_layer` publishes files it has not checked

`scripts/pack_engram.py:60-63,70-97`. The reads of the chunk loop are checked for their
length; the unbuffered writes are not, and a raw `write` may store only part of its
buffer. The file is then renamed to the target whatever it holds. And a target that is
already there is taken for complete when its size is right, whatever it holds.

Counterexamples: a chunk of which 100 bytes were stored is published; a target of zeros
of the right size is returned as packed.

* `guarantee_complete`, `guarantee_fresh`: the two ways a call can end well or badly.
* `packLayer_guarantee_iff`: exactly when the return of `pack_layer` is a guarantee.
-/
namespace FlashSpark.Bugs.ShortWrite
open L2 L2.PackEngram L2.PackWrite

variable {T : Type}

/-- Nobody kills the process. -/
def never : Nat → Bool := fun _ => false

/-- Where the call returns, the target is the shard of this checkpoint, rank and table;
where it raises, the target is what it was. -/
def Guarantee (tensorSpan : Nat → Option Span) (layerId rank tp chunkRows : Nat) (io : PackIo)
    (d₀ : Dir T) : Prop :=
  let run := packLayer tensorSpan layerId rank tp chunkRows io never 0 d₀
  Exit.Sat
    (fun target d => target = .shard layerId rank tp ∧ ∃ s b, tensorSpan layerId = some s ∧
      d.file target = some b ∧ ShardOf s.file s.rows s.weightOff s.scaleOff layerId rank tp b)
    (fun _ d => d.file (.shard layerId rank tp) = d₀.file (.shard layerId rank tp))
    (fun _ => True) run.1 run.2.2

/-- A table of one row. -/
def oneRow : Span := ⟨"model.safetensors", List.replicate 264 7, 1, 0, 256⟩

def emptyDir : Dir Unit := ⟨fun _ => none, fun _ => none⟩

/-- Everything is read; of the only chunk `stored` bytes are stored. -/
def oneChunk (stored : Nat) : PackIo := ⟨fun _ => (256, 8), 4096, fun _ => stored, fun _ => false⟩

theorem oneRow_read (stored : Nat) : AllRead oneRow 0 1 1 (oneChunk stored) := by
  intro j hj
  have hj : 0 + j * 1 < 1 := hj
  obtain rfl : j = 0 := by omega
  have hlen : oneRow.file.length = 264 := List.length_replicate
  refine ⟨rfl, rfl, ?_, ?_⟩
  all_goals
    rw [hlen]
    simp only [oneChunk]
    decide

theorem oneChunk_allowed (stored : Nat) : AllAllowed oneRow 0 1 1 (oneChunk stored) :=
  ⟨rfl, rfl, rfl, fun _ _ => rfl, rfl, rfl⟩

section Call
variable {tensorSpan : Nat → Option Span} {s : Span} {layerId rank tp chunkRows : Nat} {io : PackIo}
  {d₀ : Dir T}

/-- A target of the right size is never read. -/
theorem guarantee_complete (hspan : tensorSpan layerId = some s) (htp : 0 < tp) (hc : 0 < chunkRows)
    {b : Bytes} (hfile : d₀.file (.shard layerId rank tp) = some b)
    (hlen : b.length = expectedSize s rank tp) :
    Guarantee tensorSpan layerId rank tp chunkRows io d₀ ↔
      ShardOf s.file s.rows s.weightOff s.scaleOff layerId rank tp b := by
  have h := @packLayer_meets T never tensorSpan s layerId rank tp chunkRows io d₀ hspan htp hc 0 d₀ rfl
  have hhas : HasComplete s layerId rank tp d₀ := ⟨b, hfile, hlen⟩
  unfold Guarantee
  dsimp only
  cases hx : (packLayer tensorSpan layerId rank tp chunkRows io never 0 d₀).1 with
  | returned target =>
    rw [hx] at h
    obtain ⟨rfl, ⟨-, hd⟩ | ⟨hno, -⟩⟩ := h
    · constructor
      · intro hyp
        obtain ⟨-, s', b', hspan', hfile', hshard⟩ := hyp
        obtain rfl := Option.some.inj (hspan.symm.trans hspan')
        rw [hd, hfile] at hfile'
        obtain rfl := Option.some.inj hfile'
        exact hshard
      · exact fun hshard => ⟨rfl, s, b, hspan, by rw [hd, hfile], hshard⟩
    · exact absurd hhas hno
  | raised e =>
    rw [hx] at h
    exact absurd hhas h.1
  | killed =>
    rw [hx] at h
    obtain ⟨⟨k, hk⟩, -⟩ := h
    cases hk

/-- Without one the file is written, and no write is checked. -/
theorem guarantee_fresh (hspan : tensorSpan layerId = some s) (htp : 0 < tp) (hc : 0 < chunkRows)
    (hno : ¬HasComplete s layerId rank tp d₀) :
    Guarantee tensorSpan layerId rank tp chunkRows io d₀ ↔
      ((∃ header, rankHeader s layerId rank tp = .ok header) → AllRead s rank tp chunkRows io →
        AllAllowed s rank tp chunkRows io → AllStored s rank tp chunkRows io) := by
  have h := @packLayer_meets T never tensorSpan s layerId rank tp chunkRows io d₀ hspan htp hc 0 d₀ rfl
  unfold Guarantee
  dsimp only
  cases hx : (packLayer tensorSpan layerId rank tp chunkRows io never 0 d₀).1 with
  | returned target =>
    rw [hx] at h
    obtain ⟨rfl, ⟨hhas, -⟩ | ⟨-, ⟨hread, hallowed⟩, header, hheader, hd⟩⟩ := h
    · exact absurd hhas hno
    · rw [← shardOf_written_iff hheader hc hread]
      constructor
      · intro hyp _ _ _
        obtain ⟨-, s', b, hspan', hfile, hshard⟩ := hyp
        obtain rfl := Option.some.inj (hspan.symm.trans hspan')
        rw [hd, Dir.put_file_self] at hfile
        obtain rfl := Option.some.inj hfile
        exact hshard
      · exact fun hshard => ⟨rfl, s, _, hspan, by rw [hd, Dir.put_file_self],
          hshard ⟨header, hheader⟩ hread hallowed⟩
  | raised e =>
    rw [hx] at h
    obtain ⟨-, hfail, c, hd⟩ := h
    refine ⟨fun _ ⟨header, hheader⟩ hread hallowed => ?_, fun _ => ?_⟩
    · rcases hfail with hfail | hfail
      · exact absurd hheader (hfail header)
      · exact absurd ⟨hread, hallowed⟩ hfail
    · show Dir.file _ _ = _
      rw [hd, Dir.put_file_ne _ _ (by simp)]
  | killed =>
    rw [hx] at h
    obtain ⟨⟨k, hk⟩, -⟩ := h
    cases hk

/-- **When the return of `pack_layer` is a guarantee.** Exactly when a target of the
right size holds the shard already, and, without such a target, a call whose header fits,
whose reads are complete and that the system refuses nothing has no short write. -/
theorem packLayer_guarantee_iff (htp : 1 ≤ tp) (hc : 1 ≤ chunkRows) :
    Guarantee tensorSpan layerId rank tp chunkRows io d₀ ↔
      ∀ s, tensorSpan layerId = some s →
        (∀ b, d₀.file (.shard layerId rank tp) = some b → b.length = expectedSize s rank tp →
          ShardOf s.file s.rows s.weightOff s.scaleOff layerId rank tp b) ∧
        (¬HasComplete s layerId rank tp d₀ → (∃ header, rankHeader s layerId rank tp = .ok header) →
          AllRead s rank tp chunkRows io → AllAllowed s rank tp chunkRows io →
            AllStored s rank tp chunkRows io) := by
  cases hspan : tensorSpan layerId with
  | none =>
    refine ⟨fun _ s h => absurd h (by simp), fun _ => ?_⟩
    unfold Guarantee PackWrite.packLayer
    rw [hspan]
    rfl
  | some s =>
    by_cases hhas : HasComplete s layerId rank tp d₀
    · obtain ⟨b, hfile, hlen⟩ := hhas
      rw [guarantee_complete hspan htp hc hfile hlen]
      constructor
      · intro hshard s' hs'
        obtain rfl := Option.some.inj hs'
        refine ⟨fun b' hfile' _ => ?_, fun hno => absurd ⟨b, hfile, hlen⟩ hno⟩
        obtain rfl := Option.some.inj (hfile.symm.trans hfile')
        exact hshard
      · exact fun h => (h s rfl).1 b hfile hlen
    · rw [guarantee_fresh hspan htp hc hhas]
      constructor
      · intro hstored s' hs'
        obtain rfl := Option.some.inj hs'
        exact ⟨fun b hfile hlen => absurd ⟨b, hfile, hlen⟩ hhas, fun _ => hstored⟩
      · exact fun h => (h s rfl).2 hhas

end Call

/-- A chunk stored whole, into an empty directory. -/
theorem oneChunk_guaranteed : Guarantee (fun _ => some oneRow) 1 0 1 1 (oneChunk 264) emptyDir := by
  refine (packLayer_guarantee_iff (by decide) (by decide)).mpr fun s hs => ?_
  obtain rfl := Option.some.inj hs
  refine ⟨fun b hb _ => absurd hb (by simp [emptyDir]), fun _ _ _ _ => ⟨by decide, fun j hj => ?_⟩⟩
  have hj : 0 + j * 1 < 1 := hj
  obtain rfl : j = 0 := by omega
  unfold ChunkStored
  decide

/-! ## Runs that go wrong -/

def zeros : Bytes := List.replicate 4360 0

def staleDir : Dir Unit := emptyDir.put (.shard 1 0 1) (some zeros)

theorem oneRow_header : ∃ header, rankHeader oneRow 1 0 1 = .ok header := by
  unfold rankHeader packHeader
  exact ⟨_, if_pos (by decide)⟩

theorem oneChunk_short : ¬AllStored oneRow 0 1 1 (oneChunk 100) := by
  intro h
  have hfull : ChunkStored (oneChunk 100) 1 1 0 := h.2 0 (by decide)
  revert hfull
  unfold ChunkStored
  decide

theorem block_replicate {α : Type*} (n a k : Nat) (v : α) :
    block (List.replicate n v) a k = List.replicate (min k (n - a)) v := by simp [block]

/-- A short write is published, and a target of zeros is taken for the shard. -/
theorem unchecked_files_published :
    ¬Guarantee (fun _ => some oneRow) 1 0 1 1 (oneChunk 100) emptyDir ∧
      ¬Guarantee (fun _ => some oneRow) 1 0 1 1 (oneChunk 100) staleDir := by
  constructor
  · have hno : ¬HasComplete oneRow 1 0 1 emptyDir := by
      intro hyp
      obtain ⟨b, hb, -⟩ := hyp
      cases hb
    have hiff := @guarantee_fresh Unit (fun _ => some oneRow) oneRow 1 0 1 1 (oneChunk 100) emptyDir rfl
      (by decide) (by decide) hno
    exact mt hiff.mp fun h => oneChunk_short (h oneRow_header (oneRow_read 100) (oneChunk_allowed 100))
  · have hfile : staleDir.file (.shard 1 0 1) = some zeros := Dir.put_file_self _ _ _
    have hsize : zeros.length = expectedSize oneRow 0 1 := by
      rw [zeros, List.length_replicate]
      decide
    have hiff := @guarantee_complete Unit (fun _ => some oneRow) oneRow 1 0 1 1 (oneChunk 100) staleDir rfl
      (by decide) (by decide) zeros hfile hsize
    refine mt hiff.mp fun h => ?_
    obtain ⟨-, hmagic, -⟩ := h.fields
    rw [zeros, block_replicate, RowStore.headerWord, block_replicate] at hmagic
    revert hmagic
    decide

end FlashSpark.Bugs.ShortWrite
