import FlashSpark.L2Store.PackVerified

/-!
# Packing comes to its end

`PackVerified.lean` says what a run of `scripts/pack-verified.py` leaves, wherever it
stops. Here nothing stops it: the process is not killed, every read and write is complete
and there is room. Which directories does a run then accept?

* `verify_completes`: an exact shard passes its verification.
* `packNew_completes`: into a directory without files of the rank, packing returns.
* `main_identified`: a manifest names the checkpoint it was made from.
* `unhindered_run`: a run returns exactly where there is a manifest or nothing of the
  rank, and leaves a manifest with exact shards.
-/
namespace FlashSpark.L2.PackVerified
open PackEngram PackWrite

variable {Dg : Type}

/-- The two tables are in the file, and the rank owns rows of them. -/
structure Owns (s : Span) (rank : Nat) : Prop where
  rank_lt : rank < tp4
  rows_lt : s.rows < 2 ^ 64
  weights_fit : s.weightOff + s.rows * weightBytes ≤ s.file.length
  scales_fit : s.scaleOff + s.rows * scaleBytes ≤ s.file.length
  owned : s.rows * rank / tp4 < s.rows * (rank + 1) / tp4

/-- A plain store with the rank's range, to read a shard by. -/
def rankStore (s : Span) (rank : Nat) : RowStore.Store :=
  { fd := s.file, rows := s.rows, weightOffset := s.weightOff, scaleOffset := s.scaleOff, slots := 0,
    rowLo := s.rows * rank / tp4, rowHi := s.rows * (rank + 1) / tp4, sets := 0, ways := 1,
    resident := none, scales := none, scalesSize := 0, packedFd := none }

theorem Owns.rankStore {s : Span} {rank : Nat} (h : Owns s rank) :
    RankStore s.file s.rows s.weightOff s.scaleOff rank tp4 (rankStore s rank) where
  wf :=
    { weights_fit := h.weights_fit
      scales_fit := h.scales_fit
      lo_le_hi := rank_lo_le_hi _ _ _
      hi_le_rows := rank_hi_le _ h.rank_lt
      ways_pos := Nat.one_pos
      resident_eq := nofun
      scales_eq := nofun }
  fd_eq := rfl
  rows_eq := rfl
  weightOffset_eq := rfl
  scaleOffset_eq := rfl
  rowLo_eq := rfl
  rowHi_eq := rfl

/-! ## An exact shard passes -/

section Shard
variable {s : Span} {rank layer : Nat} {b : Bytes} (h : Owns s rank)
  (hshard : ShardOf s.file s.rows s.weightOff s.scaleOff layer rank tp4 b)
include h hshard

theorem Owns.shard_size : b.length = expectedSize s rank tp4 := (hshard.layout h.rankStore).1

omit h in
theorem shard_headerMatches :
    headerMatches b layer (s.rows * rank / tp4) (s.rows * (rank + 1) / tp4) s.rows = true := by
  obtain ⟨-, h0, h1, h2, h3, h4, h5⟩ := hshard.fields
  -- the first 48 bytes and the first page have the same fields
  have hword : ∀ i, i < 6 →
      RowStore.headerWord (block b 0 48) i = RowStore.headerWord (block b 0 RowStore.kPage) i := fun i hi => by
    unfold RowStore.headerWord
    rw [block_block _ _ _ _ _ (by omega), block_block _ _ _ _ _ (by unfold RowStore.kPage; omega)]
  unfold PackVerified.headerMatches
  rw [beq_iff_eq]
  simp only [List.range, List.range.loop, List.map_cons, List.map_nil]
  rw [hword 0 (by decide), hword 1 (by decide), hword 2 (by decide), hword 3 (by decide), hword 4 (by decide),
    hword 5 (by decide), h0, h1, h4, h5]
  unfold RowStore.shardLo at h2
  unfold RowStore.shardHi at h3
  rw [h2, h3]
  rfl

theorem Owns.shard_rowMatches {row : Nat} (hlo : s.rows * rank / tp4 ≤ row)
    (hhi : row < s.rows * (rank + 1) / tp4) : rowMatches s b (s.rows * rank / tp4) row = true := by
  have hrow : row < s.rows := Nat.lt_of_lt_of_le hhi (rank_hi_le _ h.rank_lt)
  have hrecord := (hshard.layout h.rankStore).2 row hlo hhi
  have hw := RowStore.weightBytes_length h.rankStore.wf hrow
  have hs := RowStore.scaleBytes_length h.rankStore.wf hrow
  unfold PackVerified.rowMatches
  dsimp only
  rw [Bool.and_eq_true, Bool.and_eq_true, beq_iff_eq, beq_iff_eq, beq_iff_eq]
  exact ⟨⟨hw, hs⟩, hrecord⟩

end Shard

theorem mem_sampleIds {lo hi row : Nat} {draws : List Nat} (h : row ∈ sampleIds lo hi draws) :
    lo ≤ row ∧ row < hi := by
  unfold sampleIds at h
  dsimp only at h
  rw [List.mem_insertionSort, List.mem_dedup, List.mem_map] at h
  obtain ⟨i, hi, rfl⟩ := h
  obtain ⟨-, hin⟩ := List.mem_filter.mp hi
  have hin := of_decide_eq_true hin
  omega

section Reads
variable {d₀ : OutDir Dg} {f : File} {b : Bytes}

theorem stat_completes (h : d₀.file f = some b) :
    Finishes (fun d : OutDir Dg => d = d₀) (stat f) fun size d => size = b.length ∧ d = d₀ := by
  refine Finishes.tryOp fun d hd => ⟨b.length, ?_, rfl, hd⟩
  rw [hd, h]

theorem contents_completes (h : d₀.file f = some b) :
    Finishes (fun d : OutDir Dg => d = d₀) (contents f) fun bytes d => bytes = b ∧ d = d₀ := by
  refine Finishes.tryOp fun d hd => ⟨b, ?_, rfl, hd⟩
  rw [hd, h]

end Reads

section Verify
variable {sha256 : Bytes → Dg} {ck : Checkpoint} {io : RunIo} {rank layer : Nat} {s : Span} {b : Bytes}
  {d₀ : OutDir Dg}

theorem verify_completes (hspan : ck.tensorSpan layer = some s) (h : Owns s rank)
    (hfile : d₀.file (.shard layer rank tp4) = some b)
    (hshard : ShardOf s.file s.rows s.weightOff s.scaleOff layer rank tp4 b) :
    Finishes (fun d => d = d₀) (verify sha256 ck io rank tp4 layer)
      fun r d => (∃ s b, Recorded sha256 ck rank tp4 layer d₀ r s b) ∧ d = d₀ := by
  refine (Finishes.and_meets (Q := fun _ _ => True) ?_ verify_meets).mono (fun _ hd => hd)
    (fun _ _ hd => hd.2) (fun _ _ hd => hd) fun _ hd => hd
  unfold verify
  rw [hspan]
  refine Meets.bind (stat_completes hfile) fun size => Meets.of_fact fun hsize => ?_
  refine Meets.bind (Finishes.require (by rw [hsize, h.shard_size hshard, expectedSize])) fun _ => ?_
  refine Meets.bind (Finishes.require h.owned) fun _ => ?_
  refine Meets.bind (contents_completes hfile) fun packed => Meets.of_fact fun hpacked => ?_
  subst hpacked
  refine Meets.bind (Finishes.require (shard_headerMatches hshard)) fun _ => ?_
  refine Meets.bind (Meets.each (I := fun _ d => d = d₀) _ fun done row rest hids => ?_) fun _ => ?_
  · -- every sampled row is one of the rank's
    obtain ⟨hlo, hhi⟩ := mem_sampleIds (show row ∈ _ by rw [hids]; simp)
    exact Meets.bind Finishes.tick fun _ => Finishes.require (h.shard_rowMatches hshard hlo hhi)
  · exact Meets.bind (contents_completes hfile) fun _ => Meets.ret fun _ _ => trivial

end Verify

/-! ## Packing into a fresh directory -/

/-- Nothing hinders the rank's runs: the checkpoint is readable, the rank owns rows of it,
reads and writes are complete, the system refuses none, there is room. -/
structure Unhindered (ck : Checkpoint) (rank : Nat) (io : RunIo) (span : Nat → Span) : Prop where
  found : ∀ layer ∈ engramLayers, ck.tensorSpan layer = some (span layer)
  owns : ∀ layer ∈ engramLayers, Owns (span layer) rank
  read : ∀ layer ∈ engramLayers, AllRead (span layer) rank tp4 (2 ^ 18) (io.pack layer)
  allowed : ∀ layer ∈ engramLayers, AllAllowed (span layer) rank tp4 (2 ^ 18) (io.pack layer)
  stored : ∀ layer ∈ engramLayers, AllStored (span layer) rank tp4 (2 ^ 18) (io.pack layer)
  free : (engramLayers.map fun layer => expectedSize (span layer) rank tp4).sum + 8 * 1024 ^ 3 ≤ io.free

section Pack
variable {ck : Checkpoint} {io : RunIo} {rank layer : Nat} {span : Nat → Span} {d₀ : OutDir Dg}

theorem pathExists_completes {f : File} :
    Finishes (fun d : OutDir Dg => d = d₀) (pathExists f) fun present d => present = (d₀.file f).isSome ∧ d = d₀ :=
  Finishes.op fun d hd => by rw [hd]; exact ⟨rfl, rfl⟩

theorem checkFresh_completes (h : Fresh rank layer d₀) :
    Finishes (fun d : OutDir Dg => d = d₀) (checkFresh rank layer) fun _ d => d = d₀ := by
  refine Meets.bind pathExists_completes fun target => Meets.of_fact fun htarget => ?_
  refine Meets.bind (Finishes.require (by rw [htarget, h.1]; rfl)) fun _ => ?_
  refine Meets.bind pathExists_completes fun unfinished => Meets.of_fact fun hunfinished => ?_
  exact Finishes.require (by rw [hunfinished, h.2]; rfl)

theorem needed_completes (hfound : ck.tensorSpan layer = some (span layer)) :
    Finishes (fun d : OutDir Dg => d = d₀) (needed ck rank layer) fun need d =>
      need = expectedSize (span layer) rank tp4 ∧ d = d₀ := by
  unfold needed
  rw [hfound]
  exact Meets.ret fun d hd => ⟨rfl, hd⟩

theorem rankHeader_ok {s : Span} (h : Owns s rank) (hl : layer ∈ engramLayers) :
    ∃ header, rankHeader s layer rank tp4 = .ok header := by
  have hhi := rank_hi_le s.rows h.rank_lt
  have hlo := Nat.le_trans (rank_lo_le_hi s.rows rank tp4) hhi
  have hrows := h.rows_lt
  have hlayer : layer < 2 ^ 64 := by
    have hall : ∀ l ∈ engramLayers, l < 2 ^ 64 := by decide
    exact hall layer hl
  refine ⟨_, if_pos ?_⟩
  simp only [List.all_cons, List.all_nil, Bool.and_eq_true, decide_eq_true_eq, magic, rowBytes]
  exact ⟨by decide, hlayer, by omega, by omega, hrows, by decide, trivial⟩

/-- What was packed is exact. -/
structure PackedExact (ck : Checkpoint) (rank : Nat) (d₀ : OutDir Dg) (done : List Nat) (d : OutDir Dg) :
    Prop extends Packed ck rank d₀ done d where
  exact : ∀ layer ∈ done, Exact ck rank layer d

theorem packLayer_completes {done rest : List Nat} (h : Unhindered ck rank io span)
    (hl : engramLayers = done ++ layer :: rest) :
    Finishes (PackedExact ck rank d₀ done)
      (packLayer ck.tensorSpan layer rank tp4 (2 ^ 18) (io.pack layer))
      fun _ => PackedExact ck rank d₀ (done ++ [layer]) := by
  refine Meets.of_eq fun d₁ hd₁ => ?_
  have hmem : layer ∈ engramLayers := by rw [hl]; simp
  have hnew : layer ∉ done := by
    have hnodup : (done ++ layer :: rest).Nodup := hl ▸ (by decide : engramLayers.Nodup)
    exact fun hin => (List.nodup_append.mp hnodup).2.2 layer hin layer List.mem_cons_self rfl
  have hc : 0 < 2 ^ 18 := Nat.two_pow_pos 18
  refine (packLayer_meets (h.found layer hmem) (by decide) hc).mono (fun d hd => hd) ?_ ?_ ?_
  · rintro _ d ⟨-, ⟨⟨b, hb, -⟩, -⟩ | ⟨-, ⟨hread, -⟩, header, hheader, rfl⟩⟩
    · rw [hd₁.fresh layer hmem hnew] at hb
      cases hb
    refine ⟨hd₁.toPacked.put_shard hnew (h.found layer hmem) hc hread hheader, fun l hin => ?_⟩
    by_cases heq : l = layer
    · subst heq
      exact ⟨_, _, h.found l hmem, Dir.put_file_self _ _ _,
        (shardOf_written_iff hheader hc hread).mpr (h.stored l hmem)⟩
    · obtain ⟨s, b, hs, hb, hshard⟩ := hd₁.exact l (by simpa [heq] using hin)
      refine ⟨s, b, hs, ?_, hshard⟩
      rw [Dir.put_file_ne _ _ (by simp [heq]), Dir.put_file_ne _ _ (by simp)]
      exact hb
  · rintro e d ⟨-, hfails | hfails, -⟩
    · obtain ⟨header, hheader⟩ := rankHeader_ok (h.owns layer hmem) hmem
      exact hfails header hheader
    · exact hfails ⟨h.read layer hmem, h.allowed layer hmem⟩
  · rintro d ⟨⟨k, hk⟩, -⟩
    cases hk

theorem packNew_completes (h : Unhindered ck rank io span)
    (hfresh : ∀ layer ∈ engramLayers, Fresh rank layer d₀) :
    Finishes (fun d : OutDir Dg => d = d₀) (packNew ck io rank)
      fun _ => PackedExact ck rank d₀ engramLayers := by
  refine Meets.bind (Meets.each (I := fun _ d => d = d₀) engramLayers fun done layer rest hl =>
    checkFresh_completes (hfresh layer (by rw [hl]; simp))) fun _ => ?_
  refine Meets.bind (Meets.collect (R := fun layer need => need = expectedSize (span layer) rank tp4)
    engramLayers fun layer hl => needed_completes (h.found layer hl)) fun needs => Meets.of_fact fun hneeds => ?_
  have hsum : needs = engramLayers.map fun layer => expectedSize (span layer) rank tp4 := by
    refine List.forall₂_eq_eq_eq ▸ ?_
    rw [List.forall₂_map_right_iff]
    exact hneeds.flip
  refine Meets.bind Finishes.tick fun _ => ?_
  refine Meets.bind (Finishes.require (by rw [hsum]; exact h.free)) fun _ => ?_
  refine (Meets.each (I := PackedExact ck rank d₀) engramLayers fun done layer rest hl =>
    Meets.bind (packLayer_completes h hl) fun _ => Meets.ret fun _ hd => hd).mono ?_ (fun _ _ hd => hd)
    (fun _ _ hd => hd) fun _ hd => hd
  rintro d rfl
  exact ⟨⟨⟨rfl, fun _ _ _ => rfl⟩, nofun, fun layer hl _ => (hfresh layer hl).1⟩, nofun⟩

end Pack

/-! ## A manifest names its checkpoint -/

/-- Every manifest was made from this checkpoint. -/
def Identified (sha256 : Bytes → Dg) (ck : Checkpoint) (d : OutDir Dg) : Prop :=
  ∀ rank m, d.text (.manifest rank tp4) = some (.whole m) →
    m.checkpointConfigSha256 = sha256 ck.config ∧ m.checkpointIndexSha256 = sha256 ck.index

section Identified
variable {sha256 : Bytes → Dg} {ck : Checkpoint} {io : RunIo} {rank : Nat} {d d₀ : OutDir Dg}
  {killed : Nat → Bool}

theorem Identified.congr (h : Identified sha256 ck d₀) (htext : d.text = d₀.text) : Identified sha256 ck d :=
  fun rank m hm => h rank m (htext ▸ hm)

/-- Packing writes no document. -/
theorem packNew_text :
    Meets killed (fun d : OutDir Dg => d = d₀) (packNew ck io rank) (fun _ d => d.text = d₀.text)
      (fun _ d => d.text = d₀.text) fun d => d.text = d₀.text := by
  have hstart : ∀ d, d = d₀ → d.text = d₀.text := fun d hd => by rw [hd]
  refine Meets.bind (checkAllFresh_meets.mono (fun _ hd => hd) (fun _ _ hd => hd.2) (fun _ => hstart) hstart)
    fun _ => ?_
  refine Meets.bind ((Meets.collect (R := fun _ _ => True) engramLayers fun layer _ => needed_meets).mono
    (fun _ hd => hd) (fun _ _ hd => hd.2) (fun _ => hstart) hstart) fun need => ?_
  refine Meets.bind (Meets.tick fun _ d _ => hstart d) fun _ => ?_
  refine Meets.bind (Meets.require (Q := fun _ d => d.text = d₀.text) (fun d hd _ => hstart d hd)
    fun d hd _ => hstart d hd) fun _ => ?_
  refine Meets.each (I := fun _ (d : OutDir Dg) => d.text = d₀.text) engramLayers fun done layer rest _ => ?_
  refine Meets.bind (Q := fun _ d => d.text = d₀.text) (Meets.of_eq fun d₁ hd₁ => ?_)
    fun _ => Meets.ret fun _ hd => hd
  cases hspan : ck.tensorSpan layer with
  | none =>
    unfold PackWrite.packLayer
    rw [hspan]
    exact Meets.raise fun d hd => hd ▸ hd₁
  | some s =>
    refine (packLayer_meets hspan (by decide) (Nat.two_pow_pos 18)).mono (fun _ hd => hd) ?_ ?_ ?_
    · rintro _ d ⟨-, ⟨-, rfl⟩ | ⟨-, -, header, -, rfl⟩⟩
      · exact hd₁
      · exact hd₁
    · rintro _ d ⟨-, -, c, rfl⟩
      exact hd₁
    · rintro d ⟨-, c, rfl⟩
      exact hd₁

/-- What `publish` leaves, wherever it stops: the old documents, or the new manifest. -/
theorem publish_text {m : Manifest Dg} :
    Meets killed (fun d => d = d₀) (publish rank m)
      (fun _ d => d.text (.manifest rank tp4) = some (.whole m) ∧ d.file = d₀.file ∧
        ∀ r, r ≠ rank → d.text (.manifest r tp4) = d₀.text (.manifest r tp4))
      (fun _ _ => False) fun d : OutDir Dg => ∀ r, d.text (.manifest r tp4) = d₀.text (.manifest r tp4) := by
  refine Meets.bind (Q := fun _ d => d = Dir.putText d₀ (.temp rank tp4) (some .torn)) ?_ fun _ => ?_
  · exact Meets.op (fun k d _ hd r => by rw [hd]) fun d hd => by rw [hd]
  refine Meets.bind (Q := fun _ d => d = Dir.putText (Dir.putText d₀ (.temp rank tp4) (some .torn))
    (.temp rank tp4) (some (.whole m))) ?_ fun _ => ?_
  · refine Meets.op (fun k d _ hd r => ?_) fun d hd => by rw [hd]
    rw [hd, Dir.putText_ne _ _ (by simp)]
  · refine Meets.op (fun k d _ hd r => ?_) fun d hd => ?_
    · rw [hd, Dir.putText_ne _ _ (by simp), Dir.putText_ne _ _ (by simp)]
    · subst hd
      refine ⟨by rw [Dir.putText_self, Dir.putText_self], rfl, fun r hr => ?_⟩
      rw [Dir.putText_ne _ _ (by simp [hr]), Dir.putText_ne _ _ (by simp), Dir.putText_ne _ _ (by simp),
        Dir.putText_ne _ _ (by simp)]

theorem main_identified [DecidableEq Dg] :
    Meets killed (Identified sha256 ck) (main sha256 ck rank io) (fun _ => Identified sha256 ck)
      (fun _ => Identified sha256 ck) (Identified sha256 ck) := by
  refine Meets.of_eq fun d₀ hid => ?_
  have hstart : ∀ d, d = d₀ → Identified sha256 ck d := fun d hd => hd ▸ hid
  have htext : ∀ d, d.text = d₀.text → Identified sha256 ck d := fun d hd => hid.congr hd
  -- what is left after the branch on the old manifest
  have hrest : Meets killed (fun d => d.text = d₀.text) (do
      let layers ← Prog.collect engramLayers (verify sha256 ck io rank tp4)
      publish rank { status := "PASS", rank := rank, tp := tp4, checkpointConfigSha256 := sha256 ck.config,
                     checkpointIndexSha256 := sha256 ck.index, layers := layers, method := method })
      (fun _ => Identified sha256 ck) (fun _ => Identified sha256 ck) (Identified sha256 ck) := by
    refine Meets.of_eq fun d₁ hd₁ => ?_
    have hstart : ∀ d, d = d₁ → Identified sha256 ck d := fun d hd => htext d (hd ▸ hd₁)
    refine Meets.bind ((Meets.collect engramLayers fun layer _ => verify_meets).mono (fun _ hd => hd)
      (fun _ _ hd => hd.2) (fun _ => hstart) hstart) fun layers => ?_
    refine publish_text.mono (fun _ hd => hd) (fun _ d hd => ?_) (fun _ _ hno => hno.elim) fun d hd => ?_
    · obtain ⟨hnew, -, hothers⟩ := hd
      intro r m hm
      by_cases hr : r = rank
      · subst hr
        obtain rfl := Text.whole.inj (Option.some.inj (hnew.symm.trans hm))
        exact ⟨rfl, rfl⟩
      · exact hstart d₁ rfl r m (hothers r hr ▸ hm)
    · exact fun r m hm => hstart d₁ rfl r m (hd r ▸ hm)
  unfold main
  refine Meets.bind (Meets.require (Q := fun _ d => d = d₀) (fun _ hd _ => hd) fun d hd _ => hstart d hd)
    fun _ => ?_
  refine Meets.bind (readManifest_meets.mono (fun _ hd => hd) (fun _ _ hd => hd.2) (fun _ => hstart) hstart)
    fun old => ?_
  cases old with
  | none =>
    exact Meets.bind (packNew_text.mono (fun _ hd => hd) (fun _ _ hd => hd) (fun _ => htext) htext)
      fun _ => hrest
  | some m =>
    refine Meets.bind (checkOld_meets.mono (fun _ hd => hd) (fun _ _ hd => hd.2) (fun _ => hstart) hstart)
      fun _ => hrest.mono (fun d hd => by rw [hd]) (fun _ _ hd => hd) (fun _ _ hd => hd) fun _ hd => hd

theorem identified_inductive [DecidableEq Dg] : (system sha256 ck).Inductive (Identified sha256 ck) where
  init := by
    rintro d rfl rank m hm
    cases hm
  step := by
    rintro d r _ hd rfl
    exact Exit.Sat.all (main_identified 0 d hd)

end Identified

/-! ## A run that nothing stops -/

section Run
variable {sha256 : Bytes → Dg} {ck : Checkpoint} {io : RunIo} {rank : Nat} {span : Nat → Span}
  {d₀ : OutDir Dg}

/-- What a run that returned leaves. -/
structure Done (ck : Checkpoint) (rank : Nat) (d : OutDir Dg) : Prop where
  manifest : d.text (.manifest rank tp4) ≠ none
  exact : ∀ layer ∈ engramLayers, Exact ck rank layer d

/-- Exact shards are verified, and the manifest is published. -/
theorem publish_completes (h : Unhindered ck rank io span)
    (hexact : ∀ layer ∈ engramLayers, Exact ck rank layer d₀) :
    Finishes (fun d => d = d₀) (do
      let layers ← Prog.collect engramLayers (verify sha256 ck io rank tp4)
      publish rank { status := "PASS", rank := rank, tp := tp4, checkpointConfigSha256 := sha256 ck.config,
                     checkpointIndexSha256 := sha256 ck.index, layers := layers, method := method })
      fun _ d => Done ck rank d ∧ d.file = d₀.file := by
  refine Meets.bind (Meets.collect (R := fun layer r => ∃ s b, Recorded sha256 ck rank tp4 layer d₀ r s b)
    engramLayers fun layer hl => ?_) fun layers => Meets.of_fact fun _ => ?_
  · obtain ⟨s, b, hs, hb, hshard⟩ := hexact layer hl
    obtain rfl := Option.some.inj ((h.found layer hl).symm.trans hs)
    exact verify_completes hs (h.owns layer hl) hb hshard
  · refine (Finishes.and_meets (Q := fun _ _ => True) ?_ publish_text).mono (fun _ hd => hd)
      (fun _ d hd => ?_) (fun _ _ hd => hd) fun _ hd => hd
    · have hop : ∀ f : OutDir Dg → Unit × OutDir Dg, Finishes (fun _ => True)
          (Prog.op f : Prog (OutDir Dg) RunError Unit) fun _ _ => True := fun f => Finishes.op fun _ _ => trivial
      exact (Meets.bind (hop _) fun _ => Meets.bind (hop _) fun _ => hop _).mono (fun _ _ => trivial)
        (fun _ _ hd => hd) (fun _ _ hd => hd) fun _ hd => hd
    · obtain ⟨-, hnew, hfile, -⟩ := hd
      refine ⟨⟨by rw [hnew]; exact Option.some_ne_none _, fun layer hl => ?_⟩, hfile⟩
      obtain ⟨s, b, hs, hb, hshard⟩ := hexact layer hl
      exact ⟨s, b, hs, by rw [hfile]; exact hb, hshard⟩

theorem fresh_completes [DecidableEq Dg] (h : Unhindered ck rank io span)
    (hnone : d₀.text (.manifest rank tp4) = none) (hfresh : ∀ layer ∈ engramLayers, Fresh rank layer d₀) :
    Finishes (fun d => d = d₀) (main sha256 ck rank io) fun _ => Done ck rank := by
  unfold main
  refine Meets.bind (Finishes.require (h.owns 1 (by decide)).rank_lt) fun _ => ?_
  refine Meets.bind (Q := fun old d => old = none ∧ d = d₀) (Finishes.tryOp fun d hd => ?_) fun old =>
    Meets.of_fact fun hold => ?_
  · exact ⟨none, by rw [hd, hnone], rfl, hd⟩
  · subst hold
    refine Meets.bind (packNew_completes h hfresh) fun _ => Meets.of_eq fun d₁ hd₁ => ?_
    exact (publish_completes h hd₁.exact).mono (fun _ hd => hd) (fun _ _ hd => hd.1) (fun _ _ hd => hd)
      fun _ hd => hd

theorem manifested_completes [DecidableEq Dg] (h : Unhindered ck rank io span) {m : Manifest Dg}
    (hm : d₀.text (.manifest rank tp4) = some (.whole m)) (hok : ManifestOk sha256 ck rank d₀ m)
    (hid : Identified sha256 ck d₀) :
    Finishes (fun d => d = d₀) (main sha256 ck rank io) fun _ d => Done ck rank d ∧ d.file = d₀.file := by
  unfold main
  refine Meets.bind (Finishes.require (h.owns 1 (by decide)).rank_lt) fun _ => ?_
  refine Meets.bind (Q := fun old d => old = some m ∧ d = d₀) (Finishes.tryOp fun d hd => ?_) fun old =>
    Meets.of_fact fun hold => ?_
  · exact ⟨some m, by rw [hd, hm], rfl, hd⟩
  · subst hold
    refine Meets.bind (Q := fun _ d => d = d₀) ?_ fun _ => publish_completes h hok.exact
    refine Meets.bind (Finishes.require (hid rank m hm)) fun _ => ?_
    refine Meets.each (I := fun _ d => d = d₀) m.layers fun done r rest hl => ?_
    -- the files are those that were recorded
    obtain ⟨layer, -, s, b, hrec⟩ := forall₂_left_mem hok.layers.flip (show r ∈ m.layers by rw [hl]; simp)
    have hb : d₀.file r.packedFile = some b := by rw [hrec.packedFile]; exact hrec.file
    refine Meets.bind (stat_completes hb) fun size => Meets.of_fact fun hsize => ?_
    refine Meets.bind (Finishes.require (by rw [hsize, hrec.bytes])) fun _ => ?_
    refine Meets.bind (contents_completes hb) fun digest => Meets.of_fact fun hdigest => ?_
    exact Finishes.require (by rw [hdigest, hrec.sha])

/-- **When packing is accepted.** Any runs before, killed anywhere, from an empty
directory. A run that nothing hinders returns exactly where the rank has a manifest or
no packed file at all; it leaves a manifest and shards that are exact in every byte, and
where there was a manifest it changes no shard. -/
theorem unhindered_run [DecidableEq Dg] {d : OutDir Dg} (h : Unhindered ck rank io span)
    (hreach : (system sha256 ck).Reachable d) :
    let r : PackVerified.Run := ⟨rank, io, fun _ => false⟩
    ((∃ u, (r.exec sha256 ck d).1 = .returned u) ↔
      d.text (.manifest rank tp4) ≠ none ∨ ∀ layer ∈ engramLayers, Fresh rank layer d) ∧
    ∀ u, (r.exec sha256 ck d).1 = .returned u → Done ck rank (r.exec sha256 ck d).2.2 ∧
      (d.text (.manifest rank tp4) ≠ none → (r.exec sha256 ck d).2.2.file = d.file) := by
  dsimp only
  by_cases hnone : d.text (.manifest rank tp4) = none
  · by_cases hfresh : ∀ layer ∈ engramLayers, Fresh rank layer d
    · obtain ⟨u, hu, hdone⟩ := (fresh_completes h hnone hfresh).returned rfl 0
      exact ⟨⟨fun _ => .inr hfresh, fun _ => ⟨u, hu⟩⟩, fun _ _ => ⟨hdone, fun hne => absurd hnone hne⟩⟩
    · push Not at hfresh
      obtain ⟨layer, hl, hfile⟩ := hfresh
      obtain ⟨hrefused, -⟩ := (manifest_sound hreach rank).2.1 hnone layer hl hfile
        ⟨rank, io, fun _ => false⟩ rfl
      refine ⟨⟨fun hyp => ?_, fun hyp => ?_⟩, fun u hu => absurd hu (hrefused u)⟩
      · obtain ⟨u, hu⟩ := hyp
        exact absurd hu (hrefused u)
      · rcases hyp with hne | hall
        · exact absurd hnone hne
        · exact absurd (hall layer hl) hfile
  · obtain ⟨t, ht⟩ := Option.ne_none_iff_exists'.mp hnone
    obtain ⟨m, rfl, hok⟩ := inv_inductive.reachable d hreach rank t ht
    obtain ⟨u, hu, hdone, hfile⟩ :=
      (manifested_completes h ht hok (identified_inductive.reachable d hreach)).returned rfl 0
    exact ⟨⟨fun _ => .inl hnone, fun _ => ⟨u, hu⟩⟩, fun _ _ => ⟨hdone, fun _ => hfile⟩⟩

theorem chunkSize_bounds {hi start : Nat} (chunkRows : Nat) (h : start < hi) :
    chunkSize hi chunkRows start ≤ chunkRows ∧ start + chunkSize hi chunkRows start ≤ hi := by
  unfold chunkSize
  omega

/-- The environment of `completeIo` stops no run that has the room. -/
theorem completeIo_unhindered (hfound : ∀ layer ∈ engramLayers, ck.tensorSpan layer = some (span layer))
    (howns : ∀ layer ∈ engramLayers, Owns (span layer) rank)
    (hfree : (engramLayers.map fun layer => expectedSize (span layer) rank tp4).sum + 8 * 1024 ^ 3 ≤
      completeIo.free) : Unhindered ck rank completeIo span where
  found := hfound
  owns := howns
  read layer hl j hj := by
    have hhi := rank_hi_le (span layer).rows (howns layer hl).rank_lt
    obtain ⟨hn, hstop⟩ := chunkSize_bounds (2 ^ 18) hj
    -- a table that is in the file has the chunk's rows
    have hfit : ∀ off width, off + (span layer).rows * width ≤ (span layer).file.length →
        chunkSize ((span layer).rows * (rank + 1) / tp4) (2 ^ 18)
          ((span layer).rows * rank / tp4 + j * 2 ^ 18) * width ≤
          (span layer).file.length - (off + ((span layer).rows * rank / tp4 + j * 2 ^ 18) * width) := by
      intro off width hoff
      have hmul := Nat.mul_le_mul_right width (Nat.le_trans hstop hhi)
      rw [Nat.add_mul] at hmul
      omega
    exact ⟨rfl, rfl, Nat.le_min.mpr ⟨Nat.mul_le_mul_right weightBytes hn, hfit _ _ (howns layer hl).weights_fit⟩,
      Nat.le_min.mpr ⟨Nat.mul_le_mul_right scaleBytes hn, hfit _ _ (howns layer hl).scales_fit⟩⟩
  allowed layer hl := ⟨rfl, rfl, rfl, fun _ _ => rfl, rfl, rfl⟩
  stored layer hl := by
    refine ⟨Nat.le_refl _, fun j hj => ?_⟩
    unfold ChunkStored chunkSize completeIo
    simp only [rowBytes]
    omega
  free := hfree

end Run

/-- Four rows, all of them there. -/
def fourTable : Span := ⟨"model.safetensors", List.replicate 1056 7, 4, 0, 1024⟩

theorem fourTable_owns {rank : Nat} (h : rank < tp4) : Owns fourTable rank where
  rank_lt := h
  rows_lt := by decide
  weights_fit := by
    show 0 + 4 * 256 ≤ (List.replicate 1056 (7 : UInt8)).length
    rw [List.length_replicate]
    decide
  scales_fit := by
    show 1024 + 4 * 8 ≤ (List.replicate 1056 (7 : UInt8)).length
    rw [List.length_replicate]
  owned := by
    show 4 * rank / 4 < 4 * (rank + 1) / 4
    omega

theorem fourTable_packed :
    ∃ u, ((⟨2, completeIo, fun _ => false⟩ : Run).exec id ⟨[], [], fun _ => some fourTable⟩ emptyDir).1 =
      .returned u := by
  have h : Unhindered ⟨[], [], fun _ => some fourTable⟩ 2 completeIo fun _ => fourTable :=
    completeIo_unhindered (fun _ _ => rfl) (fun _ _ => fourTable_owns (by decide)) (by decide)
  exact (@unhindered_run Bytes id _ _ _ _ _ _ h ⟨emptyDir, [], rfl, .nil _⟩).1.mpr (.inr fun _ _ => ⟨rfl, rfl⟩)

end FlashSpark.L2.PackVerified
