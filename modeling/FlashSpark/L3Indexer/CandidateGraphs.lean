import FlashSpark.L3Indexer.CandidateBlocks

/-!
# Graphs that leave candidate filtering out

The decode runner captures graphs that filter no candidates, or skip an indexer
altogether, and replays one when the longest request of a batch is short enough
(experiments/trace-02/compact-measured.patch). Limits are in tokens; the budgets
behind them are in compressed positions and in blocks of them.

* `candidateGraphLimits`, `resolveDsaVariant`: which graph a batch gets.
* `TwoLevel`: what the indexer's logits become under a graph.
* `visible_blocks_selected`: within the span every block worth selecting is selected.
* `elided_graphs_sound`: the graphs change nothing.
-/
namespace FlashSpark.L3.Indexer
open Launch

inductive DsaVariant where
  | candidateAll
  | candidateC2All
  | candidateUnfiltered
  | candidateFiltered
  | dense
  | sparse
  deriving DecidableEq

structure TextConfig where
  candidateTopkBlocks : Nat
  candidateBlockSize : Nat
  indexTopk : Nat
  compressRatios : List Nat

namespace TextConfig
variable (c : TextConfig)

def span : Nat := c.candidateTopkBlocks * c.candidateBlockSize

/-- `set(compress_ratios) & {1, 2}`, in order. -/
def ratios : List Nat := [1, 2].filter (· ∈ c.compressRatios)

/-- mirrors compact-measured.patch:1653-1660 -/
def variants : List (DsaVariant × Nat) :=
  (match c.ratios.min? with
    | some least =>
      if 0 < c.indexTopk then
        (.candidateAll, c.indexTopk * least) ::
          if c.ratios = [1, 2] then [(.candidateC2All, c.indexTopk * 2)] else []
      else []
    | none => []) ++ [(.candidateUnfiltered, c.span)]

end TextConfig

/-- The loop that ends at the first limit beyond the span.
mirrors compact-measured.patch:1661-1664 -/
def cutAtSpan (span : Nat) : List (DsaVariant × Nat) → List (DsaVariant × Nat)
  | [] => []
  | (variant, limit) :: rest =>
    (variant, min limit span) :: if span ≤ limit then [] else cutAtSpan span rest

/-- What the runner keeps of the configuration; the filter span is `none` where the model
or the device has no candidate graphs. -/
structure DecodeRunner where
  candidateFilterSpan : Option Nat
  candidateGraphLimits : List (DsaVariant × Nat)
  dsaDualGraph : Bool
  dsaIndexTopk : Nat

/-- mirrors compact-measured.patch:1639-1669; `capable` is the condition on mode, device and model -/
def DecodeRunner.init (c : TextConfig) (capable dsaDualGraph : Bool) (dsaIndexTopk : Nat) : DecodeRunner :=
  if capable = true ∧ 0 < c.span then ⟨some c.span, cutAtSpan c.span c.variants, dsaDualGraph, dsaIndexTopk⟩
  else ⟨none, [], dsaDualGraph, dsaIndexTopk⟩

structure Lengths where
  onCpu : Bool
  values : List Nat

structure ForwardBatch where
  seqLensCpu : Option Lengths
  seqLens : Option (List Nat)

/-- mirrors compact-measured.patch:1947-1960 -/
def resolveDual (r : DecodeRunner) (b : ForwardBatch) : Option DsaVariant :=
  if r.dsaDualGraph = false then none
  else
    let lengths := (b.seqLensCpu.map Lengths.values).filter (!·.isEmpty) <|> b.seqLens.filter (!·.isEmpty)
    match lengths with
    | some lengths => if lengths.max?.getD 0 ≤ r.dsaIndexTopk then some .dense else some .sparse
    | none => some .sparse

/-- mirrors compact-measured.patch:1930-1960 (`_resolve_dsa_variant`) -/
def resolveDsaVariant (r : DecodeRunner) (b : ForwardBatch) : Option DsaVariant :=
  match r.candidateFilterSpan with
  | some _ =>
    match b.seqLensCpu.filter (fun lengths => lengths.onCpu && !lengths.values.isEmpty) with
    | some lengths =>
      let maxSeqLen := lengths.values.max?.getD 0
      match r.candidateGraphLimits.find? fun v => maxSeqLen ≤ v.2 with
      | some v => some v.1
      | none => some .candidateFiltered
    | none => some .candidateFiltered
  | none => resolveDual r b

/-- The variants that leave work out (deepseek_v4_backend.py:275-279). -/
def elides (variant : Option DsaVariant) : Bool :=
  variant == some .candidateAll || variant == some .candidateC2All || variant == some .candidateUnfiltered

/-- The variant runs no indexer of this ratio. -/
def skips : DsaVariant → Nat → Bool
  | .candidateAll, _ => true
  | .candidateC2All, ratio => ratio == 2
  | _, _ => false

variable {F : Type} [LinearOrder F] [BoundedOrder F]

/-- Logits and published mask. -/
structure Filtered (F : Type) where
  logits : Nat → Nat → F
  published : Option (Nat → Nat → Bool)

/-- Under a captured variant, on the device.
mirrors deepseek_v4_backend.py:251-310 (`two_level_decode_logits`) -/
inductive TwoLevel (S : BlockShape) (variant : Option DsaVariant) (isCandidateSource usesCandidates : Bool)
    (m : Memory (BlockCell.Val F)) : Filtered F → Prop where
  | plain (h : (isCandidateSource || usesCandidates) = false) :
      TwoLevel S variant isCandidateSource usesCandidates m ⟨fun row col => m (.logit row col), none⟩
  | elided (h : (isCandidateSource || usesCandidates) = true) (he : elides variant = true) :
      TwoLevel S variant isCandidateSource usesCandidates m ⟨fun row col => m (.logit row col), none⟩
  | source (h : isCandidateSource = true) (he : elides variant = false) {m' : Memory (BlockCell.Val F)}
      (call : sourceCall S m m') :
      TwoLevel S variant isCandidateSource usesCandidates m
        ⟨fun row col => m' (.output row col), some fun row col => m' (.keep row col)⟩
  | consumer (h : isCandidateSource = false) (hu : usesCandidates = true) (he : elides variant = false)
      {m' : Memory (BlockCell.Val F)} (call : consumerCall S m m') :
      TwoLevel S variant isCandidateSource usesCandidates m ⟨fun row col => m' (.output row col), none⟩

/-! ## Limits -/

theorem mem_cutAtSpan {span : Nat} {vs : List (DsaVariant × Nat)} {variant : DsaVariant} {limit : Nat}
    (h : (variant, limit) ∈ cutAtSpan span vs) :
    ∃ limit₀, (variant, limit₀) ∈ vs ∧ limit = min limit₀ span := by
  induction vs with
  | nil => cases h
  | cons v vs ih =>
    obtain ⟨variant', limit'⟩ := v
    rw [cutAtSpan] at h
    rcases List.mem_cons.mp h with he | h
    · obtain ⟨rfl, rfl⟩ := Prod.mk.inj he
      exact ⟨limit', List.mem_cons_self, rfl⟩
    · split at h
      · cases h
      · obtain ⟨limit₀, hmem, he⟩ := ih h
        exact ⟨limit₀, List.mem_cons_of_mem _ hmem, he⟩

theorem resolveDual_elides (r : DecodeRunner) (b : ForwardBatch) : elides (resolveDual r b) = false := by
  unfold resolveDual
  split
  · rfl
  · dsimp only
    split
    · split <;> rfl
    · rfl

/-- A variant that leaves work out was chosen from the host's lengths, by its limit. -/
theorem elided_limit {c : TextConfig} {capable dual : Bool} {dsaTopk : Nat} {b : ForwardBatch}
    {variant : DsaVariant} (h : resolveDsaVariant (.init c capable dual dsaTopk) b = some variant)
    (he : elides (some variant) = true) :
    ∃ lengths limit₀, b.seqLensCpu = some lengths ∧ (variant, limit₀) ∈ c.variants ∧
      ∀ n ∈ lengths.values, n ≤ limit₀ ∧ n ≤ c.span := by
  unfold DecodeRunner.init at h
  split at h
  · unfold resolveDsaVariant at h
    dsimp only at h
    cases hcpu : b.seqLensCpu.filter (fun lengths => lengths.onCpu && !lengths.values.isEmpty) with
    | none =>
      rw [hcpu] at h
      obtain rfl := Option.some.inj h
      cases he
    | some lengths =>
      rw [hcpu] at h
      dsimp only at h
      cases hfind : (cutAtSpan c.span c.variants).find? fun v => decide (lengths.values.max?.getD 0 ≤ v.2) with
      | none =>
        rw [hfind] at h
        obtain rfl := Option.some.inj h
        cases he
      | some v =>
        rw [hfind] at h
        obtain rfl := Option.some.inj h
        obtain ⟨limit₀, hmem, hlimit⟩ := mem_cutAtSpan (List.mem_of_find?_eq_some hfind)
        refine ⟨lengths, limit₀, (Option.filter_eq_some_iff.mp hcpu).1, hmem, fun n hn => ?_⟩
        have hle : lengths.values.max?.getD 0 ≤ v.2 := by simpa using List.find?_some hfind
        have : n ≤ lengths.values.max?.getD 0 := List.le_max?_getD_of_mem hn
        omega
  · have hno := resolveDual_elides ⟨none, [], dual, dsaTopk⟩ b
    rw [show resolveDual ⟨none, [], dual, dsaTopk⟩ b = some variant from h, he] at hno
    cases hno

theorem mem_ratios {c : TextConfig} {ratio : Nat} (h : ratio ∈ c.ratios) : ratio = 1 ∨ ratio = 2 := by
  simpa using (List.mem_filter.mp h).1

/-- A variant that skips a ratio's indexer has its limit from `index_topk`. -/
theorem skipped_fits {c : TextConfig} {variant : DsaVariant} {limit ratio n : Nat}
    (hmem : (variant, limit) ∈ c.variants) (hratio : ratio ∈ c.ratios) (hskip : skips variant ratio = true)
    (hn : n ≤ limit) : n / ratio ≤ c.indexTopk := by
  have hpos : 0 < ratio := by rcases mem_ratios hratio with rfl | rfl <;> decide
  refine Nat.div_le_of_le_mul ?_
  unfold TextConfig.variants at hmem
  rcases List.mem_append.mp hmem with hmem | hmem
  · split at hmem
    · rename_i least hleast
      split at hmem
      · rcases List.mem_cons.mp hmem with he | hmem
        · -- the least ratio gives the least limit
          obtain ⟨rfl, rfl⟩ := Prod.mk.inj he
          have hle : least ≤ ratio := (List.min?_eq_some_iff.mp hleast).2 ratio hratio
          have := Nat.mul_le_mul_left c.indexTopk hle
          rw [Nat.mul_comm ratio]
          omega
        · split at hmem
          · obtain ⟨rfl, rfl⟩ := Prod.mk.inj (List.mem_singleton.mp hmem)
            obtain rfl : ratio = 2 := by simpa [skips] using hskip
            omega
          · cases hmem
      · cases hmem
    · cases hmem
  · obtain ⟨rfl, rfl⟩ := Prod.mk.inj (List.mem_singleton.mp hmem)
    cases hskip

/-! ## Within the span -/

section Span
variable {S : BlockShape} {logits : Nat → F} {length : Int}

theorem visible_of_score (hle : length ≤ S.width) {b : Nat} (h : ⊥ < blockScore S logits length b) :
    ((b * S.blockSize : Nat) : Int) < length := by
  by_contra hge
  refine h.ne' (blockScore_hidden hle fun c _ hc => ?_)
  have hmul : b * S.blockSize ≤ c := by rw [← hc]; exact Nat.div_mul_le_self c _
  omega

/-- Where all visible blocks fit the budget, each that scores above `-inf` is selected. -/
theorem visible_blocks_selected (hle : length ≤ S.width)
    (hspan : length ≤ ((S.topkBlocks * S.blockSize : Nat) : Int)) {sel : Nat → Nat}
    (htop : IsTopK (blockScore S logits length) S.blocks S.topk sel) {b : Nat} (hb : b < S.blocks)
    (hscore : ⊥ < blockScore S logits length b) : ∃ i, i < S.topk ∧ sel i = b := by
  have hbudget : ∀ b', b' < S.blocks → ⊥ < blockScore S logits length b' → b' < S.topk := by
    intro b' hb' hs
    have hvis := visible_of_score hle hs
    have hlt : b' * S.blockSize < S.topkBlocks * S.blockSize := by omega
    exact lt_min (Nat.lt_of_mul_lt_mul_right hlt) hb'
  refine htop.mem_of_few hb ?_
  have hsub : (Finset.range S.blocks).filter (fun b' => b' ≠ b ∧
      blockScore S logits length b ≤ blockScore S logits length b') ⊆ (Finset.range S.topk).erase b := by
    intro b' hb'
    obtain ⟨hrange, hne, hge⟩ := Finset.mem_filter.mp hb'
    exact Finset.mem_erase.mpr ⟨hne, Finset.mem_range.mpr
      (hbudget b' (Finset.mem_range.mp hrange) (hscore.trans_le hge))⟩
  have hcard := Finset.card_le_card hsub
  rw [Finset.card_erase_of_mem (Finset.mem_range.mpr (hbudget b hb hscore)), Finset.card_range] at hcard
  have := hbudget b hb hscore
  omega

end Span

/-- What a consumer makes of its logits when filtering is left out, and when it is not. -/
theorem twoLevel_consumer {S : BlockShape} {variant : DsaVariant} {m : Memory (BlockCell.Val F)}
    {r r' : Filtered F} (he : elides (some variant) = true) (hr : TwoLevel S (some variant) false true m r)
    (hr' : TwoLevel S (some .candidateFiltered) false true m r') {row col : Nat} (hrow : row < S.rows)
    (hcol : col < S.width) : r.logits row col = m (.logit row col) ∧ r'.logits row col =
      eagerConsumer (rowLogits m row) (m (.len row)) (fun c => m (.keep row c)) col := by
  constructor
  · cases hr with
    | plain h => rfl
    | elided h _ => rfl
    | source h _ _ => cases h
    | consumer _ _ hno _ => rw [he] at hno; cases hno
  · cases hr' with
    | plain h => cases h
    | elided _ h => cases h
    | source h _ _ => cases h
    | consumer _ _ _ call => exact maskKernel_output call hrow hcol

/-- **Leaving filtering out changes nothing.** When a batch gets a graph that leaves work
out, then for every request, at either ratio: a source would publish every block that
scores above `-inf`, and filtering would leave a consumer's reachable logits in these
blocks as they are; and where the graph skips the indexer, all compressed positions fit
`index_topk`. -/
theorem elided_graphs_sound {c : TextConfig} {capable dual : Bool} {dsaTopk : Nat} {b : ForwardBatch}
    {variant : DsaVariant} (h : resolveDsaVariant (.init c capable dual dsaTopk) b = some variant)
    (he : elides (some variant) = true) :
    ∃ lengths, b.seqLensCpu = some lengths ∧
      (∀ ratio, ratio ∈ c.ratios → skips variant ratio = true →
        ∀ seqLen ∈ lengths.values, seqLen / ratio ≤ c.indexTopk) ∧
      ∀ (S : BlockShape) (m m' : Memory (BlockCell.Val F)) (row ratio : Nat), ∀ seqLen ∈ lengths.values,
        S.topkBlocks = c.candidateTopkBlocks → S.blockSize = c.candidateBlockSize → row < S.rows →
        m (.len row) = ((seqLen / ratio : Nat) : Int) → seqLen / ratio ≤ S.width → sourceCall S m m' →
        (∀ col, col < S.width → ⊥ < rowScore S m row (col / S.blockSize) → m' (.keep row col) = true) ∧
        ∀ (n : Memory (BlockCell.Val F)) (r r' : Filtered F), n (.len row) = m (.len row) →
          (∀ col, n (.keep row col) = m' (.keep row col)) → TwoLevel S (some variant) false true n r →
          TwoLevel S (some .candidateFiltered) false true n r' →
          ∀ col, col < seqLen / ratio → ⊥ < rowScore S m row (col / S.blockSize) →
            r'.logits row col = r.logits row col := by
  obtain ⟨lengths, limit, hlengths, hmem, hlimit⟩ := elided_limit h he
  refine ⟨lengths, hlengths, fun ratio hratio hskip seqLen hseq =>
    skipped_fits hmem hratio hskip (hlimit seqLen hseq).1, ?_⟩
  rintro S m m' row ratio seqLen hseq htopk hsize hrow hlen hwidth ⟨m₁, m₂, hscores, hsel, hpub⟩
  have hle : (m (.len row) : Int) ≤ S.width := by rw [hlen]; exact Int.ofNat_le.mpr hwidth
  have hspan : (m (.len row) : Int) ≤ ((S.topkBlocks * S.blockSize : Nat) : Int) := by
    rw [hlen, htopk, hsize]
    exact Int.ofNat_le.mpr ((Nat.div_le_self seqLen ratio).trans (hlimit seqLen hseq).2)
  have hkeep : ∀ col, col < S.width → ⊥ < rowScore S m row (col / S.blockSize) → m' (.keep row col) = true :=
    fun col hcol hscore => (source_keep hscores hsel hpub hrow hcol).mpr
      ⟨visible_blocks_selected hle hspan (hsel.rowTopK hscores hrow) (S.col_lt_of_div hcol) hscore, hscore⟩
  refine ⟨hkeep, fun n r r' hnlen hnkeep hr hr' col hcol hscore => ?_⟩
  have hcolw : col < S.width := by omega
  obtain ⟨hplain, hfiltered⟩ := twoLevel_consumer he hr hr' hrow hcolw
  have hvis : (col : Int) < n (.len row) := by rw [hnlen, hlen]; exact Int.ofNat_lt.mpr hcol
  rw [hplain, hfiltered, eagerConsumer, eagerLogits_eq, hnkeep, hkeep col hcolw hscore]
  simp [hvis]

/-- `oneRow` with a published mask. -/
def oneRowKept (logits : List (Fin 3)) (length : Int) (keep : Nat → Nat → Bool) :
    Memory (BlockCell.Val (Fin 3))
  | .keep row col => keep row col
  | cell => oneRow logits length cell

/-- Two columns in two blocks, both selected. -/
def bothBlocks : BlockShape := { twoBlocks with topkBlocks := 2 }

theorem bothBlocks_source (logits : List (Fin 3)) : ∃ m', sourceCall bothBlocks (oneRow logits 2) m' ∧
    ∀ col, col < 2 → (m' (.keep 0 col) = true ↔
      (∃ i, i < 2 ∧ i = col / 1) ∧ ⊥ < rowScore bothBlocks (oneRow logits 2) 0 (col / 1)) := by
  have htop : ∀ row, row < 1 →
      IsTopK (rowScore bothBlocks (oneRow logits 2) row) 2 2 ((fun _ i => i) row) :=
    fun row _ => ⟨fun i hi => hi, fun i j _ _ he => he, fun i b _ hb hout => absurd rfl (hout b hb)⟩
  obtain ⟨m', hcall, hkeep⟩ := exists_sourceCall bothBlocks (oneRow logits 2) htop
  exact ⟨m', hcall, fun col hcol => hkeep 0 col (by decide) hcol⟩

/-- A budget and a batch that skip the only indexer. -/
theorem shortBatch_sound : ∃ m', sourceCall bothBlocks (oneRow [1, 1] 2) m' ∧ m' (.keep 0 0) = true := by
  obtain ⟨m', hcall, -⟩ := bothBlocks_source [1, 1]
  obtain ⟨lengths, hlengths, -, hsound⟩ := @elided_graphs_sound (Fin 3) _ _ ⟨2, 1, 2, [1]⟩ true false 0
    ⟨some ⟨true, [2]⟩, none⟩ .candidateAll (by decide) (by decide)
  obtain rfl := Option.some.inj hlengths
  obtain ⟨hkeep, -⟩ := hsound bothBlocks (oneRow [1, 1] 2) m' 0 1 2 (by decide) rfl rfl (by decide) rfl
    (by decide) hcall
  exact ⟨m', hcall, hkeep 0 (by decide) (by decide)⟩

/-- A block whose source logits are all `-inf` is not published: a consumer's number
there survives only where filtering is left out. -/
theorem hidden_block_differs :
    resolveDsaVariant (.init ⟨2, 1, 1, [1]⟩ true false 0) ⟨some ⟨true, [2]⟩, none⟩ = some .candidateUnfiltered ∧
    ∃ (m' n : Memory (BlockCell.Val (Fin 3))) (r r' : Filtered (Fin 3)),
      sourceCall bothBlocks (oneRow [0, 1] 2) m' ∧ n (.len 0) = (2 : Int) ∧
      (∀ col, n (.keep 0 col) = m' (.keep 0 col)) ∧
      TwoLevel bothBlocks (some .candidateUnfiltered) false true n r ∧
      TwoLevel bothBlocks (some .candidateFiltered) false true n r' ∧
      r.logits 0 0 = 1 ∧ r'.logits 0 0 = 0 := by
  refine ⟨by decide, ?_⟩
  obtain ⟨m', hcall, hkeep⟩ := bothBlocks_source [0, 1]
  let n := oneRowKept [1, 1] 2 fun row col => m' (.keep row col)
  obtain ⟨n', hconsumer⟩ := (maskKernel bothBlocks).exists_launch n
  refine ⟨m', n, _, _, hcall, rfl, fun _ => rfl, .elided rfl rfl, .consumer rfl rfl rfl hconsumer, rfl, ?_⟩
  have hout := @maskKernel_output (Fin 3) _ _ bothBlocks n n' 0 hconsumer (by decide) 0 (by decide)
  have hno : m' (.keep 0 0) = false := by
    refine Bool.eq_false_of_not_eq_true fun h => ?_
    exact absurd ((hkeep 0 (by decide)).mp h).2 (by decide)
  exact hout.trans (if_pos hno)

end FlashSpark.L3.Indexer
