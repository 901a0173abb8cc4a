import FlashSpark.L4Scheduler.SpecDecode

/-!
# The lazy advance of a queued batch does nothing

`_resolve_spec_v2_tokens` calls `advance_grammar_fsm` on the queued copy and relies on it
to look at each request's grammar ("self-gates on per-req grammar (the queued batch.copy()
does not carry has_grammar)", batch_result_processor.py:749-753). But `advance_grammar_fsm`
returns at once where the batch does not carry `has_grammar` (line 834), so nothing was
retained, and `result.grammar_retained_tokens[i]` of a live request with a grammar is
`None[i]` (line 768).

Counterexample: one request with a grammar that takes every token.

* `lazy_reqs`: without such a request the lazy run settles what the eager one settles.
* `lazy_raises`: with one it raises `TypeError`.
* `agrees_iff`: exactly when the two agree.
-/
namespace FlashSpark.Bugs.QueuedGrammar
open L4.Scheduler

variable {G X A O W : Type} {P : Processor G X A O W} {live : Batch} {s : State G X A O W} {stride : Nat}
  {lens : List Nat}

/-- The handler on the queued copy of a batch whose grammars were not advanced. -/
def lazily (P : Processor G X A O W) (live : Batch) : Act G X A O W Unit :=
  P.processBatchResultDecode live.queuedCopy

/-- Both orders return with the same requests, every one of them settled. -/
def Agrees (P : Processor G X A O W) (live : Batch) (s : State G X A O W) (stride : Nat)
    (lens : List Nat) : Prop :=
  ∃ s' s'', P.eagerly live s = .ok () s' ∧ lazily P live s = .ok () s'' ∧ s''.reqs = s'.reqs ∧
    ∀ i req, s.reqs[i]? = some req → ∃ req', s'.reqs[i]? = some req' ∧
      Settles P s.result lens stride i req req'

theorem lazy_reqs (h : SpecDecode P live s stride lens)
    (hplain : ∀ req ∈ s.reqs, req.live = true → req.grammar = none) :
    ∃ s', lazily P live s = .ok () s' ∧ s'.reqs = s.reqs.mapIdx (settledBy P s.result lens stride) := by
  have hread : ∀ i req, s.reqs[i]? = some req → req.live = true → ∀ t : Req G X,
      runToSettle s.result (acceptedRun s.result lens stride i) i req t =
        .ok (acceptedRun s.result lens stride i) t := by
    intro i req hreq hlive t
    unfold runToSettle
    rw [hplain req (List.mem_of_getElem? hreq) hlive]
    rfl
  obtain ⟨s', hdecode, hreqs⟩ := @decode_queued G X A O W P s stride lens live.queuedCopy
    (fun i _ => acceptedRun s.result lens stride i) h.overlap h.spec h.noBeam h.shape (Or.inr rfl)
    (failure_none h.healthy) hread
  refine ⟨s', hdecode, hreqs.trans (List.mapIdx_eq_mapIdx_iff.mpr fun i hi => ?_)⟩
  unfold settledBy decodedReq
  rw [advancedReq_live]
  by_cases hlive : s.reqs[i].live = true
  · have hg := hplain s.reqs[i] (List.getElem_mem hi) hlive
    have hrun : committedRun P.grammar s.result lens stride i s.reqs[i] =
        acceptedRun s.result lens stride i := by
      simp only [committedRun, hg]
    rw [if_pos hlive, if_pos hlive, advancedReq_plain hg]
    simp only [hrun]
  · rw [if_neg hlive, if_neg hlive, advancedReq]
    split
    · rfl
    · rw [if_neg hlive]

/-- `None[i]`. -/
theorem settleTurn_raises {result : GenerationResult} (hnone : result.grammarRetainedTokens = none) {i : Nat}
    (hi : i < lens.length) {req : Req G X} (hlive : req.live = true) (hg : req.grammar.isSome = true) :
    settleTurn result result.nextTokenIds.tolist lens stride i req = .error .typeError req := by
  have hraise : runToSettle result (acceptedRun result lens stride i) i req req = .error .typeError req := by
    unfold runToSettle
    rw [if_pos hg, hnone]
    rfl
  unfold settleTurn
  rw [bind_ok (subscript_ok (List.getElem?_eq_getElem hi) req), bind_get, if_neg (live_eq_true.mp hlive),
    acceptedRun_eq hi]
  exact bind_error hraise

/-- The loop of `_resolve_spec_v2_tokens`, with nothing retained for a live request that has a grammar. -/
theorem settle_raises {result : GenerationResult} {reqs : List (Req G X)}
    (hshape : DecodeShape result reqs.length stride lens) (hnone : result.grammarRetainedTokens = none)
    {req : Req G X} (hmem : req ∈ reqs) (hlive : req.live = true) (hg : req.grammar.isSome = true) :
    ∃ reqs', turns (settleTurn (result.counted lens) result.nextTokenIds.tolist lens stride) 0 reqs =
      .error .typeError reqs' := by
  have hnone : (result.counted lens).grammarRetainedTokens = none := hnone
  have hlength : ∀ i, i < reqs.length → i < lens.length := fun i hi => by
    rw [hshape.lens_length]
    exact hi
  obtain ⟨i, hi⟩ := List.getElem?_of_mem hmem
  have hin := hlength i (List.getElem?_eq_some_iff.mp hi).1
  refine turns_raise (fun j req' hreq' => ?_) hi
    ⟨req, by rw [Nat.zero_add]; exact settleTurn_raises hnone hin hlive hg⟩
  rw [Nat.zero_add]
  have hj := (List.getElem?_eq_some_iff.mp hreq').1
  by_cases hlive' : req'.live = true
  · by_cases hg' : req'.grammar.isSome = true
    · exact Or.inr ⟨req', settleTurn_raises hnone (hlength j hj) hlive' hg'⟩
    · have hrun : ∀ t : Req G X, runToSettle result (acceptedRun result lens stride j) j req' t =
          .ok (acceptedRun result lens stride j) t := fun t => by
        unfold runToSettle
        rw [if_neg hg']
        rfl
      exact Or.inl ⟨_, _, settleTurn_counted hshape hj hlive' hrun⟩
  · exact Or.inl ⟨_, req', settleTurn_skips (hlength j hj) (Bool.not_eq_true _ ▸ hlive')⟩

theorem lazy_raises (h : SpecDecode P live s stride lens) {req : Req G X} (hmem : req ∈ s.reqs)
    (hlive : req.live = true) (hg : req.grammar.isSome = true) :
    ∃ s', lazily P live s = .error (.py .typeError) s' := by
  obtain ⟨rest, hdecode⟩ := decode_checked P live.queuedCopy (failure_none (s := s) h.healthy)
  let finalized : State G X A O W := { P.checked s with result := s.result.finalized, rest }
  have hshape : DecodeShape finalized.result finalized.reqs.length stride lens := h.shape.finalized
  obtain ⟨reqs', hloop⟩ := settle_raises hshape h.grammarRetainedTokens hmem hlive hg
  obtain ⟨rest', hresolve⟩ :=
    @resolve_loop G X A O W P finalized stride lens live.queuedCopy hshape (Or.inr rfl)
  have hraised : P.resolveSpecV2Tokens live.queuedCopy finalized = .error (.py .typeError)
      { finalized with reqs := reqs', result := finalized.result.counted lens, rest := rest' } :=
    hresolve.trans (onReqs_error hloop)
  rw [normalize_spec (show live.queuedCopy.specIsNone = false from h.spec)] at hdecode
  exact ⟨_, hdecode.trans (bind_error hraised)⟩

/-- **When the two orders agree.** For every fresh spec-v2 decode result: exactly when no live request
has a grammar. -/
theorem agrees_iff (h : SpecDecode P live s stride lens) :
    Agrees P live s stride lens ↔ ∀ req ∈ s.reqs, req.live = true → req.grammar = none := by
  constructor
  · intro hyp req hmem hlive
    obtain ⟨s', s'', -, hlazy, -⟩ := hyp
    by_contra hsome
    obtain ⟨sr, hraise⟩ := lazy_raises h hmem hlive (Option.isSome_iff_ne_none.mpr hsome)
    rw [hraise] at hlazy
    cases hlazy
  · intro hplain
    obtain ⟨s', heager, hreqs⟩ := eager_reqs h
    obtain ⟨s'', hlazy, hreqs'⟩ := lazy_reqs h hplain
    refine ⟨s', s'', heager, hlazy, hreqs'.trans hreqs.symm, fun i req hreq =>
      ⟨_, ?_, settledBy_settles h.shape ?_ req⟩⟩
    · rw [hreqs, List.getElem?_mapIdx, hreq, Option.map_some]
    · rw [h.shape.lens_length]
      exact (List.getElem?_eq_some_iff.mp hreq).1

/-! ## One request with a grammar, and none that is live -/

/-- A processor without RoCE runtimes; its grammar takes every token and never terminates. -/
def demo : Processor Unit Unit Unit Unit Unit where
  isGeneration := true
  enableOverlap := true
  enableOverlapMlx := false
  grammar := ⟨fun g _ => (true, g), fun _ => false⟩
  health _ _ := none
  freeGroupBegin := id
  freeGroupEnd := id
  finalize _ := id
  onVerifyCompleteCpu _ _ := id
  reportDecode := id
  commitBeams := id
  beamTurn _ := id
  finishTurn _ _ := id
  streamOutput _ _ := id
  streamIdle _ _ := id
  consumeGeneration _ := pure ()
  consumeEmbedding _ := pure ()

def request (grammar : Option Unit) (isRetracted : Bool) : Req Unit Unit :=
  ⟨[], 10, 0, 0, [], 0, 0, [], grammar, false, none, none, isRetracted, 0, false, ()⟩

def decodeBatch : Batch := ⟨⟨true, false⟩, true, false, false⟩

/-- Rows of two columns, of which each request accepted one. -/
def decoded (reqs : List (Req Unit Unit)) : State Unit Unit Unit Unit Unit :=
  ⟨reqs, ⟨⟨true, [7, 0, 8, 0]⟩, some ⟨true, reqs.map fun _ => 1⟩, some 2, none, 1, none, none, none, none, none,
    0, 0, 0, false, none⟩, (), (), [], 0, ()⟩

theorem decoded_specDecode (reqs : List (Req Unit Unit)) (hbeam : ∀ req ∈ reqs, req.hasBeamGroup = false) :
    SpecDecode demo decodeBatch (decoded reqs) 2 (reqs.map fun _ => 1) where
  overlap := rfl
  spec := rfl
  decode := rfl
  hasGrammar _ _ _ := rfl
  noBeam := hbeam
  shape := ⟨rfl, rfl, List.length_map _, rfl, by simp, fun _ h => (by cases h), fun _ h => (by cases h)⟩
  grammarAdvanced := rfl
  grammarRetainedTokens := rfl
  healthy _ _ := rfl

theorem one_grammar_disagrees :
    SpecDecode demo decodeBatch (decoded [request (some ()) false]) 2 [1] ∧
      (∃ s', lazily demo decodeBatch (decoded [request (some ()) false]) = .error (.py .typeError) s') ∧
      ¬Agrees demo decodeBatch (decoded [request (some ()) false]) 2 [1] := by
  have hspec := decoded_specDecode [request (some ()) false] (by simp [request])
  obtain ⟨s', hraise⟩ := lazy_raises hspec (List.mem_singleton_self _) rfl rfl
  refine ⟨hspec, ⟨s', hraise⟩, fun h => ?_⟩
  obtain ⟨_, s'', -, hlazy, -⟩ := h
  rw [hraise] at hlazy
  cases hlazy

theorem retracted_grammar_agrees :
    Agrees demo decodeBatch (decoded [request none false, request (some ()) true]) 2 [1, 1] :=
  (agrees_iff (decoded_specDecode [request none false, request (some ()) true] (by simp [request]))).mpr
    (by simp [decoded, request, Req.live])

end FlashSpark.Bugs.QueuedGrammar
