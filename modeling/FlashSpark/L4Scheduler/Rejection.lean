import FlashSpark.L4Scheduler.BatchResult

/-!
# When a health check fails

What the handlers of a batch result have changed when `synchronize_and_check_roce` raises.
`advance_grammar_fsm` and the idle handler check before they change anything
(`advance_health`, `idle_health`). The decode handler checks twice: first of all, and again
in `advance_grammar_fsm`, by then with the result finalized and counted (`decode_health`).
The prefill handler opens a free group before its check (`prefill_health`).
-/
namespace FlashSpark.L4.Scheduler

variable {G X A O W : Type} {P : Processor G X A O W} {batch : Batch} {s s' : State G X A O W} {msg : String}

/-- No health check fails in it. -/
def NoHealth {α : Type} (x : Act G X A O W α) : Prop := ∀ s msg s', x s ≠ .error (.health msg) s'

namespace NoHealth
variable {α β : Type}

theorem apply {x : Act G X A O W α} (h : NoHealth x) : ¬x s = .error (.health msg) s' := h s msg s'

theorem bind {x : Act G X A O W α} {f : α → Act G X A O W β} (hx : NoHealth x) (hf : ∀ a, NoHealth (f a)) :
    NoHealth (x >>= f) := by
  intro s msg s' h
  rcases bind_raised h with h | ⟨a, s₁, -, h⟩
  · exact hx s msg s' h
  · exact hf a s₁ msg s' h

theorem pure {a : α} : NoHealth (pure a : Act G X A O W α) := fun _ _ _ h => nomatch h

theorem modify {f : State G X A O W → State G X A O W} : NoHealth (modify f : Act G X A O W PUnit) :=
  fun _ _ _ h => nomatch h

/-- What raises errors of its own kind only. -/
theorem zoom {τ : Type} {get : State G X A O W → τ} {set : τ → State G X A O W → State G X A O W}
    {x : EStateM PyError τ α} : NoHealth (zoom get set .py x) := by
  intro s msg s' h
  unfold FlashSpark.zoom at h
  cases hx : x (get s) with
  | ok a t => rw [hx] at h; cases h
  | error e t => rw [hx] at h; cases h

theorem onReqs {x : EStateM PyError (List (Req G X)) α} : NoHealth (onReqs x : Act G X A O W α) := zoom

theorem ofExcept {x : Except PyError α} : NoHealth (ofExcept x : Act G X A O W α) := by
  intro s msg s' h
  unfold Scheduler.ofExcept at h
  cases x <;> cases h

end NoHealth

theorem commitDecode_noHealth (nextTokenIds : List (List Token)) :
    NoHealth (P.commitDecode batch nextTokenIds) := by
  unfold Processor.commitDecode
  refine .bind .modify fun _ => ?_
  split
  · exact .bind .modify fun _ => .bind .onReqs fun _ => .modify
  · exact .bind .onReqs fun _ => .modify

/-- A check that fails has touched the runtimes before the failed one only. -/
theorem check_health (h : P.synchronizeAndCheckRoce s = .error (.health msg) s') :
    P.failure s = some msg ∧ s' = P.checked s := by
  unfold Processor.synchronizeAndCheckRoce at h
  cases hf : P.failure s with
  | none => rw [hf] at h; cases h
  | some m =>
    rw [hf] at h
    obtain ⟨he, rfl⟩ := EStateM.Result.error.inj h
    obtain rfl := Raised.health.inj he
    exact ⟨rfl, rfl⟩

/-- `advance_grammar_fsm` makes its check. -/
structure Advances (batch : Batch) (result : GenerationResult) : Prop where
  grammarAdvanced : result.grammarAdvanced = false
  hasGrammar : batch.hasGrammar = true
  mode : (batch.forwardMode.isDecode || batch.forwardMode.isExtend) = true

theorem Advances.counted_iff {result : GenerationResult} {lens : List Nat} :
    Advances batch (result.counted lens) ↔ Advances batch result :=
  ⟨fun h => ⟨h.grammarAdvanced, h.hasGrammar, h.mode⟩, fun h => ⟨h.grammarAdvanced, h.hasGrammar, h.mode⟩⟩

theorem Advances.finalized_iff {result : GenerationResult} :
    Advances batch result.finalized ↔ Advances batch result :=
  ⟨fun h => ⟨h.grammarAdvanced, h.hasGrammar, h.mode⟩, fun h => ⟨h.grammarAdvanced, h.hasGrammar, h.mode⟩⟩

/-- `_resolve_spec_v2_tokens` reaches the check of `advance_grammar_fsm`. -/
structure SecondCheck (batch : Batch) (result : GenerationResult) (lens : List Nat) : Prop where
  spec : batch.specIsNone = false
  nextTokenIds : result.nextTokenIds.isCpu = true
  acceptLens : result.acceptLens = some ⟨true, lens⟩
  stride : ∃ stride, getSpeculativeOutputStride result = .ok stride
  advances : Advances batch result

theorem SecondCheck.finalized_iff {result : GenerationResult} {lens : List Nat} :
    SecondCheck batch result.finalized lens ↔ SecondCheck batch result lens :=
  ⟨fun h => ⟨h.spec, h.nextTokenIds, h.acceptLens, h.stride, Advances.finalized_iff.mp h.advances⟩,
    fun h => ⟨h.spec, h.nextTokenIds, h.acceptLens, h.stride, Advances.finalized_iff.mpr h.advances⟩⟩

/-! ## The functions that check -/

theorem advance_health (h : P.advanceGrammarFsm batch s = .error (.health msg) s') :
    Advances batch s.result ∧ P.failure s = some msg ∧ s' = P.checked s := by
  unfold Processor.advanceGrammarFsm at h
  rw [bind_get] at h
  dsimp only at h
  split at h
  · cases h
  · rename_i hfresh
    obtain ⟨hadvanced, hgrammar⟩ := Bool.or_eq_false_iff.mp (Bool.not_eq_true _ ▸ hfresh)
    split at h
    · cases h
    · rename_i hmode
      rw [Bool.not_eq_true', Bool.not_eq_false] at hmode
      refine ⟨⟨hadvanced, by simpa using hgrammar, hmode⟩, ?_⟩
      rcases bind_raised h with h | ⟨_, s₁, -, h⟩
      · exact check_health h
      · -- nothing behind the check fails a health check
        refine absurd h (NoHealth.apply ?_)
        split
        · exact .bind .onReqs fun _ => .modify
        · split
          · exact .pure
          · exact .bind .ofExcept fun _ => .bind .onReqs fun _ => .modify

theorem advance_raises (h : Advances batch s.result) (hfail : P.failure s = some msg) :
    P.advanceGrammarFsm batch s = .error (.health msg) (P.checked s) := by
  unfold Processor.advanceGrammarFsm
  rw [bind_get]
  dsimp only
  rw [h.grammarAdvanced, h.hasGrammar, if_neg (by simp), h.mode, if_neg (by simp)]
  exact bind_error (check_error hfail)

theorem resolve_health (hspec : batch.specIsNone = false)
    (h : P.resolveSpecV2Tokens batch s = .error (.health msg) s') :
    ∃ lens rest, SecondCheck batch s.result lens ∧ P.failure s = some msg ∧
      s' = P.checked { s with result := s.result.counted lens, rest } := by
  unfold Processor.resolveSpecV2Tokens at h
  rw [bind_get] at h
  dsimp only at h
  split at h
  · cases h
  · rename_i hids
    cases hlens : s.result.acceptLens with
    | none =>
      rw [hlens] at h
      cases h
    | some lens =>
      rw [hlens] at h
      dsimp only at h
      split at h
      · cases h
      · rename_i hcpu
        rcases bind_raised h with h | ⟨stride, s₁, hread, h⟩
        · exact absurd h NoHealth.ofExcept.apply
        · obtain ⟨hstride, rfl⟩ := ofExcept_returned hread
          rw [bind_modify] at h
          rcases bind_raised h with h | ⟨_, s₂, -, h⟩
          · obtain ⟨hadvances, hfail, rfl⟩ := advance_health h
            have hids : s.result.nextTokenIds.isCpu = true := by simpa using hids
            have hcpu : lens.isCpu = true := by simpa using hcpu
            refine ⟨lens.tolist, _, ⟨hspec, hids, ?_, ⟨stride, hstride⟩, Advances.counted_iff.mp hadvances⟩,
              hfail, rfl⟩
            rw [hlens, ← hcpu]
          · rw [bind_get] at h
            exact absurd h NoHealth.onReqs.apply

theorem resolve_raises {lens : List Nat} (h : SecondCheck batch s.result lens)
    (hfail : P.failure s = some msg) :
    ∃ s', P.resolveSpecV2Tokens batch s = .error (.health msg) s' ∧ s'.result = s.result.counted lens := by
  obtain ⟨stride, hstride⟩ := h.stride
  obtain ⟨rest, hcounted⟩ := resolve_counted P batch h.nextTokenIds h.acceptLens hstride
  let counted : State G X A O W := { s with result := s.result.counted lens, rest }
  have hadvance : P.advanceGrammarFsm batch counted = .error (.health msg) (P.checked counted) :=
    advance_raises (Advances.counted_iff.mpr h.advances) hfail
  refine ⟨P.checked counted, ?_, rfl⟩
  rw [hcounted]
  exact bind_error hadvance

/-! ## The handlers -/

theorem idle_health (h : P.processBatchResultIdle batch s = .error (.health msg) s') : s' = P.checked s := by
  unfold Processor.processBatchResultIdle at h
  rcases bind_raised h with h | ⟨_, s₁, -, h⟩
  · exact (check_health h).2
  · exact absurd h NoHealth.modify.apply

theorem consumePrefill_health (h : P.consumePrefill batch s = .error (.health msg) s') :
    P.failure s = some msg ∧ s' = P.checked s := by
  unfold Processor.consumePrefill at h
  split at h
  · rcases bind_raised h with h | ⟨_, s₁, -, h⟩
    · exact check_health h
    · exact absurd h NoHealth.zoom.apply
  · rcases bind_raised h with h | ⟨_, s₁, -, h⟩
    · exact check_health h
    · exact absurd h NoHealth.zoom.apply

/-- The prefill handler, for generation and embedding alike. -/
theorem prefill_health (h : P.processBatchResultPrefill batch s = .error (.health msg) s') :
    P.failure s = some msg ∧ s' = P.checked { s with allocator := P.freeGroupBegin s.allocator } := by
  unfold Processor.processBatchResultPrefill at h
  rw [bind_modify] at h
  rcases bind_raised h with h | ⟨_, s₁, -, h⟩
  · exact consumePrefill_health h
  · exact absurd h NoHealth.modify.apply

theorem prefill_raises (h : P.failure s = some msg) : P.processBatchResultPrefill batch s =
    .error (.health msg) (P.checked { s with allocator := P.freeGroupBegin s.allocator }) := by
  have hcheck : P.consumePrefill batch { s with allocator := P.freeGroupBegin s.allocator } =
      .error (.health msg) (P.checked { s with allocator := P.freeGroupBegin s.allocator }) := by
    unfold Processor.consumePrefill
    split
    · exact bind_error (check_error h)
    · exact bind_error (check_error h)
  unfold Processor.processBatchResultPrefill
  rw [bind_modify]
  exact bind_error hcheck

/-- The decode handler: at its first check, or at that of `advance_grammar_fsm`. -/
theorem decode_health (h : P.processBatchResultDecode batch s = .error (.health msg) s') :
    (P.failure s = some msg ∧ s' = P.checked s) ∨
      P.failure s = none ∧ P.failure (P.checked s) = some msg ∧ ∃ lens rest, SecondCheck batch s.result lens ∧
        s' = P.checked { P.checked s with result := s.result.finalized.counted lens, rest } := by
  cases hf : P.failure s with
  | some m =>
    unfold Processor.processBatchResultDecode at h
    rcases bind_raised h with h | ⟨_, s₁, hok, -⟩
    · rw [← hf]
      exact Or.inl (check_health h)
    · rw [check_error hf] at hok
      cases hok
  | none =>
    obtain ⟨rest, hdecode⟩ := decode_checked P batch hf
    rw [hdecode] at h
    refine Or.inr ⟨rfl, ?_⟩
    rcases bind_raised h with h | ⟨_, s₁, -, h⟩
    · by_cases hspec : batch.specIsNone = false
      · rw [normalize_spec hspec] at h
        obtain ⟨lens, rest', hsecond, hfail, rfl⟩ := resolve_health hspec h
        exact ⟨hfail, lens, rest', SecondCheck.finalized_iff.mp hsecond, rfl⟩
      · have hnone : batch.specIsNone = true := by simpa using hspec
        unfold Processor.normalizeDecodeOutputs at h
        rw [hnone] at h
        cases h
    · exact absurd h (commitDecode_noHealth _).apply

theorem decode_raises_second {lens : List Nat} (h : P.failure s = none)
    (hfail : P.failure (P.checked s) = some msg) (hsecond : SecondCheck batch s.result lens) :
    ∃ s', P.processBatchResultDecode batch s = .error (.health msg) s' ∧
      s'.result = s.result.finalized.counted lens := by
  obtain ⟨rest, hdecode⟩ := decode_checked P batch h
  let finalized : State G X A O W := { P.checked s with result := s.result.finalized, rest }
  have hsecond' : SecondCheck batch finalized.result lens := SecondCheck.finalized_iff.mpr hsecond
  obtain ⟨s', hraise, hresult⟩ := @resolve_raises G X A O W P batch finalized msg lens hsecond' hfail
  refine ⟨s', ?_, hresult⟩
  rw [hdecode, normalize_spec hsecond.spec]
  exact bind_error hraise

end FlashSpark.L4.Scheduler
