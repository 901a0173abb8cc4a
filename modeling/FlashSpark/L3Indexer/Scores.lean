import Mathlib

/-!
# Indexer scores

The scores of the sparse-attention indexer, NaN included, and `_mask_topk_scores`
(deepseek_v4_backend.py:334-347), which takes back what a top-k selected from
columns that are out of bounds or masked.

* `Selectable`: the column is in bounds and its score is above `-inf`.
* `maskTopkScores_eq`: exactly these selections are kept.
-/
namespace FlashSpark.L3.Indexer

/-- A float: `none` is NaN, `⊥` is `-inf` and `⊤` is `inf`. -/
abbrev Score (F : Type) := Option F

variable {F : Type} [LinearOrder F] [BoundedOrder F]

def negInf : Score F := some ⊥

/-- `a > b`, which no NaN fulfils. -/
def Score.gt : Score F → Score F → Bool
  | some a, some b => decide (b < a)
  | _, _ => false

theorem gt_negInf_iff {s : Score F} : Score.gt s negInf = true ↔ ∃ a, s = some a ∧ a ≠ ⊥ := by
  cases s with
  | none => simp [Score.gt]
  | some a => simp [Score.gt, negInf, bot_lt_iff_ne_bot]

/-- One entry of `x.gather(1, i)`, a row of `width` columns; out of bounds raises. -/
def gather {α : Type} (x : Nat → α) (width : Nat) (i : Int) : Option α :=
  if 0 ≤ i ∧ i < width then some (x i.toNat) else none

theorem gather_of_lt {α : Type} {x : Nat → α} {width : Nat} {i : Int} (h0 : 0 ≤ i) (h : i < width) :
    gather x width i = some (x i.toNat) := if_pos ⟨h0, h⟩

/-- One entry of a row.
mirrors deepseek_v4_backend.py:334-347 (`_mask_topk_scores`) -/
def maskTopkScores (scores : Nat → Score F) (width : Nat) (index : Int) (offset : Option Int) :
    Option Int := do
  let column := index - offset.getD 0
  let selectedScore ← gather scores width (min (max column 0) (width - 1))
  let valid := 0 ≤ column ∧ column < width ∧ Score.gt selectedScore negInf = true
  pure (if valid then index else -1)

def Selectable (scores : Nat → Score F) (width : Nat) (column : Int) : Prop :=
  0 ≤ column ∧ column < width ∧ Score.gt (scores column.toNat) negInf = true

instance (scores : Nat → Score F) (width : Nat) (column : Int) :
    Decidable (Selectable scores width column) := inferInstanceAs (Decidable (_ ∧ _ ∧ _))

theorem maskTopkScores_eq {scores : Nat → Score F} {width : Nat} (hw : 0 < width) (index : Int)
    (offset : Option Int) : maskTopkScores scores width index offset =
      some (if Selectable scores width (index - offset.getD 0) then index else -1) := by
  unfold maskTopkScores
  generalize index - offset.getD 0 = column
  dsimp only
  rw [gather_of_lt (by omega) (by omega)]
  by_cases hin : 0 ≤ column ∧ column < width
  · -- an in-bounds column is not clamped
    rw [show min (max column 0) ((width : Int) - 1) = column by omega]
    rfl
  · have hno : ¬Selectable scores width column := fun h => hin ⟨h.1, h.2.1⟩
    rw [if_neg hno]
    simp only [Option.bind_eq_bind, Option.bind_some, Option.pure_def, Option.some.injEq]
    exact if_neg fun h => hin ⟨h.1, h.2.1⟩

end FlashSpark.L3.Indexer
