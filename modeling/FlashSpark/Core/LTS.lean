import Mathlib

/-!
# Labelled transition systems and inductive invariants

The inductions about runs. A predicate that holds initially and is kept by every
step holds in every reachable state (`LTS.Inductive.reachable`): a safety theorem
is this rule applied to a named invariant. And where every state short of a goal
has a run that lowers a measure, the goal can be reached (`LTS.exists_run_of_lt`).
Where two steps of a state always commute, one run that ends stuck decides every
other run (`LTS.Run.settles`), and any two runs can be carried on to one state
(`LTS.Run.joins`).
-/
namespace FlashSpark

structure LTS (S L : Type*) where
  init : S → Prop
  step : S → L → S → Prop

namespace LTS
variable {S L : Type*} (M : LTS S L)

inductive Run : S → List L → S → Prop where
  | nil (s : S) : Run s [] s
  | cons {s s₁ s' : S} {l : L} {ls : List L} : M.step s l s₁ → Run s₁ ls s' → Run s (l :: ls) s'

def Reachable (s : S) : Prop := ∃ s₀ ls, M.init s₀ ∧ M.Run s₀ ls s

/-- `P` holds initially and every step keeps it. -/
structure Inductive (P : S → Prop) : Prop where
  init : ∀ s, M.init s → P s
  step : ∀ s l s', P s → M.step s l s' → P s'

/-- A system whose labels determine its steps. -/
def ofFn (init : S → Prop) (f : S → L → Option S) : LTS S L := ⟨init, fun s l s' => f s l = some s'⟩

variable {M}

/-- Executing the labels one by one is a run. -/
theorem run_of_foldlM {init : S → Prop} {f : S → L → Option S} {ls : List L} {s s' : S}
    (h : ls.foldlM f s = some s') : (ofFn init f).Run s ls s' := by
  induction ls generalizing s with
  | nil => obtain rfl := Option.some.inj h; exact .nil s
  | cons l ls ih =>
    rw [List.foldlM_cons] at h
    obtain ⟨s₁, h₁, h₂⟩ := Option.bind_eq_some_iff.mp h
    exact .cons h₁ (ih h₂)

/-- A step-closed predicate is kept by a whole run, whatever its first state. -/
theorem Run.keeps {P : S → Prop} (hstep : ∀ s l s', P s → M.step s l s' → P s') {s s' : S}
    {ls : List L} (hr : M.Run s ls s') (hs : P s) : P s' := by
  induction hr with
  | nil => exact hs
  | cons h _ ih => exact ih (hstep _ _ _ hs h)

theorem Inductive.reachable {P : S → Prop} (hP : M.Inductive P) (s : S) (h : M.Reachable s) :
    P s := by
  obtain ⟨s₀, ls, h₀, hr⟩ := h
  exact hr.keeps hP.step (hP.init s₀ h₀)

theorem Run.snoc {s s₁ s' : S} {ls : List L} {l : L} (hr : M.Run s ls s₁) (h : M.step s₁ l s') :
    M.Run s (ls ++ [l]) s' := by
  induction hr with
  | nil => exact .cons h (.nil _)
  | cons h₁ _ ih => exact .cons h₁ (ih h)

theorem Reachable.step {s s' : S} {l : L} (h : M.Reachable s) (hs : M.step s l s') :
    M.Reachable s' := by
  obtain ⟨s₀, ls, h₀, hr⟩ := h
  exact ⟨s₀, ls ++ [l], h₀, hr.snoc hs⟩

theorem Run.append {s s₁ s' : S} {ls ls' : List L} (h : M.Run s ls s₁) (h' : M.Run s₁ ls' s') :
    M.Run s (ls ++ ls') s' := by
  induction h with
  | nil => exact h'
  | cons h₁ _ ih => exact .cons h₁ (ih h')

theorem Run.head {s s' : S} {l : L} {ls : List L} (h : M.Run s (l :: ls) s') :
    ∃ s₁, M.step s l s₁ ∧ M.Run s₁ ls s' := by
  cases h with
  | cons hstep hrest => exact ⟨_, hstep, hrest⟩

/-- A run of two parts. -/
theorem Run.split {s s' : S} {ls ms : List L} (h : M.Run s (ls ++ ms) s') :
    ∃ s₁, M.Run s ls s₁ ∧ M.Run s₁ ms s' := by
  induction ls generalizing s with
  | nil => exact ⟨s, .nil s, h⟩
  | cons l ls ih =>
    obtain ⟨s₀, hstep, hrest⟩ := h.head
    obtain ⟨s₁, hls, hms⟩ := ih hrest
    exact ⟨s₁, .cons hstep hls, hms⟩

theorem Reachable.run {s s' : S} {ls : List L} (h : M.Reachable s) (hr : M.Run s ls s') :
    M.Reachable s' := by
  obtain ⟨s₀, ls₀, h₀, hr₀⟩ := h
  exact ⟨s₀, ls₀ ++ ls, h₀, hr₀.append hr⟩

/-- Where every state short of the goal has a run that lowers a measure, the goal
can be reached. -/
theorem exists_run_of_lt {P Goal : S → Prop} (μ : S → Nat)
    (h : ∀ s, P s → Goal s ∨ ∃ ls s', M.Run s ls s' ∧ P s' ∧ μ s' < μ s) {s : S} (hs : P s) :
    ∃ ls s', M.Run s ls s' ∧ P s' ∧ Goal s' := by
  induction hμ : μ s using Nat.strong_induction_on generalizing s with
  | _ n ih =>
    rcases h s hs with hgoal | ⟨ls, s₁, hr, hs₁, hlt⟩
    · exact ⟨[], s, .nil s, hs, hgoal⟩
    · obtain ⟨ls', s', hr', hs', hgoal⟩ := ih _ (hμ ▸ hlt) hs₁ rfl
      exact ⟨ls ++ ls', s', hr.append hr', hs', hgoal⟩

/-- Two steps of one state lead to a common state in one more step each, unless they
are the same step. -/
def Diamond (M : LTS S L) : Prop :=
  ∀ s l a l' b, M.step s l a → M.step s l' b → a = b ∨ ∃ m d m', M.step a m d ∧ M.step b m' d

/-- No step is left. -/
def Stuck (M : LTS S L) (s : S) : Prop := ∀ l s', ¬ M.step s l s'

/-- A run that ends stuck can be taken after any first step, and is one step shorter then. -/
theorem Run.after_step (hd : M.Diamond) {s e a : S} {ls : List L} {l : L} (hr : M.Run s ls e)
    (he : M.Stuck e) (ha : M.step s l a) : ∃ ms, M.Run a ms e ∧ ms.length + 1 = ls.length := by
  induction hr generalizing a l with
  | nil s => exact absurd ha (he l a)
  | cons h₁ hr ih =>
    rcases hd _ _ _ _ _ h₁ ha with rfl | ⟨m, d, m', hd₁, hd₂⟩
    · exact ⟨_, hr, rfl⟩
    · obtain ⟨ms, hms, hlen⟩ := ih he hd₁
      exact ⟨m' :: ms, .cons hd₂ hms, by simp only [List.length_cons]; omega⟩

/-- With the diamond property one run that ends stuck decides all of them: every run can
be carried on to the same end, and the number of steps is always the same. -/
theorem Run.settles (hd : M.Diamond) {s e s' : S} {ls ls' : List L} (hr : M.Run s ls e)
    (he : M.Stuck e) (hr' : M.Run s ls' s') :
    ∃ ms, M.Run s' ms e ∧ ls'.length + ms.length = ls.length := by
  induction hr' generalizing ls with
  | nil s => exact ⟨ls, hr, by simp⟩
  | cons h _ ih =>
    obtain ⟨ms, hms, hlen⟩ := hr.after_step hd he h
    obtain ⟨ns, hns, hlen'⟩ := ih hms
    exact ⟨ns, hns, by simp only [List.length_cons]; omega⟩

/-- The end of a run and a first step taken in its place, in one step at most. -/
theorem Run.strip (hd : M.Diamond) {s e a : S} {ls : List L} {l : L} (hr : M.Run s ls e)
    (ha : M.step s l a) : ∃ ms d, M.Run a ms d ∧ (d = e ∨ ∃ m, M.step e m d) := by
  induction hr generalizing a l with
  | nil s => exact ⟨[], a, .nil a, .inr ⟨l, ha⟩⟩
  | cons h₁ hr ih =>
    rcases hd _ _ _ _ _ h₁ ha with rfl | ⟨m, d, m', hd₁, hd₂⟩
    · exact ⟨_, _, hr, .inl rfl⟩
    · obtain ⟨ms, d', hms, he⟩ := ih hd₁
      exact ⟨m' :: ms, d', .cons hd₂ hms, he⟩

/-- With the diamond property two runs from one state can be carried on to a common one. -/
theorem Run.joins (hd : M.Diamond) {s a b : S} {ls ls' : List L} (hr : M.Run s ls a)
    (hr' : M.Run s ls' b) : ∃ ms ms' d, M.Run a ms d ∧ M.Run b ms' d := by
  induction hr' generalizing ls a with
  | nil s => exact ⟨[], ls, a, .nil a, hr⟩
  | cons h _ ih =>
    obtain ⟨ms, d, hms, hend⟩ := hr.strip hd h
    obtain ⟨ns, ns', d', hns, hns'⟩ := ih hms
    rcases hend with rfl | ⟨m, hm⟩
    · exact ⟨ns, ns', d', hns, hns'⟩
    · exact ⟨m :: ns, ns', d', .cons hm hns, hns'⟩

end LTS
end FlashSpark
