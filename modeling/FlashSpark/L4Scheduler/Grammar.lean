import Mathlib

/-!
# Feeding a grammar

`_accept_grammar_tokens` (batch_result_processor.py:789-818) over any grammar: a state,
what a token does to it, and which states are terminated.

* `acceptGrammarTokens`: the loop.
* `Retained`: what it is for. The kept tokens are the run, cut after the token that
  terminates the grammar or before the first one that it rejects, and each of them
  was fed once.
* `acceptGrammarTokens_retained`: the loop does that.
-/
namespace FlashSpark.L4.Scheduler

abbrev Token := Int

/-- A grammar. `acceptToken` gives `false` where `accept_token` raises `ValueError`, with
whatever state it leaves. -/
structure Automaton (G : Type) where
  acceptToken : G → Token → Bool × G
  isTerminated : G → Bool

/-- What the loop retained, the grammar after it, and whether it raised. -/
structure Accepted (G : Type) where
  retained : List Token
  grammar : G
  rejected : Bool

/-- mirrors batch_result_processor.py:803-818 -/
def acceptGrammarTokens {G : Type} (A : Automaton G) : G → List Token → Accepted G
  | g, [] => ⟨[], g, false⟩
  | g, tokenId :: tokens =>
    let (ok, g') := A.acceptToken g tokenId
    if ok = false then ⟨[], g', true⟩
    else if A.isTerminated g' = true then ⟨[tokenId], g', false⟩
    else
      let rest := acceptGrammarTokens A g' tokens
      { rest with retained := tokenId :: rest.retained }

/-- The grammar after all of `tokens`, none of them rejected. -/
def feed {G : Type} (A : Automaton G) : G → List Token → Option G
  | g, [] => some g
  | g, tokenId :: tokens =>
    let (ok, g') := A.acceptToken g tokenId
    if ok = false then none else feed A g' tokens

/-- `kept` are the tokens of `run` that the grammar takes: it was fed the tokens of `fed`,
one after the other and each once, and stopped for one of three reasons. -/
structure Retained {G : Type} (A : Automaton G) (g : G) (run kept fed : List Token) (g' : G)
    (rejected : Bool) : Prop where
  initial : fed <+: run
  stopped : kept = fed ∧ rejected = false ∧ feed A g fed = some g' ∧
      (fed = run ∨ fed ≠ [] ∧ A.isTerminated g' = true) ∨
    rejected = true ∧ ∃ t gk, fed = kept ++ [t] ∧ feed A g kept = some gk ∧ A.acceptToken gk t = (false, g')
  running : ∀ p, p ≠ [] → p <+: fed → p ≠ fed → ∀ gp, feed A g p = some gp → A.isTerminated gp = false

variable {G : Type} {A : Automaton G}

theorem Retained.kept_initial {g g' : G} {run kept fed : List Token} {rejected : Bool}
    (h : Retained A g run kept fed g' rejected) : kept <+: run := by
  rcases h.stopped with ⟨rfl, -⟩ | ⟨-, t, gk, rfl, -⟩
  · exact h.initial
  · exact (List.prefix_append kept [t]).trans h.initial

/-- One token in front. -/
theorem Retained.cons {g g₁ g' : G} {t : Token} {run kept fed : List Token} {rejected : Bool}
    (hok : A.acceptToken g t = (true, g₁)) (hrun : A.isTerminated g₁ = false)
    (h : Retained A g₁ run kept fed g' rejected) :
    Retained A g (t :: run) (t :: kept) (t :: fed) g' rejected where
  initial := (List.prefix_cons_inj t).mpr h.initial
  stopped := by
    have hfeed : ∀ p, feed A g (t :: p) = feed A g₁ p := fun p => by simp [feed, hok]
    rcases h.stopped with ⟨rfl, hr, hg, hend⟩ | ⟨hr, t', gk, rfl, hg, hrej⟩
    · refine Or.inl ⟨rfl, hr, (hfeed _).trans hg, ?_⟩
      rcases hend with rfl | ⟨-, hterm⟩
      · exact Or.inl rfl
      · exact Or.inr ⟨List.cons_ne_nil _ _, hterm⟩
    · exact Or.inr ⟨hr, t', gk, rfl, (hfeed _).trans hg, hrej⟩
  running := by
    intro p hne hp hfed gp hgp
    cases p with
    | nil => exact absurd rfl hne
    | cons a p =>
      obtain ⟨rfl, htail⟩ := List.cons_prefix_cons.mp hp
      have hfeed : feed A g₁ p = some gp := by simpa [feed, hok] using hgp
      by_cases hnil : p = []
      · subst hnil
        obtain rfl := Option.some.inj hfeed
        exact hrun
      · exact h.running p hnil htail (fun he => hfed (he ▸ rfl)) gp hfeed

/-- The loop keeps what the grammar takes. -/
theorem acceptGrammarTokens_retained (A : Automaton G) (g : G) (run : List Token) :
    ∃ fed, Retained A g run (acceptGrammarTokens A g run).retained fed (acceptGrammarTokens A g run).grammar
      (acceptGrammarTokens A g run).rejected := by
  induction run generalizing g with
  | nil =>
    exact ⟨[], List.nil_prefix, Or.inl ⟨rfl, rfl, rfl, Or.inl rfl⟩,
      fun p hne hp => absurd (List.prefix_nil.mp hp) hne⟩
  | cons t run ih =>
    have hone : ∀ p : List Token, p ≠ [] → p <+: [t] → p = [t] := by
      intro p hne hp
      cases p with
      | nil => exact absurd rfl hne
      | cons a p =>
        obtain ⟨rfl, htail⟩ := List.cons_prefix_cons.mp hp
        rw [List.prefix_nil.mp htail]
    have hfirst : [t] <+: t :: run := (List.prefix_cons_inj t).mpr List.nil_prefix
    rw [acceptGrammarTokens]
    cases haccept : A.acceptToken g t with
    | mk ok g₁ =>
      cases ok with
      | false =>
        exact ⟨[t], hfirst, Or.inr ⟨rfl, t, g, rfl, rfl, haccept⟩,
          fun p hne hp hno => absurd (hone p hne hp) hno⟩
      | true =>
        by_cases hterm : A.isTerminated g₁ = true
        · refine ⟨[t], ?_⟩
          simp only [hterm, reduceCtorEq, if_false, if_true]
          exact ⟨hfirst, Or.inl ⟨rfl, rfl, by simp [feed, haccept], Or.inr ⟨List.cons_ne_nil _ _, hterm⟩⟩,
            fun p hne hp hno => absurd (hone p hne hp) hno⟩
        · obtain ⟨fed, hfed⟩ := ih g₁
          have hrun : A.isTerminated g₁ = false := by simpa using hterm
          refine ⟨t :: fed, ?_⟩
          simp only [hrun, reduceCtorEq, Bool.false_eq_true, if_false]
          exact hfed.cons haccept hrun

end FlashSpark.L4.Scheduler
