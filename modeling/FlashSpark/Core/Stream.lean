import FlashSpark.Core.LTS

/-!
# In-order streams

A host issues operations on a stream; the device runs them later, in the order they were
issued. While a graph is captured operations are recorded instead, and a replay issues
what was recorded. `Stream` is the host's side, over operations or over whole calls:
`expand` turns the calls into their operations, and `Behind` says how far the device is.

* `Atomic`: calls whose operations, run one after the other, have an effect of their own,
  and none before the last of them.
* `Atomic.run`: then whatever part of a sequence of calls has run, the effect is that of
  its first calls, each taken at once.
-/
namespace FlashSpark

structure Stream (α : Type) where
  queue : List α
  capture : Option (List α)
  graphs : List (List α)

namespace Stream
variable {α β : Type}

def empty : Stream α := ⟨[], none, []⟩

def issue (s : Stream α) (xs : List α) : Stream α :=
  match s.capture with
  | none => { s with queue := s.queue ++ xs }
  | some g => { s with capture := some (g ++ xs) }

def beginCapture (s : Stream α) : Stream α := { s with capture := some [] }

def endCapture (s : Stream α) : Stream α :=
  match s.capture with
  | none => s
  | some g => { s with capture := none, graphs := s.graphs ++ [g] }

def replay (s : Stream α) (i : Nat) : Stream α := s.issue (s.graphs.getD i [])

/-- Calls as their operations. -/
def expand (f : α → List β) (s : Stream α) : Stream β :=
  ⟨s.queue.flatMap f, s.capture.map (List.flatMap f), s.graphs.map (List.flatMap f)⟩

variable {f : α → List β}

theorem expand_issue (s : Stream α) (xs : List α) :
    (s.issue xs).expand f = (s.expand f).issue (xs.flatMap f) := by
  cases h : s.capture with
  | none => simp [issue, expand, h]
  | some g => simp [issue, expand, h]

theorem expand_endCapture (s : Stream α) : s.endCapture.expand f = (s.expand f).endCapture := by
  cases h : s.capture with
  | none => simp [endCapture, expand, h]
  | some g => simp [endCapture, expand, h]

theorem expand_replay (s : Stream α) (i : Nat) : (s.replay i).expand f = (s.expand f).replay i := by
  rw [replay, expand_issue, replay]
  congr 1
  simp only [expand, List.getD_eq_getElem?_getD, List.getElem?_map]
  cases s.graphs[i]? with
  | none => rfl
  | some g => rfl

theorem issue_nil (s : Stream α) : s.issue [] = s := by
  obtain ⟨queue, capture, graphs⟩ := s
  cases capture with
  | none => simp [issue]
  | some g => simp [issue]

theorem issue_issue (s : Stream α) (xs ys : List α) : (s.issue xs).issue ys = s.issue (xs ++ ys) := by
  cases h : s.capture with
  | none => simp [issue, h]
  | some g => simp [issue, h]

/-- `s` is `t` after the device has run the operations of `done`. -/
structure Behind (done : List α) (s t : Stream α) : Prop where
  queue : t.queue = done ++ s.queue
  capture : t.capture = s.capture
  graphs : t.graphs = s.graphs

namespace Behind
variable {done : List α} {s t : Stream α}

theorem issue (h : Behind done s t) (xs : List α) : Behind done (s.issue xs) (t.issue xs) := by
  unfold Stream.issue
  rw [h.capture]
  cases s.capture with
  | none => exact ⟨by simp [h.queue], rfl, h.graphs⟩
  | some g => exact ⟨h.queue, rfl, h.graphs⟩

theorem beginCapture (h : Behind done s t) : Behind done s.beginCapture t.beginCapture :=
  ⟨h.queue, rfl, h.graphs⟩

theorem endCapture (h : Behind done s t) : Behind done s.endCapture t.endCapture := by
  unfold Stream.endCapture
  rw [h.capture]
  cases s.capture with
  | none => exact h
  | some g => exact ⟨h.queue, rfl, congrArg (· ++ [g]) h.graphs⟩

theorem replay (h : Behind done s t) (i : Nat) : Behind done (s.replay i) (t.replay i) := by
  unfold Stream.replay
  rw [h.graphs]
  exact h.issue _

/-- The device runs the operation at the head. -/
theorem pop (h : Behind done s t) {x : α} {rest : List α} (hq : s.queue = x :: rest) :
    Behind (done ++ [x]) { s with queue := rest } t :=
  ⟨by rw [h.queue, hq, List.append_assoc]; rfl, h.capture, h.graphs⟩

end Behind
end Stream

/-! ## Calls that take effect at once -/

section Atomic
variable {S Op B A : Type} (M : LTS S Op) (ops : B → List Op) (abs : S → A) (effect : B → A → A)

structure Atomic : Prop where
  whole : ∀ b s s', M.Run s (ops b) s' → abs s' = effect b (abs s)
  part : ∀ b s s' done rest, ops b = done ++ rest → rest ≠ [] → M.Run s done s' → abs s' = abs s

variable {M ops abs effect}

theorem Atomic.run (h : Atomic M ops abs effect) {calls : List B} {done rest : List Op} {s s' : S}
    (hops : calls.flatMap ops = done ++ rest) (hrun : M.Run s done s') :
    ∃ n, n ≤ calls.length ∧ abs s' = (calls.take n).foldl (fun a b => effect b a) (abs s) ∧
      (rest = [] → n = calls.length) := by
  induction calls generalizing done s with
  | nil =>
    obtain ⟨rfl, rfl⟩ := List.append_eq_nil_iff.mp hops.symm
    cases hrun
    exact ⟨0, Nat.le_refl _, rfl, fun _ => rfl⟩
  | cons b calls ih =>
    rw [List.flatMap_cons, List.append_eq_append_iff] at hops
    rcases hops with ⟨more, hdone, hmore⟩ | ⟨left, hb, hrest⟩
    · -- the first call is done
      subst hdone
      obtain ⟨s₁, hfirst, hlater⟩ := hrun.split
      obtain ⟨n, hn, habs, hall⟩ := ih hmore hlater
      refine ⟨n + 1, Nat.succ_le_succ hn, ?_, fun hnil => by rw [hall hnil]; rfl⟩
      rw [List.take_succ_cons, List.foldl_cons, ← h.whole b s s₁ hfirst]
      exact habs
    · -- the run stopped in the first call
      by_cases hleft : left = []
      · subst hleft
        rw [List.append_nil] at hb
        subst hb
        obtain ⟨n, hn, habs, hall⟩ := @ih [] s' hrest.symm (.nil s')
        refine ⟨n + 1, Nat.succ_le_succ hn, ?_, fun hnil => by rw [hall hnil]; rfl⟩
        rw [List.take_succ_cons, List.foldl_cons, ← h.whole b s s' hrun]
        exact habs
      · refine ⟨0, Nat.zero_le _, h.part b s s' done left hb hleft hrun, fun hnil => ?_⟩
        rw [hnil] at hrest
        exact absurd (List.append_eq_nil_iff.mp hrest.symm).1 hleft

end Atomic
end FlashSpark
