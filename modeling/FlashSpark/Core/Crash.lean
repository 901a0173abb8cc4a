import Mathlib

/-!
# Programs that may be killed between two operations

A program works on a disk `D`, one atomic operation after the other; before any of
them the process may be killed, which leaves the disk as it is. `Meets` is its Hoare
triple: what holds where the program returns, where it raises, and where it is killed.
One rule for each way to build a program; `each` and `collect` are its loops. `Finishes`
is the triple of a program that nothing stops: it returns.
-/
namespace FlashSpark

inductive Exit (ε α : Type) where
  | returned (a : α)
  | raised (e : ε)
  | killed

/-- `killed k`: the process is killed before its operation number `k`. The program is
given the number of its next operation and gives back the number after its last. -/
def Prog (D ε α : Type) : Type := (Nat → Bool) → Nat → D → Exit ε α × Nat × D

namespace Prog
variable {D ε α β : Type}

def ret (a : α) : Prog D ε α := fun _ k d => (.returned a, k, d)

def raise (e : ε) : Prog D ε α := fun _ k d => (.raised e, k, d)

/-- One atomic operation. -/
def op (f : D → α × D) : Prog D ε α := fun killed k d =>
  if killed k then (.killed, k, d) else (.returned (f d).1, k + 1, (f d).2)

/-- The operation succeeds or raises; either way the disk keeps what it did. -/
def tryOp (f : D → Except ε α × D) : Prog D ε α := fun killed k d =>
  if killed k then (.killed, k, d)
  else match (f d).1 with
    | .ok a => (.returned a, k + 1, (f d).2)
    | .error e => (.raised e, k + 1, (f d).2)

def andThen (p : Prog D ε α) (f : α → Prog D ε β) : Prog D ε β := fun killed k d =>
  match p killed k d with
  | (.returned a, k', d') => f a killed k' d'
  | (.raised e, k', d') => (.raised e, k', d')
  | (.killed, k', d') => (.killed, k', d')

instance : Monad (Prog D ε) where
  pure := ret
  bind := andThen

def require (c : Prop) [Decidable c] (e : ε) : Prog D ε Unit := if c then pure () else raise e

/-- An operation that leaves the disk alone. -/
def tick : Prog D ε Unit := op fun d => ((), d)

def each : List α → (α → Prog D ε Unit) → Prog D ε Unit
  | [], _ => pure ()
  | a :: as, f => do f a; each as f

def collect : List α → (α → Prog D ε β) → Prog D ε (List β)
  | [], _ => pure []
  | a :: as, f => do
    let b ← f a
    let bs ← collect as f
    pure (b :: bs)

end Prog

/-! ## Triples -/

/-- `post` where the program returned, `err` where it raised, `crash` where it was killed. -/
def Exit.Sat {D ε α : Type} (post : α → D → Prop) (err : ε → D → Prop) (crash : D → Prop) :
    Exit ε α → D → Prop
  | .returned a => post a
  | .raised e => err e
  | .killed => crash

/-- What holds at every end. -/
theorem Exit.Sat.all {D ε α : Type} {P : D → Prop} {x : Exit ε α} {d : D}
    (h : x.Sat (fun _ => P) (fun _ => P) P d) : P d := by
  cases x with
  | returned a => exact h
  | raised e => exact h
  | killed => exact h

theorem Exit.Sat.not_returned {D ε α : Type} {P : D → Prop} {x : Exit ε α} {d : D}
    (h : x.Sat (fun _ _ => False) (fun _ => P) P d) : (∀ a, x ≠ .returned a) ∧ P d := by
  cases x with
  | returned a => exact h.elim
  | raised e => exact ⟨fun a => by simp, h⟩
  | killed => exact ⟨fun a => by simp, h⟩

def Meets {D ε α : Type} (killed : Nat → Bool) (pre : D → Prop) (p : Prog D ε α)
    (post : α → D → Prop) (err : ε → D → Prop) (crash : D → Prop) : Prop :=
  ∀ k d, pre d → Exit.Sat post err crash (p killed k d).1 (p killed k d).2.2

namespace Meets
variable {D ε α β : Type} {killed : Nat → Bool} {pre : D → Prop} {post : α → D → Prop}
  {err : ε → D → Prop} {crash : D → Prop}

theorem ret {a : α} (h : ∀ d, pre d → post a d) :
    Meets killed pre (pure a : Prog D ε α) post err crash := fun _ d hd => h d hd

theorem raise {e : ε} (h : ∀ d, pre d → err e d) :
    Meets killed pre (Prog.raise e : Prog D ε α) post err crash := fun _ d hd => h d hd

theorem op {f : D → α × D} (hcrash : ∀ k d, killed k = true → pre d → crash d)
    (h : ∀ d, pre d → post (f d).1 (f d).2) :
    Meets killed pre (Prog.op f : Prog D ε α) post err crash := by
  intro k d hd
  unfold Prog.op
  split
  · rename_i hk
    exact hcrash k d hk hd
  · exact h d hd

theorem tryOp {f : D → Except ε α × D} (hcrash : ∀ k d, killed k = true → pre d → crash d)
    (hok : ∀ d a, pre d → (f d).1 = .ok a → post a (f d).2)
    (herr : ∀ d e, pre d → (f d).1 = .error e → err e (f d).2) :
    Meets killed pre (Prog.tryOp f : Prog D ε α) post err crash := by
  intro k d hd
  unfold Prog.tryOp
  split
  · rename_i hk
    exact hcrash k d hk hd
  · cases hf : (f d).1 with
    | ok a => exact hok d a hd hf
    | error e => exact herr d e hd hf

theorem tick (hcrash : ∀ k d, killed k = true → pre d → crash d) :
    Meets killed pre (Prog.tick : Prog D ε Unit) (fun _ => pre) err crash :=
  op hcrash fun _ hd => hd

theorem bind {p : Prog D ε α} {f : α → Prog D ε β} {Q : α → D → Prop} {post : β → D → Prop}
    (hp : Meets killed pre p Q err crash)
    (hf : ∀ a, Meets killed (Q a) (f a) post err crash) :
    Meets killed pre (p >>= f) post err crash := by
  intro k d hd
  have hpd := hp k d hd
  show Exit.Sat post err crash (Prog.andThen p f killed k d).1 (Prog.andThen p f killed k d).2.2
  unfold Prog.andThen
  cases hx : p killed k d with
  | mk x rest =>
    obtain ⟨k', d'⟩ := rest
    rw [hx] at hpd
    cases x with
    | returned a => exact hf a k' d' hpd
    | raised e => exact hpd
    | killed => exact hpd

theorem mono {p : Prog D ε α} {pre' : D → Prop} {post' : α → D → Prop} {err' : ε → D → Prop}
    {crash' : D → Prop} (hp : Meets killed pre p post err crash) (hpre : ∀ d, pre' d → pre d)
    (hpost : ∀ a d, post a d → post' a d) (herr : ∀ e d, err e d → err' e d)
    (hcrash : ∀ d, crash d → crash' d) : Meets killed pre' p post' err' crash' := by
  intro k d hd
  have h := hp k d (hpre d hd)
  cases hx : (p killed k d).1 with
  | returned a => rw [hx] at h; exact hpost a _ h
  | raised e => rw [hx] at h; exact herr e _ h
  | killed => rw [hx] at h; exact hcrash _ h

theorem require {c : Prop} [Decidable c] {e : ε} {Q : Unit → D → Prop}
    (hok : ∀ d, pre d → c → Q () d) (herr : ∀ d, pre d → ¬c → err e d) :
    Meets killed pre (Prog.require c e : Prog D ε Unit) Q err crash := by
  unfold Prog.require
  split
  · rename_i hc
    exact ret fun d hd => hok d hd hc
  · rename_i hc
    exact raise fun d hd => herr d hd hc

theorem ite {c : Prop} [Decidable c] {p q : Prog D ε α} (hp : c → Meets killed pre p post err crash)
    (hq : ¬c → Meets killed pre q post err crash) :
    Meets killed pre (if c then p else q) post err crash := by
  split
  · exact hp ‹c›
  · exact hq ‹¬c›

/-- A fact that does not speak of the disk. -/
theorem of_fact {p : Prog D ε α} {c : Prop} (h : c → Meets killed pre p post err crash) :
    Meets killed (fun d => c ∧ pre d) p post err crash := fun k d hd => h hd.1 k d hd.2

/-- One disk at a time. -/
theorem of_eq {p : Prog D ε α}
    (h : ∀ d₀, pre d₀ → Meets killed (fun d => d = d₀) p post err crash) :
    Meets killed pre p post err crash := fun k d hd => h d hd k d rfl

/-- A loop: `I done` holds after the elements of `done`. -/
theorem each {I : List α → D → Prop} {f : α → Prog D ε Unit} (as : List α)
    (h : ∀ done a rest, as = done ++ a :: rest →
      Meets killed (I done) (f a) (fun _ => I (done ++ [a])) err crash) :
    Meets killed (I []) (Prog.each as f) (fun _ => I as) err crash := by
  suffices hgen : ∀ rest done, as = done ++ rest →
      Meets killed (I done) (Prog.each rest f) (fun _ => I as) err crash from hgen as [] rfl
  intro rest
  induction rest with
  | nil =>
    intro done hdone
    rw [List.append_nil] at hdone
    subst hdone
    exact ret fun _ hd => hd
  | cons a rest ih =>
    intro done hdone
    exact bind (h done a rest hdone) fun _ => ih (done ++ [a]) (by rw [hdone, List.append_assoc]; rfl)

/-- A loop that gathers results, each with its own property. -/
theorem collect {I : D → Prop} {R : α → β → Prop} {f : α → Prog D ε β} (as : List α)
    (h : ∀ a ∈ as, Meets killed I (f a) (fun b d => R a b ∧ I d) err crash) :
    Meets killed I (Prog.collect as f) (fun bs d => List.Forall₂ R as bs ∧ I d) err crash := by
  induction as with
  | nil => exact ret fun _ hd => ⟨.nil, hd⟩
  | cons a as ih =>
    refine bind (h a List.mem_cons_self) fun b => of_fact fun hb => ?_
    refine bind (ih fun a ha => h a (List.mem_cons_of_mem _ ha)) fun bs => of_fact fun hbs => ?_
    exact ret fun d hd => ⟨.cons hb hbs, hd⟩

end Meets

/-! ## Programs that nothing stops -/

/-- Not killed, the program returns. -/
abbrev Finishes {D ε α : Type} (pre : D → Prop) (p : Prog D ε α) (post : α → D → Prop) : Prop :=
  Meets (fun _ => false) pre p post (fun _ _ => False) fun _ => False

namespace Finishes
variable {D ε α β : Type} {pre : D → Prop} {post Q : α → D → Prop} {p : Prog D ε α}

theorem op {f : D → α × D} (h : ∀ d, pre d → post (f d).1 (f d).2) :
    Finishes pre (Prog.op f : Prog D ε α) post :=
  Meets.op (fun _ _ hk _ => Bool.false_ne_true hk) h

theorem tryOp {f : D → Except ε α × D} (h : ∀ d, pre d → ∃ a, (f d).1 = .ok a ∧ post a (f d).2) :
    Finishes pre (Prog.tryOp f) post := by
  refine Meets.tryOp (fun _ _ hk _ => Bool.false_ne_true hk) (fun d a hd hok => ?_) fun d e hd herr => ?_
  · obtain ⟨a', hok', hpost⟩ := h d hd
    obtain rfl := Except.ok.inj (hok.symm.trans hok')
    exact hpost
  · obtain ⟨a', hok', -⟩ := h d hd
    rw [herr] at hok'
    cases hok'

theorem require {c : Prop} [Decidable c] {e : ε} (hc : c) :
    Finishes pre (Prog.require c e : Prog D ε Unit) fun _ => pre :=
  Meets.require (fun _ hd _ => hd) fun _ _ hno => hno hc

theorem tick : Finishes pre (Prog.tick : Prog D ε Unit) fun _ => pre := op fun _ hd => hd

/-- A program that returns ends as its triple says. -/
theorem and_meets {err : ε → D → Prop} {crash : D → Prop} (h : Finishes pre p Q)
    (hm : Meets (fun _ => false) pre p post err crash) : Finishes pre p fun a d => Q a d ∧ post a d := by
  intro k d hd
  have hret := h k d hd
  have hpost := hm k d hd
  cases hx : (p (fun _ => false) k d).1 with
  | returned a =>
    rw [hx] at hret hpost
    exact ⟨hret, hpost⟩
  | raised e => rw [hx] at hret; exact hret
  | killed => rw [hx] at hret; exact hret

theorem returned (h : Finishes pre p post) {d : D} (hd : pre d) (k : Nat) :
    ∃ a, (p (fun _ => false) k d).1 = .returned a ∧ post a (p (fun _ => false) k d).2.2 := by
  have hret := h k d hd
  cases hx : (p (fun _ => false) k d).1 with
  | returned a => rw [hx] at hret; exact ⟨a, rfl, hret⟩
  | raised e => rw [hx] at hret; exact hret.elim
  | killed => rw [hx] at hret; exact hret.elim

end Finishes
end FlashSpark
