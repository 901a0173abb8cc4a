import FlashSpark.Core.LTS
import FlashSpark.Core.Tensor

/-!
# Processes over channels and collectives

A process is deterministic: it says what it does next and how it goes on (`Proc`).
Processes are joined by one first-in first-out channel for each sender, receiver and
lane, and by collectives, in which a whole group meets. A channel that takes nothing
hands a message over when both of its ends are there. Any process that can move may
move next.

* `Net.diamond`: two moves of one state never disturb each other, so the order of the
  moves decides nothing;
* `SyncOn`: from any state in which the processes of a set are as given, they can get
  to where they are then wanted, whatever the others do. It composes one after the
  other (`SyncOn.trans`) and side by side (`SyncOn.columns`);
* `Net.settles`: where the processes can get to the end, every run gets there, in one
  number of steps;
* `SyncIf`: the same where a condition decides between going on and a failed check, and
  `Net.fails`: where a process can get to a failed check, no run keeps it from getting there.
-/
namespace FlashSpark

/-- A process that ends with an `R`: `P` names the processes, `L` the lanes, `G` the
groups, `M` is what is sent. A failed check ends a process for good. -/
inductive Proc (P L G M R : Type) where
  | done (r : R)
  | fail
  | send (dst : P) (l : L) (m : M) (k : Proc P L G M R)
  | recv (src : P) (l : L) (k : M → Proc P L G M R)
  | gather (g : G) (m : M) (k : List M → Proc P L G M R)

namespace Proc
variable {P L G M R S : Type}

def bind : Proc P L G M R → (R → Proc P L G M S) → Proc P L G M S
  | done r, f => f r
  | fail, _ => fail
  | send dst l m k, f => send dst l m (k.bind f)
  | recv src l k, f => recv src l fun m => (k m).bind f
  | gather g m k, f => gather g m fun ms => (k ms).bind f

instance : Monad (Proc P L G M) where
  pure := done
  bind := bind

@[simp] theorem pure_eq (r : R) : (pure r : Proc P L G M R) = done r := rfl
@[simp] theorem done_bind (r : R) (f : R → Proc P L G M S) : (done r >>= f) = f r := rfl
@[simp] theorem fail_bind (f : R → Proc P L G M S) : ((fail : Proc P L G M R) >>= f) = fail := rfl
@[simp] theorem send_bind (dst : P) (l : L) (m : M) (k : Proc P L G M R) (f : R → Proc P L G M S) :
    (send dst l m k >>= f) = send dst l m (k >>= f) := rfl
@[simp] theorem recv_bind (src : P) (l : L) (k : M → Proc P L G M R) (f : R → Proc P L G M S) :
    (recv src l k >>= f) = recv src l fun m => k m >>= f := rfl
@[simp] theorem gather_bind (g : G) (m : M) (k : List M → Proc P L G M R) (f : R → Proc P L G M S) :
    (gather g m k >>= f) = gather g m fun ms => k ms >>= f := rfl

theorem bind_done (p : Proc P L G M R) : (p >>= done) = p := by
  induction p with
  | done r => rfl
  | fail => rfl
  | send dst l m k ih => rw [send_bind, ih]
  | recv src l k ih => rw [recv_bind]; exact congrArg _ (funext ih)
  | gather g m k ih => rw [gather_bind]; exact congrArg _ (funext ih)

theorem bind_bind {T : Type} (p : Proc P L G M R) (f : R → Proc P L G M S) (h : S → Proc P L G M T) :
    (p >>= f >>= h) = p >>= fun r => f r >>= h := by
  induction p with
  | done r => rfl
  | fail => rfl
  | send dst l m k ih => simp only [send_bind, ih]
  | recv src l k ih => simp only [recv_bind, ih]
  | gather g m k ih => simp only [gather_bind, ih]

instance : LawfulMonad (Proc P L G M) :=
  LawfulMonad.mk' _ bind_done (fun _ _ => rfl) bind_bind

end Proc

/-- How much a channel takes before its sender must wait: one that takes a message takes
one with fewer in it. A channel may take none at all. -/
structure Room (P L : Type) where
  room : P × P × L → Nat → Bool
  room_anti : ∀ ch n, room ch (n + 1) = true → room ch n = true

/-- The channels, and the members of each group in their order. -/
structure Net (P L G : Type) extends Room P L where
  members : G → List P

/-- Where each process is, and what each channel holds; a channel is named by its
sender, its receiver and its lane. -/
@[ext] structure NetState (P L G M R : Type) where
  procs : P → Proc P L G M R
  queue : P × P × L → List M

/-- Who moves: a process alone, the two ends of a channel, or a group that meets. -/
inductive NetEvent (P L G : Type) where
  | run (p : P)
  | hand (ch : P × P × L)
  | meet (g : G)

section Fire
variable {P L G M R : Type} [DecidableEq P] [DecidableEq L] [DecidableEq G]

/-- What the process brings to a meeting of `g`, when it waits for one. -/
def Proc.offer (g : G) : Proc P L G M R → Option M
  | .gather g' m _ => if g' = g then some m else none
  | _ => none

/-- The process after a meeting. -/
def Proc.resume (ms : List M) : Proc P L G M R → Proc P L G M R
  | .gather _ _ k => k ms
  | p => p

/-- Putting a message in at the end of a channel, when it has room. -/
def Net.put (N : Net P L G) (ch : P × P × L) (m : M) (k : Proc P L G M R) (ms : List M) :
    Option (Proc P L G M R × List M) :=
  if N.room ch ms.length then some (k, ms ++ [m]) else none

/-- Taking the first message of a channel. -/
def Proc.take (k : M → Proc P L G M R) : List M → Option (Proc P L G M R × List M)
  | [] => none
  | m :: ms => some (k m, ms)

/-- What a process does alone: the channel it uses, and what it makes of the channel's
contents, going on with the process returned. -/
def Net.act (N : Net P L G) (p : P) :
    Proc P L G M R → Option ((P × P × L) × (List M → Option (Proc P L G M R × List M)))
  | .send q l m k => some ((p, q, l), N.put (p, q, l) m k)
  | .recv q l k => some ((q, p, l), Proc.take k)
  | _ => none

/-- What a process that waits to send to `q` on lane `l` sends, and how it goes on. -/
def Proc.giving (q : P) (l : L) : Proc P L G M R → Option (M × Proc P L G M R)
  | .send q' l' m k => if q' = q ∧ l' = l then some (m, k) else none
  | _ => none

/-- How a process that waits for `p` on lane `l` goes on. -/
def Proc.taking (p : P) (l : L) : Proc P L G M R → Option (M → Proc P L G M R)
  | .recv p' l' k => if p' = p ∧ l' = l then some k else none
  | _ => none

def Net.fire (N : Net P L G) (c : NetState P L G M R) : NetEvent P L G → Option (NetState P L G M R)
  | .run p => do
    let (ch, f) ← N.act p (c.procs p)
    let (k, ms) ← f (c.queue ch)
    return ⟨Function.update c.procs p k, Function.update c.queue ch ms⟩
  | .hand (p, q, l) =>
    -- only where the sender cannot leave its message behind, and past no other
    if N.room (p, q, l) 0 ∨ c.queue (p, q, l) ≠ [] then none
    else do
      let (m, k) ← (c.procs p).giving q l
      let k' ← (c.procs q).taking p l
      return { c with procs := Function.update (Function.update c.procs p k) q (k' m) }
  | .meet g =>
    if N.members g = [] then none
    else do
      let ms ← (N.members g).mapM fun p => (c.procs p).offer g
      return { c with procs := fun p => if p ∈ N.members g then (c.procs p).resume ms else c.procs p }

/-- Nothing is on its way. -/
def NetState.quiet (f : P → Proc P L G M R) : NetState P L G M R := ⟨f, fun _ => []⟩

/-- A run starts with nothing on its way. -/
def Net.sys (N : Net P L G) : LTS (NetState P L G M R) (NetEvent P L G) :=
  LTS.ofFn (fun c => ∃ f, c = .quiet f) N.fire

variable {N : Net P L G} {c c' c₁ c₂ : NetState P L G M R} {p q : P} {g g' : G}

/-- What a process does when it moves alone. -/
structure Net.Alone (N : Net P L G) (c : NetState P L G M R) (p : P) (ch : P × P × L)
    (f : List M → Option (Proc P L G M R × List M)) (k : Proc P L G M R) (ms : List M)
    (c' : NetState P L G M R) : Prop where
  act : N.act p (c.procs p) = some (ch, f)
  use : f (c.queue ch) = some (k, ms)
  procs : c'.procs = Function.update c.procs p k
  queue : c'.queue = Function.update c.queue ch ms

theorem fire_run : N.fire c (.run p) = some c' ↔ ∃ ch f k ms, N.Alone c p ch f k ms c' := by
  constructor
  · intro h
    obtain ⟨⟨ch, f⟩, hact, h⟩ := Option.bind_eq_some_iff.mp h
    obtain ⟨⟨k, ms⟩, huse, h⟩ := Option.bind_eq_some_iff.mp h
    cases h
    exact ⟨ch, f, k, ms, hact, huse, rfl, rfl⟩
  · rintro ⟨ch, f, k, ms, hact, huse, hp, hq⟩
    exact Option.bind_eq_some_iff.mpr ⟨_, hact, Option.bind_eq_some_iff.mpr
      ⟨_, huse, congrArg some (NetState.ext hp.symm hq.symm)⟩⟩

/-- What two ends of a channel do that hand a message over. -/
structure Net.Hands (N : Net P L G) (c : NetState P L G M R) (p q : P) (l : L) (m : M)
    (k : Proc P L G M R) (k' : M → Proc P L G M R) (c' : NetState P L G M R) : Prop where
  full : N.room (p, q, l) 0 = false
  empty : c.queue (p, q, l) = []
  gives : c.procs p = .send q l m k
  takes : c.procs q = .recv p l k'
  procs : c'.procs = Function.update (Function.update c.procs p k) q (k' m)
  queue : c'.queue = c.queue

omit [DecidableEq G] in
theorem giving_eq_some {pr k : Proc P L G M R} {l : L} {m : M} :
    pr.giving q l = some (m, k) ↔ pr = .send q l m k := by
  cases pr <;> simp only [Proc.giving, reduceCtorEq, Option.ite_none_right_eq_some, Option.some.injEq,
    Prod.mk.injEq, Proc.send.injEq]
  tauto

omit [DecidableEq G] in
theorem taking_eq_some {pr : Proc P L G M R} {k : M → Proc P L G M R} {l : L} :
    pr.taking p l = some k ↔ pr = .recv p l k := by
  cases pr <;> simp only [Proc.taking, reduceCtorEq, Option.ite_none_right_eq_some, Option.some.injEq,
    Proc.recv.injEq]
  tauto

theorem fire_hand {l : L} : N.fire c (.hand (p, q, l)) = some c' ↔ ∃ m k k', N.Hands c p q l m k k' c' := by
  constructor
  · intro h
    rw [Net.fire] at h
    split at h
    · cases h
    · rename_i hno
      rw [not_or, not_not] at hno
      obtain ⟨⟨m, k⟩, hgive, h⟩ := Option.bind_eq_some_iff.mp h
      obtain ⟨k', htake, h⟩ := Option.bind_eq_some_iff.mp h
      cases h
      exact ⟨m, k, k', by simpa using hno.1, hno.2, giving_eq_some.mp hgive, taking_eq_some.mp htake, rfl, rfl⟩
  · rintro ⟨m, k, k', hfull, hempty, hgive, htake, hp, hq⟩
    rw [Net.fire, if_neg (by simp [hfull, hempty])]
    exact Option.bind_eq_some_iff.mpr ⟨_, giving_eq_some.mpr hgive, Option.bind_eq_some_iff.mpr
      ⟨_, taking_eq_some.mpr htake, congrArg some (NetState.ext hp.symm hq.symm)⟩⟩

/-- What a meeting does. -/
structure Net.Meets (N : Net P L G) (c : NetState P L G M R) (g : G) (ms : List M)
    (c' : NetState P L G M R) : Prop where
  ne : N.members g ≠ []
  offers : (N.members g).mapM (fun p => (c.procs p).offer g) = some ms
  procs : c'.procs = fun p => if p ∈ N.members g then (c.procs p).resume ms else c.procs p
  queue : c'.queue = c.queue

theorem fire_meet : N.fire c (.meet g) = some c' ↔ ∃ ms, N.Meets c g ms c' := by
  constructor
  · intro h
    rw [Net.fire] at h
    split at h
    · cases h
    · rename_i hne
      obtain ⟨ms, hms, h⟩ := Option.bind_eq_some_iff.mp h
      cases h
      exact ⟨ms, hne, hms, rfl, rfl⟩
  · rintro ⟨ms, hne, hms, hp, hq⟩
    rw [Net.fire, if_neg hne]
    exact Option.bind_eq_some_iff.mpr ⟨ms, hms, congrArg some (NetState.ext hp.symm hq.symm)⟩

theorem mapM_congr {α β : Type*} {f h : α → Option β} {l : List α} (hfh : ∀ a ∈ l, f a = h a) :
    l.mapM f = l.mapM h := by
  induction l with
  | nil => rfl
  | cons a l ih =>
    rw [List.mapM_cons, List.mapM_cons, hfh a List.mem_cons_self,
      ih fun b hb => hfh b (List.mem_cons_of_mem a hb)]

theorem isSome_of_mapM {α β : Type*} {f : α → Option β} {l : List α} {bs : List β}
    (h : l.mapM f = some bs) {a : α} (ha : a ∈ l) : ∃ b, f a = some b := by
  induction l generalizing bs with
  | nil => cases ha
  | cons x l ih =>
    rw [List.mapM_cons] at h
    obtain ⟨b, hb, h⟩ := Option.bind_eq_some_iff.mp h
    obtain ⟨bs', hbs', -⟩ := Option.bind_eq_some_iff.mp h
    rcases List.mem_cons.mp ha with rfl | ha
    · exact ⟨b, hb⟩
    · exact ih hbs' ha

omit [DecidableEq L] in
/-- A member of a group that meets waits for that meeting. -/
theorem Net.Meets.waits {ms : List M} (h : N.Meets c g ms c') (hp : p ∈ N.members g) :
    ∃ m k, c.procs p = .gather g m k := by
  obtain ⟨b, hb⟩ := isSome_of_mapM h.offers hp
  cases hc : c.procs p with
  | gather g' m k =>
    rw [hc, Proc.offer] at hb
    split at hb
    · rename_i hg; exact ⟨m, k, by rw [hg]⟩
    · cases hb
  | _ => rw [hc] at hb; cases hb

section Comm
variable {ch ch' : P × P × L} {f f' : List M → Option (Proc P L G M R × List M)}
  {k k' : Proc P L G M R} {ms ms' : List M}

theorem Net.Alone.not_mem (h : N.Alone c p ch f k ms c₁) (hg : N.Meets c g ms' c₂) :
    p ∉ N.members g := by
  intro hp
  obtain ⟨m, k, hw⟩ := hg.waits hp
  have hact := h.act
  rw [hw] at hact
  cases hact

omit [DecidableEq P] [DecidableEq L] [DecidableEq G] in
/-- What is put in at the end of a channel is not what is taken from the front. -/
theorem Net.put_take {m : M} {kp j j' : Proc P L G M R} {kq : M → Proc P L G M R} {xs ys ys' : List M}
    (hs : N.put ch m kp xs = some (j, ys)) (hr : Proc.take kq xs = some (j', ys')) :
    ∃ ws, N.put ch m kp ys' = some (j, ws) ∧ Proc.take kq ys = some (j', ws) := by
  cases xs with
  | nil => cases hr
  | cons x xs =>
    cases hr
    rw [Net.put] at hs
    split at hs
    · rename_i hroom
      cases hs
      exact ⟨ys' ++ [m], if_pos (N.room_anti _ _ hroom), rfl⟩
    · cases hs

omit [DecidableEq P] [DecidableEq L] [DecidableEq G] in
theorem Net.act_comm {pr pr' : Proc P L G M R} {xs : List M} (hpq : p ≠ q)
    (hp : N.act p pr = some (ch, f)) (hq : N.act q pr' = some (ch, f'))
    (hf : f xs = some (k, ms)) (hf' : f' xs = some (k', ms')) :
    ∃ ws, f ms' = some (k, ws) ∧ f' ms = some (k', ws) := by
  cases pr <;> cases hp <;> cases pr' <;> cases hq
  case send.refl.send.refl => exact absurd rfl hpq
  case recv.refl.recv.refl => exact absurd rfl hpq
  case send.refl.recv.refl => exact Net.put_take hf hf'
  case recv.refl.send.refl =>
    obtain ⟨ws, hs, hr⟩ := Net.put_take hf' hf
    exact ⟨ws, hr, hs⟩

/-- Two processes that move alone do not disturb each other. -/
theorem Net.Alone.comm (h₁ : N.Alone c p ch f k ms c₁) (h₂ : N.Alone c q ch' f' k' ms' c₂)
    (hpq : p ≠ q) : ∃ d, N.fire c₁ (.run q) = some d ∧ N.fire c₂ (.run p) = some d := by
  have hq₁ : N.act q (c₁.procs q) = some (ch', f') := by
    rw [h₁.procs, Function.update_of_ne hpq.symm, h₂.act]
  have hp₂ : N.act p (c₂.procs p) = some (ch, f) := by
    rw [h₂.procs, Function.update_of_ne hpq, h₁.act]
  by_cases hch : ch = ch'
  · subst hch
    obtain ⟨ws, hp, hq⟩ := N.act_comm hpq h₁.act h₂.act h₁.use h₂.use
    refine ⟨⟨Function.update c₁.procs q k', Function.update c₁.queue ch ws⟩,
      fire_run.mpr ⟨ch, f', k', ws, hq₁, ?_, rfl, rfl⟩, fire_run.mpr ⟨ch, f, k, ws, hp₂, ?_, ?_, ?_⟩⟩
    · rw [h₁.queue, Function.update_self, hq]
    · rw [h₂.queue, Function.update_self, hp]
    · rw [h₁.procs, h₂.procs, Function.update_comm hpq]
    · rw [h₁.queue, h₂.queue, Function.update_idem, Function.update_idem]
  · refine ⟨⟨Function.update c₁.procs q k', Function.update c₁.queue ch' ms'⟩,
      fire_run.mpr ⟨ch', f', k', ms', hq₁, ?_, rfl, rfl⟩, fire_run.mpr ⟨ch, f, k, ms, hp₂, ?_, ?_, ?_⟩⟩
    · rw [h₁.queue, Function.update_of_ne (Ne.symm hch), h₂.use]
    · rw [h₂.queue, Function.update_of_ne hch, h₁.use]
    · rw [h₁.procs, h₂.procs, Function.update_comm hpq]
    · rw [h₁.queue, h₂.queue, Function.update_comm hch]

/-- A process that moves alone and a group that meets do not disturb each other. -/
theorem Net.Alone.comm_meets (h₁ : N.Alone c p ch f k ms c₁) (h₂ : N.Meets c g ms' c₂) :
    ∃ d, N.fire c₁ (.meet g) = some d ∧ N.fire c₂ (.run p) = some d := by
  have hp := h₁.not_mem h₂
  have hne : ∀ q ∈ N.members g, q ≠ p := fun q hq he => hp (he ▸ hq)
  refine ⟨⟨fun q => if q ∈ N.members g then (c₁.procs q).resume ms' else c₁.procs q, c₁.queue⟩,
    fire_meet.mpr ⟨ms', h₂.ne, ?_, rfl, rfl⟩, fire_run.mpr ⟨ch, f, k, ms, ?_, ?_, ?_, ?_⟩⟩
  · rw [← h₂.offers]
    refine mapM_congr fun q hq => ?_
    rw [h₁.procs, Function.update_of_ne (hne q hq)]
  · rw [h₂.procs]
    dsimp only
    rw [if_neg hp, h₁.act]
  · rw [h₂.queue, h₁.use]
  · rw [h₁.procs, h₂.procs]
    funext q
    by_cases hq : q = p
    · subst hq; simp only [Function.update_self, if_neg hp]
    · simp only [Function.update_of_ne hq]
  · rw [h₁.queue, h₂.queue]

/-- Two groups that both could meet have no member in common. -/
theorem Net.Meets.comm (h₁ : N.Meets c g ms c₁) (h₂ : N.Meets c g' ms' c₂) (hg : g ≠ g') :
    ∃ d, N.fire c₁ (.meet g') = some d ∧ N.fire c₂ (.meet g) = some d := by
  have hdis : ∀ p ∈ N.members g, p ∉ N.members g' := by
    intro p hp hp'
    obtain ⟨m, k, h⟩ := h₁.waits hp
    obtain ⟨m', k', h'⟩ := h₂.waits hp'
    rw [h] at h'
    exact hg (Proc.gather.inj h').1
  refine ⟨⟨fun q => if q ∈ N.members g' then (c₁.procs q).resume ms' else c₁.procs q, c₁.queue⟩,
    fire_meet.mpr ⟨ms', h₂.ne, ?_, rfl, rfl⟩, fire_meet.mpr ⟨ms, h₁.ne, ?_, ?_, ?_⟩⟩
  · rw [← h₂.offers]
    refine mapM_congr fun q hq => ?_
    rw [h₁.procs]
    dsimp only
    rw [if_neg fun h => hdis q h hq]
  · rw [← h₁.offers]
    refine mapM_congr fun q hq => ?_
    rw [h₂.procs]
    dsimp only
    rw [if_neg (hdis q hq)]
  · rw [h₁.procs, h₂.procs]
    funext q
    by_cases hq : q ∈ N.members g
    · simp only [if_pos hq, if_neg (hdis q hq)]
    · simp only [if_neg hq]
  · rw [h₁.queue, h₂.queue]

section Hand
variable {l : L} {m : M} {kp : Proc P L G M R} {kq : M → Proc P L G M R}

omit [DecidableEq G] in
/-- A process that moves alone meanwhile is neither end, and uses another channel. -/
theorem Net.Alone.apart {x : P} (h₁ : N.Alone c x ch f k ms c₂) (h₂ : N.Hands c p q l m kp kq c₁) :
    x ≠ p ∧ x ≠ q ∧ ch ≠ (p, q, l) := by
  have hact := h₁.act
  have huse := h₁.use
  have hp : x ≠ p := by
    rintro rfl
    rw [h₂.gives] at hact
    cases hact
    rw [Net.put, h₂.empty, List.length_nil, h₂.full] at huse
    cases huse
  have hq : x ≠ q := by
    rintro rfl
    rw [h₂.takes] at hact
    cases hact
    rw [h₂.empty] at huse
    cases huse
  refine ⟨hp, hq, ?_⟩
  rintro rfl
  cases hx : c.procs x <;> rw [hx] at hact <;> cases hact
  · exact hp rfl
  · exact hq rfl

/-- A process that moves alone does not disturb two that hand a message over. -/
theorem Net.Alone.comm_hands {x : P} (h₁ : N.Alone c x ch f k ms c₁) (h₂ : N.Hands c p q l m kp kq c₂) :
    ∃ d, N.fire c₁ (.hand (p, q, l)) = some d ∧ N.fire c₂ (.run x) = some d := by
  obtain ⟨hp, hq, hch⟩ := h₁.apart h₂
  refine ⟨⟨Function.update (Function.update c₁.procs p kp) q (kq m), c₁.queue⟩,
    fire_hand.mpr ⟨m, kp, kq, h₂.full, ?_, ?_, ?_, rfl, rfl⟩, fire_run.mpr ⟨ch, f, k, ms, ?_, ?_, ?_, ?_⟩⟩
  · rw [h₁.queue, Function.update_of_ne hch.symm, h₂.empty]
  · rw [h₁.procs, Function.update_of_ne hp.symm, h₂.gives]
  · rw [h₁.procs, Function.update_of_ne hq.symm, h₂.takes]
  · rw [h₂.procs, Function.update_of_ne hq, Function.update_of_ne hp, h₁.act]
  · rw [h₂.queue, h₁.use]
  · rw [h₁.procs, h₂.procs, Function.update_comm hp, Function.update_comm hq]
  · rw [h₁.queue, h₂.queue]

/-- Neither end of a channel that is handed a message belongs to a group that meets. -/
theorem Net.Hands.comm_meets (h₁ : N.Hands c p q l m kp kq c₁) (h₂ : N.Meets c g ms' c₂) :
    ∃ d, N.fire c₁ (.meet g) = some d ∧ N.fire c₂ (.hand (p, q, l)) = some d := by
  have hp : p ∉ N.members g := fun h => by
    obtain ⟨m', k', hw⟩ := h₂.waits h
    cases h₁.gives.symm.trans hw
  have hq : q ∉ N.members g := fun h => by
    obtain ⟨m', k', hw⟩ := h₂.waits h
    cases h₁.takes.symm.trans hw
  have hends : ∀ r ∈ N.members g, r ≠ p ∧ r ≠ q := fun r hr =>
    ⟨fun h => hp (h ▸ hr), fun h => hq (h ▸ hr)⟩
  have hstay : ∀ r ∈ N.members g, c₁.procs r = c.procs r := fun r hr => by
    rw [h₁.procs, Function.update_of_ne (hends r hr).2, Function.update_of_ne (hends r hr).1]
  refine ⟨⟨fun r => if r ∈ N.members g then (c₁.procs r).resume ms' else c₁.procs r, c₁.queue⟩,
    fire_meet.mpr ⟨ms', h₂.ne, ?_, rfl, rfl⟩, fire_hand.mpr ⟨m, kp, kq, h₁.full, ?_, ?_, ?_, ?_, ?_⟩⟩
  · rw [← h₂.offers]
    exact mapM_congr fun r hr => by rw [hstay r hr]
  · rw [h₂.queue, h₁.empty]
  · rw [h₂.procs]
    exact (if_neg hp).trans h₁.gives
  · rw [h₂.procs]
    exact (if_neg hq).trans h₁.takes
  · funext r
    dsimp only
    by_cases hr : r ∈ N.members g
    · rw [if_pos hr, hstay r hr, Function.update_of_ne (hends r hr).2,
        Function.update_of_ne (hends r hr).1, h₂.procs]
      exact (if_pos hr).symm
    · rw [if_neg hr, h₁.procs, h₂.procs]
      by_cases hrq : r = q
      · rw [hrq, Function.update_self, Function.update_self]
      · rw [Function.update_of_ne hrq, Function.update_of_ne hrq]
        by_cases hrp : r = p
        · rw [hrp, Function.update_self, Function.update_self]
        · rw [Function.update_of_ne hrp, Function.update_of_ne hrp]
          exact (if_neg hr).symm
  · rw [h₁.queue, h₂.queue]

/-- Two channels whose ends are all there have no end in common. -/
theorem Net.Hands.comm {p' q' : P} {l' : L} {m' : M} {kp' : Proc P L G M R} {kq' : M → Proc P L G M R}
    (h₁ : N.Hands c p q l m kp kq c₁) (h₂ : N.Hands c p' q' l' m' kp' kq' c₂)
    (hne : (p, q, l) ≠ (p', q', l')) :
    ∃ d, N.fire c₁ (.hand (p', q', l')) = some d ∧ N.fire c₂ (.hand (p, q, l)) = some d := by
  have hpp : p ≠ p' := by
    rintro rfl
    cases h₁.gives.symm.trans h₂.gives
    exact hne rfl
  have hqq : q ≠ q' := by
    rintro rfl
    cases h₁.takes.symm.trans h₂.takes
    exact hne rfl
  have hpq : p ≠ q' := by
    rintro rfl
    cases h₁.gives.symm.trans h₂.takes
  have hqp : q ≠ p' := by
    rintro rfl
    cases h₁.takes.symm.trans h₂.gives
  refine ⟨⟨Function.update (Function.update c₁.procs p' kp') q' (kq' m'), c₁.queue⟩,
    fire_hand.mpr ⟨m', kp', kq', h₂.full, ?_, ?_, ?_, rfl, rfl⟩,
    fire_hand.mpr ⟨m, kp, kq, h₁.full, ?_, ?_, ?_, ?_, ?_⟩⟩
  · rw [h₁.queue, h₂.empty]
  · rw [h₁.procs, Function.update_of_ne hqp.symm, Function.update_of_ne hpp.symm, h₂.gives]
  · rw [h₁.procs, Function.update_of_ne hqq.symm, Function.update_of_ne hpq.symm, h₂.takes]
  · rw [h₂.queue, h₁.empty]
  · rw [h₂.procs, Function.update_of_ne hpq, Function.update_of_ne hpp, h₁.gives]
  · rw [h₂.procs, Function.update_of_ne hqq, Function.update_of_ne hqp, h₁.takes]
  · dsimp only
    rw [h₁.procs, h₂.procs, Function.update_comm hqp, Function.update_comm hpp, Function.update_comm hqq,
      Function.update_comm hpq]
  · rw [h₁.queue, h₂.queue]

end Hand
end Comm

/-- Whatever order the moves come in, they lead to the same configurations. -/
theorem Net.diamond (N : Net P L G) : (N.sys (M := M) (R := R)).Diamond := by
  intro s e a e' b ha hb
  by_cases he : e = e'
  · subst he
    exact .inl (Option.some.inj (ha.symm.trans hb))
  · refine .inr ?_
    cases e with
    | run p =>
      obtain ⟨ch, f, k, ms, h₁⟩ := fire_run.mp ha
      cases e' with
      | run q =>
        obtain ⟨ch', f', k', ms', h₂⟩ := fire_run.mp hb
        obtain ⟨d, hd, hd'⟩ := h₁.comm h₂ fun h => he (congrArg _ h)
        exact ⟨_, d, _, hd, hd'⟩
      | hand ch =>
        obtain ⟨m, kp, kq, h₂⟩ := fire_hand.mp hb
        obtain ⟨d, hd, hd'⟩ := h₁.comm_hands h₂
        exact ⟨_, d, _, hd, hd'⟩
      | meet g =>
        obtain ⟨ms', h₂⟩ := fire_meet.mp hb
        obtain ⟨d, hd, hd'⟩ := h₁.comm_meets h₂
        exact ⟨_, d, _, hd, hd'⟩
    | hand ch =>
      obtain ⟨m, kp, kq, h₁⟩ := fire_hand.mp ha
      cases e' with
      | run q =>
        obtain ⟨ch', f', k', ms', h₂⟩ := fire_run.mp hb
        obtain ⟨d, hd, hd'⟩ := h₂.comm_hands h₁
        exact ⟨_, d, _, hd', hd⟩
      | hand ch' =>
        obtain ⟨m', kp', kq', h₂⟩ := fire_hand.mp hb
        obtain ⟨d, hd, hd'⟩ := h₁.comm h₂ fun h => he (congrArg _ h)
        exact ⟨_, d, _, hd, hd'⟩
      | meet g =>
        obtain ⟨ms', h₂⟩ := fire_meet.mp hb
        obtain ⟨d, hd, hd'⟩ := h₁.comm_meets h₂
        exact ⟨_, d, _, hd, hd'⟩
    | meet g =>
      obtain ⟨ms, h₁⟩ := fire_meet.mp ha
      cases e' with
      | run q =>
        obtain ⟨ch', f', k', ms', h₂⟩ := fire_run.mp hb
        obtain ⟨d, hd, hd'⟩ := h₂.comm_meets h₁
        exact ⟨_, d, _, hd', hd⟩
      | hand ch =>
        obtain ⟨m, kp, kq, h₂⟩ := fire_hand.mp hb
        obtain ⟨d, hd, hd'⟩ := h₂.comm_meets h₁
        exact ⟨_, d, _, hd', hd⟩
      | meet g' =>
        obtain ⟨ms', h₂⟩ := fire_meet.mp hb
        obtain ⟨d, hd, hd'⟩ := h₁.comm h₂ fun h => he (congrArg _ h)
        exact ⟨_, d, _, hd, hd'⟩

/-- Where every process is done no step is left. -/
theorem Net.stuck_done (r : P → R) : N.sys.Stuck (.quiet fun p => (.done (r p) : Proc P L G M R)) := by
  intro e c' h
  cases e with
  | run p =>
    obtain ⟨ch, f, k, ms, h⟩ := fire_run.mp h
    cases h.act
  | hand ch =>
    obtain ⟨m, kp, kq, h⟩ := fire_hand.mp h
    cases h.gives
  | meet g =>
    obtain ⟨ms, h⟩ := fire_meet.mp h
    obtain ⟨p, hp⟩ := List.exists_mem_of_ne_nil _ h.ne
    obtain ⟨m, k, hw⟩ := h.waits hp
    cases hw

/-- With nothing on its way, and the processes of `A` as in `f`, they can get to where
`g` has them, nothing being on its way then; the others stand still meanwhile. -/
def Net.SyncOn (N : Net P L G) (A : Set P) (f g : P → Proc P L G M R) : Prop :=
  ∀ h h', (∀ p ∈ A, h p = f p) → (∀ p ∈ A, h' p = g p) → (∀ p, p ∉ A → h' p = h p) →
    ∃ es, N.sys.Run (.quiet h) es (.quiet h')

namespace Net.SyncOn
variable {A B : Set P} {f f' g g' k : P → Proc P L G M R}

theorem refl (N : Net P L G) (A : Set P) (f : P → Proc P L G M R) : N.SyncOn A f f := by
  intro h h' hf hg hne
  have he : h' = h := by
    funext p
    by_cases hp : p ∈ A
    · rw [hg p hp, hf p hp]
    · exact hne p hp
  exact ⟨[], he ▸ .nil _⟩

theorem congr (h : N.SyncOn A f g) (hf : ∀ p ∈ A, f' p = f p) (hg : ∀ p ∈ A, g' p = g p) :
    N.SyncOn A f' g' := fun s s' hs hs' hne =>
  h s s' (fun p hp => (hs p hp).trans (hf p hp)) (fun p hp => (hs' p hp).trans (hg p hp)) hne

open Classical in
theorem trans (h₁ : N.SyncOn A f g) (h₂ : N.SyncOn A g k) : N.SyncOn A f k := by
  intro s s' hs hs' hne
  let m : P → Proc P L G M R := fun p => if p ∈ A then g p else s p
  have hm : ∀ p ∈ A, m p = g p := fun p hp => if_pos hp
  have hm' : ∀ p, p ∉ A → m p = s p := fun p hp => if_neg hp
  obtain ⟨es, hr⟩ := h₁ s m hs hm hm'
  obtain ⟨es', hr'⟩ := h₂ m s' hm hs' fun p hp => (hne p hp).trans (hm' p hp).symm
  exact ⟨es ++ es', hr.append hr'⟩

/-- Processes that have nothing to do may be counted in. -/
theorem mono (h : N.SyncOn A f g) (hAB : A ⊆ B) (hfg : ∀ p ∈ B, p ∉ A → f p = g p) :
    N.SyncOn B f g := by
  intro s s' hs hs' hne
  refine h s s' (fun p hp => hs p (hAB hp)) (fun p hp => hs' p (hAB hp)) fun p hp => ?_
  by_cases hpB : p ∈ B
  · rw [hs' p hpB, hs p hpB, hfg p hpB hp]
  · exact hne p hpB

/-- One message from `p` to `q`. -/
theorem transfer {l : L} {m : M} {kq : M → Proc P L G M R} (hpq : p ≠ q)
    (hp : f p = .send q l m (g p)) (hq : f q = .recv p l kq) (hk : kq m = g q) :
    N.SyncOn {p, q} f g := by
  intro s s' hs hs' hne
  by_cases hroom : N.room (p, q, l) 0 = true
  case neg =>
    have hhand : N.fire (.quiet s) (.hand (p, q, l)) = some (.quiet s') := by
      refine fire_hand.mpr ⟨m, g p, kq, by simpa using hroom, rfl, (hs p (.inl rfl)).trans hp,
        (hs q (.inr rfl)).trans hq, ?_, rfl⟩
      funext x
      by_cases hx : x = q
      · rw [hx, Function.update_self, hk]; exact hs' q (.inr rfl)
      · rw [Function.update_of_ne hx]
        by_cases hx' : x = p
        · rw [hx', Function.update_self]; exact hs' p (.inl rfl)
        · rw [Function.update_of_ne hx']
          exact hne x fun h => h.elim hx' hx
    exact ⟨[.hand (p, q, l)], .cons hhand (.nil _)⟩
  let mid : NetState P L G M R :=
    ⟨Function.update s p (g p), Function.update (fun _ => []) (p, q, l) [m]⟩
  have hsend : N.fire (.quiet s) (.run p) = some mid :=
    fire_run.mpr ⟨(p, q, l), N.put (p, q, l) m (g p), g p, [m],
      congrArg (N.act p) ((hs p (.inl rfl)).trans hp), if_pos hroom, rfl, rfl⟩
  have hrecv : N.fire mid (.run q) = some (.quiet s') := by
    refine fire_run.mpr ⟨(p, q, l), Proc.take kq, kq m, [], ?_, ?_, ?_, ?_⟩
    · exact congrArg (N.act q)
        ((Function.update_of_ne hpq.symm _ _).trans ((hs q (.inr rfl)).trans hq))
    · simp only [mid, Function.update_self, Proc.take]
    · funext x
      by_cases hx : x = q
      · subst hx; rw [Function.update_self, hk]; exact hs' x (.inr rfl)
      · rw [Function.update_of_ne hx]
        by_cases hx' : x = p
        · subst hx'; exact (hs' x (.inl rfl)).trans (Function.update_self x (g x) s).symm
        · exact (hne x fun h => h.elim hx' hx).trans (Function.update_of_ne hx' (g p) s).symm
    · exact (Function.update_idem _ _ _).trans (Function.update_eq_self _ _) |>.symm
  exact ⟨[.run p, .run q], .cons hsend (.cons hrecv (.nil _))⟩

/-- A meeting of a whole group. -/
theorem meet (x : G) (m : P → M) (kp : P → List M → Proc P L G M R) (hx : N.members x ≠ [])
    (hf : ∀ p ∈ N.members x, f p = .gather x (m p) (kp p))
    (hg : ∀ p ∈ N.members x, g p = kp p ((N.members x).map m)) :
    N.SyncOn {p | p ∈ N.members x} f g := by
  intro s s' hs hs' hne
  have hmeet : N.fire (.quiet s) (.meet x) = some (.quiet s') := by
    refine fire_meet.mpr ⟨(N.members x).map m, hx, mapM_some fun p hp => ?_, ?_, rfl⟩
    · exact (congrArg (Proc.offer x) ((hs p hp).trans (hf p hp))).trans (if_pos rfl)
    · funext p
      by_cases hp : p ∈ N.members x
      · rw [if_pos hp]
        refine (hs' p hp).trans ((hg p hp).trans ?_)
        exact (congrArg (Proc.resume _) ((hs p hp).trans (hf p hp))).symm
      · rw [if_neg hp]
        exact hne p hp
  exact ⟨[.meet x], .cons hmeet (.nil _)⟩

open Classical in
/-- Groups of processes that have nothing to do with each other can be looked at one by
one. -/
theorem columns {T : Type} (D : Finset T) (col : P → T) (hA : ∀ p ∈ A, col p ∈ D)
    (h : ∀ d ∈ D, N.SyncOn {p | p ∈ A ∧ col p = d} f g) : N.SyncOn A f g := by
  suffices hD : ∀ E : Finset T, E ⊆ D → N.SyncOn {p | p ∈ A ∧ col p ∈ E} f g by
    exact (hD D subset_rfl).mono (fun p hp => hp.1) fun p hp hne => absurd ⟨hp, hA p hp⟩ hne
  intro E hE
  induction E using Finset.induction_on with
  | empty =>
    intro s s' _ _ hne
    have he : s' = s := funext fun p => hne p fun h => absurd h.2 (Finset.notMem_empty _)
    exact ⟨[], he ▸ .nil _⟩
  | insert d E hd ih =>
    intro s s' hs hs' hne
    let m : P → Proc P L G M R := fun p => if p ∈ A ∧ col p ∈ E then g p else s p
    obtain ⟨es, hr⟩ := ih (fun e he => hE (Finset.mem_insert_of_mem he)) s m
      (fun p hp => hs p ⟨hp.1, Finset.mem_insert_of_mem hp.2⟩) (fun p hp => if_pos hp)
      fun p hp => if_neg hp
    have hm : ∀ p ∈ {p | p ∈ A ∧ col p = d}, m p = f p := by
      rintro p ⟨hp, rfl⟩
      exact (if_neg fun h => hd h.2).trans (hs p ⟨hp, Finset.mem_insert_self _ E⟩)
    have hm' : ∀ p ∈ {p | p ∈ A ∧ col p = d}, s' p = g p := by
      rintro p ⟨hp, rfl⟩
      exact hs' p ⟨hp, Finset.mem_insert_self _ E⟩
    have hother : ∀ p, p ∉ {p | p ∈ A ∧ col p = d} → s' p = m p := by
      intro p hp
      by_cases hpE : p ∈ A ∧ col p ∈ E
      · exact (hs' p ⟨hpE.1, Finset.mem_insert_of_mem hpE.2⟩).trans (if_pos hpE).symm
      · refine (hne p fun h => ?_).trans (if_neg hpE).symm
        rcases Finset.mem_insert.mp h.2 with he | he
        · exact hp ⟨h.1, he⟩
        · exact hpE ⟨h.1, he⟩
    obtain ⟨es', hr'⟩ := h d (hE (Finset.mem_insert_self d E)) m s' hm hm' hother
    exact ⟨es ++ es', hr.append hr'⟩

/-- Many messages side by side, between processes of their own. -/
theorem transfers {T : Type} {D : Finset T} {src dst : T → P} (col : P → T) {l : L} (m : T → M)
    (kq : T → M → Proc P L G M R) (hs : ∀ k ∈ D, col (src k) = k) (hd : ∀ k ∈ D, col (dst k) = k)
    (hne : ∀ k ∈ D, src k ≠ dst k) (hsend : ∀ k ∈ D, f (src k) = .send (dst k) l (m k) (g (src k)))
    (hrecv : ∀ k ∈ D, f (dst k) = .recv (src k) l (kq k)) (hk : ∀ k ∈ D, kq k (m k) = g (dst k)) :
    N.SyncOn {p | ∃ k ∈ D, p = src k ∨ p = dst k} f g := by
  refine columns D col ?_ fun k hkD => ?_
  · rintro p ⟨k, hkD, rfl | rfl⟩
    · rwa [hs k hkD]
    · rwa [hd k hkD]
  · refine (transfer (hne k hkD) (hsend k hkD) (hrecv k hkD) (hk k hkD)).mono ?_ ?_
    · rintro p (rfl | rfl)
      · exact ⟨⟨k, hkD, .inl rfl⟩, hs k hkD⟩
      · exact ⟨⟨k, hkD, .inr rfl⟩, hd k hkD⟩
    · rintro p ⟨⟨k', hk', hp⟩, rfl⟩ hnot
      refine absurd ?_ hnot
      rcases hp with rfl | rfl
      · rw [hs k' hk']; exact .inl rfl
      · rw [hd k' hk']; exact .inr rfl

end Net.SyncOn

/-- Where the processes can all get to their ends, every run gets there, whatever moves
when, and all runs take the same number of steps. -/
theorem Net.settles {f : P → Proc P L G M R} {r : P → R}
    (h : N.SyncOn Set.univ f fun p => .done (r p)) :
    ∃ n, ∀ es c, N.sys.Run (.quiet f) es c →
      ∃ es', N.sys.Run c es' (.quiet fun p => .done (r p)) ∧ es.length + es'.length = n := by
  obtain ⟨ls, hr⟩ := h f _ (fun _ _ => rfl) (fun _ _ => rfl) fun p hp => absurd trivial hp
  exact ⟨ls.length, fun es c hc => hr.settles N.diamond (Net.stuck_done r) hc⟩

/-- A failed check is the end of a process. -/
theorem fail_stays {e : NetEvent P L G} (hp : c.procs p = .fail) (h : N.fire c e = some c') :
    c'.procs p = .fail := by
  cases e with
  | run q =>
    obtain ⟨ch, f, k, ms, h⟩ := fire_run.mp h
    have hne : p ≠ q := by
      rintro rfl
      have := h.act
      rw [hp] at this
      cases this
    rw [h.procs, Function.update_of_ne hne, hp]
  | hand ch =>
    obtain ⟨m, kp, kq, h⟩ := fire_hand.mp h
    have hne₁ : p ≠ ch.1 := by
      rintro rfl
      cases hp.symm.trans h.gives
    have hne₂ : p ≠ ch.2.1 := by
      rintro rfl
      cases hp.symm.trans h.takes
    rw [h.procs, Function.update_of_ne hne₂, Function.update_of_ne hne₁, hp]
  | meet g =>
    obtain ⟨ms, h⟩ := fire_meet.mp h
    have hmem : p ∉ N.members g := fun hmem => by
      obtain ⟨m, k, hw⟩ := h.waits hmem
      cases hp.symm.trans hw
    rw [h.procs]
    exact (if_neg hmem).trans hp

/-- Where a process can get to a failed check, every run can be carried on to it. -/
theorem Net.fails {A : Set P} {f g : P → Proc P L G M R} (h : N.SyncOn A f g) {p : P} (hp : p ∈ A)
    (hfail : g p = .fail) {es : List (NetEvent P L G)} (hr : N.sys.Run (.quiet f) es c) :
    ∃ es' c', N.sys.Run c es' c' ∧ c'.procs p = .fail := by
  classical
  obtain ⟨ls, hls⟩ := h f (fun q => if q ∈ A then g q else f q) (fun _ _ => rfl)
    (fun q hq => if_pos hq) fun q hq => if_neg hq
  obtain ⟨ms, ms', d, hd, hd'⟩ := hr.joins N.diamond hls
  refine ⟨ms, d, hd, hd'.keeps (P := fun c => c.procs p = .fail) (fun s l s' hs hstep => fail_stays hs hstep) ?_⟩
  exact (if_pos hp).trans hfail

/-- The processes of `A` can get to where `g` has them if `ok`, and if not, those of `B`
to a failed check. -/
structure Net.SyncIf (N : Net P L G) (A B : Set P) (ok : Prop) (f g : P → Proc P L G M R) : Prop where
  sync : ok → N.SyncOn A f g
  fail : ¬ ok → ∃ g', N.SyncOn A f g' ∧ ∀ p ∈ B, g' p = .fail

namespace Net.SyncIf
variable {A B : Set P} {ok ok' : Prop} {f f' g g' k : P → Proc P L G M R}

theorem of_sync (h : N.SyncOn A f g) (hok : ok) : N.SyncIf A B ok f g :=
  ⟨fun _ => h, fun hno => absurd hok hno⟩

theorem trans (h₁ : N.SyncIf A B ok f g) (h₂ : N.SyncIf A B ok' g k) : N.SyncIf A B (ok ∧ ok') f k where
  sync h := (h₁.sync h.1).trans (h₂.sync h.2)
  fail h := by
    by_cases hok : ok
    · obtain ⟨g', hg', hB⟩ := h₂.fail fun hok' => h ⟨hok, hok'⟩
      exact ⟨g', (h₁.sync hok).trans hg', hB⟩
    · exact h₁.fail hok

theorem congr (h : N.SyncIf A B ok f g) (hok : ok' ↔ ok) (hf : ∀ p ∈ A, f' p = f p)
    (hg : ∀ p ∈ A, g' p = g p) : N.SyncIf A B ok' f' g' where
  sync h' := (h.sync (hok.mp h')).congr hf hg
  fail h' := by
    obtain ⟨k, hk, hB⟩ := h.fail fun hk => h' (hok.mpr hk)
    exact ⟨k, hk.congr hf fun _ _ => rfl, hB⟩

end Net.SyncIf

end Fire
end FlashSpark
