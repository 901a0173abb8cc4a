import Mathlib

/-!
# Programs that may raise

`EStateM` programs: what was done before the raise stays done. Two rules run a
sequence one statement after the other; `turns` is a loop over a list of records
where each turn changes its own record. `Ends` is the Hoare triple of such a program: what
holds where it returns and where it raises, with one rule for each way to build one; `Reads`
is the triple of one that leaves the state alone.
-/
namespace FlashSpark

variable {ε ε' σ τ α β : Type}

theorem bind_ok {x : EStateM ε σ α} {f : α → EStateM ε σ β} {s s' : σ} {a : α} (h : x s = .ok a s') :
    (x >>= f) s = f a s' := by
  show EStateM.bind x f s = _
  unfold EStateM.bind
  rw [h]

theorem bind_error {x : EStateM ε σ α} {f : α → EStateM ε σ β} {s s' : σ} {e : ε} (h : x s = .error e s') :
    (x >>= f) s = .error e s' := by
  show EStateM.bind x f s = _
  unfold EStateM.bind
  rw [h]

/-- Where a sequence raised. -/
theorem bind_raised {x : EStateM ε σ α} {f : α → EStateM ε σ β} {s s' : σ} {e : ε}
    (h : (x >>= f) s = .error e s') :
    x s = .error e s' ∨ ∃ a s₁, x s = .ok a s₁ ∧ f a s₁ = .error e s' := by
  cases hx : x s with
  | ok a s₁ => exact Or.inr ⟨a, s₁, rfl, (bind_ok hx).symm.trans h⟩
  | error e₁ s₁ =>
    obtain ⟨rfl, rfl⟩ := EStateM.Result.error.inj ((bind_error hx).symm.trans h)
    exact Or.inl rfl

/-- A sequence of statements without a state returned. -/
theorem except_bind_ok {x : Except ε α} {f : α → Except ε β} {b : β} :
    (x >>= f) = .ok b ↔ ∃ a, x = .ok a ∧ f a = .ok b := by
  cases x with
  | error e =>
    constructor
    · intro h
      cases h
    · intro h
      obtain ⟨a, h, -⟩ := h
      cases h
  | ok a =>
    constructor
    · intro h
      exact ⟨a, rfl, h⟩
    · intro h
      obtain ⟨a', ha, h⟩ := h
      cases ha
      exact h

/-- `if not c: raise e`, without a state. -/
def demand (c : Prop) [Decidable c] (e : ε) : Except ε Unit := if c then .ok () else .error e

theorem demand_ok {c : Prop} [Decidable c] {e : ε} {u : Unit} : demand c e = .ok u ↔ c := by
  unfold demand
  split
  · rename_i hc
    exact ⟨fun _ => hc, fun _ => rfl⟩
  · rename_i hc
    exact ⟨nofun, fun h => absurd h hc⟩

/-- A value that may be missing, without a state. -/
def orRaise (o : Option α) (e : ε) : Except ε α :=
  match o with
  | some a => .ok a
  | none => .error e

theorem orRaise_ok {o : Option α} {e : ε} {a : α} : orRaise o e = .ok a ↔ o = some a := by
  cases o with
  | none => exact ⟨nofun, nofun⟩
  | some a' => exact ⟨fun h => congrArg some (Except.ok.inj h), fun h => congrArg Except.ok (Option.some.inj h)⟩

theorem mapError_ok {x : Except ε α} {f : ε → ε'} {a : α} : x.mapError f = .ok a ↔ x = .ok a := by
  cases x with
  | error e => exact ⟨nofun, nofun⟩
  | ok a' => exact ⟨fun h => congrArg Except.ok (Except.ok.inj h), fun h => congrArg Except.ok (Except.ok.inj h)⟩

theorem except_forM_ok {f : τ → Except ε Unit} {ts : List τ} {u : Unit} :
    ts.forM f = .ok u ↔ ∀ t ∈ ts, f t = .ok () := by
  induction ts with
  | nil => exact ⟨fun _ => nofun, fun _ => rfl⟩
  | cons t ts ih =>
    show (f t >>= fun _ => ts.forM f) = _ ↔ _
    rw [except_bind_ok, List.forall_mem_cons]
    constructor
    · rintro ⟨_, ht, hts⟩
      exact ⟨ht, ih.mp hts⟩
    · rintro ⟨ht, hts⟩
      exact ⟨_, ht, ih.mpr hts⟩

theorem except_mapM_ok {f : τ → Except ε β} {ts : List τ} {bs : List β} (h : ts.mapM f = .ok bs) :
    List.Forall₂ (fun t b => f t = .ok b) ts bs := by
  induction ts generalizing bs with
  | nil =>
    obtain rfl := Except.ok.inj h
    exact .nil
  | cons t ts ih =>
    rw [List.mapM_cons] at h
    obtain ⟨b, hb, h⟩ := except_bind_ok.mp h
    obtain ⟨bs', hbs, h⟩ := except_bind_ok.mp h
    obtain rfl := Except.ok.inj h
    exact .cons hb (ih hbs)

theorem bind_get {f : σ → EStateM ε σ β} {s : σ} : (get >>= f) s = f s s := rfl

theorem bind_modify {g : σ → σ} {f : PUnit → EStateM ε σ β} {s : σ} : (modify g >>= f) s = f ⟨⟩ (g s) := rfl

/-- A part of the state, and another kind of error. -/
def zoom (get : σ → τ) (set : τ → σ → σ) (err : ε' → ε) (x : EStateM ε' τ α) : EStateM ε σ α := fun s =>
  match x (get s) with
  | .ok a t => .ok a (set t s)
  | .error e t => .error (err e) (set t s)

/-- `for i, t in enumerate(ts, k)`, gathering what the turns give. -/
def turns (f : Nat → EStateM ε τ β) : Nat → EStateM ε (List τ) (List β)
  | _, [] => .ok [] []
  | k, t :: ts =>
    match f k t with
    | .error e t' => .error e (t' :: ts)
    | .ok b t' =>
      match turns f (k + 1) ts with
      | .error e ts' => .error e (t' :: ts')
      | .ok bs ts' => .ok (b :: bs) (t' :: ts')

/-- Every turn returns. -/
theorem turns_ok {f : Nat → EStateM ε τ β} (out : Nat → τ → β) (next : Nat → τ → τ) {k : Nat} {ts : List τ}
    (h : ∀ i t, ts[i]? = some t → f (k + i) t = .ok (out (k + i) t) (next (k + i) t)) :
    turns f k ts = .ok (ts.mapIdx fun i => out (k + i)) (ts.mapIdx fun i => next (k + i)) := by
  induction ts generalizing k with
  | nil => rfl
  | cons t ts ih =>
    have hhead : f k t = .ok (out k t) (next k t) := h 0 t rfl
    have htail := @ih (k + 1) fun i t' ht' => by
      rw [Nat.add_assoc, Nat.add_comm 1 i]
      exact h (i + 1) t' ht'
    have hshift : ∀ i, k + 1 + i = k + (i + 1) := fun i => by omega
    simp only [turns, hhead, htail, List.mapIdx_cons, hshift, Nat.add_zero]

theorem turns_zero_ok {f : Nat → EStateM ε τ β} (out : Nat → τ → β) (next : Nat → τ → τ) {ts : List τ}
    (h : ∀ i t, ts[i]? = some t → f i t = .ok (out i t) (next i t)) :
    turns f 0 ts = .ok (ts.mapIdx out) (ts.mapIdx next) := by
  have hall := @turns_ok ε τ β f out next 0 ts fun i t ht => by
    rw [Nat.zero_add]
    exact h i t ht
  simpa only [Nat.zero_add] using hall

/-- Every turn returns or raises `e`, and one of them raises it. -/
theorem turns_raise {f : Nat → EStateM ε τ β} {e : ε} {k : Nat} {ts : List τ}
    (h : ∀ i t, ts[i]? = some t → (∃ b t', f (k + i) t = .ok b t') ∨ ∃ t', f (k + i) t = .error e t')
    {i : Nat} {t : τ} (ht : ts[i]? = some t) (hraise : ∃ t', f (k + i) t = .error e t') :
    ∃ ts', turns f k ts = .error e ts' := by
  induction ts generalizing k i with
  | nil => cases ht
  | cons t₀ ts ih =>
    rcases h 0 t₀ rfl with ⟨b, t₀', hhead⟩ | ⟨t₀', hhead⟩
    · have hshift : ∀ i, k + (i + 1) = k + 1 + i := fun i => by omega
      cases i with
      | zero =>
        -- the first turn returns, so it is not the one that raises
        obtain rfl := Option.some.inj ht
        obtain ⟨t', ht'⟩ := hraise
        rw [hhead] at ht'
        cases ht'
      | succ i =>
        obtain ⟨ts', hts'⟩ := @ih (k + 1) (fun j u hu => by
          rw [← hshift]
          exact h (j + 1) u hu) i ht (by rw [← hshift]; exact hraise)
        exact ⟨t₀' :: ts', by rw [turns, show f k t₀ = .ok b t₀' from hhead, hts']⟩
    · exact ⟨t₀' :: ts, by rw [turns, show f k t₀ = .error e t₀' from hhead]⟩

/-! ## Triples -/

/-- What a call to the outside gave: a value, or what it raised. -/
def perform (r : Except ε α) : EStateM ε σ α :=
  match r with
  | .ok a => pure a
  | .error e => throw e

/-- A call that gives no value. -/
def raiseIf (e : Option ε) : EStateM ε σ Unit :=
  match e with
  | none => pure ()
  | some e => throw e

/-- A value that may be missing. -/
def unwrap (o : Option α) (e : ε) : EStateM ε σ α :=
  match o with
  | some a => pure a
  | none => throw e

theorem unwrap_ok {o : Option α} {e : ε} {a : α} {s : σ} (h : o = some a) : unwrap o e s = .ok a s := by
  rw [h]
  rfl

def require (c : Prop) [Decidable c] (e : ε) : EStateM ε σ Unit := if c then pure () else throw e

theorem require_ok {c : Prop} [Decidable c] {e : ε} {s : σ} (h : c) : require c e s = .ok () s := by
  rw [require, if_pos h]
  rfl

def each : List τ → (τ → EStateM ε σ Unit) → EStateM ε σ Unit
  | [], _ => pure ()
  | t :: ts, f => do f t; each ts f

/-- What the turns give, `i` counting them. -/
def gather (f : Nat → τ → EStateM ε σ β) : Nat → List τ → EStateM ε σ (List β)
  | _, [] => pure []
  | i, t :: ts => do
    let b ← f i t
    let bs ← gather f (i + 1) ts
    pure (b :: bs)

/-- `post` where the program returned, `err` where it raised. -/
def Ends (pre : σ → Prop) (x : EStateM ε σ α) (post : α → σ → Prop) (err : ε → σ → Prop) : Prop :=
  ∀ s, pre s → match x s with
    | .ok a s' => post a s'
    | .error e s' => err e s'

namespace Ends
variable {pre : σ → Prop} {post : α → σ → Prop} {err : ε → σ → Prop}

theorem ret {a : α} (h : ∀ s, pre s → post a s) : Ends pre (pure a : EStateM ε σ α) post err := h

theorem raise {e : ε} (h : ∀ s, pre s → err e s) : Ends pre (throw e : EStateM ε σ α) post err := h

theorem update {g : σ → σ} {post : PUnit → σ → Prop} (h : ∀ s, pre s → post ⟨⟩ (g s)) :
    Ends pre (modify g : EStateM ε σ PUnit) post err := h

theorem raiseIf {e : Option ε} {post : Unit → σ → Prop} (hok : e = none → ∀ s, pre s → post () s)
    (herr : ∀ e', e = some e' → ∀ s, pre s → err e' s) :
    Ends pre (raiseIf e : EStateM ε σ Unit) post err := by
  cases e with
  | none => exact ret (hok rfl)
  | some e => exact raise (herr e rfl)

theorem bind (mid : α → σ → Prop) {x : EStateM ε σ α} {f : α → EStateM ε σ β} {post : β → σ → Prop}
    (hx : Ends pre x mid err) (hf : ∀ a, Ends (mid a) (f a) post err) : Ends pre (x >>= f) post err := by
  intro s hs
  have hxs := hx s hs
  cases hr : x s with
  | ok a s' =>
    rw [hr] at hxs
    rw [bind_ok hr]
    exact hf a s' hxs
  | error e s' =>
    rw [hr] at hxs
    rw [bind_error hr]
    exact hxs

/-! The rules of a first statement: the rest runs where it did not raise. -/

section Then
variable {f : β → EStateM ε σ α} {k : Unit → EStateM ε σ α}

theorem update_then {g : σ → σ} {k : PUnit → EStateM ε σ α} (mid : σ → Prop) (hg : ∀ s, pre s → mid (g s))
    (hk : Ends mid (k ⟨⟩) post err) : Ends pre (modify g >>= k) post err :=
  bind (fun _ => mid) (update hg) fun _ => hk

theorem get_then {f : σ → EStateM ε σ α} (hf : ∀ s₀, pre s₀ → Ends (· = s₀) (f s₀) post err) :
    Ends pre (get >>= f) post err := fun s hs => hf s hs s rfl

theorem perform_then {r : Except ε β} (hf : ∀ b, r = .ok b → Ends pre (f b) post err)
    (herr : ∀ e, r = .error e → ∀ s, pre s → err e s) : Ends pre (perform r >>= f) post err := by
  cases r with
  | ok b =>
    refine bind (fun b' s => b' = b ∧ pre s) (ret fun _ hs => ⟨rfl, hs⟩) fun b' s hs => ?_
    obtain ⟨rfl, hs⟩ := hs
    exact hf b' rfl s hs
  | error e => exact bind (fun _ _ => False) (raise (herr e rfl)) fun _ _ hs => hs.elim

theorem raiseIf_then {e : Option ε} (hk : e = none → Ends pre (k ()) post err)
    (herr : ∀ e', e = some e' → ∀ s, pre s → err e' s) : Ends pre (FlashSpark.raiseIf e >>= k) post err := by
  cases e with
  | none => exact bind (fun _ => pre) (ret fun _ hs => hs) fun _ => hk rfl
  | some e => exact bind (fun _ _ => False) (raise (herr e rfl)) fun _ _ hs => hs.elim

theorem require_then {c : Prop} [Decidable c] {e : ε} (hk : c → Ends pre (k ()) post err)
    (herr : ¬c → ∀ s, pre s → err e s) : Ends pre (require c e >>= k) post err := by
  unfold require
  split
  · rename_i hc
    exact bind (fun _ => pre) (ret fun _ hs => hs) fun _ => hk hc
  · rename_i hc
    exact bind (fun _ _ => False) (raise (herr hc)) fun _ _ hs => hs.elim

end Then

theorem mono {pre' : σ → Prop} {x : EStateM ε σ α} {post' : α → σ → Prop} {err' : ε → σ → Prop}
    (h : Ends pre x post err) (hpre : ∀ s, pre' s → pre s) (hpost : ∀ a s, post a s → post' a s)
    (herr : ∀ e s, err e s → err' e s) : Ends pre' x post' err' := by
  intro s hs
  have hxs := h s (hpre s hs)
  cases hr : x s with
  | ok a s' =>
    rw [hr] at hxs
    exact hpost a s' hxs
  | error e s' =>
    rw [hr] at hxs
    exact herr e s' hxs

/-- A fact about no state moves into the context. -/
theorem given {P : Prop} {x : EStateM ε σ α} (h : P → Ends pre x post err) :
    Ends (fun s => P ∧ pre s) x post err := fun s hs => h hs.1 s hs.2

/-- `try: x except BaseException as e: handler(e)`: what `x` did stays done. -/
theorem tryCatch (mid : ε → σ → Prop) {x : EStateM ε σ α} {handler : ε → EStateM ε σ α}
    (hx : Ends pre x post mid) (hh : ∀ e, Ends (mid e) (handler e) post err) :
    Ends pre (tryCatch x handler) post err := by
  intro s hs
  have hxs := hx s hs
  show match EStateM.tryCatch x handler s with
    | .ok a s' => post a s'
    | .error e s' => err e s'
  unfold EStateM.tryCatch
  cases hr : x s with
  | ok a s' =>
    rw [hr] at hxs
    exact hxs
  | error e s' =>
    rw [hr] at hxs
    exact hh e s' hxs

/-- The loop rule: `inv ts` holds while the turns `ts` are still to come. -/
theorem each {f : τ → EStateM ε σ Unit} (inv : List τ → σ → Prop) {ts : List τ}
    (h : ∀ t ts, Ends (inv (t :: ts)) (f t) (fun _ => inv ts) err) :
    Ends (inv ts) (each ts f) (fun _ => inv []) err := by
  induction ts with
  | nil => exact ret fun s hs => hs
  | cons t ts ih => exact bind (fun _ => inv ts) (h t ts) fun _ => ih

end Ends

/-! ## Statements that read -/

/-- A statement that may raise and that leaves the state as it is. -/
def Reads (s : σ) (x : EStateM ε σ α) (post : α → Prop) : Prop :=
  Ends (· = s) x (fun a s' => post a ∧ s' = s) (fun _ s' => s' = s)

namespace Reads
variable {s : σ}

theorem ret {a : α} {post : α → Prop} (h : post a) : Reads s (pure a : EStateM ε σ α) post :=
  Ends.ret fun _ hs => ⟨h, hs⟩

theorem raise {e : ε} {post : α → Prop} : Reads s (throw e : EStateM ε σ α) post := Ends.raise fun _ hs => hs

theorem bind {x : EStateM ε σ α} {f : α → EStateM ε σ β} {mid : α → Prop} {post : β → Prop} (hx : Reads s x mid)
    (hf : ∀ a, mid a → Reads s (f a) post) : Reads s (x >>= f) post :=
  Ends.bind _ hx fun a => Ends.given (hf a)

theorem get : Reads s (MonadState.get : EStateM ε σ σ) (· = s) := fun _ hs => ⟨hs, hs⟩

theorem require {c : Prop} [Decidable c] {e : ε} : Reads s (require c e) fun _ => c := by
  unfold FlashSpark.require
  split
  · rename_i hc
    exact ret hc
  · exact raise

theorem perform {r : Except ε α} : Reads s (perform r) fun a => r = .ok a := by
  cases r with
  | ok a => exact ret rfl
  | error e => exact raise

theorem unwrap {o : Option α} {e : ε} : Reads s (unwrap o e) fun a => o = some a := by
  cases o with
  | none => exact raise
  | some a => exact ret rfl

theorem weaken {x : EStateM ε σ α} {post post' : α → Prop} (h : Reads s x post) (hpost : ∀ a, post a → post' a) :
    Reads s x post' :=
  Ends.mono h (fun _ hs => hs) (fun a _ hs => ⟨hpost a hs.1, hs.2⟩) fun _ _ hs => hs

/-- Reading keeps what held before, and adds what it found. -/
theorem ends {x : EStateM ε σ α} {pre : σ → Prop} {err : ε → σ → Prop} {post : σ → α → Prop}
    (h : ∀ s, pre s → Reads s x (post s)) (herr : ∀ e s, pre s → err e s) :
    Ends pre x (fun a s => pre s ∧ post s a) err := by
  intro s hs
  have hread := h s hs s rfl
  cases hr : x s with
  | ok a s' =>
    rw [hr] at hread
    obtain ⟨hpost, rfl⟩ := hread
    exact ⟨hs, hpost⟩
  | error e s' =>
    rw [hr] at hread
    obtain rfl : s' = s := hread
    exact herr e s' hs

/-- One result for each turn, all on the same state. -/
theorem gather {f : Nat → τ → EStateM ε σ β} {R : τ → β → Prop} (h : ∀ i t, Reads s (f i t) (R t)) (i : Nat)
    (ts : List τ) : Reads s (gather f i ts) (List.Forall₂ R ts) := by
  induction ts generalizing i with
  | nil => exact ret .nil
  | cons t ts ih =>
    refine bind (h i t) fun b hb => ?_
    refine bind (ih (i + 1)) fun bs hbs => ?_
    exact ret (.cons hb hbs)

end Reads

theorem forall₂_getElem? {R : α → β → Prop} {as : List α} {bs : List β} (h : List.Forall₂ R as bs) {i : Nat} {a : α}
    (ha : as[i]? = some a) : ∃ b, bs[i]? = some b ∧ R a b := by
  induction h generalizing i with
  | nil => cases ha
  | cons hab _ ih =>
    cases i with
    | zero =>
      obtain rfl := Option.some.inj ha
      exact ⟨_, rfl, hab⟩
    | succ i => exact ih ha

theorem forall₂_left_mem {R : α → β → Prop} {as : List α} {bs : List β} (h : List.Forall₂ R as bs) {a : α}
    (ha : a ∈ as) : ∃ b ∈ bs, R a b := by
  obtain ⟨i, hi⟩ := List.mem_iff_getElem?.mp ha
  obtain ⟨b, hb, hr⟩ := forall₂_getElem? h hi
  exact ⟨b, List.mem_of_getElem? hb, hr⟩

end FlashSpark
