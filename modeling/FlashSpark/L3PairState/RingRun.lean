import FlashSpark.L3PairState.PairPartners

/-!
# Runs over the pair-state ring

One layer's pair state under any sequence of batches: prefill chunks, compact
verify and decode on the torch path, decode and static verify in the fused
kernel, over any requests. A request is admitted at an even position; a batch
starts its rows at the request's next position and commits the accepted ones.

* `Inv`: when a request's next position is odd, the ring row of the position
  before it holds the request's last committed row.
* `committed_pairs`: in every reachable state, every committed odd token was
  pooled with the committed token before it.
-/
namespace FlashSpark.L3.PairRing

open Launch

variable {V : Type}

structure State (V : Type) where
  pool : Option Nat → V
  start : Nat → Nat
  /-- The `| kv | score |` rows of a request's committed tokens, from `start` on. -/
  tokens : Nat → List V
  /-- What the committed odd token of a request at a position was pooled from. -/
  pooled : Nat → Nat → Option (V × V)

/-- The next position of a request. -/
def State.next (s : State V) (r : Nat) : Nat := s.start r + (s.tokens r).length

def State.token (s : State V) (r pos : Nat) : Option V := (s.tokens r)[pos - s.start r]?

/-- The segment of request `r`. -/
def Batch.segment (B : Batch V) (r : Nat) : Option Nat :=
  (List.range B.segments).find? fun b => B.owner b == r

/-- Commit the accepted rows of every segment, each odd one with its pair. -/
def State.commit (s : State V) (B : Batch V) (pool' : Option Nat → V) (pair : Nat → V × V) :
    State V where
  pool := pool'
  start := s.start
  tokens r := match B.segment r with
    | none => s.tokens r
    | some b => s.tokens r ++ (List.range (B.accepted b)).map fun i => B.kv (B.first b + i)
  pooled r pos := match B.segment r with
    | none => s.pooled r pos
    | some b =>
      if s.next r ≤ pos ∧ pos < s.next r + B.accepted b ∧ pos % 2 = 1 then
        some (pair (B.first b + (pos - s.next r)))
      else s.pooled r pos

/-- `r` is (re)used for a request whose tokens start at `start`; its ring keeps
what it held. -/
def State.assign (s : State V) (r start : Nat) : State V where
  pool := s.pool
  start := Function.update s.start r start
  tokens := Function.update s.tokens r []
  pooled := Function.update s.pooled r fun _ => none

inductive Op (V : Type) where
  | assign (r start : Nat)
  | torch (B : Batch V)
  | fused (B : Batch V) (bs D : Nat)

/-- `ring` rows per request, pages of `1 << kPageBits` slots. -/
def system (ring kPageBits : Nat) (hbits : kPageBits < 32) : LTS (State V) (Op V) where
  init s := ∀ r, s.start r % 2 = 0 ∧ s.tokens r = []
  step s op s' := match op with
    | .assign r start => start % 2 = 0 ∧ s' = s.assign r start
    | .torch B => B.Fits s.next ring ∧ ∃ pool', pairPartners B ring s.pool pool' ∧
        s' = s.commit B pool' fun k => (B.partner ring s.pool k, B.kv k)
    | .fused B bs D => B.Fits s.next ring ∧ B.Grid ring bs D ∧
        ∃ m m' : Memory (C2.Cell V (V × V) Unit), (∀ row, m (.kvState row) = s.pool (some row)) ∧
          C2.launch (pairKernel V kPageBits hbits) (B.params ring) (bs * D) true D m m' ∧
          s' = s.commit B (afterLaunch s.pool m') fun k => m' (.kvOutput k)

/-! ## What a batch commits -/

theorem segment_eq_none {B : Batch V} {r : Nat} (h : B.segment r = none) :
    ∀ b, b < B.segments → B.owner b ≠ r := by
  intro b hb he
  have := List.find?_eq_none.mp h b (List.mem_range.mpr hb)
  simp [he] at this

theorem segment_eq_some {B : Batch V} {r b : Nat} (h : B.segment r = some b) :
    b < B.segments ∧ B.owner b = r := by
  refine ⟨List.mem_range.mp (List.mem_of_find?_eq_some h), ?_⟩
  have := List.find?_some h
  simpa using this

section Commit
variable {s : State V} {B : Batch V} {pool' : Option Nat → V} {pair : Nat → V × V} {r b : Nat}

theorem next_commit_none (h : B.segment r = none) : (s.commit B pool' pair).next r = s.next r := by
  simp [State.next, State.commit, h]

theorem next_commit_some (h : B.segment r = some b) :
    (s.commit B pool' pair).next r = s.next r + B.accepted b := by
  simp only [State.next, State.commit, h, List.length_append, List.length_map, List.length_range]
  omega

/-- What was committed stays. -/
theorem token_commit_old {pos : Nat} (hpos : pos < s.next r) (hstart : s.start r ≤ pos) :
    (s.commit B pool' pair).token r pos = s.token r pos := by
  unfold State.next at hpos
  simp only [State.token, State.commit]
  split
  · rfl
  · rw [List.getElem?_append_left (by omega)]

theorem token_commit_new (h : B.segment r = some b) {i : Nat} (hi : i < B.accepted b) :
    (s.commit B pool' pair).token r (s.next r + i) = some (B.kv (B.first b + i)) := by
  have hidx : s.next r + i - s.start r = (s.tokens r).length + i := by unfold State.next; omega
  simp only [State.token, State.commit, h, hidx]
  rw [List.getElem?_append_right (by omega), Nat.add_sub_cancel_left, List.getElem?_map,
    List.getElem?_range hi]
  rfl

theorem pooled_commit_old (pos : Nat) (hpos : pos < s.next r) :
    (s.commit B pool' pair).pooled r pos = s.pooled r pos := by
  simp only [State.commit]
  split
  · rfl
  · rw [if_neg (by omega)]

theorem pooled_commit_new (h : B.segment r = some b) {i : Nat} (hi : i < B.accepted b)
    (hodd : (s.next r + i) % 2 = 1) :
    (s.commit B pool' pair).pooled r (s.next r + i) = some (pair (B.first b + i)) := by
  simp only [State.commit, h]
  rw [if_pos ⟨by omega, by omega, hodd⟩, Nat.add_sub_cancel_left]

end Commit

/-! ## The invariant -/

structure Inv (ring : Nat) (s : State V) : Prop where
  start_even : ∀ r, s.start r % 2 = 0
  parked : ∀ r, s.next r % 2 = 1 →
    s.token r (s.next r - 1) = some (s.pool (some (slot ring r (s.next r - 1))))
  pooled : ∀ r pos, s.start r ≤ pos → pos < s.next r → pos % 2 = 1 →
    ∃ v w, s.token r (pos - 1) = some v ∧ s.token r pos = some w ∧ s.pooled r pos = some (v, w)

theorem start_le_next (s : State V) (r : Nat) : s.start r ≤ s.next r := Nat.le_add_right _ _

/-- A batch that serves its requests keeps the invariant. -/
theorem commit_inv {ring : Nat} {s : State V} {B : Batch V} {pool' : Option Nat → V}
    {pair : Nat → V × V} (hi : Inv ring s) (hf : B.Fits s.next ring)
    (hs : Serves ring s.next B s.pool pool' pair) : Inv ring (s.commit B pool' pair) where
  start_even := hi.start_even
  parked r hodd := by
    cases hseg : B.segment r with
    | none =>
      rw [next_commit_none hseg] at hodd ⊢
      have hstart := hi.start_even r
      have := start_le_next s r
      rw [token_commit_old (by omega) (by omega), hi.parked r hodd]
      exact congrArg some (hs.kept r (segment_eq_none hseg) _).symm
    | some b =>
      obtain ⟨hb, rfl⟩ := segment_eq_some hseg
      have hacc := hf.accepted_pos b hb
      rw [next_commit_some hseg] at hodd ⊢
      obtain ⟨i, hacc'⟩ : ∃ i, B.accepted b = i + 1 := ⟨B.accepted b - 1, by omega⟩
      rw [hacc'] at hodd ⊢
      rw [show s.next (B.owner b) + (i + 1) - 1 = s.next (B.owner b) + i by omega,
        token_commit_new hseg (by omega)]
      exact congrArg some (hs.parked b i hb (by omega) (by omega)).symm
  pooled r pos hstart hnext hodd := by
    have heven := hi.start_even r
    replace hstart : s.start r ≤ pos := hstart
    by_cases hold : pos < s.next r
    · rw [token_commit_old (by omega) (by omega), token_commit_old hold hstart,
        pooled_commit_old pos hold]
      exact hi.pooled r pos hstart hold hodd
    · cases hseg : B.segment r with
      | none =>
        rw [next_commit_none hseg] at hnext
        omega
      | some b =>
        obtain ⟨hb, rfl⟩ := segment_eq_some hseg
        rw [next_commit_some hseg] at hnext
        have hle := hf.accepted_le b hb
        have hlen := start_le_next s (B.owner b)
        obtain ⟨i, rfl⟩ : ∃ i, pos = s.next (B.owner b) + i := ⟨pos - s.next (B.owner b), by omega⟩
        rw [token_commit_new hseg (by omega), pooled_commit_new hseg (by omega) hodd]
        cases i with
        | zero =>
          -- the head of the segment: its partner waits in the ring
          rw [Nat.add_zero] at hodd ⊢
          refine ⟨_, _, ?_, rfl, congrArg some (hs.head b hb hodd)⟩
          rw [token_commit_old (by omega) (by omega), hi.parked _ hodd]
        | succ i =>
          refine ⟨_, _, ?_, rfl, congrArg some (hs.within b i hb (by omega) hodd)⟩
          rw [show s.next (B.owner b) + (i + 1) - 1 = s.next (B.owner b) + i by omega]
          exact token_commit_new hseg (by omega)

theorem assign_inv {ring : Nat} {s : State V} (hi : Inv ring s) {r start : Nat}
    (heven : start % 2 = 0) : Inv ring (s.assign r start) := by
  have hsame : ∀ r', r' ≠ r → (s.assign r start).next r' = s.next r' := by
    intro r' hne
    simp [State.next, State.assign, hne]
  have hnew : (s.assign r start).next r = start := by simp [State.next, State.assign]
  have htok : ∀ r', r' ≠ r → ∀ p, (s.assign r start).token r' p = s.token r' p := by
    intro r' hne p
    simp [State.token, State.assign, hne]
  refine ⟨fun r' => ?_, fun r' hodd => ?_, fun r' pos hstart hnext hodd => ?_⟩
  · by_cases hne : r' = r
    · subst hne
      simpa [State.assign] using heven
    · simpa [State.assign, hne] using hi.start_even r'
  · by_cases hne : r' = r
    · subst hne
      rw [hnew] at hodd
      omega
    · rw [hsame r' hne] at hodd ⊢
      rw [htok r' hne]
      exact hi.parked r' hodd
  · by_cases hne : r' = r
    · subst hne
      rw [hnew] at hnext
      simp [State.assign] at hstart
      omega
    · rw [hsame r' hne] at hnext
      simp only [State.assign, Function.update_of_ne hne] at hstart
      rw [htok r' hne, htok r' hne]
      simpa [State.assign, hne] using hi.pooled r' pos hstart hnext hodd

theorem inv_inductive {ring kPageBits : Nat} (hring : 0 < ring) (hbits : kPageBits < 32) :
    (system (V := V) ring kPageBits hbits).Inductive (Inv ring) where
  init s hs := by
    have hnext : ∀ r, s.next r = s.start r := fun r => by simp [State.next, (hs r).2]
    refine ⟨fun r => (hs r).1, fun r hodd => ?_, fun r pos hstart hlt _ => ?_⟩
    · have := (hs r).1
      rw [hnext] at hodd
      omega
    · rw [hnext] at hlt
      omega
  step s op s' hi hstep := by
    cases op with
    | assign r start =>
      obtain ⟨heven, rfl⟩ := hstep
      exact assign_inv hi heven
    | torch B =>
      obtain ⟨hf, pool', hp, rfl⟩ := hstep
      exact commit_inv hi hf (torch_serves hf hring hp)
    | fused B bs D =>
      obtain ⟨hf, hg, m, m', hm, hrun, rfl⟩ := hstep
      exact commit_inv hi hf (fused_serves hf hg hbits hm hrun)

/-! ## Headline -/

/-- **Every committed pair is right.** Whatever mix of batches, accept lengths and
schedules led here, a committed token at an odd position was pooled with the
committed token of the same request at the position before it. -/
theorem committed_pairs {ring kPageBits : Nat} (hring : 0 < ring) (hbits : kPageBits < 32)
    {s : State V} (hs : (system ring kPageBits hbits).Reachable s) {r pos : Nat}
    (hstart : s.start r ≤ pos) (hnext : pos < s.next r) (hodd : pos % 2 = 1) :
    ∃ v w, s.token r (pos - 1) = some v ∧ s.token r pos = some w ∧
      s.pooled r pos = some (v, w) :=
  ((inv_inductive hring hbits).reachable s hs).pooled r pos hstart hnext hodd

/-! ## Every fitting batch can be served -/

/-- The ring before a fused launch, with some output rows. -/
def ringMemory (pool : Option Nat → V) : Memory (C2.Cell V (V × V) Unit)
  | .kvState row => pool (some row)
  | .kvOutput _ => (pool none, pool none)
  | .kvcache _ _ => ()

section Serve
variable {ring kPageBits : Nat} {hbits : kPageBits < 32} {s : State V} {B : Batch V}

theorem serve_torch (hs : (system ring kPageBits hbits).Reachable s) (hf : B.Fits s.next ring) :
    ∃ pool' pair, (system ring kPageBits hbits).Reachable (s.commit B pool' pair) := by
  obtain ⟨pool', hp⟩ := exists_scattered B.numTokens
    (fun k => stateLoc ring (B.req k) (B.writePos ring k)) B.kv s.pool
  exact ⟨pool', _, hs.step (l := .torch B) ⟨hf, pool', hp, rfl⟩⟩

theorem serve_fused (hs : (system ring kPageBits hbits).Reachable s) (hf : B.Fits s.next ring)
    {bs D : Nat} (hg : B.Grid ring bs D) :
    ∃ pool' pair, (system ring kPageBits hbits).Reachable (s.commit B pool' pair) := by
  obtain ⟨m', hrun⟩ :=
    (hg.toBlocks hf).exists_launch (pairKernel V kPageBits hbits) (ringMemory s.pool)
  exact ⟨_, _, hs.step (l := .fused B bs D) ⟨hf, hg, ringMemory s.pool, m', fun _ => rfl, hrun, rfl⟩⟩

end Serve

/-! ## A run -/

/-- Rows `tag + p`, `tag + p + 1`, .. of request 0 at positions `p`, `p + 1`, .. -/
def rows (tag p len accepted : Nat) : Batch Nat where
  numTokens := len
  kv k := tag + p + k
  req _ := 0
  pos k := p + k
  rawOutLoc k := k + 1
  segments := 1
  owner _ := 0
  first _ := 0
  len _ := len
  accepted _ := accepted

theorem rows_fits {tag p len accepted : Nat} {next : Nat → Nat} {ring : Nat} (hp : next 0 = p)
    (h1 : 1 ≤ accepted) (hle : accepted ≤ len) (hshort : accepted < len → len < ring) :
    (rows tag p len accepted).Fits next ring where
  owner_inj b b' hb hb' _ := by
    have hb : b < 1 := hb
    have hb' : b' < 1 := hb'
    omega
  lt b i _ hi := by simpa [rows] using hi
  req _ _ _ _ := rfl
  pos b i _ _ := by simp [rows, hp]
  live b i _ _ := by simp [rows]
  covered k hk _ := ⟨0, k, Nat.one_pos, hk, by simp [rows]⟩
  accepted_pos _ _ := h1
  accepted_le _ _ := hle
  short _ _ := hshort

theorem rows_grid {tag p len accepted ring : Nat} (h1 : 1 ≤ len) (hring : len < ring)
    (hlen : len < 2 ^ 31) : (rows tag p len accepted).Grid ring 1 len where
  rows := (Nat.one_mul len).symm
  one_le := h1
  ring := hring
  blocks c hc := .inl ⟨0, Nat.one_pos, by
    obtain rfl : c = 0 := by omega
    exact (Nat.zero_mul _).symm, rfl⟩
  int32 k hk := by
    have hk : k < len := hk
    show k + 1 < 2 ^ 31
    omega

/-- Ring of 4: a prefill chunk of 3, a fused verify block of 3 of which 2 are
accepted, a compact block of 2 of which 1 is accepted. Position 5 pairs with the
accepted row of position 4; position 5 of the first block was rejected. -/
theorem mixed_run : ∃ s : State Nat, (system 4 6 (by decide)).Reachable s ∧
    s.pooled 0 5 = some (104, 205) := by
  let s₀ : State Nat := ⟨fun _ => 0, fun _ => 0, fun _ => [], fun _ _ => none⟩
  have h₀ : (system 4 6 (by decide)).Reachable s₀ := ⟨s₀, [], fun _ => ⟨rfl, rfl⟩, .nil _⟩
  obtain ⟨_, _, h₁⟩ := serve_torch h₀
    (rows_fits rfl (by decide) (by decide) (by decide) : (rows 0 0 3 3).Fits _ 4)
  obtain ⟨_, _, h₂⟩ := serve_fused h₁
    (rows_fits rfl (by decide) (by decide) (by decide) : (rows 100 3 3 2).Fits _ 4)
    (rows_grid (by decide) (by decide) (by decide))
  obtain ⟨_, _, h₃⟩ := serve_torch h₂
    (rows_fits rfl (by decide) (by decide) (by decide) : (rows 200 5 2 1).Fits _ 4)
  obtain ⟨v, w, hv, hw, hpair⟩ := committed_pairs (r := 0) (by decide) (by decide) h₃
    (Nat.zero_le 5) (Nat.lt_of_lt_of_eq (Nat.lt_succ_self 5) rfl) (by decide)
  refine ⟨_, h₃, hpair.trans ?_⟩
  obtain rfl : 104 = v := Option.some.inj hv
  obtain rfl : 205 = w := Option.some.inj hw
  rfl

end FlashSpark.L3.PairRing
