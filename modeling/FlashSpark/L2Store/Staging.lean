import FlashSpark.Core.Stream
import FlashSpark.L2Store.EngramBackend

/-!
# Lookups through pinned staging buffers

`adapter/engram_backend.py:171-201` (`owned`): a lookup on the GPU copies its ids into a
pinned buffer, has the row store called on the host, copies the rows back and gathers
them. The buffers are shared by all calls of one capacity, the host runs ahead of the
device, and the calls are also captured in graphs and replayed: only the order of the
stream keeps one call's rows from another's.

* `owned_issues`: what a call adds to the stream.
* `call_whole`, `call_part`: what the operations of one call do.
* `staging_exact`: in every run the tensors are what the calls, each taken at once, leave.
-/
namespace FlashSpark.L2.Staging
open RowStore TpShard

/-- `int.bit_length` of a number that is not negative. -/
def bitLength (n : Nat) : Nat := if n = 0 then 0 else n.log2 + 1

/-- The rows of a staging buffer. mirrors adapter/engram_backend.py:176 -/
def capacity (count : Nat) : Nat := 1 <<< bitLength (count - 1)

theorem le_capacity (count : Nat) : count ≤ capacity count := by
  unfold capacity bitLength
  rw [Nat.one_shiftLeft]
  split
  · omega
  · have h := Nat.lt_log2_self (n := count - 1)
    omega

/-- The pinned buffers `ids`, `w`, `s` and their copies `dw`, `ds` on the device. -/
structure Buffers where
  ids : Nat → Int
  w : Nat → UInt8
  s : Nat → UInt8
  dw : Nat → UInt8
  ds : Nat → UInt8

/-- `Work`: which buffers it points into, and how many ids. -/
structure HostWork where
  capacity : Nat
  count : Nat

variable {X Y K M : Type}

/-- The tensors of the model: ids to be looked up, and rows that were. -/
structure Tensors (X Y M : Type) where
  ids : X → Nat → Int
  rows : Y → List M

/-- The memory of the device and the pinned memory; buffers by capacity. -/
structure Dev (X Y M : Type) where
  buf : Nat → Buffers
  tensors : Tensors X Y M

/-- What is on the stream: the operations of `owned`, and other kernels. -/
inductive Op (X Y K : Type) where
  | copyIds (capacity count : Nat) (indices : X)
  | hostFunc (work : HostWork)
  | copyWeights (capacity count : Nat)
  | copyScales (capacity count : Nat)
  | gather (capacity count : Nat) (out : Y)
  | kernel (k : K)

/-- `dst[:n] = src[:n]`. -/
def copyPrefix {α : Type} (dst src : Nat → α) (n : Nat) : Nat → α := fun i => if i < n then src i else dst i

section Device
variable [DecidableEq Y] (st : Store) (pool : Bool) (numel : X → Nat)
  (engramGather : Gather Bytes Bytes M) (exec : K → Tensors X Y M → Tensors X Y M)

/-- `row_store_lookup` on the ids of a buffer returned, and left these rows in it. -/
def Looked (ids : List Int) (b b' : Buffers) : Prop :=
  ∃ σ k work, (lookups st pool).Reachable σ ∧ σ.works[k]? = some work ∧ Returned σ k ∧ work.ids = ids ∧
    work.weights₀ = b.w ∧ work.scales₀ = b.s ∧ b' = { b with w := work.weights, s := work.scales }

/-- The rows that `engram_gather` is given for `sequential[:count]`. -/
def gathered (b : Buffers) (capacity count : Nat) : List M :=
  (List.range count).map fun i : Nat => engramGather (n := capacity)
    (fun k : Fin capacity => slice b.dw (k * kWeightBytes) kWeightBytes)
    (fun k : Fin capacity => slice b.ds (k * kScaleBytes) kScaleBytes) i none

/-- mirrors adapter/engram_backend.py:192-200, one operation after the other -/
def device : LTS (Dev X Y M) (Op X Y K) where
  init _ := True
  step d op d' :=
    match op with
    | .copyIds capacity count x => d' = { d with
        buf := Function.update d.buf capacity
          { d.buf capacity with ids := copyPrefix (d.buf capacity).ids (d.tensors.ids x) count } }
    | .hostFunc work => ∃ b', Looked st pool ((List.range work.count).map (d.buf work.capacity).ids)
        (d.buf work.capacity) b' ∧ d' = { d with buf := Function.update d.buf work.capacity b' }
    | .copyWeights capacity count => d' = { d with
        buf := Function.update d.buf capacity
          { d.buf capacity with dw := copyPrefix (d.buf capacity).dw (d.buf capacity).w (count * kWeightBytes) } }
    | .copyScales capacity count => d' = { d with
        buf := Function.update d.buf capacity
          { d.buf capacity with ds := copyPrefix (d.buf capacity).ds (d.buf capacity).s (count * kScaleBytes) } }
    | .gather capacity count y => d' = { d with
        tensors.rows := Function.update d.tensors.rows y (gathered engramGather (d.buf capacity) capacity count) }
    | .kernel k => d' = { d with tensors := exec k d.tensors }

end Device

/-! ## The host -/

/-- The index of the device, the module's dictionaries, and the stream. -/
structure Host (X Y K : Type) where
  index : Nat
  staging : List Nat
  works : List (Nat × HostWork)
  stream : Stream (Op X Y K)

def Host.work (h : Host X Y K) (count : Nat) : Option HostWork :=
  (h.works.find? fun e => e.1 == count).map Prod.snd

def Host.issue (h : Host X Y K) (ops : List (Op X Y K)) : Host X Y K := { h with stream := h.stream.issue ops }

/-- `error` is what `cudaLaunchHostFunc` returns.
mirrors adapter/engram_backend.py:171-201 (`owned`) -/
def owned (numel : X → Nat) (h : Host X Y K) (indices : X) (out : Y) (error : Nat) :
    Option String × Host X Y K :=
  let count := numel indices
  if count = 0 then (none, h)
  else
    let key := capacity count
    if key ∉ h.staging ∧ h.stream.capture.isSome = true then
      (some ("Engram staging (" ++ toString h.index ++ ", " ++ toString key ++
        ") must be warmed before graph capture"), h)
    else
      let h := if key ∈ h.staging then h else { h with staging := h.staging ++ [key] }
      let h := if (h.work count).isSome = true then h else { h with works := h.works ++ [(count, ⟨key, count⟩)] }
      let work := (h.work count).getD ⟨key, count⟩
      let h := h.issue [.copyIds key count indices]
      if error ≠ 0 then (some ("CUDA Engram host callback failed: " ++ toString error), h)
      else
        (none, h.issue [.hostFunc work, .copyWeights key count, .copyScales key count, .gather key count out])

/-! ## Calls -/

/-- What the host asks for: a lookup, one whose callback could not be launched, another kernel. -/
inductive Call (X Y K : Type) where
  | lookup (indices : X) (out : Y)
  | stray (indices : X)
  | kernel (k : K)

def Call.ops (numel : X → Nat) : Call X Y K → List (Op X Y K)
  | lookup x y =>
    let count := numel x
    [.copyIds (capacity count) count x, .hostFunc ⟨capacity count, count⟩, .copyWeights (capacity count) count,
      .copyScales (capacity count) count, .gather (capacity count) count y]
  | stray x => [.copyIds (capacity (numel x)) (numel x) x]
  | kernel k => [.kernel k]

/-- The call that a call of `owned` is. -/
def ownedCalls (numel : X → Nat) (h : Host X Y K) (indices : X) (out : Y) (error : Nat) :
    List (Call X Y K) :=
  if numel indices = 0 ∨ capacity (numel indices) ∉ h.staging ∧ h.stream.capture.isSome = true then []
  else if error ≠ 0 then [.stray indices]
  else [.lookup indices out]

/-- The works point into the buffers of their capacity. -/
def WorksOk (h : Host X Y K) : Prop := ∀ count work, h.work count = some work → work = ⟨capacity count, count⟩

section Issue
variable {numel : X → Nat} {h : Host X Y K} {x : X} {y : Y} {error : Nat}

theorem WorksOk.add (hw : WorksOk h) (count : Nat) :
    WorksOk { h with works := h.works ++ [(count, ⟨capacity count, count⟩)] } := by
  intro n work hfind
  unfold Host.work at hfind
  rw [List.find?_append, Option.map_eq_some_iff] at hfind
  obtain ⟨e, he, rfl⟩ := hfind
  rw [Option.or_eq_some_iff] at he
  rcases he with he | ⟨-, he⟩
  · exact hw n e.2 (by rw [Host.work, he]; rfl)
  · have hn := List.find?_some he
    obtain rfl := List.mem_singleton.mp (List.mem_of_find?_eq_some he)
    rw [beq_iff_eq] at hn
    rw [← hn]

/-- A call adds its operations to the stream, all of them or, where the launch fails, the first. -/
theorem owned_issues (hw : WorksOk h) :
    WorksOk (owned numel h x y error).2 ∧
      (owned numel h x y error).2.stream =
        h.stream.issue ((ownedCalls numel h x y error).flatMap (Call.ops numel)) := by
  unfold owned ownedCalls
  dsimp only
  by_cases h0 : numel x = 0
  · rw [if_pos h0, if_pos (.inl h0)]
    exact ⟨hw, (Stream.issue_nil _).symm⟩
  by_cases hcold : capacity (numel x) ∉ h.staging ∧ h.stream.capture.isSome = true
  · rw [if_neg h0, if_pos hcold, if_pos (.inr hcold)]
    exact ⟨hw, (Stream.issue_nil _).symm⟩
  rw [if_neg h0, if_neg hcold, if_neg (not_or.mpr ⟨h0, hcold⟩)]
  -- the dictionaries, with their new entries
  generalize hh₁ : (if capacity (numel x) ∈ h.staging then h
    else { h with staging := h.staging ++ [capacity (numel x)] }) = h₁
  have hw₁ : WorksOk h₁ ∧ h₁.stream = h.stream := by
    subst hh₁
    split
    · exact ⟨hw, rfl⟩
    · exact ⟨hw, rfl⟩
  generalize hh₂ : (if (h₁.work (numel x)).isSome = true then h₁
    else { h₁ with works := h₁.works ++ [(numel x, ⟨capacity (numel x), numel x⟩)] }) = h₂
  have hw₂ : WorksOk h₂ ∧ h₂.stream = h.stream := by
    subst hh₂
    split
    · exact hw₁
    · exact ⟨hw₁.1.add _, hw₁.2⟩
  have hwork : (h₂.work (numel x)).getD ⟨capacity (numel x), numel x⟩ = ⟨capacity (numel x), numel x⟩ := by
    cases hfind : h₂.work (numel x) with
    | none => rfl
    | some work => exact hw₂.1 _ _ hfind
  rw [hwork]
  by_cases herror : error ≠ 0
  · rw [if_pos herror, if_pos herror]
    exact ⟨hw₂.1, by rw [← hw₂.2]; rfl⟩
  · rw [if_neg herror, if_neg herror]
    refine ⟨hw₂.1, ?_⟩
    show (h₂.stream.issue _).issue _ = _
    rw [Stream.issue_issue, hw₂.2]
    rfl

end Issue

/-! ## What a call does -/

section Effect
variable [DecidableEq Y] [Zero M]

/-- What the rank contributes to the row of an id. -/
def ownRow (deq : Bytes → Bytes → M) (file : Bytes) (woff soff lo hi : Nat) (id : Int) : M :=
  if lo ≤ id.toNat ∧ id.toNat < hi then
    deq (block file (woff + id.toNat * kWeightBytes) kWeightBytes)
      (block file (soff + id.toNat * kScaleBytes) kScaleBytes)
  else 0

/-- A call taken at once. -/
def Call.effect (numel : X → Nat) (exec : K → Tensors X Y M → Tensors X Y M) (row : Int → M) :
    Call X Y K → Tensors X Y M → Tensors X Y M
  | lookup x y, t =>
    { t with rows := Function.update t.rows y ((List.range (numel x)).map fun i => row (t.ids x i)) }
  | stray _, t => t
  | kernel k, t => exec k t

variable {numel : X → Nat} {exec : K → Tensors X Y M → Tensors X Y M} {deq : Bytes → Bytes → M}
  {engramGather : Gather Bytes Bytes M} {st : Store} {pool : Bool} {file : Bytes} {rows woff soff lo hi : Nat}

theorem slice_copyPrefix {α : Type} (dst src : Nat → α) {n off len : Nat} (h : off + len ≤ n) :
    slice (copyPrefix dst src n) off len = slice src off len :=
  slice_congr fun i hi => if_pos (by omega)

/-- A lookup that returned, copied back, gathers the rows of its ids. -/
theorem gathered_looked (hg : GatherSpec deq engramGather)
    (hzero : deq (List.replicate kWeightBytes 0) (List.replicate kScaleBytes 0) = 0)
    (hload : Loaded file rows woff soff lo hi st) {ids : Nat → Int} {count : Nat} {b b' b'' : Buffers}
    (hlook : Looked st pool ((List.range count).map ids) b b')
    (hdw : b''.dw = copyPrefix b'.dw b'.w (count * kWeightBytes))
    (hds : b''.ds = copyPrefix b'.ds b'.s (count * kScaleBytes)) :
    gathered engramGather b'' (capacity count) count =
      (List.range count).map fun i => ownRow deq file woff soff lo hi (ids i) := by
  obtain ⟨σ, k, work, hσ, hk, hret, hids, -, -, rfl⟩ := hlook
  refine List.map_congr_left fun i hi => ?_
  have hi := List.mem_range.mp hi
  have hlen : i < work.ids.length := by rw [hids]; simpa using hi
  have hid : work.id i = ids i := by
    rw [Work.id, hids, List.getD_eq_getElem _ _ (by simpa using hi), List.getElem_map, List.getElem_range]
  obtain ⟨-, hdel⟩ := (lookup_refines_table hload hσ).2.2.1 k work hk hret i hlen
  unfold Delivered at hdel
  dsimp only at hdel
  rw [hid] at hdel
  have hw := Nat.mul_le_mul_right kWeightBytes (show i + 1 ≤ count from hi)
  have hs := Nat.mul_le_mul_right kScaleBytes (show i + 1 ≤ count from hi)
  rw [Nat.succ_mul] at hw hs
  have hgather := hg.all (fun k : Fin (capacity count) => slice b''.dw (k * kWeightBytes) kWeightBytes)
    (fun k => slice b''.ds (k * kScaleBytes) kScaleBytes) ⟨i, Nat.lt_of_lt_of_le hi (le_capacity count)⟩
  refine hgather.trans ?_
  dsimp only
  rw [hdw, hds, slice_copyPrefix _ _ hw, slice_copyPrefix _ _ hs, ownRow]
  split at hdel
  · rename_i hin
    rw [if_pos hin, (Prod.mk.inj hdel).1, (Prod.mk.inj hdel).2]
  · rename_i hout
    rw [if_neg hout, (Prod.mk.inj hdel).1, (Prod.mk.inj hdel).2, hzero]

/-- The operations of a call, one after the other, are the call taken at once. -/
theorem call_whole (hg : GatherSpec deq engramGather)
    (hzero : deq (List.replicate kWeightBytes 0) (List.replicate kScaleBytes 0) = 0)
    (hload : Loaded file rows woff soff lo hi st) (c : Call X Y K) (d d' : Dev X Y M)
    (hrun : (device st pool engramGather exec).Run d (c.ops numel) d') :
    d'.tensors = c.effect numel exec (ownRow deq file woff soff lo hi) d.tensors := by
  cases c with
  | lookup x y =>
    obtain ⟨d₁, rfl, hrun⟩ := hrun.head
    obtain ⟨d₂, ⟨b', hlook, rfl⟩, hrun⟩ := hrun.head
    obtain ⟨d₃, rfl, hrun⟩ := hrun.head
    obtain ⟨d₄, rfl, hrun⟩ := hrun.head
    obtain ⟨d₅, rfl, hrun⟩ := hrun.head
    cases hrun
    simp only [Function.update_self] at hlook
    have hids : (List.range (numel x)).map (copyPrefix (d.buf (capacity (numel x))).ids (d.tensors.ids x)
        (numel x)) = (List.range (numel x)).map (d.tensors.ids x) :=
      List.map_congr_left fun i hi => if_pos (List.mem_range.mp hi)
    rw [hids] at hlook
    simp only [Call.effect, Function.update_self]
    rw [gathered_looked hg hzero hload hlook]
    · rfl
    · rfl
  | stray x =>
    obtain ⟨d₁, rfl, hrun⟩ := hrun.head
    cases hrun
    rfl
  | kernel k =>
    obtain ⟨d₁, rfl, hrun⟩ := hrun.head
    cases hrun
    rfl

omit [Zero M] in
/-- Short of its last operation a call changes no tensor. -/
theorem call_part (c : Call X Y K) (d d' : Dev X Y M) (done rest : List (Op X Y K))
    (hops : c.ops numel = done ++ rest) (hrest : rest ≠ [])
    (hrun : (device st pool engramGather exec).Run d done d') : d'.tensors = d.tensors := by
  -- what is done is a part of all but the last operation, and none of these writes a tensor
  have hquiet : ∀ op ∈ (c.ops numel).dropLast, ∀ d d' : Dev X Y M,
      (device st pool engramGather exec).step d op d' → d'.tensors = d.tensors := by
    intro op hop d d' hstep
    cases c with
    | lookup x y =>
      simp only [Call.ops, List.dropLast, List.mem_cons, List.not_mem_nil, or_false] at hop
      rcases hop with rfl | rfl | rfl | rfl
      · obtain rfl := hstep
        rfl
      · obtain ⟨b', -, rfl⟩ := hstep
        rfl
      · obtain rfl := hstep
        rfl
      · obtain rfl := hstep
        rfl
    | stray x => cases hop
    | kernel k => cases hop
  have hdone : ∀ op ∈ done, op ∈ (c.ops numel).dropLast := by
    intro op hop
    rw [hops, List.dropLast_append_of_ne_nil hrest]
    exact List.mem_append_left _ hop
  clear hops
  induction hrun with
  | nil => rfl
  | cons hstep _ ih =>
    rw [ih fun op hop => hdone op (List.mem_cons_of_mem _ hop)]
    exact hquiet _ (hdone _ List.mem_cons_self) _ _ hstep

theorem calls_atomic (hg : GatherSpec deq engramGather)
    (hzero : deq (List.replicate kWeightBytes 0) (List.replicate kScaleBytes 0) = 0)
    (hload : Loaded file rows woff soff lo hi st) :
    Atomic (device st pool engramGather exec) (Call.ops numel) Dev.tensors
      (Call.effect numel exec (ownRow deq file woff soff lo hi)) where
  whole := call_whole hg hzero hload
  part c d d' done rest hops hrest hrun := call_part c d d' done rest hops hrest hrun

end Effect

/-! ## Runs of the host and the device -/

/-- The ghost `calls` is the stream as the host asked for it, with nothing run. -/
structure State (X Y K M : Type) where
  host : Host X Y K
  dev : Dev X Y M
  calls : Stream (Call X Y K)

inductive Label (X Y K : Type) where
  | owned (indices : X) (out : Y) (error : Nat)
  | kernel (k : K)
  | beginCapture
  | endCapture
  | replay (graph : Nat)
  | device

section System
variable [DecidableEq Y] (st : Store) (pool : Bool) (numel : X → Nat)
  (engramGather : Gather Bytes Bytes M) (exec : K → Tensors X Y M → Tensors X Y M)

/-- The host calls, captures and replays; the device runs what is at the head of the stream. -/
def system : LTS (State X Y K M) (Label X Y K) where
  init σ := (∃ index, σ.host = ⟨index, [], [], Stream.empty⟩) ∧ σ.calls = Stream.empty
  step σ l σ' :=
    match l with
    | .owned x y error => σ' = { σ with
        host := (owned numel σ.host x y error).2
        calls := σ.calls.issue (ownedCalls numel σ.host x y error) }
    | .kernel k => σ' = { σ with host := σ.host.issue [.kernel k], calls := σ.calls.issue [.kernel k] }
    | .beginCapture => σ' = { σ with
        host.stream := σ.host.stream.beginCapture
        calls := σ.calls.beginCapture }
    | .endCapture => σ' = { σ with
        host.stream := σ.host.stream.endCapture
        calls := σ.calls.endCapture }
    | .replay i => σ' = { σ with
        host.stream := σ.host.stream.replay i
        calls := σ.calls.replay i }
    | .device => ∃ op rest d', σ.host.stream.queue = op :: rest ∧
        (device st pool engramGather exec).step σ.dev op d' ∧
        σ' = { σ with host.stream.queue := rest, dev := d' }

end System

/-- The host's stream is that of the calls, behind by the operations that have run. -/
structure Inv [DecidableEq Y] (st : Store) (pool : Bool) (numel : X → Nat) (engramGather : Gather Bytes Bytes M)
    (exec : K → Tensors X Y M → Tensors X Y M) (start : Dev X Y M) (σ : State X Y K M) : Prop where
  works : WorksOk σ.host
  behind : ∃ done, Stream.Behind done σ.host.stream (σ.calls.expand (Call.ops numel)) ∧
    (device st pool engramGather exec).Run start done σ.dev

section Runs
variable [DecidableEq Y] {st : Store} {pool : Bool} {numel : X → Nat} {engramGather : Gather Bytes Bytes M}
  {exec : K → Tensors X Y M → Tensors X Y M} {start : Dev X Y M} {σ σ' : State X Y K M}

/-- What the host adds to its stream, the calls stand for. -/
theorem Inv.host (h : Inv st pool numel engramGather exec start σ) {host : Host X Y K}
    {calls : Stream (Call X Y K)} (hw : WorksOk host)
    (hbehind : ∀ done, Stream.Behind done σ.host.stream (σ.calls.expand (Call.ops numel)) →
      Stream.Behind done host.stream (calls.expand (Call.ops numel))) :
    Inv st pool numel engramGather exec start { σ with host := host, calls := calls } := by
  obtain ⟨done, hdone, hrun⟩ := h.behind
  exact ⟨hw, done, hbehind done hdone, hrun⟩

theorem Inv.step (h : Inv st pool numel engramGather exec start σ) {l : Label X Y K}
    (hstep : (system st pool numel engramGather exec).step σ l σ') :
    Inv st pool numel engramGather exec start σ' := by
  cases l with
  | owned x y error =>
    obtain rfl := hstep
    obtain ⟨hw, hissue⟩ := @owned_issues X Y K numel σ.host x y error h.works
    refine h.host hw fun done hdone => ?_
    rw [hissue, Stream.expand_issue]
    exact hdone.issue _
  | kernel k =>
    obtain rfl := hstep
    refine h.host h.works fun done hdone => ?_
    rw [Stream.expand_issue]
    exact hdone.issue _
  | beginCapture =>
    obtain rfl := hstep
    exact h.host h.works fun done hdone => hdone.beginCapture
  | endCapture =>
    obtain rfl := hstep
    refine h.host h.works fun done hdone => ?_
    rw [Stream.expand_endCapture]
    exact hdone.endCapture
  | replay i =>
    obtain rfl := hstep
    refine h.host h.works fun done hdone => ?_
    rw [Stream.expand_replay]
    exact hdone.replay i
  | device =>
    obtain ⟨op, rest, d', hqueue, hop, rfl⟩ := hstep
    obtain ⟨done, hdone, hrun⟩ := h.behind
    exact ⟨h.works, done ++ [op], hdone.pop hqueue, hrun.snoc hop⟩

/-- **Staging keeps the lookups apart.** In every run, with the host ahead of the device
as far as it likes, graphs captured and replayed, and buffers shared by the calls of one
capacity: the tensors are what the first calls issued leave when each is taken at once,
a lookup writing the row of every id its tensor then holds; and they are what all calls
leave once the stream is empty. -/
theorem staging_exact [Zero M] {deq : Bytes → Bytes → M} (hg : GatherSpec deq engramGather)
    (hzero : deq (List.replicate kWeightBytes 0) (List.replicate kScaleBytes 0) = 0) {file : Bytes}
    {rows woff soff lo hi : Nat} (hload : Loaded file rows woff soff lo hi st) {σ₀ : State X Y K M}
    {ls : List (Label X Y K)} (hinit : (system st pool numel engramGather exec).init σ₀)
    (hrun : (system st pool numel engramGather exec).Run σ₀ ls σ) :
    ∃ n, n ≤ σ.calls.queue.length ∧
      σ.dev.tensors = (σ.calls.queue.take n).foldl
        (fun t c => c.effect numel exec (ownRow deq file woff soff lo hi) t) σ₀.dev.tensors ∧
      (σ.host.stream.queue = [] → n = σ.calls.queue.length) := by
  have hinv : Inv st pool numel engramGather exec σ₀.dev σ := by
    refine hrun.keeps (P := Inv st pool numel engramGather exec σ₀.dev) (fun _ _ _ h hstep => h.step hstep) ?_
    obtain ⟨⟨index, hhost⟩, hcalls⟩ := hinit
    refine ⟨?_, [], ?_, .nil _⟩
    · rw [hhost]
      intro count work hwork
      cases hwork
    · rw [hhost, hcalls]
      exact ⟨rfl, rfl, rfl⟩
  obtain ⟨done, hbehind, hdone⟩ := hinv.behind
  exact (calls_atomic hg hzero hload).run hbehind.queue hdone

end Runs

/-! ## A lookup, captured and replayed -/

/-- Ids 0 and 1. -/
def demoState : State Unit Unit Empty Nat where
  host := ⟨0, [], [], Stream.empty⟩
  dev := ⟨fun _ => ⟨fun _ => 0, fun _ => 9, fun _ => 9, fun _ => 0, fun _ => 0⟩,
    fun _ (i : Nat) => (i : Int), fun _ => []⟩
  calls := Stream.empty

abbrev headByte (w _ : Bytes) : Nat := (w.headD 0).toNat

abbrev demoSystem : LTS (State Unit Unit Empty Nat) (Label Unit Unit Empty) :=
  system demoStore false (fun _ => 2) (EngramBackend.plainGather headByte) nofun

theorem demo_looked (b : Buffers) : ∃ b', Looked demoStore false [0, 1] b b' := by
  let asked : RowStore.State := lookup false ⟨Cache.empty, [], [], none⟩ [0, 1] b.w b.s
  have hasked : (lookups demoStore false).Reachable asked :=
    ⟨_, [.lookup [0, 1] b.w b.s], rfl, .cons ⟨rfl, rfl⟩ (.nil _)⟩
  obtain ⟨ls, σ, hrun, -, hret, hkeep⟩ := EngramBackend.lookups_drain demoStore_loaded hasked rfl (by
    intro w hw id hid
    obtain rfl := List.mem_singleton.mp hw
    have hid : id ∈ [(0 : Int), 1] := hid
    simp only [List.mem_cons, List.not_mem_nil, or_false] at hid
    unfold BadId
    omega)
  obtain ⟨w, hw, hsame⟩ := hkeep 0 _ rfl
  exact ⟨_, σ, 0, w, hasked.run hrun, hw, hret 0, hsame.ids, hsame.weights, hsame.scales, rfl⟩

/-- The device runs the operations of one lookup. -/
theorem demo_runs {σ : State Unit Unit Empty Nat} {rest : List (Op Unit Unit Empty)}
    (hq : σ.host.stream.queue = (Call.lookup () ()).ops (fun _ => 2) ++ rest)
    (hids : σ.dev.tensors.ids = fun _ (i : Nat) => (i : Int)) :
    ∃ σ', demoSystem.Run σ (List.replicate 5 .device) σ' ∧ σ'.host.stream.queue = rest ∧ σ'.calls = σ.calls ∧
      σ'.dev.tensors.ids = fun _ (i : Nat) => (i : Int) := by
  obtain ⟨⟨index, staging, works, ⟨queue, capture, graphs⟩⟩, ⟨buf, ids, out⟩, calls⟩ := σ
  dsimp only at hq hids
  subst hq hids
  obtain ⟨b', hlook⟩ := demo_looked
    { buf (capacity 2) with ids := copyPrefix (buf (capacity 2)).ids (fun i : Nat => (i : Int)) 2 }
  refine ⟨_, .cons ⟨_, _, _, rfl, rfl, rfl⟩ (.cons ⟨_, _, _, rfl, ⟨b', ?_, rfl⟩, rfl⟩
    (.cons ⟨_, _, _, rfl, rfl, rfl⟩ (.cons ⟨_, _, _, rfl, rfl, rfl⟩ (.cons ⟨_, _, _, rfl, rfl, rfl⟩ (.nil _))))),
    rfl, rfl, rfl⟩
  simp only [Function.update_self]
  exact hlook

/-- Called once, captured, replayed: row 0 is there and row 1 is another rank's. -/
theorem demo_replayed : ∃ σ ls, demoSystem.Run demoState ls σ ∧ σ.dev.tensors.rows () = [7, 0] := by
  let calls : List (Label Unit Unit Empty) :=
    [.owned () () 0, .beginCapture, .owned () () 0, .endCapture, .replay 0]
  obtain ⟨σ₁, hrun₁, hq₁, hids₁, hcalls₁⟩ : ∃ σ₁, demoSystem.Run demoState calls σ₁ ∧
      σ₁.host.stream.queue = (Call.lookup () ()).ops (fun _ => 2) ++ (Call.lookup () ()).ops (fun _ => 2) ∧
      σ₁.dev.tensors.ids = (fun _ (i : Nat) => (i : Int)) ∧ σ₁.calls.queue = [.lookup () (), .lookup () ()] :=
    ⟨_, .cons rfl (.cons rfl (.cons rfl (.cons rfl (.cons rfl (.nil _))))), rfl, rfl, rfl⟩
  obtain ⟨σ₂, hrun₂, hq₂, hcalls₂, hids₂⟩ := demo_runs hq₁ hids₁
  obtain ⟨σ₃, hrun₃, hq₃, hcalls₃, -⟩ := @demo_runs σ₂ [] (by rw [hq₂, List.append_nil]) hids₂
  have hrun := hrun₁.append (hrun₂.append hrun₃)
  have hcalls : σ₃.calls.queue = [.lookup () (), .lookup () ()] := by rw [hcalls₃, hcalls₂, hcalls₁]
  obtain ⟨n, -, htensors, hall⟩ := staging_exact (EngramBackend.plainGather_spec headByte) (by decide)
    demoStore_loaded ⟨⟨0, rfl⟩, rfl⟩ hrun
  refine ⟨σ₃, _, hrun, ?_⟩
  rw [htensors, hall hq₃, hcalls]
  decide +kernel

end FlashSpark.L2.Staging
