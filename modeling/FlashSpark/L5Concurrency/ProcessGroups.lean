import FlashSpark.Core.Raise
import FlashSpark.Core.Strided

/-!
# The process groups of `parallel_state.py`

`initialize_model_parallel` cuts the ranks into groups ten times over, each time by
nested loops of its own: tensor, decode-context, attention-context, attention-tensor,
three expert groups, pipeline, and single ranks. A `GroupCoordinator` then keeps the
last group of the list that holds its own rank. Each list of groups is `Cut` with the
stride and the width of one axis of the grid the ranks form.

* `initialize_iff`: all ranks of the world get through exactly where the sizes pass the
  checks and divide the tensor-parallel size without remainder, and then with what groups:
  on each axis the ranks that differ in that coordinate only. The assertion that the second
  attention-context communicator spans the same ranks as the first never fails there;
* `groups_agree`: in such a world each global partitions the ranks, and the ranks of one
  group agree on what the group is and on who stands where in it;
* `exact_of_last`: where a size leaves a remainder, the last rank of the first
  tensor-parallel group is in no group of `_ATTN_TP` or of `_MOE_TP`;
* `initialize_rank_lt`: a joiner whose rank lies past its local world never gets through.

The widths come from `derive_parallel_widths`, which is not in this repository: `Widths`
holds them with what floor division promises. The branches for a second initialisation
(every global is `None` before the first) and the communicators a group opens are left out.
-/
namespace FlashSpark.L5.ProcessGroups

/-- The sizes `initialize_model_parallel` is called with.
mirrors patches/source/python/sglang/srt/distributed/parallel_state.py:2348-2363 -/
structure Sizes where
  tensor_model_parallel_size : Nat
  expert_model_parallel_size : Nat
  pipeline_model_parallel_size : Nat
  attention_data_parallel_size : Nat
  attention_context_model_parallel_size : Nat
  moe_data_model_parallel_size : Nat
  decode_context_parallel_size : Int
  duplicate_tp_group : Bool
  duplicate_attn_cp_group : Bool
  recovered_rank : Bool
  rank_offset : Nat
  deriving DecidableEq

/-- What `derive_parallel_widths` returns for them, where it returns: a floor division
raises for a divisor of zero, and times its divisors gives no more than was divided. -/
structure Widths (s : Sizes) where
  attn_tp_size : Nat
  moe_tp_size : Nat
  attn_pos : 0 < s.attention_data_parallel_size ∧ 0 < s.attention_context_model_parallel_size
  moe_pos : 0 < s.expert_model_parallel_size ∧ 0 < s.moe_data_model_parallel_size
  attn_le : s.attention_data_parallel_size *
    (attn_tp_size * s.attention_context_model_parallel_size) ≤ s.tensor_model_parallel_size
  moe_le : moe_tp_size * s.expert_model_parallel_size * s.moe_data_model_parallel_size ≤
    s.tensor_model_parallel_size

/-- No division leaves a remainder. -/
structure Widths.Exact {s : Sizes} (w : Widths s) : Prop where
  attn : s.attention_data_parallel_size *
    (w.attn_tp_size * s.attention_context_model_parallel_size) = s.tensor_model_parallel_size
  moe : w.moe_tp_size * s.expert_model_parallel_size * s.moe_data_model_parallel_size =
    s.tensor_model_parallel_size

/-- `tp_size // attn_cp_size // attn_dp_size`, and likewise for the experts. -/
def Widths.floor (s : Sizes)
    (ha : 0 < s.attention_data_parallel_size ∧ 0 < s.attention_context_model_parallel_size)
    (hm : 0 < s.expert_model_parallel_size ∧ 0 < s.moe_data_model_parallel_size) : Widths s where
  attn_tp_size := s.tensor_model_parallel_size / s.attention_context_model_parallel_size /
    s.attention_data_parallel_size
  moe_tp_size := s.tensor_model_parallel_size / s.expert_model_parallel_size /
    s.moe_data_model_parallel_size
  attn_pos := ha
  moe_pos := hm
  attn_le := by
    rw [← Nat.mul_assoc]
    exact (Nat.mul_le_mul_right _ (Nat.mul_div_le _ _)).trans (Nat.div_mul_le_self _ _)
  moe_le := by
    rw [Nat.mul_right_comm]
    exact (Nat.mul_le_mul_right _ (Nat.div_mul_le_self _ _)).trans (Nat.div_mul_le_self _ _)

/-- What the process finds: its platform, the world and its own rank in it. -/
structure Env where
  is_hip : Bool
  is_cuda : Bool
  is_npu : Bool
  get_world_size : Nat
  get_rank : Nat
  deriving DecidableEq

/-- The same process at another rank. -/
def Env.at (env : Env) (r : Nat) : Env := { env with get_rank := r }

/-- What a `GroupCoordinator` knows about its group. -/
structure GroupCoordinator where
  ranks : List Nat
  world_size : Nat
  rank_in_group : Nat
  deriving DecidableEq, Repr

/-- `GroupCoordinator.__init__`: the last group of the list that holds the rank.
mirrors parallel_state.py:280-410 -/
def groupCoordinator (env : Env) (group_ranks : List (List Nat)) (rank_offset : Nat) :
    Except String GroupCoordinator :=
  let group_ranks := if 0 < rank_offset then group_ranks.map (·.map (· + rank_offset)) else group_ranks
  match lastWith group_ranks env.get_rank with
  | some ranks => .ok ⟨ranks, ranks.length, ranks.idxOf env.get_rank⟩
  | none => .error "AssertionError"

/-- mirrors parallel_state.py:2453-2463 -/
def tpRanks (world_size tp : Nat) : List (List Nat) :=
  (List.range (world_size / tp)).map fun g => pyRange (g * tp) ((g + 1) * tp) 1

/-- mirrors parallel_state.py:2500-2505 -/
def dcpRanks (tp_groups : List (List Nat)) (dcp : Nat) : List (List Nat) :=
  tp_groups.flatMap fun g => (pyRange 0 g.length dcp).map fun start => (g.drop start).take dcp

/-- mirrors parallel_state.py:2541-2556 -/
def attnCpRanks (world_size tp attn_dp attn_tp attn_cp : Nat) : List (List Nat) :=
  (List.range (world_size / tp)).flatMap fun g =>
    (List.range attn_dp).flatMap fun dp =>
      (List.range attn_tp).map fun i =>
        pyRange (g * tp + dp * attn_tp * attn_cp + i) (g * tp + (dp + 1) * attn_tp * attn_cp + i) attn_tp

/-- mirrors parallel_state.py:2001-2006 -/
def attnCpOverlapRanks (world_size attn_tp attn_cp : Nat) : List (List Nat) :=
  (pyRange 0 world_size (attn_tp * attn_cp)).flatMap fun base =>
    (List.range attn_tp).map fun i => pyRange (base + i) (base + i + attn_tp * attn_cp) attn_tp

/-- The loops of `_ATTN_TP` and `_MOE_TP`: runs of `width` ranks.
mirrors parallel_state.py:2588-2600 and 2684-2696 -/
def runsOf (world_size tp count width : Nat) : List (List Nat) :=
  (List.range (world_size / tp)).flatMap fun g =>
    (List.range count).map fun b => pyRange (g * tp + b * width) (g * tp + (b + 1) * width) 1

def attnTpRanks (world_size tp attn_cp attn_dp attn_tp : Nat) : List (List Nat) :=
  runsOf world_size tp (attn_cp * attn_dp) attn_tp

/-- mirrors parallel_state.py:2630-2638 -/
def moeDpRanks (world_size tp moe_tp moe_ep : Nat) : List (List Nat) :=
  (List.range (world_size / tp)).flatMap fun g =>
    (List.range (moe_tp * moe_ep)).map fun i => pyRange (g * tp + i) ((g + 1) * tp + i) (moe_tp * moe_ep)

/-- mirrors parallel_state.py:2655-2666 -/
def moeEpRanks (world_size tp moe_dp moe_tp moe_ep : Nat) : List (List Nat) :=
  (List.range (world_size / tp)).flatMap fun g =>
    (List.range moe_dp).flatMap fun dp =>
      (List.range moe_tp).map fun i =>
        pyRange (g * tp + dp * moe_ep * moe_tp + i) (g * tp + dp * moe_ep * moe_tp + i + moe_ep * moe_tp) moe_tp

def moeTpRanks (world_size tp moe_ep moe_dp moe_tp : Nat) : List (List Nat) :=
  runsOf world_size tp (moe_ep * moe_dp) moe_tp

/-- mirrors parallel_state.py:2710-2718 -/
def ppRanks (world_size pp : Nat) : List (List Nat) :=
  (List.range (world_size / pp)).map fun g => pyRange g world_size (world_size / pp)

/-- mirrors parallel_state.py:2737 -/
def selfPpRanks (world_size : Nat) : List (List Nat) := (List.range world_size).map fun r => [r]

/-- The module's globals, as a first call leaves them. -/
structure Groups where
  tp : GroupCoordinator
  pdmux_prefill_tp : Option GroupCoordinator
  dcp : Option GroupCoordinator
  attn_cp : GroupCoordinator
  attn_cp_overlap : Option GroupCoordinator
  attn_tp : GroupCoordinator
  moe_dp : GroupCoordinator
  moe_ep : GroupCoordinator
  moe_tp : GroupCoordinator
  pp : GroupCoordinator
  self_pp : GroupCoordinator

/-- The text of a list of ranks in a message. -/
def reprRanks (ranks : List Nat) : String := "[" ++ ", ".intercalate (ranks.map toString) ++ "]"

/-- `_init_attn_cp_overlap_group`.
mirrors parallel_state.py:1983-2025 -/
def initAttnCpOverlapGroup (env : Env) (world_size attn_cp attn_tp rank_offset : Nat)
    (get_attn_cp_group : GroupCoordinator) : Except String (Option GroupCoordinator) := do
  if attn_cp ≤ 1 then return none
  demand (attn_tp * attn_cp ≠ 0) "range() arg 3 must not be zero"
  let group_ranks := attnCpOverlapRanks world_size attn_tp attn_cp
  let mine ← (group_ranks.find? (env.get_rank ∈ ·)).elim (.error "StopIteration") .ok
  demand (mine = get_attn_cp_group.ranks)
    ("attn_cp_overlap partition " ++ reprRanks mine ++ " does not match attn_cp " ++
      reprRanks get_attn_cp_group.ranks ++ "; the two communicators must span the " ++
      "same ranks or the overlapped collectives will not pair up")
  some <$> groupCoordinator env group_ranks rank_offset

/-- The checks before any group is built.
mirrors parallel_state.py:2421-2450 -/
def checkSizes (s : Sizes) (env : Env) (world_size : Nat) : Except String Unit := do
  let tp := s.tensor_model_parallel_size
  let dcp := s.decode_context_parallel_size
  demand (world_size = tp * s.pipeline_model_parallel_size)
    ("world_size (" ++ toString world_size ++ ") is not equal to " ++
      "tensor_model_parallel_size (" ++ toString tp ++ ") x " ++
      "pipeline_model_parallel_size (" ++ toString s.pipeline_model_parallel_size ++ ")")
  demand (¬ dcp < 1) ("decode_context_parallel_size (" ++ toString dcp ++ ") must be >= 1")
  demand (¬ (1 < dcp ∧ ¬ (env.is_hip ∨ env.is_cuda)))
    ("Decode context parallel (decode_context_parallel_size > 1) is " ++
      "currently only supported on the AMD HIP platform or CUDA platform, but got " ++
      "decode_context_parallel_size (" ++ toString dcp ++ ") on a non-HIP or non-CUDA platform.")
  demand ((tp : Int) % dcp = 0)
    ("tensor_model_parallel_size (" ++ toString tp ++ ") must be divisible by " ++
      "decode_context_parallel_size (" ++ toString dcp ++ ")")

/-- A global that is another group where the two would be the same. -/
def aliased (c : Prop) [Decidable c] (other : GroupCoordinator) (init : Except String GroupCoordinator) :
    Except String GroupCoordinator :=
  if c then pure other else init

/-- A global that stays `None` unless it is asked for. -/
def onlyIf (c : Prop) [Decidable c] (init : Except String (Option GroupCoordinator)) :
    Except String (Option GroupCoordinator) :=
  if c then init else pure none

/-- mirrors parallel_state.py:2348-2740 -/
def initializeModelParallel (s : Sizes) (w : Widths s) (env : Env) : Except String Groups := do
  let tp_size := s.tensor_model_parallel_size
  let pp_size := s.pipeline_model_parallel_size
  let world_size := if s.recovered_rank then tp_size * pp_size else env.get_world_size
  checkSizes s env world_size
  -- `world_size // tensor_model_parallel_size`
  demand (tp_size ≠ 0) "integer division or modulo by zero"
  let init (group_ranks : List (List Nat)) := groupCoordinator env group_ranks s.rank_offset
  let tp_groups := tpRanks world_size tp_size
  let tp ← init tp_groups
  let pdmux ← onlyIf s.duplicate_tp_group (some <$> init tp_groups)
  let dcp_size := s.decode_context_parallel_size.toNat
  -- the joiner's shift is not passed on here, nor to the single ranks at the end
  let dcp ← onlyIf (1 < dcp_size) (some <$> groupCoordinator env (dcpRanks tp_groups dcp_size) 0)
  let attn_cp_size := s.attention_context_model_parallel_size
  let attn_dp_size := s.attention_data_parallel_size
  let attn_tp_size := w.attn_tp_size
  let attn_cp ← aliased (attn_cp_size = tp_size) tp
    (init (attnCpRanks world_size tp_size attn_dp_size attn_tp_size attn_cp_size))
  let overlap ← onlyIf (s.duplicate_attn_cp_group ∧ env.is_hip)
    (initAttnCpOverlapGroup env world_size attn_cp_size attn_tp_size s.rank_offset attn_cp)
  let attn_tp ← aliased (attn_tp_size = tp_size) tp
    (init (attnTpRanks world_size tp_size attn_cp_size attn_dp_size attn_tp_size))
  let moe_ep_size := s.expert_model_parallel_size
  let moe_dp_size := s.moe_data_model_parallel_size
  let moe_tp_size := w.moe_tp_size
  let moe_dp ← aliased (moe_dp_size < attn_cp_size) attn_cp
    (aliased (moe_dp_size = tp_size) tp
      (init (moeDpRanks world_size tp_size moe_tp_size moe_ep_size)))
  let moe_ep ← aliased (moe_ep_size = tp_size ∧ ¬ env.is_npu) tp
    (init (moeEpRanks world_size tp_size moe_dp_size moe_tp_size moe_ep_size))
  let moe_tp ← aliased (moe_tp_size = tp_size) tp
    (init (moeTpRanks world_size tp_size moe_ep_size moe_dp_size moe_tp_size))
  let pp ← init (ppRanks world_size pp_size)
  let self_pp ← groupCoordinator env (selfPpRanks world_size) 0
  return ⟨tp, pdmux, dcp, attn_cp, overlap, attn_tp, moe_dp, moe_ep, moe_tp, pp, self_pp⟩

/-- The group of rank `r` along the axis with stride `t` and width `w`. -/
def axis (r t w : Nat) : GroupCoordinator := ⟨strided t w r, w, r / t % w⟩

/-- A list of groups that is cut along an axis gives every rank below `n` its group. -/
theorem groupCoordinator_of_cut {n t w : Nat} {groups : List (List Nat)} {env : Env}
    (h : Cut n t w groups) (hr : env.get_rank < n) :
    groupCoordinator env groups 0 = .ok (axis env.get_rank t w) := by
  rw [groupCoordinator, if_neg (lt_irrefl 0), h.lastWith_eq, if_pos hr]
  dsimp only
  rw [strided_length, strided_idxOf h.t_pos h.w_pos, axis]

theorem groupCoordinator_of_not_lt {n t w : Nat} {groups : List (List Nat)} {env : Env}
    (h : Cut n t w groups) (hr : ¬ env.get_rank < n) :
    groupCoordinator env groups 0 = .error "AssertionError" := by
  rw [groupCoordinator, if_neg (lt_irrefl 0), h.lastWith_eq, if_neg hr]

section Cuts
variable {tp : Nat} (pp : Nat)

theorem tpRanks_cut (ht : 0 < tp) : Cut (tp * pp) 1 tp (tpRanks (tp * pp) tp) := by
  have h := Cut.of_loops (G := pp) (o := 1) (tpRanks (tp * pp) tp) Nat.one_pos ht ?_
  · rwa [show pp * 1 * (1 * tp) = tp * pp by ring] at h
  intro ranks
  rw [tpRanks, Nat.mul_div_cancel_left _ ht, List.mem_map]
  constructor
  · rintro ⟨g, hg, rfl⟩
    exact ⟨g, List.mem_range.mp hg, 0, Nat.one_pos, 0, Nat.one_pos, by congr 1 <;> ring⟩
  · rintro ⟨g, hg, b, hb, i, hi, rfl⟩
    obtain rfl : b = 0 := by omega
    obtain rfl : i = 0 := by omega
    exact ⟨g, List.mem_range.mpr hg, by congr 1 <;> ring⟩

/-- Runs of `width` ranks, `count` of them to a tensor-parallel group. -/
theorem runsOf_cut {count width : Nat} (h : count * width = tp) (ht : 0 < tp) :
    Cut (tp * pp) 1 width (runsOf (tp * pp) tp count width) := by
  have hw : 0 < width := Nat.pos_of_ne_zero fun h0 => by simp [h0] at h; omega
  have hcut := Cut.of_loops (G := pp) (o := count) (runsOf (tp * pp) tp count width)
    Nat.one_pos hw ?_
  · rwa [show pp * count * (1 * width) = (count * width) * pp by ring, h] at hcut
  intro ranks
  rw [runsOf, Nat.mul_div_cancel_left _ ht, List.mem_flatMap]
  constructor
  · rintro ⟨g, hg, hr⟩
    obtain ⟨b, hb, rfl⟩ := List.mem_map.mp hr
    exact ⟨g, List.mem_range.mp hg, b, List.mem_range.mp hb, 0, Nat.one_pos, by
      rw [← h]; congr 1 <;> ring⟩
  · rintro ⟨g, hg, b, hb, i, hi, rfl⟩
    obtain rfl : i = 0 := by omega
    exact ⟨g, List.mem_range.mpr hg, List.mem_map.mpr ⟨b, List.mem_range.mpr hb, by
      rw [← h]; congr 1 <;> ring⟩⟩

theorem pos_of_mul {a b : Nat} (h : a * b = tp) (ht : 0 < tp) : 0 < a ∧ 0 < b :=
  ⟨Nat.pos_of_ne_zero fun h0 => by simp [h0] at h; omega,
    Nat.pos_of_ne_zero fun h0 => by simp [h0] at h; omega⟩

theorem attnCpRanks_cut {dp atp cp : Nat} (h : dp * (atp * cp) = tp) (ht : 0 < tp) :
    Cut (tp * pp) atp cp (attnCpRanks (tp * pp) tp dp atp cp) := by
  obtain ⟨hatp, hcp⟩ := pos_of_mul rfl (pos_of_mul h ht).2
  have hcut := Cut.of_loops (G := pp) (o := dp) (attnCpRanks (tp * pp) tp dp atp cp)
    hatp hcp ?_
  · rwa [show pp * dp * (atp * cp) = dp * (atp * cp) * pp by ring, h] at hcut
  intro ranks
  rw [attnCpRanks, Nat.mul_div_cancel_left _ ht, List.mem_flatMap]
  constructor
  · rintro ⟨g, hg, hr⟩
    obtain ⟨b, hb, hr⟩ := List.mem_flatMap.mp hr
    obtain ⟨i, hi, rfl⟩ := List.mem_map.mp hr
    exact ⟨g, List.mem_range.mp hg, b, List.mem_range.mp hb, i, List.mem_range.mp hi, by
      rw [← h]; congr 1 <;> ring⟩
  · rintro ⟨g, hg, b, hb, i, hi, rfl⟩
    exact ⟨g, List.mem_range.mpr hg, List.mem_flatMap.mpr ⟨b, List.mem_range.mpr hb,
      List.mem_map.mpr ⟨i, List.mem_range.mpr hi, by rw [← h]; congr 1 <;> ring⟩⟩⟩

/-- The second communicator is cut the same way, though its loops are not the same. -/
theorem attnCpOverlapRanks_cut {dp atp cp : Nat} (h : dp * (atp * cp) = tp) (ht : 0 < tp) :
    Cut (tp * pp) atp cp (attnCpOverlapRanks (tp * pp) atp cp) := by
  obtain ⟨hatp, hcp⟩ := pos_of_mul rfl (pos_of_mul h ht).2
  have hspan : 0 < atp * cp := (pos_of_mul h ht).2
  have hn : tp * pp = pp * dp * (atp * cp) := by rw [← h]; ring
  have hbase : pyRange 0 (tp * pp) (atp * cp) = (List.range (pp * dp)).map fun j => j * (atp * cp) := by
    have hr := pyRange_mul 0 (pp * dp) hspan
    rw [hn, Nat.mul_comm (pp * dp)]
    simpa using hr
  have hcut := Cut.of_blocks (K := pp * dp) (attnCpOverlapRanks (tp * pp) atp cp) hatp hcp ?_
  · rwa [← hn] at hcut
  intro ranks
  rw [attnCpOverlapRanks, hbase, List.mem_flatMap]
  constructor
  · rintro ⟨base, hbase, hr⟩
    obtain ⟨b, hb, rfl⟩ := List.mem_map.mp hbase
    obtain ⟨i, hi, rfl⟩ := List.mem_map.mp hr
    exact ⟨b, List.mem_range.mp hb, i, List.mem_range.mp hi, rfl⟩
  · rintro ⟨b, hb, i, hi, rfl⟩
    exact ⟨_, List.mem_map.mpr ⟨b, List.mem_range.mpr hb, rfl⟩,
      List.mem_map.mpr ⟨i, List.mem_range.mpr hi, rfl⟩⟩

theorem moeDpRanks_cut {mtp ep dp : Nat} (h : mtp * ep * dp = tp) (ht : 0 < tp) :
    Cut (tp * pp) (mtp * ep) dp (moeDpRanks (tp * pp) tp mtp ep) := by
  obtain ⟨hstep, hdp⟩ := pos_of_mul h ht
  have hcut := Cut.of_loops (G := pp) (o := 1) (moeDpRanks (tp * pp) tp mtp ep) hstep hdp ?_
  · rwa [show pp * 1 * (mtp * ep * dp) = mtp * ep * dp * pp by ring, h] at hcut
  intro ranks
  rw [moeDpRanks, Nat.mul_div_cancel_left _ ht, List.mem_flatMap]
  constructor
  · rintro ⟨g, hg, hr⟩
    obtain ⟨i, hi, rfl⟩ := List.mem_map.mp hr
    exact ⟨g, List.mem_range.mp hg, 0, Nat.one_pos, i, List.mem_range.mp hi, by
      rw [← h]; congr 1 <;> ring⟩
  · rintro ⟨g, hg, b, hb, i, hi, rfl⟩
    obtain rfl : b = 0 := by omega
    exact ⟨g, List.mem_range.mpr hg, List.mem_map.mpr ⟨i, List.mem_range.mpr hi, by
      rw [← h]; congr 1 <;> ring⟩⟩

theorem moeEpRanks_cut {mtp ep dp : Nat} (h : mtp * ep * dp = tp) (ht : 0 < tp) :
    Cut (tp * pp) mtp ep (moeEpRanks (tp * pp) tp dp mtp ep) := by
  obtain ⟨hmtp, hep⟩ := pos_of_mul rfl (pos_of_mul h ht).1
  have hcut := Cut.of_loops (G := pp) (o := dp) (moeEpRanks (tp * pp) tp dp mtp ep) hmtp hep ?_
  · rwa [show pp * dp * (mtp * ep) = mtp * ep * dp * pp by ring, h] at hcut
  intro ranks
  rw [moeEpRanks, Nat.mul_div_cancel_left _ ht, List.mem_flatMap]
  constructor
  · rintro ⟨g, hg, hr⟩
    obtain ⟨b, hb, hr⟩ := List.mem_flatMap.mp hr
    obtain ⟨i, hi, rfl⟩ := List.mem_map.mp hr
    exact ⟨g, List.mem_range.mp hg, b, List.mem_range.mp hb, i, List.mem_range.mp hi, by
      rw [← h]; congr 1 <;> ring⟩
  · rintro ⟨g, hg, b, hb, i, hi, rfl⟩
    exact ⟨g, List.mem_range.mpr hg, List.mem_flatMap.mpr ⟨b, List.mem_range.mpr hb,
      List.mem_map.mpr ⟨i, List.mem_range.mpr hi, by rw [← h]; congr 1 <;> ring⟩⟩⟩

theorem ppRanks_cut (ht : 0 < tp) (hp : 0 < pp) : Cut (tp * pp) tp pp (ppRanks (tp * pp) pp) := by
  have hcut := Cut.of_loops (G := 1) (o := 1) (ppRanks (tp * pp) pp) ht hp ?_
  · simpa using hcut
  intro ranks
  have hlist : ∀ i, i < tp → pyRange i (tp * pp) tp = pyRange i (i + tp * pp) tp := by
    intro i hi
    have hlen : (tp * pp - i + tp - 1) / tp = (i + tp * pp - i + tp - 1) / tp := by
      obtain ⟨p, rfl⟩ := Nat.exists_eq_succ_of_ne_zero hp.ne'
      rw [Nat.add_sub_cancel_left, Nat.mul_succ,
        show tp * p + tp - i + tp - 1 = tp * (p + 1) + (tp - i - 1) by rw [Nat.mul_succ]; omega,
        show tp * p + tp + tp - 1 = tp * (p + 1) + (tp - 1) by rw [Nat.mul_succ]; omega,
        Nat.mul_add_div ht, Nat.mul_add_div ht, Nat.div_eq_of_lt (by omega), Nat.div_eq_of_lt (by omega)]
    rw [pyRange, pyRange, hlen]
  rw [ppRanks, Nat.mul_div_cancel _ hp, List.mem_map]
  constructor
  · rintro ⟨i, hi, rfl⟩
    refine ⟨0, Nat.one_pos, 0, Nat.one_pos, i, List.mem_range.mp hi, ?_⟩
    rw [hlist i (List.mem_range.mp hi)]
    congr 1 <;> ring
  · rintro ⟨g, hg, b, hb, i, hi, rfl⟩
    obtain rfl : g = 0 := by omega
    obtain rfl : b = 0 := by omega
    refine ⟨i, List.mem_range.mpr hi, ?_⟩
    rw [hlist i hi]
    congr 1 <;> ring

theorem selfPpRanks_cut (n : Nat) : Cut n 1 1 (selfPpRanks n) := by
  have hcut := Cut.of_blocks (K := n) (selfPpRanks n) Nat.one_pos Nat.one_pos ?_
  · rwa [Nat.one_mul, Nat.mul_one] at hcut
  intro ranks
  have hone : ∀ b, pyRange (b * (1 * 1) + 0) (b * (1 * 1) + 0 + 1 * 1) 1 = [b] := by
    intro b
    rw [pyRange_mul _ _ Nat.one_pos]
    simp
  rw [selfPpRanks, List.mem_map]
  constructor
  · rintro ⟨b, hb, rfl⟩
    exact ⟨b, List.mem_range.mp hb, 0, Nat.one_pos, (hone b).symm⟩
  · rintro ⟨b, hb, i, hi, rfl⟩
    obtain rfl : i = 0 := by omega
    exact ⟨b, List.mem_range.mpr hb, (hone b).symm⟩

/-- Slices of the tensor-parallel groups. -/
theorem dcpRanks_cut {dcp : Nat} (h : dcp ∣ tp) (ht : 0 < tp) :
    Cut (tp * pp) 1 dcp (dcpRanks (tpRanks (tp * pp) tp) dcp) := by
  obtain ⟨o, ho⟩ := h
  obtain ⟨hd, -⟩ := pos_of_mul ho.symm ht
  have hcut := Cut.of_loops (G := pp) (o := o) (dcpRanks (tpRanks (tp * pp) tp) dcp)
    Nat.one_pos hd ?_
  · rwa [show pp * o * (1 * dcp) = dcp * o * pp by ring, ← ho] at hcut
  intro ranks
  have hstarts : pyRange 0 tp dcp = (List.range o).map fun j => j * dcp := by
    have hr := pyRange_mul 0 o hd
    rw [ho]
    simpa using hr
  have hlen : ∀ g, (pyRange (g * tp) ((g + 1) * tp) 1).length = tp := by
    intro g
    rw [show (g + 1) * tp = g * tp + 1 * tp by ring, pyRange_mul _ _ Nat.one_pos]
    simp
  have hslice : ∀ g b, b < o → (((pyRange (g * tp) ((g + 1) * tp) 1).drop (b * dcp)).take dcp) =
      pyRange ((g * o + b) * (1 * dcp) + 0) ((g * o + b) * (1 * dcp) + 0 + 1 * dcp) 1 := by
    intro g b hb
    rw [show (g + 1) * tp = g * tp + tp by ring, take_drop_pyRange (by rw [ho]; nlinarith), ho]
    congr 1 <;> ring
  rw [dcpRanks, tpRanks, Nat.mul_div_cancel_left _ ht, List.mem_flatMap]
  constructor
  · rintro ⟨group, hgroup, hr⟩
    obtain ⟨g, hg, rfl⟩ := List.mem_map.mp hgroup
    obtain ⟨start, hs, rfl⟩ := List.mem_map.mp hr
    rw [hlen, hstarts] at hs
    obtain ⟨b, hb, rfl⟩ := List.mem_map.mp hs
    exact ⟨g, List.mem_range.mp hg, b, List.mem_range.mp hb, 0, Nat.one_pos,
      hslice g b (List.mem_range.mp hb)⟩
  · rintro ⟨g, hg, b, hb, i, hi, rfl⟩
    obtain rfl : i = 0 := by omega
    refine ⟨_, List.mem_map.mpr ⟨g, List.mem_range.mpr hg, rfl⟩,
      List.mem_map.mpr ⟨b * dcp, ?_, hslice g b hb⟩⟩
    rw [hlen, hstarts]
    exact List.mem_map.mpr ⟨b, List.mem_range.mpr hb, rfl⟩

end Cuts

/-- The sizes that pass the checks. -/
structure Accepted (s : Sizes) (env : Env) (world_size : Nat) : Prop where
  world : world_size = s.tensor_model_parallel_size * s.pipeline_model_parallel_size
  dcp_pos : 1 ≤ s.decode_context_parallel_size
  platform : 1 < s.decode_context_parallel_size → env.is_hip ∨ env.is_cuda
  dcp_dvd : s.decode_context_parallel_size ∣ (s.tensor_model_parallel_size : Int)

theorem checkSizes_ok_iff {s : Sizes} {env : Env} {n : Nat} :
    checkSizes s env n = .ok () ↔ Accepted s env n := by
  simp only [checkSizes, except_bind_ok, demand_ok]
  constructor
  · rintro ⟨-, hw, -, hd, -, hp, hdvd⟩
    exact ⟨hw, by omega, fun h => by_contra fun hne => hp ⟨h, hne⟩, Int.dvd_of_emod_eq_zero hdvd⟩
  · rintro ⟨hw, hd, hp, hdvd⟩
    exact ⟨(), hw, (), by omega, (), fun h => h.2 (hp h.1), Int.emod_eq_zero_of_dvd hdvd⟩

/-- The world a process is initialised in. -/
def worldSize (s : Sizes) (env : Env) : Nat :=
  if s.recovered_rank then s.tensor_model_parallel_size * s.pipeline_model_parallel_size
  else env.get_world_size

/-- The groups of a rank of the grid. -/
def gridGroups (s : Sizes) (w : Widths s) (env : Env) : Groups :=
  let ax := axis env.get_rank
  let tp := s.tensor_model_parallel_size
  let cp := s.attention_context_model_parallel_size
  let dcp := s.decode_context_parallel_size.toNat
  { tp := ax 1 tp
    pdmux_prefill_tp := if s.duplicate_tp_group then some (ax 1 tp) else none
    dcp := if 1 < dcp then some (ax 1 dcp) else none
    attn_cp := ax w.attn_tp_size cp
    attn_cp_overlap :=
      if s.duplicate_attn_cp_group ∧ env.is_hip then
        if 1 < cp then some (ax w.attn_tp_size cp) else none
      else none
    attn_tp := ax 1 w.attn_tp_size
    -- context-parallel partners share their tokens where they outnumber the expert groups
    moe_dp :=
      if s.moe_data_model_parallel_size < cp then ax w.attn_tp_size cp
      else ax (w.moe_tp_size * s.expert_model_parallel_size) s.moe_data_model_parallel_size
    moe_ep := ax w.moe_tp_size s.expert_model_parallel_size
    moe_tp := ax 1 w.moe_tp_size
    pp := ax tp s.pipeline_model_parallel_size
    self_pp := ax 1 1 }

/-- A factor that is the whole product leaves one for the others. -/
theorem eq_one_of_mul {a b : Nat} (h : a * b = b) (hb : 0 < b) : a = 1 :=
  Nat.eq_of_mul_eq_mul_right hb (by rw [h, Nat.one_mul])

section Initialize
variable {s : Sizes} {w : Widths s} {env : Env}

/-- The assertion that the second communicator spans the same ranks never fails. -/
theorem initAttnCpOverlapGroup_eq {tp pp dp atp cp : Nat} (h : dp * (atp * cp) = tp) (ht : 0 < tp)
    (hr : env.get_rank < tp * pp) :
    initAttnCpOverlapGroup env (tp * pp) cp atp 0 (axis env.get_rank atp cp) =
      .ok (if 1 < cp then some (axis env.get_rank atp cp) else none) := by
  have hcut := attnCpOverlapRanks_cut pp h ht
  rw [initAttnCpOverlapGroup]
  by_cases hcp : cp ≤ 1
  · rw [if_pos hcp, if_neg (by omega)]; rfl
  · obtain ⟨-, hspan⟩ := pos_of_mul h ht
    rw [if_neg hcp, if_pos (by omega)]
    refine except_bind_ok.mpr ⟨(), demand_ok.mpr hspan.ne', ?_⟩
    refine except_bind_ok.mpr ⟨strided atp cp env.get_rank, by rw [hcut.find?_eq hr]; rfl, ?_⟩
    refine except_bind_ok.mpr ⟨(), demand_ok.mpr rfl, ?_⟩
    exact congrArg (some <$> ·) (groupCoordinator_of_cut hcut hr)

theorem aliased_eq {c : Prop} [Decidable c] {other g : GroupCoordinator}
    {init : Except String GroupCoordinator} (ho : c → other = g) (hi : ¬ c → init = .ok g) :
    aliased c other init = .ok g := by
  unfold aliased
  split
  · rename_i hc
    rw [ho hc]; rfl
  · rename_i hc
    exact hi hc

theorem onlyIf_eq {c : Prop} [Decidable c] {g : Option GroupCoordinator}
    {init : Except String (Option GroupCoordinator)} (hi : c → init = .ok g) :
    onlyIf c init = .ok (if c then g else none) := by
  unfold onlyIf
  split
  · rename_i hc
    exact hi hc
  · rfl

theorem initialize_eq (hw : w.Exact) (ha : Accepted s env (worldSize s env)) (hoff : s.rank_offset = 0)
    (ht : 0 < s.tensor_model_parallel_size) (hp : 0 < s.pipeline_model_parallel_size)
    (hr : env.get_rank < s.tensor_model_parallel_size * s.pipeline_model_parallel_size) :
    initializeModelParallel s w env = .ok (gridGroups s w env) := by
  obtain ⟨hatp, hcp⟩ := pos_of_mul rfl (pos_of_mul hw.attn ht).2
  obtain ⟨hstep, hdp⟩ := pos_of_mul hw.moe ht
  have htp := groupCoordinator_of_cut (tpRanks_cut s.pipeline_model_parallel_size ht) hr
  have hdcp : 1 < s.decode_context_parallel_size.toNat → groupCoordinator env (dcpRanks (tpRanks
      (s.tensor_model_parallel_size * s.pipeline_model_parallel_size) s.tensor_model_parallel_size)
      s.decode_context_parallel_size.toNat) 0 =
        .ok (axis env.get_rank 1 s.decode_context_parallel_size.toNat) := by
    intro _
    have hd : (s.decode_context_parallel_size.toNat : Int) = s.decode_context_parallel_size :=
      Int.toNat_of_nonneg (by have := ha.dcp_pos; omega)
    exact groupCoordinator_of_cut
      (dcpRanks_cut _ (Int.natCast_dvd_natCast.mp (by rw [hd]; exact ha.dcp_dvd)) ht) hr
  have hcp1 : s.attention_context_model_parallel_size = s.tensor_model_parallel_size →
      axis env.get_rank 1 s.tensor_model_parallel_size =
        axis env.get_rank w.attn_tp_size s.attention_context_model_parallel_size := by
    intro he
    have h1 : s.attention_data_parallel_size * w.attn_tp_size = 1 :=
      eq_one_of_mul (by rw [Nat.mul_assoc, hw.attn, he]) hcp
    rw [Nat.eq_one_of_mul_eq_one_left h1, he]
  have hdp1 : s.moe_data_model_parallel_size = s.tensor_model_parallel_size →
      axis env.get_rank 1 s.tensor_model_parallel_size =
        axis env.get_rank (w.moe_tp_size * s.expert_model_parallel_size) s.moe_data_model_parallel_size := by
    intro he
    have h1 : w.moe_tp_size * s.expert_model_parallel_size = 1 := eq_one_of_mul (by rw [hw.moe, he]) hdp
    rw [h1, he]
  have hep1 : s.expert_model_parallel_size = s.tensor_model_parallel_size ∧ ¬ env.is_npu →
      axis env.get_rank 1 s.tensor_model_parallel_size =
        axis env.get_rank w.moe_tp_size s.expert_model_parallel_size := by
    rintro ⟨he, -⟩
    have h1 : w.moe_tp_size * s.moe_data_model_parallel_size = 1 :=
      eq_one_of_mul (b := s.expert_model_parallel_size)
        (by rw [Nat.mul_right_comm, hw.moe, he]) (pos_of_mul rfl hstep).2
    rw [Nat.eq_one_of_mul_eq_one_right h1, he]
  refine except_bind_ok.mpr ⟨(), checkSizes_ok_iff.mpr ha, ?_⟩
  rw [show (if s.recovered_rank then s.tensor_model_parallel_size * s.pipeline_model_parallel_size
    else env.get_world_size) = s.tensor_model_parallel_size * s.pipeline_model_parallel_size from ha.world]
  dsimp only
  rw [hoff]
  refine except_bind_ok.mpr ⟨(), demand_ok.mpr ht.ne', ?_⟩
  refine except_bind_ok.mpr ⟨_, htp, ?_⟩
  refine except_bind_ok.mpr ⟨_, onlyIf_eq fun _ => congrArg (some <$> ·) htp, ?_⟩
  refine except_bind_ok.mpr ⟨_, onlyIf_eq fun h => congrArg (some <$> ·) (hdcp h), ?_⟩
  refine except_bind_ok.mpr ⟨_, aliased_eq hcp1 fun _ =>
    groupCoordinator_of_cut (attnCpRanks_cut _ hw.attn ht) hr, ?_⟩
  refine except_bind_ok.mpr ⟨_, onlyIf_eq fun _ => initAttnCpOverlapGroup_eq hw.attn ht hr, ?_⟩
  refine except_bind_ok.mpr ⟨_, aliased_eq (fun h => by rw [h]) fun _ =>
    groupCoordinator_of_cut (runsOf_cut _ (by rw [← hw.attn]; ring) ht) hr, ?_⟩
  refine except_bind_ok.mpr ⟨(gridGroups s w env).moe_dp, aliased_eq (fun h => (if_pos h).symm) fun h => ?_, ?_⟩
  · rw [gridGroups, if_neg h]
    exact aliased_eq hdp1 fun _ => groupCoordinator_of_cut (moeDpRanks_cut _ hw.moe ht) hr
  refine except_bind_ok.mpr ⟨_, aliased_eq hep1 fun _ =>
    groupCoordinator_of_cut (moeEpRanks_cut _ hw.moe ht) hr, ?_⟩
  refine except_bind_ok.mpr ⟨_, aliased_eq (fun h => by rw [h]) fun _ =>
    groupCoordinator_of_cut (runsOf_cut _ (by rw [← hw.moe]; ring) ht) hr, ?_⟩
  refine except_bind_ok.mpr ⟨_, groupCoordinator_of_cut (ppRanks_cut _ ht hp) hr, ?_⟩
  exact except_bind_ok.mpr ⟨_, groupCoordinator_of_cut (selfPpRanks_cut _) hr, rfl⟩

/-- A rank at or past the size of its world never gets through, whatever its offset: the
single ranks are numbered from zero for a joiner too. -/
theorem initialize_rank_lt {g : Groups} (h : initializeModelParallel s w env = .ok g) :
    env.get_rank < s.tensor_model_parallel_size * s.pipeline_model_parallel_size := by
  simp only [initializeModelParallel, except_bind_ok] at h
  obtain ⟨_, hcheck, -, -, -, -, -, -, -, -, -, -, -, -, -, -, -, -, -, -, -, -, -, -, self, hself, -⟩ := h
  have hw := (checkSizes_ok_iff.mp hcheck).world
  rw [hw] at hself
  by_contra hr
  rw [groupCoordinator_of_not_lt (selfPpRanks_cut _) hr] at hself
  cases hself

/-- Runs that go past the last rank of the first tensor-parallel group fill it. -/
theorem runsOf_full {tp pp count width : Nat} (h : count * width ≤ tp) (ht : 0 < tp)
    {ranks : List Nat} (hmem : ranks ∈ runsOf (tp * pp) tp count width) (hr : tp - 1 ∈ ranks) :
    count * width = tp := by
  obtain ⟨g, -, hg⟩ := List.mem_flatMap.mp hmem
  obtain ⟨b, hb, rfl⟩ := List.mem_map.mp hg
  obtain ⟨hlo, hhi⟩ := mem_pyRange_one.mp hr
  have hg0 : g = 0 := by
    by_contra hne
    have htp : 1 * tp ≤ g * tp := Nat.mul_le_mul_right _ (Nat.one_le_iff_ne_zero.mpr hne)
    omega
  have hle : (b + 1) * width ≤ count * width := Nat.mul_le_mul_right _ (List.mem_range.mp hb)
  rw [hg0, Nat.zero_mul, Nat.zero_add] at hhi
  omega

theorem mem_of_groupCoordinator {groups : List (List Nat)} {g : GroupCoordinator}
    (h : groupCoordinator env groups 0 = .ok g) : ∃ ranks ∈ groups, env.get_rank ∈ ranks := by
  rw [groupCoordinator, if_neg (lt_irrefl 0)] at h
  split at h
  · rename_i ranks hlast
    exact ⟨ranks, mem_of_lastWith hlast⟩
  · cases h

/-- A width whose runs reach that rank divides, whether the group is made or borrowed. -/
theorem full_of_aliased {tp pp count width : Nat} {other g : GroupCoordinator} (hc : 0 < count)
    (h : count * width ≤ tp) (ht : 0 < tp) (hr : env.get_rank = tp - 1)
    (hg : aliased (width = tp) other (groupCoordinator env (runsOf (tp * pp) tp count width) 0) = .ok g) :
    count * width = tp := by
  unfold aliased at hg
  split at hg
  · rename_i he
    subst he
    exact Nat.le_antisymm h (Nat.le_mul_of_pos_left _ hc)
  · obtain ⟨ranks, hmem, hrank⟩ := mem_of_groupCoordinator hg
    exact runsOf_full h ht hmem (hr ▸ hrank)

/-- Where the last rank of the first tensor-parallel group gets through, no size leaves a
remainder. -/
theorem exact_of_last {g : Groups} (hoff : s.rank_offset = 0) (ht : 0 < s.tensor_model_parallel_size)
    (hr : env.get_rank = s.tensor_model_parallel_size - 1)
    (h : initializeModelParallel s w env = .ok g) : w.Exact := by
  simp only [initializeModelParallel, except_bind_ok, hoff] at h
  obtain ⟨_, hcheck, _, -, _, -, _, -, _, -, _, -, _, -, _, hatp, _, -, _, -, _, hmtp, -⟩ := h
  rw [show (if s.recovered_rank then _ else _) = _ from (checkSizes_ok_iff.mp hcheck).world] at hatp hmtp
  obtain ⟨hdp, hcp⟩ := w.attn_pos
  obtain ⟨hep, hmdp⟩ := w.moe_pos
  have hattn := full_of_aliased (Nat.mul_pos hcp hdp) (by have := w.attn_le; nlinarith) ht hr hatp
  have hmoe := full_of_aliased (Nat.mul_pos hep hmdp) (by have := w.moe_le; nlinarith) ht hr hmtp
  exact ⟨by rw [← hattn]; ring, by rw [← hmoe]; ring⟩

theorem accepted_at (r : Nat) : Accepted s (env.at r) (worldSize s (env.at r)) ↔
    Accepted s env (worldSize s env) :=
  ⟨fun ⟨h₁, h₂, h₃, h₄⟩ => ⟨h₁, h₂, h₃, h₄⟩, fun ⟨h₁, h₂, h₃, h₄⟩ => ⟨h₁, h₂, h₃, h₄⟩⟩

theorem initialize_exact_iff (hw : w.Exact) (hoff : s.rank_offset = 0) (g : Groups) :
    initializeModelParallel s w env = .ok g ↔ Accepted s env (worldSize s env) ∧
      env.get_rank < s.tensor_model_parallel_size * s.pipeline_model_parallel_size ∧
      g = gridGroups s w env := by
  constructor
  · intro h
    have hr := initialize_rank_lt h
    obtain ⟨ht, hp⟩ := pos_of_mul rfl (Nat.zero_lt_of_lt hr)
    obtain ⟨_, hcheck, -⟩ := except_bind_ok.mp h
    have ha := checkSizes_ok_iff.mp hcheck
    rw [initialize_eq hw ha hoff ht hp hr] at h
    exact ⟨ha, hr, (Except.ok.inj h).symm⟩
  · rintro ⟨ha, hr, rfl⟩
    obtain ⟨ht, hp⟩ := pos_of_mul rfl (Nat.zero_lt_of_lt hr)
    exact initialize_eq hw ha hoff ht hp hr

/-- A world whose ranks all get through has sizes that divide. -/
theorem exact_of_all (hoff : s.rank_offset = 0)
    (hn : 0 < s.tensor_model_parallel_size * s.pipeline_model_parallel_size)
    (h : ∀ r < s.tensor_model_parallel_size * s.pipeline_model_parallel_size,
      ∃ g, initializeModelParallel s w (env.at r) = .ok g) : w.Exact := by
  obtain ⟨ht, hp⟩ := pos_of_mul rfl hn
  have hle := Nat.le_mul_of_pos_right s.tensor_model_parallel_size hp
  obtain ⟨g, hg⟩ := h (s.tensor_model_parallel_size - 1) (by omega)
  exact exact_of_last hoff ht rfl hg

/-- When the ranks of a world all get through, and which groups each has then. -/
theorem initialize_iff (hoff : s.rank_offset = 0)
    (hn : 0 < s.tensor_model_parallel_size * s.pipeline_model_parallel_size) :
    ((∀ r < s.tensor_model_parallel_size * s.pipeline_model_parallel_size,
        ∃ g, initializeModelParallel s w (env.at r) = .ok g) ↔
      Accepted s env (worldSize s env) ∧ w.Exact) ∧
    (w.Exact → ∀ g, initializeModelParallel s w env = .ok g ↔ Accepted s env (worldSize s env) ∧
      env.get_rank < s.tensor_model_parallel_size * s.pipeline_model_parallel_size ∧
      g = gridGroups s w env) := by
  refine ⟨⟨fun h => ?_, ?_⟩, fun hw => initialize_exact_iff hw hoff⟩
  · have hw := exact_of_all hoff hn h
    obtain ⟨g, hg⟩ := h 0 hn
    exact ⟨(accepted_at 0).mp ((initialize_exact_iff hw hoff g).mp hg).1, hw⟩
  · rintro ⟨ha, hw⟩ r hr
    exact ⟨_, (initialize_exact_iff hw hoff _).mpr ⟨(accepted_at r).mpr ha, hr, rfl⟩⟩

/-- Eight ranks leave a remainder over three data-parallel groups. -/
example : ¬ (Widths.floor ⟨8, 1, 1, 3, 1, 1, 1, false, false, false, 0⟩ (by decide) (by decide)).Exact :=
  fun h => absurd h.attn (by decide)

/-- All the groups a process keeps, in the order they are made. -/
def Groups.all (g : Groups) : List (Option GroupCoordinator) :=
  [some g.tp, g.pdmux_prefill_tp, g.dcp, some g.attn_cp, g.attn_cp_overlap, some g.attn_tp,
    some g.moe_dp, some g.moe_ep, some g.moe_tp, some g.pp, some g.self_pp]

/-- Stride and width of each, where it is there. -/
def gridAxes (s : Sizes) (w : Widths s) (env : Env) : List (Option (Nat × Nat)) :=
  let tp := s.tensor_model_parallel_size
  let cp := s.attention_context_model_parallel_size
  let dcp := s.decode_context_parallel_size.toNat
  [some (1, tp), if s.duplicate_tp_group then some (1, tp) else none,
    if 1 < dcp then some (1, dcp) else none, some (w.attn_tp_size, cp),
    if s.duplicate_attn_cp_group ∧ env.is_hip then
      if 1 < cp then some (w.attn_tp_size, cp) else none
    else none,
    some (1, w.attn_tp_size),
    some (if s.moe_data_model_parallel_size < cp then (w.attn_tp_size, cp)
      else (w.moe_tp_size * s.expert_model_parallel_size, s.moe_data_model_parallel_size)),
    some (w.moe_tp_size, s.expert_model_parallel_size), some (1, w.moe_tp_size),
    some (tp, s.pipeline_model_parallel_size), some (1, 1)]

theorem all_gridGroups : (gridGroups s w env).all =
    (gridAxes s w env).map (Option.map fun a => axis env.get_rank a.1 a.2) := by
  simp only [Groups.all, gridGroups, gridAxes, List.map_cons, List.map_nil, Option.map_some,
    apply_ite (Option.map _), Option.map_none, List.cons.injEq, and_true, true_and]
  split <;> rfl

/-- Every axis divides the world. -/
theorem gridAxes_dvd (hw : w.Exact) (ha : Accepted s env (worldSize s env)) (ht : 0 < s.tensor_model_parallel_size)
    (hp : 0 < s.pipeline_model_parallel_size) {a : Nat × Nat} (h : some a ∈ gridAxes s w env) :
    0 < a.1 ∧ 0 < a.2 ∧ a.1 * a.2 ∣ s.tensor_model_parallel_size * s.pipeline_model_parallel_size := by
  obtain ⟨-, hcpspan⟩ := pos_of_mul hw.attn ht
  obtain ⟨hatp, hcp⟩ := pos_of_mul rfl hcpspan
  obtain ⟨hstep, hdp⟩ := pos_of_mul hw.moe ht
  obtain ⟨hmtp, hep⟩ := pos_of_mul rfl hstep
  have hin : ∀ t v : Nat, 0 < t → 0 < v → t * v ∣ s.tensor_model_parallel_size →
      0 < t ∧ 0 < v ∧ t * v ∣ s.tensor_model_parallel_size * s.pipeline_model_parallel_size :=
    fun t v ht' hv hd => ⟨ht', hv, hd.mul_right _⟩
  have htpA := hin 1 s.tensor_model_parallel_size Nat.one_pos ht (by simp)
  have hcpA := hin w.attn_tp_size s.attention_context_model_parallel_size hatp hcp
    (Dvd.intro_left _ hw.attn)
  have hatpA := hin 1 w.attn_tp_size Nat.one_pos hatp
    (by rw [Nat.one_mul, ← hw.attn]; exact Dvd.intro (s.attention_context_model_parallel_size *
      s.attention_data_parallel_size) (by ring))
  have hdpA := hin (w.moe_tp_size * s.expert_model_parallel_size) s.moe_data_model_parallel_size hstep hdp
    (by rw [hw.moe])
  have hepA := hin w.moe_tp_size s.expert_model_parallel_size hmtp hep (Dvd.intro _ hw.moe)
  have hmtpA := hin 1 w.moe_tp_size Nat.one_pos hmtp
    (by rw [Nat.one_mul, ← hw.moe, Nat.mul_assoc]; exact Dvd.intro _ rfl)
  have hselfA := hin 1 1 Nat.one_pos Nat.one_pos (by simp)
  have hdcpA : 1 < s.decode_context_parallel_size.toNat →
      _ := fun hd => hin 1 s.decode_context_parallel_size.toNat Nat.one_pos (by omega) (by
    rw [Nat.one_mul]
    exact Int.natCast_dvd_natCast.mp (by rw [Int.toNat_of_nonneg (by omega)]; exact ha.dcp_dvd))
  simp only [gridAxes, List.mem_cons, List.not_mem_nil, or_false, Option.some.injEq,
    Option.ite_none_right_eq_some, eq_comm (a := some a)] at h
  rcases h with rfl | ⟨-, rfl⟩ | ⟨hd, rfl⟩ | rfl | ⟨-, -, rfl⟩ | rfl | h | rfl | rfl | rfl | rfl
  · exact htpA
  · exact htpA
  · exact hdcpA hd
  · exact hcpA
  · exact hcpA
  · exact hatpA
  · split at h <;> subst h
    · exact hcpA
    · exact hdpA
  · exact hepA
  · exact hmtpA
  · exact ⟨ht, hp, dvd_rfl⟩
  · exact hselfA

end Initialize

/-- What two ranks `r` and `q` of a world of `n` keep in one global. -/
structure Agree (n r q : Nat) (a b : Option GroupCoordinator) : Prop where
  both : a.isSome = b.isSome
  mem_iff : ∀ c ∈ a, ∀ d ∈ b, q ∈ c.ranks ↔ d.ranks = c.ranks
  place : ∀ c ∈ a, c.ranks[c.rank_in_group]? = some r
  size : ∀ c ∈ a, c.world_size = c.ranks.length ∧ c.ranks.Nodup
  bounded : ∀ c ∈ a, ∀ p ∈ c.ranks, p < n

theorem axis_agree {n t w r q : Nat} (ht : 0 < t) (hw : 0 < w) (hn : t * w ∣ n) (hr : r < n) :
    Agree n r q (some (axis r t w)) (some (axis q t w)) where
  both := rfl
  mem_iff := by
    rintro c ⟨⟩ d ⟨⟩
    exact mem_strided_iff ht hw
  place := by
    rintro c ⟨⟩
    exact strided_getElem? hw
  size := by
    rintro c ⟨⟩
    exact ⟨(strided_length t w r).symm, strided_nodup ht⟩
  bounded := by
    rintro c ⟨⟩ p hp
    exact lt_of_mem_strided ht hw hn hr hp

/-- However the ten lists of groups are made, in a world whose ranks all get through they
partition the ranks: in each global two ranks have the same group or groups with no rank in
common, and each stands in its own group at the place it believes it has. -/
theorem groups_agree {s : Sizes} {w : Widths s} {env : Env} {r q : Nat} {gr gq : Groups}
    (hoff : s.rank_offset = 0)
    (hall : ∀ p < s.tensor_model_parallel_size * s.pipeline_model_parallel_size,
      ∃ g, initializeModelParallel s w (env.at p) = .ok g)
    (hgr : initializeModelParallel s w (env.at r) = .ok gr)
    (hgq : initializeModelParallel s w (env.at q) = .ok gq) :
    List.Forall₂ (Agree (s.tensor_model_parallel_size * s.pipeline_model_parallel_size) r q) gr.all gq.all := by
  have hn := Nat.zero_lt_of_lt (initialize_rank_lt hgr)
  obtain ⟨ht, hp⟩ := pos_of_mul rfl hn
  have hw := exact_of_all hoff hn hall
  obtain ⟨ha, hr, rfl⟩ := (initialize_exact_iff hw hoff gr).mp hgr
  obtain ⟨-, -, rfl⟩ := (initialize_exact_iff hw hoff gq).mp hgq
  have hax : gridAxes s w (env.at q) = gridAxes s w (env.at r) := rfl
  rw [all_gridGroups, all_gridGroups, hax, List.forall₂_map_left_iff, List.forall₂_map_right_iff,
    List.forall₂_same]
  intro a hmem
  cases a with
  | none =>
    refine ⟨rfl, ?_, ?_, ?_, ?_⟩
    all_goals exact fun c hc => by cases hc
  | some a =>
    obtain ⟨h1, h2, hdvd⟩ := gridAxes_dvd hw ha ht hp hmem
    exact axis_agree h1 h2 hdvd hr

/-- The example of the docstring: eight ranks, two for attention context, four experts. -/
def eight : Sizes := ⟨8, 4, 1, 1, 2, 2, 1, false, true, false, 0⟩

def eightWidths : Widths eight := .floor eight (by decide) (by decide)

def eightEnv : Env := ⟨true, false, false, 8, 0⟩

example : attnCpRanks 8 8 1 4 2 = [[0, 4], [1, 5], [2, 6], [3, 7]] := by decide

theorem eight_accepted : Accepted eight eightEnv (worldSize eight eightEnv) :=
  ⟨rfl, by decide, fun h => absurd h (by decide), by decide⟩

theorem eightWidths_exact : eightWidths.Exact := ⟨by decide, by decide⟩

theorem initialize_iff_eight :
    (∀ r < 8, ∃ g, initializeModelParallel eight eightWidths (eightEnv.at r) = .ok g) ∧
      initializeModelParallel eight eightWidths (eightEnv.at 5) =
        .ok (gridGroups eight eightWidths (eightEnv.at 5)) :=
  ⟨(@initialize_iff eight eightWidths eightEnv rfl (by decide)).1.mpr ⟨eight_accepted, eightWidths_exact⟩,
    ((@initialize_iff eight eightWidths (eightEnv.at 5) rfl (by decide)).2 eightWidths_exact _).mpr
      ⟨(accepted_at 5).mpr eight_accepted, by decide, rfl⟩⟩

theorem eight_init (r : Nat) (hr : r < 8) : initializeModelParallel eight eightWidths (eightEnv.at r) =
    .ok (gridGroups eight eightWidths (eightEnv.at r)) :=
  initialize_eq eightWidths_exact ((accepted_at r).mpr eight_accepted) rfl (by decide) (by decide) hr

theorem groups_agree_eight : List.Forall₂ (Agree 8 5 6)
    (gridGroups eight eightWidths (eightEnv.at 5)).all (gridGroups eight eightWidths (eightEnv.at 6)).all :=
  groups_agree rfl (fun r hr => ⟨_, eight_init r hr⟩) (eight_init 5 (by decide)) (eight_init 6 (by decide))

end FlashSpark.L5.ProcessGroups
