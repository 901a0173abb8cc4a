import FlashSpark.Core.Network
import FlashSpark.L5Concurrency.ProcessGroups

/-!
# Sending a dictionary of tensors to the next pipeline stage

`send_tensor_dict` and `recv_tensor_dict` of `parallel_state.py`: the keys, the plain
values and the shapes of the tensors go first, as one pickled object over the CPU group;
then every tensor that is not empty, over the group of its device. Where the ranks of a
stage hold the same dictionary each sends only its own slice of a tensor, and the
receiving stage puts the slices together by an all-gather (`send-allgather`).

The ranks run as they like: a rank may be several tensors ahead of the others, and the
point-to-point messages and the all-gathers of different ranks interleave in any way.
`Core.Network` has the processes, its channels and its collectives.

* `hop`: from two stages that stand at a call each, the whole grid can get to where
  every receiver has the dictionary its sender had, or else to a failed all-gather;
* `tensor_dicts_delivered`: so any number of transfers in a row end, in every
  interleaving, with every receiver holding exactly the dictionaries sent to it, in order,
  provided that every CPU tensor that goes in slices can be gathered. Otherwise no
  interleaving keeps a receiving rank from failing.

A CPU tensor travels over the CPU group, but its slices are gathered in shared memory or
over the device group, whose backend need not take it (`Backend`). `pickle` is a parameter
with the law that it can be undone. The handles that a non-blocking send returns are left
out: how much a channel takes before its sender waits is a parameter of the network. So
are the HPU and NPU communicators.
-/
namespace FlashSpark.L5.TensorDict

open ProcessGroups (GroupCoordinator axis)

/-- `tensor.device.type`; the CPU group or the device group carries it. -/
inductive Device where
  | cpu
  | cuda
  deriving DecidableEq, Encodable

/-- mirrors parallel_state.py:81; `δ` is the type of a dtype. -/
structure TensorMetadata (δ : Type) where
  device : Device
  dtype : δ
  size : List Nat
  deriving Encodable

def TensorMetadata.numel {δ : Type} (m : TensorMetadata δ) : Nat := m.size.prod

structure Tensor (α δ : Type) extends TensorMetadata δ where
  data : List α
  data_length : data.length = size.prod

/-- A value of the dictionary: a tensor, or anything else that is no tensor metadata. -/
inductive Value (α δ υ : Type) where
  | tensor (t : Tensor α δ)
  | other (v : υ)

/-- A value of the metadata list. -/
inductive Entry (δ υ : Type) where
  | metadata (m : TensorMetadata δ)
  | other (v : υ)
  deriving Encodable

section
variable {κ α δ υ : Type}

/-- A dictionary, in the order its keys were set. -/
structure Dict (κ α δ υ : Type) where
  items : List (κ × Value α δ υ)
  nodup : (items.map Prod.fst).Nodup

/-- `d[key] = value`. -/
def setItem [DecidableEq κ] (d : List (κ × Value α δ υ)) (key : κ) (value : Value α δ υ) :
    List (κ × Value α δ υ) :=
  if key ∈ d.map Prod.fst then d.map fun kv => if kv.1 = key then (key, value) else kv
  else d ++ [(key, value)]

theorem setItem_new [DecidableEq κ] {d : List (κ × Value α δ υ)} {key : κ} (value : Value α δ υ)
    (h : key ∉ d.map Prod.fst) : setItem d key value = d ++ [(key, value)] := if_neg h

/-- mirrors parallel_state.py:120-146 -/
def splitTensorDict : List (κ × Value α δ υ) → List (κ × Entry δ υ) × List (Tensor α δ)
  | [] => ([], [])
  | (key, .tensor t) :: rest =>
    let (metadata_list, tensor_list) := splitTensorDict rest
    ((key, .metadata t.toTensorMetadata) :: metadata_list, t :: tensor_list)
  | (key, .other v) :: rest =>
    let (metadata_list, tensor_list) := splitTensorDict rest
    ((key, .other v) :: metadata_list, tensor_list)

/-- `pickle.dumps` and `pickle.loads`. -/
structure Pickle (O : Type) where
  dumps : O → List UInt8
  loads : List UInt8 → Option O
  loads_dumps : ∀ o, loads (dumps o) = some o

/-- What a point-to-point send or an all-gather carries. -/
inductive Message (α : Type) where
  | size (n : Nat)
  | bytes (bs : List UInt8)
  | data (xs : List α)

/-- A tensor of one `long`. -/
def Message.asSize : Message α → Option Nat
  | .size n => some n
  | _ => none

/-- A byte tensor of length `n`. -/
def Message.asBytes (n : Nat) : Message α → Option (List UInt8)
  | .bytes bs => if bs.length = n then some bs else none
  | _ => none

/-- A tensor of `n` elements. -/
def Message.asData (n : Nat) : Message α → Option (List α)
  | .data xs => if xs.length = n then some xs else none
  | _ => none

/-- A rank's program. The lanes are the CPU and the device group of the pipeline group; a
group that gathers is named by its ranks. -/
abbrev Prog (α R : Type) := Proc Nat Device (List Nat) (Message α) R

namespace Prog

def assert (c : Prop) [Decidable c] : Prog α Unit := if c then .done () else .fail

def ofOption {β : Type} : Option β → Prog α β
  | some b => .done b
  | none => .fail

def send (dst : Nat) (group : Device) (m : Message α) : Prog α Unit := Proc.send dst group m (.done ())

/-- `irecv`, into a tensor of the size and kind `accept` stands for. -/
def recv {β : Type} (src : Nat) (group : Device) (accept : Message α → Option β) : Prog α β :=
  Proc.recv src group fun m => ofOption (accept m)

end Prog

/-- What an all-gather of CPU tensors finds: whether the ranks of a group share memory, and
whether the backend of the device group takes CPU tensors. -/
structure Backend (δ : Type) where
  is_shm_available : δ → Nat → Nat → Bool
  local_size : Nat
  device_group_takes_cpu : Bool

/-- The meeting of an all-gather. -/
def gatherData (g : GroupCoordinator) (xs : List α) : Prog α (List α) :=
  .gather g.ranks (.data xs) fun ms =>
    match ms.mapM (Message.asData xs.length) with
    | some yss => .done yss.flatten
    | none => .fail

/-- `all_gather(tensor, dim=0)` of a tensor of one dimension.
mirrors parallel_state.py:1285-1357 -/
def allGather (be : Backend δ) (g : GroupCoordinator) (m : TensorMetadata δ) (xs : List α) :
    Prog α (List α) :=
  if g.world_size = 1 then .done xs
  else
    match m.device with
    | .cuda => gatherData g xs
    | .cpu =>
      -- `shm_allgather`, or `all_gather_into_tensor` over the device group
      if be.is_shm_available m.dtype g.world_size be.local_size then gatherData g xs
      else if be.device_group_takes_cpu then gatherData g xs
      else .fail

/-- mirrors parallel_state.py:1526-1576 -/
def sendObject {O : Type} (pickle : Pickle O) (pp : GroupCoordinator) (obj : O) (dst : Nat) :
    Prog α Unit := do
  Prog.assert (dst < pp.world_size)
  Prog.assert (dst ≠ pp.rank_in_group)
  let peer ← Prog.ofOption pp.ranks[dst]?
  let object_tensor := pickle.dumps obj
  Prog.send peer .cpu (.size object_tensor.length)
  Prog.send peer .cpu (.bytes object_tensor)

/-- mirrors parallel_state.py:1578-1613 -/
def recvObject {O : Type} (pickle : Pickle O) (pp : GroupCoordinator) (src : Nat) : Prog α O := do
  Prog.assert (src < pp.world_size)
  Prog.assert (src ≠ pp.rank_in_group)
  let peer ← Prog.ofOption pp.ranks[src]?
  let n ← Prog.recv peer .cpu Message.asSize
  let object_tensor ← Prog.recv peer .cpu (Message.asBytes n)
  Prog.ofOption (pickle.loads object_tensor)

/-- Whether a tensor of `numel` elements goes in slices. -/
def useAllGather (all_gather_group : Option GroupCoordinator) (numel : Nat) : Option GroupCoordinator :=
  all_gather_group.filter fun g => numel % g.world_size = 0

/-- `tensor.reshape(all_gather_size, -1)[all_gather_rank]`. -/
def sliceOf (g : GroupCoordinator) (xs : List α) : List α :=
  block xs (g.rank_in_group * (xs.length / g.world_size)) (xs.length / g.world_size)

/-- What a rank sends of a tensor. -/
def chunkOf (all_gather_group : Option GroupCoordinator) (t : Tensor α δ) : List α :=
  match useAllGather all_gather_group t.numel with
  | some g => sliceOf g t.data
  | none => t.data

/-- The loop over the tensors.
mirrors parallel_state.py:1737-1750 -/
def sendTensors (all_gather_group : Option GroupCoordinator) (peer : Nat) :
    List (Tensor α δ) → Prog α Unit
  | [] => .done ()
  | t :: rest =>
    if t.numel = 0 then sendTensors all_gather_group peer rest
    else do
      Prog.send peer t.device (.data (chunkOf all_gather_group t))
      sendTensors all_gather_group peer rest

/-- mirrors parallel_state.py:1697-1750 -/
def sendTensorDict (pickle : Pickle (List (κ × Entry δ υ))) (pp : GroupCoordinator)
    (all_gather_group : Option GroupCoordinator) (tensor_dict : Dict κ α δ υ) (dst : Option Nat) :
    Prog α Unit :=
  if pp.world_size = 1 then .done ()
  else do
    let dst := dst.getD ((pp.rank_in_group + 1) % pp.world_size)
    Prog.assert (dst < pp.world_size)
    let (metadata_list, tensor_list) := splitTensorDict tensor_dict.items
    sendObject pickle pp metadata_list dst
    let peer ← Prog.ofOption pp.ranks[dst]?
    sendTensors all_gather_group peer tensor_list

/-- What a rank makes of the elements of a tensor that is not empty.
mirrors parallel_state.py:1786-1806 -/
def recvTensor (be : Backend δ) (all_gather_group : Option GroupCoordinator) (peer : Nat)
    (m : TensorMetadata δ) : Prog α (List α) :=
  match useAllGather all_gather_group m.numel with
  | some g => Prog.recv peer m.device (Message.asData (m.numel / g.world_size)) >>= allGather be g m
  | none => Prog.recv peer m.device (Message.asData m.numel)

/-- The loop over the metadata, `d` being the dictionary so far.
mirrors parallel_state.py:1777-1810 -/
def recvEntries [DecidableEq κ] (be : Backend δ) (all_gather_group : Option GroupCoordinator) (peer : Nat) :
    List (κ × Entry δ υ) → List (κ × Value α δ υ) → Prog α (List (κ × Value α δ υ))
  | [], d => .done d
  | (key, .other v) :: rest, d => recvEntries be all_gather_group peer rest (setItem d key (.other v))
  | (key, .metadata m) :: rest, d =>
    if h0 : m.numel = 0 then
      recvEntries be all_gather_group peer rest (setItem d key (.tensor ⟨m, [], h0.symm⟩))
    else do
      let xs ← recvTensor be all_gather_group peer m
      if h : xs.length = m.numel then
        recvEntries be all_gather_group peer rest (setItem d key (.tensor ⟨m, xs, h⟩))
      else .fail

/-- mirrors parallel_state.py:1752-1810 -/
def recvTensorDict [DecidableEq κ] (be : Backend δ) (pickle : Pickle (List (κ × Entry δ υ)))
    (pp : GroupCoordinator) (all_gather_group : Option GroupCoordinator) (src : Option Nat) :
    Prog α (Option (List (κ × Value α δ υ))) :=
  if pp.world_size = 1 then .done none
  else do
    -- Python's `%` takes the rank before the first round to the last
    let src := src.getD ((pp.rank_in_group + pp.world_size - 1) % pp.world_size)
    Prog.assert (src < pp.world_size)
    let recv_metadata_list ← recvObject pickle pp src
    let peer ← Prog.ofOption pp.ranks[src]?
    let tensor_dict ← recvEntries be all_gather_group peer recv_metadata_list []
    return some tensor_dict

end

/-- The network of the ranks: a group that gathers is named by its ranks. -/
def grid (R : Room Nat Device) : Net Nat Device (List Nat) := { R with members := id }

/-- The ranks of two blocks of `w`. -/
def pair (w a b : Nat) : Set Nat := {r | r / w = a ∨ r / w = b}

theorem mem_pair_iff {w a b r : Nat} (hw : 0 < w) :
    r ∈ pair w a b ↔ ∃ k ∈ Finset.range w, r = a * w + k ∨ r = b * w + k := by
  have hdm : r / w * w + r % w = r := Nat.div_add_mod' r w
  constructor
  · rintro (h | h)
    · exact ⟨r % w, Finset.mem_range.mpr (Nat.mod_lt r hw), .inl (by rw [← h, hdm])⟩
    · exact ⟨r % w, Finset.mem_range.mpr (Nat.mod_lt r hw), .inr (by rw [← h, hdm])⟩
  · have hdiv : ∀ c k, k < w → (c * w + k) / w = c := by
      intro c k hk
      rw [Nat.mul_comm, Nat.mul_add_div hw, Nat.div_eq_of_lt hk, Nat.add_zero]
    rintro ⟨k, hk, rfl | rfl⟩
    · exact .inl (hdiv a k (Finset.mem_range.mp hk))
    · exact .inr (hdiv b k (Finset.mem_range.mp hk))

section Hop
variable {κ α δ υ S : Type} {R : Room Nat Device} {w a b : Nat}

/-- One message from each rank of block `a` to the rank at its place in block `b`. -/
theorem block_transfers (hw : 0 < w) (hab : a ≠ b) (l : Device) (m : Nat → Message α)
    (ks : Nat → Prog α S) (kr : Nat → Message α → Prog α S) :
    (grid R).SyncOn (pair w a b)
      (fun r => if r / w = a then .send (b * w + r % w) l (m (r % w)) (ks r)
        else .recv (a * w + r % w) l (kr r))
      (fun r => if r / w = a then ks r else kr r (m (r % w))) := by
  have hdiv : ∀ c k, k ∈ Finset.range w → (c * w + k) / w = c := by
    intro c k hk
    rw [Nat.mul_comm, Nat.mul_add_div hw, Nat.div_eq_of_lt (Finset.mem_range.mp hk), Nat.add_zero]
  have hmod : ∀ c k, k ∈ Finset.range w → (c * w + k) % w = k := by
    intro c k hk
    rw [Nat.mul_comm, Nat.mul_add_mod, Nat.mod_eq_of_lt (Finset.mem_range.mp hk)]
  have hset : pair w a b = {r | ∃ k ∈ Finset.range w, r = a * w + k ∨ r = b * w + k} :=
    Set.ext fun r => mem_pair_iff hw
  rw [hset]
  refine Net.SyncOn.transfers (fun r => r % w) (l := l) m (fun k => kr (b * w + k))
    (hmod a) (hmod b) (fun k hk he => hab ?_) (fun k hk => ?_) (fun k hk => ?_) fun k hk => ?_
  · rw [← hdiv a k hk, he, hdiv b k hk]
  · simp only [hdiv a k hk, hmod a k hk, if_true]
  · simp only [hdiv b k hk, hmod b k hk, if_neg hab.symm]
  · simp only [hdiv b k hk, hmod b k hk, if_neg hab.symm]

/-- A place of the group that is another's, and the rank there. -/
structure Peer (pp : GroupCoordinator) (place rank : Nat) : Prop where
  lt : place < pp.world_size
  ne : place ≠ pp.rank_in_group
  rank : pp.ranks[place]? = some rank

theorem sendObject_eq {O : Type} {pickle : Pickle O} {pp : GroupCoordinator} {obj : O} {dst peer : Nat}
    (h : Peer pp dst peer) (k : Unit → Prog α S) :
    (sendObject pickle pp obj dst >>= k) =
      Proc.send peer .cpu (.size (pickle.dumps obj).length)
        (Proc.send peer .cpu (.bytes (pickle.dumps obj)) (k ())) := by
  simp only [sendObject, Prog.assert, if_pos h.lt, if_pos h.ne, h.rank, Prog.ofOption, Prog.send,
    Proc.done_bind, Proc.send_bind]

theorem recvObject_eq {O : Type} {pickle : Pickle O} {pp : GroupCoordinator} {src peer : Nat}
    (h : Peer pp src peer) (k : O → Prog α S) :
    (recvObject pickle pp src >>= k) = Proc.recv peer .cpu fun m =>
      Prog.ofOption m.asSize >>= fun n => Proc.recv peer .cpu fun m =>
        Prog.ofOption (m.asBytes n) >>= fun bs => Prog.ofOption (pickle.loads bs) >>= k := by
  simp only [recvObject, Prog.assert, if_pos h.lt, if_pos h.ne, h.rank, Prog.recv, Prog.ofOption,
    Proc.done_bind, Proc.recv_bind, bind_assoc]

/-- An object from each rank of block `a` to the rank at its place in block `b`. -/
theorem object_hop (hw : 0 < w) (hab : a ≠ b) {O : Type} (pickle : Pickle O) (obj : O)
    {pp : Nat → GroupCoordinator} {src dst : Nat}
    (hdst : ∀ r, r / w = a → Peer (pp r) dst (b * w + r % w))
    (hsrc : ∀ r, r / w = b → Peer (pp r) src (a * w + r % w)) (ks : Nat → Unit → Prog α S)
    (kr : Nat → O → Prog α S) :
    (grid R).SyncOn (pair w a b)
      (fun r => if r / w = a then sendObject pickle (pp r) obj dst >>= ks r
        else recvObject pickle (pp r) src >>= kr r)
      (fun r => if r / w = a then ks r () else kr r obj) := by
  let bs := pickle.dumps obj
  have hsize := block_transfers (R := R) hw hab .cpu (fun _ => .size bs.length)
    (fun r => Proc.send (b * w + r % w) .cpu (.bytes bs) (ks r ()))
    (fun r m => Prog.ofOption m.asSize >>= fun n => Proc.recv (a * w + r % w) .cpu fun m =>
      Prog.ofOption (m.asBytes n) >>= fun bs => Prog.ofOption (pickle.loads bs) >>= kr r)
  have hbytes := block_transfers (R := R) hw hab .cpu (fun _ => .bytes bs)
    (fun r => ks r ())
    (fun r m => Prog.ofOption (m.asBytes bs.length) >>= fun bs =>
      Prog.ofOption (pickle.loads bs) >>= kr r)
  refine (hsize.trans (hbytes.congr (fun r _ => rfl) fun r _ => rfl)).congr (fun r hr => ?_) fun r _ => ?_
  · by_cases ha : r / w = a
    · simp only [if_pos ha, sendObject_eq (hdst r ha), bs]
    · simp only [if_neg ha, recvObject_eq (hsrc r (hr.resolve_left ha))]
  · by_cases ha : r / w = a
    · simp only [if_pos ha]
    · simp only [if_neg ha, bs, Message.asBytes, if_true, Prog.ofOption, Proc.done_bind, pickle.loads_dumps]

/-- What is put together from the slices of a tensor is the tensor. -/
theorem slices_flatten {xs : List α} {w : Nat} (h : xs.length % w = 0) (r : Nat) :
    ((List.range w).map fun k => sliceOf (axis (r * w + k) 1 w) xs).flatten = xs := by
  have hslice : ∀ k ∈ List.range w, sliceOf (axis (r * w + k) 1 w) xs =
      block xs (k * (xs.length / w)) (xs.length / w) := by
    intro k hk
    have hplace : (r * w + k) / 1 % w = k := by
      rw [Nat.div_one, Nat.mul_comm, Nat.mul_add_mod, Nat.mod_eq_of_lt (List.mem_range.mp hk)]
    simp only [sliceOf, axis, hplace]
  rw [List.map_congr_left hslice]
  exact flatten_blocks (Nat.mul_div_cancel' (Nat.dvd_of_mod_eq_zero h)).symm

theorem sliceOf_length {xs : List α} {n r : Nat} (hw : 0 < w) (h : xs.length = n) (hn : n % w = 0) :
    (sliceOf (axis r 1 w) xs).length = n / w := by
  have hr : r / 1 % w < w := Nat.mod_lt _ hw
  have hmul : w * (n / w) = n := Nat.mul_div_cancel' (Nat.dvd_of_mod_eq_zero hn)
  have hle : (r / 1 % w + 1) * (n / w) ≤ w * (n / w) := Nat.mul_le_mul_right _ hr
  rw [Nat.add_mul, Nat.one_mul, hmul] at hle
  simp only [sliceOf, axis, h]
  exact block_length_of_le (by rw [h]; exact hle)

theorem sliceOf_mod (xs : List α) (r : Nat) :
    sliceOf (axis (r % w) 1 w) xs = sliceOf (axis r 1 w) xs := by
  simp only [sliceOf, axis, Nat.div_one, Nat.mod_mod]

/-- The slices of the ranks of block `b`, put together in a meeting. -/
theorem gather_hop (hw : 0 < w) (hab : a ≠ b) {xs : List α} (hn : xs.length % w = 0)
    (ks : Nat → Prog α S) (kr : Nat → List α → Prog α S) :
    (grid R).SyncOn (pair w a b)
      (fun r => if r / w = a then ks r
        else gatherData (axis r 1 w) (sliceOf (axis r 1 w) xs) >>= kr r)
      (fun r => if r / w = a then ks r else kr r xs) := by
  have hmem : ∀ r, r ∈ strided 1 w (b * w) ↔ r / w = b := by
    intro r
    rw [mem_strided Nat.one_pos hw, Nat.one_mul, Nat.mul_div_cancel _ hw, Nat.mod_one, Nat.mod_one]
    simp
  have hgroup : ∀ r, r / w = b → strided 1 w r = strided 1 w (b * w) := fun r hr =>
    strided_eq Nat.one_pos hw ((hmem r).mpr hr)
  have hranks : strided 1 w (b * w) = (List.range w).map fun k => b * w + k := by
    rw [strided, Nat.one_mul, Nat.mul_div_cancel _ hw, Nat.mod_one]
    simp
  have hslices : ∀ n, n = xs.length / w →
      ((strided 1 w (b * w)).map fun r => Message.data (sliceOf (axis r 1 w) xs)).mapM
      (Message.asData n) = some ((List.range w).map fun k => sliceOf (axis (b * w + k) 1 w) xs) := by
    rintro n rfl
    rw [hranks, List.map_map, List.mapM_map]
    exact mapM_some fun k _ => if_pos (sliceOf_length hw rfl hn)
  refine (Net.SyncOn.meet (N := grid R) (strided 1 w (b * w))
    (fun r => .data (sliceOf (axis r 1 w) xs))
    (fun r ms => (match ms.mapM (Message.asData (sliceOf (axis r 1 w) xs).length) with
      | some yss => Proc.done yss.flatten
      | none => Proc.fail : Prog α (List α)) >>= kr r) ?_ (fun r hr => ?_) (fun r hr => ?_)).mono
    (fun r hr => .inr ((hmem r).mp hr)) (fun r hr hnot => ?_)
  · intro h
    have := strided_length 1 w (b * w)
    rw [show strided 1 w (b * w) = [] from h] at this
    exact hw.ne this
  · have hb := (hmem r).mp hr
    simp only [if_neg (show ¬ r / w = a from fun h => hab (h.symm.trans hb)), gatherData,
      Proc.gather_bind]
    rw [show (axis r 1 w).ranks = strided 1 w (b * w) from hgroup r hb]
  · have hb := (hmem r).mp hr
    simp only [if_neg (show ¬ r / w = a from fun h => hab (h.symm.trans hb))]
    rw [show (grid R).members (strided 1 w (b * w)) = strided 1 w (b * w) from rfl,
      hslices _ (sliceOf_length hw rfl hn)]
    dsimp only
    rw [slices_flatten hn b]
    rfl
  · have ha : r / w = a := hr.resolve_right fun hb => hnot ((hmem r).mpr hb)
    simp only [if_pos ha]

/-- The slices of a tensor can be put together, if it goes in slices at all. -/
def Backend.Gathers (be : Backend δ) (w : Nat) (m : TensorMetadata δ) : Prop :=
  w ≠ 1 → m.device = .cpu → m.numel ≠ 0 → m.numel % w = 0 →
    be.is_shm_available m.dtype w be.local_size ∨ be.device_group_takes_cpu

theorem allGather_of_gathers {be : Backend δ} {g : GroupCoordinator} {m : TensorMetadata δ}
    (h : be.Gathers g.world_size m) (h1 : g.world_size ≠ 1) (h0 : m.numel ≠ 0)
    (hn : m.numel % g.world_size = 0) (xs : List α) : allGather be g m xs = gatherData g xs := by
  rw [allGather, if_neg h1]
  cases hd : m.device with
  | cuda => rfl
  | cpu =>
    rcases h h1 hd h0 hn with hshm | hcpu
    · exact if_pos hshm
    · dsimp only
      rw [if_pos hcpu, ite_self]

theorem allGather_of_not_gathers {be : Backend δ} {g : GroupCoordinator} {m : TensorMetadata δ}
    (h : ¬ be.Gathers g.world_size m) (xs : List α) : allGather be g m xs = .fail := by
  simp only [Backend.Gathers, not_forall, not_or] at h
  obtain ⟨h1, hd, -, -, hshm, hcpu⟩ := h
  rw [allGather, if_neg h1, hd]
  dsimp only
  rw [if_neg hshm, if_neg hcpu]

/-- The ranks of a block. -/
def blockOf (w b : Nat) : Set Nat := {r | r / w = b}

/-- The slices of a tensor that is not empty, put together by an all-gather. -/
theorem allGather_hop (hw : 0 < w) (hab : a ≠ b) (be : Backend δ) (t : Tensor α δ) (h0 : t.numel ≠ 0)
    (hn : t.data.length % w = 0) (ks : Nat → Prog α S) (kr : Nat → List α → Prog α S) :
    (grid R).SyncIf (pair w a b) (blockOf w b) (be.Gathers w t.toTensorMetadata)
      (fun r => if r / w = a then ks r
        else allGather be (axis r 1 w) t.toTensorMetadata (sliceOf (axis r 1 w) t.data) >>= kr r)
      (fun r => if r / w = a then ks r else kr r t.data) := by
  have hlen : t.numel % w = 0 := by rw [TensorMetadata.numel, ← t.data_length]; exact hn
  by_cases hone : w = 1
  · subst hone
    refine .of_sync ((Net.SyncOn.refl _ _ _).congr (fun r _ => rfl) fun r _ => ?_) fun h => absurd rfl h
    have hall : sliceOf (axis r 1 1) t.data = t.data := by
      have := slices_flatten hn r
      simpa using this
    by_cases ha : r / 1 = a
    · simp only [if_pos ha]
    · simp only [if_neg ha, allGather, axis, if_true, Proc.done_bind]
      exact congrArg (kr r) hall.symm
  · refine ⟨fun hok => (gather_hop hw hab hn ks kr).congr (fun r _ => ?_) fun r _ => rfl, fun hno => ?_⟩
    · rw [allGather_of_gathers (g := axis r 1 w) hok hone h0 hlen]
    · refine ⟨_, .refl _ _ _, fun r hr => ?_⟩
      rw [if_neg fun ha => hab (ha.symm.trans hr),
        allGather_of_not_gathers (g := axis r 1 w) hno, Proc.fail_bind]

/-- How the ranks use the all-gather: none of them does, or each in its block of `w`. -/
def Slices (w : Nat) (all_gather_group : Nat → Option GroupCoordinator) : Prop :=
  (∀ r, all_gather_group r = none) ∨ ∀ r, all_gather_group r = some (axis r 1 w)

/-- The slices of a tensor can be put together by the groups the ranks use. -/
def Backend.Collects (be : Backend δ) (ag : Nat → Option GroupCoordinator) (t : Tensor α δ) : Prop :=
  ∀ r, ∀ g ∈ ag r, be.Gathers g.world_size t.toTensorMetadata

/-- A tensor that is not empty and that each rank of block `a` holds, to the ranks of
block `b`. -/
theorem tensor_hop (hw : 0 < w) (hab : a ≠ b) {ag : Nat → Option GroupCoordinator} (hag : Slices w ag)
    (be : Backend δ) (t : Tensor α δ) (h0 : t.numel ≠ 0) (ks : Nat → Prog α S)
    (kr : Nat → List α → Prog α S) :
    (grid R).SyncIf (pair w a b) (blockOf w b) (be.Collects ag t)
      (fun r => if r / w = a then
          Prog.send (b * w + r % w) t.device (.data (chunkOf (ag r) t)) >>= fun _ => ks r
        else recvTensor be (ag r) (a * w + r % w) t.toTensorMetadata >>= kr r)
      (fun r => if r / w = a then ks r else kr r t.data) := by
  have hlen : t.data.length = t.numel := t.data_length
  have huse : (be.Collects ag t ∧ ∀ r, useAllGather (ag r) t.numel = none) ∨
      t.data.length % w = 0 ∧ ∀ r, ag r = some (axis r 1 w) ∧ useAllGather (ag r) t.numel = some (axis r 1 w) := by
    rcases hag with hag | hag
    · refine .inl ⟨fun r g hg => ?_, fun r => by rw [hag r]; rfl⟩
      rw [hag r] at hg
      cases hg
    · by_cases hdvd : t.numel % w = 0
      · refine .inr ⟨hlen.symm ▸ hdvd, fun r => ⟨hag r, ?_⟩⟩
        rw [hag r]
        exact Option.filter_some_pos (by simpa [axis] using hdvd)
      · refine .inl ⟨fun r g hg => ?_, fun r => ?_⟩
        · rw [hag r] at hg
          cases hg
          exact fun _ _ _ hn => absurd hn hdvd
        · rw [hag r]
          exact Option.filter_some_neg (by simpa [axis] using hdvd)
  rcases huse with ⟨hok, hnone⟩ | ⟨hdvd, hsome⟩
  · refine .of_sync ((block_transfers hw hab t.device (fun _ => .data t.data) ks
      (fun r m => Prog.ofOption (m.asData t.numel) >>= kr r)).congr (fun r _ => ?_) fun r _ => ?_) hok
    · by_cases ha : r / w = a
      · simp only [if_pos ha, chunkOf, hnone r, Prog.send, Proc.send_bind, Proc.done_bind]
      · simp only [if_neg ha, recvTensor]
        rw [show useAllGather (ag r) t.numel = none from hnone r]
        rfl
    · by_cases ha : r / w = a
      · simp only [if_pos ha]
      · simp only [if_neg ha, Message.asData, if_pos hlen, Prog.ofOption, Proc.done_bind]
  · have hslice : ∀ r, (sliceOf (axis r 1 w) t.data).length = t.numel / w := fun r =>
      sliceOf_length hw hlen (hlen ▸ hdvd)
    have hok : be.Collects ag t ↔ True ∧ be.Gathers w t.toTensorMetadata := by
      refine ⟨fun h => ⟨trivial, h 0 _ (hsome 0).1⟩, fun h r g hg => ?_⟩
      rw [(hsome r).1] at hg
      cases hg
      exact h.2
    have hsend := block_transfers (R := R) hw hab t.device (fun k => .data (sliceOf (axis k 1 w) t.data))
      ks (fun r m => Prog.ofOption (m.asData (t.numel / w)) >>= fun xs =>
        allGather be (axis r 1 w) t.toTensorMetadata xs >>= kr r)
    refine ((Net.SyncIf.of_sync hsend trivial).trans
      ((allGather_hop hw hab be t h0 hdvd ks kr).congr Iff.rfl (fun r _ => ?_) fun r _ => rfl)).congr
      hok (fun r _ => ?_) fun r _ => rfl
    · by_cases ha : r / w = a
      · simp only [if_pos ha]
      · simp only [if_neg ha, sliceOf_mod, Message.asData, if_pos (hslice r), Prog.ofOption, Proc.done_bind]
    · by_cases ha : r / w = a
      · simp only [if_pos ha, chunkOf, (hsome r).2, sliceOf_mod, Prog.send, Proc.send_bind, Proc.done_bind]
      · simp only [if_neg ha, recvTensor]
        rw [show useAllGather (ag r) t.numel = some (axis r 1 w) from (hsome r).2]
        simp only [Prog.recv, Proc.recv_bind, bind_assoc]
        rfl

/-- The dictionary the receiving loop has made so far is kept, and what is left of the
metadata is added to it. -/
theorem entries_hop [DecidableEq κ] (hw : 0 < w) (hab : a ≠ b) {ag : Nat → Option GroupCoordinator}
    (hag : Slices w ag) (be : Backend δ) (items acc : List (κ × Value α δ υ))
    (hnd : ((acc ++ items).map Prod.fst).Nodup) (ks : Nat → Prog α S)
    (kr : Nat → List (κ × Value α δ υ) → Prog α S) :
    (grid R).SyncIf (pair w a b) (blockOf w b) (∀ t ∈ (splitTensorDict items).2, be.Collects ag t)
      (fun r => if r / w = a then
          sendTensors (ag r) (b * w + r % w) (splitTensorDict items).2 >>= fun _ => ks r
        else recvEntries be (ag r) (a * w + r % w) (splitTensorDict items).1 acc >>= kr r)
      (fun r => if r / w = a then ks r else kr r (acc ++ items)) := by
  induction items generalizing acc with
  | nil =>
    refine .of_sync ((Net.SyncOn.refl _ _ _).congr (fun r _ => rfl) fun r _ => ?_) fun t ht => by cases ht
    rw [List.append_nil]
    rfl
  | cons item rest ih =>
    obtain ⟨key, value⟩ := item
    have hnew : key ∉ acc.map Prod.fst := by
      intro h
      rw [List.map_append, List.nodup_append] at hnd
      exact hnd.2.2 key h key (by simp) rfl
    have hih := ih (acc ++ [(key, value)]) (by simpa using hnd)
    rw [List.append_assoc, List.singleton_append] at hih
    cases value with
    | other v =>
      refine hih.congr Iff.rfl (fun r _ => ?_) fun r _ => rfl
      simp only [splitTensorDict, recvEntries, setItem_new _ hnew]
    | tensor t =>
      have hok : (∀ u ∈ (splitTensorDict ((key, .tensor t) :: rest)).2, be.Collects ag u) ↔
          be.Collects ag t ∧ ∀ u ∈ (splitTensorDict rest).2, be.Collects ag u := List.forall_mem_cons
      by_cases h0 : t.numel = 0
      · -- an empty tensor is not sent
        refine hih.congr (hok.trans ⟨And.right, fun h => ⟨fun r g _ _ _ hne => absurd h0 hne, h⟩⟩)
          (fun r _ => ?_) fun r _ => rfl
        have hdata : t.data = [] := List.eq_nil_of_length_eq_zero (t.data_length.trans h0)
        have ht : (⟨t.toTensorMetadata, [], h0.symm⟩ : Tensor α δ) = t := by
          obtain ⟨m, data, hdl⟩ := t
          subst hdata
          rfl
        simp only [splitTensorDict, sendTensors, recvEntries, if_pos h0, dif_pos h0, setItem_new _ hnew, ht]
      · have hsend := tensor_hop (R := R) hw hab hag be t h0
          (fun r => sendTensors (ag r) (b * w + r % w) (splitTensorDict rest).2 >>= fun _ => ks r)
          (fun r xs => (if h : xs.length = t.numel then
              recvEntries be (ag r) (a * w + r % w) (splitTensorDict rest).1
                (setItem acc key (.tensor ⟨t.toTensorMetadata, xs, h⟩))
            else .fail) >>= kr r)
        refine (hsend.trans (hih.congr Iff.rfl (fun r _ => ?_) fun r _ => rfl)).congr hok (fun r _ => ?_)
          fun r _ => rfl
        · have hlen : t.data.length = t.numel := t.data_length
          simp only [dif_pos hlen, setItem_new _ hnew]
        · simp only [splitTensorDict, sendTensors, recvEntries, if_neg h0, dif_neg h0, bind_assoc]

/-- One call of `send_tensor_dict` on each rank of block `a` and one of `recv_tensor_dict`
on each rank of block `b`. -/
theorem hop [DecidableEq κ] (hw : 0 < w) (hab : a ≠ b) {ag : Nat → Option GroupCoordinator}
    (hag : Slices w ag) (be : Backend δ) (pickle : Pickle (List (κ × Entry δ υ))) {pp : Nat → GroupCoordinator}
    {src dst : Option Nat} {ps pd : Nat} (d : Dict κ α δ υ)
    (hsrc : ∀ r, r / w = b → src.getD (((pp r).rank_in_group + (pp r).world_size - 1) % (pp r).world_size) = ps)
    (hdst : ∀ r, r / w = a → dst.getD (((pp r).rank_in_group + 1) % (pp r).world_size) = pd)
    (hps : ∀ r, r / w = b → Peer (pp r) ps (a * w + r % w))
    (hpd : ∀ r, r / w = a → Peer (pp r) pd (b * w + r % w))
    (hsize : ∀ r, (pp r).world_size ≠ 1)
    (ks : Nat → Prog α S) (kr : Nat → Option (List (κ × Value α δ υ)) → Prog α S) :
    (grid R).SyncIf (pair w a b) (blockOf w b) (∀ t ∈ (splitTensorDict d.items).2, be.Collects ag t)
      (fun r => if r / w = a then sendTensorDict pickle (pp r) (ag r) d dst >>= fun _ => ks r
        else recvTensorDict be pickle (pp r) (ag r) src >>= kr r)
      (fun r => if r / w = a then ks r else kr r (some d.items)) := by
  have hobj := object_hop (R := R) hw hab pickle (splitTensorDict d.items).1 hpd hps
    (fun r _ => sendTensors (ag r) (b * w + r % w) (splitTensorDict d.items).2 >>= fun _ => ks r)
    (fun r ms => recvEntries be (ag r) (a * w + r % w) ms [] >>= fun x => kr r (some x))
  have hent := entries_hop (R := R) hw hab hag be d.items [] (by rw [List.nil_append]; exact d.nodup) ks
    (fun r x => kr r (some x))
  refine ((Net.SyncIf.of_sync hobj trivial).trans hent).congr ⟨fun h => ⟨trivial, h⟩, And.right⟩
    (fun r hr => ?_) fun r _ => rfl
  by_cases ha : r / w = a
  · have hp := hpd r ha
    simp only [if_pos ha, sendTensorDict, if_neg (hsize r), hdst r ha, Prog.assert, if_pos hp.lt, hp.rank,
      Prog.ofOption, Proc.done_bind, bind_assoc]
  · have hb := hr.resolve_left ha
    have hp := hps r hb
    simp only [if_neg ha, recvTensorDict, if_neg (hsize r), hsrc r hb, Prog.assert, if_pos hp.lt, hp.rank,
      Prog.ofOption, Proc.done_bind, bind_assoc, Proc.pure_eq]

end Hop

section Grid
variable {κ α δ υ : Type} [DecidableEq κ] {R : Room Nat Device}

/-- What a rank has in the end: the dictionaries it received. -/
abbrev Received (κ α δ υ : Type) := List (Option (List (κ × Value α δ υ)))

/-- One call of `send_tensor_dict` after the other. -/
def sendAll (pickle : Pickle (List (κ × Entry δ υ))) (pp : GroupCoordinator)
    (all_gather_group : Option GroupCoordinator) (dst : Option Nat) :
    List (Dict κ α δ υ) → Prog α (Received κ α δ υ)
  | [] => return []
  | d :: ds => do
    sendTensorDict pickle pp all_gather_group d dst
    sendAll pickle pp all_gather_group dst ds

/-- One call of `recv_tensor_dict` after the other. -/
def recvAll (be : Backend δ) (pickle : Pickle (List (κ × Entry δ υ))) (pp : GroupCoordinator)
    (all_gather_group : Option GroupCoordinator) (src : Option Nat) : Nat → Prog α (Received κ α δ υ)
  | 0 => return []
  | n + 1 => do
    let d ← recvTensorDict be pickle pp all_gather_group src
    let ds ← recvAll be pickle pp all_gather_group src n
    return d :: ds

/-- The transfers of one pair of blocks. -/
theorem all_hop {w a b : Nat} (hw : 0 < w) (hab : a ≠ b) {ag : Nat → Option GroupCoordinator}
    (hag : Slices w ag) (be : Backend δ) (pickle : Pickle (List (κ × Entry δ υ))) {pp : Nat → GroupCoordinator}
    {src dst : Option Nat} {ps pd : Nat}
    (hsrc : ∀ r, r / w = b → src.getD (((pp r).rank_in_group + (pp r).world_size - 1) % (pp r).world_size) = ps)
    (hdst : ∀ r, r / w = a → dst.getD (((pp r).rank_in_group + 1) % (pp r).world_size) = pd)
    (hps : ∀ r, r / w = b → Peer (pp r) ps (a * w + r % w))
    (hpd : ∀ r, r / w = a → Peer (pp r) pd (b * w + r % w))
    (hsize : ∀ r, (pp r).world_size ≠ 1) (ds : List (Dict κ α δ υ))
    (kr : Nat → Received κ α δ υ → Prog α (Received κ α δ υ)) :
    (grid R).SyncIf (pair w a b) (blockOf w b)
      (∀ d ∈ ds, ∀ t ∈ (splitTensorDict d.items).2, be.Collects ag t)
      (fun r => if r / w = a then sendAll pickle (pp r) (ag r) dst ds
        else recvAll be pickle (pp r) (ag r) src ds.length >>= kr r)
      (fun r => if r / w = a then .done [] else kr r (ds.map fun d => some d.items)) := by
  induction ds generalizing kr with
  | nil => exact .of_sync (.refl _ _ _) fun d hd => by cases hd
  | cons d ds ih =>
    have hd := hop (R := R) hw hab hag be pickle d hsrc hdst hps hpd hsize
      (fun r => sendAll pickle (pp r) (ag r) dst ds)
      (fun r x => recvAll be pickle (pp r) (ag r) src ds.length >>= fun xs => kr r (x :: xs))
    refine (hd.trans (ih fun r xs => kr r (some d.items :: xs))).congr List.forall_mem_cons
      (fun r _ => ?_) fun r _ => rfl
    by_cases ha : r / w = a
    · simp only [if_pos ha, sendAll]
    · simp only [if_neg ha, List.length_cons, recvAll, bind_assoc, pure_bind]

/-- The calls of a grid of `S` stages of `T` ranks: stage `i` sends, stage `j` receives. -/
structure Transfer (κ α δ υ : Type) where
  pickle : Pickle (List (κ × Entry δ υ))
  backend : Backend δ
  T : Nat
  S : Nat
  i : Nat
  j : Nat
  dst : Option Nat
  src : Option Nat
  /-- the width of the all-gather groups, where there are any -/
  all_gather : Option Nat
  /-- what each rank of stage `i` sends -/
  sent : Nat → List (Dict κ α δ υ)
  count : Nat

namespace Transfer
variable (x : Transfer κ α δ υ)

def ppGroup (r : Nat) : GroupCoordinator := axis r x.T x.S

def allGatherGroup (r : Nat) : Option GroupCoordinator := x.all_gather.map (axis r 1)

def program (r : Nat) : Prog α (Received κ α δ υ) :=
  if r / x.T = x.i then sendAll x.pickle (x.ppGroup r) (x.allGatherGroup r) x.dst (x.sent r)
  else if r / x.T = x.j then recvAll x.backend x.pickle (x.ppGroup r) (x.allGatherGroup r) x.src x.count
  else return []

/-- What every rank is to have in the end: in stage `j`, what the rank at its place in
stage `i` sent. -/
def received (r : Nat) : Received κ α δ υ :=
  if r / x.T = x.j then (x.sent (x.i * x.T + r % x.T)).map fun d => some d.items else []

/-- Ranks of one all-gather group hold the same dictionaries. -/
structure Valid : Prop where
  T_pos : 0 < x.T
  stages : x.i < x.S ∧ x.j < x.S ∧ x.i ≠ x.j
  dst_eq : x.dst.getD ((x.i + 1) % x.S) = x.j
  src_eq : x.src.getD ((x.j + x.S - 1) % x.S) = x.i
  width : ∀ w ∈ x.all_gather, 0 < w ∧ w ∣ x.T
  agree : ∀ w ∈ x.all_gather, ∀ r r', r / w = r' / w → x.sent r = x.sent r'
  length : ∀ r, r / x.T = x.i → (x.sent r).length = x.count

/-- Every tensor that goes in slices can be put together again. -/
def Gathers : Prop :=
  ∀ r, r / x.T = x.i → ∀ d ∈ x.sent r, ∀ t ∈ (splitTensorDict d.items).2,
    ∀ w ∈ x.all_gather, x.backend.Gathers w t.toTensorMetadata

end Transfer

/-- A rank's stage and its block within the stage, from its block in the whole grid. -/
theorem div_eq_iff {w q k c r : Nat} (hq : 0 < q) (hc : c < q) :
    r / w = k * q + c ↔ r / (w * q) = k ∧ r % (w * q) / w = c := by
  rw [← Nat.div_div_eq_div_mul, Nat.mod_mul_right_div_self]
  constructor
  · intro h
    rw [h, Nat.mul_comm, Nat.mul_add_div hq, Nat.div_eq_of_lt hc, Nat.mul_add_mod, Nat.mod_eq_of_lt hc]
    exact ⟨rfl, rfl⟩
  · rintro ⟨rfl, rfl⟩
    exact (Nat.div_add_mod' _ _).symm

/-- The rank at the same place of another stage. -/
theorem peer_axis {T S r k k' : Nat} (hr : r / T = k) (hk : k < S) (hk' : k' < S) (hne : k' ≠ k) :
    Peer (axis r T S) k' (k' * T + r % T) where
  lt := hk'
  ne := by rw [axis]; dsimp only; rw [hr, Nat.mod_eq_of_lt hk]; exact hne
  rank := by
    have h0 : r / (T * S) = 0 := by rw [← Nat.div_div_eq_div_mul, hr, Nat.div_eq_of_lt hk]
    rw [axis]
    dsimp only
    rw [strided, List.getElem?_map, List.getElem?_range hk', h0, Option.map_some, Nat.zero_mul,
      Nat.zero_add, Nat.add_comm]

/-- The ranks of one column of the grid: a block of the sending stage and the block at its
place in the receiving stage. -/
theorem Transfer.column_hop (x : Transfer κ α δ υ) (hx : x.Valid) {w q c : Nat} (hw : 0 < w)
    (hT : x.T = w * q) (hc : c < q) (hag : Slices w x.allGatherGroup)
    (hagree : ∀ r r', r / w = r' / w → x.sent r = x.sent r') :
    (grid R).SyncIf (pair w (x.i * q + c) (x.j * q + c)) (blockOf w (x.j * q + c))
      (∀ d ∈ x.sent ((x.i * q + c) * w), ∀ t ∈ (splitTensorDict d.items).2,
        x.backend.Collects x.allGatherGroup t)
      x.program fun r => .done (x.received r) := by
  have hq : 0 < q := by omega
  obtain ⟨hi, hj, hij⟩ := hx.stages
  have hblock : ∀ k r, r / w = k * q + c → r / x.T = k ∧ r % x.T / w = c := by
    intro k r hr
    rw [hT]
    exact (div_eq_iff hq hc).mp hr
  have hrank : ∀ k r, r % x.T / w = c → (k * q + c) * w + r % w = k * x.T + r % x.T := by
    intro k r hr
    have hmod : r % x.T / w * w + r % x.T % w = r % x.T := Nat.div_add_mod' _ _
    rw [hr, Nat.mod_mod_of_dvd r ⟨q, hT⟩] at hmod
    rw [Nat.add_mul, ← hmod, hT]
    ring
  have hpeer : ∀ k k', k < x.S → k' < x.S → k' ≠ k → ∀ r, r / w = k * q + c →
      Peer (x.ppGroup r) k' ((k' * q + c) * w + r % w) := by
    intro k k' hk hk' hne r hr
    obtain ⟨h₁, h₂⟩ := hblock k r hr
    rw [hrank k' r h₂]
    exact peer_axis h₁ hk hk' hne
  have hplace : ∀ k, k < x.S → ∀ r, r / w = k * q + c → (x.ppGroup r).rank_in_group = k := by
    intro k hk r hr
    rw [Transfer.ppGroup, axis]
    dsimp only
    rw [(hblock k r hr).1, Nat.mod_eq_of_lt hk]
  have hsrc : ∀ r, r / w = x.j * q + c → x.src.getD (((x.ppGroup r).rank_in_group +
      (x.ppGroup r).world_size - 1) % (x.ppGroup r).world_size) = x.i := fun r hr => by
    rw [hplace x.j hj r hr]; exact hx.src_eq
  have hdst : ∀ r, r / w = x.i * q + c → x.dst.getD (((x.ppGroup r).rank_in_group + 1) %
      (x.ppGroup r).world_size) = x.j := fun r hr => by
    rw [hplace x.i hi r hr]; exact hx.dst_eq
  have hsize : ∀ r, (x.ppGroup r).world_size ≠ 1 := fun _ (h : x.S = 1) => by omega
  have hfirst : ∀ r, r / w = x.i * q + c → x.sent r = x.sent ((x.i * q + c) * w) := fun r hr =>
    hagree _ _ (by rw [hr, Nat.mul_div_cancel _ hw])
  have hab : x.i * q + c ≠ x.j * q + c := fun h =>
    hij (Nat.eq_of_mul_eq_mul_right hq (Nat.add_right_cancel h))
  refine (all_hop hw hab hag x.backend x.pickle hsrc hdst (hpeer x.j x.i hj hi hij) (hpeer x.i x.j hi hj hij.symm)
    hsize (x.sent ((x.i * q + c) * w)) fun _ => .done).congr Iff.rfl (fun r hr => ?_) fun r hr => ?_
  · rcases hr with ha | hb
    · rw [Transfer.program, if_pos (hblock _ r ha).1, if_pos ha, hfirst r ha]
    · have hj' := (hblock _ r hb).1
      have hlen : (x.sent ((x.i * q + c) * w)).length = x.count := by
        refine hx.length _ (hblock x.i _ ?_).1
        exact Nat.mul_div_cancel _ hw
      rw [Transfer.program, if_neg (by omega), if_pos hj', if_neg (by omega), Proc.bind_done, hlen]
  · rcases hr with ha | hb
    · rw [Transfer.received, if_neg (by have := (hblock _ r ha).1; omega), if_pos ha]
    · obtain ⟨hj', hplace'⟩ := hblock _ r hb
      have hsame : (x.i * x.T + r % x.T) / w = x.i * q + c := by
        rw [← hrank x.i r hplace', Nat.mul_comm, Nat.mul_add_div hw, Nat.div_eq_of_lt (Nat.mod_lt _ hw),
          Nat.add_zero]
      rw [Transfer.received, if_pos hj', if_neg (by omega), hfirst _ hsame]

omit [DecidableEq κ] in
/-- The width of the columns the grid falls into, each going its own way. -/
theorem Transfer.Valid.columns {x : Transfer κ α δ υ} (hx : x.Valid) :
    ∃ w q, 0 < w ∧ 0 < q ∧ x.T = w * q ∧ Slices w x.allGatherGroup ∧
      ∀ r r', r / w = r' / w → x.sent r = x.sent r' := by
  cases hg : x.all_gather with
  | none =>
    refine ⟨1, x.T, Nat.one_pos, hx.T_pos, (Nat.one_mul _).symm,
      .inl fun r => by rw [Transfer.allGatherGroup, hg]; rfl, ?_⟩
    intro r r' h
    rw [Nat.div_one, Nat.div_one] at h
    rw [h]
  | some w =>
    obtain ⟨hw, q, hT⟩ := hx.width w hg
    exact ⟨w, q, hw, Nat.pos_of_mul_pos_left (hT ▸ hx.T_pos), hT,
      .inr fun r => by rw [Transfer.allGatherGroup, hg]; rfl, hx.agree w hg⟩

omit [DecidableEq κ] in
theorem Transfer.collects_iff (x : Transfer κ α δ υ) (t : Tensor α δ) :
    x.backend.Collects x.allGatherGroup t ↔ ∀ w ∈ x.all_gather, x.backend.Gathers w t.toTensorMetadata := by
  constructor
  · intro h w hw
    exact h 0 (axis 0 1 w) (by rw [Transfer.allGatherGroup, hw]; rfl)
  · intro h r g hg
    obtain ⟨w, hw, rfl⟩ := Option.map_eq_some_iff.mp hg
    exact h w hw

theorem Transfer.sync (R : Room Nat Device) {x : Transfer κ α δ υ} (hx : x.Valid) (hok : x.Gathers) :
    (grid R).SyncOn Set.univ x.program fun r => .done (x.received r) := by
  obtain ⟨w, q, hw, hq, hT, hag, hagree⟩ := hx.columns
  have hmem : ∀ r, r ∈ {r | r / x.T = x.i ∨ r / x.T = x.j} ↔ r / x.T = x.i ∨ r / x.T = x.j :=
    fun _ => Iff.rfl
  suffices h : (grid R).SyncOn {r | r / x.T = x.i ∨ r / x.T = x.j} x.program fun r => .done (x.received r) by
    refine h.mono (Set.subset_univ _) fun r _ hr => ?_
    rw [hmem, not_or] at hr
    rw [Transfer.program, if_neg hr.1, if_neg hr.2, Transfer.received, if_neg hr.2]
    rfl
  refine Net.SyncOn.columns (Finset.range q) (fun r => r % x.T / w) (fun r _ => ?_) fun c hc => ?_
  · rw [Finset.mem_range, hT, Nat.div_lt_iff_lt_mul hw, Nat.mul_comm q]
    exact Nat.mod_lt _ (Nat.mul_pos hw hq)
  · have hc' : c < q := Finset.mem_range.mp hc
    have hset : {r | r ∈ {r | r / x.T = x.i ∨ r / x.T = x.j} ∧ r % x.T / w = c} =
        pair w (x.i * q + c) (x.j * q + c) := by
      ext r
      show (r / x.T = x.i ∨ r / x.T = x.j) ∧ r % x.T / w = c ↔ r / w = x.i * q + c ∨ r / w = x.j * q + c
      rw [hT, div_eq_iff hq hc', div_eq_iff hq hc', ← or_and_right]
    rw [hset]
    refine (x.column_hop hx hw hT hc' hag hagree).sync fun d hd t ht => (x.collects_iff t).mpr ?_
    refine hok _ ?_ d hd t ht
    rw [hT]
    exact ((div_eq_iff hq hc').mp (Nat.mul_div_cancel _ hw)).1

/-- Where a tensor cannot be put together, the receivers of its column fail. -/
theorem Transfer.fails (R : Room Nat Device) {x : Transfer κ α δ υ} (hx : x.Valid) (hno : ¬ x.Gathers) :
    ∃ r, r / x.T = x.j ∧ ∀ es c, (grid R).sys.Run (.quiet x.program) es c →
      ∃ es' c', (grid R).sys.Run c es' c' ∧ c'.procs r = .fail := by
  obtain ⟨w, q, hw, hq, hT, hag, hagree⟩ := hx.columns
  simp only [Transfer.Gathers, not_forall] at hno
  obtain ⟨r₀, hr₀, d, hd, t, ht, v, hv, hbad⟩ := hno
  have hc : r₀ % x.T / w < q := by
    rw [hT, Nat.div_lt_iff_lt_mul hw, Nat.mul_comm q]
    exact Nat.mod_lt _ (Nat.mul_pos hw hq)
  have hcol : r₀ / w = x.i * q + r₀ % x.T / w := by
    rw [hT] at hr₀ ⊢
    exact (div_eq_iff hq (hT ▸ hc)).mpr ⟨hr₀, rfl⟩
  have hsent : x.sent ((x.i * q + r₀ % x.T / w) * w) = x.sent r₀ :=
    hagree _ _ (by rw [Nat.mul_div_cancel _ hw, hcol])
  obtain ⟨g, hg, hfail⟩ := (x.column_hop (R := R) hx hw hT hc hag hagree).fail fun h =>
    hbad ((x.collects_iff t).mp (h d (hsent ▸ hd) t ht) v hv)
  have hrank : (x.j * q + r₀ % x.T / w) * w / w = x.j * q + r₀ % x.T / w := Nat.mul_div_cancel _ hw
  refine ⟨(x.j * q + r₀ % x.T / w) * w, ?_, fun es c hr => Net.fails hg (.inr hrank) (hfail _ hrank) hr⟩
  have := ((div_eq_iff hq hc).mp hrank).1
  rwa [← hT] at this

/-- Any number of transfers from one stage to another: whatever rank moves when, and
however much the channels take, no rank waits for ever and none fails, and in the end
every rank of the receiving stage has the dictionaries its sender sent, in order. Where a
CPU tensor that goes in slices cannot be gathered, a receiver fails instead, whatever rank
moves when. -/
theorem tensor_dicts_delivered (R : Room Nat Device) (x : Transfer κ α δ υ) (hx : x.Valid) :
    (x.Gathers → ∃ n, ∀ es c, (grid R).sys.Run (.quiet x.program) es c →
      ∃ es', (grid R).sys.Run c es' (.quiet fun r => .done (x.received r)) ∧ es.length + es'.length = n) ∧
    (¬ x.Gathers → ∃ r, r / x.T = x.j ∧ ∀ es c, (grid R).sys.Run (.quiet x.program) es c →
      ∃ es' c', (grid R).sys.Run c es' c' ∧ c'.procs r = .fail) :=
  ⟨fun hok => Net.settles (x.sync R hx hok), x.fails R hx⟩

end Grid

/-- A dictionary of a device tensor of two elements, an empty tensor, a CPU tensor of `n`
elements and a number. -/
def someTensors (n : Nat) : Dict Nat Nat Nat Nat where
  items := [(0, .tensor ⟨⟨.cuda, 0, [2]⟩, [7, 8], rfl⟩), (1, .tensor ⟨⟨.cpu, 0, [0, 4]⟩, [], rfl⟩),
    (2, .tensor ⟨⟨.cpu, 0, [n]⟩, List.replicate n 1, by simp⟩), (3, .other 5)]
  nodup := by simp

/-- Any code of the metadata as a string of bytes will do. -/
def countingPickle : Pickle (List (Nat × Entry Nat Nat)) where
  dumps o := List.replicate (Encodable.encode o) 0
  loads bs := Encodable.decode bs.length
  loads_dumps o := by rw [List.length_replicate, Encodable.encodek]

/-- Ranks that share no memory, and a device group that takes no CPU tensors. -/
def deviceOnly : Backend Nat := ⟨fun _ _ _ => false, 1, false⟩

/-- Two stages of two ranks. -/
def twoByTwo (n : Nat) : Transfer Nat Nat Nat Nat where
  pickle := countingPickle
  backend := deviceOnly
  T := 2
  S := 2
  i := 0
  j := 1
  dst := none
  src := none
  all_gather := some 2
  sent _ := [someTensors n, someTensors n]
  count := 2

theorem twoByTwo_valid (n : Nat) : (twoByTwo n).Valid where
  T_pos := Nat.two_pos
  stages := by simp [twoByTwo]
  dst_eq := by simp [twoByTwo]
  src_eq := by simp [twoByTwo]
  width := by rintro w ⟨⟩; exact ⟨Nat.two_pos, dvd_rfl⟩
  agree := fun _ _ _ _ _ => rfl
  length := fun _ _ => rfl

/-- A CPU tensor whose elements do not divide is sent whole, and nothing is gathered. -/
theorem twoByTwo_gathers {n : Nat} : (twoByTwo n).Gathers ↔ n = 0 ∨ n % 2 ≠ 0 := by
  have h : (twoByTwo n).Gathers ↔ ∀ r ≤ 1, ¬ 0 = n → n % 2 = 1 := by
    simp [Transfer.Gathers, twoByTwo, someTensors, splitTensorDict, Backend.Gathers, deviceOnly,
      TensorMetadata.numel]
  rw [h]
  refine ⟨fun h => ?_, fun h r _ hne => by omega⟩
  have := h 0 (by decide)
  omega

/-- The CPU group holds one message, the device group hands each one over. -/
def shallow : Room Nat Device where
  room ch n := ch.2.2 = .cpu ∧ n = 0
  room_anti ch n h := by simp at h

theorem twoByTwo_delivered :
    (∃ n, ∀ es c, (grid shallow).sys.Run (.quiet (twoByTwo 3).program) es c →
      ∃ es', (grid shallow).sys.Run c es' (.quiet fun r => .done ((twoByTwo 3).received r)) ∧
        es.length + es'.length = n) ∧
    ∃ r, r / 2 = 1 ∧ ∀ es c, (grid shallow).sys.Run (.quiet (twoByTwo 4).program) es c →
      ∃ es' c', (grid shallow).sys.Run c es' c' ∧ c'.procs r = .fail :=
  ⟨(tensor_dicts_delivered shallow (twoByTwo 3) (twoByTwo_valid 3)).1 (twoByTwo_gathers.mpr (by decide)),
    (tensor_dicts_delivered shallow (twoByTwo 4) (twoByTwo_valid 4)).2
      fun h => absurd (twoByTwo_gathers.mp h) (by decide)⟩

end FlashSpark.L5.TensorDict
