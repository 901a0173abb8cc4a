import Mathlib

/-!
# Some k greatest

`IsTopK score n k sel`: the `k` indices `sel` are distinct, below `n`, and no index
left out scores more than one of them. Which of several equal ones is taken is not
said, nor in what order. An index that few others match is taken
(`IsTopK.mem_of_few`).

`TopRow score n k keep js`: the ascending `js` are what a top-k leaves of the columns
below `n` that `keep` has, when the others score `⊥` (`IsTopK.topRow`).
-/
namespace FlashSpark

structure IsTopK {F : Type*} [LinearOrder F] (score : Nat → F) (n k : Nat) (sel : Nat → Nat) : Prop where
  lt : ∀ i, i < k → sel i < n
  inj : ∀ i j, i < k → j < k → sel i = sel j → i = j
  greatest : ∀ i b, i < k → b < n → (∀ j, j < k → sel j ≠ b) → score b ≤ score (sel i)

namespace IsTopK
variable {F : Type*} [LinearOrder F] {score : Nat → F} {n k : Nat} {sel : Nat → Nat}

theorem congr {score' : Nat → F} (h : IsTopK score n k sel) (he : ∀ b, b < n → score b = score' b) :
    IsTopK score' n k sel where
  lt := h.lt
  inj := h.inj
  greatest i b hi hb hout := by
    rw [← he b hb, ← he _ (h.lt i hi)]
    exact h.greatest i b hi hb hout

/-- An index is taken when fewer than `k` others score as much. -/
theorem mem_of_few (h : IsTopK score n k sel) {b : Nat} (hb : b < n)
    (hfew : ((Finset.range n).filter fun b' => b' ≠ b ∧ score b ≤ score b').card < k) :
    ∃ i, i < k ∧ sel i = b := by
  by_contra hnot
  have hout : ∀ j, j < k → sel j ≠ b := fun j hj he => hnot ⟨j, hj, he⟩
  have hsub : (Finset.range k).image sel ⊆
      (Finset.range n).filter fun b' => b' ≠ b ∧ score b ≤ score b' := by
    intro c hc
    obtain ⟨i, hi, rfl⟩ := Finset.mem_image.mp hc
    have hi := Finset.mem_range.mp hi
    exact Finset.mem_filter.mpr ⟨Finset.mem_range.mpr (h.lt i hi), hout i hi, h.greatest i b hi hb hout⟩
  have hcard : ((Finset.range k).image sel).card = k := by
    rw [Finset.card_image_of_injOn, Finset.card_range]
    intro i hi j hj he
    exact h.inj i j (Finset.mem_range.mp hi) (Finset.mem_range.mp hj) he
  have := Finset.card_le_card hsub
  omega

/-- Nothing below `n` is left out of `n` indices. -/
theorem mem_of_all (h : IsTopK score n n sel) {b : Nat} (hb : b < n) : ∃ i, i < n ∧ sel i = b := by
  refine h.mem_of_few hb (Nat.lt_of_le_of_lt (Finset.card_le_card ?_)
    (Nat.lt_of_lt_of_eq (Finset.card_erase_lt_of_mem (Finset.mem_range.mpr hb)) (Finset.card_range n)))
  intro c hc
  obtain ⟨hrange, hne, -⟩ := Finset.mem_filter.mp hc
  exact Finset.mem_erase.mpr ⟨hne, hrange⟩

/-- A descending order of the indices has a top-k in front. -/
theorem of_descending {l : List Nat} (hperm : l.Perm (List.range n))
    (hdesc : l.Pairwise fun a b => score b ≤ score a) (hk : k ≤ n) : IsTopK score n k fun i => l.getD i 0 := by
  have hlen : l.length = n := by rw [hperm.length_eq, List.length_range]
  have hget : ∀ i (h : i < l.length), l.getD i 0 = l[i] := fun i h => List.getD_eq_getElem l 0 h
  have hnodup : l.Nodup := hperm.nodup_iff.mpr List.nodup_range
  refine ⟨fun i hi => ?_, fun i j hi hj he => ?_, fun i b hi hb hout => ?_⟩
  · rw [hget i (by omega)]
    exact List.mem_range.mp (hperm.mem_iff.mp (List.getElem_mem _))
  · rw [hget i (by omega), hget j (by omega)] at he
    exact hnodup.getElem_inj_iff.mp he
  · obtain ⟨j, hj, rfl⟩ := List.getElem_of_mem (hperm.mem_iff.mpr (List.mem_range.mpr hb))
    have hkj : k ≤ j := by
      by_contra hlt
      exact hout j (by omega) (hget j hj)
    rw [hget i (by omega)]
    exact List.pairwise_iff_getElem.mp hdesc i j (by omega) hj (by omega)

end IsTopK

structure TopRow {F : Type*} [LinearOrder F] [OrderBot F] (score : Nat → F) (n k : Nat) (keep : Nat → Prop)
    (js : List Nat) : Prop where
  ascending : js.Pairwise (· < ·)
  mem : ∀ j ∈ js, j < n ∧ keep j
  length_le : js.length ≤ k
  greatest : ∀ b, b < n → keep b → ⊥ < score b → b ∉ js → js.length = k ∧ ∀ j ∈ js, score b ≤ score j

section TopRow
variable {F : Type*} [LinearOrder F] [OrderBot F] {score : Nat → F} {n k : Nat} {keep : Nat → Prop}
  {js : List Nat}

theorem TopRow.congr {keep' : Nat → Prop} (h : TopRow score n k keep js) (hk : ∀ j, j < n → (keep j ↔ keep' j)) :
    TopRow score n k keep' js where
  ascending := h.ascending
  mem j hj := ⟨(h.mem j hj).1, (hk j (h.mem j hj).1).mp (h.mem j hj).2⟩
  length_le := h.length_le
  greatest b hb hb' := h.greatest b hb ((hk b hb).mpr hb')

theorem TopRow.nodup (h : TopRow score n k keep js) : js.Nodup := h.ascending.imp Nat.ne_of_lt

/-- What a top-k over the kept columns' scores and `⊥` leaves of the kept columns. -/
theorem IsTopK.topRow {masked : Nat → F} {width : Nat} {sel : Nat → Nat}
    (h : IsTopK masked width (min k width) sel) (hn : n ≤ width)
    (hkept : ∀ j, j < n → keep j → masked j = score j)
    (hmasked : ∀ j, j < width → ⊥ < masked j → j < n ∧ keep j) (hasc : js.Pairwise (· < ·))
    (hjs : ∀ j, j ∈ js ↔ (∃ i, i < min k width ∧ sel i = j) ∧ j < n ∧ keep j) :
    TopRow score n k keep js where
  ascending := hasc
  mem j hj := ((hjs j).mp hj).2
  length_le := by
    have hsub : js.toFinset ⊆ (Finset.range (min k width)).image sel := by
      intro j hj
      obtain ⟨i, hi, he⟩ := ((hjs j).mp (List.mem_toFinset.mp hj)).1
      exact Finset.mem_image.mpr ⟨i, Finset.mem_range.mpr hi, he⟩
    have hcard := (Finset.card_le_card hsub).trans Finset.card_image_le
    rw [List.toFinset_card_of_nodup (hasc.imp Nat.ne_of_lt), Finset.card_range] at hcard
    omega
  greatest b hb hk hbot hout := by
    have hne : ∀ i, i < min k width → sel i ≠ b := fun i hi he => hout ((hjs b).mpr ⟨⟨i, hi, he⟩, hb, hk⟩)
    have hge : ∀ i, i < min k width → score b ≤ masked (sel i) := by
      intro i hi
      rw [← hkept b hb hk]
      exact h.greatest i b hi (Nat.lt_of_lt_of_le hb hn) hne
    -- so every selected column is kept
    have hsel : ∀ i, i < min k width → sel i < n ∧ keep (sel i) := fun i hi =>
      hmasked _ (h.lt i hi) (hbot.trans_le (hge i hi))
    have hless : min k width < width := by
      by_contra hall
      have heq : min k width = width := by omega
      rw [heq] at h hne
      obtain ⟨i, hi, he⟩ := h.mem_of_all (Nat.lt_of_lt_of_le hb hn)
      exact hne i hi he
    have himage : (Finset.range (min k width)).image sel = js.toFinset := by
      ext j
      rw [Finset.mem_image, List.mem_toFinset, hjs]
      constructor
      · rintro ⟨i, hi, rfl⟩
        have hi := Finset.mem_range.mp hi
        exact ⟨⟨i, hi, rfl⟩, hsel i hi⟩
      · rintro ⟨⟨i, hi, rfl⟩, -⟩
        exact ⟨i, Finset.mem_range.mpr hi, rfl⟩
    refine ⟨?_, fun j hj => ?_⟩
    · have hcard : ((Finset.range (min k width)).image sel).card = min k width := by
        rw [Finset.card_image_of_injOn, Finset.card_range]
        intro i hi j hj he
        exact h.inj i j (Finset.mem_range.mp hi) (Finset.mem_range.mp hj) he
      rw [himage, List.toFinset_card_of_nodup (hasc.imp Nat.ne_of_lt)] at hcard
      omega
    · obtain ⟨⟨i, hi, rfl⟩, hj⟩ := (hjs j).mp hj
      rw [← hkept _ hj.1 hj.2]
      exact hge i hi

end TopRow
end FlashSpark
