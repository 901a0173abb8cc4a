import FlashSpark.Core.Mem

/-!
# Set-associative tables that memoise a function

A table of `sets * ways` lines, each empty or holding a key and a value. It is
`Sound` for `f` when every key sits in its own set, next to `f key`. Which way
an insertion takes is not part of the argument: any replacement policy keeps
`Sound` (`Sound.put`), and inserting one key twice is harmless.
-/
namespace FlashSpark.SetAssoc

variable {V : Type*}

structure Table (V : Type*) where
  keys : Nat → Option Nat
  lines : Nat → V

def slot (ways set w : Nat) : Nat := set * ways + w

theorem slot_inj {ways set set' w w' : Nat} (hw : w < ways) (hw' : w' < ways)
    (h : slot ways set w = slot ways set' w') : set = set' ∧ w = w' := mul_add_inj hw hw' h

def Table.put (t : Table V) (i k : Nat) (v : V) : Table V :=
  ⟨Function.update t.keys i (some k), Function.update t.lines i v⟩

/-- Every key is in its own set and its line is the memoised value. -/
structure Sound (f : Nat → V) (sets ways : Nat) (t : Table V) : Prop where
  home : ∀ set w k, set < sets → w < ways → t.keys (slot ways set w) = some k → k % sets = set
  line : ∀ set w k, set < sets → w < ways → t.keys (slot ways set w) = some k →
    t.lines (slot ways set w) = f k

variable {f : Nat → V} {sets ways : Nat} {t : Table V}

theorem Sound.put (h : Sound f sets ways t) {k w : Nat} (hw : w < ways) :
    Sound f sets ways (t.put (slot ways (k % sets) w) k (f k)) where
  home set w' k' hset hw' hk := by
    by_cases hi : slot ways set w' = slot ways (k % sets) w
    · simp only [Table.put, hi, Function.update_self, Option.some.injEq] at hk
      subst hk
      exact (slot_inj hw' hw hi).1.symm
    · simp only [Table.put, Function.update_of_ne hi] at hk
      exact h.home set w' k' hset hw' hk
  line set w' k' hset hw' hk := by
    by_cases hi : slot ways set w' = slot ways (k % sets) w
    · simp only [Table.put, hi, Function.update_self, Option.some.injEq] at hk ⊢
      rw [hk]
    · simp only [Table.put, Function.update_of_ne hi] at hk ⊢
      exact h.line set w' k' hset hw' hk

/-- A hit in the key's own set is the memoised value. -/
theorem Sound.hit (h : Sound f sets ways t) {k w : Nat} (hs : 0 < sets) (hw : w < ways)
    (hk : t.keys (slot ways (k % sets) w) = some k) : t.lines (slot ways (k % sets) w) = f k :=
  h.line _ _ _ (Nat.mod_lt _ hs) hw hk

end FlashSpark.SetAssoc
