import Mathlib.Data.Int.Log
import Mathlib.Data.Rat.Floor
import Mathlib.Tactic.Linarith

/-!
# Binary64 numbers and their decimal text

A finite double is a sign and a magnitude, a rational that 53 bits and an exponent can hold;
its text is the shortest decimal that reads back as the same double, with a point or an
exponent, as C libraries and scripting languages print it.
-/
namespace FlashSpark

def IsBinary64 (q : ℚ) : Prop := ∃ (m : Nat) (e : Int), m < 2 ^ 53 ∧ -1074 ≤ e ∧ e ≤ 971 ∧ q = m * 2 ^ e

/-- A finite double. -/
structure Finite where
  neg : Bool
  mag : ℚ
  exact : IsBinary64 mag

inductive Double where
  | nan
  | inf (neg : Bool)
  | finite (x : Finite)

def Finite.value (x : Finite) : ℚ := if x.neg then -x.mag else x.mag

theorem Finite.mag_nonneg (x : Finite) : 0 ≤ x.mag := by
  obtain ⟨m, e, -, -, -, hmag⟩ := x.exact
  rw [hmag]
  exact mul_nonneg (Nat.cast_nonneg m) (zpow_nonneg (by decide) e)

/-- Of a number that is not negative, the magnitude is the value; the sign may still be one,
of a zero. -/
theorem Finite.mag_of_value {x : Finite} {q : ℚ} (hq : 0 ≤ q) (h : x.value = q) : x.mag = q := by
  have hmag := x.mag_nonneg
  unfold value at h
  split at h <;> linarith

theorem Finite.pos_of_value {x : Finite} {q : ℚ} (hq : 0 < q) (h : x.value = q) : x.neg = false := by
  have hmag := x.mag_nonneg
  unfold value at h
  split at h
  · linarith
  · rename_i hneg
    exact eq_false_of_ne_true hneg

namespace Double

/-! ## Rounding -/

/-- The nearest integer, the even one of two. -/
def halfEven (q : ℚ) : Int :=
  let rest := q - q.floor
  if rest < 1 / 2 ∨ (rest = 1 / 2 ∧ q.floor % 2 = 0) then q.floor else q.floor + 1

/-- The double nearest to a positive `q`. -/
def nearest (q : ℚ) : ℚ :=
  let e := max (-1074) (Int.log 2 q - 52)
  halfEven (q / 2 ^ e) * 2 ^ e

/-! ## Text -/

/-- The multiple of `10 ^ e` nearest to `q` among the two that enclose it, if one of them
reads back as `q`. -/
def candidate (q : ℚ) (e : Int) : Option Nat :=
  let low := (q / 10 ^ e).floor
  let reads (c : Int) : Bool := nearest (c * 10 ^ e) = q
  if reads low ∧ (halfEven (q / 10 ^ e) = low ∨ reads (low + 1) = false) then some low.toNat
  else if reads (low + 1) then some (low + 1).toNat
  else none

/-- The fewest digits that read back as `q`, and the exponent of the last of them. Seventeen
are enough. -/
def shortest (q : ℚ) : Nat × Int :=
  let first := Int.log 10 q
  ((List.range 17).findSome? fun n => (candidate q (first - n)).map fun c => (c, first - n)).getD (0, 0)

/-- The digits without the zeros that end them, and where the point is before them. -/
def layout (digits : List Char) (point : Int) : List Char :=
  if -4 < point ∧ point ≤ 16 then
    if point ≤ 0 then '0' :: '.' :: List.replicate (-point).toNat '0' ++ digits
    else if digits.length ≤ point.toNat then
      digits ++ List.replicate (point.toNat - digits.length) '0' ++ ['.', '0']
    else digits.take point.toNat ++ '.' :: digits.drop point.toNat
  else
    let exponent := Nat.toDigits 10 (point - 1).natAbs
    digits.take 1 ++ (if digits.length = 1 then [] else '.' :: digits.drop 1) ++
      'e' :: (if point ≤ 0 then '-' else '+') :: List.replicate (2 - exponent.length) '0' ++ exponent

def magText (q : ℚ) : List Char :=
  if q = 0 then ['0', '.', '0']
  else
    let (c, e) := shortest q
    let digits := Nat.toDigits 10 c
    layout (digits.reverse.dropWhile (· = '0')).reverse (e + digits.length)

def text : Double → List Char
  | .nan => ['n', 'a', 'n']
  | .inf neg => if neg then ['-', 'i', 'n', 'f'] else ['i', 'n', 'f']
  | .finite x => if x.neg then '-' :: magText x.mag else magText x.mag

theorem layout_mark (digits : List Char) (point : Int) :
    ∃ c ∈ layout digits point, c = '.' ∨ c = 'e' ∨ c = 'n' := by
  unfold layout
  split
  · refine ⟨'.', ?_, Or.inl rfl⟩
    split
    · simp
    split <;> simp
  · exact ⟨'e', by simp, Or.inr (Or.inl rfl)⟩

theorem magText_mark (q : ℚ) : ∃ c ∈ magText q, c = '.' ∨ c = 'e' ∨ c = 'n' := by
  unfold magText
  split
  · exact ⟨'.', by decide, Or.inl rfl⟩
  · exact layout_mark _ _

/-- One tenth, the smallest double, and a power of two whose neighbours are not as far below
as above. -/
example : magText (nearest (1 / 10)) = "0.1".toList ∧ magText (2 ^ (-1074 : Int)) = "5e-324".toList ∧
    magText (2 ^ (-44 : Int)) = "5.684341886080802e-14".toList := by decide +kernel

end Double

end FlashSpark
