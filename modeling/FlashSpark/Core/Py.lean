import FlashSpark.Core.Double

/-!
# Values of a JSON document in Python

What `json.loads` gives: numbers keep their type, and a string is a list of code points. The
operations are Python's own: subscripts, `.get`, `==` and `<` between values, `str`.
-/
namespace FlashSpark.Py

/-- A `str`: its code points, lone surrogates included. -/
abbrev Str := List Nat

def ofChars (chars : List Char) : Str := chars.map Char.toNat

/-- A literal. -/
def py (s : String) : Str := ofChars s.toList

/-- The decimal text of a number. -/
def natText (n : Nat) : Str := ofChars (Nat.toDigits 10 n)

/-- What may be raised. -/
inductive Error where
  | value (message : Str)
  | key (key : Str)
  | type
  | attribute
  | os
  | assertion
  | address
  deriving DecidableEq

inductive Json where
  | null
  | bool (b : Bool)
  | int (n : Int)
  | float (x : Double)
  | str (s : Str)
  | arr (items : List Json)
  | obj (fields : List (Str × Json))

namespace Json

/-! ## Containers -/

/-- `v[key]`. -/
def item (v : Json) (key : Str) : Except Error Json :=
  match v with
  | .obj fields =>
    match fields.lookup key with
    | some value => .ok value
    | none => .error (.key key)
  | _ => .error .type

/-- `v.get(key)`. -/
def get (v : Json) (key : Str) : Except Error Json :=
  match v with
  | .obj fields => .ok ((fields.lookup key).getD .null)
  | _ => .error .attribute

/-- `v[key] = value`. -/
def setItem (v : Json) (key : Str) (value : Json) : Except Error Json :=
  match v with
  | .obj fields =>
    if (fields.lookup key).isSome then
      .ok (.obj (fields.map fun field => if field.1 = key then (key, value) else field))
    else .ok (.obj (fields ++ [(key, value)]))
  | _ => .error .type

theorem lookup_replace (fields : List (Str × Json)) (key k : Str) (value : Json) :
    (fields.map fun field => if field.1 = key then (key, value) else field).lookup k =
      if k = key then (fields.lookup key).map fun _ => value else fields.lookup k := by
  induction fields with
  | nil => simp
  | cons field fields ih =>
    obtain ⟨name, old⟩ := field
    rw [List.map_cons]
    by_cases hname : name = key
    · subst hname
      rw [if_pos rfl, List.lookup_cons, ih]
      by_cases hk : k = name
      · subst hk
        simp
      · simp only [List.lookup_cons, beq_false_of_ne hk, if_neg hk]
    · rw [if_neg hname, List.lookup_cons, ih]
      by_cases hk : k = name
      · subst hk
        simp [hname]
      · simp only [List.lookup_cons, beq_false_of_ne hk, beq_false_of_ne (Ne.symm hname)]

/-- Assigning to a key changes that key only. -/
theorem setItem_item {v v' value : Json} {key : Str} (h : v.setItem key value = .ok v') (k : Str) :
    v'.item k = if k = key then .ok value else v.item k := by
  cases v with
  | obj fields =>
    unfold setItem at h
    dsimp only at h
    split at h
    · rename_i hsome
      obtain rfl := Except.ok.inj h
      obtain ⟨old, hold⟩ := Option.isSome_iff_exists.mp hsome
      simp only [item, lookup_replace, hold]
      by_cases hk : k = key
      · rw [if_pos hk, if_pos hk]
        rfl
      · rw [if_neg hk, if_neg hk]
    · rename_i hnone
      obtain rfl := Except.ok.inj h
      rw [Option.not_isSome_iff_eq_none] at hnone
      simp only [item, List.lookup_append]
      by_cases hk : k = key
      · subst hk
        rw [if_pos rfl, hnone, List.lookup_cons_self]
        rfl
      · rw [if_neg hk, List.lookup_cons, beq_false_of_ne hk, List.lookup_nil, Option.or_none]
  | _ => cases h

/-- `v.items()`. -/
def items (v : Json) : Except Error (List (Str × Json)) :=
  match v with
  | .obj fields => .ok fields
  | _ => .error .attribute

/-- `for x in v`. -/
def iter (v : Json) : Except Error (List Json) :=
  match v with
  | .arr items => .ok items
  | .obj fields => .ok (fields.map fun field => .str field.1)
  | .str s => .ok (s.map fun c => .str [c])
  | _ => .error .type

/-! ## Numbers -/

/-- The numbers `==` and `<` compare: exact, whatever their types. -/
inductive Num where
  | nan
  | inf (neg : Bool)
  | rat (q : ℚ)
  deriving DecidableEq

def num? : Json → Option Num
  | .bool b => some (.rat (if b then 1 else 0))
  | .int n => some (.rat n)
  | .float .nan => some .nan
  | .float (.inf neg) => some (.inf neg)
  | .float (.finite x) => some (.rat x.value)
  | _ => none

/-- `v == q`, for a number `q`. -/
def eqNum (v : Json) (q : ℚ) : Bool := v.num? = some (.rat q)

/-- `v == s`, for a `str`. -/
def eqStr (v : Json) (s : Str) : Bool :=
  match v with
  | .str t => t = s
  | _ => false

def Num.lt : Num → Num → Bool
  | .rat p, .rat q => p < q
  | .rat _, .inf neg => !neg
  | .inf neg, .rat _ => neg
  | .inf neg, .inf neg' => neg && !neg'
  | _, _ => false

/-- `v < w`. Lists, which are ordered too, are left out. -/
def lt (v w : Json) : Except Error Bool :=
  match v.num?, w.num? with
  | some a, some b => .ok (a.lt b)
  | _, _ =>
    match v, w with
    | .str s, .str t => .ok (s < t)
    | _, _ => .error .type

/-- `if v`. -/
def truthy : Json → Bool
  | .null => false
  | .str s => s ≠ []
  | .arr items => items.isEmpty = false
  | .obj fields => fields.isEmpty = false
  | v => v.eqNum 0 = false

/-! ## Text -/

def intText (n : Int) : Str := if n < 0 then '-'.toNat :: natText n.natAbs else natText n.natAbs

/-- `str(v)`. Lists and dicts are left out. -/
def text : Json → Except Error Str
  | .null => .ok (py "None")
  | .bool b => .ok (if b then py "True" else py "False")
  | .int n => .ok (intText n)
  | .float x => .ok (ofChars x.text)
  | .str s => .ok s
  | .arr _ => .error .type
  | .obj _ => .error .type

/-! ## What equals an integer -/

theorem eqNum_cases {v : Json} {q : ℚ} (h : v.eqNum q = true) :
    (∃ n : Int, v = .int n ∧ n = q) ∨ (∃ b : Bool, v = .bool b ∧ (if b then 1 else 0) = q) ∨
      ∃ x : Finite, v = .float (.finite x) ∧ x.value = q := by
  have hnum : v.num? = some (.rat q) := of_decide_eq_true h
  cases v with
  | bool b => exact Or.inr (Or.inl ⟨b, rfl, Num.rat.inj (Option.some.inj hnum)⟩)
  | int n => exact Or.inl ⟨n, rfl, Num.rat.inj (Option.some.inj hnum)⟩
  | float x =>
    cases x with
    | finite x => exact Or.inr (Or.inr ⟨x, rfl, Num.rat.inj (Option.some.inj hnum)⟩)
    | _ => cases hnum
  | _ => cases hnum

/-- The texts of booleans, and of the doubles that equal `n`. -/
def otherTexts (n : Nat) : List Str :=
  [py "True", py "False", ofChars (Double.magText n), '-'.toNat :: ofChars (Double.magText n)]

theorem natText_digit {n c : Nat} (h : c ∈ natText n) : 48 ≤ c ∧ c ≤ 57 := by
  obtain ⟨ch, hch, rfl⟩ := List.mem_map.mp h
  have hdigit := Nat.isDigit_of_mem_toDigits (by decide) (by decide) hch
  simp only [Char.isDigit, Bool.and_eq_true, decide_eq_true_eq] at hdigit
  exact hdigit

/-- They differ from the text of the integer. -/
theorem natText_not_other (n : Nat) : natText n ∉ otherTexts n := by
  intro h
  have hmark : ∃ c ∈ ofChars (Double.magText n), ¬(48 ≤ c ∧ c ≤ 57) := by
    obtain ⟨c, hc, hmark⟩ := Double.magText_mark n
    refine ⟨c.toNat, List.mem_map.mpr ⟨c, hc, rfl⟩, ?_⟩
    rcases hmark with rfl | rfl | rfl <;> decide
  have hother : ∃ c ∈ natText n, ¬(48 ≤ c ∧ c ≤ 57) := by
    simp only [otherTexts, List.mem_cons, List.not_mem_nil, or_false] at h
    rcases h with h | h | h | h <;> rw [h]
    · exact ⟨84, by decide, by decide⟩
    · exact ⟨70, by decide, by decide⟩
    · exact hmark
    · exact ⟨45, List.mem_cons_self, by decide⟩
  obtain ⟨c, hc, hdigit⟩ := hother
  exact hdigit (natText_digit hc)

/-- A value equal to `n` is the integer, or is written otherwise. -/
inductive Spelling (n : Nat) : Json → Str → Prop where
  | int : Spelling n (.int n) (natText n)
  | other {v : Json} {s : Str} : (∀ m, v ≠ .int m) → s ∈ otherTexts n → Spelling n v s

theorem spelling {v : Json} {n : Nat} (h : v.eqNum n = true) : ∃ s, v.text = .ok s ∧ Spelling n v s := by
  rcases eqNum_cases h with ⟨m, rfl, hm⟩ | ⟨b, rfl, -⟩ | ⟨x, rfl, hx⟩
  · obtain rfl : m = n := by exact_mod_cast hm
    refine ⟨natText n, ?_, .int⟩
    rw [text, intText, if_neg (by omega), Int.natAbs_natCast]
  · refine ⟨_, rfl, .other nofun ?_⟩
    cases b <;> simp [otherTexts]
  · have hmag := Finite.mag_of_value (Nat.cast_nonneg n) hx
    refine ⟨_, rfl, .other nofun ?_⟩
    unfold Double.text
    dsimp only
    rw [hmag]
    split <;> simp [otherTexts, ofChars]

theorem Spelling.int_iff {n : Nat} {v : Json} {s : Str} (h : Spelling n v s) :
    s = natText n ↔ ∃ m, v = .int m := by
  cases h with
  | int => exact ⟨fun _ => ⟨_, rfl⟩, fun _ => rfl⟩
  | other hv hs =>
    constructor
    · rintro rfl
      exact absurd hs (natText_not_other n)
    · rintro ⟨m, rfl⟩
      exact absurd rfl (hv m)

end Json

end FlashSpark.Py
