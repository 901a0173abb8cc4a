import FlashSpark.Core.PosixPath
import Mathlib.Data.List.Induction

/-!
# IP addresses

`ipaddress.IPv4Address` and `ipaddress.ip_address`: an address is given by its number or by
its text, and an IPv4 text that is accepted is the one its number is written as
(`ipv4Text_parse`).
-/
namespace FlashSpark.Py

def isDigit (c : Nat) : Bool := 48 ≤ c && c ≤ 57

/-- `int(s)`, of digits. -/
def decimal (s : Str) : Nat := s.foldl (fun n c => 10 * n + (c - 48)) 0

/-! ## IPv4 -/

/-- A leading zero is refused. -/
def parseOctet (s : Str) : Option Nat :=
  if s = [] ∨ s.all isDigit = false ∨ 3 < s.length ∨ (s ≠ py "0" ∧ s.head? = some 48) ∨ 255 < decimal s then none
  else some (decimal s)

def parseIpv4 (s : Str) : Option Nat :=
  match s.splitOn '.'.toNat with
  | [first, second, third, fourth] => do
    let a ← parseOctet first
    let b ← parseOctet second
    let c ← parseOctet third
    let d ← parseOctet fourth
    some (((a * 256 + b) * 256 + c) * 256 + d)
  | _ => none

/-- `str(IPv4Address(n))` -/
def ipv4Text (n : Nat) : Str :=
  ['.'.toNat].intercalate
    [natText (n / 2 ^ 24 % 256), natText (n / 2 ^ 16 % 256), natText (n / 2 ^ 8 % 256), natText (n % 256)]

/-- `IPv4Address(v)`. What is neither a number nor a string has no four octets in its text. -/
def ipv4Address (v : Json) : Except Error Nat :=
  match v with
  | .bool b => .ok (if b then 1 else 0)
  | .int n => if 0 ≤ n ∧ n < 2 ^ 32 then .ok n.toNat else .error .address
  | .str s =>
    match parseIpv4 s with
    | some n => if s.contains Path.slash then .error .address else .ok n
    | none => .error .address
  | _ => .error .address

/-! ## IPv6 -/

def isHexDigit (c : Nat) : Bool := isDigit c || (97 ≤ c && c ≤ 102) || (65 ≤ c && c ≤ 70)

def isHextet (s : Str) : Bool := s ≠ [] && s.all isHexDigit && s.length ≤ 4

/-- The parts of an address between its colons, its IPv4 suffix taken as two hextets. -/
def ipv6Parts (s : Str) : Option (List Str) :=
  let parts := s.splitOn ':'.toNat
  let last := parts.getLast?.getD []
  if parts.length < 3 then none
  else if last.contains '.'.toNat then
    if (parseIpv4 last).isSome ∧ last.contains Path.slash = false then some (parts.dropLast ++ [py "0", py "0"])
    else none
  else some parts

/-- One `::` at most; it stands for one hextet at least. -/
def isIpv6Parts (parts : List Str) : Bool :=
  let skips := (List.range' 1 (parts.length - 2)).filter fun i => parts[i]? = some []
  if 9 < parts.length then false
  else
    match skips with
    | [] => parts.length = 8 && parts.all isHextet
    | [skip] =>
      let first := parts.head? = some []
      let last := parts.getLast? = some []
      let high := if first then skip - 1 else skip
      let low := if last then parts.length - skip - 2 else parts.length - skip - 1
      (!first || high = 0) && (!last || low = 0) && high + low < 8 &&
        (parts.take high).all isHextet && (parts.drop (parts.length - low)).all isHextet
    | _ => false

/-- A scope id may follow, after a `%`. -/
def isIpv6 (s : Str) : Bool :=
  let address := s.takeWhile (· ≠ '%'.toNat)
  let scope := s.drop address.length
  !s.contains Path.slash && (scope = [] || (1 < scope.length && !scope.tail.contains '%'.toNat)) &&
    (ipv6Parts address).any isIpv6Parts

/-- `ipaddress.ip_address(v)`, that it does not raise. -/
def ipAddress (v : Json) : Except Error Unit :=
  match v with
  | .bool _ => .ok ()
  | .int n => if 0 ≤ n ∧ n < 2 ^ 128 then .ok () else .error .address
  | .str s => if (ipv4Address v).isOk || isIpv6 s then .ok () else .error .address
  | _ => .error .address

example : ["::", "::1", "1:2:3:4:5:6:7::", "1::8", "::ffff:1.2.3.4", "fe80::1%eth0", "1:2:3:4:5:6:7:8"].all
      (fun s => isIpv6 (py s)) = true ∧
    [":", ":1", "1:", ":::", "1::2::3", "1:2:3:4:5:6:7:8::", "::12345", "::1%", "1:2:3:4:5:6:7"].any
      (fun s => isIpv6 (py s)) = false := by decide

/-! ## The text of an address -/

theorem decimal_snoc (s : Str) (c : Nat) : decimal (s ++ [c]) = 10 * decimal s + (c - 48) := by
  unfold decimal
  rw [List.foldl_append]
  rfl

theorem digit_text {c : Nat} (h : isDigit c = true) : ofChars [Nat.digitChar (c - 48)] = [c] := by
  simp only [isDigit, Bool.and_eq_true, decide_eq_true_eq] at h
  have hchar : (Nat.digitChar (c - 48)).toNat = c := by
    rw [Nat.toNat_digitChar_of_lt_ten (by omega)]
    omega
  rw [ofChars, List.map_singleton, hchar]

/-- Digits without a leading zero are the text of their number, which is not zero. -/
theorem natText_decimal {s : Str} (hne : s ≠ []) (hdigits : ∀ c ∈ s, isDigit c = true) (hlead : s.head? ≠ some 48) :
    0 < decimal s ∧ natText (decimal s) = s := by
  induction s using List.reverseRecOn with
  | nil => exact absurd rfl hne
  | append_singleton s c ih =>
    have hc := hdigits c (by simp)
    have htext := digit_text hc
    simp only [isDigit, Bool.and_eq_true, decide_eq_true_eq] at hc
    rw [decimal_snoc]
    by_cases hs : s = []
    · subst hs
      have hzero : c ≠ 48 := fun h => hlead (by rw [h]; rfl)
      have hdecimal : 10 * decimal [] + (c - 48) = c - 48 := by simp [decimal]
      rw [hdecimal]
      refine ⟨by omega, ?_⟩
      rw [natText, Nat.toDigits_of_lt_base (by omega), htext]
      rfl
    · obtain ⟨hpos, ih⟩ := ih hs (fun x hx => hdigits x (List.mem_append_left _ hx)) (by
        rwa [List.head?_append_of_ne_nil _ hs] at hlead)
      refine ⟨by omega, ?_⟩
      have hdigit : Nat.toDigits 10 (c - 48) = [Nat.digitChar (c - 48)] := Nat.toDigits_of_lt_base (by omega)
      rw [natText, ← Nat.toDigits_append_toDigits (by decide) hpos (by omega), hdigit, ofChars, List.map_append]
      exact congrArg₂ (· ++ ·) ih htext

theorem parseOctet_text {s : Str} {n : Nat} (h : parseOctet s = some n) : n < 256 ∧ natText n = s := by
  unfold parseOctet at h
  split at h
  · cases h
  rename_i hok
  obtain rfl := Option.some.inj h
  simp only [not_or, not_and, not_lt, Bool.not_eq_false, List.all_eq_true] at hok
  obtain ⟨hne, hdigits, -, hlead, hle⟩ := hok
  refine ⟨by omega, ?_⟩
  by_cases hzero : s = py "0"
  · subst hzero
    rfl
  · exact (natText_decimal hne hdigits (hlead hzero)).2

theorem ipv4Text_octets {a b c d : Nat} (ha : a < 256) (hb : b < 256) (hc : c < 256) (hd : d < 256) :
    ipv4Text (((a * 256 + b) * 256 + c) * 256 + d) =
      ['.'.toNat].intercalate [natText a, natText b, natText c, natText d] := by
  have hda : (((a * 256 + b) * 256 + c) * 256 + d) / 2 ^ 24 % 256 = a := by omega
  have hdb : (((a * 256 + b) * 256 + c) * 256 + d) / 2 ^ 16 % 256 = b := by omega
  have hdc : (((a * 256 + b) * 256 + c) * 256 + d) / 2 ^ 8 % 256 = c := by omega
  have hdd : (((a * 256 + b) * 256 + c) * 256 + d) % 256 = d := by omega
  rw [ipv4Text, hda, hdb, hdc, hdd]

/-- An accepted text is the text of its address. -/
theorem ipv4Text_parse {s : Str} {n : Nat} (h : parseIpv4 s = some n) : ipv4Text n = s := by
  unfold parseIpv4 at h
  split at h
  · rename_i first second third fourth hparts
    obtain ⟨a, ha, h⟩ := Option.bind_eq_some_iff.mp h
    obtain ⟨b, hb, h⟩ := Option.bind_eq_some_iff.mp h
    obtain ⟨c, hc, h⟩ := Option.bind_eq_some_iff.mp h
    obtain ⟨d, hd, h⟩ := Option.bind_eq_some_iff.mp h
    obtain rfl := Option.some.inj h
    obtain ⟨ha, hfirst⟩ := parseOctet_text ha
    obtain ⟨hb, hsecond⟩ := parseOctet_text hb
    obtain ⟨hc, hthird⟩ := parseOctet_text hc
    obtain ⟨hd, hfourth⟩ := parseOctet_text hd
    rw [ipv4Text_octets ha hb hc hd, hfirst, hsecond, hthird, hfourth, ← hparts]
    exact List.intercalate_splitOn '.'.toNat
  · cases h

theorem ipv4Address_text {s : Str} {n : Nat} (h : ipv4Address (.str s) = .ok n) : ipv4Text n = s := by
  unfold ipv4Address at h
  dsimp only at h
  split at h
  · rename_i hparse
    split at h
    · cases h
    · obtain rfl := Except.ok.inj h
      exact ipv4Text_parse hparse
  · cases h

end FlashSpark.Py
