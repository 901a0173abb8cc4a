import FlashSpark.Core.Py

/-!
# POSIX paths

`pathlib.PurePosixPath`: a root and parts. Empty parts and `.` drop out when a string is
parsed, `..` stays.
-/
namespace FlashSpark.Py

structure Path where
  root : Str
  parts : List Str
  deriving DecidableEq

namespace Path

def slash : Nat := '/'.toNat

/-- Two leading slashes, and no third, are a root of their own. -/
def rootOf (s : Str) : Str :=
  match s with
  | [] => []
  | [a] => if a = slash then [slash] else []
  | a :: b :: rest =>
    if a = slash then (if b = slash ∧ rest.head? ≠ some slash then [slash, slash] else [slash]) else []

/-- `Path(s)`. -/
def parse (s : Str) : Path :=
  { root := rootOf s
    parts := (s.splitOn slash).filter fun part => part ≠ [] ∧ part ≠ py "." }

/-- `Path(v)`, of a JSON value. -/
def ofJson (v : Json) : Except Error Path :=
  match v with
  | .str s => .ok (parse s)
  | _ => .error .type

def isAbsolute (p : Path) : Bool := p.root ≠ []

/-- `str(p)`. -/
def text (p : Path) : Str :=
  if p.root = [] ∧ p.parts = [] then py "."
  else p.root ++ [slash].intercalate p.parts

/-- `'..' in p.parts`; the root is never `..`. -/
def hasDotDot (p : Path) : Bool := p.parts.contains (py "..")

example : parse (py "a//./b/") = parse (py "a/b") ∧ (parse (py "//a/../b")).text = py "//a/../b" ∧
    (parse (py "./")).text = py "." := by decide

end Path

end FlashSpark.Py
