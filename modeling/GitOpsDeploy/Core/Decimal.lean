/-
Texts as Go's standard library reads them: decimal numbers (`strconv.Itoa`, `strconv.Atoi` on a 64-bit platform) and
white space (`unicode.IsSpace`, `strings.TrimSpace`).
-/
import Mathlib.Tactic
import Mathlib.Data.List.DropRight

namespace GitOpsDeploy.Decimal

open List

/-- `unicode.IsSpace`: the characters with Unicode's property White Space, not only those of ASCII -/
def isSpace (c : Char) : Bool :=
  let n := c.toNat
  (0x09 ≤ n && n ≤ 0x0D) || (0x2000 ≤ n && n ≤ 0x200A) ||
    [0x20, 0x85, 0xA0, 0x1680, 0x2028, 0x2029, 0x202F, 0x205F, 0x3000].contains n

/-- `strings.TrimSpace` -/
def trimSpace (cs : List Char) : List Char := (cs.dropWhile isSpace).rdropWhile isSpace

def itoa (n : ℕ) : String := n.repr

/-- `%d` of an integer that may be negative -/
def formatInt (n : ℤ) : String := if n < 0 then "-" ++ itoa n.natAbs else itoa n.natAbs

/-- the digits of a number without sign -/
def parseDigits (cs : List Char) : Option ℕ :=
  if cs ≠ [] ∧ cs.all Char.isDigit then some (Nat.ofDigitChars 10 cs 0) else none

/-- `strconv.Atoi`: an optional sign and decimal digits, in the int64 range; `none` is an error -/
def atoi (s : String) : Option ℤ :=
  match s.toList with
  | '-' :: cs => (parseDigits cs).bind fun n => if n ≤ 2 ^ 63 then some (-(n : ℤ)) else none
  | '+' :: cs => (parseDigits cs).bind fun n => if n < 2 ^ 63 then some (n : ℤ) else none
  | cs => (parseDigits cs).bind fun n => if n < 2 ^ 63 then some (n : ℤ) else none

theorem toList_itoa (n : ℕ) : (itoa n).toList = Nat.toDigits 10 n := Nat.toList_repr

theorem isDigit_toDigits (n : ℕ) : ∀ c ∈ Nat.toDigits 10 n, c.isDigit = true :=
  fun _ hc => Nat.isDigit_of_mem_toDigits (by decide) (by decide) hc

theorem parseDigits_toDigits (n : ℕ) : parseDigits (Nat.toDigits 10 n) = some n := by
  have hd : (Nat.toDigits 10 n).all Char.isDigit = true := all_eq_true.2 (isDigit_toDigits n)
  simp [parseDigits, hd]

theorem atoi_itoa (n : ℕ) (h : n < 2 ^ 63) : atoi (itoa n) = some (n : ℤ) := by
  have hd := isDigit_toDigits n
  have hp := parseDigits_toDigits n
  simp only [atoi, toList_itoa]
  split
  · rename_i cs hcs
    rw [hcs] at hd
    exact absurd (hd '-' mem_cons_self) (by decide)
  · rename_i cs hcs
    rw [hcs] at hd
    exact absurd (hd '+' mem_cons_self) (by decide)
  · rw [hp, Option.bind_some, if_pos h]

theorem itoa_injective : Function.Injective itoa := by
  intro m n h
  have h' : Nat.toDigits 10 m = Nat.toDigits 10 n := by rw [← toList_itoa, ← toList_itoa, h]
  have hm := parseDigits_toDigits m
  rw [h', parseDigits_toDigits] at hm
  exact (Option.some.inj hm).symm

end GitOpsDeploy.Decimal
