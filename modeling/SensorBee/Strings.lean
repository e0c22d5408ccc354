import Mathlib.Data.List.Basic

/-!
# The parts of Go's `unicode` and `strings` packages the model calls

`unicode.IsLower`, `IsUpper`, `IsDigit` and `ToLower` read tables that cover all of Unicode. They
are a parameter (`Unicode`): on the Latin-1 runes they are fixed as Go's tables have them, and
beyond those they are only kept from calling one rune both a lower-case and an upper-case letter.
`unicode.IsSpace` is a short list of runes and is written out.
-/
namespace SensorBee

/-- `unicode.IsLower` on Latin-1: `a`–`z`, `µ`, and `ß`–`ÿ` but `÷`. -/
def latin1Lower (c : Char) : Bool :=
  let n := c.toNat
  (97 ≤ n && n ≤ 122) || n == 0xB5 || (0xDF ≤ n && n ≤ 0xFF && n != 0xF7)

/-- `unicode.IsUpper` on Latin-1: `A`–`Z`, and `À`–`Þ` but `×`. -/
def latin1Upper (c : Char) : Bool :=
  let n := c.toNat
  (65 ≤ n && n ≤ 90) || (0xC0 ≤ n && n ≤ 0xDE && n != 0xD7)

/-- `unicode.ToLower` on Latin-1: an upper-case letter moves 32 code points up. -/
def latin1ToLower (c : Char) : Char :=
  if latin1Upper c then Char.ofNat (c.toNat + 32) else c

theorem latin1Lower_not_upper (c : Char) (h : latin1Lower c = true) : latin1Upper c = false := by
  simp only [latin1Lower, latin1Upper, Bool.or_eq_true, Bool.and_eq_true, decide_eq_true_eq,
    beq_iff_eq, bne_iff_ne] at h ⊢
  simp only [Bool.or_eq_false_iff, Bool.and_eq_false_iff, decide_eq_false_iff_not, bne_eq_false_iff_eq]
  omega

/-- The `unicode` functions the decoder calls. -/
structure Unicode where
  isLower : Char → Bool
  isUpper : Char → Bool
  isDigit : Char → Bool
  toLower : Char → Char
  latin1_tables : ∀ c : Char, c.toNat < 256 → isLower c = latin1Lower c ∧
    isUpper c = latin1Upper c ∧ isDigit c = c.isDigit ∧ toLower c = latin1ToLower c
  lower_not_upper : ∀ c, isLower c = true → isUpper c = false

namespace Unicode

/-- The tables as far as the model fixes them: no rune beyond Latin-1 is a letter or a digit. -/
def latin1 : Unicode where
  isLower := latin1Lower
  isUpper := latin1Upper
  isDigit := Char.isDigit
  toLower := latin1ToLower
  latin1_tables _ _ := ⟨rfl, rfl, rfl, rfl⟩
  lower_not_upper := latin1Lower_not_upper

variable (u : Unicode) {c : Char}

theorem isLower_of_latin1 (h : c.toNat < 256) : u.isLower c = latin1Lower c :=
  (u.latin1_tables c h).1

theorem isUpper_of_latin1 (h : c.toNat < 256) : u.isUpper c = latin1Upper c :=
  (u.latin1_tables c h).2.1

theorem isDigit_of_latin1 (h : c.toNat < 256) : u.isDigit c = c.isDigit :=
  (u.latin1_tables c h).2.2.1

theorem toLower_of_latin1 (h : c.toNat < 256) : u.toLower c = latin1ToLower c :=
  (u.latin1_tables c h).2.2.2

end Unicode

/-- `unicode.IsSpace`: the runes with the White_Space property. -/
def isSpace (c : Char) : Bool :=
  let n := c.toNat
  (9 ≤ n && n ≤ 13) || n == 32 || n == 0x85 || n == 0xA0 || n == 0x1680 ||
    (0x2000 ≤ n && n ≤ 0x200A) || n == 0x2028 || n == 0x2029 || n == 0x202F ||
    n == 0x205F || n == 0x3000

/-- `strings.TrimSpace`. -/
def trimSpace (s : String) : String :=
  ⟨((s.toList.dropWhile isSpace).reverse.dropWhile isSpace).reverse⟩

theorem intercalate_go_data (sep : String) : ∀ (a : String) (as : List String),
    (String.intercalate.go a sep as).data = a.data ++ (as.map fun t => sep.data ++ t.data).flatten
  | a, [] => by simp [String.intercalate.go]
  | a, b :: as => by simp [String.intercalate.go, intercalate_go_data sep (a ++ sep ++ b) as]

end SensorBee
