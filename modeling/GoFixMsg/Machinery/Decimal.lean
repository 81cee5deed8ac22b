import Mathlib.Data.List.Basic

/-!
# Machinery/Decimal — decimal numerals as byte strings

`numeral n` is the decimal text of `n`, most significant digit first and without leading zeros;
`value` reads any digit string back, leading zeros included.

A digit string is read from its front, on top of what has been read already (`valueFrom`), so that a
reader can stop and go on anywhere.  Reading a numeral back gives the number (`value_numeral`), and
no numeral has a byte in it that is not a digit.  CheckSum is written with `padded3`, in three
digits whatever the number.
-/

namespace Decimal

/-- An ASCII decimal digit. -/
def isDigit (b : UInt8) : Bool := 48 ≤ b && b ≤ 57

/-- The decimal numeral of `n`. -/
def numeral (n : ℕ) : List UInt8 := (Nat.toDigits 10 n).map Char.toUInt8

/-- The number a digit string denotes, read on top of the digits already seen. -/
def valueFrom : List UInt8 → ℕ → ℕ
  | [], acc => acc
  | b :: s, acc => valueFrom s (10 * acc + (b.toNat - 48))

/-- The number a digit string denotes. -/
def value (s : List UInt8) : ℕ := valueFrom s 0

@[simp] theorem valueFrom_nil (acc : ℕ) : valueFrom [] acc = acc := rfl

@[simp] theorem valueFrom_cons (acc : ℕ) (b : UInt8) (s : List UInt8) :
    valueFrom (b :: s) acc = valueFrom s (10 * acc + (b.toNat - 48)) := rfl

/-- Reading on never loses what has been read. -/
theorem le_valueFrom (s : List UInt8) (acc : ℕ) : acc ≤ valueFrom s acc := by
  induction s generalizing acc with
  | nil => exact Nat.le_refl acc
  | cons b s ih =>
    have h := ih (10 * acc + (b.toNat - 48))
    rw [valueFrom_cons]
    omega

theorem valueFrom_append (s t : List UInt8) (acc : ℕ) :
    valueFrom (s ++ t) acc = valueFrom t (valueFrom s acc) := by
  induction s generalizing acc with
  | nil => rfl
  | cons b s ih => exact ih _

/-- More digits never make a number smaller. -/
theorem value_le_append (s t : List UInt8) : value s ≤ value (s ++ t) := by
  rw [value, value, valueFrom_append]
  exact le_valueFrom t _

theorem isDigit_iff (b : UInt8) : isDigit b = true ↔ 48 ≤ b.toNat ∧ b.toNat ≤ 57 := by
  simp only [isDigit, Bool.and_eq_true, decide_eq_true_eq, UInt8.le_iff_toNat_le]
  exact Iff.rfl

/-- A digit character, as a byte, keeps its code. -/
theorem toNat_toUInt8_of_isDigit {c : Char} (hc : c.isDigit = true) :
    c.toUInt8.toNat = c.toNat := by
  have hlt : c.toNat < 256 := by
    simp only [Char.isDigit, Bool.and_eq_true, decide_eq_true_eq, UInt32.le_iff_toNat_le] at hc
    have h57 : c.toNat ≤ 57 := hc.2
    omega
  change c.toNat % 256 = c.toNat
  exact Nat.mod_eq_of_lt hlt

theorem isDigit_toUInt8 {c : Char} (hc : c.isDigit = true) : isDigit c.toUInt8 = true := by
  rw [isDigit_iff, toNat_toUInt8_of_isDigit hc]
  simp only [Char.isDigit, Bool.and_eq_true, decide_eq_true_eq, UInt32.le_iff_toNat_le] at hc
  exact hc

/-- **A numeral consists of digits.** -/
theorem isDigit_of_mem_numeral {n : ℕ} {b : UInt8} (hb : b ∈ numeral n) : isDigit b = true := by
  obtain ⟨c, hc, rfl⟩ := List.mem_map.mp hb
  exact isDigit_toUInt8 (Nat.isDigit_of_mem_toDigits (by omega) (by omega) hc)

theorem numeral_ne_nil (n : ℕ) : numeral n ≠ [] := fun h =>
  Nat.toDigits_ne_nil (List.map_eq_nil_iff.mp h)

/-- **Reading a numeral gives the number back.** -/
theorem value_numeral (n : ℕ) : value (numeral n) = n := by
  have hfold : ∀ (l : List Char) (acc : ℕ), (∀ c ∈ l, c.isDigit = true) →
      valueFrom (l.map Char.toUInt8) acc = Nat.ofDigitChars 10 l acc := by
    intro l
    induction l with
    | nil => intro acc _; simp
    | cons c l ih =>
      intro acc hl
      rw [List.map_cons, valueFrom_cons, toNat_toUInt8_of_isDigit (hl c (by simp)),
        ih _ (fun d hd => hl d (List.mem_cons_of_mem _ hd)), Nat.ofDigitChars_cons]
      rfl
  rw [value, numeral, hfold _ _ fun c hc => Nat.isDigit_of_mem_toDigits (by omega) (by omega) hc]
  exact Nat.ofDigitChars_ten_toDigits

/-- A byte that is no digit occurs in no numeral. -/
theorem notMem_numeral {n : ℕ} {b : UInt8} (hb : isDigit b = false) : b ∉ numeral n := fun h => by
  simp [isDigit_of_mem_numeral h] at hb

/-- The numeral of a number below a thousand, padded with zeros to three digits. -/
def padded3 (n : ℕ) : List UInt8 := List.replicate (3 - (numeral n).length) 48 ++ numeral n

theorem isDigit_of_mem_padded3 {n : ℕ} {b : UInt8} (hb : b ∈ padded3 n) : isDigit b = true := by
  rcases List.mem_append.mp hb with hb | hb
  · rw [List.eq_of_mem_replicate hb]
    rfl
  · exact isDigit_of_mem_numeral hb

/-- The digit standing for `d < 10`. -/
def digit (d : ℕ) : UInt8 := UInt8.ofNat (48 + d)

theorem isDigit_digit {d : ℕ} (hd : d < 10) : isDigit (digit d) = true := by
  rw [isDigit_iff, digit, UInt8.toNat_ofNat']
  omega

theorem toUInt8_digitChar : ∀ d < 10, (Nat.digitChar d).toUInt8 = digit d := by
  decide

theorem numeral_of_lt {n : ℕ} (h : n < 10) : numeral n = [digit n] := by
  rw [numeral, Nat.toDigits_of_lt_base h, List.map_singleton, toUInt8_digitChar n h]

/-- The last digit of a numeral stands for the remainder. -/
theorem numeral_of_ge {n : ℕ} (h : 10 ≤ n) : numeral n = numeral (n / 10) ++ [digit (n % 10)] := by
  rw [numeral, Nat.toDigits_of_base_le (by decide) h, List.map_append, List.map_singleton,
    toUInt8_digitChar _ (Nat.mod_lt n (by decide)), numeral]

/-- **A padded three-digit numeral is its hundreds, tens and units.** -/
theorem padded3_eq (n : ℕ) (hn : n < 1000) :
    padded3 n = [digit (n / 100), digit (n / 10 % 10), digit (n % 10)] := by
  have hdiv : n / 10 / 10 = n / 100 := Nat.div_div_eq_div_mul n 10 10
  have h48 : digit 0 = 48 := rfl
  by_cases h1 : n < 10
  · rw [padded3, numeral_of_lt h1, Nat.div_eq_of_lt h1, Nat.div_eq_of_lt (show n < 100 by omega),
      Nat.zero_mod, Nat.mod_eq_of_lt h1, h48]
    rfl
  have hge : 10 ≤ n := Nat.not_lt.mp h1
  by_cases h2 : n < 100
  · have hten : n / 10 < 10 := by omega
    rw [padded3, numeral_of_ge hge, numeral_of_lt hten, Nat.div_eq_of_lt h2, Nat.mod_eq_of_lt hten,
      h48]
    rfl
  · rw [padded3, numeral_of_ge hge, numeral_of_ge (show 10 ≤ n / 10 by omega), hdiv,
      numeral_of_lt (show n / 100 < 10 by omega)]
    rfl

end Decimal
