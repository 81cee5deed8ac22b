import Mathlib.Algebra.Order.Ring.Int
import Mathlib.Data.List.TakeWhile
import GoFixMsg.Machinery.Decimal

/-!
# GoLang/Strconv — the pieces of Go's `strconv`, `strings` and `fmt` the engine rests on

A Go string is its bytes.  `int` is 64 bits wide; `int64` wraps an integer into it, and only the
places where the source can overflow apply it.

Of the conversions, those between numbers and their decimal text are inverse to each other on the
values of an `int` (`atoi_itoa`, `itoa_injective`).  `Sscanf` reads more than `Atoi` accepts, spaces
in front and anything behind, but agrees with it on what `Itoa` has written (`sscanfInt_numeral`).
-/

/-- A Go string or `[]byte`. -/
abbrev Bytes := List UInt8

instance : LawfulBEq Bytes := inferInstance

namespace GoLang

/-- The bytes of an ASCII text. -/
def ascii (s : String) : Bytes := s.toList.map fun c => UInt8.ofNat c.toNat

/-- Two's complement wrapping to Go's 64-bit `int`. -/
def int64 (n : ℤ) : ℤ := n.bmod (2 ^ 64)

/-- The values of Go's 64-bit `int`. -/
def IsInt64 (n : ℤ) : Prop := -2 ^ 63 ≤ n ∧ n < 2 ^ 63

instance (n : ℤ) : Decidable (IsInt64 n) := inferInstanceAs (Decidable (_ ∧ _))

theorem int64_of_isInt64 {n : ℤ} (h : IsInt64 n) : int64 n = n := by
  obtain ⟨hlo, hhi⟩ := h
  rw [int64, Int.bmod_def]
  split <;> omega

/-- A sum past the top comes out negative. -/
theorem int64_of_overflow {n : ℤ} (hlo : 2 ^ 63 ≤ n) (hhi : n < 2 ^ 64) :
    int64 n = n - 2 ^ 64 := by
  rw [int64, Int.bmod_def]
  split <;> omega

theorem isInt64_int64 (n : ℤ) : IsInt64 (int64 n) := by
  have h1 := Int.bmod_lt (x := n) (m := 2 ^ 64) (by decide)
  have h2 := Int.le_bmod (x := n) (m := 2 ^ 64) (by decide)
  constructor <;> simp only [int64] <;> omega

/-! ## `strconv.Itoa` and `strconv.Atoi`

`Atoi` returns a number along with its error: zero for what is no number, and the nearest `int` for
one out of range.  The engine drops the error in some places and checks it in others; `atoi` is for
the former, `atoi?` for the latter. -/

/-- `strconv.Itoa`. -/
def itoa (n : ℤ) : Bytes := if n < 0 then 45 :: Decimal.numeral n.natAbs else Decimal.numeral n.toNat

/-- The two errors of `strconv`: `ErrSyntax` and `ErrRange`. -/
inductive NumError where
  | errSyntax
  | errRange
  deriving DecidableEq

/-- The digit loop of `strconv.ParseUint(s, 10, 64)`, on top of the digits already read; it gives
up with `ErrRange` at the first digit that overflows, whatever follows. -/
def parseUint : Bytes → ℕ → Except NumError ℕ
  | [], n => .ok n
  | c :: s, n =>
      if Decimal.isDigit c then
        if 10 * n + (c.toNat - 48) < 2 ^ 64 then parseUint s (10 * n + (c.toNat - 48))
        else .error .errRange
      else .error .errSyntax

/-- The optional sign `ParseInt` takes off: whether it is `-`, and what follows. -/
def takeSign : Bytes → Bool × Bytes
  | c :: s => if c = 45 then (true, s) else if c = 43 then (false, s) else (false, c :: s)
  | [] => (false, [])

/-- `strconv.Atoi`, which is `strconv.ParseInt(s, 10, 64)`: the value and the error.  A value out
of range is clamped, and callers that drop the error go on with the clamped value. -/
def atoi (s : Bytes) : ℤ × Option NumError :=
  let (neg, digits) := takeSign s
  if digits = [] then (0, some .errSyntax)
  else
    match parseUint digits 0 with
    | .error .errSyntax => (0, some .errSyntax)
    | .error .errRange => (if neg then -2 ^ 63 else 2 ^ 63 - 1, some .errRange)
    | .ok un =>
        if neg then
          if 2 ^ 63 < un then (-2 ^ 63, some .errRange) else (-(un : ℤ), none)
        else
          if 2 ^ 63 ≤ un then (2 ^ 63 - 1, some .errRange) else ((un : ℤ), none)

/-- `strconv.Atoi` where the error is checked. -/
def atoi? (s : Bytes) : Option ℤ :=
  match atoi s with
  | (n, none) => some n
  | (_, some _) => none

theorem parseUint_digits (s : Bytes) (n : ℕ) (hs : ∀ b ∈ s, Decimal.isDigit b = true)
    (hv : Decimal.valueFrom s n < 2 ^ 64) : parseUint s n = .ok (Decimal.valueFrom s n) := by
  induction s generalizing n with
  | nil => rfl
  | cons c s ih =>
    rw [Decimal.valueFrom_cons] at hv ⊢
    have hle := Decimal.le_valueFrom s (10 * n + (c.toNat - 48))
    rw [parseUint, if_pos (hs c (by simp)), if_pos (by omega)]
    exact ih _ (fun b hb => hs b (List.mem_cons_of_mem _ hb)) hv

theorem parseUint_numeral {n : ℕ} (hn : n < 2 ^ 64) :
    parseUint (Decimal.numeral n) 0 = .ok n := by
  have h := parseUint_digits (Decimal.numeral n) 0 (fun _ hb => Decimal.isDigit_of_mem_numeral hb)
  rw [show Decimal.valueFrom (Decimal.numeral n) 0 = n from Decimal.value_numeral n] at h
  exact h hn

/-- Digits carry no sign. -/
theorem takeSign_digits {ds : Bytes} (hd : ∀ b ∈ ds, Decimal.isDigit b = true) (hne : ds ≠ []) :
    takeSign ds = (false, ds) := by
  cases ds with
  | nil => exact absurd rfl hne
  | cons c s =>
    have hc : Decimal.isDigit c = true := hd c List.mem_cons_self
    have h45 : c ≠ 45 := fun he => by subst he; exact absurd hc (by decide)
    have h43 : c ≠ 43 := fun he => by subst he; exact absurd hc (by decide)
    simp [takeSign, h45, h43]

theorem takeSign_numeral (n : ℕ) :
    takeSign (Decimal.numeral n) = (false, Decimal.numeral n) :=
  takeSign_digits (fun _ hb => Decimal.isDigit_of_mem_numeral hb) (Decimal.numeral_ne_nil n)

/-- **`Atoi` undoes `Itoa`** on every value of a Go `int`. -/
theorem atoi_itoa {n : ℤ} (hn : IsInt64 n) : atoi (itoa n) = (n, none) := by
  obtain ⟨hlo, hhi⟩ := hn
  by_cases hneg : n < 0
  · have hp : parseUint (Decimal.numeral n.natAbs) 0 = .ok n.natAbs :=
      parseUint_numeral (by omega)
    have hb : ¬ 2 ^ 63 < n.natAbs := by omega
    have hv : -((n.natAbs : ℕ) : ℤ) = n := by omega
    simp only [atoi, itoa, hneg, if_true, takeSign, Decimal.numeral_ne_nil, hp, hb, hv, if_false]
  · have hp : parseUint (Decimal.numeral n.toNat) 0 = .ok n.toNat := parseUint_numeral (by omega)
    have hb : ¬ 2 ^ 63 ≤ n.toNat := by omega
    have hv : ((n.toNat : ℕ) : ℤ) = n := by omega
    simp only [atoi, itoa, hneg, if_false, takeSign_numeral, Decimal.numeral_ne_nil, hp, hb, hv,
      Bool.false_eq_true]

theorem atoi?_itoa {n : ℤ} (hn : IsInt64 n) : atoi? (itoa n) = some n := by
  rw [atoi?, atoi_itoa hn]

/-- The checked and the unchecked reading agree where there is no error. -/
theorem atoi_of_atoi? {s : Bytes} {n : ℤ} (h : atoi? s = some n) : atoi s = (n, none) := by
  unfold atoi? at h
  split at h
  case h_1 m heq => rw [heq, Option.some.inj h]
  case h_2 => cases h

/-- **Every `Atoi` result is a Go `int`.** -/
theorem isInt64_atoi (s : Bytes) : IsInt64 (atoi s).1 := by
  unfold atoi IsInt64
  dsimp only
  split
  · decide
  · split
    · decide
    · split <;> decide
    · split <;> split <;> simp only <;> omega

theorem isInt64_of_atoi? {s : Bytes} {n : ℤ} (h : atoi? s = some n) : IsInt64 n := by
  have hs := isInt64_atoi s
  rwa [atoi_of_atoi? h] at hs

theorem itoa_natCast (n : ℕ) : itoa n = Decimal.numeral n := by
  simp [itoa]

theorem itoa_ne_nil (n : ℤ) : itoa n ≠ [] := by
  unfold itoa
  split
  · exact List.cons_ne_nil _ _
  · exact Decimal.numeral_ne_nil _

/-- A byte that is neither a digit nor `-` does not occur in an `Itoa` text. -/
theorem notMem_itoa {n : ℤ} {b : UInt8} (hd : Decimal.isDigit b = false) (hm : b ≠ 45) :
    b ∉ itoa n := by
  unfold itoa
  split
  · rw [List.mem_cons, not_or]
    exact ⟨hm, Decimal.notMem_numeral hd⟩
  · exact Decimal.notMem_numeral hd

theorem itoa_injective {m n : ℤ} (hm : IsInt64 m) (hn : IsInt64 n) (h : itoa m = itoa n) :
    m = n := by
  have h2 := atoi?_itoa hm
  rw [h, atoi?_itoa hn] at h2
  exact (Option.some.inj h2).symm

/-! ## `fmt.Sscanf(s, "%d", &n)`

The framer reads BodyLength with this.  Spaces in front of the number are skipped, a line feed is
not one of them, and what follows the digits is not looked at; so the text `5X` is read as five. -/

/-- The one-byte runes `fmt` counts as space, line feed apart. -/
def isSpace1 (b : UInt8) : Bool := b == 0x09 || b == 0x0B || b == 0x0C || b == 0x0D || b == 0x20

/-- The two-byte encodings of space runes: U+0085 and U+00A0. -/
def isSpace2 (b c : UInt8) : Bool := b == 0xC2 && (c == 0x85 || c == 0xA0)

/-- The three-byte encodings of space runes: U+1680, U+2000–U+200A, U+2028, U+2029, U+202F, U+205F
and U+3000. -/
def isSpace3 (b c d : UInt8) : Bool :=
  (b == 0xE1 && c == 0x9A && d == 0x80)
    || (b == 0xE2 && c == 0x80 && ((0x80 ≤ d && d ≤ 0x8A) || d == 0xA8 || d == 0xA9 || d == 0xAF))
    || (b == 0xE2 && c == 0x81 && d == 0x9F)
    || (b == 0xE3 && c == 0x80 && d == 0x80)

/-- `ss.SkipSpace` of an `Sscanf`: what is left after the leading space, or `none` for the error
"unexpected newline". -/
def skipSpace : Bytes → Option Bytes
  | [] => some []
  | b :: s =>
      if b = 0x0A then none
      else if b = 0x0D ∧ s.head? = some 0x0A then none
      else if isSpace1 b then skipSpace s
      else
        match s with
        | [] => some [b]
        | c :: t =>
            if isSpace2 b c then skipSpace t
            else
              match t with
              | [] => some [b, c]
              | d :: u => if isSpace3 b c d then skipSpace u else some (b :: c :: d :: u)

/-- `fmt.Sscanf(s, "%d", &n)`: leading space, an optional sign, at least one digit, and a value
that fits; whatever follows the digits is ignored. -/
def sscanfInt (s : Bytes) : Option ℤ :=
  match skipSpace s with
  | none => none
  | some s =>
      let (neg, rest) := takeSign s
      let digits := rest.takeWhile Decimal.isDigit
      if digits = [] then none else atoi? (if neg then 45 :: digits else digits)

/-- A scanned value is a Go `int`. -/
theorem isInt64_of_sscanfInt {s : Bytes} {n : ℤ} (h : sscanfInt s = some n) : IsInt64 n := by
  unfold sscanfInt at h
  split at h
  case h_1 => cases h
  case h_2 =>
    dsimp only at h
    split at h
    · cases h
    · exact isInt64_of_atoi? h

/-- No space comes before a digit. -/
theorem skipSpace_of_isDigit {b : UInt8} (hb : Decimal.isDigit b = true) (s : Bytes) :
    skipSpace (b :: s) = some (b :: s) := by
  have hr := (Decimal.isDigit_iff b).mp hb
  have hne : ∀ k : UInt8, k.toNat < 48 ∨ 57 < k.toNat → b ≠ k := fun k hk he => by
    subst he
    omega
  have h0A : b ≠ 0x0A := hne _ (by decide)
  have h0D : b ≠ 0x0D := hne _ (by decide)
  have h1 : isSpace1 b = false := by
    simp [isSpace1, h0D, hne 0x09 (by decide), hne 0x0B (by decide), hne 0x0C (by decide),
      hne 0x20 (by decide)]
  have h2 : ∀ c, isSpace2 b c = false := fun c => by simp [isSpace2, hne 0xC2 (by decide)]
  have h3 : ∀ c d, isSpace3 b c d = false := fun c d => by
    simp [isSpace3, hne 0xE1 (by decide), hne 0xE2 (by decide), hne 0xE3 (by decide)]
  rcases s with _ | ⟨c, _ | ⟨d, u⟩⟩ <;> simp [skipSpace, h0A, h0D, h1, h2, h3]

/-- **`Sscanf` reads a digit string as `Atoi` does.** -/
theorem sscanfInt_digits {ds : Bytes} (hd : ∀ b ∈ ds, Decimal.isDigit b = true) (hne : ds ≠ []) :
    sscanfInt ds = atoi? ds := by
  have hskip : skipSpace ds = some ds := by
    cases ds with
    | nil => exact absurd rfl hne
    | cons b s => exact skipSpace_of_isDigit (hd b List.mem_cons_self) s
  have htake : ds.takeWhile Decimal.isDigit = ds := List.takeWhile_eq_self_iff.mpr hd
  rw [sscanfInt, hskip]
  simp only [takeSign_digits hd hne, htake, if_neg hne, Bool.false_eq_true, if_false]

/-- **`Sscanf` reads back what `Itoa` wrote.** -/
theorem sscanfInt_numeral {n : ℕ} (hn : n < 2 ^ 63) : sscanfInt (Decimal.numeral n) = some n := by
  rw [sscanfInt_digits (fun _ hb => Decimal.isDigit_of_mem_numeral hb) (Decimal.numeral_ne_nil n),
    ← itoa_natCast]
  exact atoi?_itoa ⟨by omega, by omega⟩

/-! ## `strings` -/

/-- Where `strings.IndexByte` cuts a field into the text before the byte and the text after it. -/
def cutAt (c : UInt8) (s : Bytes) : Option (Bytes × Bytes) :=
  (s.idxOf? c).map fun i => (s.take i, s.drop (i + 1))

theorem idxOf?_append_cons {c : UInt8} {a : Bytes} (ha : c ∉ a) (b : Bytes) :
    (a ++ c :: b).idxOf? c = some a.length := by
  rw [List.idxOf?_eq_some_iff]
  refine ⟨by simp, by simp, fun j hj => ?_⟩
  rw [List.getElem_append_left hj]
  exact fun h => ha (h ▸ List.getElem_mem hj)

theorem cutAt_append_cons {c : UInt8} {a : Bytes} (ha : c ∉ a) (b : Bytes) :
    cutAt c (a ++ c :: b) = some (a, b) := by
  have hdrop : (a ++ c :: b).drop (a.length + 1) = b := by
    rw [← List.singleton_append, ← List.append_assoc]
    exact List.drop_left' (by simp)
  rw [cutAt, idxOf?_append_cons ha, Option.map_some, List.take_left' rfl, hdrop]

/-- A byte cuts a field in one way only. -/
theorem cut_inj {c : UInt8} {a a' b b' : Bytes} (ha : c ∉ a) (ha' : c ∉ a')
    (h : a ++ c :: b = a' ++ c :: b') : a = a' ∧ b = b' := by
  have hcut := cutAt_append_cons ha b
  rw [h, cutAt_append_cons ha' b'] at hcut
  obtain ⟨haeq, hbeq⟩ := Prod.mk.inj (Option.some.inj hcut)
  exact ⟨haeq.symm, hbeq.symm⟩

/-- **A cut puts the field back together**, and the byte does not occur before it. -/
theorem eq_of_cutAt {c : UInt8} {s a b : Bytes} (h : cutAt c s = some (a, b)) :
    s = a ++ c :: b ∧ c ∉ a := by
  obtain ⟨i, hi, hab⟩ := Option.map_eq_some_iff.mp h
  obtain ⟨hlt, hget, hmin⟩ := List.idxOf?_eq_some_iff.mp hi
  obtain ⟨rfl, rfl⟩ := Prod.mk.inj hab
  refine ⟨?_, fun hmem => ?_⟩
  · conv_lhs => rw [← List.take_append_drop i s]
    rw [List.drop_eq_getElem_cons hlt, hget]
  · obtain ⟨j, hj, hjc⟩ := List.getElem_of_mem hmem
    rw [List.length_take] at hj
    rw [List.getElem_take] at hjc
    exact hmin j (by omega) hjc

end GoLang
