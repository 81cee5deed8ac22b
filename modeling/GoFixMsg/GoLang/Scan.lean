import GoFixMsg.GoLang.Strconv

/-!
# GoLang/Scan — what an open text can still scan as

`Sscanf` with `%d` takes spaces, a sign and digits off the head of a text.  A text read so far may
end anywhere in there, even within a space rune of several bytes; if some continuation makes it a
natural number, then one of at most three bytes does (`ScansNat.exists_short`).

The bound of three bytes is what the framer needs to know.  A buffer that holds the head of a frame
up to an open BodyLength can be completed to a whole frame if and only if the open text can still
scan as a natural number; and if it can, a completion of bounded length shows it.
-/

namespace GoLang

/-- `Sscanf` reads a natural number off the head of the text. -/
def ScansNat (s : Bytes) : Prop := ∃ n : ℕ, sscanfInt s = some (n : ℤ)

/-! ## Digits -/

/-- What the digit loop returns is the value, and it fits. -/
theorem parseUint_ok {s : Bytes} {n m : ℕ} (hn : n < 2 ^ 64) (h : parseUint s n = .ok m) :
    m = Decimal.valueFrom s n ∧ m < 2 ^ 64 := by
  induction s generalizing n with
  | nil =>
    cases h
    exact ⟨rfl, hn⟩
  | cons c s ih =>
    rw [parseUint] at h
    split at h
    · split at h
      · next hlt => exact ih hlt h
      · cases h
    · cases h

/-- **When a signed digit string reads as a natural number**: its value fits a Go `int`, and is zero
behind a minus sign. -/
theorem atoi?_signed_iff {neg : Bool} {ds : Bytes} (hd : ∀ b ∈ ds, Decimal.isDigit b = true)
    (hne : ds ≠ []) :
    (∃ n : ℕ, atoi? (if neg then 45 :: ds else ds) = some (n : ℤ))
      ↔ Decimal.value ds < 2 ^ 63 ∧ (neg = true → Decimal.value ds = 0) := by
  have hsign : takeSign (if neg then 45 :: ds else ds) = (neg, ds) := by
    cases neg with
    | true => rfl
    | false => exact takeSign_digits hd hne
  simp only [atoi?, atoi, hsign, if_neg hne]
  by_cases hfit : Decimal.value ds < 2 ^ 64
  · rw [parseUint_digits ds 0 hd hfit, ← Decimal.value]
    cases neg with
    | true =>
      by_cases hbig : 2 ^ 63 < Decimal.value ds
      · simp only [if_true, if_pos hbig, reduceCtorEq, exists_false, false_iff, not_and]
        omega
      · simp only [if_true, if_neg hbig, Option.some.injEq, forall_const]
        constructor
        · rintro ⟨n, hn⟩
          omega
        · exact fun h => ⟨0, by omega⟩
    | false =>
      by_cases hbig : 2 ^ 63 ≤ Decimal.value ds
      · simp only [Bool.false_eq_true, if_false, if_pos hbig, reduceCtorEq, exists_false, false_iff,
          not_and]
        omega
      · simp only [Bool.false_eq_true, if_false, if_neg hbig, Option.some.injEq, false_imp_iff,
          and_true]
        exact ⟨fun _ => by omega, fun _ => ⟨_, rfl⟩⟩
  · cases hp : parseUint ds 0 with
    | ok m =>
      obtain ⟨rfl, hlt⟩ := parseUint_ok (by decide) hp
      exact absurd hlt hfit
    | error e =>
      cases e <;> simp only [reduceCtorEq, exists_false, false_iff, not_and] <;> omega

/-- **When a digit string reads as an `int`**, and as which. -/
theorem atoi?_digits {ds : Bytes} (hd : ∀ b ∈ ds, Decimal.isDigit b = true) (hne : ds ≠ [])
    {n : ℤ} : atoi? ds = some n ↔ n = Decimal.value ds ∧ Decimal.value ds < 2 ^ 63 := by
  simp only [atoi?, atoi, takeSign_digits hd hne, if_neg hne]
  by_cases hfit : Decimal.value ds < 2 ^ 64
  · rw [parseUint_digits ds 0 hd hfit, ← Decimal.value]
    by_cases hbig : 2 ^ 63 ≤ Decimal.value ds
    · simp only [Bool.false_eq_true, if_false, if_pos hbig, reduceCtorEq, false_iff, not_and]
      omega
    · simp only [Bool.false_eq_true, if_false, if_neg hbig, Option.some.injEq]
      exact ⟨fun h => ⟨h.symm, by omega⟩, fun h => h.1.symm⟩
  · cases hp : parseUint ds 0 with
    | ok m =>
      obtain ⟨rfl, hlt⟩ := parseUint_ok (by decide) hp
      exact absurd hlt hfit
    | error e =>
      cases e <;> simp only [reduceCtorEq, false_iff, not_and] <;> omega

/-! ## The head of the text

In front of the number `Sscanf` skips spaces, and a space is a rune: one byte, or two or three in
UTF-8.  A line feed is an error.  What scans is therefore a number, or a space with something behind
it that scans. -/

/-- The bytes a number begins with. -/
def StartsNumber (b : UInt8) : Prop := Decimal.isDigit b = true ∨ b = 45 ∨ b = 43

theorem skipSpace_of_startsNumber {b : UInt8} (hb : StartsNumber b) (s : Bytes) :
    skipSpace (b :: s) = some (b :: s) := by
  rcases hb with hb | rfl | rfl
  · exact skipSpace_of_isDigit hb s
  · rcases s with _ | ⟨c, _ | ⟨d, u⟩⟩ <;> simp [skipSpace, isSpace1, isSpace2, isSpace3]
  · rcases s with _ | ⟨c, _ | ⟨d, u⟩⟩ <;> simp [skipSpace, isSpace1, isSpace2, isSpace3]

/-- The digits of a text that begins with a number. -/
def digitsOf (s : Bytes) : Bytes := (takeSign s).2.takeWhile Decimal.isDigit

theorem scansNat_number {b : UInt8} (hb : StartsNumber b) (s : Bytes) :
    ScansNat (b :: s) ↔ digitsOf (b :: s) ≠ [] ∧ Decimal.value (digitsOf (b :: s)) < 2 ^ 63
      ∧ ((takeSign (b :: s)).1 = true → Decimal.value (digitsOf (b :: s)) = 0) := by
  have hd : ∀ c ∈ digitsOf (b :: s), Decimal.isDigit c = true :=
    fun c hc => List.mem_takeWhile_imp hc
  rw [ScansNat, sscanfInt, skipSpace_of_startsNumber hb]
  dsimp only
  rw [← digitsOf]
  by_cases hnil : digitsOf (b :: s) = []
  · simp [hnil]
  · rw [if_neg hnil, atoi?_signed_iff hd hnil]
    exact ⟨fun h => ⟨hnil, h⟩, fun h => h.2⟩

/-- One space in front is skipped.  A newline is none, neither here nor at the head of what
follows. -/
theorem scansNat_space1 {b : UInt8} (hb : isSpace1 b = true) (s : Bytes) :
    ScansNat (b :: s) ↔ ScansNat s := by
  have h0A : b ≠ 0x0A := fun he => by subst he; exact absurd hb (by decide)
  by_cases hcr : b = 0x0D ∧ s.head? = some 0x0A
  · obtain ⟨rfl, hhead⟩ := hcr
    obtain ⟨t, rfl⟩ : ∃ t, s = 0x0A :: t := by
      cases s with
      | nil => cases hhead
      | cons c t => exact ⟨t, by rw [Option.some.inj hhead]⟩
    have hcrlf : skipSpace (0x0D :: 0x0A :: t) = none := by
      rw [skipSpace.eq_def]
      rfl
    have hlf : skipSpace (0x0A :: t) = none := by
      rw [skipSpace.eq_def]
      rfl
    rw [ScansNat, ScansNat, sscanfInt, sscanfInt, hcrlf, hlf]
  · have hskip : skipSpace (b :: s) = skipSpace s := by
      rw [skipSpace.eq_def]
      dsimp only
      rw [if_neg h0A, if_neg hcr, if_pos hb]
    rw [ScansNat, sscanfInt, hskip]
    rfl

theorem scansNat_space2 {b c : UInt8} (hbc : isSpace2 b c = true) (t : Bytes) :
    ScansNat (b :: c :: t) ↔ ScansNat t := by
  have hb : b = 0xC2 := by
    simp only [isSpace2, Bool.and_eq_true, beq_iff_eq] at hbc
    exact hbc.1
  subst hb
  have hskip : skipSpace (0xC2 :: c :: t) = skipSpace t := by
    rw [skipSpace.eq_def]
    dsimp only
    rw [if_neg (by decide), if_neg (by simp), if_neg (by decide), if_pos hbc]
  rw [ScansNat, sscanfInt, hskip]
  rfl

theorem scansNat_space3 {b c d : UInt8} (hbcd : isSpace3 b c d = true) (u : Bytes) :
    ScansNat (b :: c :: d :: u) ↔ ScansNat u := by
  have hb : b = 0xE1 ∨ b = 0xE2 ∨ b = 0xE3 := by
    simp only [isSpace3, Bool.or_eq_true, Bool.and_eq_true, beq_iff_eq] at hbcd
    tauto
  have h2 : isSpace2 b c = false := by
    rcases hb with rfl | rfl | rfl <;> rfl
  have hne : b ≠ 0x0A ∧ b ≠ 0x0D ∧ isSpace1 b = false := by
    rcases hb with rfl | rfl | rfl <;> decide
  have hskip : skipSpace (b :: c :: d :: u) = skipSpace u := by
    rw [skipSpace.eq_def]
    simp only [if_neg hne.1, if_neg fun h => hne.2.1 (And.left h), hne.2.2, h2, Bool.false_eq_true,
      if_false, if_pos hbcd]
  rw [ScansNat, sscanfInt, hskip]
  rfl

/-- **What a text that scans begins with**: a number, or a space. -/
theorem ScansNat.head_cases {b : UInt8} {s : Bytes} (h : ScansNat (b :: s)) :
    StartsNumber b ∨ isSpace1 b = true ∨ (∃ c t, s = c :: t ∧ isSpace2 b c = true)
      ∨ ∃ c d u, s = c :: d :: u ∧ isSpace3 b c d = true := by
  by_contra hnone
  simp only [not_or, not_exists, not_and] at hnone
  obtain ⟨hnum, h1, h2, h3⟩ := hnone
  have hstop : skipSpace (b :: s) = none ∨ skipSpace (b :: s) = some (b :: s) := by
    rw [skipSpace.eq_def]
    dsimp only
    split
    · exact Or.inl rfl
    split
    · exact Or.inl rfl
    rcases s with _ | ⟨c, _ | ⟨d, u⟩⟩
    · exact Or.inr rfl
    · exact Or.inr (by simp [h2 c [] rfl])
    · exact Or.inr (by simp [h2 c (d :: u) rfl, h3 c d u rfl])
  have hsign : takeSign (b :: s) = (false, b :: s) := by
    rw [takeSign, if_neg fun he => hnum (Or.inr (Or.inl he)),
      if_neg fun he => hnum (Or.inr (Or.inr he))]
  have hdig : (b :: s).takeWhile Decimal.isDigit = [] :=
    List.takeWhile_cons_of_neg fun hb => hnum (Or.inl hb)
  obtain ⟨n, hn⟩ := h
  rw [sscanfInt] at hn
  rcases hstop with hskip | hskip
  · rw [hskip] at hn
    cases hn
  · simp only [hskip, hsign, hdig, if_true, reduceCtorEq] at hn

/-! ## Short continuations

The induction is on the text that is there.  A space at its head is skipped; a number at its head is
complete, or lacks a digit behind its sign; and a rune that has been cut is completed by its one or
two missing bytes, and a digit behind them. -/

/-- An open number that some continuation completes is complete, but for a digit at most. -/
theorem ScansNat.exists_short_number {b : UInt8} (hb : StartsNumber b) {s y : Bytes}
    (h : ScansNat (b :: s ++ y)) : ScansNat (b :: s) ∨ ScansNat (b :: s ++ [48]) := by
  obtain ⟨neg, rest, hsign⟩ : ∃ neg rest, ∀ z, takeSign (b :: s ++ z) = (neg, rest ++ z) := by
    by_cases h45 : b = 45
    · exact ⟨true, s, fun z => by rw [List.cons_append, takeSign, if_pos h45]⟩
    by_cases h43 : b = 43
    · exact ⟨false, s, fun z => by rw [List.cons_append, takeSign, if_neg h45, if_pos h43]⟩
    · exact ⟨false, b :: s, fun z => by rw [List.cons_append, takeSign, if_neg h45, if_neg h43]⟩
  have hiff : ∀ z, ScansNat (b :: s ++ z) ↔ (rest ++ z).takeWhile Decimal.isDigit ≠ []
      ∧ Decimal.value ((rest ++ z).takeWhile Decimal.isDigit) < 2 ^ 63
      ∧ (neg = true → Decimal.value ((rest ++ z).takeWhile Decimal.isDigit) = 0) := by
    intro z
    have hz := scansNat_number hb (s ++ z)
    rwa [digitsOf, ← List.cons_append, hsign z] at hz
  rw [hiff] at h
  have hself := hiff []
  rw [List.append_nil, List.append_nil] at hself
  by_cases hall : ∀ c ∈ rest, Decimal.isDigit c = true
  · rw [List.takeWhile_append_of_pos hall] at h
    cases rest with
    | nil =>
      right
      rw [hiff]
      exact ⟨by decide, by decide, fun _ => rfl⟩
    | cons c cs =>
      left
      rw [hself, List.takeWhile_eq_self_iff.mpr hall]
      obtain ⟨-, hlt, hneg⟩ := h
      have hle : Decimal.value (c :: cs)
          ≤ Decimal.value (c :: cs ++ y.takeWhile Decimal.isDigit) := Decimal.value_le_append _ _
      exact ⟨List.cons_ne_nil _ _, by omega, fun hn => by have := hneg hn; omega⟩
  · left
    rw [hself]
    have hstop : (rest.takeWhile Decimal.isDigit).length ≠ rest.length := by
      intro hlen
      have hself := (List.takeWhile_prefix Decimal.isDigit).eq_of_length hlen
      exact hall (List.takeWhile_eq_self_iff.mp hself)
    rwa [List.takeWhile_append, if_neg hstop] at h

/-- **If some continuation of a text scans as a natural number, a short one does.**  A space rune of
two or three bytes may be open at the end of the text; what completes it is short. -/
theorem ScansNat.exists_short {s y : Bytes} (h : ScansNat (s ++ y)) :
    ∃ z, z.length ≤ 3 ∧ (∀ c ∈ z, 48 ≤ c) ∧ ScansNat (s ++ z) := by
  have hzero : ScansNat [48] := ⟨0, by decide⟩
  induction hn : s.length using Nat.strongRecOn generalizing s with
  | ind n ih =>
    cases s with
    | nil => exact ⟨[48], by simp, by simp, hzero⟩
    | cons b s =>
      rw [List.length_cons] at hn
      rcases ScansNat.head_cases h with hb | hb | ⟨c, t, hs, hbc⟩ | ⟨c, d, u, hs, hbcd⟩
      · rcases ScansNat.exists_short_number hb h with hz | hz
        · exact ⟨[], by simp, by simp, by rwa [List.append_nil]⟩
        · exact ⟨[48], by simp, by simp, hz⟩
      · rw [List.cons_append, scansNat_space1 hb] at h
        obtain ⟨z, hlen, hz, hscan⟩ := ih s.length (by omega) h rfl
        exact ⟨z, hlen, hz, by rwa [List.cons_append, scansNat_space1 hb]⟩
      · have hc : 48 ≤ c := by
          simp only [isSpace2, Bool.and_eq_true, Bool.or_eq_true, beq_iff_eq] at hbc
          rcases hbc.2 with rfl | rfl <;> decide
        cases s with
        | nil =>
          refine ⟨[c, 48], by simp, ?_, (scansNat_space2 hbc [48]).mpr hzero⟩
          simp [hc]
        | cons c' s =>
          obtain ⟨rfl, rfl⟩ := List.cons.inj hs
          rw [List.cons_append, List.cons_append, scansNat_space2 hbc] at h
          obtain ⟨z, hlen, hz, hscan⟩ := ih s.length (by rw [List.length_cons] at hn; omega) h rfl
          exact ⟨z, hlen, hz, (scansNat_space2 hbc _).mpr hscan⟩
      · obtain ⟨hc, hd⟩ : 48 ≤ c ∧ 48 ≤ d := by
          simp only [isSpace3, Bool.and_eq_true, Bool.or_eq_true, beq_iff_eq, decide_eq_true_eq]
            at hbcd
          rcases hbcd with ((⟨⟨-, rfl⟩, rfl⟩ | ⟨⟨-, rfl⟩, ((⟨hd, -⟩ | rfl) | rfl) | rfl⟩)
            | ⟨⟨-, rfl⟩, rfl⟩) | ⟨⟨-, rfl⟩, rfl⟩
          · decide
          · exact ⟨by decide, UInt8.le_trans (by decide : (48 : UInt8) ≤ 0x80) hd⟩
          all_goals decide
        rcases s with _ | ⟨c', _ | ⟨d', s⟩⟩
        · refine ⟨[c, d, 48], by simp, ?_, (scansNat_space3 hbcd [48]).mpr hzero⟩
          simp [hc, hd]
        · obtain ⟨rfl, -⟩ := List.cons.inj hs
          refine ⟨[d, 48], by simp, ?_, (scansNat_space3 hbcd [48]).mpr hzero⟩
          simp [hd]
        · obtain ⟨rfl, hs'⟩ := List.cons.inj hs
          obtain ⟨rfl, rfl⟩ := List.cons.inj hs'
          rw [List.cons_append, List.cons_append, List.cons_append, scansNat_space3 hbcd] at h
          obtain ⟨z, hlen, hz, hscan⟩ := ih s.length (by simp only [List.length_cons] at hn; omega)
            h rfl
          exact ⟨z, hlen, hz, (scansNat_space3 hbcd _).mpr hscan⟩

end GoLang
