import GoFixMsg.GoLang.Strconv

/-!
# Message/Tags — FIX tag numbers and the canonical order of a message's fields

`tagSortKey` ranks a tag: header tags by their position in `headerTags`, then every other tag by
its number, then the trailer.  On the tags a counterparty can sensibly use the rank is injective
(`tagSortKey_injOn`), which is all the serialisers need of it.

Two tags rank alike where one of them has a number that, behind the positions of the header, is the
rank of the other: a tag below zero may rank like a header tag, and one near 2^30 like a trailer tag
(`tagSortKey_eq_iff`).  Only then the order of the map gets a say.
-/

open GoLang

namespace FixMsg

def tagBeginString : ℤ := 8
def tagBodyLength : ℤ := 9
def tagMsgType : ℤ := 35
def tagSenderCompID : ℤ := 49
def tagTargetCompID : ℤ := 56
def tagMsgSeqNum : ℤ := 34
def tagSendingTime : ℤ := 52
def tagPossDupFlag : ℤ := 43
def tagOrigSendTime : ℤ := 122
def tagCheckSum : ℤ := 10

/-- A tag the code has as a constant: an `int`. -/
class IntTag (tag : ℤ) : Prop where
  isInt64 : IsInt64 tag

instance : IntTag tagBeginString := ⟨by decide⟩
instance : IntTag tagMsgType := ⟨by decide⟩
instance : IntTag tagSenderCompID := ⟨by decide⟩
instance : IntTag tagTargetCompID := ⟨by decide⟩
instance : IntTag tagMsgSeqNum := ⟨by decide⟩
instance : IntTag tagSendingTime := ⟨by decide⟩
instance : IntTag tagPossDupFlag := ⟨by decide⟩
instance : IntTag tagOrigSendTime := ⟨by decide⟩

instance intTag_beginSeqNo : IntTag 7 := ⟨by decide⟩
instance intTag_endSeqNo : IntTag 16 := ⟨by decide⟩
instance intTag_newSeqNo : IntTag 36 := ⟨by decide⟩
instance intTag_testReqID : IntTag 112 := ⟨by decide⟩
instance intTag_gapFillFlag : IntTag 123 := ⟨by decide⟩

/-- `HeaderTags`: the header tags in the order they are written. -/
def headerTags : List ℤ :=
  [8, 9, 35, 1128, 1156, 1129, 49, 56, 115, 128,
   90, 91, 34, 50, 142, 57, 143, 116, 144, 129, 145,
   43, 97, 52, 122, 212, 213, 347, 369, 370]

/-- `HeaderSortMap`: the position of a header tag. -/
def headerSortMap (t : ℤ) : Option ℤ := (headerTags.idxOf? t).map fun i => (i : ℤ)

/-- `trailerSortMap`: the trailer tags rank last. -/
def trailerSortMap (t : ℤ) : Option ℤ :=
  if t = 93 then some (2 ^ 30 - 3)
  else if t = 89 then some (2 ^ 30 - 2)
  else if t = 10 then some (2 ^ 30 - 1)
  else none

/-- `tagSortKey`: the rank of a tag in a message. -/
def tagSortKey (t : ℤ) : ℤ :=
  match trailerSortMap t with
  | some k => k
  | none =>
    match headerSortMap t with
    | some k => k
    | none => int64 (headerTags.length + t)

/-- The tags whose rank stays below the trailer's: positive and less than `2 ^ 30 - 33`. -/
def InTagRange (t : ℤ) : Prop := 0 < t ∧ t < 2 ^ 30 - 33

instance (t : ℤ) : Decidable (InTagRange t) := inferInstanceAs (Decidable (_ ∧ _))

theorem InTagRange.isInt64 {t : ℤ} (h : InTagRange t) : IsInt64 t := by
  obtain ⟨h1, h2⟩ := h
  constructor <;> omega

/-- Any `int` is a header tag, a trailer tag, or ranks by its number, which may wrap around. -/
theorem tagSortKey_int64_cases {t : ℤ} (ht : IsInt64 t) :
    (∃ i : ℕ, ∃ h : i < headerTags.length, headerTags[i] = t ∧ tagSortKey t = i)
      ∨ (t = 93 ∧ tagSortKey t = 2 ^ 30 - 3) ∨ (t = 89 ∧ tagSortKey t = 2 ^ 30 - 2)
      ∨ (t = 10 ∧ tagSortKey t = 2 ^ 30 - 1)
      ∨ ((t ∉ headerTags ∧ t ≠ 93 ∧ t ≠ 89 ∧ t ≠ 10)
        ∧ (tagSortKey t = 30 + t ∨ tagSortKey t = 30 + t - 2 ^ 64 ∧ 2 ^ 63 ≤ 30 + t)) := by
  by_cases h93 : t = 93
  · subst h93
    exact Or.inr (Or.inl ⟨rfl, rfl⟩)
  by_cases h89 : t = 89
  · subst h89
    exact Or.inr (Or.inr (Or.inl ⟨rfl, rfl⟩))
  by_cases h10 : t = 10
  · subst h10
    exact Or.inr (Or.inr (Or.inr (Or.inl ⟨rfl, rfl⟩)))
  have htr : trailerSortMap t = none := by simp [trailerSortMap, h93, h89, h10]
  cases hi : headerTags.idxOf? t with
  | some i =>
    obtain ⟨hlt, hget, -⟩ := List.idxOf?_eq_some_iff.mp hi
    refine Or.inl ⟨i, hlt, hget, ?_⟩
    simp [tagSortKey, htr, headerSortMap, hi]
  | none =>
    have hkey : tagSortKey t = int64 (30 + t) := by
      simp only [tagSortKey, htr, headerSortMap, hi]
      rfl
    refine Or.inr (Or.inr (Or.inr (Or.inr ⟨⟨List.idxOf?_eq_none_iff.mp hi, h93, h89, h10⟩, ?_⟩)))
    obtain ⟨hlo, hhi⟩ := ht
    rw [hkey]
    by_cases hfit : 30 + t < 2 ^ 63
    · exact Or.inl (int64_of_isInt64 ⟨by omega, hfit⟩)
    · exact Or.inr ⟨int64_of_overflow (by omega) (by omega), by omega⟩

/-- The three kinds of tag in range, each with its rank. -/
theorem tagSortKey_cases {t : ℤ} (ht : InTagRange t) :
    (∃ i : ℕ, ∃ h : i < headerTags.length, headerTags[i] = t ∧ tagSortKey t = i)
      ∨ (t ∉ headerTags ∧ tagSortKey t = 30 + t)
      ∨ (t = 93 ∧ tagSortKey t = 2 ^ 30 - 3) ∨ (t = 89 ∧ tagSortKey t = 2 ^ 30 - 2)
      ∨ (t = 10 ∧ tagSortKey t = 2 ^ 30 - 1) := by
  rcases tagSortKey_int64_cases ht.isInt64 with h | h | h | h | ⟨⟨hheader, -⟩, hkey | ⟨-, hwrap⟩⟩
  · exact Or.inl h
  · exact Or.inr (Or.inr (Or.inl h))
  · exact Or.inr (Or.inr (Or.inr (Or.inl h)))
  · exact Or.inr (Or.inr (Or.inr (Or.inr h)))
  · exact Or.inr (Or.inl ⟨hheader, hkey⟩)
  · obtain ⟨-, hlt⟩ := ht
    omega

/-- **Two tags in range never rank alike.** -/
theorem tagSortKey_injOn {t u : ℤ} (ht : InTagRange t) (hu : InTagRange u)
    (h : tagSortKey t = tagSortKey u) : t = u := by
  have hlen : headerTags.length = 30 := rfl
  obtain ⟨ht1, ht2⟩ := ht
  obtain ⟨hu1, hu2⟩ := hu
  rcases tagSortKey_cases ⟨ht1, ht2⟩ with
    ⟨i, hi, rfl, hki⟩ | ⟨_, hk⟩ | ⟨rfl, hk⟩ | ⟨rfl, hk⟩ | ⟨rfl, hk⟩ <;>
    rcases tagSortKey_cases ⟨hu1, hu2⟩ with
      ⟨j, hj, rfl, hkj⟩ | ⟨_, hl⟩ | ⟨rfl, hl⟩ | ⟨rfl, hl⟩ | ⟨rfl, hl⟩
  case inl.inl =>
    have hij : i = j := by omega
    subst hij
    rfl
  all_goals omega

/-- BeginString ranks before every other tag in range, BodyLength before all but BeginString. -/
theorem tagSortKey_nonneg {t : ℤ} (ht : InTagRange t) : 0 ≤ tagSortKey t := by
  obtain ⟨h1, h2⟩ := ht
  rcases tagSortKey_cases ⟨h1, h2⟩ with ⟨i, _, _, hk⟩ | ⟨_, hk⟩ | ⟨_, hk⟩ | ⟨_, hk⟩ | ⟨_, hk⟩ <;>
    omega

/-- CheckSum ranks after every other tag in range. -/
theorem tagSortKey_le_checkSum {t : ℤ} (ht : InTagRange t) : tagSortKey t ≤ tagSortKey 10 := by
  have hlen : headerTags.length = 30 := rfl
  have h10 : tagSortKey 10 = 2 ^ 30 - 1 := rfl
  obtain ⟨h1, h2⟩ := ht
  rcases tagSortKey_cases ⟨h1, h2⟩ with ⟨i, _, _, hk⟩ | ⟨_, hk⟩ | ⟨_, hk⟩ | ⟨_, hk⟩ | ⟨_, hk⟩ <;>
    omega

/-! ## Ranks that are taken twice

`TakesRank` says when a number takes a rank that belongs to another tag.  It is decidable by looking
at the two numbers, and it is all that can go wrong with the order of a message. -/

/-- **A tag whose number, behind the header's length, is the rank of another**: of a header tag if it
is one of -30, …, -1, of a trailer tag if it is one of the three below `2 ^ 30 - 30`. -/
def TakesRank (t u : ℤ) : Prop :=
  (∃ i : ℕ, ∃ h : i < headerTags.length, headerTags[i] = u ∧ t = i - 30)
    ∨ (u = 93 ∧ t = 2 ^ 30 - 33) ∨ (u = 89 ∧ t = 2 ^ 30 - 32) ∨ (u = 10 ∧ t = 2 ^ 30 - 31)

instance (t u : ℤ) : Decidable (TakesRank t u) := inferInstanceAs (Decidable (_ ∨ _))

/-- A tag that takes a rank ranks like the tag it takes it from. -/
theorem TakesRank.rank_eq {t u : ℤ} (h : TakesRank t u) : tagSortKey t = tagSortKey u := by
  have hheader : ∀ i : Fin headerTags.length,
      tagSortKey ((i : ℕ) - 30) = tagSortKey headerTags[(i : ℕ)] := by decide
  rcases h with ⟨i, hi, rfl, rfl⟩ | ⟨rfl, rfl⟩ | ⟨rfl, rfl⟩ | ⟨rfl, rfl⟩
  · exact hheader ⟨i, hi⟩
  all_goals decide

/-- The rank of a tag is taken by another one only. -/
theorem TakesRank.ne {t u : ℤ} (h : TakesRank t u) : t ≠ u := by
  have hheader : ∀ i : Fin headerTags.length, ((i : ℕ) : ℤ) - 30 ≠ headerTags[(i : ℕ)] := by decide
  rcases h with ⟨i, hi, rfl, rfl⟩ | ⟨rfl, rfl⟩ | ⟨rfl, rfl⟩ | ⟨rfl, rfl⟩
  · exact hheader ⟨i, hi⟩
  all_goals decide

/-- A tag that ranks by its number shares its rank only where it takes it. -/
theorem takesRank_of_rank_eq {t u : ℤ} (hu : IsInt64 u) (ht : IsInt64 t)
    (hnumber : tagSortKey t = 30 + t ∨ tagSortKey t = 30 + t - 2 ^ 64 ∧ 2 ^ 63 ≤ 30 + t)
    (h : tagSortKey t = tagSortKey u) : t = u ∨ TakesRank t u := by
  have hlen : headerTags.length = 30 := rfl
  obtain ⟨ht1, ht2⟩ := ht
  rcases tagSortKey_int64_cases hu with
    ⟨j, hj, huj, hl⟩ | ⟨hu, hl⟩ | ⟨hu, hl⟩ | ⟨hu, hl⟩ | ⟨-, hl⟩
  · exact Or.inr (Or.inl ⟨j, hj, huj, by omega⟩)
  · exact Or.inr (Or.inr (Or.inl ⟨hu, by omega⟩))
  · exact Or.inr (Or.inr (Or.inr (Or.inl ⟨hu, by omega⟩)))
  · exact Or.inr (Or.inr (Or.inr (Or.inr ⟨hu, by omega⟩)))
  · obtain ⟨hu1, hu2⟩ := hu
    exact Or.inl (by omega)

/-- **Two different tags rank alike exactly if one takes the rank of the other.** -/
theorem tagSortKey_eq_iff {t u : ℤ} (ht : IsInt64 t) (hu : IsInt64 u) :
    tagSortKey t = tagSortKey u ↔ t = u ∨ TakesRank t u ∨ TakesRank u t := by
  have hlen : headerTags.length = 30 := rfl
  constructor
  · intro h
    rcases tagSortKey_int64_cases ht with
      ⟨i, hi, hti, hk⟩ | ⟨hti, hk⟩ | ⟨hti, hk⟩ | ⟨hti, hk⟩ | ⟨-, hnumber⟩
    case inr.inr.inr.inr =>
      exact (takesRank_of_rank_eq hu ht hnumber h).imp id Or.inl
    all_goals
      rcases tagSortKey_int64_cases hu with
        ⟨j, hj, huj, hl⟩ | ⟨huj, hl⟩ | ⟨huj, hl⟩ | ⟨huj, hl⟩ | ⟨-, hnumber⟩
      case inr.inr.inr.inr =>
        exact (takesRank_of_rank_eq ht hu hnumber h.symm).imp Eq.symm Or.inr
    case inl.inl =>
      obtain rfl : i = j := by omega
      exact Or.inl (hti.symm.trans huj)
    all_goals omega
  · rintro (rfl | h | h)
    · rfl
    · exact h.rank_eq
    · exact h.rank_eq.symm

end FixMsg
