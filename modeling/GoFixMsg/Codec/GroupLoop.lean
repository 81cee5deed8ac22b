import GoFixMsg.Codec.Codec

/-!
# Codec/GroupLoop — the loops of the parser without their fuel

Every pass of `groupLoop` and of `dispatchLoop` consumes a pair, so more fuel than pairs never runs
out and never matters.  `memberLoop` and `dispatch` are the loops with enough fuel; each pass of
theirs is one equation.
-/

open GoLang

namespace FixMsg

variable (s : FixSpec)

/-- A group loop leaves the end of the pairs it was given. -/
theorem groupLoop_suffix {fuel : ℕ} {grp : GroupSpec} {count : ℤ} {pairs rest : List Pair}
    {members out : List FixFragment} {current : Option FixFragment}
    (h : groupLoop s fuel grp count pairs members current = .ok (rest, out)) :
    rest <:+ pairs := by
  induction fuel generalizing grp count pairs members current rest out with
  | zero => cases h
  | succ fuel ih =>
    cases pairs with
    | nil =>
      cases h
      exact List.suffix_refl _
    | cons p pairs =>
      obtain ⟨t, value⟩ := p
      have hbehind : ∀ {rest : List Pair}, rest <:+ pairs → rest <:+ (t, value) :: pairs :=
        fun hrest => hrest.trans (List.suffix_cons _ _)
      rw [groupLoop] at h
      split at h
      · cases h
        exact List.suffix_refl _
      split at h
      · cases h
        exact List.suffix_refl _
      split at h
      · exact hbehind (ih h)
      split at h
      · cases h
        exact List.suffix_refl _
      split at h
      · cases h
        exact List.suffix_refl _
      split at h
      · exact hbehind (ih h)
      split at h
      · cases h
      split at h
      · cases h
      next hsub =>
        have h1 := ih h
        split at hsub
        · cases hsub
          exact hbehind h1
        · exact hbehind (h1.trans (ih hsub))

/-- A nested group leaves the end of the pairs behind its count field. -/
theorem nestedGroup_suffix {fuel : ℕ} {grp : GroupSpec} {count : ℤ} {pairs rest : List Pair}
    {members : List FixFragment}
    (h : (if count = 0 then .ok (pairs, []) else groupLoop s fuel grp count pairs [] none)
      = .ok (rest, members)) : rest <:+ pairs := by
  split at h
  · cases h
    exact List.suffix_refl _
  · exact groupLoop_suffix s h

/-- **Fuel beyond the pairs does not matter.** -/
theorem groupLoop_fuel {fuel fuel' : ℕ} {grp : GroupSpec} {count : ℤ} {pairs : List Pair}
    (hf : pairs.length < fuel) (hf' : pairs.length < fuel') (members : List FixFragment)
    (current : Option FixFragment) :
    groupLoop s fuel grp count pairs members current
      = groupLoop s fuel' grp count pairs members current := by
  induction fuel generalizing fuel' grp count pairs members current with
  | zero => exact absurd hf (Nat.not_lt_zero _)
  | succ fuel ih =>
    obtain ⟨fuel', rfl⟩ : ∃ k, fuel' = k + 1 := ⟨fuel' - 1, by omega⟩
    cases pairs with
    | nil => rfl
    | cons p pairs =>
      obtain ⟨t, value⟩ := p
      rw [List.length_cons] at hf hf'
      have hlt : pairs.length < fuel := by omega
      have hlt' : pairs.length < fuel' := by omega
      rw [groupLoop, groupLoop]
      split
      · rfl
      split
      · rfl
      split
      · exact ih hlt hlt' _ _
      split
      · rfl
      split
      · rfl
      split
      · exact ih hlt hlt' _ _
      split
      · rfl
      rw [ih hlt hlt' [] none]
      split
      · rfl
      next rest _ hsub =>
        have hle := (nestedGroup_suffix s hsub).length_le
        exact ih (by omega) (by omega) _ _

/-- The loop of `parseGroup` with enough fuel. -/
def memberLoop (grp : GroupSpec) (count : ℤ) (pairs : List Pair) (members : List FixFragment)
    (current : Option FixFragment) : Except ParseError (List Pair × List FixFragment) :=
  groupLoop s (pairs.length + 1) grp count pairs members current

theorem parseGroup_of_ne_zero (grp : GroupSpec) {count : ℤ} (h : count ≠ 0) (pairs : List Pair) :
    parseGroup s grp count pairs = memberLoop s grp count pairs [] none := if_neg h

/-- A group leaves the end of the pairs it was given. -/
theorem parseGroup_suffix {grp : GroupSpec} {count : ℤ} {pairs rest : List Pair}
    {members : List FixFragment} (h : parseGroup s grp count pairs = .ok (rest, members)) :
    rest <:+ pairs :=
  nestedGroup_suffix s h

theorem length_parseGroup_le {grp : GroupSpec} {count : ℤ} {pairs rest : List Pair}
    {members : List FixFragment} (h : parseGroup s grp count pairs = .ok (rest, members)) :
    rest.length ≤ pairs.length :=
  (parseGroup_suffix s h).length_le

/-- Where a count field and its group are read, the count is an integer and the group is
accepted. -/
theorem exists_group_of_ok {α : Type} {spec : GroupSpec} {value : Bytes} {pairs : List Pair}
    {err : ParseError} {goOn : List Pair → List FixFragment → Except ParseError α} {r : α}
    (h : (match atoi? value with
      | none => Except.error err
      | some n =>
          match parseGroup s spec n pairs with
          | .error e => Except.error e
          | .ok (rest, sub) => goOn rest sub) = .ok r) :
    ∃ n rest sub, atoi? value = some n ∧ parseGroup s spec n pairs = .ok (rest, sub)
      ∧ goOn rest sub = .ok r := by
  cases hn : atoi? value with
  | none =>
    rw [hn] at h
    cases h
  | some n =>
    rw [hn] at h
    dsimp only at h
    cases hr : parseGroup s spec n pairs with
    | error e =>
      rw [hr] at h
      cases h
    | ok r =>
      rw [hr] at h
      exact ⟨n, r.1, r.2, rfl, hr, h⟩

section Passes

variable {s} {grp : GroupSpec} {count : ℤ} {members : List FixFragment}

theorem memberLoop_nil (current : Option FixFragment) :
    memberLoop s grp count [] members current = .ok ([], members ++ current.toList) := rfl

variable {t value : Bytes} {pairs : List Pair} {current : Option FixFragment} {tag : ℤ}

/-- Enough members have been closed. -/
theorem memberLoop_full (h : ¬ (members.length : ℤ) < count) :
    memberLoop s grp count ((t, value) :: pairs) members current
      = .ok ((t, value) :: pairs, members ++ current.toList) := by
  rw [memberLoop, groupLoop]
  exact if_pos h

/-- FirstTag closes the open member and opens the next one. -/
theorem memberLoop_first (h : (members.length : ℤ) < count) (htag : atoi? t = some tag)
    (hfirst : tag = grp.firstTag) :
    memberLoop s grp count ((t, value) :: pairs) members current
      = memberLoop s grp count pairs (members ++ current.toList)
          (some (FixFragment.set [] tag value)) := by
  rw [memberLoop, groupLoop, if_neg (not_not.mpr h), htag]
  exact if_pos hfirst

/-- A tag that is not the group's closes the open member and ends the group. -/
theorem memberLoop_stop (htag : ∀ tag, atoi? t = some tag → tag ≠ grp.firstTag ∧ tag ∉ grp.tags) :
    memberLoop s grp count ((t, value) :: pairs) members current
      = .ok ((t, value) :: pairs, members ++ current.toList) := by
  by_cases h : (members.length : ℤ) < count
  · rw [memberLoop, groupLoop, if_neg (not_not.mpr h)]
    cases ht : atoi? t with
    | none => rfl
    | some tag =>
      obtain ⟨hfirst, htags⟩ := htag tag ht
      dsimp only
      rw [if_neg hfirst]
      cases current with
      | none => simp
      | some cur => exact if_pos htags
  · exact memberLoop_full h

/-- A plain field goes into the open member. -/
theorem memberLoop_plain {cur : FixFragment} (h : (members.length : ℤ) < count)
    (htag : atoi? t = some tag) (hfirst : tag ≠ grp.firstTag) (htags : tag ∈ grp.tags)
    (hplain : Assoc.find? tag grp.nestedGroups = none) :
    memberLoop s grp count ((t, value) :: pairs) members (some cur)
      = memberLoop s grp count pairs members (some (cur.set tag value)) := by
  rw [memberLoop, groupLoop, if_neg (not_not.mpr h), htag]
  dsimp only
  rw [if_neg hfirst, if_neg (not_not.mpr htags), hplain]
  rfl

/-- A nested count field is followed by the nested group. -/
theorem memberLoop_nested {cur : FixFragment} {ref : GroupRef} (h : (members.length : ℤ) < count)
    (htag : atoi? t = some tag) (hfirst : tag ≠ grp.firstTag) (htags : tag ∈ grp.tags)
    (hnested : Assoc.find? tag grp.nestedGroups = some ref) :
    memberLoop s grp count ((t, value) :: pairs) members (some cur)
      = match atoi? value with
        | none => .error (.subGroupCount tag)
        | some subCount =>
            match parseGroup s (s.groupSpec ref) subCount pairs with
            | .error e => .error e
            | .ok (rest, sub) =>
                memberLoop s grp count rest members
                  (some (cur.setGroup tag tag (s.groupSpec ref).firstTag sub)) := by
  rw [memberLoop, groupLoop, if_neg (not_not.mpr h), htag]
  dsimp only
  rw [if_neg hfirst, if_neg (not_not.mpr htags), hnested]
  dsimp only
  cases atoi? value with
  | none => rfl
  | some subCount =>
    dsimp only
    have hsub : (if subCount = 0 then .ok (pairs, [])
        else groupLoop s ((t, value) :: pairs).length (s.groupSpec ref) subCount pairs [] none)
        = parseGroup s (s.groupSpec ref) subCount pairs := by
      unfold parseGroup
      split
      · rfl
      · rfl
    rw [hsub]
    cases hr : parseGroup s (s.groupSpec ref) subCount pairs with
    | error e => rfl
    | ok r =>
      have hle := length_parseGroup_le s hr
      exact groupLoop_fuel s (by rw [List.length_cons]; omega) (Nat.lt_succ_self _) _ _

/-- What a nested group does that is accepted. -/
theorem memberLoop_nested_ok {cur : FixFragment} {ref : GroupRef}
    (h : (members.length : ℤ) < count) (htag : atoi? t = some tag) (hfirst : tag ≠ grp.firstTag)
    (htags : tag ∈ grp.tags) (hnested : Assoc.find? tag grp.nestedGroups = some ref)
    {r : List Pair × List FixFragment}
    (hok : memberLoop s grp count ((t, value) :: pairs) members (some cur) = .ok r) :
    ∃ n rest sub, atoi? value = some n ∧ parseGroup s (s.groupSpec ref) n pairs = .ok (rest, sub)
      ∧ memberLoop s grp count rest members
        (some (cur.setGroup tag tag (s.groupSpec ref).firstTag sub)) = .ok r := by
  rw [memberLoop_nested h htag hfirst htags hnested] at hok
  exact exists_group_of_ok s hok

end Passes

/-! ## The dispatch loop -/

variable (msgSpec : MessageSpec)

theorem dispatchLoop_fuel {fuel fuel' : ℕ} {pairs : List Pair} (hf : pairs.length ≤ fuel)
    (hf' : pairs.length ≤ fuel') (msg : FixFragment) :
    dispatchLoop s msgSpec fuel msg pairs = dispatchLoop s msgSpec fuel' msg pairs := by
  induction fuel generalizing fuel' pairs msg with
  | zero =>
    rw [List.length_eq_zero_iff.mp (Nat.le_zero.mp hf)]
    cases fuel' <;> rfl
  | succ fuel ih =>
    cases pairs with
    | nil => cases fuel' <;> rfl
    | cons p pairs =>
      obtain ⟨t, value⟩ := p
      rw [List.length_cons] at hf hf'
      obtain ⟨fuel', rfl⟩ : ∃ k, fuel' = k + 1 := ⟨fuel' - 1, by omega⟩
      rw [dispatchLoop, dispatchLoop]
      split
      · exact ih (by omega) (by omega) _
      split
      · exact ih (by omega) (by omega) _
      split
      · rfl
      split
      · rfl
      next hr =>
        have hle := length_parseGroup_le s hr
        exact ih (by omega) (by omega) _

/-- The dispatch loop of `Parse` with enough fuel. -/
def dispatchPairs (msg : FixFragment) (pairs : List Pair) : Except ParseError FixFragment :=
  dispatchLoop s msgSpec pairs.length msg pairs

variable {s msgSpec} {t value : Bytes} {tag : ℤ}

/-- A tag that is not an integer is skipped. -/
theorem dispatchPairs_skip (htag : atoi? t = none) (msg : FixFragment) (pairs : List Pair) :
    dispatchPairs s msgSpec msg ((t, value) :: pairs) = dispatchPairs s msgSpec msg pairs := by
  rw [dispatchPairs, List.length_cons, dispatchLoop, htag]
  rfl

/-- A plain field is set. -/
theorem dispatchPairs_plain (htag : atoi? t = some tag)
    (hplain : Assoc.find? tag msgSpec.groups = none) (msg : FixFragment) (pairs : List Pair) :
    dispatchPairs s msgSpec msg ((t, value) :: pairs)
      = dispatchPairs s msgSpec (msg.set tag value) pairs := by
  rw [dispatchPairs, List.length_cons, dispatchLoop, htag]
  dsimp only
  rw [hplain]
  rfl

/-- A count field is followed by the group. -/
theorem dispatchPairs_group {ref : GroupRef} (htag : atoi? t = some tag)
    (hgroup : Assoc.find? tag msgSpec.groups = some ref) (msg : FixFragment) (pairs : List Pair) :
    dispatchPairs s msgSpec msg ((t, value) :: pairs)
      = match atoi? value with
        | none => .error (.groupCount tag)
        | some count =>
            match parseGroup s (s.groupSpec ref) count pairs with
            | .error e => .error e
            | .ok (rest, members) =>
                dispatchPairs s msgSpec
                  (msg.setGroup tag tag (s.groupSpec ref).firstTag members) rest := by
  rw [dispatchPairs, List.length_cons, dispatchLoop, htag]
  dsimp only
  rw [hgroup]
  dsimp only
  cases atoi? value with
  | none => rfl
  | some count =>
    dsimp only
    cases hr : parseGroup s (s.groupSpec ref) count pairs with
    | error e => rfl
    | ok r => exact dispatchLoop_fuel s msgSpec (length_parseGroup_le s hr) (Nat.le_refl _) _

/-- What a group does that is accepted. -/
theorem dispatchPairs_group_ok {ref : GroupRef} (htag : atoi? t = some tag)
    (hgroup : Assoc.find? tag msgSpec.groups = some ref) {msg g : FixFragment} {pairs : List Pair}
    (hok : dispatchPairs s msgSpec msg ((t, value) :: pairs) = .ok g) :
    ∃ n rest members, atoi? value = some n
      ∧ parseGroup s (s.groupSpec ref) n pairs = .ok (rest, members)
      ∧ dispatchPairs s msgSpec (msg.setGroup tag tag (s.groupSpec ref).firstTag members) rest
        = .ok g := by
  rw [dispatchPairs_group htag hgroup] at hok
  exact exists_group_of_ok s hok

end FixMsg
