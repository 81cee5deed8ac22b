import GoFixMsg.Codec.Canonical
import GoFixMsg.Codec.GroupRun

/-!
# Codec/Conservation — the parser ends, and accounts for every pair

The recursion of `parseGroup` follows the dictionary, which may refer back to itself; what bounds it
is the offset, which every pass and every nested group move on.  So more fuel than pairs left is
enough (`groupLoop_ends`), and the loop at an offset is the loop over the pairs behind it
(`parseGroupAt_eq`).

What has been read is a forest, and each of its items is in the fragment unless a later one of the
same tag took its place (`conserves_collapse`).  As the forest flattens to the pairs read, no pair
is lost otherwise (`parser_conserves`).
-/

open GoLang

namespace FixMsg

open Forest (collapse collapseOn collapseMembers flatten membersFields fieldOf itemValue)

/-! ## The group loop at an offset

The source passes an offset into the pairs down the recursion and gets one back.  Here the two forms
are compared step by step: behind an offset stands a list of pairs, and what a loop leaves of it is
again the list behind an offset. -/

/-- The loop of `parseGroup` at an offset into the pairs.  `fuel` bounds the passes and the nested
calls that lead to one another. -/
def groupLoopAt (s : FixSpec) (pairs : List Pair) :
    ℕ → GroupSpec → ℤ → ℕ → List FixFragment → Option FixFragment →
      Except ParseError (ℕ × List FixFragment)
  | 0, _, _, _, _, _ => .error .outOfFuel
  | fuel + 1, grp, count, offset, members, current =>
      match pairs[offset]? with
      | none => .ok (offset, members ++ current.toList)
      | some (t, value) =>
          if ¬ (members.length : ℤ) < count then .ok (offset, members ++ current.toList)
          else
            match atoi? t with
            | none => .ok (offset, members ++ current.toList)
            | some tag =>
                if tag = grp.firstTag then
                  groupLoopAt s pairs fuel grp count (offset + 1) (members ++ current.toList)
                    (some (FixFragment.set [] tag value))
                else
                  match current with
                  | none => .ok (offset, members)
                  | some cur =>
                      if tag ∉ grp.tags then .ok (offset, members ++ [cur])
                      else
                        match Assoc.find? tag grp.nestedGroups with
                        | none =>
                            groupLoopAt s pairs fuel grp count (offset + 1) members
                              (some (cur.set tag value))
                        | some ref =>
                            match atoi? value with
                            | none => .error (.subGroupCount tag)
                            | some subCount =>
                                match
                                  if subCount = 0 then .ok (offset + 1, [])
                                  else
                                    groupLoopAt s pairs fuel (s.groupSpec ref) subCount (offset + 1)
                                      [] none
                                with
                                | .error e => .error e
                                | .ok (offset', sub) =>
                                    groupLoopAt s pairs fuel grp count offset' members
                                      (some (cur.setGroup tag tag (s.groupSpec ref).firstTag sub))

/-- `parseGroup` at an offset into the pairs: the offset it returns, and the members. -/
def parseGroupAt (s : FixSpec) (pairs : List Pair) (fuel : ℕ) (grp : GroupSpec) (count : ℤ)
    (offset : ℕ) : Except ParseError (ℕ × List FixFragment) :=
  if count = 0 then .ok (offset, []) else groupLoopAt s pairs fuel grp count offset [] none

/-- What is left of the pairs, as an offset. -/
def leftAt (pairs : List Pair) (r : List Pair × List FixFragment) : ℕ × List FixFragment :=
  (pairs.length - r.1.length, r.2)

theorem leftAt_drop {pairs : List Pair} {offset : ℕ} (h : offset ≤ pairs.length)
    (members : List FixFragment) :
    leftAt pairs (pairs.drop offset, members) = (offset, members) := by
  rw [leftAt, List.length_drop, Nat.sub_sub_self h]

/-- The end of the pairs is what stands behind its offset. -/
theorem drop_leftAt {pairs rest : List Pair} {offset : ℕ} (h : rest <:+ pairs.drop offset) :
    pairs.drop (pairs.length - rest.length) = rest :=
  (List.suffix_iff_eq_drop.mp (h.trans (List.drop_suffix _ _))).symm

/-- Going on behind a nested group, at its offset or with the pairs it leaves. -/
theorem goOn_leftAt {pairs : List Pair} {r : Except ParseError (List Pair × List FixFragment)}
    {goOn : List Pair → List FixFragment → Except ParseError (List Pair × List FixFragment)}
    {goOnAt : ℕ → List FixFragment → Except ParseError (ℕ × List FixFragment)}
    (h : ∀ rest sub, r = .ok (rest, sub) →
      goOnAt (pairs.length - rest.length) sub = (goOn rest sub).map (leftAt pairs)) :
    (match r.map (leftAt pairs) with
      | .error e => Except.error e
      | .ok (offset', sub) => goOnAt offset' sub)
      = (match r with
        | .error e => Except.error e
        | .ok (rest, sub) => goOn rest sub).map (leftAt pairs) := by
  cases r with
  | error e => rfl
  | ok r => exact h r.1 r.2 rfl

variable (s : FixSpec)

/-- **The loop at an offset is the loop over the pairs behind it.** -/
theorem groupLoopAt_eq {pairs : List Pair} (fuel : ℕ) (grp : GroupSpec) (count : ℤ) {offset : ℕ}
    (hle : offset ≤ pairs.length) (members : List FixFragment) (current : Option FixFragment) :
    groupLoopAt s pairs fuel grp count offset members current
      = (groupLoop s fuel grp count (pairs.drop offset) members current).map (leftAt pairs) := by
  induction fuel generalizing grp count offset members current with
  | zero => rfl
  | succ fuel ih =>
    have hstop : ∀ ms, (Except.ok (pairs.drop offset, ms) : Except ParseError _).map (leftAt pairs)
        = .ok (offset, ms) := fun ms => by rw [Except.map, leftAt_drop hle]
    rw [groupLoopAt]
    cases hp : pairs[offset]? with
    | none =>
      have hend : pairs.drop offset = [] :=
        List.drop_eq_nil_of_le (List.getElem?_eq_none_iff.mp hp)
      rw [hend] at hstop ⊢
      exact (hstop _).symm
    | some p =>
      obtain ⟨t, value⟩ := p
      obtain ⟨hlt, hget⟩ := List.getElem?_eq_some_iff.mp hp
      have hdrop : pairs.drop offset = (t, value) :: pairs.drop (offset + 1) := by
        rw [List.drop_eq_getElem_cons hlt, hget]
      rw [hdrop] at hstop ⊢
      rw [groupLoop]
      dsimp only
      split
      · exact (hstop _).symm
      cases atoi? t with
      | none => exact (hstop _).symm
      | some tag =>
        dsimp only
        split
        · exact ih _ _ hlt _ _
        cases current with
        | none => exact (hstop _).symm
        | some cur =>
          dsimp only
          split
          · exact (hstop _).symm
          cases Assoc.find? tag grp.nestedGroups with
          | none => exact ih _ _ hlt _ _
          | some ref =>
            dsimp only
            cases atoi? value with
            | none => rfl
            | some subCount =>
              dsimp only
              have hsub : (if subCount = 0 then .ok (offset + 1, [])
                  else groupLoopAt s pairs fuel (s.groupSpec ref) subCount (offset + 1) [] none)
                  = (if subCount = 0 then .ok (pairs.drop (offset + 1), [])
                    else groupLoop s fuel (s.groupSpec ref) subCount (pairs.drop (offset + 1)) []
                      none).map (leftAt pairs) := by
                split
                · rw [Except.map, leftAt_drop hlt]
                · exact ih _ _ hlt _ _
              rw [hsub]
              refine goOn_leftAt fun rest sub hr => ?_
              have hgoOn := ih grp count (Nat.sub_le pairs.length rest.length) members
                (some (cur.setGroup tag tag (s.groupSpec ref).firstTag sub))
              rwa [drop_leftAt (nestedGroup_suffix s hr)] at hgoOn

theorem parseGroupAt_eq {pairs : List Pair} {fuel : ℕ} {offset : ℕ} (hle : offset ≤ pairs.length)
    (hfuel : pairs.length - offset < fuel) (grp : GroupSpec) (count : ℤ) :
    parseGroupAt s pairs fuel grp count offset
      = (parseGroup s grp count (pairs.drop offset)).map (leftAt pairs) := by
  have hlen : (pairs.drop offset).length < fuel := by rwa [List.length_drop]
  unfold parseGroupAt parseGroup
  split
  · rw [Except.map, leftAt_drop hle]
  · rw [groupLoopAt_eq s fuel grp count hle, groupLoop_fuel s hlen (Nat.lt_succ_self _)]

/-! ## The parser ends

Each pass of the loop takes a pair, and a nested group at least does not give any back.  So the
number of pairs is fuel enough, whatever the dictionary refers to. -/

/-- **The group loop ends**: more fuel than pairs does not run out.  What a nested group leaves is
not longer than what it was given. -/
theorem groupLoop_ends {fuel : ℕ} {grp : GroupSpec} {count : ℤ} {pairs : List Pair}
    (hf : pairs.length < fuel) (members : List FixFragment) (current : Option FixFragment) :
    groupLoop s fuel grp count pairs members current ≠ .error .outOfFuel := by
  induction fuel generalizing grp count pairs members current with
  | zero => exact absurd hf (Nat.not_lt_zero _)
  | succ fuel ih =>
    cases pairs with
    | nil => simp [groupLoop]
    | cons p pairs =>
      obtain ⟨t, value⟩ := p
      have hlt : pairs.length < fuel := by
        rw [List.length_cons] at hf
        omega
      rw [groupLoop]
      split
      · simp
      split
      · simp
      split
      · exact ih hlt _ _
      split
      · simp
      split
      · simp
      split
      · exact ih hlt _ _
      split
      · simp
      split
      · next hsub =>
        intro he
        cases he
        split at hsub
        · cases hsub
        · exact ih hlt _ _ hsub
      · next hsub =>
        have hle := (nestedGroup_suffix s hsub).length_le
        exact ih (by omega) _ _

theorem parseGroup_ends (grp : GroupSpec) (count : ℤ) (pairs : List Pair) :
    parseGroup s grp count pairs ≠ .error .outOfFuel := by
  unfold parseGroup
  split
  · simp
  · exact groupLoop_ends s (Nat.lt_succ_self _) _ _

theorem dispatchLoop_ends (msgSpec : MessageSpec) {fuel : ℕ} {pairs : List Pair}
    (hf : pairs.length ≤ fuel) (msg : FixFragment) :
    dispatchLoop s msgSpec fuel msg pairs ≠ .error .outOfFuel := by
  induction fuel generalizing pairs msg with
  | zero =>
    rw [List.length_eq_zero_iff.mp (Nat.le_zero.mp hf)]
    simp [dispatchLoop]
  | succ fuel ih =>
    cases pairs with
    | nil => simp [dispatchLoop]
    | cons p pairs =>
      obtain ⟨t, value⟩ := p
      rw [List.length_cons] at hf
      rw [dispatchLoop]
      split
      · exact ih (by omega) _
      split
      · exact ih (by omega) _
      split
      · simp
      split
      · next hr =>
        intro he
        cases he
        exact parseGroup_ends s _ _ _ hr
      · next hr =>
        have hle := length_parseGroup_le s hr
        exact ih (by omega) _

theorem tokeniseFields_ends (fields : List Bytes) :
    tokeniseFields fields ≠ .error .outOfFuel := by
  induction fields with
  | nil => simp [tokeniseFields]
  | cons field fields ih =>
    rw [tokeniseFields]
    split
    · exact ih
    split
    · simp
    split
    · next hr =>
      intro he
      cases he
      exact ih hr
    · simp

/-- **`Parse` ends on every buffer.** -/
theorem Codec.parse_ends (c : Codec) (buf : Bytes) : c.parse buf ≠ .error .outOfFuel := by
  unfold Codec.parse
  split
  · next hr =>
    intro he
    cases he
    exact tokeniseFields_ends _ hr
  · rw [Codec.parsePairs_eq]
    split
    · simp
    · exact dispatchLoop_ends _ _ (Nat.le_refl _) _

/-! ## What a fragment keeps of a forest

A map has one value for a tag, and the last one set stays.  `Conserves` says it in both directions:
every item that is not replaced is there, and there is nothing else. -/

mutual

/-- An item is kept in a value: a field with its value, a count field as a group, with what is kept
of the members. -/
def ItemKept (tag : ℤ) : Item → Value → Prop
  | .leaf v, w => w = .str v
  | .group _ k ms, w => ∃ members, w = .group tag k members ∧ MembersKept ms members

/-- The members are kept one by one, and have nothing else in them. -/
def MembersKept : List Forest → List FixFragment → Prop
  | [], members => members = []
  | m :: ms, members => ∃ f rest, members = f :: rest ∧ Kept m f
      ∧ (∀ t ∈ f.tags, t ∈ m.map Prod.fst) ∧ MembersKept ms rest

/-- **Every item of a forest is kept in the fragment, unless a later item of the forest has the same
tag.** -/
def Kept : Forest → FixFragment → Prop
  | [], _ => True
  | (t, i) :: F, f =>
      (t ∈ F.map Prod.fst ∨ ∃ v, Assoc.find? t f = some v ∧ ItemKept t i v) ∧ Kept F f

end

/-- A fragment keeps the items of a forest, and has nothing else in it. -/
def Conserves (F : Forest) (f : FixFragment) : Prop := Kept F f ∧ ∀ t ∈ f.tags, t ∈ F.tags

theorem membersKept_map {ms : List Forest} (h : ∀ m ∈ ms, Conserves m (collapse m)) :
    MembersKept ms (ms.map collapse) := by
  induction ms with
  | nil => exact List.map_nil
  | cons m ms ih =>
    obtain ⟨hkept, htags⟩ := h m List.mem_cons_self
    exact ⟨collapse m, ms.map collapse, List.map_cons, hkept, htags,
      ih fun m' hm' => h m' (List.mem_cons_of_mem _ hm')⟩

/-- Setting the items one after the other keeps those whose tag does not come again. -/
theorem kept_collapseOn {F : Forest} (h : ∀ e ∈ F, ItemKept e.1 e.2 (itemValue e.1 e.2))
    (f : FixFragment) : Kept F (collapseOn F f) := by
  induction F generalizing f with
  | nil => trivial
  | cons e F ih =>
    obtain ⟨t, i⟩ := e
    refine ⟨?_, ih (fun e he => h e (List.mem_cons_of_mem _ he)) _⟩
    by_cases ht : t ∈ F.map Prod.fst
    · exact .inl ht
    · refine .inr ⟨itemValue t i, ?_, h (t, i) List.mem_cons_self⟩
      rw [collapseOn, Forest.find?_collapseOn_of_notMem ht, Assoc.find?_insert_self]

/-- **What the parser makes of a forest keeps it.** -/
theorem conserves_collapse (F : Forest) : Conserves F (collapse F) := by
  induction F using Forest.induction with
  | step F ih =>
    constructor
    · refine kept_collapseOn (fun e he => ?_) []
      obtain ⟨t, i⟩ := e
      cases i with
      | leaf v => rfl
      | group c k ms =>
        refine ⟨collapseMembers ms, rfl, ?_⟩
        rw [Forest.collapseMembers_eq]
        exact membersKept_map (ih t c k ms he)
    · intro t ht
      by_contra hnot
      refine Assoc.find?_eq_none_iff.mp ?_ ht
      rw [collapse, Forest.find?_collapseOn_of_notMem hnot]
      rfl

/-! ## Every pair is accounted for -/

/-- The pairs between two offsets are the fields of a group, and its members keep them. -/
def GroupConserves (pairs : List Pair) (offset offset' : ℕ) (members : List FixFragment) : Prop :=
  offset ≤ offset' ∧ offset' ≤ pairs.length ∧
    ∃ ms, ((pairs.drop offset).take (offset' - offset)).map fieldOf = (membersFields ms).map some
      ∧ MembersKept ms members

theorem parseGroup_conserves {grp : GroupSpec} {count : ℤ} {pairs rest : List Pair} {offset : ℕ}
    (hle : offset ≤ pairs.length) {out : List FixFragment}
    (h : parseGroup s grp count (pairs.drop offset) = .ok (rest, out)) :
    GroupConserves pairs offset (pairs.length - rest.length) out := by
  obtain ⟨ms, used, rfl, -, hused, hread⟩ := parseGroup_sound h
  have hlen : pairs.length - offset = used.length + rest.length := by
    rw [← List.length_drop, hused, List.length_append]
  refine ⟨by omega, Nat.sub_le _ _, ms, ?_, membersKept_map fun m _ => conserves_collapse m⟩
  rw [List.map_nil, List.nil_append] at hread
  have htake : pairs.length - rest.length - offset = used.length := by omega
  rw [hused, htake, List.take_left, hread]

/-- The fields of a buffer that is accepted. -/
theorem Codec.parse_conserves {c : Codec} {buf : Bytes} {g : FixFragment}
    (h : c.parse buf = .ok g) :
    ∃ pairs F, tokenise c.sep buf = .ok pairs ∧ pairs.filterMap fieldOf = flatten F
      ∧ Conserves F g := by
  obtain ⟨G, hread, rfl⟩ := Codec.parse_iff_readAs.mp h
  obtain ⟨pairs, hpairs, hflat⟩ := hread.reads
  exact ⟨pairs, G, hpairs, hflat.symm, conserves_collapse G⟩

/-- **The parser ends, and no pair is lost.**  For every dictionary, `parseGroup` ends from every
offset; where it returns without an error, the offset has moved within the pairs, and the pairs
in between are the fields of the members, in order, each kept unless a later one with its tag in the
same fragment took its place.  So it is with the fields of every buffer that `Parse` accepts. -/
theorem parser_conserves :
    (∀ (s : FixSpec) (grp : GroupSpec) (pairs : List Pair) (count : ℤ) (offset : ℕ),
      offset ≤ pairs.length →
        ∃ r, r ≠ .error .outOfFuel
          ∧ (∀ fuel, pairs.length - offset < fuel →
            parseGroupAt s pairs fuel grp count offset = r)
          ∧ ∀ offset' members, r = .ok (offset', members) →
            GroupConserves pairs offset offset' members)
      ∧ ∀ (c : Codec) (buf : Bytes), c.parse buf ≠ .error .outOfFuel
        ∧ ∀ g, c.parse buf = .ok g →
          ∃ pairs F, tokenise c.sep buf = .ok pairs ∧ pairs.filterMap fieldOf = flatten F
            ∧ Conserves F g := by
  constructor
  · intro s grp pairs count offset hle
    refine ⟨(parseGroup s grp count (pairs.drop offset)).map (leftAt pairs), ?_, ?_, ?_⟩
    · have hends := parseGroup_ends s grp count (pairs.drop offset)
      cases hr : parseGroup s grp count (pairs.drop offset) with
      | error e =>
        intro he
        cases he
        exact hends hr
      | ok r => simp [Except.map]
    · intro fuel hfuel
      exact parseGroupAt_eq s hle hfuel grp count
    · intro offset' members hr
      cases hgroup : parseGroup s grp count (pairs.drop offset) with
      | error e => simp [hgroup, Except.map] at hr
      | ok r =>
        rw [hgroup] at hr
        cases hr
        exact parseGroup_conserves s hle hgroup
  · intro c buf
    exact ⟨c.parse_ends buf, fun g hg => Codec.parse_conserves hg⟩

/-- A dictionary whose party group contains itself. -/
def recursiveParties : FixSpec where
  messagesByType _ := none
  groupSpec _ := ⟨453, 448, [], [448, 452, 453], [(453, 0)]⟩

/-- A party with a sub-party that is given its role twice, and the trailer. -/
def partyPairs : List Pair :=
  [(ascii "448", ascii "A"), (ascii "453", ascii "1"), (ascii "448", ascii "B"),
    (ascii "452", ascii "1"), (ascii "452", ascii "2"), (ascii "10", ascii "000")]

theorem parser_conserves_partyPairs :
    GroupConserves partyPairs 0 5
      [[(448, .str (ascii "A")),
        (453, .group 453 448 [[(448, .str (ascii "B")), (452, .str (ascii "2"))]])]] := by
  obtain ⟨r, -, hfuel, hread⟩ :=
    parser_conserves.1 recursiveParties (recursiveParties.groupSpec 0) partyPairs 1 0 (by decide)
  refine hread 5 _ ?_
  rw [← hfuel 7 (by decide)]
  rfl

end FixMsg
