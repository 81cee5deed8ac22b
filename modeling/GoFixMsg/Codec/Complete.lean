import GoFixMsg.Codec.Flat
import GoFixMsg.Codec.Forest

/-!
# Codec/Complete — what the parser is sure to read back

A forest `Encodes` a message when every group is written as its exact count followed by members that
begin with FirstTag and go on with tags of the group, and when none of these tags is present at a
level around it — so that the first field behind a group cannot be taken for one of its own.  On the
fields of such a forest the parser succeeds, and yields the collapse of the forest
(`dispatchPairs_complete`), whatever the order of the fields within a member.

The parser is greedy: a group goes on as long as the next tag may belong to it.  So an encoding must
not have such a tag behind a group, and the condition is on the tags of the levels around, which are
what may follow.  The proof goes by induction over the forest, from the members of the innermost
groups out.
-/

open GoLang

namespace FixMsg

/-- The tags that `parseGroup` takes for fields of a member; a dictionary may leave FirstTag out of
the group's Tags. -/
def GroupSpec.memberTags (grp : GroupSpec) : List ℤ :=
  grp.firstTag :: grp.tags

namespace Forest

/-- A member of a group on the wire: FirstTag, then other tags of the group. -/
def Delimited (grp : GroupSpec) (m : Forest) : Prop :=
  ∃ v rest, m = (grp.firstTag, .leaf v) :: rest ∧ IsInt64 grp.firstTag
    ∧ ∀ e ∈ rest, e.1 ∈ grp.tags ∧ e.1 ≠ grp.firstTag

/-- **A forest that encodes a message**, given the tags present at its own and the enclosing
levels. -/
inductive Encodes (s : FixSpec) : List (ℤ × GroupRef) → List ℤ → Forest → Prop
  | nil {groups : List (ℤ × GroupRef)} {present : List ℤ} : Encodes s groups present []
  | leaf {groups : List (ℤ × GroupRef)} {present : List ℤ} {t : ℤ} {v : Bytes} {F : Forest}
      (ht : t ∈ present ∧ IsInt64 t) (hplain : Assoc.find? t groups = none)
      (hF : Encodes s groups present F) : Encodes s groups present ((t, .leaf v) :: F)
  | group {groups : List (ℤ × GroupRef)} {present : List ℤ} {t : ℤ} {ref : GroupRef}
      {ms : List Forest} {F : Forest} (ht : t ∈ present ∧ IsInt64 t)
      (hgroup : Assoc.find? t groups = some ref)
      (hapart : ms ≠ [] → ∀ u ∈ (s.groupSpec ref).memberTags, u ∉ present)
      (hcount : ms.length < 2 ^ 63)
      (hstart : ∀ m ∈ ms, Delimited (s.groupSpec ref) m)
      (hms : ∀ m ∈ ms, Encodes s (s.groupSpec ref).nestedGroups (m.tags ++ present) m.tail)
      (hF : Encodes s groups present F) :
      Encodes s groups present
        ((t, .group (itoa ms.length) (s.groupSpec ref).firstTag ms) :: F)

variable {s : FixSpec}

theorem Encodes.append {groups : List (ℤ × GroupRef)} {present : List ℤ} {F G : Forest}
    (hF : Encodes s groups present F) (hG : Encodes s groups present G) :
    Encodes s groups present (F ++ G) := by
  induction hF with
  | nil => exact hG
  | leaf ht hplain _ ih => exact .leaf ht hplain (ih hG)
  | group ht hgroup hapart hcount hstart hms _ _ ih =>
    exact .group ht hgroup hapart hcount hstart hms (ih hG)

/-- Only which tags are present matters. -/
theorem Encodes.congr {groups : List (ℤ × GroupRef)} {present present' : List ℤ} {F : Forest}
    (hF : Encodes s groups present F) (h : ∀ u, u ∈ present ↔ u ∈ present') :
    Encodes s groups present' F := by
  induction hF generalizing present' with
  | nil => exact .nil
  | leaf ht hplain _ ih => exact .leaf ⟨(h _).mp ht.1, ht.2⟩ hplain (ih h)
  | group ht hgroup hapart hcount hstart hms _ ihms ih =>
    refine .group ⟨(h _).mp ht.1, ht.2⟩ hgroup
      (fun hne u hu hmem => hapart hne u hu ((h u).mpr hmem)) hcount hstart
      (fun m hm => ihms m hm fun u => ?_) (ih h)
    rw [List.mem_append, List.mem_append, h u]

/-- The pairs begin with a tag that is present around the group, or there are none. -/
def Follows (present : List ℤ) (pairs : List Pair) : Prop :=
  ∀ p ∈ pairs.head?, ∃ u ∈ present, atoi? p.1 = some u

theorem Follows.mono {present present' : List ℤ} {pairs : List Pair} (h : Follows present pairs)
    (hsub : ∀ u ∈ present, u ∈ present') : Follows present' pairs := fun p hp =>
  (h p hp).imp fun u hu => ⟨hsub u hu.1, hu.2⟩

theorem follows_cons {present : List ℤ} {t : ℤ} (ht : t ∈ present ∧ IsInt64 t) (v : Bytes)
    (pairs : List Pair) : Follows present (tagText (t, v) :: pairs) := by
  intro p hp
  rw [List.head?_cons, Option.mem_some_iff] at hp
  subst hp
  exact ⟨t, ht.1, atoi?_itoa ht.2⟩

/-- What comes behind the fields of an encoding is behind it, or its own first tag. -/
theorem Encodes.follows {groups : List (ℤ × GroupRef)} {present : List ℤ} {F : Forest}
    (hF : Encodes s groups present F) {rest : List Pair} (hrest : Follows present rest) :
    Follows present ((flatten F).map tagText ++ rest) := by
  cases hF with
  | nil => exact hrest
  | leaf ht => exact follows_cons ht _ _
  | group ht => exact follows_cons ht _ _

/-- What the open member of a group becomes when the fields of a forest are read into it. -/
def ReadsInto (s : FixSpec) (groups : List (ℤ × GroupRef)) (present : List ℤ) (F : Forest) : Prop :=
  ∀ (grp : GroupSpec) (count : ℤ) (rest : List Pair) (members : List FixFragment)
    (cur : FixFragment), grp.nestedGroups = groups →
    (∀ e ∈ F, e.1 ∈ grp.tags ∧ e.1 ≠ grp.firstTag) → (members.length : ℤ) < count →
    Follows present rest →
    memberLoop s grp count ((flatten F).map tagText ++ rest) members (some cur)
      = memberLoop s grp count rest members (some (collapseOn F cur))

/-- **The members of a group are read one after the other**, if the fields of each are.  Behind a
member comes the FirstTag of the next one, or what follows the group. -/
theorem memberLoop_members {grp : GroupSpec} {present : List ℤ} {ms : List Forest} {rest : List Pair}
    (hstart : ∀ m ∈ ms, Delimited grp m)
    (hread : ∀ m ∈ ms, ReadsInto s grp.nestedGroups (m.tags ++ present) m.tail)
    (hapart : ∀ u ∈ grp.memberTags, u ∉ present) (hrest : Follows present rest) {count : ℤ}
    {members : List FixFragment} {current : Option FixFragment}
    (hcount : count = members.length + current.toList.length + ms.length) :
    memberLoop s grp count ((membersFields ms).map tagText ++ rest) members current
      = .ok (rest, members ++ current.toList ++ ms.map collapse) := by
  induction ms generalizing members current with
  | nil =>
    rw [membersFields, List.map_nil, List.map_nil, List.nil_append, List.append_nil]
    cases rest with
    | nil => rw [memberLoop_nil]
    | cons p rest =>
      obtain ⟨u, hu, hatoi⟩ := hrest p rfl
      refine memberLoop_stop fun tag htag => ?_
      rw [hatoi] at htag
      cases htag
      exact ⟨fun h => hapart _ List.mem_cons_self (h ▸ hu),
        fun h => hapart u (List.mem_cons_of_mem _ h) hu⟩
  | cons m ms ih =>
    have hms : ∀ m ∈ ms, Delimited grp m := fun m' hm' => hstart m' (List.mem_cons_of_mem _ hm')
    obtain ⟨v, tail, rfl, hint, htail⟩ := hstart m List.mem_cons_self
    have hpairs : (membersFields (((grp.firstTag, Item.leaf v) :: tail) :: ms)).map tagText ++ rest
        = tagText (grp.firstTag, v)
          :: ((flatten tail).map tagText ++ ((membersFields ms).map tagText ++ rest)) := by
      simp [membersFields, flatten, itemFields]
    rw [List.length_cons] at hcount
    have hfollow : Follows (tags ((grp.firstTag, Item.leaf v) :: tail) ++ present)
        ((membersFields ms).map tagText ++ rest) := by
      cases ms with
      | nil => exact hrest.mono fun u hu => List.mem_append_right _ hu
      | cons m' ms =>
        obtain ⟨v', tail', rfl, -⟩ := hms m' List.mem_cons_self
        exact follows_cons ⟨List.mem_append_left _ List.mem_cons_self, hint⟩ _ _
    have hinto := hread _ List.mem_cons_self grp count _ (members ++ current.toList)
      (FixFragment.set [] grp.firstTag v) rfl htail (by rw [List.length_append]; omega) hfollow
    rw [hpairs, tagText, memberLoop_first (by omega) (atoi?_itoa hint) rfl]
    rw [List.tail_cons] at hinto
    rw [hinto, ih hms (fun m' hm' => hread m' (List.mem_cons_of_mem _ hm')) (by
      rw [Option.toList_some, List.length_singleton, List.length_append]
      omega)]
    simp [collapse, collapseOn, itemValue, FixFragment.set]

/-- **A group is read back whole**, and nothing behind it. -/
theorem parseGroup_complete {grp : GroupSpec} {present : List ℤ} {ms : List Forest}
    {rest : List Pair} (hstart : ∀ m ∈ ms, Delimited grp m)
    (hread : ∀ m ∈ ms, ReadsInto s grp.nestedGroups (m.tags ++ present) m.tail)
    (hapart : ms ≠ [] → ∀ u ∈ grp.memberTags, u ∉ present) (hrest : Follows present rest) :
    parseGroup s grp ms.length ((membersFields ms).map tagText ++ rest)
      = .ok (rest, ms.map collapse) := by
  cases ms with
  | nil => rfl
  | cons m ms =>
    rw [parseGroup_of_ne_zero s grp (by rw [List.length_cons]; omega)]
    exact memberLoop_members hstart hread (hapart (List.cons_ne_nil m ms)) hrest (by simp)

/-- **The fields of an encoding are read into the open member.** -/
theorem Encodes.readsInto {groups : List (ℤ × GroupRef)} {present : List ℤ} {F : Forest}
    (hF : Encodes s groups present F) : ReadsInto s groups present F := by
  induction hF with
  | nil => exact fun _ _ _ _ _ _ _ _ _ => rfl
  | @leaf groups present t v F ht hplain hF ih =>
    intro grp count rest members cur hgroups htags hcount hrest
    obtain ⟨hmem, hne⟩ := htags _ List.mem_cons_self
    have hpairs : (flatten ((t, Item.leaf v) :: F)).map tagText ++ rest
        = tagText (t, v) :: ((flatten F).map tagText ++ rest) := by
      simp [flatten, itemFields]
    rw [hpairs, tagText, memberLoop_plain hcount (atoi?_itoa ht.2) hne hmem (hgroups ▸ hplain),
      ih grp count rest members _ hgroups (fun e he => htags e (List.mem_cons_of_mem _ he)) hcount
        hrest]
    rfl
  | @group groups present t ref ms F ht hgroup hapart hlen hstart hms hF ihms ih =>
    intro grp count rest members cur hgroups htags hcount hrest
    obtain ⟨hmem, hne⟩ := htags _ List.mem_cons_self
    have hpairs : (flatten ((t, Item.group (itoa ms.length) (s.groupSpec ref).firstTag ms)
          :: F)).map tagText ++ rest
        = tagText (t, itoa ms.length)
          :: ((membersFields ms).map tagText ++ ((flatten F).map tagText ++ rest)) := by
      simp [flatten, itemFields]
    rw [hpairs, tagText, memberLoop_nested hcount (atoi?_itoa ht.2) hne hmem (hgroups ▸ hgroup),
      atoi?_itoa ⟨by omega, by omega⟩]
    dsimp only
    rw [parseGroup_complete hstart ihms hapart (hF.follows hrest)]
    dsimp only
    rw [ih grp count rest members _ hgroups (fun e he => htags e (List.mem_cons_of_mem _ he)) hcount
        hrest, collapseOn, itemValue, collapseMembers_eq]
    rfl

/-- **Completeness of the parser**: the fields of an encoding are read back as its collapse. -/
theorem dispatchPairs_complete {msgSpec : MessageSpec} {groups : List (ℤ × GroupRef)}
    {present : List ℤ} {F : Forest} (hF : Encodes s groups present F)
    (hgroups : groups = msgSpec.groups) (msg : FixFragment) :
    dispatchPairs s msgSpec msg ((flatten F).map tagText) = .ok (collapseOn F msg) := by
  induction hF generalizing msg with
  | nil => rfl
  | @leaf groups present t v F ht hplain hF ih =>
    rw [flatten, itemFields, List.singleton_append, List.map_cons, tagText,
      dispatchPairs_plain (atoi?_itoa ht.2) (hgroups ▸ hplain), ih hgroups]
    rfl
  | @group groups present t ref ms F ht hgroup hapart hlen hstart hms hF ihms ih =>
    have hpairs : (flatten ((t, Item.group (itoa ms.length) (s.groupSpec ref).firstTag ms)
          :: F)).map tagText
        = tagText (t, itoa ms.length)
          :: ((membersFields ms).map tagText ++ (flatten F).map tagText) := by
      simp [flatten, itemFields]
    have hfollow : Follows present ((flatten F).map tagText) := by
      have hnil : Follows present [] := by
        intro p hp
        cases hp
      have h := hF.follows hnil
      rwa [List.append_nil] at h
    rw [hpairs, tagText, dispatchPairs_group (atoi?_itoa ht.2) (hgroups ▸ hgroup),
      atoi?_itoa ⟨by omega, by omega⟩]
    dsimp only
    rw [parseGroup_complete hstart (fun m hm => (hms m hm).readsInto) hapart hfollow]
    dsimp only
    rw [ih hgroups, collapseOn, itemValue, collapseMembers_eq]
    rfl

end Forest

end FixMsg
