import GoFixMsg.Codec.Complete

/-!
# Codec/Canonical — the messages of a dictionary and their canonical forests

A message conforms to a dictionary when its groups are those of the dictionary and no tag of a group
is present at a level around it.  Where moreover FirstTag ranks first in every member, the fields
the serialiser writes are those of a forest that encodes the message (`exists_canonical`).

The serialiser knows nothing of the dictionary, and the parser recognises a member by its FirstTag
alone; the canonical forest is where the two meet.  It has an item for each field in the canonical
order, a leaf for a string and a group for a group, and its fields are those on the wire.
-/

open GoLang

namespace FixMsg

open Forest (Encodes Shaped Delimited StartsWith flatten collapse collapseOn itemFields itemValue
  membersFields)

/-! ## Messages of a dictionary

Conformity goes down the groups: the members of a group have tags of the group only, and a group
inside them is one the dictionary nests there.  The tags at the levels around are carried along,
since a parser that meets one of them behind a group takes the group to be over. -/

/-- **The groups of a fragment are those of the dictionary**, given the tags present at the
enclosing levels: each stands under a count tag, no plain string does, and its members hold FirstTag
as a plain string, only tags of the group, and none that is present at a level around them.  The
number of members is that of a Go slice. -/
inductive Conforms (s : FixSpec) : List (ℤ × GroupRef) → List ℤ → FixFragment → Prop
  | mk {groups : List (ℤ × GroupRef)} {enclosing : List ℤ} {f : FixFragment}
      (plain : ∀ t v, (t, Value.str v) ∈ f → Assoc.find? t groups = none)
      (known : ∀ t n k ms, (t, Value.group n k ms) ∈ f → ∃ ref, Assoc.find? t groups = some ref)
      (count : ∀ t n k ms, (t, Value.group n k ms) ∈ f → ms.length < 2 ^ 63)
      (apart : ∀ t n k ms ref, (t, Value.group n k ms) ∈ f → Assoc.find? t groups = some ref →
        ∀ u ∈ (s.groupSpec ref).tags, u ∉ f.tags ++ enclosing)
      (first : ∀ t n k ms ref, (t, Value.group n k ms) ∈ f → Assoc.find? t groups = some ref →
        ∀ m ∈ ms, ∃ v, FixFragment.get m (s.groupSpec ref).firstTag = some v)
      (members : ∀ t n k ms ref, (t, Value.group n k ms) ∈ f → Assoc.find? t groups = some ref →
        ∀ m ∈ ms, ∀ u ∈ FixFragment.tags m, u ∈ (s.groupSpec ref).tags)
      (nested : ∀ t n k ms ref, (t, Value.group n k ms) ∈ f → Assoc.find? t groups = some ref →
        ∀ m ∈ ms, Conforms s (s.groupSpec ref).nestedGroups (f.tags ++ enclosing) m) :
      Conforms s groups enclosing f

/-- **A message of the dictionary**, of the type that `msgSpec` describes. -/
structure ConformsTo (s : FixSpec) (msgSpec : MessageSpec) (m : FixMessage) : Prop where
  plain : m.fields.Plain
  tags : m.fields.AllTags InTagRange
  values : m.fields.AllStrings SohFree
  msgType : ∃ ty, m.fields.get tagMsgType = some ty ∧ s.messagesByType ty = some msgSpec
  groups : Conforms s msgSpec.groups [] m.fields

/-- **FirstTag ranks first in every member of every group**, at every depth. -/
inductive FirstTagFirst (s : FixSpec) : List (ℤ × GroupRef) → FixFragment → Prop
  | mk {groups : List (ℤ × GroupRef)} {f : FixFragment}
      (first : ∀ t n k ms ref, (t, Value.group n k ms) ∈ f → Assoc.find? t groups = some ref →
        ∀ m ∈ ms, ∀ u ∈ FixFragment.tags m,
          tagSortKey (s.groupSpec ref).firstTag ≤ tagSortKey u)
      (nested : ∀ t n k ms ref, (t, Value.group n k ms) ∈ f → Assoc.find? t groups = some ref →
        ∀ m ∈ ms, FirstTagFirst s (s.groupSpec ref).nestedGroups m) : FirstTagFirst s groups f

/-! ## The canonical order of a member -/

/-- Where a tag ranks first, the canonical order begins with it. -/
theorem canonicalTags_of_first {f : FixFragment} (htags : ∀ u ∈ f.tags, InTagRange u) {t : ℤ}
    (ht : t ∈ f.tags) (hfirst : ∀ u ∈ f.tags, tagSortKey t ≤ tagSortKey u) :
    ∃ rest, canonicalTags f = t :: rest := by
  cases hc : canonicalTags f with
  | nil =>
    have hmem := mem_canonicalTags.mpr ht
    rw [hc] at hmem
    cases hmem
  | cons u rest =>
    have hsorted := canonicalTags_sorted f
    have hu : u ∈ f.tags := mem_canonicalTags.mp (hc ▸ List.mem_cons_self)
    have ht' := mem_canonicalTags.mpr ht
    rw [hc] at hsorted ht'
    have hle : tagSortKey u ≤ tagSortKey t := by
      rcases List.mem_cons.mp ht' with rfl | ht'
      · exact le_refl _
      · exact (List.pairwise_cons.mp hsorted).1 t ht'
    rw [tagSortKey_injOn (htags t ht) (htags u hu) (le_antisymm (hfirst u hu) hle)]
    exact ⟨rest, rfl⟩

/-- And conversely. -/
theorem first_of_canonicalTags {f : FixFragment} {t : ℤ} {rest : List ℤ}
    (h : canonicalTags f = t :: rest) : ∀ u ∈ f.tags, tagSortKey t ≤ tagSortKey u := by
  intro u hu
  have hsorted := canonicalTags_sorted f
  have hu' := mem_canonicalTags.mpr hu
  rw [h] at hsorted hu'
  rcases List.mem_cons.mp hu' with rfl | hu'
  · exact le_refl _
  · exact (List.pairwise_cons.mp hsorted).1 u hu'

/-! ## The canonical forest

The forest is built from the fields in their order, and collapsing it gives the fragment again, up
to the tags that groups record: no tag comes twice at one level, so no item is lost. -/

namespace Forest

theorem find?_collapseOn_of_notMem {F : Forest} {t : ℤ} (h : t ∉ F.tags) (f : FixFragment) :
    Assoc.find? t (collapseOn F f) = Assoc.find? t f := by
  induction F generalizing f with
  | nil => rfl
  | cons e F ih =>
    rw [tags, List.map_cons, List.mem_cons, not_or] at h
    rw [collapseOn, ih h.2, Assoc.find?_insert_of_ne h.1]

/-- **Where no tag comes twice, every item stays.** -/
theorem find?_collapse {F : Forest} (hnodup : F.tags.Nodup) {t : ℤ} {i : Item} (h : (t, i) ∈ F) :
    Assoc.find? t (collapse F) = some (itemValue t i) := by
  obtain ⟨A, B, rfl⟩ := List.append_of_mem h
  have hB : t ∉ tags B := by
    rw [tags, List.map_append, List.map_cons, List.nodup_append] at hnodup
    exact (List.nodup_cons.mp hnodup.2.1).1
  rw [collapse, collapseOn_append, collapseOn, find?_collapseOn_of_notMem hB,
    Assoc.find?_insert_self]

end Forest

/-- An item that stands for a value under a tag. -/
structure StandsFor (s : FixSpec) (groups : List (ℤ × GroupRef)) (present : List ℤ) (t : ℤ)
    (v : Value) (i : Item) : Prop where
  fields : itemFields t i = valueFields t v
  value : (itemValue t i).bare = v.bare
  encodes : Encodes s groups present [(t, i)]

/-- A forest that stands for a fragment, field by field in the canonical order. -/
structure Canonical (s : FixSpec) (groups : List (ℤ × GroupRef)) (enclosing : List ℤ)
    (f : FixFragment) (F : Forest) : Prop where
  tags : F.tags = canonicalTags f
  fields : flatten F = wireFields f
  value : (collapse F).bare = f.bare
  encodes : Encodes s groups (f.tags ++ enclosing) F

section CanonicalForest

variable {s : FixSpec} {groups : List (ℤ × GroupRef)} {enclosing : List ℤ} {f : FixFragment}

/-- **Items that stand for the fields make a forest that stands for the fragment.** -/
theorem canonical_of_items (hwf : f.WF) (hplain : f.Plain) (hin : KeyInj tagSortKey f)
    (h : ∀ t v, Assoc.find? t f = some v →
      ∃ i, StandsFor s groups (f.tags ++ enclosing) t v i) :
    ∃ F, Canonical s groups enclosing f F := by
  have hitem : ∀ t, t ∈ f.tags → ∃ i v, Assoc.find? t f = some v
      ∧ StandsFor s groups (f.tags ++ enclosing) t v i := by
    intro t ht
    obtain ⟨v, hv⟩ := Option.isSome_iff_exists.mp (Assoc.find?_isSome_iff.mpr ht)
    obtain ⟨i, hi⟩ := h t v hv
    exact ⟨i, v, hv, hi⟩
  choose! i hi using hitem
  have htags : Forest.tags ((canonicalTags f).map fun t => (t, i t)) = canonicalTags f := by
    rw [Forest.tags, List.map_map]
    exact List.map_id _
  have hnodup : (canonicalTags f).Nodup :=
    (canonicalTags_perm f).nodup_iff.mpr hwf.sorted.nodup
  refine ⟨(canonicalTags f).map fun t => (t, i t), htags, ?_, ?_, ?_⟩
  · rw [Forest.flatten_eq, List.flatMap_map, wireFields_eq hin hplain]
    refine List.flatMap_congr fun t ht => ?_
    obtain ⟨v, hv, hstands⟩ := hi t (mem_canonicalTags.mp ht)
    rw [fieldsAt, hv]
    exact hstands.fields
  · refine FixFragment.bare_eq_bare (Forest.collapse_sorted _) hwf.sorted fun t => ?_
    by_cases ht : t ∈ canonicalTags f
    · obtain ⟨v, hv, hstands⟩ := hi t (mem_canonicalTags.mp ht)
      have hmem : (t, i t) ∈ (canonicalTags f).map fun t => (t, i t) :=
        List.mem_map.mpr ⟨t, ht, rfl⟩
      rw [Forest.find?_collapse (htags.symm ▸ hnodup) hmem, hv, Option.map_some, Option.map_some,
        hstands.value]
    · rw [collapse, Forest.find?_collapseOn_of_notMem (htags.symm ▸ ht), Assoc.find?_nil,
        Assoc.find?_eq_none_iff.mpr fun hmem => ht (mem_canonicalTags.mpr hmem)]
  · have hall : ∀ ts : List ℤ, (∀ t ∈ ts, t ∈ f.tags) →
        Encodes s groups (f.tags ++ enclosing) (ts.map fun t => (t, i t)) := by
      intro ts
      induction ts with
      | nil => exact fun _ => .nil
      | cons t ts ih =>
        intro hts
        obtain ⟨v, -, hstands⟩ := hi t (hts t List.mem_cons_self)
        exact hstands.encodes.append (ih fun u hu => hts u (List.mem_cons_of_mem _ hu))
    exact hall _ fun t ht => mem_canonicalTags.mp ht

/-- **The forest of a member begins with FirstTag**, where FirstTag ranks first.  The item under it
stands for a plain string, so it comes out as one field. -/
theorem Canonical.delimited {m : FixFragment} {grp : GroupSpec} {F : Forest}
    (hF : Canonical s grp.nestedGroups enclosing m F) (hwf : m.WF)
    (hrange : ∀ u ∈ m.tags, InTagRange u) {v : Bytes} (hv : m.get grp.firstTag = some v)
    (hmembers : ∀ u ∈ m.tags, u ∈ grp.tags)
    (hfirst : ∀ u ∈ m.tags, tagSortKey grp.firstTag ≤ tagSortKey u) :
    Delimited grp F ∧ Encodes s grp.nestedGroups (F.tags ++ enclosing) F.tail := by
  have hmem : grp.firstTag ∈ m.tags := FixFragment.mem_tags_of_get hv
  have hnodup : F.tags.Nodup := by
    rw [hF.tags]
    exact (canonicalTags_perm m).nodup_iff.mpr hwf.sorted.nodup
  have hsame : ∀ u, u ∈ m.tags ↔ u ∈ F.tags := fun u => by rw [hF.tags, mem_canonicalTags]
  obtain ⟨rest, hrest⟩ := canonicalTags_of_first hrange hmem hfirst
  have htags := hF.tags.trans hrest
  have hvalue := hF.value
  have henc : Encodes s grp.nestedGroups (F.tags ++ enclosing) F :=
    hF.encodes.congr fun u => by rw [List.mem_append, List.mem_append, hsame u]
  match F, htags, hnodup, hvalue, henc, hsame with
  | (t, i) :: G, htags, hnodup, hvalue, henc, hsame =>
    obtain ⟨rfl, -⟩ := List.cons.inj htags
    have hleaf : i = .leaf v := by
      have hfind := congrArg (Assoc.find? grp.firstTag) hvalue
      rw [FixFragment.find?_bare, FixFragment.find?_bare,
        Forest.find?_collapse hnodup List.mem_cons_self, FixFragment.get_eq_some_iff.mp hv] at hfind
      have hstr := Value.bare_eq_str (Option.some.inj hfind)
      cases i with
      | leaf w => rw [Value.str.inj hstr]
      | group => cases hstr
    subst hleaf
    refine ⟨⟨v, G, rfl, (hrange _ hmem).isInt64, fun e he => ?_⟩, ?_⟩
    · have hG : e.1 ∈ Forest.tags G := List.mem_map.mpr ⟨e, he, rfl⟩
      refine ⟨hmembers _ ((hsame _).mpr (List.mem_cons_of_mem _ hG)), fun heq => ?_⟩
      exact (List.nodup_cons.mp hnodup).1 (heq ▸ hG)
    · cases henc with
      | leaf _ _ hG => exact hG

/-- **A conforming fragment whose FirstTags rank first has a canonical forest.** -/
theorem exists_canonical (f : FixFragment) {groups : List (ℤ × GroupRef)} {enclosing : List ℤ}
    (hwf : f.WF) (hplain : f.Plain) (htags : f.AllTags InTagRange)
    (hconf : Conforms s groups enclosing f) (hfirst : FirstTagFirst s groups f) :
    ∃ F, Canonical s groups enclosing f F := by
  induction f using FixFragment.induction generalizing groups enclosing with
  | step f ih =>
    obtain ⟨cplain, cknown, ccount, capart, cfirst, cmembers, cnested⟩ := hconf
    obtain ⟨ffirst, fnested⟩ := hfirst
    have hrange := htags f (self_mem_fragments f)
    refine canonical_of_items hwf hplain (keyInj_of_inTagRange htags) fun t v hv => ?_
    have hmem := Assoc.mem_of_find? hv
    have ht : t ∈ f.tags := Assoc.find?_isSome_iff.mp (by rw [hv]; rfl)
    have hpresent : t ∈ f.tags ++ enclosing ∧ IsInt64 t :=
      ⟨List.mem_append_left _ ht, (hrange t ht).isInt64⟩
    rcases hplain f (self_mem_fragments f) _ hmem with ⟨str, hs⟩ | ⟨n, k, ms, hg⟩
    · dsimp only at hs
      subst hs
      exact ⟨.leaf str, rfl, rfl, .leaf hpresent (cplain t str hmem) .nil⟩
    dsimp only at hg
    subst hg
    obtain ⟨ref, href⟩ := cknown t n k ms hmem
    have hmember : ∀ m, m ∈ ms →
        ∃ F, Canonical s (s.groupSpec ref).nestedGroups (f.tags ++ enclosing) m F :=
      fun m hm => ih t n k ms hmem m hm (hwf.member hmem hm) (hplain.member hmem hm)
        (htags.member hmem hm) (cnested t n k ms ref hmem href m hm)
        (fnested t n k ms ref hmem href m hm)
    choose! F hF using hmember
    have hdelim : ∀ m ∈ ms, Delimited (s.groupSpec ref) (F m)
        ∧ Encodes s (s.groupSpec ref).nestedGroups ((F m).tags ++ (f.tags ++ enclosing))
          (F m).tail := by
      intro m hm
      obtain ⟨v, hv⟩ := cfirst t n k ms ref hmem href m hm
      exact (hF m hm).delimited (hwf.member hmem hm)
        (htags.member hmem hm m (self_mem_fragments m)) hv (cmembers t n k ms ref hmem href m hm)
        (ffirst t n k ms ref hmem href m hm)
    refine ⟨.group (itoa ms.length) (s.groupSpec ref).firstTag (ms.map F), ?_, ?_, ?_⟩
    · rw [itemFields, valueFields, Forest.membersFields_eq, List.flatMap_map]
      exact congrArg _ (List.flatMap_congr fun m hm => (hF m hm).fields)
    · rw [itemValue, Value.bare, Value.bare, bareMembers_eq, bareMembers_eq,
        Forest.collapseMembers_eq, List.map_map, List.map_map]
      exact congrArg _ (List.map_congr_left fun m hm => (hF m hm).value)
    · have henc : Encodes s groups (f.tags ++ enclosing)
          [(t, .group (itoa (ms.map F).length) (s.groupSpec ref).firstTag (ms.map F))] := by
        refine .group hpresent href (fun hne u hu => ?_)
          (by rw [List.length_map]; exact ccount t n k ms hmem) ?_ ?_ .nil
        · obtain ⟨m, hm⟩ := List.exists_mem_of_ne_nil ms (mt List.map_eq_nil_iff.mpr hne)
          obtain ⟨v, hv⟩ := cfirst t n k ms ref hmem href m hm
          refine capart t n k ms ref hmem href u ?_
          rcases List.mem_cons.mp hu with rfl | hu
          · exact cmembers t n k ms ref hmem href m hm _ (FixFragment.mem_tags_of_get hv)
          · exact hu
        · intro G hG
          obtain ⟨m, hm, rfl⟩ := List.mem_map.mp hG
          exact (hdelim m hm).1
        · intro G hG
          obtain ⟨m, hm, rfl⟩ := List.mem_map.mp hG
          exact (hdelim m hm).2
      rwa [List.length_map] at henc

end CanonicalForest

end FixMsg
