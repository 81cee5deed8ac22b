import GoFixMsg.Codec.Canonical
import GoFixMsg.Codec.GroupRun

/-!
# Codec/RoundTrip — writing a message and reading it back with its dictionary

The serialiser orders the fields of a member by rank, the parser recognises a member by its
FirstTag.  On a message that conforms to the dictionary the two agree exactly where FirstTag ranks
first in every member and MsgType is among the first six fields (`roundTrip_iff`): one direction is
completeness of the parser on the canonical forest, the other compares the forest of the parse with
the wire, field by field.
-/

open GoLang

namespace FixMsg

open Forest (Shaped StartsWith flatten collapse collapseOn collapseMembers itemFields itemValue
  membersFields)

/-! ## Forests that lose nothing

A forest may have a tag twice at one level, and then an item is lost when it is collapsed.  Counting
fields shows where none is: the fragment has as many as the wire. -/

namespace Forest

mutual

theorem size_itemValue_le (t : ℤ) : ∀ i : Item, (itemValue t i).size ≤ (itemFields t i).length
  | .leaf _ => Nat.le_refl _
  | .group _ _ ms => by
      have h := size_collapseMembers_le ms
      rw [itemValue, itemFields, Value.size, List.length_cons]
      omega

theorem size_collapseMembers_le : ∀ ms, membersSize (collapseMembers ms) ≤ (membersFields ms).length
  | [] => Nat.le_refl _
  | m :: ms => by
      have h1 := size_collapseOn_le m []
      have h2 := size_collapseMembers_le ms
      rw [FixFragment.size] at h1
      rw [collapseMembers, membersFields, membersSize, List.length_append]
      omega

/-- **Collapsing never adds a field.** -/
theorem size_collapseOn_le : ∀ (F : Forest) (f : FixFragment),
    (collapseOn F f).size ≤ f.size + (flatten F).length
  | [], f => Nat.le_refl _
  | (t, i) :: F, f => by
      have h1 := size_collapseOn_le F (Assoc.insert t (itemValue t i) f)
      have h2 := size_insert_le t (itemValue t i) f
      have h3 := size_itemValue_le t i
      rw [collapseOn, flatten, List.length_append]
      omega

end

/-- A forest none of whose fields is lost in its collapse. -/
def Tight (F : Forest) : Prop := (collapse F).size = (flatten F).length

theorem tight_items {F : Forest} {f : FixFragment} (hf : Assoc.Sorted f)
    (h : (collapseOn F f).size = f.size + (flatten F).length) :
    (∀ t ∈ F.tags, t ∉ f.tags) ∧ F.tags.Nodup
      ∧ ∀ t i, (t, i) ∈ F → (itemValue t i).size = (itemFields t i).length := by
  induction F generalizing f with
  | nil =>
    exact ⟨fun _ ht => absurd ht List.not_mem_nil, List.nodup_nil,
      fun _ _ ht => absurd ht List.not_mem_nil⟩
  | cons e F ih =>
    obtain ⟨t, i⟩ := e
    rw [collapseOn, flatten, List.length_append] at h
    have h1 := size_collapseOn_le F (Assoc.insert t (itemValue t i) f)
    have h2 := size_insert_le t (itemValue t i) f
    have h3 := size_itemValue_le t i
    have hfresh : t ∉ f.tags := fun ht => by
      have h4 := size_insert_lt (itemValue t i) hf ht
      omega
    obtain ⟨hdisj, hnodup, hitems⟩ := ih (hf.insert t (itemValue t i)) (by omega)
    refine ⟨fun u hu => ?_, List.nodup_cons.mpr ⟨fun ht => ?_, hnodup⟩, fun u j hj => ?_⟩
    · rcases List.mem_cons.mp hu with rfl | hu
      · exact hfresh
      · exact fun hmem => hdisj u hu (Assoc.mem_keys_insert.mpr (Or.inr hmem))
    · exact hdisj t ht (Assoc.mem_keys_insert.mpr (Or.inl rfl))
    · rcases List.mem_cons.mp hj with heq | hj
      · obtain ⟨rfl, rfl⟩ := Prod.mk.inj heq
        omega
      · exact hitems u j hj

/-- Where a group loses nothing, none of its members does. -/
theorem tight_members {ms : List Forest}
    (h : membersSize (collapseMembers ms) = (membersFields ms).length) : ∀ m ∈ ms, Tight m := by
  induction ms with
  | nil => exact fun _ hm => absurd hm List.not_mem_nil
  | cons m ms ih =>
    rw [collapseMembers, membersFields, membersSize, List.length_append] at h
    have h1 := size_collapseOn_le m []
    have h2 := size_collapseMembers_le ms
    rw [FixFragment.size] at h1
    intro m' hm'
    rcases List.mem_cons.mp hm' with rfl | hm'
    · rw [Tight, collapse]
      omega
    · exact ih (by omega) m' hm'

/-- The groups of a shaped forest are those of the dictionary. -/
theorem Shaped.group_of_mem {s : FixSpec} {groups : List (ℤ × GroupRef)} {F : Forest}
    (h : Shaped s groups F) {t k : ℤ} {c : Bytes} {ms : List Forest}
    (hmem : (t, Item.group c k ms) ∈ F) : ∃ ref, Assoc.find? t groups = some ref
      ∧ (∀ m ∈ ms, StartsWith (s.groupSpec ref).firstTag m)
      ∧ ∀ m ∈ ms, Shaped s (s.groupSpec ref).nestedGroups m.tail := by
  induction h with
  | nil => cases hmem
  | leaf _ _ ih =>
    rcases List.mem_cons.mp hmem with heq | hmem
    · cases heq
    · exact ih hmem
  | group hgroup hstart hms _ _ ih =>
    rcases List.mem_cons.mp hmem with heq | hmem
    · cases heq
      exact ⟨_, hgroup, hstart, hms⟩
    · exact ih hmem

end Forest

/-! ## Comparing a parse with the wire

If the message comes back, the forest of the parse and the canonical forest flatten to the same
fields and collapse to fragments of the same size.  So they agree item by item, and each member of
the message begins with FirstTag on the wire. -/

/-- What a value writes begins with its tag. -/
theorem valueFields_head {t : ℤ} {v : Value}
    (hplain : (∃ s, v = .str s) ∨ ∃ n k ms, v = .group n k ms) :
    ∃ x l, valueFields t v = (t, x) :: l := by
  rcases hplain with ⟨s, rfl⟩ | ⟨n, k, ms, rfl⟩
  · exact ⟨s, [], rfl⟩
  · exact ⟨itoa ms.length, ms.flatMap wireFields, rfl⟩

theorem itemFields_head (t : ℤ) (i : Item) : ∃ x l, itemFields t i = (t, x) :: l := by
  cases i with
  | leaf v => exact ⟨v, [], rfl⟩
  | group c k ms => exact ⟨c, membersFields ms, rfl⟩

/-- **Item by item, what the parser read is what was written**, if it comes to as many fields.  Both
begin with the same field, and so with the same tag. -/
theorem items_agree {f : FixFragment} (hplain : f.Plain) {F : Forest} {ts : List ℤ}
    (hts : ∀ t ∈ ts, t ∈ f.tags) (hflat : flatten F = ts.flatMap (fieldsAt f))
    (hlen : ∀ t i, (t, i) ∈ F → ∀ v, Assoc.find? t f = some v →
      (itemFields t i).length = (valueFields t v).length) :
    ∀ t i, (t, i) ∈ F → ∀ v, Assoc.find? t f = some v → itemFields t i = valueFields t v := by
  induction F generalizing ts with
  | nil => exact fun _ _ h => absurd h List.not_mem_nil
  | cons e F ih =>
    obtain ⟨t, i⟩ := e
    obtain ⟨x, l, hx⟩ := itemFields_head t i
    cases ts with
    | nil =>
      rw [flatten, hx] at hflat
      cases hflat
    | cons u ts =>
      obtain ⟨w, hw⟩ := Option.isSome_iff_exists.mp
        (Assoc.find?_isSome_iff.mpr (hts u List.mem_cons_self))
      have hat : fieldsAt f u = valueFields u w := by rw [fieldsAt, hw]
      obtain ⟨y, l', hy⟩ := valueFields_head (t := u)
        (hplain f (self_mem_fragments f) _ (Assoc.mem_of_find? hw))
      have htu : t = u := by
        rw [flatten, hx, List.flatMap_cons, hat, hy] at hflat
        exact (Prod.mk.inj (List.cons.inj hflat).1).1
      subst htu
      rw [flatten, List.flatMap_cons, hat] at hflat
      obtain ⟨hhead, htail⟩ := List.append_inj hflat (hlen t i List.mem_cons_self w hw)
      intro t' i' hmem v hv
      rcases List.mem_cons.mp hmem with heq | hmem
      · obtain ⟨rfl, rfl⟩ := Prod.mk.inj heq
        rw [hw] at hv
        rw [← Option.some.inj hv, hhead]
      · exact ih (fun u hu => hts u (List.mem_cons_of_mem _ hu)) htail
          (fun t i h => hlen t i (List.mem_cons_of_mem _ h)) t' i' hmem v hv

/-- **Member by member as well.** -/
theorem members_agree {Fs : List Forest} {ms : List FixFragment}
    (hvalue : Fs.map (fun F => (collapse F).bare) = ms.map FixFragment.bare)
    (hflat : membersFields Fs = ms.flatMap wireFields) (htight : ∀ F ∈ Fs, F.Tight)
    (hlen : ∀ m ∈ ms, (wireFields m).length = FixFragment.size m) :
    ∀ m ∈ ms, ∃ F ∈ Fs, flatten F = wireFields m ∧ (collapse F).bare = FixFragment.bare m := by
  induction ms generalizing Fs with
  | nil => exact fun _ hm => absurd hm List.not_mem_nil
  | cons m ms ih =>
    cases Fs with
    | nil => cases hvalue
    | cons F Fs =>
      rw [List.map_cons, List.map_cons] at hvalue
      obtain ⟨hF, hFs⟩ := List.cons.inj hvalue
      have hsize : (flatten F).length = (wireFields m).length := by
        rw [hlen m List.mem_cons_self, ← FixFragment.size_eq_of_bare hF]
        exact (htight F List.mem_cons_self).symm
      rw [membersFields, List.flatMap_cons] at hflat
      obtain ⟨hhead, htail⟩ := List.append_inj hflat hsize
      intro m' hm'
      rcases List.mem_cons.mp hm' with rfl | hm'
      · exact ⟨F, List.mem_cons_self, hhead, hF⟩
      · obtain ⟨F', hF', h⟩ := ih hFs htail (fun F' hF' => htight F' (List.mem_cons_of_mem _ hF'))
          (fun m' hm' => hlen m' (List.mem_cons_of_mem _ hm')) m' hm'
        exact ⟨F', List.mem_cons_of_mem _ hF', h⟩

/-- A wire begins with the first tag of the canonical order. -/
theorem canonicalTags_of_head {f : FixFragment} (hplain : f.Plain) (hin : KeyInj tagSortKey f)
    {t : ℤ} {x : Bytes} {l : List Field} (h : wireFields f = (t, x) :: l) :
    ∃ rest, canonicalTags f = t :: rest := by
  rw [wireFields_eq hin hplain] at h
  cases hc : canonicalTags f with
  | nil =>
    rw [hc] at h
    cases h
  | cons u rest =>
    have hu : u ∈ f.tags := mem_canonicalTags.mp (hc ▸ List.mem_cons_self)
    obtain ⟨w, hw⟩ := Option.isSome_iff_exists.mp (Assoc.find?_isSome_iff.mpr hu)
    obtain ⟨y, l', hy⟩ := valueFields_head (t := u)
      (hplain f (self_mem_fragments f) _ (Assoc.mem_of_find? hw))
    have hat : fieldsAt f u = (u, y) :: l' := by
      rw [fieldsAt, hw]
      exact hy
    rw [hc, List.flatMap_cons, hat] at h
    rw [(Prod.mk.inj (List.cons.inj h).1).1]
    exact ⟨rest, rfl⟩

/-- What is found under the tag of an item is what the item became, up to the group's own tags. -/
theorem bare_of_find? {f : FixFragment} {F : Forest} (hnodup : F.tags.Nodup)
    (hvalue : (collapse F).bare = f.bare) {t : ℤ} {i : Item} (hi : (t, i) ∈ F) {v : Value}
    (hv : Assoc.find? t f = some v) : (itemValue t i).bare = v.bare := by
  have hfind := congrArg (Assoc.find? t) hvalue
  rw [FixFragment.find?_bare, FixFragment.find?_bare, Forest.find?_collapse hnodup hi, hv] at hfind
  exact Option.some.inj hfind

theorem exists_item_of_find? {f : FixFragment} {F : Forest} (hvalue : (collapse F).bare = f.bare)
    {t : ℤ} {v : Value} (hv : Assoc.find? t f = some v) : ∃ i, (t, i) ∈ F := by
  by_contra hno
  have hnot : t ∉ F.tags := fun ht => by
    obtain ⟨⟨u, i⟩, hi, rfl⟩ := List.mem_map.mp ht
    exact hno ⟨i, hi⟩
  have hfind := congrArg (Assoc.find? t) hvalue
  rw [FixFragment.find?_bare, FixFragment.find?_bare, collapse,
    Forest.find?_collapseOn_of_notMem hnot, hv] at hfind
  cases hfind

/-- **The members of a group were read from what was written for them**, where the parser read the
fragment back.  As many fields were read as the fragment has, so none was lost. -/
theorem exists_member_of_read {s : FixSpec} {f : FixFragment} {groups : List (ℤ × GroupRef)}
    {F : Forest} (hwf : f.WF) (hplain : f.Plain) (htags : f.AllTags InTagRange)
    (hshape : Shaped s groups F) (hflat : flatten F = wireFields f)
    (hvalue : (collapse F).bare = f.bare) {t n k : ℤ} {ms : List FixFragment} {ref : GroupRef}
    (hmem : (t, Value.group n k ms) ∈ f) (href : Assoc.find? t groups = some ref) {m : FixFragment}
    (hm : m ∈ ms) :
    ∃ F' : Forest, StartsWith (s.groupSpec ref).firstTag F'
      ∧ Shaped s (s.groupSpec ref).nestedGroups F'.tail
      ∧ flatten F' = wireFields m ∧ (collapse F').bare = FixFragment.bare m := by
  have hin := keyInj_of_inTagRange htags
  have hmemberLen : ∀ {t n k ms}, (t, Value.group n k ms) ∈ f → ∀ m ∈ ms,
      (wireFields m).length = FixFragment.size m := fun hmem m hm =>
    length_wireFields (hwf.member hmem hm) (hplain.member hmem hm) (hin.member hmem hm)
  have htight : F.Tight := by
    rw [Forest.Tight, hflat, length_wireFields hwf hplain hin]
    exact FixFragment.size_eq_of_bare hvalue
  obtain ⟨-, hnodup, hsize⟩ := Forest.tight_items Assoc.sorted_nil
    (show (collapseOn F []).size = FixFragment.size [] + (flatten F).length by
      rw [FixFragment.size, Nat.zero_add]
      exact htight)
  have hagree := items_agree hplain (fun t ht => mem_canonicalTags.mp ht)
    (hflat.trans (wireFields_eq hin hplain)) fun t i hi v hv => by
      have hval := bare_of_find? hnodup hvalue hi hv
      have hmem := Assoc.mem_of_find? hv
      rw [← hsize t i hi, ← Value.size_bare, hval, Value.size_bare]
      refine (length_valueFields (hplain f (self_mem_fragments f) _ hmem) ?_).symm
      rintro n k ms rfl
      exact hmemberLen hmem
  have hv : Assoc.find? t f = some (.group n k ms) := hwf.sorted.find?_eq_some_iff.mpr hmem
  obtain ⟨i, hi⟩ := exists_item_of_find? hvalue hv
  obtain ⟨n', k', ms', hi', hbare⟩ := Value.bare_eq_group (bare_of_find? hnodup hvalue hi hv)
  cases i with
  | leaf w => cases hi'
  | group c k₀ Fs =>
    rw [itemValue, Forest.collapseMembers_eq] at hi'
    obtain ⟨-, -, rfl⟩ := Value.group.inj hi'
    obtain ⟨ref', href', hstart, hnested⟩ := hshape.group_of_mem hi
    obtain rfl : ref = ref' := Option.some.inj (href.symm.trans href')
    have hfields := hagree t _ hi _ hv
    rw [itemFields, valueFields] at hfields
    have hsz := hsize t _ hi
    rw [itemValue, itemFields, Value.size, List.length_cons] at hsz
    rw [List.map_map] at hbare
    obtain ⟨F', hF', hf', hb'⟩ := members_agree hbare (List.cons.inj hfields).2
      (Forest.tight_members (by omega)) (hmemberLen hmem) m hm
    exact ⟨F', hstart F' hF', hnested F' hF', hf', hb'⟩

/-- **Where the parser read a conforming fragment back, FirstTag ranks first in every member.** -/
theorem firstTagFirst_of_read {s : FixSpec} (f : FixFragment) {groups : List (ℤ × GroupRef)}
    {enclosing : List ℤ} {F : Forest} (hwf : f.WF) (hplain : f.Plain) (htags : f.AllTags InTagRange)
    (hconf : Conforms s groups enclosing f) (hshape : Shaped s groups F)
    (hflat : flatten F = wireFields f) (hvalue : (collapse F).bare = f.bare) :
    FirstTagFirst s groups f := by
  induction f using FixFragment.induction generalizing groups enclosing F with
  | step f ih =>
    obtain ⟨-, -, -, -, cfirst, -, cnested⟩ := hconf
    have hin := keyInj_of_inTagRange htags
    refine .mk (fun t n k ms ref hmem href m hm => ?_) fun t n k ms ref hmem href m hm => ?_
    · obtain ⟨F', ⟨v, rest, rfl⟩, -, hflat', -⟩ :=
        exists_member_of_read hwf hplain htags hshape hflat hvalue hmem href hm
      obtain ⟨rest', hrest⟩ := canonicalTags_of_head (hplain.member hmem hm) (hin.member hmem hm)
        hflat'.symm
      exact first_of_canonicalTags hrest
    · obtain ⟨F', ⟨v, rest, rfl⟩, htail, hflat', hvalue'⟩ :=
        exists_member_of_read hwf hplain htags hshape hflat hvalue hmem href hm
      have hconf' := cnested t n k ms ref hmem href m hm
      obtain ⟨w, hw⟩ := cfirst t n k ms ref hmem href m hm
      have hplainFirst : Assoc.find? (s.groupSpec ref).firstTag
          (s.groupSpec ref).nestedGroups = none := by
        cases hconf' with
        | mk plain => exact plain _ w (Assoc.mem_of_find? (FixFragment.get_eq_some_iff.mp hw))
      exact ih t n k ms hmem m hm (hwf.member hmem hm) (hplain.member hmem hm)
        (htags.member hmem hm) hconf' (.leaf hplainFirst htail) hflat' hvalue'

/-! ## The dictionary entry is found

MsgType ranks third, behind 8 and 9, so it is among the first six fields unless one of these two
stands for a group with several fields. -/

/-- Fewer than six fields stand under the two tags that rank before MsgType.  Only a dictionary that
makes 8 or 9 the count tag of a group can put more there. -/
def MsgTypeEarly (f : FixFragment) : Prop := sizeAt f tagBeginString + sizeAt f tagBodyLength < 6

instance (f : FixFragment) : Decidable (MsgTypeEarly f) := inferInstanceAs (Decidable (_ < _))

/-- A message without MsgType cannot name its type; one with it is written 8, 9, 35. -/
theorem canonicalTags_of_msgType {f : FixFragment} (hwf : f.WF) (htags : ∀ t ∈ f.tags, InTagRange t)
    (h35 : tagMsgType ∈ f.tags) :
    ∃ rest, canonicalTags f
      = [tagBeginString, tagBodyLength].filter (· ∈ f.tags) ++ tagMsgType :: rest := by
  have hkey8 : tagSortKey tagBeginString = 0 := rfl
  have hkey9 : tagSortKey tagBodyLength = 1 := rfl
  have hkey35 : tagSortKey tagMsgType = 2 := rfl
  refine ⟨(canonicalTags f).filter fun t => t ≠ tagBeginString ∧ t ≠ tagBodyLength ∧ t ≠ tagMsgType,
    SortSlice.stable.run_eq_of_sorted
      (fun a ha b hb => tagSortKey_injOn (htags a ha) (htags b hb)) ?_ ?_⟩
  · refine (List.perm_ext_iff_of_nodup ?_ hwf.sorted.nodup).mpr fun t => ?_
    · have hnodup : (canonicalTags f).Nodup :=
        (canonicalTags_perm f).nodup_iff.mpr hwf.sorted.nodup
      refine List.nodup_append.mpr ⟨List.Nodup.filter _ (by decide), List.nodup_cons.mpr ⟨?_,
        hnodup.filter _⟩, ?_⟩
      · simp
      · intro a ha b hb hab
        subst hab
        rw [List.mem_filter] at ha
        rcases List.mem_cons.mp hb with rfl | hb
        · exact absurd ha.1 (by decide)
        · have h := (List.mem_filter.mp hb).2
          simp only [decide_eq_true_eq] at h
          simp only [List.mem_cons, List.not_mem_nil, or_false] at ha
          tauto
    · simp only [List.mem_append, List.mem_filter, List.mem_cons, List.not_mem_nil, or_false,
        decide_eq_true_eq, mem_canonicalTags]
      by_cases h : t = tagMsgType
      · subst h
        tauto
      · tauto
  · have hge : ∀ t ∈ f.tags, t ≠ tagBeginString → t ≠ tagBodyLength → 2 ≤ tagSortKey t := by
      intro t ht h8 h9
      have h0 := tagSortKey_nonneg (htags t ht)
      have h1 : tagSortKey t ≠ 0 := fun h => h8 (tagSortKey_injOn (htags t ht) (by decide) h)
      have h2 : tagSortKey t ≠ 1 := fun h => h9 (tagSortKey_injOn (htags t ht) (by decide) h)
      omega
    have hrest : ∀ t ∈ (canonicalTags f).filter fun t =>
        t ≠ tagBeginString ∧ t ≠ tagBodyLength ∧ t ≠ tagMsgType, 2 ≤ tagSortKey t := by
      intro t ht
      obtain ⟨hmem, hne⟩ := List.mem_filter.mp ht
      rw [decide_eq_true_eq] at hne
      exact hge t (mem_canonicalTags.mp hmem) hne.1 hne.2.1
    refine List.pairwise_append.mpr ⟨List.Pairwise.filter _ (by decide), List.pairwise_cons.mpr
      ⟨hrest, (canonicalTags_sorted f).filter _⟩, fun a ha b hb => ?_⟩
    have ha' : tagSortKey a ≤ 1 := by
      have hmem := (List.mem_filter.mp ha).1
      simp only [List.mem_cons, List.not_mem_nil, or_false] at hmem
      rcases hmem with rfl | rfl <;> decide
    have hb' : 2 ≤ tagSortKey b := by
      rcases List.mem_cons.mp hb with rfl | hb
      · decide
      · exact hrest b hb
    omega

/-- The wire of a message with a MsgType: the fields under 8 and 9, MsgType, the others. -/
theorem wireFields_of_msgType {f : FixFragment} (hwf : f.WF) (hplain : f.Plain)
    (htags : f.AllTags InTagRange) {ty : Bytes} (hty : f.get tagMsgType = some ty) :
    ∃ rest, wireFields f
      = (fieldsAt f tagBeginString ++ fieldsAt f tagBodyLength) ++ (tagMsgType, ty) :: rest := by
  have h35 := FixFragment.mem_tags_of_get hty
  obtain ⟨rest, hrest⟩ := canonicalTags_of_msgType hwf (htags f (self_mem_fragments f)) h35
  have hskip : ∀ t, t ∉ f.tags → fieldsAt f t = [] := fun t ht => by
    rw [fieldsAt, Assoc.find?_eq_none_iff.mpr ht]
  refine ⟨rest.flatMap (fieldsAt f), ?_⟩
  rw [wireFields_eq (keyInj_of_inTagRange htags) hplain, hrest, List.flatMap_append,
    List.flatMap_cons, fieldsAt_str hty]
  by_cases h8 : tagBeginString ∈ f.tags <;> by_cases h9 : tagBodyLength ∈ f.tags <;>
    simp [h8, h9, hskip]

/-- No tag of an enclosing level comes up in the wire of a member. -/
theorem notMem_wireFields {s : FixSpec} (f : FixFragment) {groups : List (ℤ × GroupRef)}
    {enclosing : List ℤ} (hplain : f.Plain) (hin : KeyInj tagSortKey f)
    (hconf : Conforms s groups enclosing f) (hapart : ∀ t ∈ f.tags, t ∉ enclosing) :
    ∀ e ∈ wireFields f, e.1 ∉ enclosing := by
  induction f using FixFragment.induction generalizing groups enclosing with
  | step f ih =>
    obtain ⟨cplain, cknown, ccount, capart, cfirst, cmembers, cnested⟩ := hconf
    intro e he
    rw [wireFields_eq hin hplain, List.mem_flatMap] at he
    obtain ⟨t, ht, he⟩ := he
    have htf := mem_canonicalTags.mp ht
    obtain ⟨v, hv⟩ := Option.isSome_iff_exists.mp (Assoc.find?_isSome_iff.mpr htf)
    have hmem := Assoc.mem_of_find? hv
    rw [fieldsAt, hv] at he
    rcases hplain f (self_mem_fragments f) _ hmem with ⟨str, hs⟩ | ⟨n, k, ms, hg⟩
    · dsimp only at hs
      subst hs
      rw [List.mem_singleton.mp he]
      exact hapart t htf
    · dsimp only at hg
      subst hg
      rcases List.mem_cons.mp he with rfl | he
      · exact hapart t htf
      · obtain ⟨m, hm, he⟩ := List.mem_flatMap.mp he
        obtain ⟨ref, href⟩ := cknown t n k ms hmem
        have h := ih t n k ms hmem m hm (hplain.member hmem hm) (hin.member hmem hm)
          (cnested t n k ms ref hmem href m hm)
          (fun u hu => capart t n k ms ref hmem href u (cmembers t n k ms ref hmem href m hm u hu))
          e he
        exact fun hmem => h (List.mem_append_right _ hmem)

/-- MsgType stands nowhere but at the top of a conforming message. -/
theorem fieldsAt_ne_msgType {s : FixSpec} {f : FixFragment} {groups : List (ℤ × GroupRef)}
    (hplain : f.Plain) (hin : KeyInj tagSortKey f) (hconf : Conforms s groups [] f)
    (h35 : tagMsgType ∈ f.tags) {t : ℤ} (ht : t ≠ tagMsgType) :
    ∀ e ∈ fieldsAt f t, e.1 ≠ tagMsgType := by
  obtain ⟨cplain, cknown, ccount, capart, cfirst, cmembers, cnested⟩ := hconf
  intro e he
  rw [fieldsAt] at he
  cases hv : Assoc.find? t f with
  | none =>
    rw [hv] at he
    cases he
  | some v =>
    rw [hv] at he
    have hmem := Assoc.mem_of_find? hv
    rcases hplain f (self_mem_fragments f) _ hmem with ⟨str, hs⟩ | ⟨n, k, ms, hg⟩
    · dsimp only at hs
      subst hs
      rwa [List.mem_singleton.mp he]
    · dsimp only at hg
      subst hg
      rcases List.mem_cons.mp he with rfl | he
      · exact ht
      · obtain ⟨m, hm, he⟩ := List.mem_flatMap.mp he
        obtain ⟨ref, href⟩ := cknown t n k ms hmem
        have h := notMem_wireFields m (hplain.member hmem hm) (hin.member hmem hm)
          (cnested t n k ms ref hmem href m hm)
          (fun u hu => capart t n k ms ref hmem href u (cmembers t n k ms ref hmem href m hm u hu))
          e he
        exact fun heq => h (List.mem_append_left _ (heq ▸ h35))

/-- **The parser finds the message type exactly if it stands early enough.** -/
theorem findMsgSpec_wireFields {s : FixSpec} {msgSpec : MessageSpec} {m : FixMessage}
    (h : ConformsTo s msgSpec m) : findMsgSpec s ((wireFields m.fields).map tagText)
      = if MsgTypeEarly m.fields then some msgSpec else none := by
  obtain ⟨ty, hty, hspec⟩ := h.msgType
  have hin := keyInj_of_inTagRange h.tags
  have h35 := FixFragment.mem_tags_of_get hty
  have hint := isInt64_wireFields h.plain m.wf
  have hbefore : ∀ e ∈ fieldsAt m.fields tagBeginString ++ fieldsAt m.fields tagBodyLength,
      e.1 ≠ tagMsgType := by
    intro e he
    rcases List.mem_append.mp he with he | he
    · exact fieldsAt_ne_msgType h.plain hin h.groups h35 (by decide) e he
    · exact fieldsAt_ne_msgType h.plain hin h.groups h35 (by decide) e he
  have hlen : (fieldsAt m.fields tagBeginString ++ fieldsAt m.fields tagBodyLength).length
      = sizeAt m.fields tagBeginString + sizeAt m.fields tagBodyLength := by
    rw [List.length_append, length_fieldsAt m.wf h.plain hin, length_fieldsAt m.wf h.plain hin]
  obtain ⟨rest, hrest⟩ := wireFields_of_msgType m.wf h.plain h.tags hty
  rw [hrest] at hint ⊢
  generalize fieldsAt m.fields tagBeginString ++ fieldsAt m.fields tagBodyLength = before
    at hbefore hlen hint ⊢
  have htext : itoa tagMsgType = ascii "35" := by decide
  have hnone : ((before.map tagText).take 6).find? (fun p => p.1 == ascii "35") = none := by
    rw [List.find?_eq_none]
    intro p hp
    obtain ⟨e, he, rfl⟩ := List.mem_map.mp (List.mem_of_mem_take hp)
    rw [beq_iff_eq, tagText, ← htext]
    exact fun heq => hbefore e he
      (itoa_injective (hint e (List.mem_append_left _ he)) (by decide) heq)
  rw [findMsgSpec, List.map_append, List.take_append, List.find?_append, hnone, Option.none_or,
    List.length_map, hlen, List.map_cons]
  by_cases hearly : MsgTypeEarly m.fields
  · have hlt : sizeAt m.fields tagBeginString + sizeAt m.fields tagBodyLength < 6 := hearly
    obtain ⟨k, hk⟩ : ∃ k, 6 - (sizeAt m.fields tagBeginString + sizeAt m.fields tagBodyLength)
        = k + 1 := ⟨5 - (sizeAt m.fields tagBeginString + sizeAt m.fields tagBodyLength), by omega⟩
    have hfound : (tagText (tagMsgType, ty) :: (rest.map tagText).take k).find?
        (fun p => p.1 == ascii "35") = some (tagText (tagMsgType, ty)) :=
      List.find?_cons_of_pos (by rw [beq_iff_eq, tagText, htext])
    rw [hk, List.take_succ_cons, hfound, if_pos hearly]
    exact hspec
  · have hge : 6 - (sizeAt m.fields tagBeginString + sizeAt m.fields tagBodyLength) = 0 :=
      Nat.sub_eq_zero_of_le (not_lt.mp hearly)
    rw [hge, List.take_zero, List.find?_nil, if_neg hearly]

/-! ## The round trip -/

/-- **A message survives the codec**: it is serialised, and parsing the wire gives the same fields
and groups back. -/
def RoundTrips (s : FixSpec) (σ : SortSlice) (f : FixFragment) : Prop :=
  ∃ out g, (Codec.new (some s)).serialise σ f = .ok out ∧ (Codec.new (some s)).parse out = .ok g
    ∧ g.bare = f.bare

/-- What the codec makes of the wire of a conforming message. -/
theorem parse_wireFields {s : FixSpec} {msgSpec : MessageSpec} {m : FixMessage}
    (h : ConformsTo s msgSpec m) : (Codec.new (some s)).parse (wireText soh (wireFields m.fields))
      = if MsgTypeEarly m.fields
        then dispatchPairs s msgSpec [] ((wireFields m.fields).map tagText)
        else .ok (setFields [] (wireFields m.fields)) := by
  have hin := keyInj_of_inTagRange h.tags
  have hsep : (Codec.new (some s)).sep = soh := rfl
  rw [Codec.parse, hsep, tokenise_wireText (sohFree_wireFields h.plain h.values)]
  dsimp only
  unfold Codec.parsePairs Codec.new
  dsimp only
  rw [if_neg Bool.false_ne_true, findMsgSpec_wireFields h]
  by_cases hearly : MsgTypeEarly m.fields
  · rw [if_pos hearly, if_pos hearly]
    rfl
  · rw [if_neg hearly, if_neg hearly]
    dsimp only
    rw [setPairs_tagText (isInt64_wireFields h.plain m.wf)]

/-- Setting fields one after the other makes no groups. -/
theorem setFields_flat {f : FixFragment} (hf : f.Flat) (l : List Field) : (setFields f l).Flat := by
  induction l generalizing f with
  | nil => exact hf
  | cons e l ih => exact ih (hf.set _ _)

/-- A message with too many fields before MsgType has a group. -/
theorem flat_early {f : FixFragment} (h : f.Flat) : MsgTypeEarly f := by
  have hone : ∀ t, sizeAt f t ≤ 1 := by
    intro t
    rw [sizeAt]
    cases hv : Assoc.find? t f with
    | none => exact Nat.zero_le _
    | some v =>
      obtain ⟨s, hs⟩ := h _ (Assoc.mem_of_find? hv)
      dsimp only at hs
      rw [hs]
      exact Nat.le_refl _
  have h8 := hone tagBeginString
  have h9 := hone tagBodyLength
  rw [MsgTypeEarly]
  omega

/-- What is the same as a flat fragment, recorded tags apart, is flat. -/
theorem flat_of_bare {f g : FixFragment} (hg : g.Flat) (h : g.bare = f.bare) : f.Flat := by
  intro e he
  have hmem : (e.1, e.2.bare) ∈ g.bare := by
    rw [h, FixFragment.bare_eq]
    exact List.mem_map.mpr ⟨e, he, rfl⟩
  rw [FixFragment.bare_eq] at hmem
  obtain ⟨d, hd, heq⟩ := List.mem_map.mp hmem
  obtain ⟨s, hs⟩ := hg d hd
  refine ⟨s, Value.bare_eq_str ?_⟩
  rw [← (Prod.mk.inj heq).2, hs]
  rfl

/-- **Repeating-group round trip.**  A message of the dictionary comes back from the codec exactly
if FirstTag ranks first in every member of every group and MsgType is among the first six fields. -/
theorem roundTrip_iff {s : FixSpec} {msgSpec : MessageSpec} {m : FixMessage}
    (h : ConformsTo s msgSpec m) (σ : SortSlice) :
    RoundTrips s σ m.fields ↔ FirstTagFirst s msgSpec.groups m.fields ∧ MsgTypeEarly m.fields := by
  have hin := keyInj_of_inTagRange h.tags
  have hser : (Codec.new (some s)).serialise σ m.fields
      = .ok (wireText soh (wireFields m.fields)) := by
    have hsep : (Codec.new (some s)).sep = soh := rfl
    rw [Codec.serialise_eq, hsep, writeFragment_eq_wireText hin h.plain]
    rfl
  constructor
  · rintro ⟨out, g, hout, hparse, hbare⟩
    obtain rfl := Except.ok.inj (hser.symm.trans hout)
    rw [parse_wireFields h] at hparse
    by_cases hearly : MsgTypeEarly m.fields
    · rw [if_pos hearly] at hparse
      obtain ⟨F, rfl, hshape, hflat⟩ := dispatchPairs_sound hparse
      refine ⟨firstTagFirst_of_read m.fields m.wf h.plain h.tags h.groups hshape ?_ hbare, hearly⟩
      have hfields : ((wireFields m.fields).map tagText).filterMap Forest.fieldOf
          = wireFields m.fields := by
        rw [List.filterMap_map]
        refine (List.filterMap_congr fun e he => ?_).trans List.filterMap_some
        exact Forest.fieldOf_of_atoi? (atoi?_itoa (isInt64_wireFields h.plain m.wf e he)) e.2
      rw [hflat, hfields]
    · rw [if_neg hearly] at hparse
      obtain rfl := Except.ok.inj hparse
      have hnil : FixFragment.Flat [] := fun _ he => absurd he List.not_mem_nil
      exact absurd (flat_early (flat_of_bare (setFields_flat hnil _) hbare)) hearly
  · rintro ⟨hfirst, hearly⟩
    obtain ⟨F, hF⟩ := exists_canonical m.fields m.wf h.plain h.tags h.groups hfirst
    refine ⟨_, collapse F, hser, ?_, hF.value⟩
    rw [parse_wireFields h, if_pos hearly, ← hF.fields]
    exact Forest.dispatchPairs_complete hF.encodes rfl []

/-! ## An order with its parties -/

/-- Parties: PartyID is the first tag, PartyIDSource and PartyRole may follow. -/
def parties : GroupSpec := ⟨453, 448, [448], [448, 447, 452], []⟩

/-- An order may carry parties. -/
def orderSpec : MessageSpec := ⟨ascii "NewOrderSingle", ascii "D", [], [453], [(453, 0)]⟩

/-- A dictionary with one message type and one group. -/
def partySpec : FixSpec where
  messagesByType ty := if ty = ascii "D" then some orderSpec else none
  groupSpec _ := parties

/-- An order with one party. -/
def orderFields (party : FixFragment) : FixFragment :=
  [(35, .str (ascii "D")), (453, .group 453 448 [party])]

/-- The groups of an order with one party are those of the dictionary. -/
theorem conforms_order {party : FixFragment} (hflat : party.Flat)
    (htags : ∀ u ∈ party.tags, u ∈ parties.tags) {v : Bytes} (hfirst : party.get 448 = some v) :
    Conforms partySpec orderSpec.groups [] (orderFields party) := by
  have hgroup : ∀ t n k ms, (t, Value.group n k ms) ∈ orderFields party →
      t = 453 ∧ ms = [party] := by
    intro t n k ms hmem
    rcases List.mem_cons.mp hmem with heq | hmem
    · cases heq
    · cases List.mem_singleton.mp hmem
      exact ⟨rfl, rfl⟩
  have hnested : Conforms partySpec [] ((orderFields party).tags ++ []) party := by
    have hno : ∀ {t n k ms}, (t, Value.group n k ms) ∉ party := hflat.no_group
    exact .mk (fun _ _ _ => rfl) (fun _ _ _ _ h => absurd h hno) (fun _ _ _ _ h => absurd h hno)
      (fun _ _ _ _ _ h => absurd h hno) (fun _ _ _ _ _ h => absurd h hno)
      (fun _ _ _ _ _ h => absurd h hno) (fun _ _ _ _ _ h => absurd h hno)
  have hapart : ∀ u ∈ parties.tags, u ∉ [(35 : ℤ), 453] ++ [] := by decide
  refine .mk ?_ ?_ ?_ ?_ ?_ ?_ ?_
  · intro t v hmem
    rcases List.mem_cons.mp hmem with heq | hmem
    · cases heq
      rfl
    · cases List.mem_singleton.mp hmem
  · intro t n k ms hmem
    rw [(hgroup t n k ms hmem).1]
    exact ⟨0, rfl⟩
  · intro t n k ms hmem
    rw [(hgroup t n k ms hmem).2, List.length_singleton]
    decide
  · exact fun t n k ms _ _ _ => hapart
  · intro t n k ms _ hmem _ m hm
    rw [(hgroup t n k ms hmem).2, List.mem_singleton] at hm
    exact ⟨v, hm ▸ hfirst⟩
  · intro t n k ms _ hmem _ m hm
    rw [(hgroup t n k ms hmem).2, List.mem_singleton] at hm
    exact hm ▸ htags
  · intro t n k ms _ hmem _ m hm
    rw [(hgroup t n k ms hmem).2, List.mem_singleton] at hm
    exact hm ▸ hnested

theorem firstTagFirst_of_flat {s : FixSpec} {groups : List (ℤ × GroupRef)} {f : FixFragment}
    (h : f.Flat) : FirstTagFirst s groups f :=
  .mk (fun _ _ _ _ _ hmem => absurd hmem h.no_group) fun _ _ _ _ _ hmem => absurd hmem h.no_group

/-- An order whose party has a PartyRole. -/
def orderWithRole : FixMessage where
  fields := orderFields [(448, .str (ascii "A")), (452, .str (ascii "3"))]
  wf := by decide

/-- PartyID ranks first in that party, so the order comes back. -/
theorem roundTrip_role : RoundTrips partySpec .stable orderWithRole.fields := by
  have hconf : ConformsTo partySpec orderSpec orderWithRole :=
    ⟨by decide, by decide, by decide, ⟨ascii "D", rfl, rfl⟩,
      conforms_order (by decide) (by decide) rfl⟩
  refine (roundTrip_iff hconf .stable).mpr ⟨.mk ?_ ?_, by decide⟩
  · intro t n k ms ref hmem _ m hm
    rcases List.mem_cons.mp hmem with heq | hmem
    · cases heq
    · cases List.mem_singleton.mp hmem
      rw [List.mem_singleton.mp hm]
      change ∀ u ∈ ([448, 452] : List ℤ), tagSortKey 448 ≤ tagSortKey u
      decide
  · intro t n k ms ref hmem _ m hm
    rcases List.mem_cons.mp hmem with heq | hmem
    · cases heq
    · cases List.mem_singleton.mp hmem
      rw [List.mem_singleton.mp hm]
      exact firstTagFirst_of_flat (by decide)

/-- An order whose party has a PartyIDSource, which ranks before PartyID. -/
def orderWithSource : FixMessage where
  fields := orderFields [(447, .str (ascii "D")), (448, .str (ascii "A"))]
  wf := by decide

/-- That order conforms to the dictionary and does not come back: the parser finds no member, and
takes the fields of the party for fields of the order. -/
theorem roundTrip_fails : ConformsTo partySpec orderSpec orderWithSource
    ∧ ¬ RoundTrips partySpec .stable orderWithSource.fields := by
  refine ⟨⟨by decide, by decide, by decide, ⟨ascii "D", rfl, rfl⟩,
    conforms_order (by decide) (by decide) rfl⟩, ?_⟩
  rintro ⟨out, g, hout, hparse, hbare⟩
  have hwire : (Codec.new (some partySpec)).serialise .stable orderWithSource.fields
      = .ok (ascii "35=D\x01453=1\x01447=D\x01448=A\x01") := by decide +kernel
  obtain rfl := Except.ok.inj (hwire.symm.trans hout)
  have hread : ((Codec.new (some partySpec)).parse
      (ascii "35=D\x01453=1\x01447=D\x01448=A\x01")).map (FixFragment.contains · 447)
        = .ok true := by decide +kernel
  rw [hparse] at hread
  have htop : 447 ∈ g.tags := FixFragment.contains_iff.mp (Except.ok.inj hread)
  rw [← FixFragment.tags_bare, hbare, FixFragment.tags_bare] at htop
  exact absurd htop (by decide)

end FixMsg
