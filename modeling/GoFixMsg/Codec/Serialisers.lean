import GoFixMsg.Message.FixMessage

/-!
# Codec/Serialisers — two serialisers, one canonical order

The built-in serialiser and the codec's have each its own copy of the rank of a tag and of the
recursive writer.  The copies agree, and where the tags are in range neither the order of the maps
nor `sort.Slice` has a say: what is written is the listing of the message (`serialisers_agree`),
each fragment with its header tags first, then all others in ascending order, then the trailer.

The listing is computed without any rank: header tags in the order of the header, then the others by
their number, then the trailer.  That is what a reader of the protocol expects to see; that sorting
by rank gives it is the content of the module.
-/

open GoLang

namespace FixMsg

/-- `TrailerTags`: the trailer tags in the order they are written. -/
def trailerTags : List ℤ := [93, 89, 10]

/-- The tags of a fragment that are neither header nor trailer tags, in ascending order. -/
def otherTags (f : FixFragment) : List ℤ :=
  f.tags.filter fun t => t ∉ headerTags ∧ t ∉ trailerTags

/-- **The canonical order of the tags of a fragment**: the header tags, all others, the trailer. -/
def orderedTags (f : FixFragment) : List ℤ :=
  headerTags.filter (· ∈ f.tags) ++ (otherTags f ++ trailerTags.filter (· ∈ f.tags))

mutual

/-- The fields of a value: a string is one, a group its count and then its members in order. -/
def Value.listing (tag : ℤ) : Value → List Field
  | .str s => [(tag, s)]
  | .group _ _ ms => (tag, itoa ms.length) :: membersListing ms
  | .nilGroup => []
  | .other => []

/-- The fields of the members of a group, each in the canonical order of its tags. -/
def membersListing : List FixFragment → List Field
  | [] => []
  | m :: ms =>
      (orderedTags m).flatMap (fun t => (Assoc.find? t (entriesListing m)).getD [])
        ++ membersListing ms

/-- The fields under each tag of a fragment. -/
def entriesListing : FixFragment → List (ℤ × List Field)
  | [] => []
  | (t, v) :: rest => (t, v.listing t) :: entriesListing rest

end

/-- **The listing of a fragment**: its fields in the canonical order. -/
def FixFragment.listing (f : FixFragment) : List Field :=
  (orderedTags f).flatMap fun t => (Assoc.find? t (entriesListing f)).getD []

theorem membersListing_eq (ms : List FixFragment) :
    membersListing ms = ms.flatMap FixFragment.listing := by
  induction ms with
  | nil => rfl
  | cons m ms ih =>
    rw [membersListing, ih, List.flatMap_cons]
    rfl

theorem find?_entriesListing (t : ℤ) (f : FixFragment) :
    Assoc.find? t (entriesListing f) = (Assoc.find? t f).map (Value.listing t) := by
  induction f with
  | nil => rfl
  | cons e f ih =>
    obtain ⟨u, v⟩ := e
    rw [entriesListing, Assoc.find?_cons, Assoc.find?_cons]
    split
    · next h => rw [h]; rfl
    · exact ih

/-! ## The canonical order -/

theorem mem_orderedTags {f : FixFragment} {t : ℤ} : t ∈ orderedTags f ↔ t ∈ f.tags := by
  simp only [orderedTags, otherTags, List.mem_append, List.mem_filter, decide_eq_true_eq]
  tauto

/-- **Each tag comes once.** -/
theorem orderedTags_perm {f : FixFragment} (hsorted : Assoc.Sorted f) :
    (orderedTags f).Perm f.tags := by
  have hheader : headerTags.Nodup := by decide
  have htrailer : trailerTags.Nodup := by decide
  have hapart : ∀ t ∈ headerTags, t ∉ trailerTags := by decide
  refine (List.perm_ext_iff_of_nodup ?_ hsorted.nodup).mpr fun _ => mem_orderedTags
  refine List.nodup_append.mpr ⟨hheader.filter _, List.nodup_append.mpr
    ⟨hsorted.nodup.filter _, htrailer.filter _, ?_⟩, ?_⟩
  · rintro a ha b hb rfl
    have hother := List.mem_filter.mp ha
    rw [decide_eq_true_eq] at hother
    exact hother.2.2 (List.mem_of_mem_filter hb)
  · rintro a ha b hb rfl
    rcases List.mem_append.mp hb with hb | hb
    · have hother := List.mem_filter.mp hb
      rw [decide_eq_true_eq] at hother
      exact hother.2.1 (List.mem_of_mem_filter ha)
    · exact hapart a (List.mem_of_mem_filter ha) (List.mem_of_mem_filter hb)

/-- A tag in range that is in neither list ranks by its number. -/
theorem rank_otherTags {f : FixFragment} (htags : ∀ t ∈ f.tags, InTagRange t) {t : ℤ}
    (ht : t ∈ otherTags f) : InTagRange t ∧ tagSortKey t = 30 + t := by
  obtain ⟨hmem, hother⟩ := List.mem_filter.mp ht
  rw [decide_eq_true_eq] at hother
  obtain ⟨hheader, htrailer⟩ := hother
  have hrange := htags t hmem
  refine ⟨hrange, ?_⟩
  rcases tagSortKey_cases hrange with ⟨i, hi, rfl, -⟩ | ⟨-, h⟩ | ⟨rfl, -⟩ | ⟨rfl, -⟩ | ⟨rfl, -⟩
  · exact absurd (List.getElem_mem hi) hheader
  · exact h
  all_goals exact absurd (by decide) htrailer

/-- **The ranks ascend along the canonical order.** -/
theorem orderedTags_pairwise {f : FixFragment} (hsorted : Assoc.Sorted f)
    (htags : ∀ t ∈ f.tags, InTagRange t) :
    (orderedTags f).Pairwise fun a b => tagSortKey a ≤ tagSortKey b := by
  have hheader : headerTags.Pairwise fun a b => tagSortKey a ≤ tagSortKey b := by decide
  have htrailer : trailerTags.Pairwise fun a b => tagSortKey a ≤ tagSortKey b := by decide
  have hlow : ∀ t ∈ headerTags, tagSortKey t < 30 := by decide
  have hhigh : ∀ t ∈ trailerTags, 2 ^ 30 - 3 ≤ tagSortKey t := by decide
  have hother : (otherTags f).Pairwise fun a b => tagSortKey a ≤ tagSortKey b := by
    have hasc : (otherTags f).Pairwise (· < ·) := List.Pairwise.filter _ hsorted
    refine hasc.imp_of_mem fun {a b} ha hb hlt => ?_
    rw [(rank_otherTags htags ha).2, (rank_otherTags htags hb).2]
    omega
  refine List.pairwise_append.mpr ⟨hheader.filter _, List.pairwise_append.mpr
    ⟨hother, htrailer.filter _, fun a ha b hb => ?_⟩, fun a ha b hb => ?_⟩
  · obtain ⟨⟨-, hlt⟩, hkey⟩ := rank_otherTags htags ha
    have hb' := hhigh b (List.mem_of_mem_filter hb)
    omega
  · have ha' := hlow a (List.mem_of_mem_filter ha)
    rcases List.mem_append.mp hb with hb | hb
    · obtain ⟨⟨hpos, -⟩, hkey⟩ := rank_otherTags htags hb
      omega
    · have hb' := hhigh b (List.mem_of_mem_filter hb)
      omega

/-- So it is the order in which the serialisers write. -/
theorem canonicalTags_eq_orderedTags {f : FixFragment} (hsorted : Assoc.Sorted f)
    (htags : ∀ t ∈ f.tags, InTagRange t) : canonicalTags f = orderedTags f :=
  SortSlice.stable.run_eq_of_sorted
    (fun a ha b hb => tagSortKey_injOn (htags a ha) (htags b hb)) (orderedTags_perm hsorted)
    (orderedTags_pairwise hsorted htags)

/-- **What is written of strings and groups is their listing.** -/
theorem wireFields_eq_listing (f : FixFragment) (hwf : f.WF) (htags : f.AllTags InTagRange)
    (hplain : f.Plain) : wireFields f = f.listing := by
  induction f using FixFragment.induction with
  | step f ih =>
    rw [wireFields_eq (keyInj_of_inTagRange htags) hplain, FixFragment.listing,
      canonicalTags_eq_orderedTags hwf.sorted (htags f (self_mem_fragments f))]
    refine List.flatMap_congr fun t _ => ?_
    rw [find?_entriesListing, fieldsAt]
    cases hv : Assoc.find? t f with
    | none => rfl
    | some v =>
      have hmem := Assoc.mem_of_find? hv
      rcases hplain f (self_mem_fragments f) _ hmem with ⟨s, hs⟩ | ⟨n, k, ms, hg⟩
      · dsimp only at hs
        subst hs
        rfl
      · dsimp only at hg
        subst hg
        have hms : ms.flatMap wireFields = membersListing ms := by
          rw [membersListing_eq]
          exact List.flatMap_congr fun m hm => ih t n k ms hmem m hm (hwf.member hmem hm)
            (htags.member hmem hm) (hplain.member hmem hm)
        exact congrArg _ hms

/-! ## What can be written -/

/-- Where the members of a group are written without fault, so is each of them. -/
theorem fault_of_writeMembers {σ : SortSlice} {key : ℤ → ℤ} {p : Path} {tag : ℤ} {i : ℕ}
    {ms : List FixFragment} (h : (writeMembers token σ key p tag i ms).fault = none) :
    ∀ m ∈ ms, ∃ q, (writeFragment token σ key q m).fault = none := by
  induction ms generalizing i with
  | nil => exact fun _ hm => absurd hm List.not_mem_nil
  | cons m ms ih =>
    rw [writeMembers_cons, Written.andThen] at h
    split at h
    · next hfirst =>
      intro m' hm'
      rcases List.mem_cons.mp hm' with rfl | hm'
      · exact ⟨_, hfirst⟩
      · exact ih h m' hm'
    · next e hfirst =>
      rw [hfirst] at h
      cases h

/-- **Only strings and groups are written without fault.** -/
theorem plain_of_fault {σ : SortSlice} {key : ℤ → ℤ} (f : FixFragment) (hwf : f.WF) {p : Path}
    (h : (writeFragment token σ key p f).fault = none) : f.Plain := by
  induction f using FixFragment.induction generalizing p with
  | step f ih =>
    have hat : ∀ e ∈ f, (writeTree token σ key p e.1 e.2).fault = none := by
      intro e he
      have hfind : Assoc.find? e.1 f = some e.2 := hwf.sorted.find?_eq_some_iff.mpr he
      have hmem : e.1 ∈ σ.run p key f.tags := σ.mem_run.mpr (List.mem_map.mpr ⟨e, he, rfl⟩)
      have hfault := (inOrder_out h).1 e.1 hmem
      rwa [find?_writeFields, hfind] at hfault
    have hmembers : ∀ t n k ms, (t, Value.group n k ms) ∈ f → ∀ m ∈ ms, FixFragment.Plain m := by
      intro t n k ms hmem m hm
      have hgroup := hat _ hmem
      rw [writeTree, Written.ok_andThen] at hgroup
      obtain ⟨q, hq⟩ := fault_of_writeMembers hgroup m hm
      exact ih t n k ms hmem m hm (hwf.member hmem hm) hq
    intro g hg e he
    rcases mem_fragments_cases hg with rfl | ⟨t, n, k, ms, hmem, m, hm, hin⟩
    · have hfault := hat e he
      obtain ⟨t, v⟩ := e
      cases v with
      | str s => exact Or.inl ⟨s, rfl⟩
      | group n k ms => exact Or.inr ⟨n, k, ms, rfl⟩
      | nilGroup | other => cases hfault
    · exact hmembers t n k ms hmem m hm g hin e he

/-! ## The serialisers -/

/-- **The serialisers agree and emit the canonical order**: whatever the dictionary and the order of
the maps, they fail alike or write the listing of the message, in which the tags of every fragment
come once each, those besides header and trailer in ascending order. -/
theorem serialisers_agree {m : FixMessage} (htags : m.fields.AllTags InTagRange)
    (s : Option FixSpec) (σ τ : SortSlice) :
    (Codec.new s).serialise σ m.fields = defaultSerialise τ m.fields
      ∧ ∀ out, defaultSerialise τ m.fields = .ok out → out = wireText soh m.fields.listing
        ∧ ∀ g ∈ m.fields.fragments, (orderedTags g).Perm g.tags
          ∧ (otherTags g).Pairwise (· < ·) := by
  have hinj := keyInj_of_inTagRange htags
  refine ⟨?_, fun out hout => ⟨?_, fun g hg => ?_⟩⟩
  · rw [Codec.serialise_eq, defaultSerialise_eq, writeFragment_congr _ σ τ m.fields hinj [] []]
    rfl
  · rw [defaultSerialise_eq, Written.toExcept_eq_ok_iff] at hout
    have hfault : (writeFragment token τ tagSortKey [] m.fields).fault = none := by
      have hsome := congrArg Written.fault hout
      rwa [writeFragment_fieldText] at hsome
    have hplain := plain_of_fault m.fields m.wf hfault
    rw [writeFragment_eq_wireText hinj hplain] at hout
    rw [← wireFields_eq_listing m.fields m.wf htags hplain]
    exact (congrArg Written.out hout).symm
  · have hsorted := (m.wf g hg).1
    exact ⟨orderedTags_perm hsorted, List.Pairwise.filter _ hsorted⟩

/-- An order with a group in a group. -/
def nestedOrder : FixMessage where
  fields :=
    [(8, .str (ascii "FIX.4.4")), (10, .str (ascii "000")), (35, .str (ascii "D")),
      (55, .str (ascii "IBM")),
      (453, .group 453 448 [[(447, .str (ascii "D")), (448, .str (ascii "A")),
        (802, .group 802 523 [[(523, .str (ascii "C"))]])]])]
  wf := by decide

/-- The serialisers agree on it. -/
theorem serialisers_agree_nestedOrder :
    (Codec.new none).serialise .stable nestedOrder.fields
      = defaultSerialise .stable nestedOrder.fields :=
  (serialisers_agree (by decide) none .stable .stable).1

end FixMsg
