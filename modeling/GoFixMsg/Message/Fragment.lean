import GoFixMsg.Machinery.SortedAssoc
import GoFixMsg.Message.Tags

/-!
# Message/Fragment — the tag → value maps messages and group members are made of

`FixFragment` is Go's `map[int]any`, written as the list of its entries in ascending tag order, so
that equal maps are equal lists.  The order in which Go ranges over a map is not this order:
whoever ranges over a fragment asks a `SortSlice` (`Message/Writer`) for it.

A value is a string, a pointer to a group, or something that no serialiser accepts; a group holds
its members in order, and the two tags it records.  That a fragment is a Go map, its tags in order
and each an `int`, and so at every depth, is `WF`, and a message carries it (`FixMessage`).
-/

open GoLang

namespace FixMsg

/-- What a fragment holds under a tag: a string, a `*RepeatingGroup` with its members, a nil
`*RepeatingGroup`, or a value of a type no serialiser knows. -/
inductive Value where
  | str (s : Bytes)
  | group (numberTag firstTag : ℤ) (members : List (List (ℤ × Value)))
  | nilGroup
  | other

/-- `FixFragment`: a tag → value map. -/
abbrev FixFragment := List (ℤ × Value)

/-! ## The fragments inside a fragment

A property of a message usually has to hold at every depth.  It is then stated over `fragments`, and
proved by induction over the members of the groups. -/

mutual

/-- Every fragment inside a value, at any depth. -/
def Value.inner : Value → List FixFragment
  | .group _ _ ms => innerMembers ms
  | _ => []

/-- Every fragment among the members of a group, at any depth. -/
def innerMembers : List FixFragment → List FixFragment
  | [] => []
  | m :: ms => m :: (innerFields m ++ innerMembers ms)

/-- Every fragment strictly inside a fragment, at any depth. -/
def innerFields : FixFragment → List FixFragment
  | [] => []
  | (_, v) :: rest => v.inner ++ innerFields rest

end

/-- **A fragment together with every fragment inside it.** -/
def FixFragment.fragments (f : FixFragment) : List FixFragment := f :: innerFields f

open FixFragment (fragments)

theorem innerMembers_eq (ms : List FixFragment) : innerMembers ms = ms.flatMap fragments := by
  induction ms with
  | nil => rfl
  | cons m ms ih => rw [innerMembers, ih, List.flatMap_cons, fragments, List.cons_append]

theorem innerFields_eq (f : FixFragment) : innerFields f = f.flatMap fun e => e.2.inner := by
  induction f with
  | nil => rfl
  | cons e f ih => rw [innerFields, ih, List.flatMap_cons]

theorem self_mem_fragments (f : FixFragment) : f ∈ fragments f := List.mem_cons_self

/-- A member of a group, and all that is inside it, is inside the fragment holding the group. -/
theorem mem_fragments_of_member {f m g : FixFragment} {t n k : ℤ} {ms : List FixFragment}
    (hf : (t, Value.group n k ms) ∈ f) (hm : m ∈ ms) (hg : g ∈ fragments m) : g ∈ fragments f := by
  refine List.mem_cons_of_mem _ ?_
  rw [innerFields_eq, List.mem_flatMap]
  refine ⟨_, hf, ?_⟩
  rw [Value.inner, innerMembers_eq, List.mem_flatMap]
  exact ⟨m, hm, hg⟩

/-- What is inside a fragment is the fragment itself, or is inside a member of one of its groups. -/
theorem mem_fragments_cases {f g : FixFragment} (hg : g ∈ fragments f) :
    g = f ∨ ∃ t n k ms, (t, Value.group n k ms) ∈ f ∧ ∃ m ∈ ms, g ∈ fragments m := by
  refine (List.mem_cons.mp hg).imp_right fun hin => ?_
  rw [innerFields_eq, List.mem_flatMap] at hin
  obtain ⟨⟨t, v⟩, hmem, hv⟩ := hin
  cases v with
  | group n k ms =>
    rw [Value.inner, innerMembers_eq, List.mem_flatMap] at hv
    exact ⟨t, n, k, ms, hmem, hv⟩
  | str | nilGroup | other => cases hv

theorem sizeOf_member_lt {f m : FixFragment} {t n k : ℤ} {ms : List FixFragment}
    (hf : (t, Value.group n k ms) ∈ f) (hm : m ∈ ms) : sizeOf m < sizeOf f := by
  have h1 := List.sizeOf_lt_of_mem hf
  have h2 := List.sizeOf_lt_of_mem hm
  simp only [Prod.mk.sizeOf_spec, Value.group.sizeOf_spec] at h1
  omega

/-- **Induction over the members of the groups of a fragment.** -/
theorem FixFragment.induction {motive : FixFragment → Prop}
    (step : ∀ f : FixFragment, (∀ t n k ms, (t, Value.group n k ms) ∈ f → ∀ m ∈ ms, motive m) →
      motive f) (f : FixFragment) : motive f := by
  induction hsize : sizeOf f using Nat.strongRecOn generalizing f with
  | ind size ih =>
    refine step f fun t n k ms hf m hm => ih (sizeOf m) ?_ m rfl
    rw [← hsize]
    exact sizeOf_member_lt hf hm

/-! ## The operations of a fragment -/

namespace FixFragment

/-- The tags present directly in a fragment. -/
abbrev tags (f : FixFragment) : List ℤ := Assoc.keys f

/-- `Get`: the string under a tag; `none` for `("", false)`. -/
def get (f : FixFragment) (tag : ℤ) : Option Bytes :=
  match Assoc.find? tag f with
  | some (.str s) => some s
  | _ => none

/-- `v, _ := Get(tag)`: a missing string reads as the empty one. -/
def getD (f : FixFragment) (tag : ℤ) : Bytes := (f.get tag).getD []

/-- `Contains`: a string or a group stands under the tag. -/
def contains (f : FixFragment) (tag : ℤ) : Bool := (Assoc.find? tag f).isSome

/-- `Set`. -/
def set (f : FixFragment) (tag : ℤ) (value : Bytes) : FixFragment :=
  Assoc.insert tag (.str value) f

/-- `SetGroup`, with a group of the given members. -/
def setGroup (f : FixFragment) (tag : ℤ) (numberTag firstTag : ℤ) (members : List FixFragment) :
    FixFragment :=
  Assoc.insert tag (.group numberTag firstTag members) f

theorem get_eq_some_iff {f : FixFragment} {tag : ℤ} {s : Bytes} :
    f.get tag = some s ↔ Assoc.find? tag f = some (.str s) := by
  unfold get
  split
  · next h => simp [h]
  · next h =>
    constructor
    · intro hs; cases hs
    · intro hs; exact absurd hs (h s)

theorem getD_of_get {f : FixFragment} {tag : ℤ} {s : Bytes} (h : f.get tag = some s) :
    f.getD tag = s := by
  rw [getD, h]
  rfl

theorem contains_iff {f : FixFragment} {tag : ℤ} : f.contains tag = true ↔ tag ∈ f.tags :=
  Assoc.find?_isSome_iff

theorem contains_of_get {f : FixFragment} {tag : ℤ} {s : Bytes} (h : f.get tag = some s) :
    f.contains tag = true := by
  rw [contains, get_eq_some_iff.mp h]
  rfl

theorem mem_tags_of_get {f : FixFragment} {tag : ℤ} {s : Bytes} (h : f.get tag = some s) :
    tag ∈ f.tags := contains_iff.mp (contains_of_get h)

@[simp] theorem get_set_self (f : FixFragment) (tag : ℤ) (s : Bytes) :
    (f.set tag s).get tag = some s := by
  rw [get_eq_some_iff, set, Assoc.find?_insert_self]

theorem get_set_of_ne (f : FixFragment) {tag u : ℤ} (h : u ≠ tag) (s : Bytes) :
    (f.set tag s).get u = f.get u := by
  rw [get, set, Assoc.find?_insert_of_ne h, get]

theorem get_set (f : FixFragment) (tag u : ℤ) (s : Bytes) :
    (f.set tag s).get u = if u = tag then some s else f.get u := by
  split
  · next h => rw [h, get_set_self]
  · next h => exact get_set_of_ne f h s

theorem contains_set (f : FixFragment) (tag u : ℤ) (s : Bytes) :
    (f.set tag s).contains u = (decide (u = tag) || f.contains u) := by
  rw [contains, set, Assoc.find?_insert, contains]
  split
  · next h => simp [h]
  · next h => simp [h]

theorem mem_tags_set {f : FixFragment} {tag u : ℤ} {s : Bytes} :
    u ∈ (f.set tag s).tags ↔ u = tag ∨ u ∈ f.tags := Assoc.mem_keys_insert

/-- **A fragment is a Go map**: its entries, and those of every fragment inside it, are in strictly
ascending tag order, and the tags are Go `int`s. -/
def WF (f : FixFragment) : Prop :=
  ∀ g ∈ f.fragments, Assoc.Sorted g ∧ ∀ t ∈ g.tags, IsInt64 t

instance (f : FixFragment) : Decidable f.WF :=
  inferInstanceAs (Decidable (∀ g ∈ f.fragments, Assoc.Sorted g ∧ ∀ t ∈ g.tags, IsInt64 t))

theorem WF.sorted {f : FixFragment} (h : f.WF) : Assoc.Sorted f := (h f (self_mem_fragments f)).1

theorem WF.isInt64 {f : FixFragment} (h : f.WF) {t : ℤ} (ht : t ∈ f.tags) : IsInt64 t :=
  (h f (self_mem_fragments f)).2 t ht

theorem WF.member {f m : FixFragment} (h : f.WF) {t n k : ℤ} {ms : List FixFragment}
    (hf : (t, Value.group n k ms) ∈ f) (hm : m ∈ ms) : m.WF := fun g hg =>
  h g (mem_fragments_of_member hf hm hg)

theorem wf_nil : WF [] := by decide

/-- A fragment is well formed when it is in order and every fragment inside its values is. -/
theorem wf_iff {f : FixFragment} :
    f.WF ↔ Assoc.Sorted f ∧ (∀ t ∈ f.tags, IsInt64 t)
      ∧ ∀ t n k ms, (t, Value.group n k ms) ∈ f → ∀ m ∈ ms, WF m := by
  refine ⟨fun h => ⟨h.sorted, fun _ => h.isInt64, fun _ _ _ _ hf _ hm => h.member hf hm⟩, ?_⟩
  rintro ⟨hs, ht, hm⟩ g hg
  rcases mem_fragments_cases hg with rfl | ⟨t, n, k, ms, hmem, m, hmm, hin⟩
  · exact ⟨hs, ht⟩
  · exact hm t n k ms hmem m hmm g hin

/-- **Setting a string keeps a fragment well formed.** -/
theorem WF.set {f : FixFragment} (h : f.WF) {tag : ℤ} (ht : IsInt64 tag) (s : Bytes) :
    (f.set tag s).WF := by
  obtain ⟨hs, hi, hm⟩ := wf_iff.mp h
  refine wf_iff.mpr ⟨hs.insert _ _, fun u hu => ?_, fun t n k ms hmem => ?_⟩
  · rcases mem_tags_set.mp hu with rfl | hu
    · exact ht
    · exact hi u hu
  · rcases Assoc.mem_insert hmem with heq | hmem
    · cases heq
    · exact hm t n k ms hmem

/-- **Setting a group of well-formed members keeps a fragment well formed.** -/
theorem WF.setGroup {f : FixFragment} (h : f.WF) {tag : ℤ} (ht : IsInt64 tag) {n k : ℤ}
    {ms : List FixFragment} (hms : ∀ m ∈ ms, WF m) : (f.setGroup tag n k ms).WF := by
  obtain ⟨hs, hi, hm⟩ := wf_iff.mp h
  refine wf_iff.mpr ⟨hs.insert _ _, fun u hu => ?_, fun t n' k' ms' hmem => ?_⟩
  · rcases Assoc.mem_keys_insert.mp hu with rfl | hu
    · exact ht
    · exact hi u hu
  · rcases Assoc.mem_insert hmem with heq | hmem
    · cases heq
      exact hms
    · exact hm t n' k' ms' hmem

/-- Every value is a string: no groups. -/
def Flat (f : FixFragment) : Prop := ∀ e ∈ f, ∃ s, e.2 = .str s

/-- Every value, at any depth, is a string or a group that is there. -/
def Plain (f : FixFragment) : Prop :=
  ∀ g ∈ f.fragments, ∀ e ∈ g, (∃ s, e.2 = .str s) ∨ ∃ n k ms, e.2 = .group n k ms

/-- Every tag, at any depth, has the property. -/
def AllTags (p : ℤ → Prop) (f : FixFragment) : Prop := ∀ g ∈ f.fragments, ∀ t ∈ g.tags, p t

/-- Every string value, at any depth, has the property. -/
def AllStrings (p : Bytes → Prop) (f : FixFragment) : Prop :=
  ∀ g ∈ f.fragments, ∀ e ∈ g, ∀ s, e.2 = .str s → p s

instance (v : Value) : Decidable (∃ s, v = .str s) :=
  match v with
  | .str s => isTrue ⟨s, rfl⟩
  | .group .. | .nilGroup | .other => isFalse nofun

instance (v : Value) : Decidable (∃ n k ms, v = .group n k ms) :=
  match v with
  | .group n k ms => isTrue ⟨n, k, ms, rfl⟩
  | .str _ | .nilGroup | .other => isFalse nofun

instance (v : Value) (p : Bytes → Prop) [DecidablePred p] : Decidable (∀ s, v = .str s → p s) :=
  match v with
  | .str s => decidable_of_iff (p s) ⟨fun h _ hs => (Value.str.inj hs) ▸ h, fun h => h s rfl⟩
  | .group .. | .nilGroup | .other => isTrue nofun

instance (f : FixFragment) : Decidable f.Flat :=
  inferInstanceAs (Decidable (∀ e ∈ f, ∃ s, e.2 = .str s))

instance (f : FixFragment) : Decidable f.Plain :=
  inferInstanceAs (Decidable (∀ g ∈ f.fragments, ∀ e ∈ g, _ ∨ _))

instance (p : ℤ → Prop) [DecidablePred p] (f : FixFragment) : Decidable (f.AllTags p) :=
  inferInstanceAs (Decidable (∀ g ∈ f.fragments, ∀ t ∈ g.tags, p t))

instance (p : Bytes → Prop) [DecidablePred p] (f : FixFragment) : Decidable (f.AllStrings p) :=
  inferInstanceAs (Decidable (∀ g ∈ f.fragments, ∀ e ∈ g, ∀ s, e.2 = .str s → p s))

/-- Setting a string adds no fragment inside. -/
theorem mem_innerFields_set {f g : FixFragment} {tag : ℤ} {s : Bytes}
    (h : g ∈ innerFields (f.set tag s)) : g ∈ innerFields f := by
  rw [innerFields_eq, List.mem_flatMap] at h ⊢
  obtain ⟨e, he, hg⟩ := h
  rcases Assoc.mem_insert he with rfl | he
  · cases hg
  · exact ⟨e, he, hg⟩

theorem Flat.set {f : FixFragment} (h : f.Flat) (tag : ℤ) (s : Bytes) : (f.set tag s).Flat := by
  intro e he
  rcases Assoc.mem_insert he with rfl | he
  · exact ⟨s, rfl⟩
  · exact h e he

theorem Plain.set {f : FixFragment} (h : f.Plain) (tag : ℤ) (s : Bytes) :
    (f.set tag s).Plain := by
  intro g hg e he
  rcases List.mem_cons.mp hg with rfl | hg
  · rcases Assoc.mem_insert he with rfl | he
    · exact Or.inl ⟨s, rfl⟩
    · exact h f (self_mem_fragments f) e he
  · exact h g (List.mem_cons_of_mem _ (mem_innerFields_set hg)) e he

theorem AllTags.set {P : ℤ → Prop} {f : FixFragment} (h : f.AllTags P) {tag : ℤ} (ht : P tag)
    (s : Bytes) : (f.set tag s).AllTags P := by
  intro g hg t htg
  rcases List.mem_cons.mp hg with rfl | hg
  · rcases mem_tags_set.mp htg with rfl | htg
    · exact ht
    · exact h f (self_mem_fragments f) t htg
  · exact h g (List.mem_cons_of_mem _ (mem_innerFields_set hg)) t htg

theorem AllStrings.set {P : Bytes → Prop} {f : FixFragment} (h : f.AllStrings P) (tag : ℤ)
    {s : Bytes} (hs : P s) : (f.set tag s).AllStrings P := by
  intro g hg e he u hu
  rcases List.mem_cons.mp hg with rfl | hg
  · rcases Assoc.mem_insert he with rfl | he
    · cases hu
      exact hs
    · exact h f (self_mem_fragments f) e he u hu
  · exact h g (List.mem_cons_of_mem _ (mem_innerFields_set hg)) e he u hu

end FixFragment

/-- **A message**: the fragment it embeds, which is a Go map. -/
structure FixMessage where
  fields : FixFragment
  wf : fields.WF

namespace FixMessage

/-- `NewFixMessage`. -/
def empty : FixMessage := ⟨[], FixFragment.wf_nil⟩

/-- `Set`, on a tag that is a Go `int`. -/
def set (m : FixMessage) (tag : ℤ) (ht : IsInt64 tag) (value : Bytes) : FixMessage :=
  ⟨m.fields.set tag value, m.wf.set ht value⟩

end FixMessage

end FixMsg
