import GoFixMsg.Message.Writer

/-!
# Message/Fields — what a fragment writes, field by field

Three facts about `writeTree` carry every statement about the wire:

* where the ranks of the tags differ at every depth, map order and `sort.Slice` have no say
  (`writeFragment_congr`);
* a fragment of strings and groups is written without fault (`writeFragment_fault`);
* such a fragment is written in the order of its tags, each string as one field and each group as
  its count followed by its members (`wireFields_eq`).

The first is about what does not matter, the second about what cannot go wrong, and the third about
what comes out.  Where ranks are taken twice, only the second is left of them: the fields of a
fragment are then written in some order, and what holds of every string and every count still holds
of every field that is written (`forall_writeFragment`).
-/

open GoLang

namespace FixMsg

open FixFragment (fragments)

/-- At every depth, no two tags of a fragment rank alike. -/
def KeyInj (key : ℤ → ℤ) (f : FixFragment) : Prop :=
  ∀ g ∈ f.fragments, ∀ a ∈ g.tags, ∀ b ∈ g.tags, key a = key b → a = b

theorem KeyInj.member {key : ℤ → ℤ} {f m : FixFragment} (h : KeyInj key f) {t n k : ℤ}
    {ms : List FixFragment} (hf : (t, Value.group n k ms) ∈ f) (hm : m ∈ ms) : KeyInj key m :=
  fun g hg => h g (mem_fragments_of_member hf hm hg)

/-- Tags in range never rank alike. -/
theorem keyInj_of_inTagRange {f : FixFragment} (h : f.AllTags InTagRange) : KeyInj tagSortKey f :=
  fun g hg _ ha _ hb => tagSortKey_injOn (h g hg _ ha) (h g hg _ hb)

section Order

variable {γ : Type} (emit : ℤ → Bytes → List γ) (σ τ : SortSlice) {key : ℤ → ℤ}

theorem writeMembers_congr {ms : List FixFragment} {p q : Path} {tag : ℤ}
    (h : ∀ m ∈ ms, ∀ p q, writeFragment emit σ key p m = writeFragment emit τ key q m) (i : ℕ) :
    writeMembers emit σ key p tag i ms = writeMembers emit τ key q tag i ms := by
  induction ms generalizing i with
  | nil => rfl
  | cons m ms ih =>
    rw [writeMembers_cons, writeMembers_cons, h m List.mem_cons_self _ ((tag, i) :: q),
      ih (fun m' hm' => h m' (List.mem_cons_of_mem _ hm'))]

/-- A field is written alike wherever its members are. -/
theorem writeTree_congr_of_members {v : Value} {p q : Path} {tag : ℤ}
    (h : ∀ n k ms, v = .group n k ms → ∀ m ∈ ms, ∀ p q,
      writeFragment emit σ key p m = writeFragment emit τ key q m) :
    writeTree emit σ key p tag v = writeTree emit τ key q tag v := by
  cases v with
  | group n k ms => rw [writeTree, writeTree, writeMembers_congr emit σ τ (h n k ms rfl)]
  | str | nilGroup | other => rfl

/-- **Map order and `sort.Slice` have no say** where no two tags of a fragment rank alike. -/
theorem writeFragment_congr (f : FixFragment) (h : KeyInj key f) (p q : Path) :
    writeFragment emit σ key p f = writeFragment emit τ key q f := by
  induction f using FixFragment.induction generalizing p q with
  | step f ih =>
    rw [writeFragment, writeFragment, σ.run_eq_run τ (h f (self_mem_fragments f))]
    refine inOrder_congr fun t _ => ?_
    rw [find?_writeFields, find?_writeFields]
    cases hv : Assoc.find? t f with
    | none => rfl
    | some v =>
      refine congrArg some (writeTree_congr_of_members emit σ τ fun n k ms hg m hm p q => ?_)
      subst hg
      have hmem := Assoc.mem_of_find? hv
      exact ih t n k ms hmem m hm (h.member hmem hm) p q

/-- The same, for one field of such a fragment. -/
theorem writeTree_congr {f : FixFragment} (h : KeyInj key f) {t : ℤ} {v : Value}
    (hv : (t, v) ∈ f) (tag : ℤ) (p q : Path) :
    writeTree emit σ key p tag v = writeTree emit τ key q tag v := by
  refine writeTree_congr_of_members emit σ τ fun n k ms hg m hm p q => ?_
  subst hg
  exact writeFragment_congr emit σ τ m (h.member hv hm) p q

end Order

/-! ## Fragments of strings and groups -/

theorem FixFragment.Plain.member {f m : FixFragment} (h : f.Plain) {t n k : ℤ}
    {ms : List FixFragment} (hf : (t, Value.group n k ms) ∈ f) (hm : m ∈ ms) : m.Plain :=
  fun g hg => h g (mem_fragments_of_member hf hm hg)

theorem FixFragment.AllTags.member {P : ℤ → Prop} {f m : FixFragment} (h : f.AllTags P)
    {t n k : ℤ} {ms : List FixFragment} (hf : (t, Value.group n k ms) ∈ f) (hm : m ∈ ms) :
    m.AllTags P := fun g hg => h g (mem_fragments_of_member hf hm hg)

/-- A flat fragment has no fragment inside it. -/
theorem FixFragment.Flat.fragments_eq {f : FixFragment} (h : f.Flat) : f.fragments = [f] := by
  have hin : innerFields f = [] := by
    rw [innerFields_eq, List.flatMap_eq_nil_iff]
    intro e he
    obtain ⟨s, hs⟩ := h e he
    rw [hs]
    rfl
  rw [FixFragment.fragments, hin]

theorem FixFragment.Flat.no_group {f : FixFragment} (h : f.Flat) {t n k : ℤ}
    {ms : List FixFragment} : (t, Value.group n k ms) ∉ f := fun hmem => by
  obtain ⟨s, hs⟩ := h _ hmem
  cases hs

theorem FixFragment.Flat.plain {f : FixFragment} (h : f.Flat) : f.Plain := by
  intro g hg e he
  rw [h.fragments_eq, List.mem_singleton] at hg
  subst hg
  exact Or.inl (h e he)

section Plain

variable (σ : SortSlice) (key : ℤ → ℤ)

theorem writeMembers_fault {ms : List FixFragment}
    (h : ∀ m ∈ ms, ∀ p, (writeFragment token σ key p m).fault = none) (p : Path) (tag : ℤ) (i : ℕ) :
    (writeMembers token σ key p tag i ms).fault = none := by
  induction ms generalizing i with
  | nil => rfl
  | cons m ms ih =>
    have hm := h m List.mem_cons_self ((tag, i) :: p)
    rw [writeMembers_cons, Written.andThen, hm]
    exact ih (fun m' hm' => h m' (List.mem_cons_of_mem _ hm')) (i + 1)

theorem inOrder_fault {γ : Type} {ts : List ℤ} {ws : List (ℤ × Written γ)}
    (h : ∀ t ∈ ts, ∀ w, Assoc.find? t ws = some w → w.fault = none) :
    (inOrder ts ws).fault = none := by
  induction ts with
  | nil => rfl
  | cons t ts ih =>
    have htail := ih fun u hu => h u (List.mem_cons_of_mem _ hu)
    rw [inOrder, Written.andThen]
    cases hw : Assoc.find? t ws with
    | none => exact htail
    | some w =>
      rw [Option.getD_some, h t List.mem_cons_self w hw]
      exact htail

/-- **A fragment of strings and groups is written without fault.** -/
theorem writeFragment_fault (f : FixFragment) (h : f.Plain) (p : Path) :
    (writeFragment token σ key p f).fault = none := by
  induction f using FixFragment.induction generalizing p with
  | step f ih =>
    refine inOrder_fault fun t _ w hw => ?_
    rw [find?_writeFields, Option.map_eq_some_iff] at hw
    obtain ⟨v, hv, rfl⟩ := hw
    have hmem := Assoc.mem_of_find? hv
    rcases h f (self_mem_fragments f) _ hmem with ⟨s, hs⟩ | ⟨n, k, ms, hg⟩
    · dsimp only at hs
      subst hs
      rfl
    · dsimp only at hg
      subst hg
      exact writeMembers_fault σ key (fun m hm => ih t n k ms hmem m hm (h.member hmem hm)) p t 0

theorem writeTree_fault {f : FixFragment} (h : f.Plain) {t : ℤ} {v : Value} (hv : (t, v) ∈ f)
    (tag : ℤ) (p : Path) : (writeTree token σ key p tag v).fault = none := by
  rcases h f (self_mem_fragments f) _ hv with ⟨s, hs⟩ | ⟨n, k, ms, hg⟩
  · dsimp only at hs
    subst hs
    rfl
  · dsimp only at hg
    subst hg
    exact writeMembers_fault σ key
      (fun m hm => writeFragment_fault σ key m (h.member hv hm)) p tag 0

end Plain

/-- **Where nothing faults, the fields come one after the other**, in the order of the tags. -/
theorem inOrder_out {γ : Type} {ts : List ℤ} {ws : List (ℤ × Written γ)}
    (h : (inOrder ts ws).fault = none) :
    (∀ t ∈ ts, ((Assoc.find? t ws).getD (.ok [])).fault = none)
      ∧ (inOrder ts ws).out = ts.flatMap fun t => ((Assoc.find? t ws).getD (.ok [])).out := by
  induction ts with
  | nil => exact ⟨fun t ht => absurd ht List.not_mem_nil, rfl⟩
  | cons t ts ih =>
    rw [inOrder] at h ⊢
    cases hf : ((Assoc.find? t ws).getD (.ok [])).fault with
    | some e => rw [Written.andThen, hf] at h; rw [hf] at h; cases h
    | none =>
      rw [Written.andThen, hf] at h ⊢
      obtain ⟨h1, h2⟩ := ih h
      refine ⟨fun u hu => ?_, by rw [List.flatMap_cons, ← h2]⟩
      rcases List.mem_cons.mp hu with rfl | hu
      · exact hf
      · exact h1 u hu

/-! ## The fields of a fragment, in any order

Nothing is assumed of the ranks here.  Two tags that rank alike may come in either order, and
differently each time the map is ranged over. -/

/-- The fields behind the wire of a fragment, for one run's choices of order. -/
def writtenFields (σ : SortSlice) (f : FixFragment) : List Field :=
  (writeFragment token σ tagSortKey [] f).out

/-- The members of a group write what they write by themselves, or less where one of them faults. -/
theorem mem_writeMembers_out {σ : SortSlice} {key : ℤ → ℤ} {p : Path} {tag : ℤ} {i : ℕ}
    {ms : List FixFragment} {e : Field} (h : e ∈ (writeMembers token σ key p tag i ms).out) :
    ∃ m ∈ ms, ∃ q, e ∈ (writeFragment token σ key q m).out := by
  induction ms generalizing i with
  | nil => cases h
  | cons m ms ih =>
    rw [writeMembers_cons, Written.andThen] at h
    split at h
    · rcases List.mem_append.mp h with h | h
      · exact ⟨m, List.mem_cons_self, _, h⟩
      · obtain ⟨m', hm', hq⟩ := ih h
        exact ⟨m', List.mem_cons_of_mem _ hm', hq⟩
    · exact ⟨m, List.mem_cons_self, _, h⟩

/-- The fields of a fragment of strings and groups are those its entries write. -/
theorem mem_writeFragment_out {σ : SortSlice} {key : ℤ → ℤ} {f : FixFragment} (hplain : f.Plain)
    {p : Path} {e : Field} : e ∈ (writeFragment token σ key p f).out ↔
      ∃ t v, Assoc.find? t f = some v ∧ e ∈ (writeTree token σ key p t v).out := by
  rw [writeFragment, (inOrder_out (writeFragment_fault σ key f hplain p)).2, List.mem_flatMap]
  simp only [find?_writeFields]
  constructor
  · rintro ⟨t, -, he⟩
    cases hv : Assoc.find? t f with
    | none =>
      rw [hv] at he
      cases he
    | some v =>
      rw [hv] at he
      exact ⟨t, v, hv, he⟩
  · rintro ⟨t, v, hv, he⟩
    refine ⟨t, σ.mem_run.mpr (Assoc.find?_isSome_iff.mp (by rw [hv]; rfl)), ?_⟩
    rw [hv]
    exact he

/-- **What holds of every string and every count holds of every field written.** -/
theorem forall_writeFragment {P : Field → Prop} {f : FixFragment} (hplain : f.Plain)
    (hstr : ∀ g ∈ f.fragments, ∀ t s, (t, Value.str s) ∈ g → P (t, s))
    (hcount : ∀ g ∈ f.fragments, ∀ t n k ms, (t, Value.group n k ms) ∈ g → P (t, itoa ms.length))
    (σ : SortSlice) (key : ℤ → ℤ) (p : Path) : ∀ e ∈ (writeFragment token σ key p f).out, P e := by
  induction f using FixFragment.induction generalizing p with
  | step f ih =>
    intro e he
    obtain ⟨t, v, hv, he⟩ := (mem_writeFragment_out hplain).mp he
    have hmem := Assoc.mem_of_find? hv
    rcases hplain f (self_mem_fragments f) _ hmem with ⟨s, hs⟩ | ⟨n, k, ms, hg⟩
    · dsimp only at hs
      subst hs
      rw [List.mem_singleton.mp he]
      exact hstr f (self_mem_fragments f) t s hmem
    · dsimp only at hg
      subst hg
      rw [writeTree, Written.ok_andThen] at he
      rcases List.mem_append.mp he with he | he
      · rw [List.mem_singleton.mp he]
        exact hcount f (self_mem_fragments f) t n k ms hmem
      · obtain ⟨m, hm, q, he⟩ := mem_writeMembers_out he
        exact ih t n k ms hmem m hm (hplain.member hmem hm)
          (fun g hg => hstr g (mem_fragments_of_member hmem hm hg))
          (fun g hg => hcount g (mem_fragments_of_member hmem hm hg)) q e he

/-- **Whatever the map order, strings and groups are written without fault.** -/
theorem writeFragment_written {f : FixFragment} (hplain : f.Plain) (sep : UInt8) (σ : SortSlice) :
    writeFragment (fieldText sep) σ tagSortKey [] f = .ok (wireText sep (writtenFields σ f)) := by
  have hfault := writeFragment_fault σ tagSortKey f hplain []
  rw [writeFragment_fieldText, Written.bind, hfault]
  rfl

/-! ## The fields of a fragment whose ranks differ -/

/-- The tags of a fragment, in the canonical order. -/
def canonicalTags (f : FixFragment) : List ℤ := SortSlice.stable.run [] tagSortKey f.tags

/-- **The fields behind the wire of a fragment**, in the canonical order. -/
def wireFields (f : FixFragment) : List Field :=
  (writeFragment token SortSlice.stable tagSortKey [] f).out

/-- The fields a value writes under a tag. -/
def valueFields (tag : ℤ) : Value → List Field
  | .str s => [(tag, s)]
  | .group _ _ ms => (tag, itoa ms.length) :: ms.flatMap wireFields
  | .nilGroup => [(tag, itoa 0)]
  | .other => []

/-- The fields a fragment writes under a tag. -/
def fieldsAt (f : FixFragment) (tag : ℤ) : List Field :=
  match Assoc.find? tag f with
  | some v => valueFields tag v
  | none => []

theorem mem_canonicalTags {f : FixFragment} {t : ℤ} : t ∈ canonicalTags f ↔ t ∈ f.tags :=
  SortSlice.stable.mem_run

theorem canonicalTags_perm (f : FixFragment) : (canonicalTags f).Perm f.tags :=
  SortSlice.stable.perm _ _ _

theorem canonicalTags_sorted (f : FixFragment) :
    (canonicalTags f).Pairwise fun a b => tagSortKey a ≤ tagSortKey b :=
  SortSlice.stable.sorted _ _ _

/-- The members of a group are written one after the other. -/
theorem writeMembers_out {ms : List FixFragment}
    (hin : ∀ m ∈ ms, KeyInj tagSortKey m) (hp : ∀ m ∈ ms, m.Plain) (σ : SortSlice) (p : Path)
    (tag : ℤ) (i : ℕ) :
    (writeMembers token σ tagSortKey p tag i ms).out = ms.flatMap wireFields := by
  induction ms generalizing i with
  | nil => rfl
  | cons m ms ih =>
    have hf := writeFragment_fault σ tagSortKey m (hp m List.mem_cons_self) ((tag, i) :: p)
    rw [writeMembers_cons, Written.andThen, hf]
    dsimp only
    rw [List.flatMap_cons, ih (fun m' hm' => hin m' (List.mem_cons_of_mem _ hm'))
        (fun m' hm' => hp m' (List.mem_cons_of_mem _ hm')),
      writeFragment_congr token σ SortSlice.stable m (hin m List.mem_cons_self) _ [], wireFields]

theorem writeTree_out {f : FixFragment} (hin : KeyInj tagSortKey f) (hp : f.Plain) {t : ℤ}
    {v : Value} (hv : (t, v) ∈ f) (σ : SortSlice) (p : Path) (tag : ℤ) :
    (writeTree token σ tagSortKey p tag v).out = valueFields tag v := by
  cases v with
  | group n k ms =>
    rw [writeTree, Written.ok_andThen, writeMembers_out (fun m hm => hin.member hv hm)
      (fun m hm => hp.member hv hm)]
    rfl
  | str | nilGroup | other => rfl

/-- **A fragment of strings and groups writes its fields in the canonical order of its tags.** -/
theorem wireFields_eq {f : FixFragment} (hin : KeyInj tagSortKey f) (hp : f.Plain) :
    wireFields f = (canonicalTags f).flatMap (fieldsAt f) := by
  have hfault := writeFragment_fault SortSlice.stable tagSortKey f hp []
  rw [wireFields, writeFragment, (inOrder_out hfault).2]
  refine List.flatMap_congr fun t _ => ?_
  rw [find?_writeFields, fieldsAt]
  cases hv : Assoc.find? t f with
  | none => rfl
  | some v => exact writeTree_out hin hp (Assoc.mem_of_find? hv) _ _ _

/-- **Whatever the map order, the wire of such a fragment is the text of its fields.** -/
theorem writeFragment_eq_wireText {f : FixFragment} (hin : KeyInj tagSortKey f) (hp : f.Plain)
    (sep : UInt8) (σ : SortSlice) (p : Path) :
    writeFragment (fieldText sep) σ tagSortKey p f = .ok (wireText sep (wireFields f)) := by
  have hfault := writeFragment_fault σ tagSortKey f hp p
  rw [writeFragment_fieldText, writeFragment_congr token σ SortSlice.stable f hin p []]
  rw [writeFragment_congr token σ SortSlice.stable f hin p []] at hfault
  rw [Written.bind, hfault]
  rfl

end FixMsg
