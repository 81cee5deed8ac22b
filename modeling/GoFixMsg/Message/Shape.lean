import GoFixMsg.Message.Fields

/-!
# Message/Shape — a fragment up to its bookkeeping, and the number of its fields

`bare` forgets the NumberTag and FirstTag a `*RepeatingGroup` records, which no serialiser reads:
fragments with the same `bare` hold the same fields and the same groups with the same members in the
same order.  `size` counts the fields a fragment writes (`length_wireFields`).

A parser that reads a wire back sets both tags from its dictionary, while a program that builds a
group sets them as it likes.  So a round trip can at best restore the fragment up to these, and to
compare sizes is a way to see that no field was lost on it.
-/

open GoLang

namespace FixMsg

mutual

/-- A value without the tags its groups record. -/
def Value.bare : Value → Value
  | .group _ _ ms => .group 0 0 (bareMembers ms)
  | .str s => .str s
  | .nilGroup => .nilGroup
  | .other => .other

/-- The members of a group without the tags their groups record. -/
def bareMembers : List FixFragment → List FixFragment
  | [] => []
  | m :: ms => FixFragment.bare m :: bareMembers ms

/-- **A fragment up to the NumberTag and FirstTag its groups record.** -/
def FixFragment.bare : FixFragment → FixFragment
  | [] => []
  | (t, v) :: rest => (t, v.bare) :: FixFragment.bare rest

end

mutual

/-- The number of fields a value writes. -/
def Value.size : Value → ℕ
  | .group _ _ ms => 1 + membersSize ms
  | .str _ => 1
  | .nilGroup => 1
  | .other => 1

/-- The number of fields the members of a group write. -/
def membersSize : List FixFragment → ℕ
  | [] => 0
  | m :: ms => FixFragment.size m + membersSize ms

/-- **The number of fields in a fragment**, count fields included. -/
def FixFragment.size : FixFragment → ℕ
  | [] => 0
  | (_, v) :: rest => v.size + FixFragment.size rest

end

/-! ## Laws of `bare` -/

theorem bareMembers_eq (ms : List FixFragment) : bareMembers ms = ms.map FixFragment.bare := by
  induction ms with
  | nil => rfl
  | cons m ms ih => rw [bareMembers, ih, List.map_cons]

namespace FixFragment

theorem bare_eq (f : FixFragment) : f.bare = f.map fun e => (e.1, e.2.bare) := by
  induction f with
  | nil => rw [FixFragment.bare, List.map_nil]
  | cons e f ih => rw [FixFragment.bare, ih, List.map_cons]

theorem tags_bare (f : FixFragment) : f.bare.tags = f.tags := by
  rw [bare_eq, tags, tags, Assoc.keys, List.map_map]
  rfl

theorem find?_bare (f : FixFragment) (t : ℤ) :
    Assoc.find? t f.bare = (Assoc.find? t f).map Value.bare := by
  rw [bare_eq]
  induction f with
  | nil => rfl
  | cons e f ih =>
    rw [List.map_cons, Assoc.find?_cons, Assoc.find?_cons]
    split
    · rfl
    · exact ih

theorem bare_sorted {f : FixFragment} (h : Assoc.Sorted f) : Assoc.Sorted f.bare := by
  rw [Assoc.Sorted, show Assoc.keys f.bare = Assoc.keys f from tags_bare f]
  exact h

/-- **Maps that hold the same under every tag are the same**, recorded tags apart. -/
theorem bare_eq_bare {f g : FixFragment} (hf : Assoc.Sorted f) (hg : Assoc.Sorted g)
    (h : ∀ t, (Assoc.find? t f).map Value.bare = (Assoc.find? t g).map Value.bare) :
    f.bare = g.bare :=
  (bare_sorted hf).ext (bare_sorted hg) fun t => by rw [find?_bare, find?_bare, h t]

end FixFragment

theorem Value.bare_eq_str {v : Value} {s : Bytes} (h : v.bare = .str s) : v = .str s := by
  cases v <;> simp_all [Value.bare]

/-- Being a group, with these members up to the tags they record. -/
theorem Value.bare_eq_group {v : Value} {n k : ℤ} {ms : List FixFragment}
    (h : v.bare = (Value.group n k ms).bare) :
    ∃ n' k' ms', v = .group n' k' ms' ∧ ms'.map FixFragment.bare = ms.map FixFragment.bare := by
  cases v with
  | group n' k' ms' =>
    refine ⟨n', k', ms', rfl, ?_⟩
    rw [Value.bare, Value.bare, bareMembers_eq, bareMembers_eq] at h
    exact (Value.group.inj h).2.2
  | str | nilGroup | other => simp [Value.bare] at h

/-! ## Laws of `size` -/

mutual

theorem Value.size_bare : ∀ v : Value, v.bare.size = v.size
  | .group _ _ ms => by rw [Value.bare, Value.size, Value.size, membersSize_bare ms]
  | .str _ => rfl
  | .nilGroup => rfl
  | .other => rfl

theorem membersSize_bare : ∀ ms, membersSize (bareMembers ms) = membersSize ms
  | [] => rfl
  | m :: ms => by
      rw [bareMembers, membersSize, membersSize, FixFragment.size_bare m, membersSize_bare ms]

theorem FixFragment.size_bare : ∀ f : FixFragment, FixFragment.size (FixFragment.bare f) = f.size
  | [] => rfl
  | (t, v) :: rest => by
      rw [FixFragment.bare, FixFragment.size, FixFragment.size, Value.size_bare v,
        FixFragment.size_bare rest]

end

theorem membersSize_eq (ms : List FixFragment) :
    membersSize ms = (ms.map FixFragment.size).sum := by
  induction ms with
  | nil => rfl
  | cons m ms ih => rw [membersSize, ih, List.map_cons, List.sum_cons]

namespace FixFragment

theorem size_eq (f : FixFragment) : f.size = (f.map fun e => e.2.size).sum := by
  induction f with
  | nil => rfl
  | cons e f ih => rw [FixFragment.size, ih, List.map_cons, List.sum_cons]

/-- Fragments that are the same up to recorded tags have as many fields. -/
theorem size_eq_of_bare {f g : FixFragment} (h : f.bare = g.bare) : f.size = g.size := by
  rw [← size_bare f, h, size_bare]

end FixFragment

theorem Value.size_pos (v : Value) : 0 < v.size := by
  cases v with
  | group n k ms => exact Nat.add_pos_left Nat.one_pos _
  | str | nilGroup | other => exact Nat.one_pos

/-- Setting a value adds at most its fields. -/
theorem size_insert_le (t : ℤ) (v : Value) (f : FixFragment) :
    FixFragment.size (Assoc.insert t v f) ≤ f.size + v.size := by
  induction f with
  | nil => simp [Assoc.insert, FixFragment.size]
  | cons e f ih =>
    unfold Assoc.insert
    split
    · simp only [FixFragment.size]
      omega
    · split
      · simp only [FixFragment.size]
        omega
      · simp only [FixFragment.size]
        omega

/-- Setting a value over another one adds less. -/
theorem size_insert_lt {t : ℤ} (v : Value) {f : FixFragment} (hf : Assoc.Sorted f)
    (ht : t ∈ f.tags) : FixFragment.size (Assoc.insert t v f) < f.size + v.size := by
  induction f with
  | nil => cases ht
  | cons e f ih =>
    obtain ⟨he, hf'⟩ := Assoc.sorted_cons.mp hf
    have hpos := e.2.size_pos
    unfold Assoc.insert
    split
    · next hlt =>
      rcases List.mem_cons.mp ht with rfl | ht
      · exact absurd hlt (lt_irrefl _)
      · exact absurd (hlt.trans (he t ht)) (lt_irrefl _)
    · split
      · simp only [FixFragment.size]
        omega
      · next hne =>
        have hmem : t ∈ FixFragment.tags f := by
          rcases List.mem_cons.mp ht with rfl | ht
          · exact absurd rfl hne
          · exact ht
        have h := ih hf' hmem
        simp only [FixFragment.size]
        omega

/-! ## The wire has one field for each field of the fragment

A string writes one field; a group writes its count and what its members write.  So the lengths
agree, by induction over the members. -/

/-- A value of strings and groups writes as many fields as its size says, if its members do. -/
theorem length_valueFields {t : ℤ} {v : Value}
    (hplain : (∃ s, v = .str s) ∨ ∃ n k ms, v = .group n k ms)
    (h : ∀ n k ms, v = .group n k ms → ∀ m ∈ ms, (wireFields m).length = FixFragment.size m) :
    (valueFields t v).length = v.size := by
  rcases hplain with ⟨s, rfl⟩ | ⟨n, k, ms, rfl⟩
  · rfl
  · have hmem : ∀ m ∈ ms, (wireFields m).length = FixFragment.size m := h n k ms rfl
    rw [valueFields, List.length_cons, List.length_flatMap, Value.size, membersSize_eq,
      List.map_congr_left hmem]
    omega

/-- **The wire of a fragment has as many fields as the fragment.** -/
theorem length_wireFields {f : FixFragment} (hsorted : f.WF) (hplain : f.Plain)
    (hin : KeyInj tagSortKey f) : (wireFields f).length = f.size := by
  induction f using FixFragment.induction with
  | step f ih =>
    have hat : ∀ e ∈ f, (fieldsAt f e.1).length = e.2.size := by
      intro e he
      have hfind : Assoc.find? e.1 f = some e.2 := hsorted.sorted.find?_eq_some_iff.mpr he
      rw [fieldsAt, hfind]
      refine length_valueFields (hplain f (self_mem_fragments f) e he) fun n k ms hv m hm => ?_
      have hgroup : (e.1, Value.group n k ms) ∈ f := by
        rw [← hv]
        exact he
      exact ih e.1 n k ms hgroup m hm (hsorted.member hgroup hm) (hplain.member hgroup hm)
        (hin.member hgroup hm)
    rw [wireFields_eq hin hplain, List.length_flatMap,
      ((canonicalTags_perm f).map fun t => (fieldsAt f t).length).sum_nat, FixFragment.size_eq,
      FixFragment.tags, Assoc.keys, List.map_map]
    exact congrArg List.sum (List.map_congr_left hat)

/-- The number of fields under a tag. -/
def sizeAt (f : FixFragment) (t : ℤ) : ℕ := ((Assoc.find? t f).map Value.size).getD 0

theorem length_fieldsAt {f : FixFragment} (hwf : f.WF) (hplain : f.Plain)
    (hin : KeyInj tagSortKey f) (t : ℤ) : (fieldsAt f t).length = sizeAt f t := by
  rw [fieldsAt, sizeAt]
  cases hv : Assoc.find? t f with
  | none => rfl
  | some v =>
    have hmem := Assoc.mem_of_find? hv
    refine length_valueFields (hplain f (self_mem_fragments f) _ hmem) ?_
    rintro n k ms rfl m hm
    exact length_wireFields (hwf.member hmem hm) (hplain.member hmem hm) (hin.member hmem hm)

end FixMsg
