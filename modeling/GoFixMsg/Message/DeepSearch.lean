import GoFixMsg.Message.Fields
import Mathlib.Data.List.Dedup

/-!
# Message/DeepSearch — looking for a tag at every depth

`FindAll`, `Anywhere` and `AllTagsDeep` walk a fragment and the groups inside it, each in a
recursion of its own.  A fragment inside a fragment has a `Place`: the count tags and member indices
that lead to it.  Whatever the map orders, all three agree on the places of the fragments that hold
a tag (`deepSearch_agrees`), and `FindAll` lists each of them once.

The path that `FindAll` returns is not the place: it ends with the tag that was looked for, and
places are told apart by their paths (`pathTo_injective`).  `RepeatingGroup.FindAll` starts inside a
group.  What it returns are the rests of the paths that go into the group, and the path to the count
tag itself is not one of them, though it starts with it (`groupFindAll_omits_countTag`).
-/

open GoLang

namespace FixMsg

/-! ## Places

A place is a list of steps, each into one member of one group.  Whether a fragment is found there
does not depend on any order; it is what the traversals, each in its own order, are compared with.
-/

/-- The way to a fragment inside a fragment: count tags and member indices, outermost first. -/
abbrev Place := List (ℤ × ℕ)

namespace FixFragment

/-- The members of the group under a tag. -/
def membersAt (f : FixFragment) (g : ℤ) : List FixFragment :=
  match Assoc.find? g f with
  | some (.group _ _ ms) => ms
  | _ => []

/-- **The fragment at a place.** -/
def at? : FixFragment → Place → Option FixFragment
  | f, [] => some f
  | f, (g, i) :: place => (f.membersAt g)[i]?.bind fun m => m.at? place

/-- A path as `FindAll` returns it: count tags and member indices in turn, and the tag at the end. -/
def pathTo : Place → ℤ → List ℤ
  | [], tag => [tag]
  | (g, i) :: place, tag => g :: (i : ℤ) :: pathTo place tag

/-- A tag is held at a place. -/
def HoldsAt (f : FixFragment) (place : Place) (tag : ℤ) : Prop :=
  ∃ h, f.at? place = some h ∧ tag ∈ h.tags

theorem holdsAt_nil {f : FixFragment} {tag : ℤ} : f.HoldsAt [] tag ↔ tag ∈ f.tags :=
  ⟨fun ⟨_, h, ht⟩ => Option.some.inj h ▸ ht, fun ht => ⟨f, rfl, ht⟩⟩

theorem holdsAt_cons {f : FixFragment} {g tag : ℤ} {i : ℕ} {place : Place} :
    f.HoldsAt ((g, i) :: place) tag ↔ ∃ m, (f.membersAt g)[i]? = some m ∧ m.HoldsAt place tag := by
  simp only [HoldsAt, at?, Option.bind_eq_some_iff]
  constructor
  · rintro ⟨h, ⟨m, hm, hat⟩, ht⟩
    exact ⟨m, hm, h, hat, ht⟩
  · rintro ⟨m, hm, h, hat, ht⟩
    exact ⟨h, ⟨m, hm, hat⟩, ht⟩

theorem membersAt_of_find? {f : FixFragment} {g n k : ℤ} {ms : List FixFragment}
    (h : Assoc.find? g f = some (.group n k ms)) : f.membersAt g = ms := by
  rw [membersAt, h]

/-- Where a member is found there is a group. -/
theorem exists_group_of_membersAt {f : FixFragment} {g : ℤ} {i : ℕ} {m : FixFragment}
    (h : (f.membersAt g)[i]? = some m) :
    ∃ n k ms, Assoc.find? g f = some (.group n k ms) ∧ ms[i]? = some m := by
  unfold membersAt at h
  split at h
  · next n k ms hfind => exact ⟨n, k, ms, hfind, h⟩
  · cases h

end FixFragment

/-! ## The traversals

Each of the three is written as the source has it, with a loop over the entries of a map and one
over the members of a group.  The loop over a map asks for its order, and a value that is neither a
string nor a group is passed over. -/

open FixFragment (pathTo)

mutual

/-- The paths that the loop of `FindAll` finds in the group under a tag.  A nil group panics. -/
def findAllValue (ρ : RangeOrder) (tag : ℤ) (p : Path) (innerTag : ℤ) : Value → Written (List ℤ)
  | .group _ _ ms => findAllMembers ρ tag p innerTag 0 ms
  | .nilGroup => ⟨[], some .nilPointer⟩
  | .str _ => .ok []
  | .other => .ok []

/-- `FindAll` of the members from the `i`-th on, each path behind the group's tag and the index. -/
def findAllMembers (ρ : RangeOrder) (tag : ℤ) (p : Path) (innerTag : ℤ) (i : ℕ) :
    List FixFragment → Written (List ℤ)
  | [] => .ok []
  | m :: ms =>
      (((Written.ok (if (Assoc.find? tag m).isSome then [[tag]] else [])).andThen
          (inOrder (ρ.run ((innerTag, i) :: p) (Assoc.keys m))
            (findAllFields ρ tag ((innerTag, i) :: p) m))).bind
        fun sub => [innerTag :: (i : ℤ) :: sub]).andThen
      (findAllMembers ρ tag p innerTag (i + 1) ms)

/-- What the loop of `FindAll` finds under each tag. -/
def findAllFields (ρ : RangeOrder) (tag : ℤ) (p : Path) :
    FixFragment → List (ℤ × Written (List ℤ))
  | [] => []
  | (t, v) :: rest => (t, findAllValue ρ tag p t v) :: findAllFields ρ tag p rest

end

/-- **`FixFragment.FindAll`**, for one choice of map orders. -/
def FixFragment.findAll (ρ : RangeOrder) (tag : ℤ) (p : Path) (f : FixFragment) :
    Written (List ℤ) :=
  (Written.ok (if f.contains tag then [[tag]] else [])).andThen
    (inOrder (ρ.run p f.tags) (findAllFields ρ tag p f))

/-- The loop of `RepeatingGroup.FindAll` from the `i`-th member on. -/
def groupFindAllFrom (ρ : RangeOrder) (tag : ℤ) (numberTag : ℤ) (i : ℕ) :
    List FixFragment → Written (List ℤ)
  | [] => .ok []
  | m :: ms =>
      ((m.findAll ρ tag [(numberTag, i)]).bind fun sub => [(i : ℤ) :: sub]).andThen
        (groupFindAllFrom ρ tag numberTag (i + 1) ms)

/-- **`RepeatingGroup.FindAll`** of the group with these members. -/
def groupFindAll (ρ : RangeOrder) (tag : ℤ) (numberTag : ℤ) (ms : List FixFragment) :
    Except Fault (List (List ℤ)) := (groupFindAllFrom ρ tag numberTag 0 ms).toExcept

/-- The loop of `Anywhere` over the entries of a map, given the answer for each: it returns at the
first that has the tag. -/
def anyInOrder : List ℤ → List (ℤ × Except Fault Bool) → Except Fault Bool
  | [], _ => .ok false
  | t :: ts, ws =>
      match (Assoc.find? t ws).getD (.ok false) with
      | .ok true => .ok true
      | .ok false => anyInOrder ts ws
      | .error e => .error e

mutual

/-- Whether the loop of `Anywhere` finds the tag in a value. -/
def anywhereValue (ρ : RangeOrder) (tag : ℤ) (p : Path) (innerTag : ℤ) : Value → Except Fault Bool
  | .group _ _ ms => anywhereMembers ρ tag p innerTag 0 ms
  | .nilGroup => .error .nilPointer
  | .str _ => .ok false
  | .other => .ok false

/-- `Anywhere` of the members from the `i`-th on. -/
def anywhereMembers (ρ : RangeOrder) (tag : ℤ) (p : Path) (innerTag : ℤ) (i : ℕ) :
    List FixFragment → Except Fault Bool
  | [] => .ok false
  | m :: ms =>
      match
        if (Assoc.find? tag m).isSome then .ok true
        else anyInOrder (ρ.run ((innerTag, i) :: p) (Assoc.keys m))
          (anywhereFields ρ tag ((innerTag, i) :: p) m)
      with
      | .ok true => .ok true
      | .ok false => anywhereMembers ρ tag p innerTag (i + 1) ms
      | .error e => .error e

/-- Whether the loop of `Anywhere` finds the tag under each tag. -/
def anywhereFields (ρ : RangeOrder) (tag : ℤ) (p : Path) :
    FixFragment → List (ℤ × Except Fault Bool)
  | [] => []
  | (t, v) :: rest => (t, anywhereValue ρ tag p t v) :: anywhereFields ρ tag p rest

end

/-- **`Anywhere`**, for one choice of map orders. -/
def FixFragment.anywhere (ρ : RangeOrder) (tag : ℤ) (p : Path) (f : FixFragment) :
    Except Fault Bool :=
  if f.contains tag then .ok true
  else anyInOrder (ρ.run p f.tags) (anywhereFields ρ tag p f)

mutual

/-- The tags that `collectTags` puts into `seen` for an entry: its tag, and those of its members. -/
def collectTagsValue (ρ : RangeOrder) (p : Path) (tag : ℤ) : Value → Written ℤ
  | .group _ _ ms => (Written.ok [tag]).andThen (collectTagsMembers ρ p tag 0 ms)
  | .nilGroup => ⟨[tag], some .nilPointer⟩
  | .str _ => .ok [tag]
  | .other => .ok [tag]

/-- `collectTags` of the members from the `i`-th on. -/
def collectTagsMembers (ρ : RangeOrder) (p : Path) (tag : ℤ) (i : ℕ) :
    List FixFragment → Written ℤ
  | [] => .ok []
  | m :: ms =>
      (inOrder (ρ.run ((tag, i) :: p) (Assoc.keys m))
        (collectTagsFields ρ ((tag, i) :: p) m)).andThen
      (collectTagsMembers ρ p tag (i + 1) ms)

/-- What `collectTags` puts into `seen` for each entry. -/
def collectTagsFields (ρ : RangeOrder) (p : Path) : FixFragment → List (ℤ × Written ℤ)
  | [] => []
  | (t, v) :: rest => (t, collectTagsValue ρ p t v) :: collectTagsFields ρ p rest

end

/-- `collectTags`: the tags it puts into the set `seen`, one after the other. -/
def FixFragment.collectTags (ρ : RangeOrder) (p : Path) (f : FixFragment) : Written ℤ :=
  inOrder (ρ.run p f.tags) (collectTagsFields ρ p f)

/-- **`AllTagsDeep`**: the keys of `seen`, in some order. -/
def FixFragment.allTagsDeep (ρ τ : RangeOrder) (f : FixFragment) : Except Fault (List ℤ) :=
  (f.collectTags ρ []).toExcept.map fun seen => τ.run [] seen.dedup

/-! ## Loops that do not fault -/

/-- A loop over the members of a group, where no member faults. -/
theorem members_ok {γ : Type} (F : ℕ → FixFragment → Written γ)
    (G : ℕ → List FixFragment → Written γ) (hnil : ∀ i, G i [] = .ok [])
    (hcons : ∀ i m ms, G i (m :: ms) = (F i m).andThen (G (i + 1) ms)) {ms : List FixFragment}
    (h : ∀ m ∈ ms, ∀ i, (F i m).fault = none) (i : ℕ) :
    G i ms = .ok ((ms.zipIdx i).flatMap fun x => (F x.2 x.1).out) := by
  induction ms generalizing i with
  | nil => exact hnil i
  | cons m ms ih =>
    rw [hcons, Written.andThen, h m List.mem_cons_self,
      ih fun m' hm' => h m' (List.mem_cons_of_mem _ hm')]
    rfl

/-- A loop over the entries of a map, where no entry faults. -/
theorem inOrder_ok {γ : Type} {ts : List ℤ} {ws : List (ℤ × Written γ)} (out : ℤ → List γ)
    (h : ∀ t ∈ ts, (Assoc.find? t ws).getD (.ok []) = .ok (out t)) :
    inOrder ts ws = .ok (ts.flatMap out) := by
  induction ts with
  | nil => rfl
  | cons t ts ih =>
    rw [inOrder, h t List.mem_cons_self, ih fun u hu => h u (List.mem_cons_of_mem _ hu)]
    rfl

/-- What a loop makes of the entry under a tag: nothing of a string, and what it makes of the members
of a group. -/
theorem entry_ok {γ : Type} {f : FixFragment} (hplain : f.Plain) {F : ℤ → Value → Written γ}
    (out : ℤ → List FixFragment → List γ) {fields : List (ℤ × Written γ)}
    (hfields : fields = f.map fun e => (e.1, F e.1 e.2)) {t : ℤ} (ht : t ∈ f.tags)
    (hstr : ∀ s, F t (.str s) = .ok (out t []))
    (hgroup : ∀ n k ms, (t, Value.group n k ms) ∈ f → F t (.group n k ms) = .ok (out t ms)) :
    (Assoc.find? t fields).getD (.ok []) = .ok (out t (f.membersAt t)) := by
  obtain ⟨v, hv⟩ := Option.isSome_iff_exists.mp (Assoc.find?_isSome_iff.mpr ht)
  rw [hfields, Assoc.find?_map, FixFragment.membersAt, hv, Option.map_some, Option.getD_some]
  rcases hplain f (self_mem_fragments f) _ (Assoc.mem_of_find? hv) with ⟨s, hs⟩ | ⟨n, k, ms, hg⟩
  · dsimp only at hs
    subst hs
    exact hstr s
  · dsimp only at hg
    subst hg
    exact hgroup n k ms (Assoc.mem_of_find? hv)

/-! ## `FindAll`

A path is returned for every place that holds the tag, and no path twice: in one group different
members give different indices, and different groups have different count tags. -/

section FindAll

variable (ρ : RangeOrder) (tag : ℤ)

theorem findAllMembers_cons (p : Path) (g : ℤ) (i : ℕ) (m : FixFragment) (ms : List FixFragment) :
    findAllMembers ρ tag p g i (m :: ms)
      = ((m.findAll ρ tag ((g, i) :: p)).bind fun sub => [g :: (i : ℤ) :: sub]).andThen
        (findAllMembers ρ tag p g (i + 1) ms) := rfl

theorem findAllFields_eq (p : Path) (f : FixFragment) :
    findAllFields ρ tag p f = f.map fun e => (e.1, findAllValue ρ tag p e.1 e.2) := by
  induction f with
  | nil => rfl
  | cons e f ih => rw [findAllFields, ih, List.map_cons]

/-- The paths through the members of a group. -/
def pathsThrough (p : Path) (g : ℤ) (ms : List FixFragment) : List (List ℤ) :=
  ms.zipIdx.flatMap fun x => (x.1.findAll ρ tag ((g, x.2) :: p)).out.map fun sub =>
    g :: (x.2 : ℤ) :: sub

variable {ρ tag}

/-- **`FindAll` of a tree of strings and groups**: the tag itself, and the paths through the groups
in the order of the map. -/
theorem findAll_ok (f : FixFragment) (hplain : f.Plain) (p : Path) :
    f.findAll ρ tag p = .ok ((if f.contains tag then [[tag]] else [])
      ++ (ρ.run p f.tags).flatMap fun g => pathsThrough ρ tag p g (f.membersAt g)) := by
  induction f using FixFragment.induction generalizing p with
  | step f ih =>
    rw [FixFragment.findAll, inOrder_ok fun g => pathsThrough ρ tag p g (f.membersAt g)]
    · rfl
    intro g hg
    refine entry_ok hplain (pathsThrough ρ tag p) (findAllFields_eq ρ tag p f)
      (ρ.mem_run.mp hg) (fun _ => rfl) fun n k ms hmem => ?_
    rw [findAllValue, members_ok (fun i m => (m.findAll ρ tag ((g, i) :: p)).bind fun sub =>
      [g :: (i : ℤ) :: sub]) (findAllMembers ρ tag p g) (fun _ => rfl)
      (findAllMembers_cons ρ tag p g)]
    · simp only [pathsThrough, Written.bind, List.map_eq_flatMap]
    · intro m hm i
      exact congrArg Written.fault (ih g n k ms hmem m hm (hplain.member hmem hm) _)

theorem mem_pathsThrough {p : Path} {g : ℤ} {ms : List FixFragment} {q : List ℤ} :
    q ∈ pathsThrough ρ tag p g ms ↔ ∃ (i : ℕ) (m : FixFragment), ms[i]? = some m
      ∧ ∃ sub ∈ (m.findAll ρ tag ((g, i) :: p)).out, q = g :: (i : ℤ) :: sub := by
  rw [pathsThrough, List.mem_flatMap]
  constructor
  · rintro ⟨x, hx, hq⟩
    obtain ⟨sub, hsub, rfl⟩ := List.mem_map.mp hq
    exact ⟨x.2, x.1, List.mem_zipIdx_iff_getElem?.mp hx, sub, hsub, rfl⟩
  · rintro ⟨i, m, hm, sub, hsub, rfl⟩
    exact ⟨(m, i), List.mk_mem_zipIdx_iff_getElem?.mpr hm, List.mem_map.mpr ⟨sub, hsub, rfl⟩⟩

/-- **`FindAll` returns the paths to the fragments that hold the tag.** -/
theorem mem_findAll {f : FixFragment} (hplain : f.Plain) {p : Path} {q : List ℤ} :
    q ∈ (f.findAll ρ tag p).out ↔ ∃ place, f.HoldsAt place tag ∧ q = pathTo place tag := by
  induction f using FixFragment.induction generalizing p q with
  | step f ih =>
    have hmember : ∀ {g : ℤ} {i : ℕ} {m : FixFragment}, (f.membersAt g)[i]? = some m → ∀ {p q},
        q ∈ (m.findAll ρ tag p).out ↔ ∃ place, m.HoldsAt place tag ∧ q = pathTo place tag := by
      intro g i m hm p q
      obtain ⟨n, k, ms, hfind, hget⟩ := FixFragment.exists_group_of_membersAt hm
      have hmem := Assoc.mem_of_find? hfind
      have hin := List.mem_of_getElem? hget
      exact ih g n k ms hmem m hin (hplain.member hmem hin)
    rw [findAll_ok f hplain, Written.ok, List.mem_append, List.mem_flatMap]
    constructor
    · rintro (h | ⟨g, -, hq⟩)
      · split at h
        · next ht =>
          obtain rfl := List.mem_singleton.mp h
          exact ⟨[], FixFragment.holdsAt_nil.mpr (FixFragment.contains_iff.mp ht), rfl⟩
        · cases h
      · obtain ⟨i, m, hm, sub, hsub, rfl⟩ := mem_pathsThrough.mp hq
        obtain ⟨place, hplace, rfl⟩ := (hmember hm).mp hsub
        exact ⟨(g, i) :: place, FixFragment.holdsAt_cons.mpr ⟨m, hm, hplace⟩, rfl⟩
    · rintro ⟨place, hplace, rfl⟩
      cases place with
      | nil =>
        have ht := FixFragment.contains_iff.mpr (FixFragment.holdsAt_nil.mp hplace)
        left
        rw [if_pos ht]
        exact List.mem_singleton_self _
      | cons e place =>
        obtain ⟨g, i⟩ := e
        obtain ⟨m, hm, hplace⟩ := FixFragment.holdsAt_cons.mp hplace
        obtain ⟨n, k, ms, hfind, -⟩ := FixFragment.exists_group_of_membersAt hm
        have hg : g ∈ f.tags := Assoc.find?_isSome_iff.mp (by rw [hfind]; rfl)
        exact Or.inr ⟨g, ρ.mem_run.mpr hg,
          mem_pathsThrough.mpr ⟨i, m, hm, _, (hmember hm).mpr ⟨place, hplace, rfl⟩, rfl⟩⟩

/-- Paths through different members of a group differ in the index. -/
theorem nodup_pathsThrough {p : Path} {g : ℤ} {ms : List FixFragment}
    (h : ∀ m ∈ ms, ∀ p, (m.findAll ρ tag p).out.Nodup) : (pathsThrough ρ tag p g ms).Nodup := by
  rw [pathsThrough, List.nodup_flatMap]
  constructor
  · intro x hx
    have hm := List.mem_of_getElem? (List.mem_zipIdx_iff_getElem?.mp hx)
    refine (h x.1 hm _).map fun a b hab => ?_
    exact (List.cons.inj (List.cons.inj hab).2).2
  · have hidx : (ms.zipIdx.map Prod.snd).Nodup := by
      rw [List.zipIdx_map_snd]
      exact List.nodup_range'
    refine (List.pairwise_map.mp hidx).imp fun hne => ?_
    intro q hq hq'
    obtain ⟨sub, -, rfl⟩ := List.mem_map.mp hq
    obtain ⟨sub', -, heq⟩ := List.mem_map.mp hq'
    have hidx := (List.cons.inj (List.cons.inj heq).2).1
    exact hne (Int.ofNat_inj.mp hidx).symm

/-- **`FindAll` returns no path twice.**  Paths through different groups differ in the count tag. -/
theorem nodup_findAll {f : FixFragment} (hplain : f.Plain) (hwf : f.WF) (p : Path) :
    (f.findAll ρ tag p).out.Nodup := by
  induction f using FixFragment.induction generalizing p with
  | step f ih =>
    rw [findAll_ok f hplain, Written.ok, List.nodup_append]
    refine ⟨?_, List.nodup_flatMap.mpr ⟨fun g _ => nodup_pathsThrough fun m hm p => ?_, ?_⟩, ?_⟩
    · split
      · exact List.nodup_singleton _
      · exact List.nodup_nil
    · obtain ⟨i, hget⟩ := List.getElem?_of_mem hm
      obtain ⟨n, k, ms, hfind, hget⟩ := FixFragment.exists_group_of_membersAt hget
      have hmem := Assoc.mem_of_find? hfind
      have hin := List.mem_of_getElem? hget
      exact ih g n k ms hmem m hin (hplain.member hmem hin) (hwf.member hmem hin) p
    · refine ((ρ.perm p f.tags).nodup_iff.mpr hwf.sorted.nodup).imp fun hne q hq hq' => ?_
      obtain ⟨i, m, -, sub, -, rfl⟩ := mem_pathsThrough.mp hq
      obtain ⟨i', m', -, sub', -, heq⟩ := mem_pathsThrough.mp hq'
      exact hne (List.cons.inj heq).1
    · intro q hq q' hq' heq
      obtain ⟨g, -, hq'⟩ := List.mem_flatMap.mp hq'
      obtain ⟨i, m, -, sub, -, rfl⟩ := mem_pathsThrough.mp hq'
      subst heq
      split at hq
      · cases (List.cons.inj (List.mem_singleton.mp hq)).2
      · cases hq

/-- **`RepeatingGroup.FindAll` of a tree of strings and groups.** -/
theorem groupFindAll_ok (n : ℤ) {ms : List FixFragment} (h : ∀ m ∈ ms, m.Plain) :
    groupFindAll ρ tag n ms = .ok (ms.zipIdx.flatMap fun x =>
      (x.1.findAll ρ tag [(n, x.2)]).out.map fun sub => (x.2 : ℤ) :: sub) := by
  rw [groupFindAll, members_ok (fun i m => (m.findAll ρ tag [(n, i)]).bind fun sub =>
    [(i : ℤ) :: sub]) (groupFindAllFrom ρ tag n) (fun _ => rfl) (fun _ _ _ => rfl)]
  · simp only [Written.toExcept, Written.ok, Written.bind, List.map_eq_flatMap]
  · intro m hm i
    exact congrArg Written.fault (findAll_ok m (h m hm) _)

theorem mem_groupFindAll {n : ℤ} {ms : List FixFragment} (h : ∀ m ∈ ms, m.Plain) {q : List ℤ} :
    (q ∈ ms.zipIdx.flatMap fun x =>
      (x.1.findAll ρ tag [(n, x.2)]).out.map fun sub => (x.2 : ℤ) :: sub) ↔
    ∃ (i : ℕ) (m : FixFragment) (place : Place), ms[i]? = some m ∧ m.HoldsAt place tag
      ∧ q = (i : ℤ) :: pathTo place tag := by
  rw [List.mem_flatMap]
  constructor
  · rintro ⟨⟨m, i⟩, hx, hq⟩
    have hm := List.mk_mem_zipIdx_iff_getElem?.mp hx
    obtain ⟨sub, hsub, rfl⟩ := List.mem_map.mp hq
    obtain ⟨place, hplace, rfl⟩ := (mem_findAll (h m (List.mem_of_getElem? hm))).mp hsub
    exact ⟨i, m, place, hm, hplace, rfl⟩
  · rintro ⟨i, m, place, hm, hplace, rfl⟩
    exact ⟨(m, i), List.mk_mem_zipIdx_iff_getElem?.mpr hm, List.mem_map.mpr
      ⟨_, (mem_findAll (h m (List.mem_of_getElem? hm))).mpr ⟨place, hplace, rfl⟩, rfl⟩⟩

end FindAll

/-! ## `Anywhere`

The loop stops at the first entry with the tag.  Where it stops depends on the order of the map;
that it stops does not. -/

section Anywhere

variable {ρ : RangeOrder} {tag : ℤ}

theorem anyInOrder_ok {ts : List ℤ} {ws : List (ℤ × Except Fault Bool)} (b : ℤ → Bool)
    (h : ∀ t ∈ ts, (Assoc.find? t ws).getD (.ok false) = .ok (b t)) :
    anyInOrder ts ws = .ok (ts.any b) := by
  induction ts with
  | nil => rfl
  | cons t ts ih =>
    rw [anyInOrder, h t List.mem_cons_self, ih fun u hu => h u (List.mem_cons_of_mem _ hu),
      List.any_cons]
    cases b t <;> rfl

theorem anywhereMembers_ok {p : Path} {g : ℤ} {ms : List FixFragment} (b : FixFragment → Bool)
    (h : ∀ m ∈ ms, ∀ p, m.anywhere ρ tag p = .ok (b m)) (i : ℕ) :
    anywhereMembers ρ tag p g i ms = .ok (ms.any b) := by
  induction ms generalizing i with
  | nil => rfl
  | cons m ms ih =>
    have hm : (if (Assoc.find? tag m).isSome then .ok true
        else anyInOrder (ρ.run ((g, i) :: p) (Assoc.keys m))
          (anywhereFields ρ tag ((g, i) :: p) m)) = Except.ok (b m) := h m List.mem_cons_self _
    rw [anywhereMembers, hm, ih fun m' hm' => h m' (List.mem_cons_of_mem _ hm'), List.any_cons]
    cases b m <;> rfl

theorem anywhereFields_eq (p : Path) (f : FixFragment) :
    anywhereFields ρ tag p f = f.map fun e => (e.1, anywhereValue ρ tag p e.1 e.2) := by
  induction f with
  | nil => rfl
  | cons e f ih => rw [anywhereFields, ih, List.map_cons]

open Classical in
/-- **`Anywhere` of a tree of strings and groups** tells whether a fragment holds the tag. -/
theorem anywhere_ok (f : FixFragment) (hplain : f.Plain) (p : Path) :
    f.anywhere ρ tag p = .ok (decide (∃ place, f.HoldsAt place tag)) := by
  induction f using FixFragment.induction generalizing p with
  | step f ih =>
    rw [FixFragment.anywhere, anyInOrder_ok fun g => (f.membersAt g).any fun m =>
      decide (∃ place, m.HoldsAt place tag)]
    · split
      · next ht =>
        have h : ∃ place, f.HoldsAt place tag :=
          ⟨[], FixFragment.holdsAt_nil.mpr (FixFragment.contains_iff.mp ht)⟩
        rw [decide_eq_true h]
      · next ht =>
        refine congrArg Except.ok (Bool.eq_iff_iff.mpr ?_)
        rw [decide_eq_true_iff, List.any_eq_true]
        constructor
        · rintro ⟨g, -, hany⟩
          obtain ⟨m, hm, hheld⟩ := List.any_eq_true.mp hany
          obtain ⟨place, hplace⟩ := of_decide_eq_true hheld
          obtain ⟨i, hi⟩ := List.getElem?_of_mem hm
          exact ⟨(g, i) :: place, FixFragment.holdsAt_cons.mpr ⟨m, hi, hplace⟩⟩
        · rintro ⟨place, hplace⟩
          cases place with
          | nil => exact absurd (FixFragment.contains_iff.mpr (FixFragment.holdsAt_nil.mp hplace)) ht
          | cons e place =>
            obtain ⟨g, i⟩ := e
            obtain ⟨m, hm, hplace⟩ := FixFragment.holdsAt_cons.mp hplace
            obtain ⟨n, k, ms, hfind, -⟩ := FixFragment.exists_group_of_membersAt hm
            have hg : g ∈ f.tags := Assoc.find?_isSome_iff.mp (by rw [hfind]; rfl)
            exact ⟨g, ρ.mem_run.mpr hg,
              List.any_eq_true.mpr ⟨m, List.mem_of_getElem? hm, decide_eq_true ⟨place, hplace⟩⟩⟩
    intro g hg
    obtain ⟨v, hv⟩ := Option.isSome_iff_exists.mp (Assoc.find?_isSome_iff.mpr (ρ.mem_run.mp hg))
    rw [anywhereFields_eq, Assoc.find?_map, FixFragment.membersAt, hv, Option.map_some,
      Option.getD_some]
    rcases hplain f (self_mem_fragments f) _ (Assoc.mem_of_find? hv) with ⟨s, hs⟩ | ⟨n, k, ms, hms⟩
    · dsimp only at hs
      subst hs
      rfl
    · dsimp only at hms
      subst hms
      have hmem := Assoc.mem_of_find? hv
      rw [anywhereValue]
      exact anywhereMembers_ok _ (fun m hm => ih g n k ms hmem m hm (hplain.member hmem hm)) 0

end Anywhere

/-! ## `AllTagsDeep` -/

section AllTagsDeep

variable (ρ : RangeOrder)

theorem collectTagsFields_eq (p : Path) (f : FixFragment) :
    collectTagsFields ρ p f = f.map fun e => (e.1, collectTagsValue ρ p e.1 e.2) := by
  induction f with
  | nil => rfl
  | cons e f ih => rw [collectTagsFields, ih, List.map_cons]

/-- The tags seen under an entry: its own, and those of its members. -/
def tagsUnder (p : Path) (g : ℤ) (ms : List FixFragment) : List ℤ :=
  g :: ms.zipIdx.flatMap fun x => (x.1.collectTags ρ ((g, x.2) :: p)).out

variable {ρ}

theorem collectTags_ok (f : FixFragment) (hplain : f.Plain) (p : Path) :
    f.collectTags ρ p
      = .ok ((ρ.run p f.tags).flatMap fun g => tagsUnder ρ p g (f.membersAt g)) := by
  induction f using FixFragment.induction generalizing p with
  | step f ih =>
    rw [FixFragment.collectTags]
    refine inOrder_ok _ fun g hg => ?_
    refine entry_ok hplain (tagsUnder ρ p) (collectTagsFields_eq ρ p f)
      (ρ.mem_run.mp hg) (fun _ => rfl) fun n k ms hmem => ?_
    rw [collectTagsValue, members_ok (fun i m => m.collectTags ρ ((g, i) :: p))
      (collectTagsMembers ρ p g) (fun _ => rfl) (fun _ _ _ => rfl)]
    · rfl
    · intro m hm i
      exact congrArg Written.fault (ih g n k ms hmem m hm (hplain.member hmem hm) _)

/-- **`collectTags` sees the tags held at some place.** -/
theorem mem_collectTags {f : FixFragment} (hplain : f.Plain) {p : Path} {tag : ℤ} :
    tag ∈ (f.collectTags ρ p).out ↔ ∃ place, f.HoldsAt place tag := by
  induction f using FixFragment.induction generalizing p with
  | step f ih =>
    have hmember : ∀ {g : ℤ} {i : ℕ} {m : FixFragment}, (f.membersAt g)[i]? = some m → ∀ {p},
        tag ∈ (m.collectTags ρ p).out ↔ ∃ place, m.HoldsAt place tag := by
      intro g i m hm p
      obtain ⟨n, k, ms, hfind, hget⟩ := FixFragment.exists_group_of_membersAt hm
      have hmem := Assoc.mem_of_find? hfind
      have hin := List.mem_of_getElem? hget
      exact ih g n k ms hmem m hin (hplain.member hmem hin)
    rw [collectTags_ok f hplain, Written.ok, List.mem_flatMap]
    constructor
    · rintro ⟨g, hg, ht⟩
      rcases List.mem_cons.mp ht with rfl | ht
      · exact ⟨[], FixFragment.holdsAt_nil.mpr (ρ.mem_run.mp hg)⟩
      · obtain ⟨⟨m, i⟩, hx, ht⟩ := List.mem_flatMap.mp ht
        have hm := List.mk_mem_zipIdx_iff_getElem?.mp hx
        obtain ⟨place, hplace⟩ := (hmember hm).mp ht
        exact ⟨(g, i) :: place, FixFragment.holdsAt_cons.mpr ⟨m, hm, hplace⟩⟩
    · rintro ⟨place, hplace⟩
      cases place with
      | nil =>
        exact ⟨tag, ρ.mem_run.mpr (FixFragment.holdsAt_nil.mp hplace), List.mem_cons_self⟩
      | cons e place =>
        obtain ⟨g, i⟩ := e
        obtain ⟨m, hm, hplace⟩ := FixFragment.holdsAt_cons.mp hplace
        obtain ⟨n, k, ms, hfind, -⟩ := FixFragment.exists_group_of_membersAt hm
        have hg : g ∈ f.tags := Assoc.find?_isSome_iff.mp (by rw [hfind]; rfl)
        have hsub := (hmember hm (p := (g, i) :: p)).mpr ⟨place, hplace⟩
        exact ⟨g, ρ.mem_run.mpr hg, List.mem_cons_of_mem _
          (List.mem_flatMap.mpr ⟨(m, i), List.mk_mem_zipIdx_iff_getElem?.mpr hm, hsub⟩)⟩

end AllTagsDeep

/-! ## Agreement

The three are now compared with one another through the places.  For `RepeatingGroup.FindAll` the
comparison is with the paths that start with the group's tag and an index. -/

theorem pathTo_injective {tag : ℤ} : ∀ {place place' : Place},
    pathTo place tag = pathTo place' tag → place = place'
  | [], [], _ => rfl
  | [], _ :: _, h => by cases (List.cons.inj h).2
  | _ :: _, [], h => by cases (List.cons.inj h).2
  | (g, i) :: place, (g', i') :: place', h => by
    obtain ⟨rfl, hrest⟩ := List.cons.inj h
    obtain ⟨hi, hplace⟩ := List.cons.inj hrest
    obtain rfl := Int.ofNat_inj.mp hi
    rw [pathTo_injective hplace]

theorem nodup_groupFindAll {ρ : RangeOrder} {tag n : ℤ} {ms : List FixFragment}
    (hplain : ∀ m ∈ ms, m.Plain) (hwf : ∀ m ∈ ms, m.WF) :
    (ms.zipIdx.flatMap fun x =>
      (x.1.findAll ρ tag [(n, x.2)]).out.map fun sub => (x.2 : ℤ) :: sub).Nodup := by
  rw [List.nodup_flatMap]
  constructor
  · intro x hx
    have hm := List.mem_of_getElem? (List.mem_zipIdx_iff_getElem?.mp hx)
    exact (nodup_findAll (hplain x.1 hm) (hwf x.1 hm) _).map fun a b hab => (List.cons.inj hab).2
  · have hidx : (ms.zipIdx.map Prod.snd).Nodup := by
      rw [List.zipIdx_map_snd]
      exact List.nodup_range'
    refine (List.pairwise_map.mp hidx).imp fun hne q hq hq' => ?_
    obtain ⟨sub, -, rfl⟩ := List.mem_map.mp hq
    obtain ⟨sub', -, heq⟩ := List.mem_map.mp hq'
    exact hne (Int.ofNat_inj.mp (List.cons.inj heq).1).symm

/-- The rests of the paths that go into the group under a tag. -/
def tailsInto (g : ℤ) (paths : List (List ℤ)) : List (List ℤ) :=
  (paths.filter fun q => q.head? == some g && decide (1 < q.length)).map List.tail

theorem length_pathTo (place : Place) (tag : ℤ) :
    (pathTo place tag).length = 2 * place.length + 1 := by
  induction place with
  | nil => rfl
  | cons e place ih =>
    rw [pathTo, List.length_cons, List.length_cons, ih, List.length_cons]
    omega

/-- **`RepeatingGroup.FindAll`** gives the rests of the paths into the group. -/
theorem groupFindAll_perm {f : FixFragment} (hwf : f.WF) (hplain : f.Plain) {g n k : ℤ}
    {ms : List FixFragment} (hg : (g, .group n k ms) ∈ f) (tag : ℤ) (ρ σ : RangeOrder) :
    ∃ subs, groupFindAll σ tag n ms = .ok subs
      ∧ subs.Perm (tailsInto g (f.findAll ρ tag []).out) := by
  have hms : ∀ m ∈ ms, m.Plain := fun m hm => hplain.member hg hm
  have hat : f.membersAt g = ms :=
    FixFragment.membersAt_of_find? (hwf.sorted.find?_eq_some_iff.mpr hg)
  refine ⟨_, groupFindAll_ok n hms, ?_⟩
  have hnodup : (tailsInto g (f.findAll ρ tag []).out).Nodup := by
    refine ((nodup_findAll hplain hwf []).filter _).map_on fun a ha b hb hab => ?_
    have ha := (Bool.and_eq_true_iff.mp (List.mem_filter.mp ha).2).1
    have hb := (Bool.and_eq_true_iff.mp (List.mem_filter.mp hb).2).1
    rw [← List.cons_head?_tail (beq_iff_eq.mp ha), ← List.cons_head?_tail (beq_iff_eq.mp hb), hab]
  refine (List.perm_ext_iff_of_nodup
    (nodup_groupFindAll hms fun m hm => hwf.member hg hm) hnodup).mpr fun q => ?_
  rw [mem_groupFindAll hms, tailsInto, List.mem_map]
  constructor
  · rintro ⟨i, m, place, hm, hplace, rfl⟩
    have hin : f.HoldsAt ((g, i) :: place) tag :=
      FixFragment.holdsAt_cons.mpr ⟨m, by rw [hat, hm], hplace⟩
    refine ⟨pathTo ((g, i) :: place) tag,
      List.mem_filter.mpr ⟨(mem_findAll hplain).mpr ⟨_, hin, rfl⟩, ?_⟩, rfl⟩
    rw [length_pathTo, pathTo, List.head?_cons, List.length_cons]
    simp
  · rintro ⟨q, hq, rfl⟩
    obtain ⟨hq, hinto⟩ := List.mem_filter.mp hq
    obtain ⟨hhead, hlen⟩ := Bool.and_eq_true_iff.mp hinto
    obtain ⟨place, hplace, rfl⟩ := (mem_findAll hplain).mp hq
    cases place with
    | nil => exact absurd (of_decide_eq_true hlen) (Nat.lt_irrefl 1)
    | cons e place =>
      obtain ⟨g', i⟩ := e
      obtain rfl : g' = g := Option.some.inj (beq_iff_eq.mp hhead)
      obtain ⟨m, hm, hplace⟩ := FixFragment.holdsAt_cons.mp hplace
      exact ⟨i, m, place, by rw [← hat, hm], hplace, rfl⟩

/-- **Deep search agrees.**  Each of the traversals may meet each map in an order of its own. -/
theorem deepSearch_agrees {f : FixFragment} (hwf : f.WF) (hplain : f.Plain) (tag : ℤ)
    (ρ₁ ρ₂ ρ₃ τ : RangeOrder) :
    ∃ paths found tags, (f.findAll ρ₁ tag []).toExcept = .ok paths
      ∧ f.anywhere ρ₂ tag [] = .ok found
      ∧ f.allTagsDeep ρ₃ τ = .ok tags
      ∧ (∀ q ∈ paths, ∃! place, f.HoldsAt place tag ∧ q = pathTo place tag)
      ∧ (∀ place, f.HoldsAt place tag → paths.count (pathTo place tag) = 1)
      ∧ (found = true ↔ paths ≠ [])
      ∧ (paths ≠ [] ↔ tag ∈ tags)
      ∧ tags.Nodup
      ∧ ∀ g n k ms, (g, .group n k ms) ∈ f → ∀ σ : RangeOrder,
          ∃ subs, groupFindAll σ tag n ms = .ok subs ∧ subs.Perm (tailsInto g paths) := by
  classical
  have hpaths : (f.findAll ρ₁ tag []).out ≠ [] ↔ ∃ place, f.HoldsAt place tag := by
    constructor
    · intro hne
      obtain ⟨q, hq⟩ := List.exists_mem_of_ne_nil _ hne
      obtain ⟨place, hplace, -⟩ := (mem_findAll hplain).mp hq
      exact ⟨place, hplace⟩
    · rintro ⟨place, hplace⟩
      exact List.ne_nil_of_mem ((mem_findAll hplain).mpr ⟨place, hplace, rfl⟩)
  have htags : tag ∈ τ.run [] (f.collectTags ρ₃ []).out.dedup ↔ ∃ place, f.HoldsAt place tag := by
    rw [τ.mem_run, List.mem_dedup, mem_collectTags hplain]
  refine ⟨(f.findAll ρ₁ tag []).out, _, τ.run [] (f.collectTags ρ₃ []).out.dedup, ?_,
    anywhere_ok f hplain [], ?_, fun q hq => ?_, fun place hplace => ?_, ?_, ?_, ?_,
    fun g n k ms hg σ => groupFindAll_perm hwf hplain hg tag ρ₁ σ⟩
  · rw [findAll_ok f hplain]
    rfl
  · rw [FixFragment.allTagsDeep, collectTags_ok f hplain]
    rfl
  · obtain ⟨place, hplace, rfl⟩ := (mem_findAll hplain).mp hq
    exact ⟨place, ⟨hplace, rfl⟩, fun other hother => (pathTo_injective hother.2).symm⟩
  · exact List.count_eq_one_of_mem (nodup_findAll hplain hwf [])
      ((mem_findAll hplain).mpr ⟨place, hplace, rfl⟩)
  · rw [decide_eq_true_iff, hpaths]
  · rw [hpaths, htags]
  · exact (τ.perm [] _).nodup_iff.mpr (List.nodup_dedup _)

/-- An order of parties, one of which has parties of its own. -/
def partiesInParties : FixFragment :=
  [(35, .str (ascii "D")),
    (453, .group 453 448
      [[(448, .str (ascii "A")), (453, .group 453 448 [[(448, .str (ascii "B"))]])],
        [(448, .str (ascii "C"))]])]

/-- The count tag is at the top and in the first party, and the group gives the way to the latter. -/
theorem deepSearch_agrees_partiesInParties :
    ∃ paths, (partiesInParties.findAll .written 453 []).toExcept = .ok paths
      ∧ paths.count [453] = 1 ∧ paths.count [453, 0, 453] = 1
      ∧ ∃ subs, groupFindAll .written 453 453
          [[(448, .str (ascii "A")), (453, .group 453 448 [[(448, .str (ascii "B"))]])],
            [(448, .str (ascii "C"))]] = .ok subs
        ∧ subs.Perm (tailsInto 453 paths) := by
  obtain ⟨paths, _, _, hpaths, -, -, -, hcount, -, -, -, hgroup⟩ :=
    deepSearch_agrees (show partiesInParties.WF by decide)
      (show partiesInParties.Plain by decide) 453 .written .written .written .written
  exact ⟨paths, hpaths, hcount [] ⟨partiesInParties, rfl, by decide⟩,
    hcount [(453, 0)] ⟨_, rfl, by decide⟩,
    hgroup 453 453 448 _ (List.mem_cons_of_mem _ List.mem_cons_self) .written⟩

/-- The path to the count tag itself starts with it, but its rest is not among those of the group. -/
theorem groupFindAll_omits_countTag :
    partiesInParties.WF ∧ partiesInParties.Plain
      ∧ (partiesInParties.findAll .written 453 []).toExcept = .ok [[453], [453, 0, 453]]
      ∧ groupFindAll .written 453 453
          [[(448, .str (ascii "A")), (453, .group 453 448 [[(448, .str (ascii "B"))]])],
            [(448, .str (ascii "C"))]] = .ok [[0, 453]]
      ∧ ¬ [[0, 453]].Perm
          (([[453], [453, 0, 453]].filter fun q : List ℤ => q.head? == some 453).map List.tail) :=
  ⟨by decide, by decide, rfl, rfl, by decide⟩

end FixMsg
