import GoFixMsg.Codec.GroupLoop
import GoFixMsg.Message.Shape

/-!
# Codec/Forest — the syntax trees behind a parse

A fragment forgets the order of its fields and all but the last value of a tag.  A `Forest` keeps
both: `flatten` gives the fields of the wire back one by one, `collapse` the fragment the parser
builds from them.  Whatever the parser makes of a buffer, it is the collapse of a forest that
flattens to the fields it consumed, with FirstTag at the head of every member: so `LoopSound` and
`LoopReads` say, and `Codec/GroupRun` proves.
-/

open GoLang

namespace FixMsg

/-- What stands under a tag on the wire: a value, or the text of a count and the members. -/
inductive Item where
  | leaf (value : Bytes)
  | group (count : Bytes) (firstTag : ℤ) (members : List (List (ℤ × Item)))
  deriving Inhabited

/-- Fields in the order of the wire, each group with its members. -/
abbrev Forest := List (ℤ × Item)

namespace Forest

mutual

/-- The fields an item stands for. -/
def itemFields (tag : ℤ) : Item → List Field
  | .leaf v => [(tag, v)]
  | .group c _ ms => (tag, c) :: membersFields ms

/-- The fields of the members of a group. -/
def membersFields : List Forest → List Field
  | [] => []
  | m :: ms => flatten m ++ membersFields ms

/-- **The fields of a forest, one after the other.** -/
def flatten : Forest → List Field
  | [] => []
  | (t, i) :: F => itemFields t i ++ flatten F

end

mutual

/-- The value an item becomes. -/
def itemValue (tag : ℤ) : Item → Value
  | .leaf v => .str v
  | .group _ k ms => .group tag k (collapseMembers ms)

/-- The members an item's members become. -/
def collapseMembers : List Forest → List FixFragment
  | [] => []
  | m :: ms => collapseOn m [] :: collapseMembers ms

/-- Set what stands in a forest in a fragment, one after the other. -/
def collapseOn : Forest → FixFragment → FixFragment
  | [], f => f
  | (t, i) :: F, f => collapseOn F (Assoc.insert t (itemValue t i) f)

end

/-- **The fragment a forest becomes.** -/
def collapse (F : Forest) : FixFragment := collapseOn F []

/-- The tags at the top of a forest. -/
def tags (F : Forest) : List ℤ := F.map Prod.fst

theorem membersFields_eq (ms : List Forest) : membersFields ms = ms.flatMap flatten := by
  induction ms with
  | nil => rfl
  | cons m ms ih => rw [membersFields, ih, List.flatMap_cons]

theorem collapseMembers_eq (ms : List Forest) : collapseMembers ms = ms.map collapse := by
  induction ms with
  | nil => rfl
  | cons m ms ih => rw [collapseMembers, ih, List.map_cons, collapse]

theorem flatten_eq (F : Forest) : flatten F = F.flatMap fun e => itemFields e.1 e.2 := by
  induction F with
  | nil => rfl
  | cons e F ih => rw [flatten, ih, List.flatMap_cons]

theorem flatten_append (F G : Forest) : flatten (F ++ G) = flatten F ++ flatten G := by
  rw [flatten_eq, flatten_eq, flatten_eq, List.flatMap_append]

theorem collapseOn_append (F G : Forest) (f : FixFragment) :
    collapseOn (F ++ G) f = collapseOn G (collapseOn F f) := by
  induction F generalizing f with
  | nil => rfl
  | cons e F ih => exact ih _

/-- Adding an item to a forest is setting its value in the fragment. -/
theorem collapse_concat (F : Forest) (t : ℤ) (i : Item) :
    collapse (F ++ [(t, i)]) = Assoc.insert t (itemValue t i) (collapse F) := by
  rw [collapse, collapseOn_append]
  rfl

theorem collapseOn_sorted (F : Forest) {f : FixFragment} (hf : Assoc.Sorted f) :
    Assoc.Sorted (collapseOn F f) := by
  induction F generalizing f with
  | nil => exact hf
  | cons e F ih => exact ih (hf.insert _ _)

theorem collapse_sorted (F : Forest) : Assoc.Sorted (collapse F) :=
  collapseOn_sorted F Assoc.sorted_nil

theorem sizeOf_member_lt {F m : Forest} {t k : ℤ} {c : Bytes} {ms : List Forest}
    (hF : (t, Item.group c k ms) ∈ F) (hm : m ∈ ms) : sizeOf m < sizeOf F := by
  have h1 := List.sizeOf_lt_of_mem hF
  have h2 := List.sizeOf_lt_of_mem hm
  simp only [Prod.mk.sizeOf_spec, Item.group.sizeOf_spec] at h1
  omega

/-- **Induction over the members of the groups of a forest.** -/
theorem induction {motive : Forest → Prop}
    (step : ∀ F : Forest, (∀ t c k ms, (t, Item.group c k ms) ∈ F → ∀ m ∈ ms, motive m) →
      motive F) (F : Forest) : motive F := by
  induction hsize : sizeOf F using Nat.strongRecOn generalizing F with
  | ind size ih =>
    refine step F fun t c k ms hF m hm => ih (sizeOf m) ?_ m rfl
    rw [← hsize]
    exact sizeOf_member_lt hF hm

/-! ## The shape of a parsed forest

A forest that a parser has read has plain fields and groups of the dictionary; each member begins
with a plain field under FirstTag, and goes on with tags of the group. -/

/-- A member begins with a plain field under the tag. -/
def StartsWith (tag : ℤ) (m : Forest) : Prop := ∃ v rest, m = (tag, .leaf v) :: rest

/-- **The forest of a parse**: count tags of the dictionary head groups whose members begin with
FirstTag, every other tag heads a plain field. -/
inductive Shaped (s : FixSpec) : List (ℤ × GroupRef) → Forest → Prop
  | nil {groups : List (ℤ × GroupRef)} : Shaped s groups []
  | leaf {groups : List (ℤ × GroupRef)} {t : ℤ} {v : Bytes} {F : Forest}
      (hplain : Assoc.find? t groups = none) (hF : Shaped s groups F) :
      Shaped s groups ((t, .leaf v) :: F)
  | group {groups : List (ℤ × GroupRef)} {t : ℤ} {ref : GroupRef} {c : Bytes} {ms : List Forest}
      {F : Forest} (hgroup : Assoc.find? t groups = some ref)
      (hstart : ∀ m ∈ ms, StartsWith (s.groupSpec ref).firstTag m)
      (hms : ∀ m ∈ ms, Shaped s (s.groupSpec ref).nestedGroups m.tail) (hF : Shaped s groups F) :
      Shaped s groups ((t, .group c (s.groupSpec ref).firstTag ms) :: F)

/-- A member of a group: FirstTag, then a shaped forest. -/
def Member (s : FixSpec) (grp : GroupSpec) (m : Forest) : Prop :=
  StartsWith grp.firstTag m ∧ Shaped s grp.nestedGroups m.tail

variable {s : FixSpec}

theorem Shaped.append {groups : List (ℤ × GroupRef)} {F G : Forest} (hF : Shaped s groups F)
    (hG : Shaped s groups G) : Shaped s groups (F ++ G) := by
  induction hF with
  | nil => exact hG
  | leaf hplain _ ih => exact .leaf hplain (ih hG)
  | group hgroup hstart hms _ _ ih => exact .group hgroup hstart hms (ih hG)

theorem Member.concat {grp : GroupSpec} {m : Forest} (hm : Member s grp m) {t : ℤ} {i : Item}
    (hi : Shaped s grp.nestedGroups [(t, i)]) : Member s grp (m ++ [(t, i)]) := by
  obtain ⟨⟨v, rest, rfl⟩, hrest⟩ := hm
  exact ⟨⟨v, rest ++ [(t, i)], rfl⟩, hrest.append hi⟩

/-! ## What a parser reads

The pairs that a loop has consumed are the fields of the members it has closed and of the one that
is open.  This is stated here, for any fuel, and proved in the module on runs. -/

/-- The field a pair stands for, if its tag is an integer. -/
def fieldOf (p : Pair) : Option Field := (atoi? p.1).map fun tag => (tag, p.2)

theorem fieldOf_of_atoi? {t : Bytes} {tag : ℤ} (h : atoi? t = some tag) (value : Bytes) :
    fieldOf (t, value) = some (tag, value) := by
  rw [fieldOf, h]
  rfl

/-- What a group loop has read so far: the closed members and the open one. -/
def loopFields (ms : List Forest) (cur : Option Forest) : List Field :=
  membersFields (ms ++ cur.toList)

/-- **What a group loop makes of its pairs**: it consumes some of them, and the members it yields are
the collapse of forests that flatten to what had been read before and to the pairs consumed. -/
def LoopReads (s : FixSpec) (grp : GroupSpec) (before : List Field) (pairs rest : List Pair)
    (out : List FixFragment) : Prop :=
  ∃ ms used, out = ms.map collapse ∧ (∀ m ∈ ms, Member s grp m) ∧ pairs = used ++ rest
    ∧ before.map some ++ used.map fieldOf = (membersFields ms).map some

/-- The loop reads soundly from these pairs on, whatever it has read before. -/
def LoopSound (s : FixSpec) (grp : GroupSpec) (count : ℤ) (pairs : List Pair) : Prop :=
  ∀ {rest : List Pair} {ms : List Forest} {cur : Option Forest} {out : List FixFragment},
    (∀ m ∈ ms, Member s grp m) → (∀ m ∈ cur, Member s grp m) →
    memberLoop s grp count pairs (ms.map collapse) (cur.map collapse) = .ok (rest, out) →
    LoopReads s grp (loopFields ms cur) pairs rest out

end Forest

end FixMsg
