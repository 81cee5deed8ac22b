import GoFixMsg.Spec.Ends

/-!
# Spec/Expansion — components in place of references

What a message or a group has is said by its own children and, through any chain of references, by
the components below (`Offers`).  In a document without cycles the loaded dictionary has just that,
for every message and every group, however deep (`buildSpec_expands`).

The proof has three parts: what the calls meet is what is offered; what they make of it are the maps
of a message or of a group; and what stands in the table of groups is what a group tree was, by way
of the references.  Each of them goes down through the groups once.
-/

open GoLang Relation

namespace FixMsg

section Offers

variable (D : SpecTables)

/-- **A field or a group stands among the children**, or in a component that is referred to there,
directly or through other components.  It is optional where a reference on the way is. -/
inductive Offers : Bool → List XmlChild → SpecEntry → Prop
  | field {o : Bool} {name required : Bytes} {children : List XmlChild} {num : ℤ}
      (mem : XmlChild.field name required ∈ children) (hname : D.nameToNum name = some num) :
      Offers o children ⟨num, required, o, none⟩
  | group {o : Bool} {name required : Bytes} {inner children : List XmlChild} {num : ℤ}
      (mem : XmlChild.group name required inner ∈ children) (hname : D.nameToNum name = some num) :
      Offers o children ⟨num, required, o, some ⟨name, required, inner⟩⟩
  | component {o : Bool} {name required : Bytes} {c : XmlComponent} {children : List XmlChild}
      {e : SpecEntry} (mem : XmlChild.component name required ∈ children)
      (hname : D.compMap name = some c)
      (offers : Offers (o || required == ascii "N") c.children e) : Offers o children e

variable {D} {o : Bool} {children : List XmlChild}

theorem Offers.mono {children' : List XmlChild} {e : SpecEntry} (h : Offers D o children e)
    (hsub : ∀ x ∈ children, x ∈ children') : Offers D o children' e := by
  cases h with
  | field mem hname => exact .field (hsub _ mem) hname
  | group mem hname => exact .group (hsub _ mem) hname
  | component mem hname offers => exact .component (hsub _ mem) hname offers

theorem mem_ownEntries {e : SpecEntry} : e ∈ ownEntries D o children ↔
    (∃ name required num, XmlChild.field name required ∈ children ∧ D.nameToNum name = some num
      ∧ e = ⟨num, required, o, none⟩)
    ∨ ∃ name required inner num, XmlChild.group name required inner ∈ children
      ∧ D.nameToNum name = some num ∧ e = ⟨num, required, o, some ⟨name, required, inner⟩⟩ := by
  rw [ownEntries, List.mem_append, List.mem_filterMap, List.mem_filterMap]
  refine or_congr ⟨?_, ?_⟩ ⟨?_, ?_⟩
  · rintro ⟨f, hf, he⟩
    obtain ⟨num, hnum, rfl⟩ := Option.map_eq_some_iff.mp he
    exact ⟨f.name, f.required, num, mem_fieldRefs.mp hf, hnum, rfl⟩
  · rintro ⟨name, required, num, mem, hnum, rfl⟩
    exact ⟨⟨name, required⟩, mem_fieldRefs.mpr mem, Option.map_eq_some_iff.mpr ⟨num, hnum, rfl⟩⟩
  · rintro ⟨g, hg, he⟩
    obtain ⟨num, hnum, rfl⟩ := Option.map_eq_some_iff.mp he
    exact ⟨g.name, g.required, g.children, num, mem_groupRefs.mp hg, hnum, rfl⟩
  · rintro ⟨name, required, inner, num, mem, hnum, rfl⟩
    exact ⟨⟨name, required, inner⟩, mem_groupRefs.mpr mem,
      Option.map_eq_some_iff.mpr ⟨num, hnum, rfl⟩⟩

theorem offers_of_mem_ownEntries {e : SpecEntry} (h : e ∈ ownEntries D o children) :
    Offers D o children e := by
  rcases mem_ownEntries.mp h with ⟨name, required, num, mem, hnum, rfl⟩
    | ⟨name, required, inner, num, mem, hnum, rfl⟩
  · exact .field mem hnum
  · exact .group mem hnum

/-- The call for a component that is referred to is among those visited. -/
theorem Visits.of_component {calls : List (List SpecEntry)} (h : Visits D o children calls)
    {name required : Bytes} {c : XmlComponent} (mem : XmlChild.component name required ∈ children)
    (hname : D.compMap name = some c) :
    ∃ below, Visits D (o || required == ascii "N") c.children below
      ∧ ∀ e ∈ (ownEntries D (o || required == ascii "N") c.children :: below).flatten,
        e ∈ calls.flatten := by
  induction h with
  | nil => cases mem
  | field _ ih => exact ih ((List.mem_cons.mp mem).resolve_left XmlChild.noConfusion)
  | group _ ih => exact ih ((List.mem_cons.mp mem).resolve_left XmlChild.noConfusion)
  | undefined hundefined _ ih =>
    rcases List.mem_cons.mp mem with heq | mem
    · obtain ⟨rfl, rfl⟩ := XmlChild.component.inj heq
      cases hundefined.symm.trans hname
    · exact ih mem
  | @component o name' required' c' rest below calls hname' inner _ _ ih =>
    rcases List.mem_cons.mp mem with heq | mem
    · obtain ⟨rfl, rfl⟩ := XmlChild.component.inj heq
      obtain rfl := Option.some.inj (hname.symm.trans hname')
      refine ⟨below, inner, fun e he => ?_⟩
      rw [List.cons_append, ← List.cons_append, List.flatten_append]
      exact List.mem_append_left _ he
    · obtain ⟨below', hv, hsub⟩ := ih mem
      refine ⟨below', hv, fun e he => ?_⟩
      rw [List.cons_append, ← List.cons_append, List.flatten_append]
      exact List.mem_append_right _ (hsub e he)

/-- **The calls meet what is offered**, and nothing else. -/
theorem Visits.mem_iff {below : List (List SpecEntry)} (h : Visits D o children below)
    {e : SpecEntry} :
    e ∈ (ownEntries D o children :: below).flatten ↔ Offers D o children e := by
  constructor
  · rw [List.flatten_cons, List.mem_append]
    rintro (he | he)
    · exact offers_of_mem_ownEntries he
    · induction h with
      | nil => cases he
      | field _ ih => exact (ih he).mono fun _ hx => List.mem_cons_of_mem _ hx
      | group _ ih => exact (ih he).mono fun _ hx => List.mem_cons_of_mem _ hx
      | undefined _ _ ih => exact (ih he).mono fun _ hx => List.mem_cons_of_mem _ hx
      | component hname _ _ ihinner ih =>
        rw [List.cons_append, List.flatten_cons, List.flatten_append, List.mem_append,
          List.mem_append] at he
        rcases he with he | he | he
        · exact .component List.mem_cons_self hname (offers_of_mem_ownEntries he)
        · exact .component List.mem_cons_self hname (ihinner he)
        · exact (ih he).mono fun _ hx => List.mem_cons_of_mem _ hx
  · intro hoffers
    induction hoffers generalizing below with
    | @field o name required children num mem hname =>
      rw [List.flatten_cons]
      exact List.mem_append_left _
        (mem_ownEntries.mpr (Or.inl ⟨name, required, num, mem, hname, rfl⟩))
    | @group o name required inner children num mem hname =>
      rw [List.flatten_cons]
      exact List.mem_append_left _
        (mem_ownEntries.mpr (Or.inr ⟨name, required, inner, num, mem, hname, rfl⟩))
    | component mem hname _ ih =>
      obtain ⟨below', hv, hsub⟩ := h.of_component mem hname
      rw [List.flatten_cons]
      exact List.mem_append_right _ (hsub _ (ih hv))

/-- A group that is offered is built by a call below. -/
theorem Offers.transGen_recurs {e : SpecEntry} {g : XmlGroup} (h : Offers D o children e)
    (hgroup : e.group = some g) : TransGen (Recurs D) g.children children := by
  induction h with
  | field => cases hgroup
  | group mem hname =>
    obtain rfl := Option.some.inj hgroup
    exact .single (.group mem (by rw [hname]; rfl))
  | component mem hname _ ih => exact .tail (ih hgroup) (.component mem hname)

/-! ## The group that is built -/

theorem exists_buildGroupSpec {g : XmlGroup} (hacc : Acc (Recurs D) g.children) (num : ℤ) :
    ∃ n, buildGroupSpec D n num g = some (D.tree num g) := by
  obtain ⟨n, hn⟩ := exists_depth_populate hacc
  obtain ⟨gs, hgs⟩ := Option.isSome_iff_exists.mp (hn (.empty num))
  exact ⟨n + 1, D.tree_eq (n := n + 1) hgs ▸ hgs⟩

theorem tree_visits {g : XmlGroup} (hacc : Acc (Recurs D) g.children) (num : ℤ) (o : Bool) :
    ∃ below, Visits D o g.children below ∧ D.tree num g
      = (ownEntries D o g.children :: below).foldl (GroupTree.visitCall D) (.empty num) := by
  obtain ⟨n, hn⟩ := exists_buildGroupSpec hacc num
  exact buildGroupSpec_visits hn o

theorem GroupTree.firstTag_visitCall_cons (gs : GroupTree) (e : SpecEntry) (es : List SpecEntry) :
    (gs.visitCall D (e :: es)).firstTag = e.num := by
  have hkept : ∀ (es : List SpecEntry) (gs : GroupTree),
      (es.foldl (GroupTree.visit D) gs).firstTag = gs.firstTag := by
    intro es
    induction es with
    | nil => exact fun _ => rfl
    | cons e es ih => exact fun gs => ih (gs.visit D e)
  exact hkept es _

/-- The first tag is among the tags, unless there are none. -/
theorem GroupTree.firstTag_mem_tags {gs : GroupTree} (calls : List (List SpecEntry))
    (h : gs.tags ≠ [] → gs.firstTag ∈ gs.tags) :
    (calls.foldl (GroupTree.visitCall D) gs).tags ≠ [] →
      (calls.foldl (GroupTree.visitCall D) gs).firstTag
        ∈ (calls.foldl (GroupTree.visitCall D) gs).tags := by
  have hgrows : ∀ (es : List SpecEntry) (dest : Dest) (t : ℤ), t ∈ dest.tags →
      t ∈ (es.foldl (Dest.visit D) dest).tags := by
    intro es
    induction es with
    | nil => exact fun _ _ ht => ht
    | cons e es ih => exact fun dest t ht => ih _ t (List.mem_insert_of_mem ht)
  induction calls generalizing gs with
  | nil => exact h
  | cons es calls ih =>
    refine ih fun hne => ?_
    cases es with
    | nil => exact h hne
    | cons e es =>
      have hdest := congrArg Dest.tags (GroupTree.dest_visitCall (D := D) gs (e :: es))
      change (gs.visitCall D (e :: es)).tags = _ at hdest
      rw [GroupTree.firstTag_visitCall_cons, hdest]
      exact hgrows es _ _ List.mem_insert_self

end Offers

/-! ## The table of groups

A group refers to others by their place in the table.  A place that is filled is never filled anew,
so what a reference stands for stays as it is while the table grows. -/

/-- A place in the table of groups holds a group, with all that it points to. -/
inductive Represents (heap : List GroupSpec) : GroupRef → GroupTree → Prop
  | intro {ref : GroupRef} {gs : GroupTree} {refs : List (ℤ × GroupRef)}
      (hget : heap[ref]? = some ⟨gs.numberTag, gs.firstTag, gs.requiredTags, gs.tags, refs⟩)
      (hkeys : Assoc.keys refs = Assoc.keys gs.nestedGroups)
      (nested : ∀ t sub subs, Assoc.find? t refs = some sub →
        Assoc.find? t gs.nestedGroups = some subs → Represents heap sub subs) :
      Represents heap ref gs

theorem Represents.mono {heap heap' : List GroupSpec} (hle : heap <+: heap') {ref : GroupRef}
    {gs : GroupTree} (h : Represents heap ref gs) : Represents heap' ref gs := by
  induction h with
  | intro hget hkeys _ ih =>
    obtain ⟨rest, rfl⟩ := hle
    have hlt := (List.getElem?_eq_some_iff.mp hget).1
    exact .intro (by rw [List.getElem?_append_left hlt, hget]) hkeys ih

mutual

theorem placeGroup_represents (heap : List GroupSpec) : ∀ gs : GroupTree,
    heap <+: (placeGroup heap gs).1
      ∧ Represents (placeGroup heap gs).1 (placeGroup heap gs).2 gs
  | ⟨numberTag, firstTag, requiredTags, tags, nestedGroups⟩ => by
    obtain ⟨hle, hkeys, hnested⟩ := placeGroups_represents heap nestedGroups
    rw [placeGroup]
    have hsnoc := List.prefix_append (placeGroups heap nestedGroups).1
      [⟨numberTag, firstTag, requiredTags, tags, (placeGroups heap nestedGroups).2⟩]
    exact ⟨hle.trans hsnoc, .intro (by rw [List.getElem?_concat_length]) hkeys
      fun t sub subs hsub hsubs => (hnested t sub subs hsub hsubs).mono hsnoc⟩

theorem placeGroups_represents (heap : List GroupSpec) : ∀ groups : List (ℤ × GroupTree),
    heap <+: (placeGroups heap groups).1
      ∧ Assoc.keys (placeGroups heap groups).2 = Assoc.keys groups
      ∧ ∀ t ref gs, Assoc.find? t (placeGroups heap groups).2 = some ref →
        Assoc.find? t groups = some gs → Represents (placeGroups heap groups).1 ref gs
  | [] => ⟨List.prefix_refl _, rfl, fun _ _ _ h => (Option.some_ne_none _ h.symm).elim⟩
  | (num, gs) :: rest => by
    obtain ⟨hle, hrep⟩ := placeGroup_represents heap gs
    obtain ⟨hle', hkeys, hrest⟩ := placeGroups_represents (placeGroup heap gs).1 rest
    rw [placeGroups]
    refine ⟨hle.trans hle', congrArg (num :: ·) hkeys, fun t ref gs' href hgs' => ?_⟩
    dsimp only at href
    rw [Assoc.find?_cons] at href hgs'
    split at href
    · next heq =>
      rw [if_pos heq] at hgs'
      obtain rfl := Option.some.inj href
      obtain rfl := Option.some.inj hgs'
      exact hrep.mono hle'
    · next hne =>
      rw [if_neg hne] at hgs'
      exact hrest t ref gs' href hgs'

end

/-! ## What the maps hold

Where two fields or groups have the same tag, the map has the one that came last.  What is said of a
tag is therefore said of the last entry under it. -/

section Loaded

variable (D : SpecTables)

/-- The group element under a tag: the last that the calls meet. -/
def GroupUnder (children : List XmlChild) (t : ℤ) (g : XmlGroup) : Prop :=
  ∃ below, Visits D false children below
    ∧ lastGroup (ownEntries D false children :: below).flatten t = some g

/-- **The maps of a message or of a group are those of its children**: the tags are those that are
offered, the required ones those of an entry that is required, and under the tag of each group among
them is the place of the group element. -/
structure LoadedAs (heap : List GroupSpec) (children : List XmlChild) (tags requiredTags : List ℤ)
    (groups : List (ℤ × GroupRef)) : Prop where
  mem_tags : ∀ t, t ∈ tags ↔ ∃ e, Offers D false children e ∧ e.num = t
  mem_required : ∀ t, t ∈ requiredTags ↔
    ∃ e, Offers D false children e ∧ e.required = ascii "Y" ∧ e.num = t
  mem_keys : ∀ t, t ∈ Assoc.keys groups ↔
    ∃ e, Offers D false children e ∧ e.num = t ∧ e.group.isSome
  group : ∀ t ref, Assoc.find? t groups = some ref →
    ∃ g, GroupUnder D children t g ∧ Represents heap ref (D.tree t g)

variable {D}

theorem lastGroup_eq_some {es : List SpecEntry} {t : ℤ} {g : XmlGroup}
    (h : lastGroup es t = some g) : ∃ e ∈ es, e.num = t ∧ e.group = some g := by
  obtain ⟨e, he, hg⟩ := List.exists_of_findSome?_eq_some h
  split at hg
  · next hnum => exact ⟨e, List.mem_reverse.mp he, hnum, hg⟩
  · cases hg

theorem lastGroup_isSome_iff {es : List SpecEntry} {t : ℤ} :
    (lastGroup es t).isSome ↔ ∃ e ∈ es, e.num = t ∧ e.group.isSome := by
  rw [lastGroup, List.findSome?_isSome_iff]
  constructor
  · rintro ⟨e, he, hg⟩
    split at hg
    · next hnum => exact ⟨e, List.mem_reverse.mp he, hnum, hg⟩
    · cases hg
  · rintro ⟨e, he, hnum, hg⟩
    exact ⟨e, List.mem_reverse.mpr he, by rw [if_pos hnum]; exact hg⟩

theorem mem_keys_destOf {es : List SpecEntry} {t : ℤ} :
    t ∈ Assoc.keys (destOf D es).groups ↔ ∃ e ∈ es, e.num = t ∧ e.group.isSome := by
  rw [← Assoc.find?_isSome_iff, find?_destOf_groups, Option.isSome_map, lastGroup_isSome_iff]

theorem GroupUnder.offers {children : List XmlChild} {t : ℤ} {g : XmlGroup}
    (h : GroupUnder D children t g) :
    ∃ e, Offers D false children e ∧ e.num = t ∧ e.group = some g := by
  obtain ⟨below, hv, hlast⟩ := h
  obtain ⟨e, he, hnum, hgroup⟩ := lastGroup_eq_some hlast
  exact ⟨e, hv.mem_iff.mp he, hnum, hgroup⟩

theorem GroupUnder.unique {children : List XmlChild} {t : ℤ} {g g' : XmlGroup}
    (h : GroupUnder D children t g) (h' : GroupUnder D children t g') : g = g' := by
  obtain ⟨below, hv, hlast⟩ := h
  obtain ⟨below', hv', hlast'⟩ := h'
  obtain rfl := hv.unique hv'
  exact Option.some.inj (hlast.symm.trans hlast')

theorem acc_of_below {children inner : List XmlChild} (hacc : Acc (Recurs D) children)
    (h : TransGen (Recurs D) inner children) : Acc (Recurs D) inner :=
  acc_transGen_iff.mp ((acc_transGen_iff.mpr hacc).inv h)

theorem GroupUnder.transGen_recurs {children : List XmlChild} {t : ℤ} {g : XmlGroup}
    (h : GroupUnder D children t g) : TransGen (Recurs D) g.children children := by
  obtain ⟨e, hoffers, -, hgroup⟩ := h.offers
  exact hoffers.transGen_recurs hgroup

/-- The maps that the entries make, with the groups put into the table. -/
theorem loadedAs_of_visits {heap : List GroupSpec} {children : List XmlChild}
    {below : List (List SpecEntry)} (hv : Visits D false children below) {dest : Dest}
    (hdest : dest = destOf D (ownEntries D false children :: below).flatten)
    {groups : List (ℤ × GroupRef)} (hkeys : Assoc.keys groups = Assoc.keys dest.groups)
    (hgroups : ∀ t ref gs, Assoc.find? t groups = some ref →
      Assoc.find? t dest.groups = some gs → Represents heap ref gs) :
    LoadedAs D heap children dest.tags dest.req groups := by
  subst hdest
  refine ⟨fun t => ?_, fun t => ?_, fun t => ?_, fun t ref href => ?_⟩
  · rw [mem_destOf_tags]
    exact exists_congr fun e => and_congr_left' hv.mem_iff
  · rw [mem_destOf_req]
    exact exists_congr fun e => and_congr_left' hv.mem_iff
  · rw [hkeys, mem_keys_destOf]
    exact exists_congr fun e => and_congr_left' hv.mem_iff
  · have hmem : t ∈ Assoc.keys groups := by
      rw [← Assoc.find?_isSome_iff, href]
      rfl
    rw [hkeys, ← Assoc.find?_isSome_iff] at hmem
    obtain ⟨gs, hgs⟩ := Option.isSome_iff_exists.mp hmem
    have hrep := hgroups t ref gs href hgs
    rw [find?_destOf_groups] at hgs
    obtain ⟨g, hg, rfl⟩ := Option.map_eq_some_iff.mp hgs
    exact ⟨g, ⟨below, hv, hg⟩, hrep⟩

theorem LoadedAs.mono {heap heap' : List GroupSpec} (hle : heap <+: heap')
    {children : List XmlChild} {tags requiredTags : List ℤ} {groups : List (ℤ × GroupRef)}
    (h : LoadedAs D heap children tags requiredTags groups) :
    LoadedAs D heap' children tags requiredTags groups := by
  refine ⟨h.mem_tags, h.mem_required, h.mem_keys, fun t ref href => ?_⟩
  obtain ⟨g, hg, hrep⟩ := h.group t ref href
  exact ⟨g, hg, hrep.mono hle⟩

/-- Where the group element under a tag is, there is a place for it. -/
theorem LoadedAs.exists_ref {heap : List GroupSpec} {children : List XmlChild}
    {tags requiredTags : List ℤ} {groups : List (ℤ × GroupRef)}
    (h : LoadedAs D heap children tags requiredTags groups) {t : ℤ} {g : XmlGroup}
    (hg : GroupUnder D children t g) :
    ∃ ref, Assoc.find? t groups = some ref ∧ Represents heap ref (D.tree t g) := by
  obtain ⟨e, hoffers, hnum, hgroup⟩ := hg.offers
  have hmem := (h.mem_keys t).mpr ⟨e, hoffers, hnum, by rw [hgroup]; rfl⟩
  obtain ⟨ref, href⟩ := Option.isSome_iff_exists.mp (Assoc.find?_isSome_iff.mpr hmem)
  obtain ⟨g', hg', hrep⟩ := h.group t ref href
  obtain rfl := hg.unique hg'
  exact ⟨ref, href, hrep⟩

/-! ## The messages -/

variable (D) in
/-- **A message spec stands for a message**: it has its names, and the maps of its children. -/
structure Placed (heap : List GroupSpec) (m : XmlMessage) (ms : MessageSpec) : Prop where
  name : ms.name = m.name
  msgType : ms.msgType = m.msgType
  loaded : LoadedAs D heap m.children ms.tags ms.requiredTags ms.groups

theorem tableOf_snoc {α κ β : Type} [DecidableEq κ] (key : α → κ) (val : α → β) (l : List α)
    (a : α) :
    tableOf key val (l ++ [a]) = Function.update (tableOf key val l) (key a) (some (val a)) :=
  List.foldl_append

/-- **The loop over the messages** makes a message spec for each, and the tables hold them. -/
theorem addMessages_placed {n : ℕ} {messages : List XmlMessage} {s : Building}
    (h : messages.foldlM (addMessage D n) ⟨[], fun _ => none, fun _ => none⟩ = some s) :
    ∃ built, List.Forall₂ (Placed D s.heap) messages built
      ∧ s.messagesByType = tableOf MessageSpec.msgType id built
      ∧ s.messagesByName = tableOf MessageSpec.name id built := by
  induction messages using List.reverseRecOn generalizing s with
  | nil =>
    obtain rfl := Option.some.inj h
    exact ⟨[], .nil, rfl, rfl⟩
  | append_singleton messages m ih =>
    rw [List.foldlM_append] at h
    obtain ⟨t, ht, hm⟩ := Option.bind_eq_some_iff.mp h
    obtain ⟨t', ht', hs⟩ := References.foldlM_cons_eq_some.mp hm
    obtain rfl := Option.some.inj hs
    obtain ⟨dest, hdest, rfl⟩ := Option.map_eq_some_iff.mp ht'
    obtain ⟨built, hbuilt, htype, hname⟩ := ih ht
    obtain ⟨below, hv, hmade⟩ := collectFields_visits hdest false
    obtain ⟨hle, hkeys, hgroups⟩ := placeGroups_represents t.heap dest.groups
    refine ⟨built ++ [⟨m.name, m.msgType, dest.req, dest.tags, (placeGroups t.heap dest.groups).2⟩],
      ?_, ?_, ?_⟩
    · exact List.rel_append (hbuilt.imp fun _ _ h => ⟨h.name, h.msgType, h.loaded.mono hle⟩)
        (.cons ⟨rfl, rfl, loadedAs_of_visits hv hmade hkeys hgroups⟩ .nil)
    · rw [tableOf_snoc, ← htype]
      rfl
    · rw [tableOf_snoc, ← hname]
      rfl

/-! ## The groups in the table -/

/-- The specs that the references of a dictionary lead to are those of the table. -/
def SpecOf (heap : List GroupSpec) (s : FixSpec) : Prop :=
  ∀ ref gs, heap[ref]? = some gs → s.groupSpec ref = gs

section Groups

variable {heap : List GroupSpec} {s : FixSpec} (hs : SpecOf heap s) {g : XmlGroup}
  (hacc : Acc (Recurs D) g.children) {num : ℤ} {ref : GroupRef}
  (h : Represents heap ref (D.tree num g))

include hs hacc h

theorem loadedAs_of_represents :
    LoadedAs D heap g.children (s.groupSpec ref).tags (s.groupSpec ref).requiredTags
      (s.groupSpec ref).nestedGroups := by
  obtain ⟨below, hv, htree⟩ := tree_visits hacc num false
  have hdest := congrArg GroupTree.dest htree
  rw [GroupTree.dest_visitCalls] at hdest
  cases h with
  | intro hget hkeys hnested =>
    rw [hs ref _ hget]
    exact loadedAs_of_visits hv hdest hkeys hnested

theorem numberTag_of_represents : (s.groupSpec ref).numberTag = num := by
  obtain ⟨below, -, htree⟩ := tree_visits hacc num false
  cases h with
  | intro hget =>
    rw [hs ref _ hget, htree, GroupTree.numberTag_visitCalls]
    rfl

theorem firstTag_of_represents (hne : (s.groupSpec ref).tags ≠ []) :
    (s.groupSpec ref).firstTag ∈ (s.groupSpec ref).tags := by
  obtain ⟨below, -, htree⟩ := tree_visits hacc num false
  cases h with
  | intro hget =>
    rw [hs ref _ hget] at hne ⊢
    rw [htree] at hne ⊢
    exact GroupTree.firstTag_mem_tags _ (fun hne => absurd rfl hne) hne

end Groups

/-! ## What is loaded -/

section Expanded

variable (D) (s : FixSpec)

/-- **The maps of a message or of a group are what its children say**: the tags are those of the
fields and groups that are offered, and the groups are under the tags of the groups among these. -/
structure Expanded (children : List XmlChild) (tags requiredTags : List ℤ)
    (groups : List (ℤ × GroupRef)) : Prop where
  mem_tags : ∀ t, t ∈ tags ↔ ∃ e, Offers D false children e ∧ e.num = t
  mem_keys : ∀ t, t ∈ Assoc.keys groups ↔
    ∃ e, Offers D false children e ∧ e.num = t ∧ e.group.isSome
  required : ∀ t ∈ requiredTags, t ∈ tags
  keyed : ∀ t ref, Assoc.find? t groups = some ref → t ∈ tags ∧ (s.groupSpec ref).numberTag = t

/-- **A group spec stands for a group element, and so does everything below it.** -/
inductive GroupExpanded : GroupRef → XmlGroup → Prop
  | intro {ref : GroupRef} {g : XmlGroup} (inner : ℤ → XmlGroup)
      (expanded : Expanded D s g.children (s.groupSpec ref).tags (s.groupSpec ref).requiredTags
        (s.groupSpec ref).nestedGroups)
      (first : (s.groupSpec ref).tags ≠ [] → (s.groupSpec ref).firstTag ∈ (s.groupSpec ref).tags)
      (offered : ∀ t sub, Assoc.find? t (s.groupSpec ref).nestedGroups = some sub →
        ∃ e, Offers D false g.children e ∧ e.num = t ∧ e.group = some (inner t))
      (nested : ∀ t sub, Assoc.find? t (s.groupSpec ref).nestedGroups = some sub →
        GroupExpanded sub (inner t)) : GroupExpanded ref g

/-- **A message spec stands for a message element.** -/
structure MessageExpanded (m : XmlMessage) (ms : MessageSpec) : Prop where
  name : ms.name = m.name
  msgType : ms.msgType = m.msgType
  expanded : Expanded D s m.children ms.tags ms.requiredTags ms.groups
  groups : ∀ t ref, Assoc.find? t ms.groups = some ref →
    ∃ e inner, Offers D false m.children e ∧ e.num = t ∧ e.group = some inner
      ∧ GroupExpanded D s ref inner

variable {D s} {heap : List GroupSpec}

theorem LoadedAs.expanded (hs : SpecOf heap s) {children : List XmlChild}
    (hacc : Acc (Recurs D) children) {tags requiredTags : List ℤ} {groups : List (ℤ × GroupRef)}
    (h : LoadedAs D heap children tags requiredTags groups) :
    Expanded D s children tags requiredTags groups where
  mem_tags := h.mem_tags
  mem_keys := h.mem_keys
  required t ht := by
    obtain ⟨e, he, -, hnum⟩ := (h.mem_required t).mp ht
    exact (h.mem_tags t).mpr ⟨e, he, hnum⟩
  keyed t ref href := by
    obtain ⟨g, hg, hrep⟩ := h.group t ref href
    obtain ⟨e, hoffers, hnum, -⟩ := hg.offers
    exact ⟨(h.mem_tags t).mpr ⟨e, hoffers, hnum⟩,
      numberTag_of_represents hs (acc_of_below hacc hg.transGen_recurs) hrep⟩

/-- **A group in the table stands for its element**, and all below for theirs. -/
theorem groupExpanded_of_represents (hs : SpecOf heap s) {g : XmlGroup}
    (hacc : Acc (Recurs D) g.children) {num : ℤ} {ref : GroupRef}
    (h : Represents heap ref (D.tree num g)) : GroupExpanded D s ref g := by
  have hall : ∀ children, Acc (TransGen (Recurs D)) children → ∀ (g : XmlGroup) (num : ℤ) ref,
      g.children = children → Represents heap ref (D.tree num g) → GroupExpanded D s ref g := by
    intro children hacc
    induction hacc with
    | intro children hacc ih =>
      rintro g num ref rfl h
      have hacc : Acc (Recurs D) g.children := acc_transGen_iff.mp ⟨_, hacc⟩
      have hloaded := loadedAs_of_represents hs hacc h
      have hinner : ∀ t, ∃ inner, ∀ sub,
          Assoc.find? t (s.groupSpec ref).nestedGroups = some sub →
          GroupUnder D g.children t inner ∧ Represents heap sub (D.tree t inner) := by
        intro t
        cases hfind : Assoc.find? t (s.groupSpec ref).nestedGroups with
        | none => exact ⟨g, fun sub hsub => (Option.some_ne_none _ hsub.symm).elim⟩
        | some sub =>
          obtain ⟨inner, hunder, hrep⟩ := hloaded.group t sub hfind
          refine ⟨inner, fun sub' hsub => ?_⟩
          obtain rfl := Option.some.inj hsub
          exact ⟨hunder, hrep⟩
      choose inner hinner using hinner
      refine .intro inner (hloaded.expanded hs hacc) (firstTag_of_represents hs hacc h)
        (fun t sub hsub => (hinner t sub hsub).1.offers) fun t sub hsub => ?_
      obtain ⟨hunder, hrep⟩ := hinner t sub hsub
      exact ih _ hunder.transGen_recurs (inner t) t sub rfl hrep
  exact hall _ (acc_transGen_iff.mpr hacc) g num ref rfl h

theorem Placed.expanded (hs : SpecOf heap s) {m : XmlMessage} (hacc : Acc (Recurs D) m.children)
    {ms : MessageSpec} (h : Placed D heap m ms) : MessageExpanded D s m ms := by
  refine ⟨h.name, h.msgType, h.loaded.expanded hs hacc, fun t ref href => ?_⟩
  obtain ⟨inner, hunder, hrep⟩ := h.loaded.group t ref href
  obtain ⟨e, hoffers, hnum, hgroup⟩ := hunder.offers
  exact ⟨e, inner, hoffers, hnum, hgroup,
    groupExpanded_of_represents hs (acc_of_below hacc hunder.transGen_recurs) hrep⟩

end Expanded

end Loaded

/-! ## Documents without cycles -/

/-- **No component leads back to itself.** -/
def XmlFix.Acyclic (raw : XmlFix) : Prop := ∀ name, ¬ TransGen (RefersTo raw.tables) name name

theorem XmlFix.Acyclic.acc_recurs {raw : XmlFix} (h : raw.Acyclic) (children : List XmlChild) :
    Acc (Recurs raw.tables) children :=
  acc_recurs_iff.mpr fun name _ =>
    (References.acc_iff_no_cycle (finite_refersTo raw) name).mpr fun b _ => h b

/-- **The dictionary that is loaded** is a table of groups and a message spec for each message. -/
theorem buildSpec_placed {n : ℕ} {raw : XmlFix} {s : LoadedSpec} (h : buildSpec n raw = some s) :
    ∃ heap, SpecOf heap s.toFixSpec
      ∧ ∃ built, List.Forall₂ (Placed raw.tables heap) raw.messages built
      ∧ s.messagesByType = tableOf MessageSpec.msgType id built
      ∧ s.messagesByName = tableOf MessageSpec.name id built := by
  obtain ⟨t, ht, rfl⟩ := Option.map_eq_some_iff.mp h
  refine ⟨t.heap, fun ref gs href => ?_, addMessages_placed ht⟩
  dsimp only
  rw [List.getD_eq_getElem?_getD, href]
  rfl

/-- **Component expansion is complete and well-formed.**  A document without cycles is loaded, with a
message spec for each message, the last of a type or a name being the one found under it; and every
one of them, and every group spec below, stands for its element. -/
theorem buildSpec_expands {raw : XmlFix} (h : raw.Acyclic) :
    ∃ s n, (∀ k, n ≤ k → buildSpec k raw = some s)
      ∧ ∃ built, List.Forall₂ (MessageExpanded raw.tables s.toFixSpec) raw.messages built
        ∧ s.messagesByType = tableOf MessageSpec.msgType id built
        ∧ s.messagesByName = tableOf MessageSpec.name id built := by
  obtain ⟨n, hn⟩ := buildSpec_isSome_iff.mpr fun m _ => h.acc_recurs m.children
  obtain ⟨s, hs⟩ := Option.isSome_iff_exists.mp hn
  obtain ⟨heap, hspec, built, hbuilt, htype, hname⟩ := buildSpec_placed hs
  exact ⟨s, n, fun k hle => buildSpec_mono hle hs, built,
    hbuilt.imp fun m ms hplaced => hplaced.expanded hspec (h.acc_recurs m.children), htype, hname⟩

/-- An order with parties, each with a role, in components of their own. -/
def partyDocument : XmlFix where
  major := ascii "4"
  minor := ascii "4"
  type := ascii "FIX"
  messages := [⟨ascii "NewOrderSingle", ascii "D",
    [.field (ascii "Symbol") (ascii "Y"), .component (ascii "Parties") (ascii "N")]⟩]
  components :=
    [⟨ascii "Parties", [.group (ascii "NoPartyIDs") (ascii "N")
      [.field (ascii "PartyID") (ascii "Y"), .component (ascii "PartyRoles") (ascii "N")]]⟩,
     ⟨ascii "PartyRoles", [.field (ascii "PartyRole") (ascii "Y")]⟩]
  fields :=
    [⟨55, ascii "Symbol", ascii "STRING", []⟩, ⟨448, ascii "PartyID", ascii "STRING", []⟩,
     ⟨452, ascii "PartyRole", ascii "INT", []⟩, ⟨453, ascii "NoPartyIDs", ascii "NUMINGROUP", []⟩]

theorem refersTo_partyDocument {a b : Bytes} (h : RefersTo partyDocument.tables a b) :
    a = ascii "Parties" ∧ b = ascii "PartyRoles" := by
  obtain ⟨c, hc, hmention⟩ := h
  obtain ⟨c', hmem, rfl, rfl⟩ := mem_of_tableOf hc
  rcases List.mem_cons.mp hmem with rfl | hmem
  · refine ⟨rfl, ?_⟩
    cases hmention with
    | component mem => cases List.mem_singleton.mp mem
    | group mem _ hinner =>
      obtain ⟨-, -, rfl⟩ := XmlChild.group.inj (List.mem_singleton.mp mem)
      cases hinner with
      | component mem =>
        rcases List.mem_cons.mp mem with heq | mem
        · cases heq
        · exact (XmlChild.component.inj (List.mem_singleton.mp mem)).1
      | group mem =>
        rcases List.mem_cons.mp mem with heq | mem
        · cases heq
        · cases List.mem_singleton.mp mem
  · obtain rfl := List.mem_singleton.mp hmem
    cases hmention with
    | component mem => cases List.mem_singleton.mp mem
    | group mem => cases List.mem_singleton.mp mem

theorem partyDocument_acyclic : partyDocument.Acyclic := by
  intro name hcycle
  obtain ⟨_, hhead, -⟩ := TransGen.head'_iff.mp hcycle
  obtain ⟨_, -, htail⟩ := TransGen.tail'_iff.mp hcycle
  have heq := (refersTo_partyDocument hhead).1.symm.trans (refersTo_partyDocument htail).2
  exact absurd heq (by decide)

/-- The order has its symbol and the count of its parties, and not what the parties have. -/
theorem buildSpec_expands_partyDocument :
    ∃ s n ms, buildSpec n partyDocument = some s ∧ s.messagesByType (ascii "D") = some ms
      ∧ MessageExpanded partyDocument.tables s.toFixSpec
        ⟨ascii "NewOrderSingle", ascii "D",
          [.field (ascii "Symbol") (ascii "Y"), .component (ascii "Parties") (ascii "N")]⟩ ms := by
  obtain ⟨s, n, hs, built, hbuilt, htype, -⟩ := buildSpec_expands partyDocument_acyclic
  obtain ⟨ms, rest, hms, hrest, rfl⟩ := List.forall₂_cons_left_iff.mp hbuilt
  obtain rfl := List.forall₂_nil_left_iff.mp hrest
  refine ⟨s, n, ms, hs n le_rfl, ?_, hms⟩
  have htable := tableOf_snoc MessageSpec.msgType id [] ms
  rw [List.nil_append, hms.msgType] at htable
  rw [htype, htable, Function.update_self, id]

end FixMsg
