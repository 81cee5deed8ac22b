import GoFixMsg.Machinery.References
import GoFixMsg.Spec.Loader

/-!
# Spec/Visits — what the loader meets

The two collectors go through a body alike: its fields, its groups, and then in turn the components
it refers to, each with a call of its own.  `Visits` lists what these calls meet, call by call.  It
knows nothing of depths, and both collectors do no more than fold it up
(`populateGroupSpec_visits`, `collectFields_visits`).

The entries of a call are its fields and then its groups, in the order of the document, less those
with names the document does not define.  What the collectors make of an entry is different for a
message and for a group, and so is what they do at the start of a call; the order in which they come
to it is not.
-/

open GoLang

namespace FixMsg

/-- A field or a group, under a name that the document defines, that a call meets: its tag, its
attribute `required`, whether an optional component has it, and the group itself if it is one. -/
structure SpecEntry where
  num : ℤ
  required : Bytes
  optional : Bool
  group : Option XmlGroup

/-- The entry of a field. -/
def fieldEntry (D : SpecTables) (o : Bool) (f : XmlFieldRef) : Option SpecEntry :=
  (D.nameToNum f.name).map fun num => ⟨num, f.required, o, none⟩

/-- The entry of a group. -/
def groupEntry (D : SpecTables) (o : Bool) (g : XmlGroup) : Option SpecEntry :=
  (D.nameToNum g.name).map fun num => ⟨num, g.required, o, some g⟩

/-- What a call meets by itself: fields before groups. -/
def ownEntries (D : SpecTables) (o : Bool) (children : List XmlChild) : List SpecEntry :=
  (fieldRefs children).filterMap (fieldEntry D o) ++ (groupRefs children).filterMap (groupEntry D o)

/-- **What the calls for the components meet**, call by call, that a list of children refers to.
What a reference that is `required="N"` leads to is optional. -/
inductive Visits (D : SpecTables) : Bool → List XmlChild → List (List SpecEntry) → Prop
  | nil {o : Bool} : Visits D o [] []
  | field {o : Bool} {name required : Bytes} {rest : List XmlChild} {calls : List (List SpecEntry)}
      (visits : Visits D o rest calls) : Visits D o (.field name required :: rest) calls
  | group {o : Bool} {name required : Bytes} {children rest : List XmlChild}
      {calls : List (List SpecEntry)} (visits : Visits D o rest calls) :
      Visits D o (.group name required children :: rest) calls
  | undefined {o : Bool} {name required : Bytes} {rest : List XmlChild}
      {calls : List (List SpecEntry)}
      (hname : D.compMap name = none) (visits : Visits D o rest calls) :
      Visits D o (.component name required :: rest) calls
  | component {o : Bool} {name required : Bytes} {c : XmlComponent} {rest : List XmlChild}
      {below calls : List (List SpecEntry)} (hname : D.compMap name = some c)
      (inner : Visits D (o || required == ascii "N") c.children below)
      (visits : Visits D o rest calls) :
      Visits D o (.component name required :: rest)
        (ownEntries D (o || required == ascii "N") c.children :: below ++ calls)

theorem Visits.unique {D : SpecTables} {o : Bool} {children : List XmlChild}
    {calls calls' : List (List SpecEntry)} (h : Visits D o children calls)
    (h' : Visits D o children calls') : calls = calls' := by
  induction h generalizing calls' with
  | nil =>
    cases h'
    rfl
  | field _ ih =>
    cases h' with
    | field visits => exact ih visits
  | group _ ih =>
    cases h' with
    | group visits => exact ih visits
  | undefined hname _ ih =>
    cases h' with
    | undefined _ visits => exact ih visits
    | component hname' => cases hname.symm.trans hname'
  | component hname _ _ ihinner ih =>
    cases h' with
    | undefined hname' => cases hname.symm.trans hname'
    | component hname' inner visits =>
      obtain rfl := Option.some.inj (hname.symm.trans hname')
      rw [ihinner inner, ih visits]

/-! ## The scheme of both collectors

A collector goes through its own entries, and then over the references, with the state that the one
before has left.  It is proved once that this folds up what the calls meet, for any work on the
entries. -/

section Walk

variable (D : SpecTables) {σ : Type} (own : ℕ → σ → List XmlFieldRef → List XmlGroup → Option σ)

/-- A collector that does `own` of the fields and groups of each call. -/
def walk : ℕ → σ → List XmlFieldRef → List XmlGroup → List XmlCompRef → Option σ
  | 0, _, _, _, _ => none
  | n + 1, s, fields, groups, comps =>
      (own n s fields groups).bind fun s =>
        comps.foldlM
          (fun s ref =>
            match D.compMap ref.name with
            | none => some s
            | some c =>
                walk n s (fieldRefs c.children) (groupRefs c.children) (compRefs c.children))
          s

variable {D own}

/-- **A collector folds up what its calls meet.**  The loop over the references goes on from the
state that the fields and groups have left. -/
theorem walk_visits (step : σ → List SpecEntry → σ)
    (hown : ∀ n s children s' o, own n s (fieldRefs children) (groupRefs children) = some s' →
      s' = step s (ownEntries D o children))
    {n : ℕ} {children : List XmlChild} {s s' : σ}
    (h : walk D own n s (fieldRefs children) (groupRefs children) (compRefs children) = some s')
    (o : Bool) :
    ∃ below, Visits D o children below ∧ s' = (ownEntries D o children :: below).foldl step s := by
  induction n generalizing children s s' o with
  | zero => cases h
  | succ n ih =>
    rw [walk] at h
    obtain ⟨t, ht, hcomps⟩ := Option.bind_eq_some_iff.mp h
    have hloop : ∀ rest : List XmlChild, ∀ t,
        (compRefs rest).foldlM (fun s ref =>
          match D.compMap ref.name with
          | none => some s
          | some c =>
              walk D own n s (fieldRefs c.children) (groupRefs c.children) (compRefs c.children))
          t = some s' →
        ∃ below, Visits D o rest below ∧ s' = below.foldl step t := by
      intro rest
      induction rest with
      | nil =>
        intro t h
        exact ⟨[], .nil, (Option.some.inj h).symm⟩
      | cons e rest ihrest =>
        intro t h
        cases e with
        | field name required =>
          obtain ⟨below, hv, hs⟩ := ihrest t h
          exact ⟨below, .field hv, hs⟩
        | group name required cs =>
          obtain ⟨below, hv, hs⟩ := ihrest t h
          exact ⟨below, .group hv, hs⟩
        | component name required =>
          obtain ⟨u, hu, hrest⟩ := References.foldlM_cons_eq_some.mp h
          dsimp only at hu
          obtain ⟨below, hv, hs⟩ := ihrest u hrest
          cases hname : D.compMap name with
          | none =>
            rw [hname] at hu
            obtain rfl := Option.some.inj hu
            exact ⟨below, .undefined hname hv, hs⟩
          | some c =>
            rw [hname] at hu
            obtain ⟨inner, hinner, hu⟩ := ih hu (o || required == ascii "N")
            refine ⟨_, .component hname hinner hv, ?_⟩
            rw [List.foldl_append, ← hu]
            exact hs
    obtain ⟨below, hv, hs⟩ := hloop children t hcomps
    refine ⟨below, hv, ?_⟩
    rw [List.foldl_cons, ← hown n s children t o ht]
    exact hs

/-- One level more changes nothing of what has returned, if it changes nothing of what `own` does at
the levels below. -/
theorem walk_mono_succ {n : ℕ}
    (hown : ∀ m, m < n → ∀ s fields groups s', own m s fields groups = some s' →
      own (m + 1) s fields groups = some s')
    {s s' : σ} {fields : List XmlFieldRef} {groups : List XmlGroup} {comps : List XmlCompRef}
    (h : walk D own n s fields groups comps = some s') :
    walk D own (n + 1) s fields groups comps = some s' := by
  induction n generalizing s s' fields groups comps with
  | zero => cases h
  | succ n ih =>
    rw [walk] at h ⊢
    obtain ⟨t, ht, hcomps⟩ := Option.bind_eq_some_iff.mp h
    have ht' := hown n (Nat.lt_succ_self n) _ _ _ _ ht
    refine Option.bind_eq_some_iff.mpr ⟨t, ht', References.foldlM_mono ?_ hcomps⟩
    intro ref _ u u' hc
    split
    · next hname =>
      rw [hname] at hc
      exact hc
    · next c hname =>
      rw [hname] at hc
      exact ih (fun m hm => hown m (Nat.lt_succ_of_lt hm)) hc

theorem walk_mono
    (hown : ∀ n s fields groups s', own n s fields groups = some s' →
      own (n + 1) s fields groups = some s')
    {n k : ℕ} (hle : n ≤ k) {s s' : σ} {fields : List XmlFieldRef} {groups : List XmlGroup}
    {comps : List XmlCompRef} (h : walk D own n s fields groups comps = some s') :
    walk D own k s fields groups comps = some s' := by
  induction hle with
  | refl => exact h
  | step _ ih => exact walk_mono_succ (fun m _ => hown m) ih

end Walk

/-! ## Both collectors -/

section Depth

variable (D : SpecTables)

/-- What a call of `populateGroupSpec` does of its fields and groups. -/
def populateOwn (n : ℕ) (gs : GroupTree) (fields : List XmlFieldRef) (groups : List XmlGroup) :
    Option GroupTree :=
  (groups.foldlM (populateGroup D (buildGroupSpec D n))
    (fields.foldl (populateField D) (gs, false))).map Prod.fst

/-- What a call of `collectFields` does of its fields and groups. -/
def collectOwn (n : ℕ) (dest : Dest) (fields : List XmlFieldRef) (groups : List XmlGroup) :
    Option Dest :=
  groups.foldlM (collectGroup D (buildGroupSpec D n)) (fields.foldl (collectField D) dest)

theorem populateGroupSpec_succ (n : ℕ) (gs : GroupTree) (fields : List XmlFieldRef)
    (groups : List XmlGroup) (comps : List XmlCompRef) :
    populateGroupSpec D (n + 1) gs fields groups comps
      = (groups.foldlM (populateGroup D (buildGroupSpec D n))
          (fields.foldl (populateField D) (gs, false))).bind fun acc =>
        comps.foldlM (fun gs ref =>
          match D.compMap ref.name with
          | none => some gs
          | some c =>
              populateGroupSpec D n gs (fieldRefs c.children) (groupRefs c.children)
                (compRefs c.children))
          acc.1 := rfl

theorem populateGroupSpec_eq_walk (n : ℕ) (gs : GroupTree) (fields : List XmlFieldRef)
    (groups : List XmlGroup) (comps : List XmlCompRef) :
    populateGroupSpec D n gs fields groups comps
      = walk D (populateOwn D) n gs fields groups comps := by
  induction n generalizing gs fields groups comps with
  | zero => rfl
  | succ n ih =>
    rw [populateGroupSpec_succ, walk, populateOwn, Option.bind_map]
    simp only [ih]
    rfl

theorem collectFields_eq_walk (n : ℕ) (dest : Dest) (fields : List XmlFieldRef)
    (groups : List XmlGroup) (comps : List XmlCompRef) :
    collectFields D n dest fields groups comps
      = walk D (collectOwn D) n dest fields groups comps := by
  induction n generalizing dest fields groups comps with
  | zero => rfl
  | succ n ih =>
    rw [collectFields, walk]
    simp only [ih]
    rfl

/-! ## Depth -/

variable {D}

theorem populateOwn_mono {n k : ℕ}
    (hbuild : ∀ num g gs, buildGroupSpec D n num g = some gs → buildGroupSpec D k num g = some gs)
    {gs gs' : GroupTree} {fields : List XmlFieldRef} {groups : List XmlGroup}
    (h : populateOwn D n gs fields groups = some gs') :
    populateOwn D k gs fields groups = some gs' := by
  obtain ⟨acc, hacc, hfst⟩ := Option.map_eq_some_iff.mp h
  refine Option.map_eq_some_iff.mpr ⟨acc, References.foldlM_mono (fun g _ t t' hg => ?_) hacc, hfst⟩
  unfold populateGroup at hg ⊢
  split
  · next hname =>
    rw [hname] at hg
    exact hg
  · next num hname =>
    rw [hname] at hg
    obtain ⟨sub, hsub, rfl⟩ := Option.map_eq_some_iff.mp hg
    rw [hbuild num g sub hsub]
    rfl

theorem collectOwn_mono {n k : ℕ}
    (hbuild : ∀ num g gs, buildGroupSpec D n num g = some gs → buildGroupSpec D k num g = some gs)
    {dest dest' : Dest} {fields : List XmlFieldRef} {groups : List XmlGroup}
    (h : collectOwn D n dest fields groups = some dest') :
    collectOwn D k dest fields groups = some dest' := by
  refine References.foldlM_mono (fun g _ t t' hg => ?_) h
  unfold collectGroup at hg ⊢
  split
  · next hname =>
    rw [hname] at hg
    exact hg
  · next num hname =>
    rw [hname] at hg
    obtain ⟨sub, hsub, rfl⟩ := Option.map_eq_some_iff.mp hg
    rw [hbuild num g sub hsub]
    rfl

/-- One level more changes nothing of a group that has been built.  The groups in it have been built
at lower levels. -/
theorem buildGroupSpec_mono_succ (n : ℕ) : ∀ num g gs, buildGroupSpec D n num g = some gs →
    buildGroupSpec D (n + 1) num g = some gs := by
  induction n using Nat.strongRecOn with
  | ind n ih =>
    intro num g gs h
    cases n with
    | zero => cases h
    | succ n =>
      rw [buildGroupSpec, populateGroupSpec_eq_walk] at h ⊢
      exact walk_mono_succ
        (fun m hm _ _ _ _ hown => populateOwn_mono (ih m (Nat.lt_succ_of_lt hm)) hown) h

variable (D) in
theorem buildGroupSpec_mono {n k : ℕ} (hle : n ≤ k) {num : ℤ} {g : XmlGroup} {gs : GroupTree}
    (h : buildGroupSpec D n num g = some gs) : buildGroupSpec D k num g = some gs := by
  induction hle with
  | refl => exact h
  | step _ ih => exact buildGroupSpec_mono_succ _ num g gs ih

variable (D) in
theorem collectFields_mono {n k : ℕ} (hle : n ≤ k) {dest dest' : Dest} {fields : List XmlFieldRef}
    {groups : List XmlGroup} {comps : List XmlCompRef}
    (h : collectFields D n dest fields groups comps = some dest') :
    collectFields D k dest fields groups comps = some dest' := by
  rw [collectFields_eq_walk] at h ⊢
  refine walk_mono (fun n _ _ _ _ hown => ?_) hle h
  exact collectOwn_mono (buildGroupSpec_mono_succ n) hown

variable (D)

open Classical in
/-- **What `buildGroupSpec` makes of a group**, where it returns at some depth. -/
noncomputable def SpecTables.tree (num : ℤ) (g : XmlGroup) : GroupTree :=
  if h : ∃ n gs, buildGroupSpec D n num g = some gs then h.choose_spec.choose else .empty num

theorem SpecTables.tree_eq {n : ℕ} {num : ℤ} {g : XmlGroup} {gs : GroupTree}
    (h : buildGroupSpec D n num g = some gs) : D.tree num g = gs := by
  have hex : ∃ n gs, buildGroupSpec D n num g = some gs := ⟨n, gs, h⟩
  rw [tree, dif_pos hex]
  have hspec := hex.choose_spec.choose_spec
  have hspec := buildGroupSpec_mono D (Nat.le_max_left hex.choose n) hspec
  have h := buildGroupSpec_mono D (Nat.le_max_right hex.choose n) h
  exact Option.some.inj (hspec.symm.trans h)

end Depth

/-! ## What the collectors make of it

The scheme is applied to both.  For a group the first tag is kept apart, since it depends on the
call in which an entry is met, and not only on the entry. -/

section Collectors

variable (D : SpecTables)

/-- What an entry does to the maps of a message. -/
noncomputable def Dest.visit (dest : Dest) (e : SpecEntry) : Dest where
  tags := dest.tags.insert e.num
  req := requireTag e.required e.num dest.req
  groups := match e.group with
    | none => dest.groups
    | some g => Assoc.insert e.num (D.tree e.num g) dest.groups

/-- What an entry does to a group, but for its first tag. -/
noncomputable def GroupTree.visit (gs : GroupTree) (e : SpecEntry) : GroupTree :=
  { gs with
    tags := gs.tags.insert e.num
    requiredTags := requireTag e.required e.num gs.requiredTags
    nestedGroups := match e.group with
      | none => gs.nestedGroups
      | some g => Assoc.insert e.num (D.tree e.num g) gs.nestedGroups }

/-- **What a call of `populateGroupSpec` does to a group**: it sets the first tag anew. -/
noncomputable def GroupTree.visitCall (gs : GroupTree) (es : List SpecEntry) : GroupTree :=
  match es with
  | [] => gs
  | e :: rest => rest.foldl (GroupTree.visit D) { gs.visit D e with firstTag := e.num }

variable {D}

/-- **Fields and groups are gone through as entries**, by any two loops that skip the names that are
not defined and do the same with the entry of a field as with that of a group. -/
theorem foldl_ownEntries {σ : Type} {field : σ → XmlFieldRef → σ}
    {group : σ → XmlGroup → Option σ} {visit : σ → SpecEntry → σ} {o : Bool}
    (hfield : ∀ t f, field t f = ((fieldEntry D o f).map (visit t)).getD t)
    (hgroup : ∀ t g t', group t g = some t' → t' = ((groupEntry D o g).map (visit t)).getD t)
    {fields : List XmlFieldRef} {groups : List XmlGroup} {s s' : σ}
    (h : groups.foldlM group (fields.foldl field s) = some s') :
    s' = (fields.filterMap (fieldEntry D o) ++ groups.filterMap (groupEntry D o)).foldl visit s := by
  have hfields : fields.foldl field s = (fields.filterMap (fieldEntry D o)).foldl visit s := by
    rw [List.foldl_filterMap]
    refine List.foldl_ext _ _ _ fun t f _ => ?_
    rw [hfield]
    cases fieldEntry D o f <;> rfl
  rw [List.foldl_append, ← hfields, List.foldl_filterMap]
  refine References.foldlM_eq_foldl (fun g _ t t' hg => ?_) h
  rw [hgroup t g t' hg]
  cases groupEntry D o g <;> rfl

theorem collectOwn_visit {n : ℕ} {dest dest' : Dest} {fields : List XmlFieldRef}
    {groups : List XmlGroup} (o : Bool) (h : collectOwn D n dest fields groups = some dest') :
    dest' = (fields.filterMap (fieldEntry D o) ++ groups.filterMap (groupEntry D o)).foldl
      (Dest.visit D) dest := by
  refine foldl_ownEntries (fun dest f => ?_) (fun dest g dest' hg => ?_) h
  · rw [collectField, fieldEntry]
    cases D.nameToNum f.name <;> rfl
  · rw [collectGroup] at hg
    rw [groupEntry]
    cases hname : D.nameToNum g.name with
    | none =>
      rw [hname] at hg
      exact (Option.some.inj hg).symm
    | some num =>
      rw [hname] at hg
      obtain ⟨sub, hsub, rfl⟩ := Option.map_eq_some_iff.mp hg
      rw [← D.tree_eq hsub]
      rfl

/-- **What `collectFields` makes of the children of a message.** -/
theorem collectFields_visits {n : ℕ} {dest dest' : Dest} {children : List XmlChild}
    (h : collectFields D n dest (fieldRefs children) (groupRefs children) (compRefs children)
      = some dest') (o : Bool) :
    ∃ below, Visits D o children below
      ∧ dest' = (ownEntries D o children :: below).flatten.foldl (Dest.visit D) dest := by
  rw [collectFields_eq_walk] at h
  obtain ⟨below, hv, hs⟩ := walk_visits (fun dest es => es.foldl (Dest.visit D) dest)
    (fun n s children s' o hown => collectOwn_visit o hown) h o
  exact ⟨below, hv, by rw [List.foldl_flatten, hs]⟩

/-- What an entry does to a group while `firstSet` may still be false. -/
noncomputable def GroupTree.visitFirst (D : SpecTables) (acc : GroupTree × Bool) (e : SpecEntry) :
    GroupTree × Bool :=
  ({ acc.1.visit D e with firstTag := if acc.2 then acc.1.firstTag else e.num }, true)

theorem GroupTree.foldl_visitFirst (es : List SpecEntry) (gs : GroupTree) :
    es.foldl (GroupTree.visitFirst D) (gs, true) = (es.foldl (GroupTree.visit D) gs, true) := by
  induction es generalizing gs with
  | nil => rfl
  | cons e es ih => exact ih (gs.visit D e)

theorem populateOwn_visit {n : ℕ} {gs gs' : GroupTree}
    {fields : List XmlFieldRef} {groups : List XmlGroup} (o : Bool)
    (h : populateOwn D n gs fields groups = some gs') :
    gs' = gs.visitCall D
      (fields.filterMap (fieldEntry D o) ++ groups.filterMap (groupEntry D o)) := by
  obtain ⟨acc, hacc, rfl⟩ := Option.map_eq_some_iff.mp h
  have hgroups : acc = (fields.filterMap (fieldEntry D o)
      ++ groups.filterMap (groupEntry D o)).foldl (GroupTree.visitFirst D) (gs, false) := by
    refine foldl_ownEntries (fun acc f => ?_) (fun acc g acc' hg => ?_) hacc
    · rw [populateField, fieldEntry]
      cases D.nameToNum f.name <;> rfl
    · rw [populateGroup] at hg
      rw [groupEntry]
      cases hname : D.nameToNum g.name with
      | none =>
        rw [hname] at hg
        exact (Option.some.inj hg).symm
      | some num =>
        rw [hname] at hg
        obtain ⟨sub, hsub, rfl⟩ := Option.map_eq_some_iff.mp hg
        rw [← D.tree_eq hsub]
        rfl
  refine (congrArg Prod.fst hgroups).trans ?_
  cases fields.filterMap (fieldEntry D o) ++ groups.filterMap (groupEntry D o) with
  | nil => rfl
  | cons e es =>
    rw [List.foldl_cons]
    exact congrArg Prod.fst (GroupTree.foldl_visitFirst es _)

/-- **What `populateGroupSpec` makes of the children of a group.** -/
theorem populateGroupSpec_visits {n : ℕ} {gs gs' : GroupTree} {children : List XmlChild}
    (h : populateGroupSpec D n gs (fieldRefs children) (groupRefs children) (compRefs children)
      = some gs') (o : Bool) :
    ∃ below, Visits D o children below
      ∧ gs' = (ownEntries D o children :: below).foldl (GroupTree.visitCall D) gs := by
  rw [populateGroupSpec_eq_walk] at h
  exact walk_visits (GroupTree.visitCall D) (fun n s children s' o hown => populateOwn_visit o hown)
    h o

/-- What `buildGroupSpec` makes of a group. -/
theorem buildGroupSpec_visits {n : ℕ} {num : ℤ} {g : XmlGroup} {gs : GroupTree}
    (h : buildGroupSpec D n num g = some gs) (o : Bool) :
    ∃ below, Visits D o g.children below
      ∧ gs = (ownEntries D o g.children :: below).foldl (GroupTree.visitCall D) (.empty num) := by
  cases n with
  | zero => cases h
  | succ n => exact populateGroupSpec_visits h o

/-! ## Reading a group off -/

/-- A group's maps, as those of a message. -/
def GroupTree.dest (gs : GroupTree) : Dest := ⟨gs.tags, gs.requiredTags, gs.nestedGroups⟩

theorem GroupTree.dest_foldl_visit (es : List SpecEntry) (gs : GroupTree) :
    (es.foldl (GroupTree.visit D) gs).dest = es.foldl (Dest.visit D) gs.dest := by
  induction es generalizing gs with
  | nil => rfl
  | cons e es ih => exact ih (gs.visit D e)

theorem GroupTree.dest_visitCall (gs : GroupTree) (es : List SpecEntry) :
    (gs.visitCall D es).dest = es.foldl (Dest.visit D) gs.dest := by
  cases es with
  | nil => rfl
  | cons e es => exact GroupTree.dest_foldl_visit es _

theorem GroupTree.dest_visitCalls (gs : GroupTree) (calls : List (List SpecEntry)) :
    (calls.foldl (GroupTree.visitCall D) gs).dest = calls.flatten.foldl (Dest.visit D) gs.dest := by
  induction calls generalizing gs with
  | nil => rfl
  | cons es calls ih =>
    rw [List.foldl_cons, ih, GroupTree.dest_visitCall, List.flatten_cons, List.foldl_append]

theorem GroupTree.numberTag_foldl_visit (es : List SpecEntry) (gs : GroupTree) :
    (es.foldl (GroupTree.visit D) gs).numberTag = gs.numberTag := by
  induction es generalizing gs with
  | nil => rfl
  | cons e es ih => exact ih (gs.visit D e)

theorem GroupTree.numberTag_visitCalls (gs : GroupTree) (calls : List (List SpecEntry)) :
    (calls.foldl (GroupTree.visitCall D) gs).numberTag = gs.numberTag := by
  induction calls generalizing gs with
  | nil => rfl
  | cons es calls ih =>
    rw [List.foldl_cons, ih]
    cases es with
    | nil => rfl
    | cons e es => exact GroupTree.numberTag_foldl_visit es _

/-- The maps that the entries of a message or of a group make. -/
noncomputable def destOf (D : SpecTables) (es : List SpecEntry) : Dest :=
  es.foldl (Dest.visit D) ⟨[], [], []⟩

/-- The last group under a tag. -/
def lastGroup (es : List SpecEntry) (num : ℤ) : Option XmlGroup :=
  es.reverse.findSome? fun e => if e.num = num then e.group else none

theorem mem_requireTag {required : Bytes} {num t : ℤ} {tags : List ℤ} :
    t ∈ requireTag required num tags ↔ (required = ascii "Y" ∧ t = num) ∨ t ∈ tags := by
  unfold requireTag
  split
  · next h => simp [List.mem_insert_iff, h]
  · next h => simp [h]

theorem destOf_append (es : List SpecEntry) (e : SpecEntry) :
    destOf D (es ++ [e]) = (destOf D es).visit D e := List.foldl_append

theorem mem_destOf_tags {es : List SpecEntry} {t : ℤ} :
    t ∈ (destOf D es).tags ↔ ∃ e ∈ es, e.num = t := by
  induction es using List.reverseRecOn with
  | nil => simp [destOf]
  | append_singleton es e ih =>
    rw [destOf_append, Dest.visit, List.mem_insert_iff, ih]
    simp only [List.mem_append, List.mem_singleton, or_and_right, exists_or, exists_eq_left]
    rw [or_comm, eq_comm]

theorem mem_destOf_req {es : List SpecEntry} {t : ℤ} :
    t ∈ (destOf D es).req ↔ ∃ e ∈ es, e.required = ascii "Y" ∧ e.num = t := by
  induction es using List.reverseRecOn with
  | nil => simp [destOf]
  | append_singleton es e ih =>
    rw [destOf_append, Dest.visit, mem_requireTag, ih]
    simp only [List.mem_append, List.mem_singleton, or_and_right, exists_or, exists_eq_left]
    rw [or_comm, eq_comm (a := t)]

theorem find?_destOf_groups {es : List SpecEntry} {t : ℤ} :
    Assoc.find? t (destOf D es).groups = (lastGroup es t).map (D.tree t) := by
  induction es using List.reverseRecOn with
  | nil => rfl
  | append_singleton es e ih =>
    rw [destOf_append, Dest.visit, lastGroup, List.reverse_append, List.reverse_singleton,
      List.singleton_append, List.findSome?_cons]
    rw [lastGroup] at ih
    cases hgroup : e.group with
    | none =>
      rw [ite_self]
      exact ih
    | some g =>
      dsimp only
      rw [Assoc.find?_insert]
      split
      · next h =>
        subst h
        rw [if_pos rfl]
        rfl
      · next h =>
        rw [if_neg (Ne.symm h)]
        exact ih

end Collectors

end FixMsg
