import GoFixMsg.Spec.Visits

/-!
# Spec/Ends — when loading a dictionary ends

Every call of the loader is for the children of a group, which is smaller, or for those of a
component that is referred to, which may be anything.  So the calls below a call end exactly if no
component among those it comes to leads back to itself (`buildSpec_ends_iff`), and where one does
no depth is enough.

A group within itself cannot be written down in a document, so the references are all that matters.
What a group or a message refers to is a finite part of the document (`finite_refersTo`); that no
path through it closes is therefore the same as that all of them end.
-/

open GoLang Relation

namespace FixMsg

section Recursion

variable (D : SpecTables)

/-- **A call of a collector makes another**: for a group under a name that is defined, or for a
component that is defined. -/
inductive Recurs : List XmlChild → List XmlChild → Prop
  | group {name required : Bytes} {inner children : List XmlChild}
      (mem : XmlChild.group name required inner ∈ children) (hname : (D.nameToNum name).isSome) :
      Recurs inner children
  | component {name required : Bytes} {c : XmlComponent} {children : List XmlChild}
      (mem : XmlChild.component name required ∈ children) (hname : D.compMap name = some c) :
      Recurs c.children children

/-- A component is referred to among the children, or in a group there. -/
inductive Mentions : List XmlChild → Bytes → Prop
  | component {name required : Bytes} {children : List XmlChild}
      (mem : XmlChild.component name required ∈ children) (hname : (D.compMap name).isSome) :
      Mentions children name
  | group {gname required name : Bytes} {inner children : List XmlChild}
      (mem : XmlChild.group gname required inner ∈ children)
      (hname : (D.nameToNum gname).isSome) (mentions : Mentions inner name) : Mentions children name

/-- **A component refers to another**, directly or in a group. -/
def RefersTo (a b : Bytes) : Prop := ∃ c, D.compMap a = some c ∧ Mentions D c.children b

variable {D}

/-! ## Calls and depth

A call that returns has had all calls below it return, which gives one direction.  For the other the
depths of the calls below are put together to one that is enough for all of them. -/

theorem mem_fieldRefs {children : List XmlChild} {f : XmlFieldRef} :
    f ∈ fieldRefs children ↔ XmlChild.field f.name f.required ∈ children := by
  rw [fieldRefs, List.mem_filterMap]
  constructor
  · rintro ⟨e, he, h⟩
    cases e with
    | field name required =>
      obtain rfl := Option.some.inj h
      exact he
    | group name required cs => cases h
    | component name required => cases h
  · exact fun h => ⟨_, h, rfl⟩

theorem mem_groupRefs {children : List XmlChild} {g : XmlGroup} :
    g ∈ groupRefs children ↔ XmlChild.group g.name g.required g.children ∈ children := by
  rw [groupRefs, List.mem_filterMap]
  constructor
  · rintro ⟨e, he, h⟩
    cases e with
    | field name required => cases h
    | group name required cs =>
      obtain rfl := Option.some.inj h
      exact he
    | component name required => cases h
  · exact fun h => ⟨_, h, rfl⟩

theorem mem_compRefs {children : List XmlChild} {ref : XmlCompRef} :
    ref ∈ compRefs children ↔ ∃ required, XmlChild.component ref.name required ∈ children := by
  rw [compRefs, List.mem_filterMap]
  constructor
  · rintro ⟨e, he, h⟩
    cases e with
    | field name required => cases h
    | group name required cs => cases h
    | component name required =>
      obtain rfl := Option.some.inj h
      exact ⟨required, he⟩
  · rintro ⟨required, h⟩
    exact ⟨_, h, rfl⟩

variable (D) in
/-- The groups under names that are defined can be built at the depth. -/
def GroupsBuilt (n : ℕ) (groups : List XmlGroup) : Prop :=
  ∀ g ∈ groups, ∀ num, D.nameToNum g.name = some num → (buildGroupSpec D n num g).isSome

theorem populateOwn_isSome_iff {n : ℕ} {gs : GroupTree} {fields : List XmlFieldRef}
    {groups : List XmlGroup} :
    (populateOwn D n gs fields groups).isSome ↔ GroupsBuilt D n groups := by
  rw [populateOwn, Option.isSome_map]
  refine References.foldlM_isSome_iff fun g _ acc => ?_
  rw [populateGroup]
  cases D.nameToNum g.name with
  | none => simp
  | some num => simp

theorem collectOwn_isSome_iff {n : ℕ} {dest : Dest} {fields : List XmlFieldRef}
    {groups : List XmlGroup} :
    (collectOwn D n dest fields groups).isSome ↔ GroupsBuilt D n groups := by
  refine References.foldlM_isSome_iff fun g _ dest => ?_
  rw [collectGroup]
  cases D.nameToNum g.name with
  | none => simp
  | some num => simp

section Walk

variable {σ : Type} {own : ℕ → σ → List XmlFieldRef → List XmlGroup → Option σ}

/-- **The calls of a collector that returns have returned**, and so on, if those for its groups
have. -/
theorem acc_of_walk {n : ℕ}
    (hown : ∀ m, m < n → ∀ s fields groups s', own m s fields groups = some s' →
      ∀ g ∈ groups, (D.nameToNum g.name).isSome → Acc (Recurs D) g.children)
    {s s' : σ} {children : List XmlChild}
    (h : walk D own n s (fieldRefs children) (groupRefs children) (compRefs children) = some s') :
    Acc (Recurs D) children := by
  induction n generalizing s s' children with
  | zero => cases h
  | succ n ih =>
    refine ⟨_, fun inner hcall => ?_⟩
    rw [walk] at h
    obtain ⟨t, ht, hcomps⟩ := Option.bind_eq_some_iff.mp h
    cases hcall with
    | @group name required inner _ mem hname =>
      exact hown n (Nat.lt_succ_self n) _ _ _ _ ht ⟨name, required, inner⟩ (mem_groupRefs.mpr mem)
        hname
    | @component name required c _ mem hname =>
      obtain ⟨u, u', hc⟩ := References.exists_of_foldlM hcomps ⟨name⟩
        (mem_compRefs.mpr ⟨required, mem⟩)
      rw [hname] at hc
      exact ih (fun m hm => hown m (Nat.lt_succ_of_lt hm)) hc

/-- **Some depth is enough for a collector**, if some is for its groups and one for each
component. -/
theorem exists_depth_walk
    (hown : ∀ n s fields groups, (own n s fields groups).isSome ↔ GroupsBuilt D n groups)
    (hmono : ∀ n s fields groups s', own n s fields groups = some s' →
      own (n + 1) s fields groups = some s')
    {children : List XmlChild} (hgroups : ∃ n, ∀ k, n ≤ k → GroupsBuilt D k (groupRefs children))
    (hcomps : ∀ inner, Recurs D inner children → ∃ n, ∀ s,
      (walk D own n s (fieldRefs inner) (groupRefs inner) (compRefs inner)).isSome) :
    ∃ n, ∀ s,
      (walk D own n s (fieldRefs children) (groupRefs children) (compRefs children)).isSome := by
  obtain ⟨m, hm⟩ := hgroups
  have hdepth : ∃ k, ∀ ref ∈ compRefs children, ∀ c, D.compMap ref.name = some c → ∀ l, k ≤ l →
      ∀ s, (walk D own l s (fieldRefs c.children) (groupRefs c.children)
        (compRefs c.children)).isSome := by
    refine References.exists_bound (fun ref k l hle hk c hc d hd =>
      hk c hc d (hle.trans hd)) fun ref href => ?_
    cases hname : D.compMap ref.name with
    | none => exact ⟨0, fun c hc => (Option.some_ne_none _ hc.symm).elim⟩
    | some c =>
      obtain ⟨required, mem⟩ := mem_compRefs.mp href
      obtain ⟨n, hn⟩ := hcomps c.children (.component mem hname)
      refine ⟨n, fun c' hc' l hle s => ?_⟩
      obtain rfl := Option.some.inj hc'
      obtain ⟨s', hs'⟩ := Option.isSome_iff_exists.mp (hn s)
      exact Option.isSome_iff_exists.mpr ⟨s', walk_mono hmono hle hs'⟩
  obtain ⟨k, hk⟩ := hdepth
  refine ⟨max m k + 1, fun s => ?_⟩
  obtain ⟨t, ht⟩ := Option.isSome_iff_exists.mp
    ((hown (max m k) s (fieldRefs children) _).mpr (hm _ (Nat.le_max_left m k)))
  rw [walk, ht]
  refine References.foldlM_isSome (fun ref href s => ?_) _
  split
  · rfl
  · next c hname => exact hk ref href c hname _ (Nat.le_max_right m k) s

end Walk

/-- A group that is built has had its calls return. -/
theorem acc_of_buildGroupSpec (n : ℕ) : ∀ num g gs, buildGroupSpec D n num g = some gs →
    Acc (Recurs D) g.children := by
  induction n using Nat.strongRecOn with
  | ind n ih =>
    intro num g gs h
    cases n with
    | zero => cases h
    | succ n =>
      rw [buildGroupSpec, populateGroupSpec_eq_walk] at h
      refine acc_of_walk (fun m hm s fields groups s' hown g' hg' hname => ?_) h
      obtain ⟨num', hnum'⟩ := Option.isSome_iff_exists.mp hname
      have hbuilt := populateOwn_isSome_iff.mp (Option.isSome_iff_exists.mpr ⟨s', hown⟩)
      obtain ⟨sub, hsub⟩ := Option.isSome_iff_exists.mp (hbuilt g' hg' num' hnum')
      exact ih m (Nat.lt_succ_of_lt hm) num' g' sub hsub

theorem acc_of_collectFields {n : ℕ} {dest dest' : Dest} {children : List XmlChild}
    (h : collectFields D n dest (fieldRefs children) (groupRefs children) (compRefs children)
      = some dest') : Acc (Recurs D) children := by
  rw [collectFields_eq_walk] at h
  refine acc_of_walk (fun m _ s fields groups s' hown g hg hname => ?_) h
  obtain ⟨num, hnum⟩ := Option.isSome_iff_exists.mp hname
  have hbuilt := collectOwn_isSome_iff.mp (Option.isSome_iff_exists.mpr ⟨s', hown⟩)
  obtain ⟨sub, hsub⟩ := Option.isSome_iff_exists.mp (hbuilt g hg num hnum)
  exact acc_of_buildGroupSpec m num g sub hsub

/-- Some depth is enough for all groups among the children, if one is for each. -/
theorem exists_depth_groups {children : List XmlChild}
    (h : ∀ inner, Recurs D inner children → ∃ n, ∀ gs, (populateGroupSpec D n gs (fieldRefs inner)
      (groupRefs inner) (compRefs inner)).isSome) :
    ∃ n, ∀ k, n ≤ k → GroupsBuilt D k (groupRefs children) := by
  have hbound : ∃ n, ∀ g ∈ groupRefs children, ∀ k, n ≤ k → ∀ num, D.nameToNum g.name = some num →
      (buildGroupSpec D k num g).isSome := by
    refine References.exists_bound (fun g n k hle hn l hl => hn l (hle.trans hl)) fun g hg => ?_
    cases hname : D.nameToNum g.name with
    | none => exact ⟨0, fun k _ num hnum => (Option.some_ne_none _ hnum.symm).elim⟩
    | some num =>
      obtain ⟨n, hn⟩ := h g.children (.group (mem_groupRefs.mp hg) (by rw [hname]; rfl))
      refine ⟨n + 1, fun k hle num' _ => ?_⟩
      obtain ⟨gs, hgs⟩ := Option.isSome_iff_exists.mp (hn (.empty num'))
      exact Option.isSome_iff_exists.mpr ⟨gs, buildGroupSpec_mono D hle hgs⟩
  obtain ⟨n, hn⟩ := hbound
  exact ⟨n, fun k hle g hg => hn g hg k hle⟩

/-- **Where the calls end, some depth is enough**, whatever has been collected before. -/
theorem exists_depth_populate {children : List XmlChild} (h : Acc (Recurs D) children) :
    ∃ n, ∀ gs, (populateGroupSpec D n gs (fieldRefs children) (groupRefs children)
      (compRefs children)).isSome := by
  induction h with
  | intro children _ ih =>
    have hgroups := exists_depth_groups ih
    simp only [populateGroupSpec_eq_walk] at ih ⊢
    refine exists_depth_walk (fun _ _ _ _ => ?_) (fun n _ _ _ _ hown => ?_) hgroups ih
    · exact populateOwn_isSome_iff
    · exact populateOwn_mono (buildGroupSpec_mono_succ n) hown

theorem exists_depth_collect {children : List XmlChild} (h : Acc (Recurs D) children) :
    ∃ n, ∀ dest, (collectFields D n dest (fieldRefs children) (groupRefs children)
      (compRefs children)).isSome := by
  induction h with
  | intro children hacc ih =>
    have hgroups := exists_depth_groups fun inner hcall => exists_depth_populate (hacc inner hcall)
    simp only [collectFields_eq_walk] at ih ⊢
    refine exists_depth_walk (fun _ _ _ _ => ?_) (fun n _ _ _ _ hown => ?_) hgroups ih
    · exact collectOwn_isSome_iff
    · exact collectOwn_mono (buildGroupSpec_mono_succ n) hown

/-! ## Calls and names -/

/-- **The calls for a list of children end exactly if** those for the components it mentions do.  A
component that does not lead back to itself has a body whose calls end. -/
theorem acc_recurs_iff {children : List XmlChild} :
    Acc (Recurs D) children ↔
      ∀ name, Mentions D children name → Acc (Function.swap (RefersTo D)) name := by
  constructor
  · intro h
    induction h with
    | intro children _ ih =>
      intro name hm
      cases hm with
      | @component _ required _ mem hname =>
        obtain ⟨c, hc⟩ := Option.isSome_iff_exists.mp hname
        refine ⟨_, fun b hb => ?_⟩
        obtain ⟨c', hc', hmention⟩ := hb
        obtain rfl := Option.some.inj (hc.symm.trans hc')
        exact ih _ (.component mem hc) b hmention
      | @group gname required _ inner _ mem hname hmention =>
        exact ih inner (.group mem hname) name hmention
  · have hbody : ∀ children : List XmlChild,
        (∀ name, Mentions D children name → ∀ c, D.compMap name = some c →
          Acc (Recurs D) c.children) →
        Acc (Recurs D) children := by
      intro children
      induction h : sizeOf children using Nat.strongRecOn generalizing children with
      | _ k ih =>
        intro hmentioned
        refine ⟨_, fun inner hcall => ?_⟩
        cases hcall with
        | @group name required inner _ mem hname =>
          have hlt := List.sizeOf_lt_of_mem mem
          rw [XmlChild.group.sizeOf_spec] at hlt
          exact ih (sizeOf inner) (by omega) inner rfl
            fun b hb => hmentioned b (.group mem hname hb)
        | @component name required c _ mem hname =>
          exact hmentioned name (.component mem (by rw [hname]; rfl)) c hname
    have hname : ∀ name, Acc (Function.swap (RefersTo D)) name →
        ∀ c, D.compMap name = some c → Acc (Recurs D) c.children := by
      intro name hacc
      induction hacc with
      | intro name _ ih =>
        exact fun c hc => hbody _ fun b hb => ih b ⟨c, hc, hb⟩
    exact fun h => hbody _ fun name hm => hname name (h name hm)

theorem Mentions.isSome {children : List XmlChild} {name : Bytes} (h : Mentions D children name) :
    (D.compMap name).isSome := by
  induction h with
  | component _ hname => exact hname
  | group _ _ _ ih => exact ih

end Recursion

/-! ## Documents -/

theorem mem_of_tableOf {α κ β : Type} [DecidableEq κ] {key : α → κ} {val : α → β} {l : List α}
    {k : κ} {b : β} (h : tableOf key val l k = some b) : ∃ a ∈ l, key a = k ∧ val a = b := by
  induction l using List.reverseRecOn with
  | nil => cases h
  | append_singleton l a ih =>
    rw [tableOf, List.foldl_append] at h
    by_cases hk : key a = k
    · subst hk
      refine ⟨a, List.mem_append_right _ (List.mem_singleton_self a), rfl, ?_⟩
      rw [List.foldl_cons, List.foldl_nil, Function.update_self] at h
      exact Option.some.inj h
    · rw [List.foldl_cons, List.foldl_nil, Function.update_of_ne (Ne.symm hk)] at h
      obtain ⟨a', ha', hkey⟩ := ih h
      exact ⟨a', List.mem_append_left _ ha', hkey⟩

/-- Only the components of the document are referred to. -/
theorem finite_refersTo (raw : XmlFix) : {b | ∃ a, RefersTo raw.tables a b}.Finite := by
  refine Set.Finite.subset (List.finite_toSet (raw.components.map XmlComponent.name)) ?_
  rintro b ⟨a, c, -, hmention⟩
  obtain ⟨c', hc'⟩ := Option.isSome_iff_exists.mp hmention.isSome
  obtain ⟨c'', hmem, hname, -⟩ := mem_of_tableOf hc'
  exact List.mem_map.mpr ⟨c'', hmem, hname⟩

theorem buildSpec_mono {n k : ℕ} (hle : n ≤ k) {raw : XmlFix} {s : LoadedSpec}
    (h : buildSpec n raw = some s) : buildSpec k raw = some s := by
  obtain ⟨t, ht, rfl⟩ := Option.map_eq_some_iff.mp h
  refine Option.map_eq_some_iff.mpr ⟨t, References.foldlM_mono (fun m _ u u' hm => ?_) ht, rfl⟩
  obtain ⟨dest, hdest, rfl⟩ := Option.map_eq_some_iff.mp hm
  rw [addMessage, collectFields_mono _ hle hdest]
  rfl

theorem buildSpec_isSome_iff {raw : XmlFix} :
    (∃ n, (buildSpec n raw).isSome) ↔ ∀ m ∈ raw.messages, Acc (Recurs raw.tables) m.children := by
  constructor
  · rintro ⟨n, hn⟩ m hm
    obtain ⟨s, hs⟩ := Option.isSome_iff_exists.mp hn
    obtain ⟨t, ht, -⟩ := Option.map_eq_some_iff.mp hs
    obtain ⟨u, u', hadd⟩ := References.exists_of_foldlM ht m hm
    obtain ⟨dest, hdest, -⟩ := Option.map_eq_some_iff.mp hadd
    exact acc_of_collectFields hdest
  · intro h
    have hbound : ∃ n, ∀ m ∈ raw.messages, ∀ k, n ≤ k → (collectFields raw.tables k ⟨[], [], []⟩
        (fieldRefs m.children) (groupRefs m.children) (compRefs m.children)).isSome := by
      refine References.exists_bound (fun m n k hle hn l hl => hn l (hle.trans hl)) fun m hm => ?_
      obtain ⟨n, hn⟩ := exists_depth_collect (h m hm)
      refine ⟨n, fun k hle => ?_⟩
      obtain ⟨dest, hdest⟩ := Option.isSome_iff_exists.mp (hn ⟨[], [], []⟩)
      exact Option.isSome_iff_exists.mpr ⟨dest, collectFields_mono _ hle hdest⟩
    obtain ⟨n, hn⟩ := hbound
    refine ⟨n, ?_⟩
    rw [buildSpec, Option.isSome_map]
    refine References.foldlM_isSome (fun m hm s => ?_) _
    rw [addMessage, Option.isSome_map]
    exact hn m hm n le_rfl

/-- **Loading ends exactly if no component that is reached from a message leads back to itself.**
Reached is a component to which the message refers, itself or in a group, and every component to
which one that is reached refers. -/
theorem buildSpec_ends_iff (raw : XmlFix) :
    (∃ s n, ∀ k, n ≤ k → buildSpec k raw = some s) ↔
      ∀ m ∈ raw.messages, ∀ a, Mentions raw.tables m.children a →
        ∀ b, ReflTransGen (RefersTo raw.tables) a b → ¬ TransGen (RefersTo raw.tables) b b := by
  have hends : (∃ s n, ∀ k, n ≤ k → buildSpec k raw = some s) ↔ ∃ n, (buildSpec n raw).isSome := by
    constructor
    · rintro ⟨s, n, h⟩
      exact ⟨n, by rw [h n le_rfl]; rfl⟩
    · rintro ⟨n, hn⟩
      obtain ⟨s, hs⟩ := Option.isSome_iff_exists.mp hn
      exact ⟨s, n, fun k hle => buildSpec_mono hle hs⟩
  rw [hends, buildSpec_isSome_iff]
  refine forall₂_congr fun m _ => ?_
  rw [acc_recurs_iff]
  exact forall₂_congr fun a _ => References.acc_iff_no_cycle (finite_refersTo raw) a

/-- A message with a component that has itself. -/
def selfReference : XmlFix where
  major := ascii "4"
  minor := ascii "4"
  type := ascii "FIX"
  messages := [⟨ascii "NewOrderSingle", ascii "D", [.component (ascii "Parties") (ascii "N")]⟩]
  components := [⟨ascii "Parties", [.component (ascii "Parties") (ascii "N")]⟩]
  fields := []

/-- Loading does not end, to whatever depth it may go. -/
theorem selfReference_never_ends : ¬ ∃ n, (buildSpec n selfReference).isSome := by
  have hmention : Mentions selfReference.tables [.component (ascii "Parties") (ascii "N")]
      (ascii "Parties") := .component List.mem_cons_self rfl
  have hself : RefersTo selfReference.tables (ascii "Parties") (ascii "Parties") :=
    ⟨_, rfl, hmention⟩
  intro h
  have hacc := acc_recurs_iff.mp (buildSpec_isSome_iff.mp h _ List.mem_cons_self) _ hmention
  exact (References.acc_iff_no_cycle (finite_refersTo _) _).mp hacc _ .refl (.single hself)

end FixMsg
