import GoFixMsg.Spec.Expansion

/-!
# Spec/FirstTag — the first tag of a group

`populateGroupSpec` takes the first field it meets for the first tag of the group.  But it remembers
that it has one only to the end of the call, and calls itself for each component, after its own
fields and groups.  So what it takes in the end is the start of the last component with anything in
it, followed down (`EndsIn`), and that is the first child of the group only by chance
(`firstTag_iff`).

A call has a flag of its own, and its own fields and groups come first; so where no component
follows, the first field or, without one, the first group is taken.  Where components follow, each
call begins afresh and overwrites what was there.
-/

open GoLang

namespace FixMsg

section FirstTag

variable (D : SpecTables)

/-- No field and no group is offered. -/
def Nameless (children : List XmlChild) : Prop := ∀ o e, ¬ Offers D o children e

/-- **The tag of the first child**, with each component in the place of the references to it. -/
inductive Begins : List XmlChild → ℤ → Prop
  | field {name required : Bytes} {rest : List XmlChild} {t : ℤ}
      (hname : D.nameToNum name = some t) : Begins (.field name required :: rest) t
  | group {name required : Bytes} {inner rest : List XmlChild} {t : ℤ}
      (hname : D.nameToNum name = some t) : Begins (.group name required inner :: rest) t
  | component {name required : Bytes} {c : XmlComponent} {rest : List XmlChild} {t : ℤ}
      (hname : D.compMap name = some c) (begins : Begins c.children t) :
      Begins (.component name required :: rest) t
  | skip {child : XmlChild} {rest : List XmlChild} {t : ℤ} (hno : Nameless D [child])
      (begins : Begins rest t) : Begins (child :: rest) t

/-- No component that is referred to among the children has anything in it. -/
def Plainly (children : List XmlChild) : Prop :=
  ∀ name required c, XmlChild.component name required ∈ children → D.compMap name = some c →
    Nameless D c.children

/-- **The last component with anything in it**: the children it has themselves, where no component
below has anything in it, and else where the last one that has ends in. -/
inductive EndsIn : List XmlChild → List XmlChild → Prop
  | here {children : List XmlChild} (hno : Plainly D children) : EndsIn children children
  | there (before : List XmlChild) {name required : Bytes} {c : XmlComponent}
      {after last : List XmlChild} (hname : D.compMap name = some c) (hsome : ¬ Nameless D c.children)
      (hafter : Plainly D after) (ends : EndsIn c.children last) :
      EndsIn (before ++ .component name required :: after) last

/-- The tag of the first field or, where there is none, of the first group. -/
def ownHead (children : List XmlChild) : Option ℤ :=
  ((fieldRefs children).findSome? fun f => D.nameToNum f.name).or
    ((groupRefs children).findSome? fun g => D.nameToNum g.name)

variable {D} {o : Bool} {children : List XmlChild}

theorem ownHead_eq (o : Bool) (children : List XmlChild) :
    ownHead D children = (ownEntries D o children).head?.map SpecEntry.num := by
  have hmap : ∀ {α : Type} (l : List α) (entry : α → Option SpecEntry),
      (l.findSome? entry).map SpecEntry.num
        = l.findSome? fun a => (entry a).map SpecEntry.num := by
    intro α l entry
    induction l with
    | nil => rfl
    | cons a l ih =>
      rw [List.findSome?_cons, List.findSome?_cons]
      cases entry a with
      | none => exact ih
      | some e => rfl
  rw [ownEntries, List.head?_append, List.head?_filterMap, List.head?_filterMap, Option.map_or,
    hmap, hmap, ownHead]
  simp only [fieldEntry, groupEntry, Option.map_map]
  congr 2 <;> funext f <;> cases D.nameToNum f.name <;> rfl

/-! ## Calls that meet nothing

A component may be empty, or name only fields that the document does not define.  Its call leaves
the first tag as it was. -/

theorem Visits.flatten_eq_nil {calls : List (List SpecEntry)} (h : Visits D o children calls)
    (hno : Plainly D children) : calls.flatten = [] := by
  induction h with
  | nil => rfl
  | field _ ih => exact ih fun name required c mem => hno name required c (List.mem_cons_of_mem _ mem)
  | group _ ih => exact ih fun name required c mem => hno name required c (List.mem_cons_of_mem _ mem)
  | undefined _ _ ih =>
    exact ih fun name required c mem => hno name required c (List.mem_cons_of_mem _ mem)
  | component hname inner _ _ ih =>
    have hrest := ih fun name required c mem => hno name required c (List.mem_cons_of_mem _ mem)
    have hnameless := hno _ _ _ List.mem_cons_self hname
    rw [List.cons_append, ← List.cons_append, List.flatten_append, hrest, List.append_nil]
    exact List.eq_nil_iff_forall_not_mem.mpr fun e he => hnameless _ e (inner.mem_iff.mp he)

theorem GroupTree.visitCalls_of_flatten_eq_nil {calls : List (List SpecEntry)}
    (h : calls.flatten = []) (gs : GroupTree) : calls.foldl (GroupTree.visitCall D) gs = gs := by
  induction calls with
  | nil => rfl
  | cons es calls ih =>
    obtain ⟨rfl, hcalls⟩ := List.append_eq_nil_iff.mp h
    exact ih hcalls

theorem Visits.append_inv {before after : List XmlChild} {calls : List (List SpecEntry)}
    (h : Visits D o (before ++ after) calls) :
    ∃ calls₁ calls₂, calls = calls₁ ++ calls₂ ∧ Visits D o before calls₁
      ∧ Visits D o after calls₂ := by
  induction before generalizing calls with
  | nil => exact ⟨[], calls, rfl, .nil, h⟩
  | cons child before ih =>
    cases h with
    | field visits =>
      obtain ⟨calls₁, calls₂, rfl, h₁, h₂⟩ := ih visits
      exact ⟨calls₁, calls₂, rfl, .field h₁, h₂⟩
    | group visits =>
      obtain ⟨calls₁, calls₂, rfl, h₁, h₂⟩ := ih visits
      exact ⟨calls₁, calls₂, rfl, .group h₁, h₂⟩
    | undefined hname visits =>
      obtain ⟨calls₁, calls₂, rfl, h₁, h₂⟩ := ih visits
      exact ⟨calls₁, calls₂, rfl, .undefined hname h₁, h₂⟩
    | component hname inner visits =>
      obtain ⟨calls₁, calls₂, rfl, h₁, h₂⟩ := ih visits
      exact ⟨_, calls₂, (List.append_assoc _ calls₁ calls₂).symm, .component hname inner h₁, h₂⟩

/-! ## Where the calls end -/

/-- Where anything is offered, the last component with anything in it begins with something. -/
theorem EndsIn.ownHead_isSome {last : List XmlChild} (h : EndsIn D children last)
    (hsome : ¬ Nameless D children) : (ownHead D last).isSome := by
  induction h with
  | @here children hno =>
    rw [Nameless] at hsome
    push Not at hsome
    obtain ⟨o, e, he⟩ := hsome
    have hown : e ∈ ownEntries D o children := by
      cases he with
      | field mem hname => exact mem_ownEntries.mpr (Or.inl ⟨_, _, _, mem, hname, rfl⟩)
      | group mem hname => exact mem_ownEntries.mpr (Or.inr ⟨_, _, _, _, mem, hname, rfl⟩)
      | component mem hname offers => exact absurd offers (hno _ _ _ mem hname _ e)
    rw [ownHead_eq o, Option.isSome_map, List.isSome_head?]
    exact List.ne_nil_of_mem hown
  | there _ _ hinner _ _ ih => exact ih hinner

/-- **The first tag that a group is left with** is that of the last component with anything in it. -/
theorem EndsIn.firstTag {last : List XmlChild} (h : EndsIn D children last)
    {below : List (List SpecEntry)} (hv : Visits D o children below) (gs : GroupTree) :
    ((ownEntries D o children :: below).foldl (GroupTree.visitCall D) gs).firstTag
      = (ownHead D last).getD gs.firstTag := by
  induction h generalizing o below gs with
  | @here children hno =>
    rw [List.foldl_cons, GroupTree.visitCalls_of_flatten_eq_nil (hv.flatten_eq_nil hno),
      ownHead_eq o]
    cases ownEntries D o children with
    | nil => rfl
    | cons e es => exact GroupTree.firstTag_visitCall_cons gs e es
  | @there before name required c after last hname hsome hafter hends ih =>
    obtain ⟨calls₁, calls₂, rfl, h₁, h₂⟩ := hv.append_inv
    cases h₂ with
    | undefined hname' => cases hname.symm.trans hname'
    | @component _ _ _ c' _ inner calls hname' hinner hrest =>
      obtain rfl := Option.some.inj (hname.symm.trans hname')
      obtain ⟨t, ht⟩ := Option.isSome_iff_exists.mp (hends.ownHead_isSome hsome)
      rw [← List.cons_append, List.foldl_append, List.foldl_append,
        GroupTree.visitCalls_of_flatten_eq_nil (hrest.flatten_eq_nil hafter), ih hinner, ht]
      rfl

theorem plainly_cons {child : XmlChild} {rest : List XmlChild} (hchild : Plainly D [child])
    (hrest : Plainly D rest) : Plainly D (child :: rest) := by
  intro name required c mem hname
  rcases List.mem_cons.mp mem with rfl | mem
  · exact hchild name required c (List.mem_singleton_self _) hname
  · exact hrest name required c mem hname

theorem EndsIn.cons {child : XmlChild} {rest last : List XmlChild} (h : EndsIn D rest last)
    (hchild : Plainly D [child]) : ∃ last, EndsIn D (child :: rest) last := by
  cases h with
  | here hno => exact ⟨_, .here (plainly_cons hchild hno)⟩
  | @there before name required c after last hname hsome hafter hends =>
    exact ⟨_, .there (child :: before) hname hsome hafter hends⟩

/-- Where the calls end there is a last component with anything in it, or none. -/
theorem Visits.exists_endsIn {calls : List (List SpecEntry)} (h : Visits D o children calls) :
    ∃ last, EndsIn D children last := by
  induction h with
  | nil => exact ⟨[], .here fun _ _ _ mem => absurd mem List.not_mem_nil⟩
  | field _ ih =>
    obtain ⟨last, hends⟩ := ih
    exact hends.cons fun _ _ _ mem => by cases List.mem_singleton.mp mem
  | group _ ih =>
    obtain ⟨last, hends⟩ := ih
    exact hends.cons fun _ _ _ mem => by cases List.mem_singleton.mp mem
  | undefined hundefined _ ih =>
    obtain ⟨last, hends⟩ := ih
    refine hends.cons fun _ _ c mem hname => ?_
    obtain ⟨rfl, -⟩ := XmlChild.component.inj (List.mem_singleton.mp mem)
    cases hundefined.symm.trans hname
  | @component _ name required c rest _ _ hname _ _ ihinner ih =>
    obtain ⟨inner, hinner⟩ := ihinner
    obtain ⟨last, hends⟩ := ih
    by_cases hsome : Nameless D c.children
    · refine hends.cons fun _ _ c' mem hname' => ?_
      obtain ⟨rfl, -⟩ := XmlChild.component.inj (List.mem_singleton.mp mem)
      obtain rfl := Option.some.inj (hname.symm.trans hname')
      exact hsome
    · cases hends with
      | here hno => exact ⟨inner, .there [] hname hsome hno hinner⟩
      | @there before name' required' c' after last hname' hsome' hafter hends =>
        exact ⟨last, .there (.component name required :: before) hname' hsome' hafter
          hends⟩

theorem Begins.offers {t : ℤ} (h : Begins D children t) : ∀ o, ∃ e, Offers D o children e := by
  induction h with
  | field hname => exact fun o => ⟨_, .field List.mem_cons_self hname⟩
  | group hname => exact fun o => ⟨_, .group List.mem_cons_self hname⟩
  | component hname _ ih =>
    intro o
    obtain ⟨e, he⟩ := ih _
    exact ⟨e, .component List.mem_cons_self hname he⟩
  | skip _ _ ih =>
    intro o
    obtain ⟨e, he⟩ := ih o
    exact ⟨e, he.mono fun _ hx => List.mem_cons_of_mem _ hx⟩

end FirstTag

/-- **The first tag of a group is its first child exactly if** the last component with anything in it,
followed down, begins with the same tag: with its first field or, without one, its first group. -/
theorem firstTag_iff {raw : XmlFix} (h : raw.Acyclic) (g : XmlGroup) (num : ℤ) :
    ∃ gs n, (∀ k, n ≤ k → buildGroupSpec raw.tables k num g = some gs)
      ∧ ((∀ t, Begins raw.tables g.children t → gs.firstTag = t) ↔
        ∀ t, Begins raw.tables g.children t →
          ∃ last, EndsIn raw.tables g.children last ∧ ownHead raw.tables last = some t) := by
  obtain ⟨n, hn⟩ := exists_buildGroupSpec (h.acc_recurs g.children) num
  refine ⟨_, n, fun k hle => buildGroupSpec_mono _ hle hn, ?_⟩
  obtain ⟨below, hv, hgs⟩ := buildGroupSpec_visits hn false
  obtain ⟨last, hends⟩ := hv.exists_endsIn
  refine forall₂_congr fun t hbegins => ?_
  constructor
  · intro hfirst
    have hsome : ¬ Nameless raw.tables g.children := by
      obtain ⟨e, he⟩ := hbegins.offers false
      exact fun hno => hno _ e he
    obtain ⟨u, hu⟩ := Option.isSome_iff_exists.mp (hends.ownHead_isSome hsome)
    have hlast := hends.firstTag hv (.empty num)
    rw [← hgs, hfirst, hu] at hlast
    exact ⟨last, hends, hu.trans (congrArg some hlast.symm)⟩
  · rintro ⟨last', hends', ht⟩
    rw [hgs, hends'.firstTag hv, ht]
    rfl

/-- Parties with a role behind the identifier, the role in a component. -/
def partyGroup : XmlGroup where
  name := ascii "NoPartyIDs"
  required := ascii "N"
  children := [.field (ascii "PartyID") (ascii "Y"), .component (ascii "PartyRoles") (ascii "N")]

/-- **The role, and not the identifier, is taken for the first tag.** -/
theorem partyGroup_starts_with_role :
    Begins partyDocument.tables partyGroup.children 448
      ∧ (buildGroupSpec partyDocument.tables 3 453 partyGroup).map GroupTree.firstTag = some 452 :=
  ⟨.field (by decide), by decide⟩

/-- With the role in front it is the first tag and the first child. -/
theorem firstTag_iff_roleFirst :
    ∃ gs n, (∀ k, n ≤ k → buildGroupSpec partyDocument.tables k 453
        ⟨ascii "NoPartyIDs", ascii "N",
          [.component (ascii "PartyRoles") (ascii "N"), .field (ascii "PartyID") (ascii "Y")]⟩
          = some gs) ∧ gs.firstTag = 452 := by
  obtain ⟨gs, n, hgs, hiff⟩ := firstTag_iff partyDocument_acyclic
    ⟨ascii "NoPartyIDs", ascii "N",
      [.component (ascii "PartyRoles") (ascii "N"), .field (ascii "PartyID") (ascii "Y")]⟩ 453
  have hrole : partyDocument.tables.compMap (ascii "PartyRoles")
      = some ⟨ascii "PartyRoles", [.field (ascii "PartyRole") (ascii "Y")]⟩ := by rfl
  have hoffers : ∀ o, Offers partyDocument.tables o [.field (ascii "PartyRole") (ascii "Y")]
      ⟨452, ascii "Y", o, none⟩ := fun _ => .field List.mem_cons_self (by decide)
  refine ⟨gs, n, hgs, hiff.mpr (fun t hbegins => ?_) 452 (.component hrole (.field (by decide)))⟩
  refine ⟨_, .there [] hrole (fun hno => hno _ _ (hoffers false)) ?_ (.here ?_), ?_⟩
  · exact fun _ _ _ mem => by cases List.mem_singleton.mp mem
  · exact fun _ _ _ mem => by cases List.mem_singleton.mp mem
  · cases hbegins with
    | component hname begins =>
      obtain rfl := Option.some.inj (hrole.symm.trans hname)
      cases begins with
      | field hname => exact hname
      | skip hno => exact absurd (hoffers false) (hno _ _)
    | skip hno =>
      exact absurd (.component List.mem_cons_self hrole (hoffers _)) (hno false _)

end FixMsg
