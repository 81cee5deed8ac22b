import GoFixMsg.Engine.Dictionary
import GoFixMsg.Spec.Expansion

/-!
# Spec/OptionalComponents — fields that are required in optional components

A reference to a component has an attribute `required` of its own, which the loader does not read.
So a field that is required in a component is required wherever the component is referred to, and a
message that does not use an optional component is rejected for it
(`optional_components_impose_nothing_iff`).

A tag is there only for optional components if whatever offers it is behind a reference marked `N`,
at some place of the chain.  This is asked of the children of the message and, where it carries a
group, of those of the group in turn.
-/

open GoLang

namespace FixMsg

section Optional

variable (D : SpecTables)

/-- **A tag is there only for optional components**: whatever offers it does so through a reference
that is `required="N"`. -/
def OnlyOptional (children : List XmlChild) (t : ℤ) : Prop :=
  (∃ e, Offers D false children e ∧ e.num = t)
    ∧ ∀ e, Offers D false children e → e.num = t → e.optional = true

/-- **A fragment does without the optional components and is valid otherwise**: its strings conform,
it holds every tag that is required but for those of optional components only, it holds none of
these, and so do the members of its groups. -/
inductive DoesWithout (lib : ValidatorLib) (s : FixSpec) : List XmlChild → FixFragment → Prop
  | intro {children : List XmlChild} {f : FixFragment}
      (strings : ∀ t value, f.get t = some value → StringConforms lib s t value)
      (required : ∀ e, Offers D false children e → e.required = ascii "Y" →
        ¬ OnlyOptional D children e.num → e.num ∈ f.tags)
      (omitted : ∀ t, OnlyOptional D children t → t ∉ f.tags)
      (members : ∀ t n k ms g, Assoc.find? t f = some (.group n k ms) → GroupUnder D children t g →
        ∀ m ∈ ms, DoesWithout lib s g.children m) : DoesWithout lib s children f

/-- **No field that is required is there only for optional components**, neither at this level nor in
the groups that the fragment has members of. -/
inductive NotImposed : List XmlChild → FixFragment → Prop
  | intro {children : List XmlChild} {f : FixFragment}
      (here : ∀ e, Offers D false children e → e.required = ascii "Y" →
        ¬ OnlyOptional D children e.num)
      (members : ∀ t n k ms g, Assoc.find? t f = some (.group n k ms) → GroupUnder D children t g →
        ∀ m ∈ ms, NotImposed g.children m) : NotImposed children f

variable {D} {lib : ValidatorLib} {s : FixSpec} {heap : List GroupSpec}

/-- The required tags are there exactly if none is there only for optional components. -/
theorem required_iff {children : List XmlChild} {tags requiredTags : List ℤ}
    {groups : List (ℤ × GroupRef)} (hloaded : LoadedAs D heap children tags requiredTags groups)
    {f : FixFragment} (hvalid : DoesWithout D lib s children f) :
    (∀ t ∈ requiredTags, t ∈ f.tags) ↔
      ∀ e, Offers D false children e → e.required = ascii "Y" → ¬ OnlyOptional D children e.num := by
  obtain ⟨-, hrequired, homitted, -⟩ := hvalid
  constructor
  · intro h e hoffers hreq honly
    exact homitted e.num honly (h e.num ((hloaded.mem_required e.num).mpr ⟨e, hoffers, hreq, rfl⟩))
  · intro h t ht
    obtain ⟨e, hoffers, hreq, rfl⟩ := (hloaded.mem_required t).mp ht
    exact hrequired e hoffers hreq (h e hoffers hreq)

/-- **Such a fragment is accepted exactly if optional components impose nothing on it.**  A member
of a group is judged by the group element under the tag. -/
theorem fieldsConform_iff (hs : SpecOf heap s) {f : FixFragment} {children : List XmlChild}
    (hacc : Acc (Recurs D) children) {tags requiredTags : List ℤ} {groups : List (ℤ × GroupRef)}
    (hloaded : LoadedAs D heap children tags requiredTags groups)
    (hvalid : DoesWithout D lib s children f) :
    (∀ t ∈ requiredTags, t ∈ f.tags) ∧ FieldsConform lib s groups f ↔ NotImposed D children f := by
  induction f using FixFragment.induction generalizing children tags requiredTags groups with
  | step f ih =>
    rw [required_iff hloaded hvalid]
    have hstrings : ∀ t value, f.get t = some value → StringConforms lib s t value := by
      obtain ⟨hstrings, -, -, -⟩ := hvalid
      exact hstrings
    have hmember : ∀ t n k ms g ref, Assoc.find? t f = some (.group n k ms) →
        GroupUnder D children t g → Represents heap ref (D.tree t g) → ∀ m ∈ ms,
        ((∀ u ∈ (s.groupSpec ref).requiredTags, u ∈ FixFragment.tags m)
          ∧ FieldsConform lib s (s.groupSpec ref).nestedGroups m ↔ NotImposed D g.children m) := by
      intro t n k ms g ref hfind hunder hrep m hm
      have hacc' := acc_of_below hacc hunder.transGen_recurs
      obtain ⟨-, -, -, hmembers⟩ := hvalid
      exact ih t n k ms (Assoc.mem_of_find? hfind) m hm hacc'
        (loadedAs_of_represents hs hacc' hrep) (hmembers t n k ms g hfind hunder m hm)
    constructor
    · rintro ⟨hhere, -, hrequired, hmembers⟩
      refine .intro hhere fun t n k ms g hfind hunder m hm => ?_
      obtain ⟨ref, href, hrep⟩ := hloaded.exists_ref hunder
      exact (hmember t n k ms g ref hfind hunder hrep m hm).mp
        ⟨hrequired t n k ms ref hfind href m hm, hmembers t n k ms ref hfind href m hm⟩
    · rintro ⟨hhere, hmembers⟩
      have hgroup : ∀ t n k ms ref, Assoc.find? t f = some (.group n k ms) →
          Assoc.find? t groups = some ref → ∀ m ∈ ms,
          (∀ u ∈ (s.groupSpec ref).requiredTags, u ∈ FixFragment.tags m)
            ∧ FieldsConform lib s (s.groupSpec ref).nestedGroups m := by
        intro t n k ms ref hfind href m hm
        obtain ⟨g, hunder, hrep⟩ := hloaded.group t ref href
        exact (hmember t n k ms g ref hfind hunder hrep m hm).mpr
          (hmembers t n k ms g hfind hunder m hm)
      exact ⟨hhere, .intro hstrings
        (fun t n k ms ref hfind href m hm => (hgroup t n k ms ref hfind href m hm).1)
        fun t n k ms ref hfind href m hm => (hgroup t n k ms ref hfind href m hm).2⟩

end Optional

/-! ## Messages -/

/-- **A message is valid but for what optional components have**, which it does without: the mandatory
tags are there, its type is that of the element, and its fields are such. -/
structure ValidWithout (lib : ValidatorLib) (s : FixSpec) (raw : XmlFix) (element : XmlMessage)
    (f : FixFragment) : Prop where
  mandatory : ∀ t ∈ mandatoryTags, t ∈ f.tags
  type : tableOf XmlMessage.msgType id raw.messages (f.getD tagMsgType) = some element
  fields : DoesWithout raw.tables lib s element.children f

/-- Tables of related lists hold related entries. -/
theorem tableOf_rel {α β κ : Type} [DecidableEq κ] {R : α → β → Prop} {key : α → κ} {key' : β → κ}
    (hkey : ∀ a b, R a b → key a = key' b) {l : List α} {l' : List β} (h : List.Forall₂ R l l')
    {k : κ} {a : α} (ha : tableOf key id l k = some a) :
    ∃ b, tableOf key' id l' k = some b ∧ R a b := by
  have hfold : ∀ (t : κ → Option α) (t' : κ → Option β),
      (∀ a, t k = some a → ∃ b, t' k = some b ∧ R a b) →
      ∀ a, l.foldl (fun t a => Function.update t (key a) (some (id a))) t k = some a →
        ∃ b, l'.foldl (fun t b => Function.update t (key' b) (some (id b))) t' k = some b
          ∧ R a b := by
    clear ha
    induction h with
    | nil => exact fun t t' ht => ht
    | @cons a b l l' hab _ ih =>
      intro t t' ht
      refine ih _ _ fun a' ha' => ?_
      dsimp only at ha' ⊢
      rw [hkey a b hab] at ha'
      by_cases hk : k = key' b
      · subst hk
        rw [Function.update_self] at ha' ⊢
        obtain rfl := Option.some.inj ha'
        exact ⟨b, rfl, hab⟩
      · rw [Function.update_of_ne hk] at ha' ⊢
        exact ht a' ha'
  exact hfold (fun _ => none) (fun _ => none) (fun _ h => (Option.some_ne_none _ h.symm).elim) a ha

/-- **A message that does without the optional components is accepted exactly if** no field that is
required is there only for optional components, in the type of the message or in a group that it has
members of. -/
theorem optional_components_impose_nothing_iff {raw : XmlFix} (h : raw.Acyclic) {n : ℕ}
    {s : LoadedSpec} (hs : buildSpec n raw = some s) {m : FixMessage} (hplain : m.fields.Plain)
    {lib : ValidatorLib} {element : XmlMessage}
    (hvalid : ValidWithout lib s.toFixSpec raw element m.fields) (σ ρ : RangeOrder) :
    validateMessage lib σ ρ m (some s.toFixSpec) = none ↔
      NotImposed raw.tables element.children m.fields := by
  obtain ⟨heap, hspec, built, hbuilt, htype, -⟩ := buildSpec_placed hs
  obtain ⟨ms, hms, hplaced⟩ :=
    tableOf_rel (fun _ _ hplaced => hplaced.msgType.symm) hbuilt hvalid.type
  rw [← htype] at hms
  rw [validateMessage, validateMandatory_eq_none.mpr hvalid.mandatory]
  change validateDictionary lib s.toFixSpec σ ρ m.fields = none ↔ _
  rw [validateDictionary_eq_none_iff hplain, ConformsToDictionary, hms]
  simp only [Option.some_inj, exists_eq_left']
  exact fieldsConform_iff hspec (h.acc_recurs _) hplaced.loaded hvalid.fields

/-! ## An order without its optional component -/

/-- An order with a symbol. -/
def symbolOrder : FixMessage where
  fields :=
    [(8, .str (ascii "FIX.4.4")), (9, .str (ascii "5")), (10, .str (ascii "000")),
     (34, .str (ascii "1")), (35, .str (ascii "D")), (49, .str (ascii "S")),
     (52, .str (ascii "20260228-12:00:00.000")), (55, .str (ascii "EUR")), (56, .str (ascii "T"))]
  wf := by decide

/-- The order is valid but for an optional entry, where it has to have no more than its symbol. -/
theorem validWithout_symbolOrder {raw : XmlFix} {s : FixSpec} (element : XmlMessage)
    {e : SpecEntry} {below : List (List SpecEntry)}
    (helement : tableOf XmlMessage.msgType id raw.messages (ascii "D") = some element)
    (hv : Visits raw.tables false element.children below)
    (hes : (ownEntries raw.tables false element.children :: below).flatten
      = [⟨55, ascii "Y", false, none⟩, e])
    (hopt : e.optional = true) (hnum : e.num ∉ symbolOrder.fields.tags)
    (hstrings : validateFragment sampleLib s .written .written [] [] [] symbolOrder.fields = none) :
    ValidWithout sampleLib s raw element symbolOrder.fields := by
  have hflat : symbolOrder.fields.Flat := by decide
  have hoffers : ∀ e', Offers raw.tables false element.children e' →
      e' = ⟨55, ascii "Y", false, none⟩ ∨ e' = e := by
    intro e' h
    rw [← hv.mem_iff, hes] at h
    simpa using h
  have hsymbol : Offers raw.tables false element.children ⟨55, ascii "Y", false, none⟩ := by
    rw [← hv.mem_iff, hes]
    exact List.mem_cons_self
  refine ⟨by decide, helement, .intro (fun t value h => ?_) (fun e' h hreq honly => ?_)
    (fun t honly ht => ?_) fun t n k ms g hfind => absurd (Assoc.mem_of_find? hfind) hflat.no_group⟩
  · obtain ⟨hconform, -, -⟩ := (validateFragment_eq_none_iff hflat.plain [] []).mp hstrings
    exact hconform t value h
  · rcases hoffers e' h with rfl | rfl
    · decide
    · refine absurd ⟨⟨e', h, rfl⟩, fun e'' h'' heq => ?_⟩ honly
      rcases hoffers e'' h'' with rfl | rfl
      · exact absurd (by rw [← heq]; decide) hnum
      · exact hopt
  · obtain ⟨⟨e', h, rfl⟩, hall⟩ := honly
    rcases hoffers e' h with rfl | rfl
    · exact absurd (hall _ hsymbol rfl) (by decide)
    · exact hnum ht

/-- What the calls for the order with parties meet: the symbol, and the parties in the component. -/
theorem visits_partyDocument :
    ∃ below, Visits partyDocument.tables false
        [.field (ascii "Symbol") (ascii "Y"), .component (ascii "Parties") (ascii "N")] below
      ∧ (ownEntries partyDocument.tables false
          [.field (ascii "Symbol") (ascii "Y"), .component (ascii "Parties") (ascii "N")]
          :: below).flatten = [⟨55, ascii "Y", false, none⟩, ⟨453, ascii "N", true,
            some ⟨ascii "NoPartyIDs", ascii "N", [.field (ascii "PartyID") (ascii "Y"),
              .component (ascii "PartyRoles") (ascii "N")]⟩⟩] :=
  ⟨_, .field (.component (c := ⟨ascii "Parties", [.group (ascii "NoPartyIDs") (ascii "N")
      [.field (ascii "PartyID") (ascii "Y"), .component (ascii "PartyRoles") (ascii "N")]]⟩) rfl
    (.group .nil) .nil), rfl⟩

/-- What is loaded for the document. -/
def loadedParties : LoadedSpec := (buildSpec 5 partyDocument).get (by decide)

/-- Without its parties the order is accepted. -/
theorem symbolOrder_without_parties :
    validateMessage sampleLib .written .written symbolOrder (some loadedParties.toFixSpec) = none := by
  obtain ⟨below, hv, hes⟩ := visits_partyDocument
  have hvalid := validWithout_symbolOrder (s := loadedParties.toFixSpec)
    ⟨ascii "NewOrderSingle", ascii "D",
      [.field (ascii "Symbol") (ascii "Y"), .component (ascii "Parties") (ascii "N")]⟩
    rfl hv hes rfl (by decide) (by decide)
  refine (optional_components_impose_nothing_iff partyDocument_acyclic (n := 5)
    (Option.some_get _).symm (by decide) hvalid .written .written).mpr ?_
  refine .intro (fun e h hreq honly => ?_)
    fun t n k ms g hfind => absurd (Assoc.mem_of_find? hfind)
      (FixFragment.Flat.no_group (f := symbolOrder.fields) (by decide))
  have hmem := hv.mem_iff.mpr h
  rw [hes] at hmem
  rcases List.mem_cons.mp hmem with rfl | hmem
  · exact absurd (honly.2 _ h rfl) (by decide)
  · obtain rfl := List.mem_singleton.mp hmem
    exact absurd hreq (by decide)

/-- An order with a quantity, which is required in an optional component. -/
def quantityDocument : XmlFix where
  major := ascii "4"
  minor := ascii "4"
  type := ascii "FIX"
  messages := [⟨ascii "NewOrderSingle", ascii "D",
    [.field (ascii "Symbol") (ascii "Y"), .component (ascii "OrderQtyData") (ascii "N")]⟩]
  components := [⟨ascii "OrderQtyData", [.field (ascii "OrderQty") (ascii "Y")]⟩]
  fields := [⟨55, ascii "Symbol", ascii "STRING", []⟩, ⟨38, ascii "OrderQty", ascii "QTY", []⟩]

theorem quantityDocument_acyclic : quantityDocument.Acyclic := by
  intro name hcycle
  obtain ⟨b, ⟨c, hc, hmention⟩, -⟩ := Relation.TransGen.head'_iff.mp hcycle
  obtain ⟨c', hmem, -, rfl⟩ := mem_of_tableOf hc
  obtain rfl := List.mem_singleton.mp hmem
  cases hmention with
  | component mem => cases List.mem_singleton.mp mem
  | group mem => cases List.mem_singleton.mp mem

/-- What is loaded for it. -/
def loadedQuantity : LoadedSpec := (buildSpec 2 quantityDocument).get (by decide)

/-- **Without its quantity the order is rejected**, though the component is optional. -/
theorem symbolOrder_without_quantity :
    quantityDocument.Acyclic ∧ buildSpec 2 quantityDocument = some loadedQuantity
      ∧ ValidWithout sampleLib loadedQuantity.toFixSpec quantityDocument
        ⟨ascii "NewOrderSingle", ascii "D",
          [.field (ascii "Symbol") (ascii "Y"), .component (ascii "OrderQtyData") (ascii "N")]⟩
        symbolOrder.fields
      ∧ validateMessage sampleLib .written .written symbolOrder (some loadedQuantity.toFixSpec)
        = some (.invalid (ascii "missing required tag 38 for MsgType D (NewOrderSingle)")) := by
  have hv : Visits quantityDocument.tables false
      [.field (ascii "Symbol") (ascii "Y"), .component (ascii "OrderQtyData") (ascii "N")]
      [[⟨38, ascii "Y", true, none⟩]] :=
    .field (.component (c := ⟨ascii "OrderQtyData", [.field (ascii "OrderQty") (ascii "Y")]⟩) rfl
      (.field .nil) .nil)
  exact ⟨quantityDocument_acyclic, (Option.some_get _).symm,
    validWithout_symbolOrder ⟨ascii "NewOrderSingle", ascii "D",
      [.field (ascii "Symbol") (ascii "Y"), .component (ascii "OrderQtyData") (ascii "N")]⟩
      rfl hv rfl rfl (by decide) (by decide), by decide⟩

end FixMsg
