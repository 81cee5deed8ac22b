import GoFixMsg.Codec.RoundTrip

/-!
# Codec/Reading — a message is read back from every wire that encodes it

A wire lists the fields of a message: each group with its members, each field once, in whatever
order (`Lists`).  Where the listing encodes a message of the dictionary (`Encodes`), and MsgType is
among its first six fields, the codec reads exactly that message (`parse_of_lists`).

Round trips start from the one wire the serialiser writes.  Here the wire comes from somebody else,
who may order the fields within a member and at the top as they like, as long as FirstTag begins
each member and a group ends where a tag follows that the levels around have.
-/

open GoLang

namespace FixMsg

open Forest (Encodes Delimited flatten collapse itemFields itemValue membersFields)

/-- **A forest lists the fields of a fragment**, each once and in any order.  A group is listed with
its members one by one, and records its count tag and its FirstTag. -/
inductive Lists : Forest → FixFragment → Prop
  | mk {F : Forest} {f : FixFragment} (tags : F.tags.Perm f.tags)
      (plain : ∀ t v, (t, Item.leaf v) ∈ F → Assoc.find? t f = some (.str v))
      (group : ∀ t c k ms, (t, Item.group c k ms) ∈ F →
        ∃ ms', Assoc.find? t f = some (.group t k ms') ∧ ms'.length = ms.length)
      (members : ∀ t c k ms ms', (t, Item.group c k ms) ∈ F →
        Assoc.find? t f = some (.group t k ms') → ∀ p ∈ ms.zip ms', Lists p.1 p.2) : Lists F f

/-! ## What a forest lists -/

/-- Fragments are the same in order if they are at each place. -/
theorem map_collapse_eq {ms : List Forest} {ms' : List FixFragment} (hlen : ms'.length = ms.length)
    (h : ∀ p ∈ ms.zip ms', collapse p.1 = p.2) : ms.map collapse = ms' := by
  induction ms generalizing ms' with
  | nil => rw [List.length_eq_zero_iff.mp hlen, List.map_nil]
  | cons m ms ih =>
    cases ms' with
    | nil => cases hlen
    | cons m' ms' =>
      rw [List.zip_cons_cons] at h
      rw [List.map_cons, h (m, m') List.mem_cons_self,
        ih (Nat.succ.inj hlen) fun p hp => h p (List.mem_cons_of_mem _ hp)]

/-- **A forest lists at most one fragment**, the one it becomes. -/
theorem Lists.collapse_eq {F : Forest} {f : FixFragment} (h : Lists F f) (hwf : f.WF) :
    collapse F = f := by
  induction h with
  | @mk F f htags hplain hgroup _ ih =>
    have hnodup : F.tags.Nodup := htags.nodup_iff.mpr hwf.sorted.nodup
    refine Assoc.Sorted.ext (Forest.collapse_sorted F) hwf.sorted fun t => ?_
    by_cases ht : t ∈ F.tags
    · obtain ⟨⟨_, i⟩, hmem, rfl⟩ := List.mem_map.mp ht
      rw [Forest.find?_collapse hnodup hmem]
      cases i with
      | leaf v => exact (hplain _ v hmem).symm
      | group c k ms =>
        obtain ⟨ms', hfind, hlen⟩ := hgroup _ c k ms hmem
        have hms : ms.map collapse = ms' := map_collapse_eq hlen fun p hp =>
          ih _ c k ms ms' hmem hfind p hp
            (hwf.member (Assoc.mem_of_find? hfind) (List.of_mem_zip hp).2)
        rw [hfind, itemValue, Forest.collapseMembers_eq, hms]
    · rw [collapse, Forest.find?_collapseOn_of_notMem ht, Assoc.find?_nil,
        Assoc.find?_eq_none_iff.mpr fun hmem => ht (htags.mem_iff.mpr hmem)]

/-! ## Where a tag of the message stands on the wire

In an encoding no tag of a level comes up in a group below it, so a tag of the message stands at one
place.  MsgType is therefore found where it is early enough, and nothing else is taken for it. -/

variable {s : FixSpec}

theorem Forest.Encodes.isInt64 {groups : List (ℤ × GroupRef)} {present : List ℤ} {F : Forest}
    (h : Encodes s groups present F) : ∀ e ∈ flatten F, IsInt64 e.1 := by
  induction h with
  | nil => exact fun _ he => absurd he List.not_mem_nil
  | leaf ht _ _ ih =>
    intro e he
    rcases List.mem_cons.mp he with rfl | he
    · exact ht.2
    · exact ih e he
  | group ht _ _ _ hstart _ _ ihms ih =>
    intro e he
    rcases List.mem_cons.mp he with rfl | he
    · exact ht.2
    rcases List.mem_append.mp he with he | he
    · rw [Forest.membersFields_eq] at he
      obtain ⟨m, hm, he⟩ := List.mem_flatMap.mp he
      obtain ⟨v, rest, rfl, hint, -⟩ := hstart m hm
      rcases List.mem_cons.mp he with rfl | he
      · exact hint
      · exact ihms _ hm e he
    · exact ih e he

/-- **A tag that is present at the level of a forest, or around it, heads no field of a member.** -/
theorem Forest.Encodes.exists_item {groups : List (ℤ × GroupRef)} {present : List ℤ} {F : Forest}
    (h : Encodes s groups present F) {e : Field} (he : e ∈ flatten F) (hmem : e.1 ∈ present) :
    ∃ i, (e.1, i) ∈ F ∧ (itemFields e.1 i).head? = some e := by
  induction h with
  | nil => cases he
  | leaf _ _ _ ih =>
    rcases List.mem_cons.mp he with rfl | he
    · exact ⟨_, List.mem_cons_self, rfl⟩
    · obtain ⟨i, hi, hhead⟩ := ih he hmem
      exact ⟨i, List.mem_cons_of_mem _ hi, hhead⟩
  | group _ _ hapart _ hstart _ _ ihms ih =>
    rcases List.mem_cons.mp he with rfl | he
    · exact ⟨_, List.mem_cons_self, rfl⟩
    rcases List.mem_append.mp he with he | he
    · rw [Forest.membersFields_eq] at he
      obtain ⟨m, hm, he⟩ := List.mem_flatMap.mp he
      obtain ⟨v, rest, rfl, -, hrest⟩ := hstart m hm
      have hapart := hapart (List.ne_nil_of_mem hm)
      rcases List.mem_cons.mp he with rfl | he
      · exact absurd hmem (hapart _ List.mem_cons_self)
      · obtain ⟨i, hi, -⟩ := ihms _ hm he (List.mem_append_right _ hmem)
        exact absurd hmem (hapart _ (List.mem_cons_of_mem _ (hrest _ hi).1))
    · obtain ⟨i, hi, hhead⟩ := ih he hmem
      exact ⟨i, List.mem_cons_of_mem _ hi, hhead⟩

/-- So a tag of the message comes once on the wire. -/
theorem Forest.Encodes.eq_of_mem {groups : List (ℤ × GroupRef)} {F : Forest}
    (h : Encodes s groups F.tags F) (hnodup : F.tags.Nodup) {d e : Field} (hd : d ∈ flatten F)
    (he : e ∈ flatten F) (heq : d.1 = e.1) (hmem : e.1 ∈ F.tags) : d = e := by
  obtain ⟨i, hi, hhead⟩ := h.exists_item hd (heq ▸ hmem)
  obtain ⟨j, hj, hhead'⟩ := h.exists_item he hmem
  rw [heq] at hi hhead
  have hij : ((e.1, i) : ℤ × Item) = (e.1, j) := List.inj_on_of_nodup_map hnodup hi hj rfl
  rw [(Prod.mk.inj hij).2, hhead'] at hhead
  exact (Option.some.inj hhead).symm

/-- **The parser finds the message type** where MsgType is among the first six fields. -/
theorem findMsgSpec_of_encodes {groups : List (ℤ × GroupRef)} {F : Forest} {ty : Bytes}
    (h : Encodes s groups F.tags F) (hnodup : F.tags.Nodup) (hmem : tagMsgType ∈ F.tags)
    (hearly : (tagMsgType, ty) ∈ (flatten F).take 6) :
    findMsgSpec s ((flatten F).map tagText) = s.messagesByType ty := by
  have htext : itoa tagMsgType = ascii "35" := by decide
  have hfield := List.mem_of_mem_take hearly
  have hfound : (((flatten F).map tagText).take 6).find? (fun p => p.1 == ascii "35")
      = some (tagText (tagMsgType, ty)) := by
    rw [← List.map_take, List.find?_map]
    cases hfind : ((flatten F).take 6).find? ((fun p => p.1 == ascii "35") ∘ tagText) with
    | none =>
      have hnone := List.find?_eq_none.mp hfind _ hearly
      rw [Function.comp_apply, tagText, htext, beq_self_eq_true] at hnone
      exact absurd rfl hnone
    | some e =>
      have hmem_e := List.mem_of_mem_take (List.mem_of_find?_eq_some hfind)
      have htag := List.find?_some hfind
      rw [Function.comp_apply, beq_iff_eq, tagText, ← htext] at htag
      have heq : e.1 = tagMsgType := itoa_injective (h.isInt64 e hmem_e) (by decide) htag
      rw [h.eq_of_mem hnodup hmem_e hfield heq hmem, Option.map_some]
  rw [findMsgSpec, hfound]
  rfl

/-- **The parser reads the message.**  A wire that encodes a message of the dictionary, with MsgType
among its first six fields, is read as exactly that message. -/
theorem parse_of_lists {msgSpec : MessageSpec} {m : FixMessage} {F : Forest} {ty : Bytes}
    (hlists : Lists F m.fields) (hF : Encodes s msgSpec.groups F.tags F)
    (hvalues : ∀ e ∈ flatten F, SohFree e.2) (hmem : tagMsgType ∈ F.tags)
    (hearly : (tagMsgType, ty) ∈ (flatten F).take 6) (htype : s.messagesByType ty = some msgSpec) :
    (Codec.new (some s)).parse (wireText soh (flatten F)) = .ok m.fields := by
  have hnodup : F.tags.Nodup := by
    obtain ⟨htags, -, -, -⟩ := hlists
    exact htags.nodup_iff.mpr m.wf.sorted.nodup
  have hsep : (Codec.new (some s)).sep = soh := rfl
  rw [Codec.parse, hsep, tokenise_wireText hvalues]
  dsimp only
  unfold Codec.parsePairs Codec.new
  dsimp only
  rw [if_neg Bool.false_ne_true, findMsgSpec_of_encodes hF hnodup hmem hearly, htype]
  have hread := Forest.dispatchPairs_complete hF rfl []
  rwa [show Forest.collapseOn F [] = m.fields from hlists.collapse_eq m.wf] at hread

/-! ## An order whose first party has a sub-party -/

/-- Parties: PartyIDSource and the sub-parties may follow PartyID. -/
def partiesWithSubs : GroupSpec := ⟨453, 448, [448], [448, 447, 802], [(802, 1)]⟩

def partySubs : GroupSpec := ⟨802, 523, [523], [523, 803], []⟩

/-- A dictionary with a group in a group. -/
def subPartySpec : FixSpec where
  messagesByType ty := if ty = ascii "D" then some orderSpec else none
  groupSpec ref := if ref = 0 then partiesWithSubs else partySubs

/-- A party on the wire: PartyIDSource is written behind PartyID and the sub-parties. -/
def firstParty : Forest :=
  [(448, .leaf (ascii "A")), (802, .group (itoa 1) 523 [[(523, .leaf (ascii "C"))]]),
    (447, .leaf (ascii "D"))]

/-- The order, field by field. -/
def subPartyWire : Forest :=
  [(35, .leaf (ascii "D")),
    (453, .group (itoa 2) 448 [firstParty, [(448, .leaf (ascii "B"))]]),
    (55, .leaf (ascii "IBM"))]

/-- The order as a message. -/
def subPartyOrder : FixMessage where
  fields :=
    [(35, .str (ascii "D")), (55, .str (ascii "IBM")),
      (453, .group 453 448
        [[(447, .str (ascii "D")), (448, .str (ascii "A")),
            (802, .group 802 523 [[(523, .str (ascii "C"))]])],
          [(448, .str (ascii "B"))]])]
  wf := by decide

/-- A single plain field lists itself. -/
theorem lists_singleton (t : ℤ) (v : Bytes) : Lists [(t, .leaf v)] [(t, .str v)] := by
  refine .mk (.refl _) (fun u w h => ?_) (fun u c k ms h => ?_) fun u c k ms _ h => ?_
  · cases List.mem_singleton.mp h
    exact if_pos rfl
  · cases List.mem_singleton.mp h
  · cases List.mem_singleton.mp h

theorem lists_firstParty : Lists firstParty [(447, .str (ascii "D")), (448, .str (ascii "A")),
    (802, .group 802 523 [[(523, .str (ascii "C"))]])] := by
  have hgroup : ∀ {t c k ms}, (t, Item.group c k ms) ∈ firstParty →
      t = 802 ∧ k = 523 ∧ ms = [[(523, .leaf (ascii "C"))]] := by
    intro t c k ms h
    simp only [firstParty, List.mem_cons, Prod.mk.injEq, Item.group.injEq, reduceCtorEq, and_false,
      List.not_mem_nil, or_false, false_or] at h
    exact ⟨h.1, h.2.2⟩
  refine .mk (by decide) (fun t v h => ?_) (fun t c k ms h => ?_) fun t c k ms ms' h hfind p hp => ?_
  · simp only [firstParty, List.mem_cons, Prod.mk.injEq, Item.leaf.injEq, reduceCtorEq, and_false,
      List.not_mem_nil, or_false, false_or] at h
    rcases h with ⟨rfl, rfl⟩ | ⟨rfl, rfl⟩ <;> rfl
  · obtain ⟨rfl, rfl, rfl⟩ := hgroup h
    exact ⟨_, rfl, rfl⟩
  · obtain ⟨rfl, rfl, rfl⟩ := hgroup h
    cases hfind
    rw [List.mem_singleton.mp hp]
    exact lists_singleton 523 _

theorem lists_subParty : Lists subPartyWire subPartyOrder.fields := by
  have hgroup : ∀ {t c k ms}, (t, Item.group c k ms) ∈ subPartyWire →
      t = 453 ∧ k = 448 ∧ ms = [firstParty, [(448, .leaf (ascii "B"))]] := by
    intro t c k ms h
    simp only [subPartyWire, List.mem_cons, Prod.mk.injEq, Item.group.injEq, reduceCtorEq, and_false,
      List.not_mem_nil, or_false, false_or] at h
    exact ⟨h.1, h.2.2⟩
  refine .mk (by decide) (fun t v h => ?_) (fun t c k ms h => ?_) fun t c k ms ms' h hfind p hp => ?_
  · simp only [subPartyWire, List.mem_cons, Prod.mk.injEq, Item.leaf.injEq, reduceCtorEq, and_false,
      List.not_mem_nil, or_false, false_or] at h
    rcases h with ⟨rfl, rfl⟩ | ⟨rfl, rfl⟩ <;> rfl
  · obtain ⟨rfl, rfl, rfl⟩ := hgroup h
    exact ⟨_, rfl, rfl⟩
  · obtain ⟨rfl, rfl, rfl⟩ := hgroup h
    cases hfind
    rcases List.mem_cons.mp hp with rfl | hp
    · exact lists_firstParty
    · rw [List.mem_singleton.mp hp]
      exact lists_singleton 448 _

theorem encodes_subParty : Encodes subPartySpec orderSpec.groups (Forest.tags subPartyWire)
    subPartyWire := by
  refine .leaf ?_ rfl (@Encodes.group _ _ _ _ 0 [firstParty, [(448, .leaf (ascii "B"))]] _ ?_ rfl ?_
    ?_ ?_ ?_ (.leaf ?_ rfl .nil))
  · decide
  · decide
  · decide
  · decide
  · intro m hm
    simp only [List.mem_cons, List.not_mem_nil, or_false] at hm
    rcases hm with rfl | rfl
    · exact ⟨_, _, rfl, by decide, by decide⟩
    · exact ⟨_, _, rfl, by decide, by decide⟩
  · intro m hm
    simp only [List.mem_cons, List.not_mem_nil, or_false] at hm
    rcases hm with rfl | rfl
    · refine @Encodes.group _ _ _ _ 1 [[(523, .leaf (ascii "C"))]] _ ?_ rfl ?_ ?_ ?_ ?_
        (.leaf ?_ rfl .nil)
      · decide
      · decide
      · decide
      · intro m hm
        rw [List.mem_singleton.mp hm]
        exact ⟨_, _, rfl, by decide, by decide⟩
      · intro m hm
        rw [List.mem_singleton.mp hm]
        exact .nil
      · decide
    · exact .nil
  · decide

/-- That order is read from its wire. -/
theorem parse_of_lists_subParty : (Codec.new (some subPartySpec)).parse
    (wireText soh (flatten subPartyWire)) = .ok subPartyOrder.fields := by
  have hearly : (tagMsgType, ascii "D") ∈ (flatten subPartyWire).take 6 := by decide
  exact parse_of_lists lists_subParty encodes_subParty (by decide) (by decide) hearly rfl

end FixMsg
