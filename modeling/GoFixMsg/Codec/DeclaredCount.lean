import GoFixMsg.Codec.GroupRun
import GoFixMsg.Codec.RoundTrip

/-!
# Codec/DeclaredCount — how many members a group gets

The loop of `parseGroup` compares the count with the members it has closed, and the last member is
closed only when the next one begins.  So one FirstTag behind the last member is taken for one more
member, and a group has at most one member too many (`LoopRun.length_le`).  The groups of a message
keep to their counts exactly if no FirstTag stands there (`Codec.ReadAs.within_iff`): the wire is
then in the grammar `Counted`, whose rules begin a member only while the count has not been reached.
-/

open GoLang

namespace FixMsg

open Forest (collapse)

/-- **Every group of a forest has at most as many members as its count field says**, at every
depth. -/
inductive Forest.Within : Forest → Prop
  | mk {F : Forest}
      (count : ∀ t c k ms, (t, Item.group c k ms) ∈ F →
        ∃ n, atoi? c = some n ∧ (ms.length : ℤ) ≤ max n 0)
      (members : ∀ t c k ms, (t, Item.group c k ms) ∈ F → ∀ m ∈ ms, Forest.Within m) :
      Forest.Within F

/-- A group of these members, read for this count, and the groups inside it keep to their counts. -/
def WithinCount (count : ℤ) (ms : List Forest) : Prop :=
  (ms.length : ℤ) ≤ max count 0 ∧ ∀ m ∈ ms, Forest.Within m

/-- **The fields of a group that keeps to its count**, from the `k`-th member on, and what stands
behind it: a member begins only while there are fewer than the count, and FirstTag does not stand
behind the last one.  So do the nested groups. -/
inductive Counted (s : FixSpec) : GroupSpec → ℤ → ℕ → List Pair → List Pair → Prop
  | nil {grp : GroupSpec} {count : ℤ} {k : ℕ} : Counted s grp count k [] []
  | stop {grp : GroupSpec} {count : ℤ} {k : ℕ} {t v : Bytes} {pairs : List Pair}
      (h : ∀ tag, atoi? t = some tag → tag ≠ grp.firstTag ∧ (k ≠ 0 → tag ∉ grp.tags)) :
      Counted s grp count k ((t, v) :: pairs) ((t, v) :: pairs)
  | first {grp : GroupSpec} {count : ℤ} {k : ℕ} {t v : Bytes} {pairs rest : List Pair}
      (hk : (k : ℤ) < count) (htag : atoi? t = some grp.firstTag)
      (hrest : Counted s grp count (k + 1) pairs rest) : Counted s grp count k ((t, v) :: pairs) rest
  | plain {grp : GroupSpec} {count : ℤ} {k : ℕ} {t v : Bytes} {tag : ℤ} {pairs rest : List Pair}
      (hk : k ≠ 0) (htag : atoi? t = some tag) (hfirst : tag ≠ grp.firstTag)
      (htags : tag ∈ grp.tags) (hplain : Assoc.find? tag grp.nestedGroups = none)
      (hrest : Counted s grp count k pairs rest) : Counted s grp count k ((t, v) :: pairs) rest
  | nested {grp : GroupSpec} {count n : ℤ} {k : ℕ} {t v : Bytes} {tag : ℤ} {ref : GroupRef}
      {pairs rest' rest : List Pair} (hk : k ≠ 0) (htag : atoi? t = some tag)
      (hfirst : tag ≠ grp.firstTag) (htags : tag ∈ grp.tags)
      (hgroup : Assoc.find? tag grp.nestedGroups = some ref) (hn : atoi? v = some n)
      (hnone : n ≤ 0 → rest' = pairs)
      (hsub : 0 < n → Counted s (s.groupSpec ref) n 0 pairs rest')
      (hrest : Counted s grp count k rest' rest) : Counted s grp count k ((t, v) :: pairs) rest

/-- The fields behind a count field are a group that keeps to the count. -/
def CountedGroup (s : FixSpec) (grp : GroupSpec) (count : ℤ) (pairs rest : List Pair) : Prop :=
  (count ≤ 0 → rest = pairs) ∧ (0 < count → Counted s grp count 0 pairs rest)

/-- **The fields of a message whose groups keep to their counts.** -/
inductive CountedFields (s : FixSpec) (groups : List (ℤ × GroupRef)) : List Pair → Prop
  | nil : CountedFields s groups []
  | skip {t v : Bytes} {pairs : List Pair} (htag : atoi? t = none)
      (hrest : CountedFields s groups pairs) : CountedFields s groups ((t, v) :: pairs)
  | plain {t v : Bytes} {tag : ℤ} {pairs : List Pair} (htag : atoi? t = some tag)
      (hplain : Assoc.find? tag groups = none) (hrest : CountedFields s groups pairs) :
      CountedFields s groups ((t, v) :: pairs)
  | group {t v : Bytes} {tag n : ℤ} {ref : GroupRef} {pairs rest : List Pair}
      (htag : atoi? t = some tag) (hgroup : Assoc.find? tag groups = some ref)
      (hn : atoi? v = some n) (hsub : CountedGroup s (s.groupSpec ref) n pairs rest)
      (hrest : CountedFields s groups rest) : CountedFields s groups ((t, v) :: pairs)

/-- **A buffer whose groups keep to their counts**, where the codec reads groups at all. -/
def Codec.CountedBuffer (c : Codec) (buf : Bytes) : Prop :=
  ∀ pairs, tokenise c.sep buf = .ok pairs →
    ∀ s msgSpec, c.dispatches pairs = some (s, msgSpec) → CountedFields s msgSpec.groups pairs

namespace Forest.Within

theorem nil : Within [] :=
  .mk (fun _ _ _ _ h => absurd h List.not_mem_nil) fun _ _ _ _ h => absurd h List.not_mem_nil

theorem append {F G : Forest} (hF : Within F) (hG : Within G) : Within (F ++ G) := by
  obtain ⟨hcF, hmF⟩ := hF
  obtain ⟨hcG, hmG⟩ := hG
  exact .mk (fun t c k ms h => (List.mem_append.mp h).elim (hcF t c k ms) (hcG t c k ms))
    fun t c k ms h => (List.mem_append.mp h).elim (hmF t c k ms) (hmG t c k ms)

theorem leaf (t : ℤ) (v : Bytes) : Within [(t, .leaf v)] := by
  refine .mk (fun u c k ms h => ?_) fun u c k ms h => ?_
  · cases List.mem_singleton.mp h
  · cases List.mem_singleton.mp h

theorem group {c : Bytes} {n : ℤ} (hn : atoi? c = some n) {ms : List Forest}
    (h : WithinCount n ms) (t k : ℤ) : Within [(t, .group c k ms)] := by
  refine .mk (fun u c' k' ms' hmem => ?_) fun u c' k' ms' hmem => ?_
  · cases List.mem_singleton.mp hmem
    exact ⟨n, hn, h.1⟩
  · cases List.mem_singleton.mp hmem
    exact h.2

end Forest.Within

theorem withinCount_nil (count : ℤ) : WithinCount count [] :=
  ⟨le_max_right _ _, fun _ hm => absurd hm List.not_mem_nil⟩

/-- Going on with the open member. -/
theorem WithinCount.concat {count : ℤ} {ms : List Forest} {m G : Forest}
    (h : WithinCount count (ms ++ (some m).toList)) (hG : G.Within) :
    WithinCount count (ms ++ (some (m ++ G)).toList) := by
  rw [Option.toList_some] at h ⊢
  refine ⟨by simpa using h.1, fun m' hm' => ?_⟩
  rcases List.mem_append.mp hm' with hm' | hm'
  · exact h.2 m' (List.mem_append_left _ hm')
  · rw [List.mem_singleton.mp hm']
    exact (h.2 m (List.mem_append_right _ (List.mem_singleton_self m))).append hG

/-! ## What a run adds -/

section LoopRun

variable {s : FixSpec} {grp : GroupSpec} {count : ℤ} {pairs rest : List Pair}
  {ms out : List Forest} {cur : Option Forest}

/-- A group whose count is not positive gets no member. -/
theorem LoopRun.of_nonpos (h : LoopRun s grp count pairs [] none rest out) (hcount : count ≤ 0) :
    rest = pairs ∧ out = [] := by
  generalize hms : ([] : List Forest) = ms at h
  generalize hcur : (none : Option Forest) = cur at h
  cases h with
  | stop _ => exact ⟨rfl, by rw [← hms, ← hcur]; rfl⟩
  | first hlt =>
    rw [← hms] at hlt
    exact absurd hlt (not_lt.mpr hcount)
  | plain | nested => cases hcur

/-- An open member counts. -/
theorem length_open (ms : List Forest) (m : Forest) :
    (ms ++ (some m).toList).length = ms.length + 1 := List.length_append

theorem LoopRun.le_length (h : LoopRun s grp count pairs ms cur rest out) :
    (ms ++ cur.toList).length ≤ out.length := by
  induction h with
  | stop _ => exact Nat.le_refl _
  | first _ _ _ ih =>
    rw [List.length_append] at ih
    exact (Nat.le_add_right _ _).trans ih
  | plain _ _ _ _ _ _ ih | nested _ _ _ _ _ _ _ _ _ _ ih =>
    rw [List.length_append] at ih ⊢
    exact ih

/-- **A group gets at most one member more than its count says.** -/
theorem LoopRun.length_le (h : LoopRun s grp count pairs ms cur rest out)
    (hms : (ms.length : ℤ) ≤ max count 0) : (out.length : ℤ) ≤ max count 0 + 1 := by
  induction h with
  | @stop grp count pairs ms cur _ =>
    cases cur with
    | none =>
      rw [Option.toList_none, List.append_nil]
      omega
    | some m =>
      rw [Option.toList_some, List.length_append, List.length_singleton]
      omega
  | @first grp count t v pairs rest ms out cur hcount _ _ ih =>
    refine ih ?_
    cases cur with
    | none =>
      rw [Option.toList_none, List.append_nil]
      exact hms
    | some m =>
      rw [Option.toList_some, List.length_append, List.length_singleton]
      omega
  | plain _ _ _ _ _ _ ih | nested _ _ _ _ _ _ _ _ _ _ ih => exact ih hms

/-- A group that turned out to keep to its count was read by the grammar.  So were the groups
inside it, which stand in its members. -/
theorem LoopRun.counted (h : LoopRun s grp count pairs ms cur rest out) (hpos : 0 < count)
    (hcur : cur = none → ms = []) (hout : WithinCount count out) :
    Counted s grp count (ms ++ cur.toList).length pairs rest := by
  induction h with
  | @stop grp count pairs ms cur hstop =>
    cases pairs with
    | nil => exact .nil
    | cons p pairs =>
      obtain ⟨t, v⟩ := p
      have hlen := hout.1
      rw [List.length_append] at hlen
      cases cur with
      | none =>
        obtain rfl := hcur rfl
        have htag := hstop.resolve_left (not_not.mpr hpos)
        exact .stop fun tag ht => ⟨(htag tag ht).1, fun hk => absurd rfl hk⟩
      | some m =>
        rw [Option.toList_some, List.length_singleton] at hlen
        have htag := hstop.resolve_left (not_not.mpr (by omega))
        exact .stop fun tag ht => ⟨(htag tag ht).1, fun _ => (htag tag ht).2 rfl⟩
  | @first grp count t v pairs rest ms out cur _ htag hrest ih =>
    have hle := hrest.le_length
    rw [length_open] at hle
    have hlen := hout.1
    refine .first (by omega) htag ?_
    have hnext := ih hpos (fun h => absurd h (Option.some_ne_none _)) hout
    rwa [length_open] at hnext
  | plain _ htag hfirst htags hplain _ ih =>
    have hnext := ih hpos (fun h => absurd h (Option.some_ne_none _)) hout
    rw [List.length_append] at hnext ⊢
    exact .plain (Nat.succ_ne_zero _) htag hfirst htags hplain hnext
  | @nested grp count n t v tag ref pairs rest' rest ms sub out m _ htag hfirst htags hgroup hn
      hzero hsub hrest ihsub ih =>
    have hnext := ih hpos (fun h => absurd h (Option.some_ne_none _)) hout
    rw [List.length_append] at hnext ⊢
    obtain ⟨m', tail, rfl, hext⟩ := hrest.persists _ rfl
    have hm' : m' ∈ ms ++ m' :: tail := List.mem_append_right _ List.mem_cons_self
    have hitem : (tag, Item.group v (s.groupSpec ref).firstTag sub) ∈ m' :=
      hext.subset (List.mem_append_right _ (List.mem_singleton_self _))
    have hwithin : WithinCount n sub := by
      obtain ⟨hcount, hmembers⟩ := hout.2 m' hm'
      obtain ⟨n', hn', hlen⟩ := hcount _ _ _ _ hitem
      rw [hn] at hn'
      cases hn'
      exact ⟨hlen, hmembers _ _ _ _ hitem⟩
    refine .nested (Nat.succ_ne_zero _) htag hfirst htags hgroup hn (fun hle => ?_)
      (fun hlt => ihsub (by omega) hlt (fun _ => rfl) hwithin) hnext
    by_cases h0 : n = 0
    · exact (hzero h0).1
    · exact ((hsub h0).of_nonpos hle).1

/-! ### The passes of the grammar -/

section Inversion

variable {k : ℕ} {t v : Bytes} {tag : ℤ}

theorem Counted.at_first (h : Counted s grp count k ((t, v) :: pairs) rest)
    (htag : atoi? t = some grp.firstTag) :
    (k : ℤ) < count ∧ Counted s grp count (k + 1) pairs rest := by
  cases h with
  | stop hstop => exact absurd rfl (hstop _ htag).1
  | first hlt _ hrest => exact ⟨hlt, hrest⟩
  | plain _ ht hne | nested _ ht hne =>
    rw [htag] at ht
    cases ht
    exact absurd rfl hne

theorem Counted.at_plain (h : Counted s grp count k ((t, v) :: pairs) rest) (hk : k ≠ 0)
    (htag : atoi? t = some tag) (hfirst : tag ≠ grp.firstTag) (htags : tag ∈ grp.tags)
    (hplain : Assoc.find? tag grp.nestedGroups = none) : Counted s grp count k pairs rest := by
  cases h with
  | stop hstop => exact absurd htags ((hstop _ htag).2 hk)
  | first _ ht =>
    rw [htag] at ht
    exact absurd (Option.some.inj ht) hfirst
  | plain _ _ _ _ _ hrest => exact hrest
  | nested _ ht _ _ hgroup =>
    rw [htag] at ht
    cases ht
    rw [hplain] at hgroup
    cases hgroup

theorem Counted.at_nested (h : Counted s grp count k ((t, v) :: pairs) rest) (hk : k ≠ 0)
    (htag : atoi? t = some tag) (hfirst : tag ≠ grp.firstTag) (htags : tag ∈ grp.tags)
    {ref : GroupRef} (hgroup : Assoc.find? tag grp.nestedGroups = some ref) {n : ℤ}
    (hn : atoi? v = some n) :
    ∃ rest', CountedGroup s (s.groupSpec ref) n pairs rest' ∧ Counted s grp count k rest' rest := by
  cases h with
  | stop hstop => exact absurd htags ((hstop _ htag).2 hk)
  | first _ ht =>
    rw [htag] at ht
    exact absurd (Option.some.inj ht) hfirst
  | plain _ ht _ _ hplain =>
    rw [htag] at ht
    cases ht
    rw [hplain] at hgroup
    cases hgroup
  | nested _ ht _ _ hgroup' hn' hnone hsub hrest =>
    rw [htag] at ht
    cases ht
    rw [hgroup] at hgroup'
    cases hgroup'
    rw [hn] at hn'
    cases hn'
    exact ⟨_, ⟨hnone, hsub⟩, hrest⟩

/-- Where the loop stops with members to spare, so does the grammar. -/
theorem Counted.at_stop (h : Counted s grp count k pairs rest) {closed : ℕ} {isOpen : Bool}
    (hfull : (closed : ℤ) < count) (hopen : k ≠ 0 → isOpen = true)
    (hstop : LoopStops grp count closed isOpen pairs) : rest = pairs := by
  cases h with
  | nil | stop => rfl
  | first _ ht => exact absurd rfl (hstop.resolve_left (not_not.mpr hfull) _ ht).1
  | plain hk ht _ htags | nested hk ht _ htags =>
    exact absurd htags ((hstop.resolve_left (not_not.mpr hfull) _ ht).2 (hopen hk))

end Inversion

/-- A group read by the grammar keeps to its count. -/
theorem LoopRun.within (h : LoopRun s grp count pairs ms cur rest out) {k : ℕ}
    {rest' : List Pair} (hcounted : Counted s grp count k pairs rest')
    (hk : k = (ms ++ cur.toList).length) (hpos : 0 < count) (hcur : cur = none → ms = [])
    (hms : WithinCount count (ms ++ cur.toList)) : rest' = rest ∧ WithinCount count out := by
  induction h generalizing k rest' with
  | @stop grp count pairs ms cur hstop =>
    obtain ⟨hfull, hopen⟩ : (ms.length : ℤ) < count ∧ (k ≠ 0 → cur.isSome = true) := by
      have hlen := hms.1
      rw [List.length_append] at hk hlen
      cases cur with
      | none =>
        obtain rfl := hcur rfl
        exact ⟨hpos, fun hne => absurd hk hne⟩
      | some m =>
        rw [Option.toList_some, List.length_singleton] at hlen
        exact ⟨by omega, fun _ => rfl⟩
    exact ⟨hcounted.at_stop hfull hopen hstop, hms⟩
  | first hcount htag hrest ih =>
    obtain ⟨hlt, hrest'⟩ := hcounted.at_first htag
    refine ih hrest' ?_ hpos (fun h => absurd h (Option.some_ne_none _)) ?_
    · rw [length_open, hk]
    · refine ⟨?_, fun m hm => ?_⟩
      · rw [List.length_append, ← hk, Option.toList_some, List.length_singleton]
        omega
      · rcases List.mem_append.mp hm with hm | hm
        · exact hms.2 m hm
        · rw [List.mem_singleton.mp hm]
          exact .leaf _ _
  | plain _ htag hfirst htags hplain _ ih =>
    have hk0 : k ≠ 0 := by simp [hk]
    exact ih (hcounted.at_plain hk0 htag hfirst htags hplain) (by simp [hk]) hpos
      (fun h => absurd h (Option.some_ne_none _)) (hms.concat (.leaf _ _))
  | @nested grp count n t v tag ref pairs rest₁ rest ms sub out m _ htag hfirst htags hgroup hn
      hzero hsub _ ihsub ih =>
    have hk0 : k ≠ 0 := by simp [hk]
    obtain ⟨rest₂, hsub', hrest'⟩ := hcounted.at_nested hk0 htag hfirst htags hgroup hn
    obtain ⟨rfl, hwithin⟩ : rest₂ = rest₁ ∧ WithinCount n sub := by
      by_cases hle : n ≤ 0
      · have hrun : rest₁ = pairs ∧ sub = [] := by
          by_cases h0 : n = 0
          · exact hzero h0
          · exact (hsub h0).of_nonpos hle
        obtain ⟨rfl, rfl⟩ := hrun
        exact ⟨hsub'.1 hle, withinCount_nil n⟩
      · exact ihsub (by omega) (hsub'.2 (not_le.mp hle)) rfl (not_le.mp hle) (fun _ => rfl)
          (withinCount_nil n)
    exact ih hrest' (by simp [hk]) hpos (fun h => absurd h (Option.some_ne_none _))
      (hms.concat (.group hn hwithin _ _))

end LoopRun

/-! ## Groups and messages -/

theorem GroupRun.within_of_counted {s : FixSpec} {grp : GroupSpec} {count : ℤ}
    {pairs rest rest' : List Pair} {ms : List Forest} (h : GroupRun s grp count pairs rest ms)
    (hcounted : CountedGroup s grp count pairs rest') : rest' = rest ∧ WithinCount count ms := by
  by_cases hle : count ≤ 0
  · have hrun : rest = pairs ∧ ms = [] := by
      by_cases h0 : count = 0
      · exact h.1 h0
      · exact (h.2 h0).of_nonpos hle
    obtain ⟨rfl, rfl⟩ := hrun
    exact ⟨hcounted.1 hle, withinCount_nil count⟩
  · have hpos := not_le.mp hle
    exact (h.2 hpos.ne').within (hcounted.2 hpos) rfl hpos (fun _ => rfl) (withinCount_nil count)

theorem GroupRun.counted_of_within {s : FixSpec} {grp : GroupSpec} {count : ℤ}
    {pairs rest : List Pair} {ms : List Forest} (h : GroupRun s grp count pairs rest ms)
    (hwithin : WithinCount count ms) : CountedGroup s grp count pairs rest := by
  refine ⟨fun hle => ?_, fun hpos => (h.2 hpos.ne').counted hpos (fun _ => rfl) hwithin⟩
  by_cases h0 : count = 0
  · exact (h.1 h0).1
  · exact ((h.2 h0).of_nonpos hle).1

theorem Forest.Within.tail {e : ℤ × Item} {F : Forest} (h : Forest.Within (e :: F)) :
    Forest.Within F := by
  obtain ⟨hcount, hmembers⟩ := h
  exact .mk (fun t c k ms hm => hcount t c k ms (List.mem_cons_of_mem _ hm))
    fun t c k ms hm => hmembers t c k ms (List.mem_cons_of_mem _ hm)

/-- The group at the head of a forest. -/
theorem Forest.Within.head {t k : ℤ} {c : Bytes} {ms : List Forest} {F : Forest}
    (h : Forest.Within ((t, .group c k ms) :: F)) {n : ℤ} (hn : atoi? c = some n) :
    WithinCount n ms := by
  obtain ⟨hcount, hmembers⟩ := h
  obtain ⟨n', hn', hlen⟩ := hcount t c k ms List.mem_cons_self
  rw [hn] at hn'
  cases hn'
  exact ⟨hlen, hmembers t c k ms List.mem_cons_self⟩

/-- **The groups of a message keep to their counts exactly on the wires of the grammar.** -/
theorem FieldsRun.within_iff {s : FixSpec} {groups : List (ℤ × GroupRef)} {pairs : List Pair}
    {G : Forest} (h : FieldsRun s groups pairs G) : G.Within ↔ CountedFields s groups pairs := by
  constructor
  · intro hG
    induction h with
    | nil => exact .nil
    | skip htag _ ih => exact .skip htag (ih hG)
    | plain htag hplain _ ih => exact .plain htag hplain (ih hG.tail)
    | group htag hgroup hn hsub _ ih =>
      exact .group htag hgroup hn (hsub.counted_of_within (hG.head hn)) (ih hG.tail)
  · intro hcounted
    induction h with
    | nil => exact .nil
    | skip htag _ ih =>
      cases hcounted with
      | skip _ hrest => exact ih hrest
      | plain ht | group ht =>
        rw [htag] at ht
        cases ht
    | plain htag hplain _ ih =>
      cases hcounted with
      | skip ht =>
        rw [htag] at ht
        cases ht
      | plain _ _ hrest => exact .append (.leaf _ _) (ih hrest)
      | group ht hgroup =>
        rw [htag] at ht
        cases ht
        rw [hplain] at hgroup
        cases hgroup
    | group htag hgroup hn hsub _ ih =>
      cases hcounted with
      | skip ht =>
        rw [htag] at ht
        cases ht
      | plain ht hplain =>
        rw [htag] at ht
        cases ht
        rw [hplain] at hgroup
        cases hgroup
      | group ht hgroup' hn' hsub' hrest =>
        rw [htag] at ht
        cases ht
        rw [hgroup] at hgroup'
        cases hgroup'
        rw [hn] at hn'
        cases hn'
        obtain ⟨rfl, hwithin⟩ := hsub.within_of_counted hsub'
        exact .append (.group hn hwithin _ _) (ih hrest)

/-- A forest of plain fields has no group to count. -/
theorem within_leaves (l : List Field) : Forest.Within (l.map fun e => (e.1, .leaf e.2)) := by
  induction l with
  | nil => exact .nil
  | cons e l ih => exact .append (.leaf e.1 e.2) ih

theorem Codec.ReadAs.within_iff {c : Codec} {buf : Bytes} {G : Forest} (h : c.ReadAs buf G) :
    G.Within ↔ c.CountedBuffer buf := by
  obtain ⟨pairs, hpairs, hrun⟩ := h
  unfold Codec.CountedBuffer
  simp only [hpairs, Except.ok.injEq, forall_eq']
  cases hd : c.dispatches pairs with
  | none =>
    rw [hd] at hrun
    rw [hrun]
    refine iff_of_true (within_leaves _) fun s msgSpec hs => ?_
    cases hs
  | some d =>
    obtain ⟨s, msgSpec⟩ := d
    rw [hd] at hrun
    rw [hrun.within_iff]
    refine ⟨fun hc s' msgSpec' hs => ?_, fun hc => hc s msgSpec rfl⟩
    cases hs
    exact hc

/-! ## The members of a message and the count fields of its wire

A fragment has no count fields any more, only groups.  Each of its groups, at any depth, is what a
group of the forest became, with as many members. -/

/-- What stands under a tag of a fragment is what an item became. -/
theorem exists_item_of_collapseOn {F : Forest} {f : FixFragment} {t : ℤ} {v : Value}
    (h : (t, v) ∈ Forest.collapseOn F f) :
    (t, v) ∈ f ∨ ∃ i, (t, i) ∈ F ∧ v = Forest.itemValue t i := by
  induction F generalizing f with
  | nil => exact Or.inl h
  | cons e F ih =>
    obtain ⟨u, i⟩ := e
    rcases ih h with h | ⟨j, hj, hv⟩
    · rcases Assoc.mem_insert h with heq | h
      · cases heq
        exact Or.inr ⟨i, List.mem_cons_self, rfl⟩
      · exact Or.inl h
    · exact Or.inr ⟨j, List.mem_cons_of_mem _ hj, hv⟩

/-- A group of a collapsed forest is a group of the forest. -/
theorem exists_group_of_collapse {F : Forest} {t n k : ℤ} {ms : List FixFragment}
    (h : (t, Value.group n k ms) ∈ collapse F) :
    ∃ c k' ms', (t, Item.group c k' ms') ∈ F ∧ ms = ms'.map collapse := by
  rcases exists_item_of_collapseOn h with h | ⟨i, hi, hv⟩
  · exact absurd h List.not_mem_nil
  · cases i with
    | leaf v => cases hv
    | group c k' ms' =>
      rw [Forest.itemValue, Forest.collapseMembers_eq] at hv
      cases hv
      exact ⟨c, k, ms', hi, rfl⟩

/-- **Every group of the message, at every depth, has at most as many members as a count field of
its tag says.** -/
theorem Forest.Within.members_le {F : Forest} (h : F.Within) {g : FixFragment}
    (hg : g ∈ (collapse F).fragments) {t n k : ℤ} {ms : List FixFragment}
    (hmem : (t, Value.group n k ms) ∈ g) :
    ∃ c m, (t, c) ∈ Forest.flatten F ∧ atoi? c = some m ∧ (ms.length : ℤ) ≤ max m 0 := by
  induction F using Forest.induction generalizing g t n k ms with
  | step F ih =>
    obtain ⟨hcount, hmembers⟩ := h
    have hfields : ∀ {u c k' ms' e}, (u, Item.group c k' ms') ∈ F →
        e ∈ Forest.itemFields u (.group c k' ms') → e ∈ Forest.flatten F := by
      intro u c k' ms' e hitem he
      rw [Forest.flatten_eq]
      exact List.mem_flatMap.mpr ⟨_, hitem, he⟩
    rcases mem_fragments_cases hg with rfl | ⟨u, n', k', ms', hu, m', hm', hin⟩
    · obtain ⟨c, k', ms', hitem, rfl⟩ := exists_group_of_collapse hmem
      obtain ⟨m, hm, hlen⟩ := hcount t c k' ms' hitem
      exact ⟨c, m, hfields hitem List.mem_cons_self, hm, by rwa [List.length_map]⟩
    · obtain ⟨c, k₁, ms₁, hitem, rfl⟩ := exists_group_of_collapse hu
      obtain ⟨F', hF', rfl⟩ := List.mem_map.mp hm'
      obtain ⟨c', m, hc', hm, hlen⟩ :=
        ih u c k₁ ms₁ hitem F' hF' (hmembers u c k₁ ms₁ hitem F' hF') hin hmem
      refine ⟨c', m, hfields hitem (List.mem_cons_of_mem _ ?_), hm, hlen⟩
      rw [Forest.membersFields_eq]
      exact List.mem_flatMap.mpr ⟨F', hF', hc'⟩

/-! ## When groups keep to their counts

The condition is on the pairs alone, as a grammar that reads them once from the front.  It says of
no group how many members the loop gives it. -/

/-- **A group, and every group inside it, keeps to its count exactly if the wire is in the grammar**:
no FirstTag stands behind the last member the count allows.  So it is for the groups of a buffer
that `Parse` accepts. -/
theorem groups_within_count_iff (s : FixSpec) (c : Codec) :
    (∀ (grp : GroupSpec) (count : ℤ) (pairs rest : List Pair) (out : List FixFragment),
      parseGroup s grp count pairs = .ok (rest, out) →
        (∃ ms, GroupRun s grp count pairs rest ms ∧ out = ms.map collapse)
          ∧ ∀ ms, GroupRun s grp count pairs rest ms →
            (WithinCount count ms ↔ ∃ rest', CountedGroup s grp count pairs rest'))
      ∧ ∀ (buf : Bytes) (g : FixFragment), c.parse buf = .ok g →
        (∃ G, c.ReadAs buf G ∧ g = collapse G)
          ∧ ∀ G, c.ReadAs buf G → (G.Within ↔ c.CountedBuffer buf) := by
  constructor
  · intro grp count pairs rest out h
    refine ⟨parseGroup_iff_run.mp h, fun ms hrun => ⟨fun hw => ⟨rest, hrun.counted_of_within hw⟩, ?_⟩⟩
    rintro ⟨rest', hcounted⟩
    exact (hrun.within_of_counted hcounted).2
  · intro buf g h
    exact ⟨Codec.parse_iff_readAs.mp h, fun G hG => hG.within_iff⟩

/-- Two parties on the wire. -/
def twoParties : List Pair := [(ascii "448", ascii "A"), (ascii "448", ascii "B")]

/-- Two parties keep to a count of two. -/
theorem groups_within_count_iff_two :
    ∃ ms, GroupRun partySpec parties 2 twoParties [] ms
      ∧ ms.map collapse = [[(448, .str (ascii "A"))], [(448, .str (ascii "B"))]]
      ∧ WithinCount 2 ms := by
  obtain ⟨⟨ms, hrun, hms⟩, hiff⟩ := (groups_within_count_iff partySpec (Codec.new none)).1 parties
    2 twoParties [] [[(448, .str (ascii "A"))], [(448, .str (ascii "B"))]] rfl
  refine ⟨ms, hrun, hms.symm, (hiff ms hrun).mpr ⟨[], fun h => absurd h (by decide), fun _ => ?_⟩⟩
  exact .first (by decide) rfl (.first (by decide) rfl .nil)

/-- Two parties behind a count of one are both taken, from the pairs and from the buffer. -/
theorem two_parties_for_one :
    parseGroup partySpec parties 1 twoParties
        = .ok ([], [[(448, .str (ascii "A"))], [(448, .str (ascii "B"))]])
      ∧ (Codec.new (some partySpec)).parse
          (wireText soh [(35, ascii "D"), (453, ascii "1"), (448, ascii "A"), (448, ascii "B")])
        = .ok [(35, .str (ascii "D")),
          (453, .group 453 448 [[(448, .str (ascii "A"))], [(448, .str (ascii "B"))]])]
      ∧ ¬ ∀ (s : FixSpec) (grp : GroupSpec) (count : ℤ) (pairs rest : List Pair)
          (out : List FixFragment), parseGroup s grp count pairs = .ok (rest, out) →
          (out.length : ℤ) ≤ max count 0 := by
  have hread : parseGroup partySpec parties 1 twoParties
      = .ok ([], [[(448, .str (ascii "A"))], [(448, .str (ascii "B"))]]) := by rfl
  refine ⟨hread, by rfl, fun hall => ?_⟩
  exact absurd (hall _ _ _ _ _ _ hread) (by decide)

end FixMsg
