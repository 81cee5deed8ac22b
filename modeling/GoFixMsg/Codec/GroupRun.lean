import GoFixMsg.Codec.Forest

/-!
# Codec/GroupRun — the runs of the parser as derivations

`parseGroup` returns the members of a group and forgets how it came by them.  A `LoopRun` is one run
of its loop, pass by pass, with the runs of the nested groups inside it, and yields the forest that
was read.  The loop returns something exactly when there is a run, and returns the collapse of what
the run reads (`parseGroup_iff_run`, `parse_iff_readAs`).

What a run reads are the fields of the pairs it takes, in groups whose members begin with FirstTag
(`LoopRun.reads`); so the parser is sound (`memberLoop_sound`, `dispatchPairs_sound`).
-/

open GoLang

namespace FixMsg

open Forest (collapse itemValue)

/-- What stops the loop: there are no more pairs, enough members are closed, or the tag belongs
neither to the group nor to an open member. -/
def LoopStops (grp : GroupSpec) (count : ℤ) (closed : ℕ) (isOpen : Bool) : List Pair → Prop
  | [] => True
  | (t, _) :: _ =>
      ¬ (closed : ℤ) < count
        ∨ ∀ tag, atoi? t = some tag → tag ≠ grp.firstTag ∧ (isOpen = true → tag ∉ grp.tags)

/-- **A run of the loop of `parseGroup`**, from the members closed so far and the open one to the
pairs left and the members read. -/
inductive LoopRun (s : FixSpec) : GroupSpec → ℤ → List Pair → List Forest → Option Forest →
    List Pair → List Forest → Prop
  | stop {grp : GroupSpec} {count : ℤ} {pairs : List Pair} {ms : List Forest} {cur : Option Forest}
      (h : LoopStops grp count ms.length cur.isSome pairs) :
      LoopRun s grp count pairs ms cur pairs (ms ++ cur.toList)
  | first {grp : GroupSpec} {count : ℤ} {t v : Bytes} {pairs rest : List Pair}
      {ms out : List Forest} {cur : Option Forest} (hcount : (ms.length : ℤ) < count)
      (htag : atoi? t = some grp.firstTag)
      (hrest : LoopRun s grp count pairs (ms ++ cur.toList) (some [(grp.firstTag, .leaf v)])
        rest out) :
      LoopRun s grp count ((t, v) :: pairs) ms cur rest out
  | plain {grp : GroupSpec} {count : ℤ} {t v : Bytes} {tag : ℤ} {pairs rest : List Pair}
      {ms out : List Forest} {m : Forest} (hcount : (ms.length : ℤ) < count)
      (htag : atoi? t = some tag) (hfirst : tag ≠ grp.firstTag) (htags : tag ∈ grp.tags)
      (hplain : Assoc.find? tag grp.nestedGroups = none)
      (hrest : LoopRun s grp count pairs ms (some (m ++ [(tag, .leaf v)])) rest out) :
      LoopRun s grp count ((t, v) :: pairs) ms (some m) rest out
  | nested {grp : GroupSpec} {count n : ℤ} {t v : Bytes} {tag : ℤ} {ref : GroupRef}
      {pairs rest' rest : List Pair} {ms sub out : List Forest} {m : Forest}
      (hcount : (ms.length : ℤ) < count) (htag : atoi? t = some tag) (hfirst : tag ≠ grp.firstTag)
      (htags : tag ∈ grp.tags) (hgroup : Assoc.find? tag grp.nestedGroups = some ref)
      (hn : atoi? v = some n) (hzero : n = 0 → rest' = pairs ∧ sub = [])
      (hsub : n ≠ 0 → LoopRun s (s.groupSpec ref) n pairs [] none rest' sub)
      (hrest : LoopRun s grp count rest' ms
        (some (m ++ [(tag, .group v (s.groupSpec ref).firstTag sub)])) rest out) :
      LoopRun s grp count ((t, v) :: pairs) ms (some m) rest out

/-- **A run of `parseGroup`**: none of its loop for a count of zero. -/
def GroupRun (s : FixSpec) (grp : GroupSpec) (count : ℤ) (pairs rest : List Pair)
    (ms : List Forest) : Prop :=
  (count = 0 → rest = pairs ∧ ms = []) ∧ (count ≠ 0 → LoopRun s grp count pairs [] none rest ms)

/-- **A run of the dispatch loop**, with the forest it reads. -/
inductive FieldsRun (s : FixSpec) (groups : List (ℤ × GroupRef)) : List Pair → Forest → Prop
  | nil : FieldsRun s groups [] []
  | skip {t v : Bytes} {pairs : List Pair} {G : Forest} (htag : atoi? t = none)
      (hrest : FieldsRun s groups pairs G) : FieldsRun s groups ((t, v) :: pairs) G
  | plain {t v : Bytes} {tag : ℤ} {pairs : List Pair} {G : Forest} (htag : atoi? t = some tag)
      (hplain : Assoc.find? tag groups = none) (hrest : FieldsRun s groups pairs G) :
      FieldsRun s groups ((t, v) :: pairs) ((tag, .leaf v) :: G)
  | group {t v : Bytes} {tag n : ℤ} {ref : GroupRef} {pairs rest : List Pair} {ms : List Forest}
      {G : Forest} (htag : atoi? t = some tag) (hgroup : Assoc.find? tag groups = some ref)
      (hn : atoi? v = some n) (hsub : GroupRun s (s.groupSpec ref) n pairs rest ms)
      (hrest : FieldsRun s groups rest G) :
      FieldsRun s groups ((t, v) :: pairs) ((tag, .group v (s.groupSpec ref).firstTag ms) :: G)

/-! ## The group loop and its runs

One direction evaluates: a run is what the loop computes, given enough fuel.  The other is an
induction over the pairs, which looks at what the loop does with the first of them. -/

section GroupLoop

variable {s : FixSpec} {grp : GroupSpec} {count : ℤ} {pairs rest : List Pair}

theorem parseGroup_zero (s : FixSpec) (grp : GroupSpec) (pairs : List Pair) :
    parseGroup s grp 0 pairs = .ok (pairs, []) := if_pos rfl

/-- The loop returns where it stops. -/
theorem memberLoop_stops {members : List FixFragment} {current : Option FixFragment}
    (h : LoopStops grp count members.length current.isSome pairs) :
    memberLoop s grp count pairs members current = .ok (pairs, members ++ current.toList) := by
  cases pairs with
  | nil => exact memberLoop_nil _
  | cons p pairs =>
    obtain ⟨t, v⟩ := p
    by_cases hcount : (members.length : ℤ) < count
    · have htag := h.resolve_left (not_not.mpr hcount)
      cases current with
      | some cur => exact memberLoop_stop fun tag ht => ⟨(htag tag ht).1, (htag tag ht).2 rfl⟩
      | none =>
        rw [memberLoop, groupLoop, if_neg (not_not.mpr hcount)]
        cases ht : atoi? t with
        | none => rfl
        | some tag =>
          dsimp only
          rw [if_neg (htag tag ht).1, Option.toList_none, List.append_nil]
    · exact memberLoop_full hcount

/-- A run of `parseGroup` is what it computes, if the runs of its loop are. -/
theorem parseGroup_of_run {ms : List Forest} (hzero : count = 0 → rest = pairs ∧ ms = [])
    (hloop : count ≠ 0 → memberLoop s grp count pairs [] none = .ok (rest, ms.map collapse)) :
    parseGroup s grp count pairs = .ok (rest, ms.map collapse) := by
  by_cases h : count = 0
  · obtain ⟨rfl, rfl⟩ := hzero h
    rw [h, parseGroup_zero, List.map_nil]
  · rw [parseGroup_of_ne_zero s grp h, hloop h]

/-- Closing the open member. -/
theorem map_collapse_closed (ms : List Forest) (cur : Option Forest) :
    (ms ++ cur.toList).map collapse = ms.map collapse ++ (cur.map collapse).toList := by
  cases cur <;> simp

/-- **A run of the loop is what the loop computes.** -/
theorem LoopRun.eval {ms out : List Forest} {cur : Option Forest}
    (h : LoopRun s grp count pairs ms cur rest out) :
    memberLoop s grp count pairs (ms.map collapse) (cur.map collapse)
      = .ok (rest, out.map collapse) := by
  induction h with
  | stop h =>
    rw [map_collapse_closed]
    exact memberLoop_stops (by rwa [List.length_map, Option.isSome_map])
  | first hcount htag _ ih =>
    rw [memberLoop_first (by rwa [List.length_map]) htag rfl, ← map_collapse_closed]
    exact ih
  | plain hcount htag hfirst htags hplain _ ih =>
    rw [Option.map_some, memberLoop_plain (by rwa [List.length_map]) htag hfirst htags hplain]
    rw [Option.map_some, Forest.collapse_concat] at ih
    exact ih
  | nested hcount htag hfirst htags hgroup hn hzero _ _ ihsub ih =>
    rw [Option.map_some, memberLoop_nested (by rwa [List.length_map]) htag hfirst htags hgroup, hn]
    dsimp only
    rw [parseGroup_of_run hzero ihsub]
    rw [Option.map_some, Forest.collapse_concat, itemValue, Forest.collapseMembers_eq] at ih
    exact ih

theorem GroupRun.eval {ms : List Forest} (h : GroupRun s grp count pairs rest ms) :
    parseGroup s grp count pairs = .ok (rest, ms.map collapse) :=
  parseGroup_of_run h.1 fun hne => (h.2 hne).eval

/-- The loop runs on these pairs whenever it returns, whatever it has read before. -/
def LoopRuns (s : FixSpec) (grp : GroupSpec) (count : ℤ) (pairs : List Pair) : Prop :=
  ∀ {rest : List Pair} {ms : List Forest} {cur : Option Forest} {out : List FixFragment},
    memberLoop s grp count pairs (ms.map collapse) (cur.map collapse) = .ok (rest, out) →
    ∃ out', LoopRun s grp count pairs ms cur rest out' ∧ out = out'.map collapse

/-- `parseGroup` has run whenever it returns, if its loop has. -/
theorem LoopRuns.group (hloop : LoopRuns s grp count pairs) {out : List FixFragment}
    (h : parseGroup s grp count pairs = .ok (rest, out)) :
    ∃ ms, GroupRun s grp count pairs rest ms ∧ out = ms.map collapse := by
  by_cases hzero : count = 0
  · rw [hzero, parseGroup_zero] at h
    cases h
    exact ⟨[], ⟨fun _ => ⟨rfl, rfl⟩, fun hne => absurd hzero hne⟩, rfl⟩
  · rw [parseGroup_of_ne_zero s grp hzero] at h
    obtain ⟨ms, hrun, hout⟩ := @hloop rest [] none out h
    exact ⟨ms, ⟨fun he => absurd he hzero, fun _ => hrun⟩, hout⟩

/-- **Whatever the loop returns, it has run for it.** -/
theorem loopRuns : LoopRuns s grp count pairs := by
  induction hlen : pairs.length using Nat.strongRecOn generalizing grp count pairs with
  | ind len ih =>
    intro rest ms cur out h
    by_cases hstop : LoopStops grp count ms.length cur.isSome pairs
    · rw [memberLoop_stops (by rwa [List.length_map, Option.isSome_map])] at h
      obtain ⟨rfl, rfl⟩ := Prod.mk.inj (Except.ok.inj h)
      exact ⟨_, .stop hstop, (map_collapse_closed ms cur).symm⟩
    cases pairs with
    | nil => exact absurd trivial hstop
    | cons p pairs =>
      obtain ⟨t, v⟩ := p
      rw [List.length_cons] at hlen
      rw [LoopStops, not_or, not_not] at hstop
      obtain ⟨hcount, hstop⟩ := hstop
      have hcount' : ((ms.map collapse).length : ℤ) < count := by rwa [List.length_map]
      obtain ⟨tag, hstop⟩ := not_forall.mp hstop
      obtain ⟨htag, htaken⟩ := Classical.not_imp.mp hstop
      by_cases hfirst : tag = grp.firstTag
      · rw [memberLoop_first hcount' htag hfirst, ← map_collapse_closed] at h
        subst hfirst
        obtain ⟨out', hrun, hout⟩ := @ih pairs.length (by omega) grp count pairs rfl rest
          (ms ++ cur.toList) (some [(grp.firstTag, .leaf v)]) out h
        exact ⟨out', .first hcount htag hrun, hout⟩
      · obtain ⟨hopen, htags⟩ := Classical.not_imp.mp fun hno => htaken ⟨hfirst, hno⟩
        have htags := not_not.mp htags
        obtain ⟨m, rfl⟩ := Option.isSome_iff_exists.mp hopen
        cases hgroup : Assoc.find? tag grp.nestedGroups with
        | none =>
          rw [Option.map_some, memberLoop_plain hcount' htag hfirst htags hgroup] at h
          obtain ⟨out', hrun, hout⟩ := @ih pairs.length (by omega) grp count pairs rfl rest ms
            (some (m ++ [(tag, .leaf v)])) out
            (by rw [Option.map_some, Forest.collapse_concat]; exact h)
          exact ⟨out', .plain hcount htag hfirst htags hgroup hrun, hout⟩
        | some ref =>
          obtain ⟨n, rest', sub, hn, hr, h⟩ :=
            memberLoop_nested_ok hcount' htag hfirst htags hgroup h
          have hle := length_parseGroup_le s hr
          obtain ⟨sub', hsub, rfl⟩ := LoopRuns.group (ih pairs.length (by omega) rfl) hr
          obtain ⟨out', hrun, hout⟩ := @ih rest'.length (by omega) grp count rest' rfl rest ms
            (some (m ++ [(tag, .group v (s.groupSpec ref).firstTag sub')])) out
            (by
              rw [Option.map_some, Forest.collapse_concat, itemValue, Forest.collapseMembers_eq]
              exact h)
          exact ⟨out', .nested hcount htag hfirst htags hgroup hn hsub.1 hsub.2 hrun, hout⟩

/-- **What has been read stays**: the open member begins the member behind the closed ones. -/
theorem LoopRun.persists {ms out : List Forest} {cur : Option Forest}
    (h : LoopRun s grp count pairs ms cur rest out) :
    ∀ m ∈ cur, ∃ m' tail, out = ms ++ m' :: tail ∧ m <+: m' := by
  induction h with
  | stop _ =>
    intro m hm
    obtain rfl := Option.mem_def.mp hm
    exact ⟨m, [], rfl, List.prefix_refl m⟩
  | first _ _ _ ih =>
    intro m hm
    obtain rfl := Option.mem_def.mp hm
    obtain ⟨m', tail, rfl, -⟩ := ih _ rfl
    exact ⟨m, m' :: tail, by simp, List.prefix_refl m⟩
  | plain _ _ _ _ _ _ ih | nested _ _ _ _ _ _ _ _ _ _ ih =>
    intro m hm
    obtain rfl := Option.some.inj (Option.mem_def.mp hm)
    obtain ⟨m', tail, hout, hext⟩ := ih _ rfl
    exact ⟨m', tail, hout, (List.prefix_append _ _).trans hext⟩

/-! ### The passes of a run -/

section Inversion

variable {t v : Bytes} {tag : ℤ} {ms out : List Forest} {cur : Option Forest} {m : Forest}

/-- The loop does not stop at a tag it takes. -/
theorem not_loopStops {closed : ℕ} {isOpen : Bool} (hcount : (closed : ℤ) < count)
    (htag : atoi? t = some tag) (htaken : tag = grp.firstTag ∨ isOpen = true ∧ tag ∈ grp.tags) :
    ¬ LoopStops grp count closed isOpen ((t, v) :: pairs) := by
  rintro (hfull | hstop)
  · exact hfull hcount
  · rcases htaken with hfirst | ⟨hopen, htags⟩
    · exact (hstop tag htag).1 hfirst
    · exact (hstop tag htag).2 hopen htags

theorem LoopRun.at_first (h : LoopRun s grp count ((t, v) :: pairs) ms cur rest out)
    (hcount : (ms.length : ℤ) < count) (htag : atoi? t = some grp.firstTag) :
    LoopRun s grp count pairs (ms ++ cur.toList) (some [(grp.firstTag, .leaf v)]) rest out := by
  cases h with
  | stop hstop => exact absurd hstop (not_loopStops hcount htag (Or.inl rfl))
  | first _ _ hrest => exact hrest
  | plain _ ht hfirst | nested _ ht hfirst =>
    rw [htag] at ht
    exact absurd (Option.some.inj ht).symm hfirst

theorem LoopRun.at_plain (h : LoopRun s grp count ((t, v) :: pairs) ms (some m) rest out)
    (hcount : (ms.length : ℤ) < count) (htag : atoi? t = some tag) (hfirst : tag ≠ grp.firstTag)
    (htags : tag ∈ grp.tags) (hplain : Assoc.find? tag grp.nestedGroups = none) :
    LoopRun s grp count pairs ms (some (m ++ [(tag, .leaf v)])) rest out := by
  cases h with
  | stop hstop => exact absurd hstop (not_loopStops hcount htag (Or.inr ⟨rfl, htags⟩))
  | first _ ht =>
    rw [htag] at ht
    exact absurd (Option.some.inj ht) hfirst
  | plain _ ht _ _ _ hrest =>
    rw [htag] at ht
    cases ht
    exact hrest
  | nested _ ht _ _ hgroup =>
    rw [htag] at ht
    cases ht
    rw [hplain] at hgroup
    cases hgroup

theorem LoopRun.at_nested (h : LoopRun s grp count ((t, v) :: pairs) ms (some m) rest out)
    (hcount : (ms.length : ℤ) < count) (htag : atoi? t = some tag) (hfirst : tag ≠ grp.firstTag)
    (htags : tag ∈ grp.tags) {ref : GroupRef}
    (hgroup : Assoc.find? tag grp.nestedGroups = some ref) {n : ℤ} (hn : atoi? v = some n) :
    ∃ rest' sub, GroupRun s (s.groupSpec ref) n pairs rest' sub
      ∧ LoopRun s grp count rest' ms
        (some (m ++ [(tag, .group v (s.groupSpec ref).firstTag sub)])) rest out := by
  cases h with
  | stop hstop => exact absurd hstop (not_loopStops hcount htag (Or.inr ⟨rfl, htags⟩))
  | first _ ht =>
    rw [htag] at ht
    exact absurd (Option.some.inj ht) hfirst
  | plain _ ht _ _ hplain =>
    rw [htag] at ht
    cases ht
    rw [hplain] at hgroup
    cases hgroup
  | nested _ ht _ _ hgroup' hn' hzero hsub hrest =>
    rw [htag] at ht
    cases ht
    rw [hgroup] at hgroup'
    cases hgroup'
    rw [hn] at hn'
    cases hn'
    exact ⟨_, _, ⟨hzero, hsub⟩, hrest⟩

end Inversion

/-- **`parseGroup` and its runs.** -/
theorem parseGroup_iff_run {out : List FixFragment} :
    parseGroup s grp count pairs = .ok (rest, out)
      ↔ ∃ ms, GroupRun s grp count pairs rest ms ∧ out = ms.map collapse := by
  constructor
  · exact loopRuns.group
  · rintro ⟨ms, hrun, rfl⟩
    exact hrun.eval

/-! ### What a run reads -/

/-- The fields of the open member come last. -/
theorem membersFields_concat (ms : List Forest) (m : Forest) :
    Forest.membersFields (ms ++ (some m).toList) = Forest.membersFields ms ++ Forest.flatten m := by
  rw [Forest.membersFields_eq, Forest.membersFields_eq]
  simp

section Members

variable {ms : List Forest} {m : Forest}

theorem members_open (hms : ∀ m ∈ ms, Forest.Member s grp m) (hm : Forest.Member s grp m) :
    ∀ m' ∈ ms ++ (some m).toList, Forest.Member s grp m' := by
  intro m' hm'
  rcases List.mem_append.mp hm' with hm' | hm'
  · exact hms m' hm'
  · exact List.mem_singleton.mp hm' ▸ hm

theorem members_of_open (h : ∀ m' ∈ ms ++ (some m).toList, Forest.Member s grp m') :
    (∀ m' ∈ ms, Forest.Member s grp m') ∧ Forest.Member s grp m :=
  ⟨fun m' hm' => h m' (List.mem_append_left _ hm'),
    h m (List.mem_append_right _ List.mem_cons_self)⟩

end Members

/-- **A run reads the fields of the pairs it takes**, one after the other, into members that begin
with FirstTag.  A group inside a member has read its own. -/
theorem LoopRun.reads {ms out : List Forest} {cur : Option Forest}
    (h : LoopRun s grp count pairs ms cur rest out)
    (hms : ∀ m ∈ ms ++ cur.toList, Forest.Member s grp m) :
    (∀ m ∈ out, Forest.Member s grp m) ∧ ∃ used, pairs = used ++ rest
      ∧ (Forest.membersFields (ms ++ cur.toList)).map some ++ used.map Forest.fieldOf
        = (Forest.membersFields out).map some := by
  induction h with
  | stop _ => exact ⟨hms, [], rfl, by rw [List.map_nil, List.append_nil]⟩
  | @first grp count t v pairs rest ms out cur hcount htag _ ih =>
    have hnew : Forest.Member s grp [(grp.firstTag, .leaf v)] := ⟨⟨v, [], rfl⟩, .nil⟩
    obtain ⟨hout, used, rfl, hread⟩ := ih (members_open hms hnew)
    refine ⟨hout, (t, v) :: used, rfl, ?_⟩
    rw [← hread, membersFields_concat, List.map_cons, Forest.fieldOf_of_atoi? htag]
    simp [Forest.flatten, Forest.itemFields]
  | @plain grp count t v tag pairs rest ms out m hcount htag hfirst htags hplain _ ih =>
    obtain ⟨hclosed, hm⟩ := members_of_open hms
    obtain ⟨hout, used, rfl, hread⟩ := ih (members_open hclosed (hm.concat (.leaf hplain .nil)))
    refine ⟨hout, (t, v) :: used, rfl, ?_⟩
    rw [← hread, membersFields_concat, membersFields_concat, Forest.flatten_append, List.map_cons,
      Forest.fieldOf_of_atoi? htag]
    simp [Forest.flatten, Forest.itemFields]
  | @nested grp count n t v tag ref pairs rest' rest ms sub out m hcount htag hfirst htags hgroup hn
      hzero _ _ ihsub ih =>
    obtain ⟨hclosed, hm⟩ := members_of_open hms
    obtain ⟨hsub, used, rfl, hread⟩ : (∀ m ∈ sub, Forest.Member s (s.groupSpec ref) m)
        ∧ ∃ used, pairs = used ++ rest'
          ∧ used.map Forest.fieldOf = (Forest.membersFields sub).map some := by
      by_cases h0 : n = 0
      · obtain ⟨rfl, rfl⟩ := hzero h0
        exact ⟨fun _ h => absurd h List.not_mem_nil, [], rfl, rfl⟩
      · exact ihsub h0 fun _ h => absurd h List.not_mem_nil
    have hitem : Forest.Shaped s grp.nestedGroups
        [(tag, .group v (s.groupSpec ref).firstTag sub)] :=
      .group hgroup (fun m hm => (hsub m hm).1) (fun m hm => (hsub m hm).2) .nil
    obtain ⟨hout, used', rfl, hread'⟩ := ih (members_open hclosed (hm.concat hitem))
    refine ⟨hout, (t, v) :: (used ++ used'), by rw [List.cons_append, List.append_assoc], ?_⟩
    have hboth : (used ++ used').map Forest.fieldOf
        = (Forest.membersFields sub).map some ++ used'.map Forest.fieldOf := by
      rw [List.map_append, hread]
    rw [← hread', membersFields_concat, membersFields_concat, Forest.flatten_append, List.map_cons,
      hboth, Forest.fieldOf_of_atoi? htag]
    simp [Forest.flatten, Forest.itemFields]

theorem GroupRun.reads {ms : List Forest} (h : GroupRun s grp count pairs rest ms) :
    (∀ m ∈ ms, Forest.Member s grp m) ∧ ∃ used, pairs = used ++ rest
      ∧ used.map Forest.fieldOf = (Forest.membersFields ms).map some := by
  by_cases h0 : count = 0
  · obtain ⟨rfl, rfl⟩ := h.1 h0
    exact ⟨fun _ h => absurd h List.not_mem_nil, [], rfl, rfl⟩
  · exact (h.2 h0).reads fun _ h => absurd h List.not_mem_nil

/-- **Soundness of the group loop.** -/
theorem memberLoop_sound : Forest.LoopSound s grp count pairs := by
  intro rest ms cur out hms hcur h
  obtain ⟨out', hrun, rfl⟩ := loopRuns h
  obtain ⟨hout, used, hused, hread⟩ := hrun.reads fun m hm =>
    (List.mem_append.mp hm).elim (hms m) fun hm => hcur m (Option.mem_toList.mp hm)
  exact ⟨out', used, rfl, hout, hused, hread⟩

/-- **Soundness of `parseGroup`.** -/
theorem parseGroup_sound {out : List FixFragment}
    (h : parseGroup s grp count pairs = .ok (rest, out)) :
    Forest.LoopReads s grp [] pairs rest out := by
  obtain ⟨ms, hrun, rfl⟩ := parseGroup_iff_run.mp h
  obtain ⟨hms, used, hused, hread⟩ := hrun.reads
  exact ⟨ms, used, rfl, hms, hused, hread⟩

end GroupLoop

/-! ## Messages -/

/-- The dictionary entry by which `Parse` dispatches, if it dispatches at all. -/
def Codec.dispatches (c : Codec) (pairs : List Pair) : Option (FixSpec × MessageSpec) :=
  if c.noGroups then none
  else c.spec.bind fun s => (findMsgSpec s pairs).map fun msgSpec => (s, msgSpec)

/-- **A buffer is read as a forest**: field by field, or group by group for a message type of the
dictionary. -/
def Codec.ReadAs (c : Codec) (buf : Bytes) (G : Forest) : Prop :=
  ∃ pairs, tokenise c.sep buf = .ok pairs ∧
    match c.dispatches pairs with
    | none => G = (pairs.filterMap Forest.fieldOf).map fun e => (e.1, .leaf e.2)
    | some (s, msgSpec) => FieldsRun s msgSpec.groups pairs G

theorem Codec.parsePairs_eq (c : Codec) (pairs : List Pair) :
    c.parsePairs pairs
      = match c.dispatches pairs with
        | none => .ok (setPairs [] pairs)
        | some (s, msgSpec) => dispatchPairs s msgSpec [] pairs := by
  unfold Codec.parsePairs Codec.dispatches
  split
  · rfl
  · cases c.spec with
    | none => rfl
    | some s =>
      dsimp only [Option.bind_some]
      cases findMsgSpec s pairs <;> rfl

/-- Setting pairs is collapsing the fields they are. -/
theorem setPairs_eq_collapse (F : Forest) (pairs : List Pair) :
    setPairs (collapse F) pairs
      = collapse (F ++ (pairs.filterMap Forest.fieldOf).map fun e => (e.1, .leaf e.2)) := by
  induction pairs generalizing F with
  | nil => rw [List.filterMap_nil, List.map_nil, List.append_nil]; rfl
  | cons p pairs ih =>
    obtain ⟨t, v⟩ := p
    rw [setPairs]
    cases htag : atoi? t with
    | none =>
      have hfield : Forest.fieldOf (t, v) = none := by
        rw [Forest.fieldOf, htag]
        rfl
      rw [List.filterMap_cons_none hfield]
      exact ih F
    | some tag =>
      have h := ih (F ++ [(tag, .leaf v)])
      rw [Forest.collapse_concat, List.append_assoc] at h
      rw [List.filterMap_cons_some (Forest.fieldOf_of_atoi? htag v)]
      exact h

section Dispatch

variable {s : FixSpec} {msgSpec : MessageSpec} {pairs : List Pair}

/-- A run of the dispatch loop is what it computes. -/
theorem FieldsRun.eval {G : Forest} (h : FieldsRun s msgSpec.groups pairs G) (F : Forest) :
    dispatchPairs s msgSpec (collapse F) pairs = .ok (collapse (F ++ G)) := by
  induction h generalizing F with
  | nil =>
    rw [List.append_nil]
    rfl
  | skip htag _ ih =>
    rw [dispatchPairs_skip htag]
    exact ih F
  | @plain t v tag pairs G htag hplain _ ih =>
    have h := ih (F ++ [(tag, .leaf v)])
    rw [Forest.collapse_concat, List.append_assoc] at h
    rw [dispatchPairs_plain htag hplain]
    exact h
  | @group t v tag n ref pairs rest ms G htag hgroup hn hsub _ ih =>
    have h := ih (F ++ [(tag, .group v (s.groupSpec ref).firstTag ms)])
    rw [Forest.collapse_concat, itemValue, Forest.collapseMembers_eq, List.append_assoc] at h
    rw [dispatchPairs_group htag hgroup, hn]
    dsimp only
    rw [hsub.eval]
    exact h

/-- Whatever the dispatch loop returns, it has run for it. -/
theorem exists_fieldsRun {F : Forest} {g : FixFragment}
    (h : dispatchPairs s msgSpec (collapse F) pairs = .ok g) :
    ∃ G, FieldsRun s msgSpec.groups pairs G ∧ g = collapse (F ++ G) := by
  induction hlen : pairs.length using Nat.strongRecOn generalizing pairs F with
  | ind len ih =>
    cases pairs with
    | nil =>
      cases h
      exact ⟨[], .nil, by rw [List.append_nil]⟩
    | cons p pairs =>
      obtain ⟨t, v⟩ := p
      rw [List.length_cons] at hlen
      cases htag : atoi? t with
      | none =>
        rw [dispatchPairs_skip htag] at h
        obtain ⟨G, hrun, hg⟩ := ih pairs.length (by omega) h rfl
        exact ⟨G, .skip htag hrun, hg⟩
      | some tag =>
        cases hgroup : Assoc.find? tag msgSpec.groups with
        | none =>
          rw [dispatchPairs_plain htag hgroup] at h
          obtain ⟨G, hrun, hg⟩ := ih pairs.length (by omega) (F := F ++ [(tag, .leaf v)])
            (by rw [Forest.collapse_concat]; exact h) rfl
          exact ⟨_, .plain htag hgroup hrun, by rw [hg, List.append_assoc]; rfl⟩
        | some ref =>
          obtain ⟨n, rest, members, hn, hr, h⟩ := dispatchPairs_group_ok htag hgroup h
          have hle := length_parseGroup_le s hr
          obtain ⟨ms, hsub, rfl⟩ := parseGroup_iff_run.mp hr
          obtain ⟨G, hrun, hg⟩ := ih rest.length (by omega)
            (F := F ++ [(tag, .group v (s.groupSpec ref).firstTag ms)])
            (by
              rw [Forest.collapse_concat, itemValue, Forest.collapseMembers_eq]
              exact h) rfl
          exact ⟨_, .group htag hgroup hn hsub hrun, by rw [hg, List.append_assoc]; rfl⟩

/-- A run of the dispatch loop reads the pairs with integer tags. -/
theorem FieldsRun.reads {groups : List (ℤ × GroupRef)} {G : Forest}
    (h : FieldsRun s groups pairs G) :
    Forest.Shaped s groups G ∧ Forest.flatten G = pairs.filterMap Forest.fieldOf := by
  induction h with
  | nil => exact ⟨.nil, rfl⟩
  | skip htag _ ih =>
    refine ⟨ih.1, ?_⟩
    rw [List.filterMap_cons_none (by rw [Forest.fieldOf, htag]; rfl), ih.2]
  | plain htag hplain _ ih =>
    refine ⟨.leaf hplain ih.1, ?_⟩
    rw [List.filterMap_cons_some (Forest.fieldOf_of_atoi? htag _), ← ih.2]
    rfl
  | group htag hgroup _ hsub _ ih =>
    obtain ⟨hms, used, rfl, hread⟩ := hsub.reads
    refine ⟨.group hgroup (fun m hm => (hms m hm).1) (fun m hm => (hms m hm).2) ih.1, ?_⟩
    have hused := congrArg (List.filterMap id) hread
    rw [List.filterMap_map, List.filterMap_map, Function.id_comp, Function.id_comp,
      List.filterMap_some] at hused
    rw [List.filterMap_cons_some (Forest.fieldOf_of_atoi? htag _), List.filterMap_append, hused,
      ← ih.2]
    rfl

/-- **Soundness of the dispatch loop**: the fragment is the collapse of a shaped forest that
flattens to the pairs with integer tags. -/
theorem dispatchPairs_sound {g : FixFragment} (h : dispatchPairs s msgSpec [] pairs = .ok g) :
    ∃ G, g = collapse G ∧ Forest.Shaped s msgSpec.groups G
      ∧ Forest.flatten G = pairs.filterMap Forest.fieldOf := by
  obtain ⟨G, hrun, hg⟩ := exists_fieldsRun (F := []) h
  exact ⟨G, hg, hrun.reads.1, hrun.reads.2⟩

end Dispatch

/-- **`Parse` and its runs**: a buffer is accepted exactly if it is read as a forest, and the result
is the collapse of the forest. -/
theorem Codec.parse_iff_readAs {c : Codec} {buf : Bytes} {g : FixFragment} :
    c.parse buf = .ok g ↔ ∃ G, c.ReadAs buf G ∧ g = collapse G := by
  unfold Codec.parse Codec.ReadAs
  cases hpairs : tokenise c.sep buf with
  | error e => simp
  | ok pairs =>
    simp only [Except.ok.injEq, exists_eq_left', c.parsePairs_eq]
    cases c.dispatches pairs with
    | none =>
      dsimp only
      have hset := setPairs_eq_collapse [] pairs
      rw [List.nil_append] at hset
      rw [exists_eq_left, ← hset, Except.ok.injEq]
      exact eq_comm
    | some d =>
      obtain ⟨s, msgSpec⟩ := d
      dsimp only
      constructor
      · exact exists_fieldsRun (F := [])
      · rintro ⟨G, hrun, rfl⟩
        exact hrun.eval []

/-- **A buffer is read as the fields of its pairs with integer tags**, one after the other. -/
theorem Codec.ReadAs.reads {c : Codec} {buf : Bytes} {G : Forest} (h : c.ReadAs buf G) :
    ∃ pairs, tokenise c.sep buf = .ok pairs
      ∧ Forest.flatten G = pairs.filterMap Forest.fieldOf := by
  obtain ⟨pairs, hpairs, hread⟩ := h
  refine ⟨pairs, hpairs, ?_⟩
  cases hd : c.dispatches pairs with
  | none =>
    rw [hd] at hread
    obtain rfl : G = _ := hread
    rw [Forest.flatten_eq, List.flatMap_map]
    exact List.flatMap_singleton' _
  | some d =>
    rw [hd] at hread
    exact hread.reads.2

end FixMsg
