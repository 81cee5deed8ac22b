import GoFixMsg.Codec.DeclaredCount
import GoFixMsg.Codec.Parsers

/-!
# Codec/Junk — fields whose tag is not an integer

Both loops over a whole message step over a field whose tag is not an integer.  The loop of
`parseGroup` stops at it instead, and so do the loops around it, so that the rest of the group is
read as fields of the message; and the first six fields, among which `Parse` looks for MsgType, are
counted with it.  A buffer is read as if these fields were not there if none of them keeps a group
from a field it would have taken, and none keeps MsgType from being found (`parse_withoutJunk`).
-/

open GoLang

namespace FixMsg

open Forest (collapse)

/-- A pair whose tag is an integer. -/
def hasIntTag (p : Pair) : Bool := (atoi? p.1).isSome

/-- The pairs with an integer tag. -/
def intPairs (pairs : List Pair) : List Pair := pairs.filter hasIntTag

/-- A field of a buffer that stays: one with an integer tag, or an empty one. -/
def hasNoJunkTag (field : Bytes) : Bool :=
  match cutAt 61 field with
  | none => true
  | some p => hasIntTag p

/-- **The buffer without the fields whose tag is not an integer.** -/
def withoutJunk (buf : Bytes) : Bytes := [soh].intercalate ((buf.splitOn soh).filter hasNoJunkTag)

theorem intPairs_cons {t v : Bytes} {tag : ℤ} (htag : atoi? t = some tag) (pairs : List Pair) :
    intPairs ((t, v) :: pairs) = (t, v) :: intPairs pairs := by
  rw [intPairs, List.filter_cons_of_pos (by rw [hasIntTag, htag]; rfl), intPairs]

theorem intPairs_cons_junk {t v : Bytes} (htag : atoi? t = none) (pairs : List Pair) :
    intPairs ((t, v) :: pairs) = intPairs pairs := by
  rw [intPairs, List.filter_cons_of_neg (by rw [hasIntTag, htag]; exact Bool.false_ne_true),
    intPairs]

/-! ## Fields that keep no group from its own

`Unbroken` follows the loop over all pairs, and asks where it stops at a field without an integer
tag that the loop over the others would stop there as well. -/

/-- **No field without an integer tag cuts the group short**: the group stops where it would have
stopped without these fields too, and so do the groups inside it.  What is left is `none` where a
nested count is not a number. -/
inductive Unbroken (s : FixSpec) : GroupSpec → ℤ → ℕ → Bool → List Pair → Option (List Pair) → Prop
  | stop {grp : GroupSpec} {count : ℤ} {closed : ℕ} {isOpen : Bool} {pairs : List Pair}
      (h : LoopStops grp count closed isOpen (intPairs pairs)) :
      Unbroken s grp count closed isOpen pairs (some pairs)
  | first {grp : GroupSpec} {count : ℤ} {closed : ℕ} {isOpen : Bool} {t v : Bytes}
      {pairs : List Pair} {rest : Option (List Pair)} (hcount : (closed : ℤ) < count)
      (htag : atoi? t = some grp.firstTag)
      (hrest : Unbroken s grp count (closed + isOpen.toNat) true pairs rest) :
      Unbroken s grp count closed isOpen ((t, v) :: pairs) rest
  | plain {grp : GroupSpec} {count : ℤ} {closed : ℕ} {t v : Bytes} {tag : ℤ} {pairs : List Pair}
      {rest : Option (List Pair)} (hcount : (closed : ℤ) < count) (htag : atoi? t = some tag)
      (hfirst : tag ≠ grp.firstTag) (htags : tag ∈ grp.tags)
      (hplain : Assoc.find? tag grp.nestedGroups = none)
      (hrest : Unbroken s grp count closed true pairs rest) :
      Unbroken s grp count closed true ((t, v) :: pairs) rest
  | bad {grp : GroupSpec} {count : ℤ} {closed : ℕ} {t v : Bytes} {tag : ℤ} {ref : GroupRef}
      {pairs : List Pair} (hcount : (closed : ℤ) < count) (htag : atoi? t = some tag)
      (hfirst : tag ≠ grp.firstTag) (htags : tag ∈ grp.tags)
      (hgroup : Assoc.find? tag grp.nestedGroups = some ref) (hbad : atoi? v = none) :
      Unbroken s grp count closed true ((t, v) :: pairs) none
  | fails {grp : GroupSpec} {count n : ℤ} {closed : ℕ} {t v : Bytes} {tag : ℤ} {ref : GroupRef}
      {pairs : List Pair} (hcount : (closed : ℤ) < count) (htag : atoi? t = some tag)
      (hfirst : tag ≠ grp.firstTag) (htags : tag ∈ grp.tags)
      (hgroup : Assoc.find? tag grp.nestedGroups = some ref) (hn : atoi? v = some n) (hne : n ≠ 0)
      (hsub : Unbroken s (s.groupSpec ref) n 0 false pairs none) :
      Unbroken s grp count closed true ((t, v) :: pairs) none
  | nested {grp : GroupSpec} {count n : ℤ} {closed : ℕ} {t v : Bytes} {tag : ℤ} {ref : GroupRef}
      {pairs rest' : List Pair} {rest : Option (List Pair)} (hcount : (closed : ℤ) < count)
      (htag : atoi? t = some tag) (hfirst : tag ≠ grp.firstTag) (htags : tag ∈ grp.tags)
      (hgroup : Assoc.find? tag grp.nestedGroups = some ref) (hn : atoi? v = some n)
      (hzero : n = 0 → rest' = pairs)
      (hsub : n ≠ 0 → Unbroken s (s.groupSpec ref) n 0 false pairs (some rest'))
      (hrest : Unbroken s grp count closed true rest' rest) :
      Unbroken s grp count closed true ((t, v) :: pairs) rest

/-- **No field without an integer tag cuts a group of the message short.**  Between the groups they
may stand anywhere. -/
inductive UnbrokenFields (s : FixSpec) (groups : List (ℤ × GroupRef)) : List Pair → Prop
  | nil : UnbrokenFields s groups []
  | skip {t v : Bytes} {pairs : List Pair} (htag : atoi? t = none)
      (hrest : UnbrokenFields s groups pairs) : UnbrokenFields s groups ((t, v) :: pairs)
  | plain {t v : Bytes} {tag : ℤ} {pairs : List Pair} (htag : atoi? t = some tag)
      (hplain : Assoc.find? tag groups = none) (hrest : UnbrokenFields s groups pairs) :
      UnbrokenFields s groups ((t, v) :: pairs)
  | bad {t v : Bytes} {tag : ℤ} {ref : GroupRef} {pairs : List Pair} (htag : atoi? t = some tag)
      (hgroup : Assoc.find? tag groups = some ref) (hbad : atoi? v = none) :
      UnbrokenFields s groups ((t, v) :: pairs)
  | fails {t v : Bytes} {tag n : ℤ} {ref : GroupRef} {pairs : List Pair}
      (htag : atoi? t = some tag) (hgroup : Assoc.find? tag groups = some ref)
      (hn : atoi? v = some n) (hne : n ≠ 0)
      (hsub : Unbroken s (s.groupSpec ref) n 0 false pairs none) :
      UnbrokenFields s groups ((t, v) :: pairs)
  | group {t v : Bytes} {tag n : ℤ} {ref : GroupRef} {pairs rest : List Pair}
      (htag : atoi? t = some tag) (hgroup : Assoc.find? tag groups = some ref)
      (hn : atoi? v = some n) (hzero : n = 0 → rest = pairs)
      (hsub : n ≠ 0 → Unbroken s (s.groupSpec ref) n 0 false pairs (some rest))
      (hrest : UnbrokenFields s groups rest) : UnbrokenFields s groups ((t, v) :: pairs)

/-- **The fields without an integer tag stand clear** of the groups and of the fields among which
`Parse` looks for MsgType: where a message type is found without them, they cut no group of it
short, and it is found with them, or there is nothing but plain fields. -/
def Codec.JunkClear (c : Codec) (pairs : List Pair) : Prop :=
  ∀ s msgSpec, c.dispatches (intPairs pairs) = some (s, msgSpec) →
    UnbrokenFields s msgSpec.groups pairs
      ∧ (c.dispatches pairs = none →
        ∀ p ∈ pairs, ∀ t, atoi? p.1 = some t → Assoc.find? t msgSpec.groups = none)

/-! ## The group loop -/

section Loop

variable {s : FixSpec} {grp : GroupSpec} {count : ℤ} {closed : ℕ} {isOpen : Bool}
  {pairs : List Pair}

/-- A group that stops without the junk stops with it. -/
theorem LoopStops.of_intPairs (h : LoopStops grp count closed isOpen (intPairs pairs)) :
    LoopStops grp count closed isOpen pairs := by
  cases pairs with
  | nil => trivial
  | cons p pairs =>
    obtain ⟨t, v⟩ := p
    cases htag : atoi? t with
    | none =>
      refine Or.inr fun tag ht => ?_
      rw [htag] at ht
      cases ht
    | some tag =>
      rw [intPairs_cons htag] at h
      exact h

/-- How a loop over the pairs with integer tags compares with the loop over all of them: it fails
alike, or leaves the pairs with integer tags of what the other leaves. -/
def SameRest (rest : Option (List Pair))
    (all ints : Except ParseError (List Pair × List FixFragment)) : Prop :=
  match rest with
  | some rest => ∃ out, all = .ok (rest, out) ∧ ints = .ok (intPairs rest, out)
  | none => ∃ e, all = .error e ∧ ints = .error e

theorem sameRest_parseGroup {n : ℤ} {rest : Option (List Pair)}
    (hzero : n = 0 → rest = some pairs)
    (hloop : n ≠ 0 → SameRest rest (memberLoop s grp n pairs [] none)
      (memberLoop s grp n (intPairs pairs) [] none)) :
    SameRest rest (parseGroup s grp n pairs) (parseGroup s grp n (intPairs pairs)) := by
  by_cases h : n = 0
  · rw [hzero h, h, parseGroup_zero, parseGroup_zero]
    exact ⟨[], rfl, rfl⟩
  · rw [parseGroup_of_ne_zero s grp h, parseGroup_of_ne_zero s grp h]
    exact hloop h

/-- **The loop over the pairs with integer tags** reads the same members, if no group is cut
short. -/
theorem Unbroken.sameRest {rest : Option (List Pair)}
    (h : Unbroken s grp count closed isOpen pairs rest) {members : List FixFragment}
    {current : Option FixFragment} (hclosed : members.length = closed)
    (hopen : current.isSome = isOpen) :
    SameRest rest (memberLoop s grp count pairs members current)
      (memberLoop s grp count (intPairs pairs) members current) := by
  induction h generalizing members current with
  | stop h =>
    subst hclosed hopen
    exact ⟨_, memberLoop_stops h.of_intPairs, memberLoop_stops h⟩
  | first hcount htag _ ih =>
    subst hclosed hopen
    rw [intPairs_cons htag, memberLoop_first hcount htag rfl, memberLoop_first hcount htag rfl]
    refine ih ?_ rfl
    cases current <;> simp
  | plain hcount htag hfirst htags hplain _ ih =>
    subst hclosed
    obtain ⟨cur, rfl⟩ := Option.isSome_iff_exists.mp hopen
    rw [intPairs_cons htag, memberLoop_plain hcount htag hfirst htags hplain,
      memberLoop_plain hcount htag hfirst htags hplain]
    exact ih rfl rfl
  | bad hcount htag hfirst htags hgroup hbad =>
    subst hclosed
    obtain ⟨cur, rfl⟩ := Option.isSome_iff_exists.mp hopen
    rw [intPairs_cons htag, memberLoop_nested hcount htag hfirst htags hgroup,
      memberLoop_nested hcount htag hfirst htags hgroup, hbad]
    exact ⟨_, rfl, rfl⟩
  | fails hcount htag hfirst htags hgroup hn hne _ ih =>
    subst hclosed
    obtain ⟨cur, rfl⟩ := Option.isSome_iff_exists.mp hopen
    obtain ⟨e, hall, hints⟩ := sameRest_parseGroup (fun h => absurd h hne) fun _ => ih rfl rfl
    rw [intPairs_cons htag, memberLoop_nested hcount htag hfirst htags hgroup,
      memberLoop_nested hcount htag hfirst htags hgroup, hn]
    dsimp only
    rw [hall, hints]
    exact ⟨e, rfl, rfl⟩
  | nested hcount htag hfirst htags hgroup hn hzero _ _ ihsub ih =>
    subst hclosed
    obtain ⟨cur, rfl⟩ := Option.isSome_iff_exists.mp hopen
    obtain ⟨sub, hall, hints⟩ := sameRest_parseGroup (fun h => congrArg some (hzero h))
      fun hne => ihsub hne rfl rfl
    rw [intPairs_cons htag, memberLoop_nested hcount htag hfirst htags hgroup,
      memberLoop_nested hcount htag hfirst htags hgroup, hn]
    dsimp only
    rw [hall, hints]
    exact ih rfl rfl

end Loop

/-! ## The loops over a message

Between groups the dispatch loop steps over junk by itself.  What is left to compare is the search
for MsgType, which looks at six pairs and counts the junk among them. -/

/-- A group compares as its loop from the start does. -/
theorem Unbroken.sameRest_group {s : FixSpec} {grp : GroupSpec} {n : ℤ} {pairs : List Pair}
    {rest : Option (List Pair)} (hzero : n = 0 → rest = some pairs)
    (h : n ≠ 0 → Unbroken s grp n 0 false pairs rest) :
    SameRest rest (parseGroup s grp n pairs) (parseGroup s grp n (intPairs pairs)) :=
  sameRest_parseGroup hzero fun hne => (h hne).sameRest rfl rfl

/-- Setting the pairs steps over the junk. -/
theorem setPairs_intPairs (msg : FixFragment) (pairs : List Pair) :
    setPairs msg (intPairs pairs) = setPairs msg pairs := by
  induction pairs generalizing msg with
  | nil => rfl
  | cons p pairs ih =>
    obtain ⟨t, v⟩ := p
    cases htag : atoi? t with
    | none =>
      rw [intPairs_cons_junk htag, ih, setPairs, htag]
    | some tag =>
      rw [intPairs_cons htag, setPairs, setPairs, htag]
      exact ih _

/-- **Dispatching steps over the junk**, if no group is cut short. -/
theorem UnbrokenFields.dispatchPairs {s : FixSpec} {msgSpec : MessageSpec} {pairs : List Pair}
    (h : UnbrokenFields s msgSpec.groups pairs) (msg : FixFragment) :
    FixMsg.dispatchPairs s msgSpec msg (intPairs pairs)
      = FixMsg.dispatchPairs s msgSpec msg pairs := by
  induction h generalizing msg with
  | nil => rfl
  | skip htag _ ih => rw [intPairs_cons_junk htag, ih, dispatchPairs_skip htag]
  | plain htag hplain _ ih =>
    rw [intPairs_cons htag, dispatchPairs_plain htag hplain, dispatchPairs_plain htag hplain, ih]
  | bad htag hgroup hbad =>
    rw [intPairs_cons htag, dispatchPairs_group htag hgroup, dispatchPairs_group htag hgroup, hbad]
  | fails htag hgroup hn hne hsub =>
    obtain ⟨e, hall, hints⟩ := Unbroken.sameRest_group (fun h => absurd h hne) fun _ => hsub
    rw [intPairs_cons htag, dispatchPairs_group htag hgroup, dispatchPairs_group htag hgroup, hn]
    dsimp only
    rw [hall, hints]
  | group htag hgroup hn hzero hsub _ ih =>
    obtain ⟨out, hall, hints⟩ := Unbroken.sameRest_group (fun h => congrArg some (hzero h)) hsub
    rw [intPairs_cons htag, dispatchPairs_group htag hgroup, dispatchPairs_group htag hgroup, hn]
    dsimp only
    rw [hall, hints]
    exact ih _

/-- What is found among the first fields stays there when others go away. -/
theorem find?_take_filter {α : Type} {keep q : α → Bool} (hq : ∀ a, q a = true → keep a = true)
    {l : List α} {n : ℕ} {a : α} (h : (l.take n).find? q = some a) :
    ((l.filter keep).take n).find? q = some a := by
  induction l generalizing n with
  | nil =>
    rw [List.take_nil] at h
    cases h
  | cons b l ih =>
    cases n with
    | zero => cases h
    | succ n =>
      rw [List.take_succ_cons, List.find?_cons] at h
      cases hb : q b with
      | true =>
        rw [hb] at h
        rw [List.filter_cons_of_pos (hq b hb), List.take_succ_cons, List.find?_cons, hb]
        exact h
      | false =>
        rw [hb] at h
        by_cases hk : keep b = true
        · rw [List.filter_cons_of_pos hk, List.take_succ_cons, List.find?_cons, hb]
          exact ih h
        · rw [List.filter_cons_of_neg hk]
          exact (List.take_prefix_take_left (Nat.le_succ n)).find?_eq_some (ih h)

/-- MsgType stays found when other fields go away in front of it. -/
theorem dispatches_intPairs {c : Codec} {pairs : List Pair} {d : FixSpec × MessageSpec}
    (h : c.dispatches pairs = some d) : c.dispatches (intPairs pairs) = some d := by
  unfold Codec.dispatches at h ⊢
  split at h
  · cases h
  next hgroups =>
  rw [if_neg hgroups]
  cases hs : c.spec with
  | none =>
    rw [hs] at h
    cases h
  | some s =>
    rw [hs, Option.bind_some, findMsgSpec] at h
    rw [Option.bind_some, findMsgSpec]
    split at h
    · cases h
    next p hp =>
    have hkeep : ∀ p : Pair, (p.1 == ascii "35") = true → hasIntTag p = true := by
      intro p hp
      rw [hasIntTag, beq_iff_eq.mp hp]
      rfl
    rw [intPairs, find?_take_filter hkeep hp]
    exact h

theorem Codec.JunkClear.parsePairs {c : Codec} {pairs : List Pair} (h : c.JunkClear pairs) :
    c.parsePairs (intPairs pairs) = c.parsePairs pairs := by
  rw [c.parsePairs_eq, c.parsePairs_eq]
  cases hints : c.dispatches (intPairs pairs) with
  | none =>
    cases hall : c.dispatches pairs with
    | none => exact congrArg Except.ok (setPairs_intPairs [] pairs)
    | some d =>
      rw [dispatches_intPairs hall] at hints
      cases hints
  | some d =>
    obtain ⟨s, msgSpec⟩ := d
    obtain ⟨hfields, hflat⟩ := h s msgSpec hints
    cases hall : c.dispatches pairs with
    | none =>
      dsimp only
      rw [hfields.dispatchPairs, dispatchPairs_flat (hflat hall)]
    | some d =>
      rw [dispatches_intPairs hall] at hints
      cases hints
      exact hfields.dispatchPairs []

/-! ## The buffer -/

/-- **Every field of the buffer contains `=`.** -/
def AllDelimited (buf : Bytes) : Prop :=
  ∀ field ∈ buf.splitOn soh, field ≠ [] → (61 : UInt8) ∈ field

instance (buf : Bytes) : Decidable (AllDelimited buf) :=
  inferInstanceAs (Decidable (∀ field ∈ buf.splitOn soh, _ → _))

theorem tokenise_of_allDelimited {buf : Bytes} (h : AllDelimited buf) :
    ∃ pairs, tokenise soh buf = .ok pairs := by
  rw [tokenise_soh]
  unfold AllDelimited at h
  generalize buf.splitOn soh = fields at h
  induction fields with
  | nil => exact ⟨[], rfl⟩
  | cons field fields ih =>
    obtain ⟨pairs, hpairs⟩ := ih fun x hx => h x (List.mem_cons_of_mem _ hx)
    rw [tokeniseFields]
    split
    · exact ⟨pairs, hpairs⟩
    · next hne =>
      obtain ⟨t, v, hfield, ht⟩ := List.eq_append_cons_of_mem (h field List.mem_cons_self hne)
      rw [hfield, cutAt_append_cons ht, hpairs]
      exact ⟨(t, v) :: pairs, rfl⟩

theorem tokeniseFields_filter {fields : List Bytes} {pairs : List Pair}
    (h : tokeniseFields fields = .ok pairs) :
    tokeniseFields (fields.filter hasNoJunkTag) = .ok (intPairs pairs) := by
  induction fields generalizing pairs with
  | nil =>
    cases h
    rfl
  | cons field fields ih =>
    rw [tokeniseFields] at h
    split at h
    · next hnil =>
      subst hnil
      rw [List.filter_cons_of_pos (by rfl), tokeniseFields, if_pos rfl]
      exact ih h
    next hne =>
    split at h
    · cases h
    next p hcut =>
    split at h
    · cases h
    next rest hrest =>
    cases h
    obtain ⟨t, v⟩ := p
    cases htag : atoi? t with
    | none =>
      rw [intPairs_cons_junk htag, List.filter_cons_of_neg]
      · exact ih hrest
      · simp [hasNoJunkTag, hcut, hasIntTag, htag]
    | some tag =>
      rw [intPairs_cons htag, List.filter_cons_of_pos, tokeniseFields, if_neg hne, hcut, ih hrest]
      simp [hasNoJunkTag, hcut, hasIntTag, htag]

/-- **The buffer without its junk holds the pairs with integer tags.** -/
theorem tokenise_withoutJunk {buf : Bytes} {pairs : List Pair} (h : tokenise soh buf = .ok pairs) :
    tokenise soh (withoutJunk buf) = .ok (intPairs pairs) := by
  rw [tokenise_soh] at h ⊢
  have hfields := tokeniseFields_filter h
  by_cases hnil : (buf.splitOn soh).filter hasNoJunkTag = []
  · rw [hnil] at hfields
    rw [withoutJunk, hnil, ← hfields]
    rfl
  · rw [withoutJunk, List.splitOn_intercalate soh _ hnil, hfields]
    intro x hx
    exact notMem_of_mem_splitOn (List.mem_filter.mp hx).1

/-! ## What junk in a group changes

The converse: a group that was cut short is read with fewer fields, so the members differ.  It rests
on a run losing nothing of what it has read. -/

/-- A member that has gone on is longer than it was. -/
theorem not_stopped_of_persists {ms tail : List Forest} {m m' : Forest} {e : ℤ × Item}
    (hout : ms ++ [m] = ms ++ m' :: tail) (hext : m ++ [e] <+: m') : False := by
  obtain ⟨rfl, -⟩ := List.cons.inj (List.append_cancel_left hout)
  have hlen := hext.length_le
  rw [List.length_append, List.length_singleton] at hlen
  omega

/-- **A group read alike with the junk and without it** was not cut short.  Neither were the groups
inside it, which stand at the same places in both readings. -/
theorem LoopRun.unbroken {s : FixSpec} {grp : GroupSpec} {count : ℤ} {pairs rest rest' : List Pair}
    {ms out : List Forest} {cur : Option Forest} (h : LoopRun s grp count pairs ms cur rest out)
    (hints : LoopRun s grp count (intPairs pairs) ms cur rest' out) :
    Unbroken s grp count ms.length cur.isSome pairs (some rest) ∧ rest' = intPairs rest := by
  induction h generalizing rest' with
  | @stop grp count pairs ms cur hstop =>
    generalize hp : intPairs pairs = ints at hints
    generalize hout : ms ++ cur.toList = out at hints
    cases hints with
    | stop h => exact ⟨.stop (hp ▸ h), rfl⟩
    | first _ _ hrest =>
      have hle := hrest.le_length
      rw [hout, length_open] at hle
      omega
    | plain _ _ _ _ _ hrest | nested _ _ _ _ _ _ _ _ hrest =>
      obtain ⟨m', tail, hext, hpre⟩ := hrest.persists _ rfl
      exact (not_stopped_of_persists (hout.trans hext) hpre).elim
  | @first grp count t v pairs rest ms out cur hcount htag _ ih =>
    rw [intPairs_cons htag] at hints
    obtain ⟨hrest, hr⟩ := ih (hints.at_first hcount htag)
    refine ⟨.first hcount htag ?_, hr⟩
    have hclosed : (ms ++ cur.toList).length = ms.length + cur.isSome.toNat := by
      cases cur <;> simp
    rwa [hclosed] at hrest
  | plain hcount htag hfirst htags hplain _ ih =>
    rw [intPairs_cons htag] at hints
    obtain ⟨hrest, hr⟩ := ih (hints.at_plain hcount htag hfirst htags hplain)
    exact ⟨.plain hcount htag hfirst htags hplain hrest, hr⟩
  | @nested grp count n t v tag ref pairs rest₁ rest ms sub out m hcount htag hfirst htags hgroup hn
      hzero _ hrun ihsub ih =>
    rw [intPairs_cons htag] at hints
    obtain ⟨rest₂, sub₂, hsub₂, hints⟩ :=
      hints.at_nested hcount htag hfirst htags hgroup hn
    obtain ⟨m₁, tail₁, rfl, hpre₁⟩ := hrun.persists _ rfl
    obtain ⟨m₂, tail₂, hout, hpre₂⟩ := hints.persists _ rfl
    obtain ⟨rfl, rfl⟩ := List.cons.inj (List.append_cancel_left hout)
    obtain rfl : sub = sub₂ := by
      have hsame := List.prefix_of_prefix_length_le hpre₁ hpre₂ (by simp)
      have hsame := List.append_cancel_left (hsame.eq_of_length (by simp))
      cases hsame
      rfl
    by_cases h0 : n = 0
    · obtain ⟨rfl, -⟩ := hzero h0
      obtain ⟨rfl, -⟩ := hsub₂.1 h0
      obtain ⟨hrest, hr⟩ := ih hints
      exact ⟨.nested hcount htag hfirst htags hgroup hn (fun _ => rfl) (fun hne => absurd h0 hne)
        hrest, hr⟩
    · obtain ⟨hbroken, rfl⟩ := ihsub h0 (hsub₂.2 h0)
      obtain ⟨hrest, hr⟩ := ih hints
      exact ⟨.nested hcount htag hfirst htags hgroup hn (fun h => absurd h h0) (fun _ => hbroken)
        hrest, hr⟩

/-- **A message read alike with the junk and without it** has no group cut short. -/
theorem FieldsRun.unbroken {s : FixSpec} {groups : List (ℤ × GroupRef)} {pairs : List Pair}
    {G : Forest} (h : FieldsRun s groups pairs G) (hints : FieldsRun s groups (intPairs pairs) G) :
    UnbrokenFields s groups pairs := by
  induction h with
  | nil => exact .nil
  | skip htag _ ih =>
    rw [intPairs_cons_junk htag] at hints
    exact .skip htag (ih hints)
  | plain htag hplain _ ih =>
    rw [intPairs_cons htag] at hints
    cases hints with
    | skip ht =>
      rw [htag] at ht
      cases ht
    | plain _ _ hrest => exact .plain htag hplain (ih hrest)
  | @group t v tag n ref pairs rest ms G htag hgroup hn hsub _ ih =>
    rw [intPairs_cons htag] at hints
    generalize hG : (tag, Item.group v (s.groupSpec ref).firstTag ms) :: G = G' at hints
    cases hints with
    | skip ht =>
      rw [htag] at ht
      cases ht
    | plain => cases (List.cons.inj hG).1
    | group ht hgroup' hn' hsub' hrest =>
      obtain ⟨hitem, rfl⟩ := List.cons.inj hG
      simp only [Prod.mk.injEq, Item.group.injEq, true_and] at hitem
      obtain ⟨rfl, -, rfl⟩ := hitem
      rw [hgroup] at hgroup'
      cases hgroup'
      rw [hn] at hn'
      cases hn'
      by_cases h0 : n = 0
      · obtain ⟨rfl, -⟩ := hsub.1 h0
        obtain ⟨rfl, -⟩ := hsub'.1 h0
        exact .group htag hgroup hn (fun _ => rfl) (fun hne => absurd h0 hne) (ih hrest)
      · obtain ⟨hbroken, rfl⟩ := (hsub.2 h0).unbroken (hsub'.2 h0)
        exact .group htag hgroup hn (fun h => absurd h h0) (fun _ => hbroken) (ih hrest)

/-- A message of plain fields was read without a count tag. -/
theorem FieldsRun.plain_of_leaves {s : FixSpec} {groups : List (ℤ × GroupRef)} {pairs : List Pair}
    {G : Forest} (h : FieldsRun s groups pairs G) {l : List Field}
    (hG : G = l.map fun e => (e.1, .leaf e.2)) :
    ∀ p ∈ pairs, ∀ t, atoi? p.1 = some t → Assoc.find? t groups = none := by
  induction h generalizing l with
  | nil => exact fun p hp => absurd hp List.not_mem_nil
  | skip htag _ ih =>
    intro p hp t ht
    rcases List.mem_cons.mp hp with rfl | hp
    · rw [htag] at ht
      cases ht
    · exact ih hG p hp t ht
  | plain htag hplain _ ih =>
    obtain ⟨e, l, rfl⟩ : ∃ e l', l = e :: l' := by
      cases l with
      | nil => cases hG
      | cons e l => exact ⟨e, l, rfl⟩
    intro p hp t ht
    rcases List.mem_cons.mp hp with rfl | hp
    · rw [htag] at ht
      cases ht
      exact hplain
    · exact ih (List.cons.inj hG).2 p hp t ht
  | group =>
    cases l with
    | nil => cases hG
    | cons e l => cases (List.cons.inj hG).1

/-- Where no field is a count field, nothing is cut short. -/
theorem UnbrokenFields.of_plain {s : FixSpec} {groups : List (ℤ × GroupRef)} {pairs : List Pair}
    (h : ∀ p ∈ pairs, ∀ t, atoi? p.1 = some t → Assoc.find? t groups = none) :
    UnbrokenFields s groups pairs := by
  induction pairs with
  | nil => exact .nil
  | cons p pairs ih =>
    obtain ⟨t, v⟩ := p
    have hrest := ih fun q hq => h q (List.mem_cons_of_mem _ hq)
    cases htag : atoi? t with
    | none => exact .skip htag hrest
    | some tag => exact .plain htag (h (t, v) List.mem_cons_self tag htag) hrest

/-- **A buffer whose junk stands clear**, where the codec reads groups at all. -/
def Codec.JunkClearBuffer (c : Codec) (buf : Bytes) : Prop :=
  ∀ pairs, tokenise c.sep buf = .ok pairs → c.JunkClear pairs

/-- **A buffer read alike with the junk and without it** has its junk standing clear. -/
theorem Codec.ReadAs.junkClear {c : Codec} (hsep : c.sep = soh) {buf : Bytes} {G : Forest}
    (h : c.ReadAs buf G) (hints : c.ReadAs (withoutJunk buf) G) : c.JunkClearBuffer buf := by
  intro pairs hpairs s msgSpec hd
  obtain ⟨pairs', hpairs', hrun⟩ := h
  rw [hpairs] at hpairs'
  cases hpairs'
  obtain ⟨ints, hints', hrun'⟩ := hints
  rw [hsep] at hpairs hints'
  rw [tokenise_withoutJunk hpairs] at hints'
  cases hints'
  rw [hd] at hrun'
  cases hall : c.dispatches pairs with
  | none =>
    rw [hall] at hrun
    have hplain := FieldsRun.plain_of_leaves hrun' hrun
    have hplain' : ∀ p ∈ pairs, ∀ t, atoi? p.1 = some t → Assoc.find? t msgSpec.groups = none := by
      intro p hp t ht
      refine hplain p (List.mem_filter.mpr ⟨hp, ?_⟩) t ht
      rw [hasIntTag, ht]
      rfl
    exact ⟨.of_plain hplain', fun _ => hplain'⟩
  | some d =>
    have hsame := dispatches_intPairs hall
    rw [hd] at hsame
    cases hsame
    rw [hall] at hrun
    exact ⟨hrun.unbroken hrun', fun h => absurd h (Option.some_ne_none _)⟩

/-- **Fields without an integer tag are skipped wherever they stand clear**: then the buffer parses
as it does without them.  Where they do not, it is not read as the buffer without them is. -/
theorem parse_withoutJunk (spec : Option FixSpec) {buf : Bytes} (h : AllDelimited buf) :
    ((Codec.new spec).JunkClearBuffer buf →
        (Codec.new spec).parse buf = (Codec.new spec).parse (withoutJunk buf))
      ∧ ∀ G, (Codec.new spec).ReadAs buf G → (Codec.new spec).ReadAs (withoutJunk buf) G →
        (Codec.new spec).JunkClearBuffer buf := by
  have hsep : (Codec.new spec).sep = soh := rfl
  refine ⟨fun hclear => ?_, fun G hG hG' => hG.junkClear hsep hG'⟩
  obtain ⟨pairs, hpairs⟩ := tokenise_of_allDelimited h
  rw [Codec.parse, Codec.parse, hsep, hpairs, tokenise_withoutJunk hpairs]
  exact (hclear pairs hpairs).parsePairs.symm

/-- An order with one party and a field without an integer tag, behind the party or behind its first
field. -/
def junkOrder (behind within : Bytes) : Bytes :=
  [soh].intercalate [ascii "35=D", ascii "453=1", ascii "448=A", behind, within]

/-- A field without an integer tag behind the last field of the party is skipped. -/
theorem parse_withoutJunk_behind :
    (Codec.new (some partySpec)).parse (junkOrder (ascii "447=B") (ascii "x=1"))
      = (Codec.new (some partySpec)).parse
          (withoutJunk (junkOrder (ascii "447=B") (ascii "x=1"))) := by
  refine (parse_withoutJunk (some partySpec) (by decide)).1 fun pairs hpairs s msgSpec hd => ?_
  have hread : tokenise soh (junkOrder (ascii "447=B") (ascii "x=1"))
      = .ok [(ascii "35", ascii "D"), (ascii "453", ascii "1"), (ascii "448", ascii "A"),
        (ascii "447", ascii "B"), (ascii "x", ascii "1")] := by rfl
  obtain rfl := Except.ok.inj (hpairs.symm.trans hread)
  have hspec : (s, msgSpec) = (partySpec, orderSpec) :=
    Option.some.inj (hd.symm.trans (by rfl))
  cases hspec
  have hparty : Unbroken partySpec parties 1 0 false
      [(ascii "448", ascii "A"), (ascii "447", ascii "B"), (ascii "x", ascii "1")]
      (some [(ascii "x", ascii "1")]) :=
    .first (by decide) rfl (.plain (by decide) rfl (by decide) (by decide) rfl (.stop trivial))
  have hrest : UnbrokenFields partySpec orderSpec.groups [(ascii "x", ascii "1")] := .skip rfl .nil
  have hone : atoi? (ascii "1") = some 1 := by rfl
  exact ⟨.plain rfl rfl (.group rfl rfl hone (fun h => absurd h (by decide)) (fun _ => hparty) hrest),
    fun h => absurd h (Option.some_ne_none (partySpec, orderSpec))⟩

/-- Between two fields of the party it ends the group, and the second field is one of the order. -/
theorem junk_within_party :
    AllDelimited (junkOrder (ascii "x=1") (ascii "447=B"))
      ∧ (Codec.new (some partySpec)).parse (junkOrder (ascii "x=1") (ascii "447=B"))
        = .ok [(35, .str (ascii "D")), (447, .str (ascii "B")),
          (453, .group 453 448 [[(448, .str (ascii "A"))]])]
      ∧ (Codec.new (some partySpec)).parse
          (withoutJunk (junkOrder (ascii "x=1") (ascii "447=B")))
        = .ok [(35, .str (ascii "D")),
          (453, .group 453 448 [[(447, .str (ascii "B")), (448, .str (ascii "A"))]])]
      ∧ (Codec.new (some partySpec)).parse (junkOrder (ascii "x=1") (ascii "447=B"))
        ≠ (Codec.new (some partySpec)).parse
          (withoutJunk (junkOrder (ascii "x=1") (ascii "447=B"))) := by
  have hwith : (Codec.new (some partySpec)).parse (junkOrder (ascii "x=1") (ascii "447=B"))
      = .ok [(35, .str (ascii "D")), (447, .str (ascii "B")),
        (453, .group 453 448 [[(448, .str (ascii "A"))]])] := by rfl
  have hwithout : (Codec.new (some partySpec)).parse
      (withoutJunk (junkOrder (ascii "x=1") (ascii "447=B")))
      = .ok [(35, .str (ascii "D")),
        (453, .group 453 448 [[(447, .str (ascii "B")), (448, .str (ascii "A"))]])] := by rfl
  refine ⟨by decide, hwith, hwithout, fun h => ?_⟩
  rw [hwith, hwithout] at h
  exact absurd (congrArg List.length (Except.ok.inj h)) (by decide)

end FixMsg
