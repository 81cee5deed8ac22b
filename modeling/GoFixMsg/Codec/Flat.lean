import GoFixMsg.Message.FixMessage
import GoFixMsg.Message.Shape

/-!
# Codec/Flat — reading a wire back without a dictionary

A wire whose values hold no SOH splits into the fields it was made of, and both parsers set these
fields one after the other (`defaultParse_wireText`, `parse_wireText`).  So a flat fragment comes
back as it was (`setFields_writtenFields`), while a repeated tag keeps its last value only.

Nothing is asked of the order of the fields, so it makes no difference which sort has written the
wire, nor in which order the maps were met.  What such a parser can return at all is described by
`FixFragment.Parsed`: strings without SOH under tags that are Go integers; and on these, stamping,
writing and reading are inverse to each other.
-/

open GoLang

namespace FixMsg

/-! ## Splitting a wire into its fields

Each field ends with the separator, and holds it nowhere else.  So splitting at it gives the fields,
and an empty text behind the last of them, which the parsers skip. -/

/-- A value without SOH. -/
def SohFree (s : Bytes) : Prop := soh ∉ s

instance (s : Bytes) : Decidable (SohFree s) := inferInstanceAs (Decidable (¬ _))

/-- The text of a field, without its separator. -/
def pairText (e : Field) : Bytes := itoa e.1 ++ 61 :: e.2

/-- A field as the parsers see it: the text of the tag, and the value. -/
def tagText (e : Field) : Pair := (itoa e.1, e.2)

theorem fieldText_eq (sep : UInt8) (e : Field) : fieldText sep e.1 e.2 = pairText e ++ [sep] := by
  simp [fieldText, pairText]

/-- A decimal text holds no SOH. -/
theorem sohFree_itoa (n : ℤ) : SohFree (itoa n) := notMem_itoa (by decide) (by decide)

theorem soh_notMem_pairText {e : Field} (h : SohFree e.2) : soh ∉ pairText e := by
  rw [pairText, List.mem_append, List.mem_cons, not_or, not_or]
  exact ⟨sohFree_itoa e.1, by decide, h⟩

theorem pairText_ne_nil (e : Field) : pairText e ≠ [] := by
  rw [pairText]
  exact List.append_ne_nil_of_right_ne_nil _ (List.cons_ne_nil _ _)

theorem cutAt_pairText (e : Field) : cutAt 61 (pairText e) = some (tagText e) :=
  cutAt_append_cons (notMem_itoa (by decide) (by decide)) _

/-- **Splitting a wire at its separator** gives the fields, and an empty one behind the last
separator. -/
theorem splitOn_wireText {sep : UInt8} {l : List Field} (h : ∀ e ∈ l, sep ∉ pairText e) :
    (wireText sep l).splitOn sep = l.map pairText ++ [[]] := by
  induction l with
  | nil => rfl
  | cons e l ih =>
    rw [wireText_cons, fieldText_eq, List.append_assoc, List.singleton_append,
      List.splitOn_append_cons_self_of_not_mem (h e List.mem_cons_self),
      ih fun d hd => h d (List.mem_cons_of_mem _ hd), List.map_cons, List.cons_append]

theorem tokeniseFields_pairText (l : List Field) (fs : List Bytes) :
    tokeniseFields (l.map pairText ++ fs) =
      (tokeniseFields fs).map (l.map tagText ++ ·) := by
  induction l with
  | nil => cases h : tokeniseFields fs <;> simp [h, Except.map]
  | cons e l ih =>
    rw [List.map_cons, List.cons_append, tokeniseFields, if_neg (pairText_ne_nil e),
      cutAt_pairText, ih]
    cases tokeniseFields fs <;> rfl

/-- **`tokenise` reads the fields of a wire back** at a separator that is ASCII. -/
theorem tokenise_wireText_sep {sep : UInt8} (hsep : sep < 128) {l : List Field}
    (h : ∀ e ∈ l, sep ∉ pairText e) : tokenise sep (wireText sep l) = .ok (l.map tagText) := by
  rw [tokenise, splitFields, if_pos hsep, splitOn_wireText h, tokeniseFields_pairText]
  simp [tokeniseFields, Except.map]

theorem tokenise_wireText {l : List Field} (h : ∀ e ∈ l, SohFree e.2) :
    tokenise soh (wireText soh l) = .ok (l.map tagText) :=
  tokenise_wireText_sep (by decide) fun e he => soh_notMem_pairText (h e he)

/-- A separator that is not `SOH` leaves none on the wire. -/
theorem sohFree_wireText {sep : UInt8} (hsep : sep ≠ soh) {l : List Field}
    (h : ∀ e ∈ l, SohFree e.2) : SohFree (wireText sep l) := by
  intro hmem
  obtain ⟨e, he, hmem⟩ := List.mem_flatMap.mp hmem
  rcases List.mem_append.mp hmem with hmem | hmem
  · exact sohFree_itoa _ hmem
  rcases List.mem_cons.mp hmem with heq | hmem
  · exact absurd heq (by decide)
  rcases List.mem_append.mp hmem with hmem | hmem
  · exact h e he hmem
  · exact hsep (List.mem_singleton.mp hmem).symm

/-! ## Setting the fields -/

/-- Set the fields one after the other. -/
def setFields (f : FixFragment) (l : List Field) : FixFragment :=
  l.foldl (fun f e => f.set e.1 e.2) f

theorem setFields_cons (f : FixFragment) (e : Field) (l : List Field) :
    setFields f (e :: l) = setFields (f.set e.1 e.2) l := rfl

theorem setPairs_tagText {l : List Field} (h : ∀ e ∈ l, IsInt64 e.1) (f : FixFragment) :
    setPairs f (l.map tagText) = setFields f l := by
  induction l generalizing f with
  | nil => rfl
  | cons e l ih =>
    rw [List.map_cons, setPairs, tagText, atoi?_itoa (h e List.mem_cons_self), setFields_cons]
    exact ih (fun d hd => h d (List.mem_cons_of_mem _ hd)) _

theorem defaultParseFields_pairText {l : List Field} (h : ∀ e ∈ l, IsInt64 e.1) (f : FixFragment) :
    defaultParseFields f (l.map pairText ++ [[]]) = .ok (setFields f l) := by
  induction l generalizing f with
  | nil => rfl
  | cons e l ih =>
    rw [List.map_cons, List.cons_append, defaultParseFields, if_neg (pairText_ne_nil e),
      cutAt_pairText, tagText, setFields_cons]
    dsimp only
    rw [atoi?_itoa (h e List.mem_cons_self)]
    exact ih (fun d hd => h d (List.mem_cons_of_mem _ hd)) _

/-- **The built-in parser sets the fields of a wire one after the other.** -/
theorem defaultParse_wireText {l : List Field} (hs : ∀ e ∈ l, SohFree e.2)
    (ht : ∀ e ∈ l, IsInt64 e.1) : defaultParse (wireText soh l) = .ok (setFields [] l) := by
  rw [defaultParse]
  split
  · next hnil =>
    cases l with
    | nil => rfl
    | cons e l =>
      rw [wireText_cons, fieldText_eq] at hnil
      exact absurd (List.append_eq_nil_iff.mp hnil).1 (by simp)
  · rw [splitOn_wireText fun e he => soh_notMem_pairText (hs e he), defaultParseFields_pairText ht]

/-- **So does the codec without a dictionary.** -/
theorem parse_wireText {l : List Field} (hs : ∀ e ∈ l, SohFree e.2) (ht : ∀ e ∈ l, IsInt64 e.1) :
    (Codec.new none).parse (wireText soh l) = .ok (setFields [] l) := by
  have hsep : (Codec.new none).sep = soh := rfl
  rw [Codec.parse, hsep, tokenise_wireText hs]
  exact congrArg Except.ok (setPairs_tagText ht [])

theorem setFields_sorted {f : FixFragment} (hf : Assoc.Sorted f) (l : List Field) :
    Assoc.Sorted (setFields f l) := by
  induction l generalizing f with
  | nil => exact hf
  | cons e l ih => exact ih (hf.insert _ _)

theorem find?_setFields_of_notMem {l : List Field} {t : ℤ} (h : t ∉ l.map Prod.fst)
    (f : FixFragment) : Assoc.find? t (setFields f l) = Assoc.find? t f := by
  induction l generalizing f with
  | nil => rfl
  | cons e l ih =>
    rw [List.map_cons, List.mem_cons, not_or] at h
    rw [setFields_cons, ih h.2, FixFragment.set, Assoc.find?_insert_of_ne h.1]

/-- **The last value of a tag is the one that stays.** -/
theorem find?_setFields_append {l r : List Field} {t : ℤ} (h : t ∉ r.map Prod.fst) (s : Bytes)
    (f : FixFragment) : Assoc.find? t (setFields f (l ++ (t, s) :: r)) = some (.str s) := by
  rw [setFields, List.foldl_append]
  change Assoc.find? t (setFields (setFields f l) ((t, s) :: r)) = _
  rw [setFields_cons, find?_setFields_of_notMem h, FixFragment.set, Assoc.find?_insert_self]

/-! ## A flat fragment comes back -/

theorem fieldsAt_str {f : FixFragment} {t : ℤ} {s : Bytes} (h : f.get t = some s) :
    fieldsAt f t = [(t, s)] := by
  rw [fieldsAt, FixFragment.get_eq_some_iff.mp h]
  rfl

theorem FixFragment.Flat.get {f : FixFragment} (h : f.Flat) {t : ℤ} (ht : t ∈ f.tags) :
    ∃ s, f.get t = some s := by
  obtain ⟨v, hv⟩ := Option.isSome_iff_exists.mp (Assoc.find?_isSome_iff.mpr ht)
  obtain ⟨s, hs⟩ := h _ (Assoc.mem_of_find? hv)
  dsimp only at hs
  subst hs
  exact ⟨s, FixFragment.get_eq_some_iff.mpr hv⟩

theorem FixFragment.Flat.mem_tags_iff {f : FixFragment} (h : f.Flat) {t : ℤ} :
    t ∈ f.tags ↔ (f.get t).isSome = true := by
  constructor
  · intro ht
    obtain ⟨s, hs⟩ := h.get ht
    rw [hs]
    rfl
  · intro hs
    obtain ⟨s, hs⟩ := Option.isSome_iff_exists.mp hs
    exact FixFragment.mem_tags_of_get hs

theorem sohFree_writtenFields {f : FixFragment} (hplain : f.Plain) (hs : f.AllStrings SohFree)
    (σ : SortSlice) : ∀ e ∈ writtenFields σ f, SohFree e.2 :=
  forall_writeFragment hplain (fun g hg t s hmem => hs g hg (t, .str s) hmem s rfl)
    (fun _ _ _ _ _ ms _ => sohFree_itoa ms.length) σ tagSortKey []

theorem isInt64_writtenFields {f : FixFragment} (hplain : f.Plain) (hwf : f.WF) (σ : SortSlice) :
    ∀ e ∈ writtenFields σ f, IsInt64 e.1 :=
  forall_writeFragment hplain
    (fun g hg t _ hmem => (hwf g hg).2 t (List.mem_map.mpr ⟨_, hmem, rfl⟩))
    (fun g hg t _ _ _ hmem => (hwf g hg).2 t (List.mem_map.mpr ⟨_, hmem, rfl⟩)) σ tagSortKey []

theorem sohFree_wireFields {f : FixFragment} (hplain : f.Plain) (hs : f.AllStrings SohFree) :
    ∀ e ∈ wireFields f, SohFree e.2 := sohFree_writtenFields hplain hs .stable

theorem isInt64_wireFields {f : FixFragment} (hplain : f.Plain) (hwf : f.WF) :
    ∀ e ∈ wireFields f, IsInt64 e.1 := isInt64_writtenFields hplain hwf .stable

/-- **Setting the fields of a flat fragment one after the other gives the fragment back**, in
whatever order they come. -/
theorem setFields_of_perm {f : FixFragment} (h : f.Flat) (hsorted : Assoc.Sorted f) {ts : List ℤ}
    (hperm : ts.Perm f.tags) : setFields [] (ts.map fun t => (t, f.getD t)) = f := by
  refine (setFields_sorted Assoc.sorted_nil _).ext hsorted fun t => ?_
  have hkeys : ((ts.map fun t => (t, f.getD t)) : List Field).map Prod.fst = ts := by
    rw [List.map_map]
    exact List.map_id _
  have hnodup : ts.Nodup := hperm.nodup_iff.mpr hsorted.nodup
  by_cases ht : t ∈ ts
  · obtain ⟨s, hs⟩ := h.get (hperm.mem_iff.mp ht)
    obtain ⟨l, r, rfl⟩ := List.append_of_mem ht
    have hr : t ∉ ((r.map fun t => (t, f.getD t)) : List Field).map Prod.fst := by
      rw [List.map_map]
      have hr := (List.nodup_cons.mp (List.nodup_append.mp hnodup).2.1).1
      exact fun hmem => hr (by simpa using hmem)
    rw [List.map_append, List.map_cons, find?_setFields_append hr,
      FixFragment.getD_of_get hs, FixFragment.get_eq_some_iff.mp hs]
  · rw [find?_setFields_of_notMem (hkeys.symm ▸ ht), Assoc.find?_nil,
      Assoc.find?_eq_none_iff.mpr fun hmem => ht (hperm.mem_iff.mpr hmem)]

/-- The fields of a flat fragment are its strings, in some order of its tags. -/
theorem writtenFields_flat {f : FixFragment} (h : f.Flat) (σ : SortSlice) :
    writtenFields σ f = (σ.run [] tagSortKey f.tags).map fun t => (t, f.getD t) := by
  rw [writtenFields, writeFragment,
    (inOrder_out (writeFragment_fault σ tagSortKey f h.plain [])).2, List.map_eq_flatMap]
  refine List.flatMap_congr fun t ht => ?_
  obtain ⟨s, hs⟩ := h.get (σ.mem_run.mp ht)
  rw [find?_writeFields, FixFragment.get_eq_some_iff.mp hs, FixFragment.getD_of_get hs]
  rfl

/-- **A flat fragment is what its fields set.** -/
theorem setFields_writtenFields {f : FixFragment} (h : f.Flat) (hsorted : Assoc.Sorted f)
    (σ : SortSlice) : setFields [] (writtenFields σ f) = f := by
  rw [writtenFields_flat h]
  exact setFields_of_perm h hsorted (σ.perm _ _ _)

/-! ## What the built-in parser returns -/

/-- A piece between separators holds none. -/
theorem notMem_of_mem_splitOn {c : UInt8} {s x : Bytes} (h : x ∈ s.splitOn c) : c ∉ x := by
  induction s generalizing x with
  | nil =>
    rw [List.splitOn_nil, List.mem_singleton] at h
    rw [h]
    exact List.not_mem_nil
  | cons b s ih =>
    rw [List.splitOn_cons_eq_if_modifyHead] at h
    split at h
    · rcases List.mem_cons.mp h with rfl | h
      · exact List.not_mem_nil
      · exact ih h
    · next hb =>
      cases hs : s.splitOn c with
      | nil => exact absurd hs (List.splitOn_ne_nil c s)
      | cons y ys =>
        rw [hs] at h
        rcases List.mem_cons.mp h with rfl | h
        · rw [List.mem_cons, not_or]
          exact ⟨fun hcb => hb (by simp [hcb]), ih (hs ▸ List.mem_cons_self)⟩
        · exact ih (hs ▸ List.mem_cons_of_mem _ h)

/-- **What a parser without a dictionary can return**: strings without SOH under `int` tags. -/
structure FixFragment.Parsed (f : FixFragment) : Prop where
  flat : f.Flat
  wf : f.WF
  values : f.AllStrings SohFree

theorem parsed_nil : FixFragment.Parsed [] where
  flat _ he := absurd he List.not_mem_nil
  wf := FixFragment.wf_nil
  values g hg _ he := by
    rw [List.mem_singleton.mp hg] at he
    cases he

theorem FixFragment.Parsed.set {f : FixFragment} (h : f.Parsed) {tag : ℤ} (ht : IsInt64 tag)
    {s : Bytes} (hs : SohFree s) : (f.set tag s).Parsed :=
  ⟨h.flat.set tag s, h.wf.set ht s, h.values.set tag hs⟩

theorem sohFree_padded3 (n : ℕ) : SohFree (Decimal.padded3 n) := fun hmem =>
  absurd (Decimal.isDigit_of_mem_padded3 hmem) (by decide)

theorem FixFragment.Parsed.stampBody {f : FixFragment} (h : f.Parsed) (body : Bytes) :
    (FixMsg.stampBody f body).Parsed :=
  (h.set (by decide) (sohFree_itoa _)).set (by decide) (sohFree_padded3 _)

/-- **The wire of strings without SOH and groups** is the text of fields without SOH, under
integers. -/
theorem toWire_fields (σ τ : SortSlice) (codec : Option Codec) {m : FixMessage}
    (hplain : m.fields.Plain) (hvalues : m.fields.AllStrings SohFree) :
    ∃ body, (toWire σ τ codec m).2
        = .ok (wireText (wireSep codec) (writtenFields τ (FixMsg.stampBody m.fields body)))
      ∧ (FixMsg.stampBody m.fields body).Plain
      ∧ (∀ e ∈ writtenFields τ (FixMsg.stampBody m.fields body), SohFree e.2)
      ∧ ∀ e ∈ writtenFields τ (FixMsg.stampBody m.fields body), IsInt64 e.1 := by
  obtain ⟨body, -, hwire⟩ := @toWire_written σ τ codec m hplain
  have hplain' : (FixMsg.stampBody m.fields body).Plain := (hplain.set _ _).set _ _
  have hvalues' : (FixMsg.stampBody m.fields body).AllStrings SohFree :=
    (hvalues.set _ (sohFree_itoa _)).set _ (sohFree_padded3 _)
  exact ⟨body, hwire, hplain', sohFree_writtenFields hplain' hvalues' τ,
    isInt64_writtenFields hplain' (stampBody_wf m.wf body) τ⟩

theorem parsed_defaultParseFields {fields : List Bytes} {m f : FixFragment} (hm : m.Parsed)
    (hfields : ∀ x ∈ fields, SohFree x) (h : defaultParseFields m fields = .ok f) : f.Parsed := by
  induction fields generalizing m with
  | nil =>
    cases h
    exact hm
  | cons x fields ih =>
    have hrest : ∀ y ∈ fields, SohFree y := fun y hy => hfields y (List.mem_cons_of_mem _ hy)
    rw [defaultParseFields] at h
    split at h
    · exact ih hm hrest h
    · split at h
      · cases h
      · next t value hcut =>
        split at h
        · exact ih hm hrest h
        · next tag htag =>
          refine ih (hm.set (isInt64_of_atoi? htag) fun hmem => ?_) hrest h
          refine hfields x List.mem_cons_self ?_
          rw [(eq_of_cutAt hcut).1]
          exact List.mem_append_right _ (List.mem_cons_of_mem _ hmem)

/-- **The built-in parser returns strings without SOH under `int` tags.** -/
theorem parsed_defaultParse {buf : Bytes} {f : FixFragment} (h : defaultParse buf = .ok f) :
    f.Parsed := by
  rw [defaultParse] at h
  split at h
  · cases h
    exact parsed_nil
  · exact parsed_defaultParseFields parsed_nil (fun x hx => notMem_of_mem_splitOn hx) h

/-- Merging a parsed fragment into a fresh message gives the fragment. -/
theorem mergeFields_nil {f : FixFragment} (h : f.Parsed) : mergeFields [] f = f := by
  have hfields : ∀ (l : List (ℤ × Value)) (m : FixFragment), (∀ e ∈ l, e ∈ f) →
      l.foldl (fun m e => Assoc.insert e.1 e.2 m) m
        = setFields m (l.map fun e => (e.1, f.getD e.1)) := by
    intro l
    induction l with
    | nil => exact fun _ _ => rfl
    | cons e l ih =>
      intro m hl
      obtain ⟨s, hs⟩ := h.flat e (hl e List.mem_cons_self)
      have hget : f.get e.1 = some s := by
        rw [FixFragment.get_eq_some_iff, h.wf.sorted.find?_eq_some_iff, ← hs]
        exact hl e List.mem_cons_self
      rw [List.foldl_cons, List.map_cons, setFields_cons, FixFragment.getD_of_get hget, hs]
      exact ih _ fun d hd => hl d (List.mem_cons_of_mem _ hd)
  rw [mergeFields, hfields f [] fun _ he => he]
  have hmap : (f.map fun e => ((e.1, f.getD e.1) : Field)) = f.tags.map fun t => (t, f.getD t) := by
    rw [FixFragment.tags, Assoc.keys, List.map_map]
    rfl
  rw [hmap]
  exact setFields_of_perm h.flat h.wf.sorted (List.Perm.refl _)

/-- **`LoadFix` into a fresh message is the built-in parser.** -/
theorem loadFix_fresh (buf : Bytes) : loadFix none [] buf = defaultParse buf := by
  rw [loadFix]
  cases h : defaultParse buf with
  | error e => rfl
  | ok f => exact congrArg Except.ok (mergeFields_nil (parsed_defaultParse h))

/-! ## The stamped message

Stamping sets two more strings, so all this holds of the message that `ToWire` leaves: its wire is
read back as it was stamped, whatever its tags. -/

/-- **A message of strings without SOH is read back as `ToWire` stamped it**, whatever its tags. -/
theorem defaultParse_toWire {σ τ : SortSlice} {codec : Option Codec}
    (hcodec : ∀ c ∈ codec, c.separator = soh) {m : FixMessage} (h : m.fields.Parsed) :
    ∃ body out, (toWire σ τ codec m).1.fields = stampBody m.fields body
      ∧ (toWire σ τ codec m).2 = .ok out
      ∧ out = wireText soh (writtenFields τ (stampBody m.fields body))
      ∧ defaultParse out = .ok (stampBody m.fields body) := by
  obtain ⟨body, hfields, hout⟩ := @toWire_of_plain σ τ codec hcodec m h.flat.plain
  obtain ⟨hflat, hwf, hvalues⟩ := h.stampBody body
  refine ⟨body, _, hfields, hout, rfl, ?_⟩
  rw [defaultParse_wireText (sohFree_writtenFields hflat.plain hvalues τ)
    (isInt64_writtenFields hflat.plain hwf τ), setFields_writtenFields hflat hwf.sorted]

end FixMsg
