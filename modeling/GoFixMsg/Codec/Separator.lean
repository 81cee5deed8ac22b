import GoFixMsg.Codec.Parsers

/-!
# Codec/Separator — a separator of one's own

`Serialise` puts the separator on the wire as one byte; `tokenise` splits at `string(separator)`,
the UTF-8 encoding of the rune with that number.  Below 128 the two are the same text, and a flat
message comes back as it was.  From 128 on the encoding is two bytes long and no field ends where
it was written to end: the first field of any message comes back with another value
(`splitOn2_wireText`).
-/

open GoLang

namespace FixMsg

/-- A separator that stands neither in the text of a positive tag nor for the delimiter. -/
def IsSeparator (sep : UInt8) : Prop := sep ≠ 0 ∧ sep ≠ 61 ∧ Decimal.isDigit sep = false

instance (sep : UInt8) : Decidable (IsSeparator sep) := inferInstanceAs (Decidable (_ ∧ _ ∧ _))

/-- **Parsing what was serialised gives the fragment back.** -/
def Codec.RoundTrips (c : Codec) (σ : SortSlice) (f : FixFragment) : Prop :=
  ∃ out, c.serialise σ f = .ok out ∧ c.parse out = .ok f

theorem sep_withSeparator (c : Codec) {sep : UInt8} (h : IsSeparator sep) :
    (c.withSeparator sep).sep = sep := if_neg h.1

/-- A fragment of strings and groups is written as the text of its fields. -/
theorem Codec.serialise_of_plain {f : FixFragment} (hplain : f.Plain) (c : Codec) (σ : SortSlice) :
    c.serialise σ f = .ok (wireText c.sep (writtenFields σ f)) := by
  rw [c.serialise_eq, writeFragment_written hplain]
  rfl

/-- Without a dictionary the pairs of fields under `int` tags are set one after the other. -/
theorem parse_of_tokenise {sep : UInt8} {out : Bytes} {l : List Field}
    (h : tokenise ((Codec.new none).withSeparator sep).sep out = .ok (l.map tagText))
    (ht : ∀ e ∈ l, IsInt64 e.1) :
    ((Codec.new none).withSeparator sep).parse out = .ok (setFields [] l) := by
  rw [Codec.parse, h]
  exact congrArg Except.ok (setPairs_tagText ht [])

/-! ## An ASCII separator -/

/-- A separator does not occur in the text of a field whose value is free of it. -/
theorem IsSeparator.notMem_pairText {sep : UInt8} (h : IsSeparator sep) {e : Field}
    (hpos : 0 < e.1) (he : sep ∉ e.2) : sep ∉ pairText e := by
  have hitoa : sep ∉ itoa e.1 := by
    rw [itoa, if_neg (not_lt.mpr hpos.le)]
    exact Decimal.notMem_numeral h.2.2
  rw [pairText, List.mem_append, List.mem_cons, not_or, not_or]
  exact ⟨hitoa, h.2.1, he⟩

theorem roundTrips_of_ascii {sep : UInt8} (hsep : IsSeparator sep) (hascii : sep < 128)
    (σ : SortSlice) {f : FixFragment} (hflat : f.Flat) (hwf : f.WF)
    (hpos : ∀ e ∈ writtenFields σ f, 0 < e.1) (hvalues : ∀ e ∈ writtenFields σ f, sep ∉ e.2) :
    ((Codec.new none).withSeparator sep).RoundTrips σ f := by
  refine ⟨_, Codec.serialise_of_plain hflat.plain _ σ, ?_⟩
  rw [sep_withSeparator _ hsep, parse_of_tokenise (l := writtenFields σ f)]
  · rw [setFields_writtenFields hflat hwf.sorted]
  · rw [sep_withSeparator _ hsep]
    exact tokenise_wireText_sep hascii fun e he =>
      hsep.notMem_pairText (hpos e he) (hvalues e he)
  · exact isInt64_writtenFields hflat.plain hwf σ

/-! ## Splitting at two bytes

A text that has been joined with one byte is split at two.  The two may stand within a value, or
they are the last byte of a value and the separator behind it. -/

section SplitOn2

variable {a b : UInt8}

theorem splitOn2_pair (a b : UInt8) (s : Bytes) :
    splitOn2 a b (a :: b :: s) = [] :: splitOn2 a b s := by
  rw [splitOn2, if_pos ⟨rfl, rfl⟩]

theorem splitOn2_cons_of_not {x : UInt8} {s : Bytes} (h : ¬ (x = a ∧ s.head? = some b)) :
    splitOn2 a b (x :: s) = (splitOn2 a b s).modifyHead (x :: ·) := by
  cases s with
  | nil => rfl
  | cons y s =>
    rw [splitOn2, if_neg]
    rintro ⟨hx, hy⟩
    exact h ⟨hx, by rw [hy, List.head?_cons]⟩

/-- Two bytes at the head of a text. -/
theorem pair_infix_cons {x : UInt8} {s : Bytes} :
    [a, b] <:+: x :: s ↔ x = a ∧ s.head? = some b ∨ [a, b] <:+: s := by
  rw [List.infix_cons_iff, List.cons_prefix_cons]
  refine or_congr_left (and_congr eq_comm ?_)
  cases s with
  | nil => simp
  | cons y s => simp [eq_comm]

/-- Two bytes in a joined text stand on one side, or one on each. -/
theorem pair_infix_append {s t : Bytes} (h : [a, b] <:+: s ++ t) :
    [a, b] <:+: s ∨ ((∃ u, s = u ++ [a]) ∧ t.head? = some b) ∨ [a, b] <:+: t := by
  induction s with
  | nil => exact Or.inr (Or.inr h)
  | cons x s ih =>
    rw [List.cons_append, pair_infix_cons] at h
    rcases h with ⟨rfl, hhead⟩ | h
    · cases s with
      | nil => exact Or.inr (Or.inl ⟨⟨[], rfl⟩, hhead⟩)
      | cons y s => exact Or.inl (pair_infix_cons.mpr (Or.inl ⟨rfl, hhead⟩))
    · rcases ih h with h | ⟨⟨u, rfl⟩, hhead⟩ | h
      · exact Or.inl (pair_infix_cons.mpr (Or.inr h))
      · exact Or.inr (Or.inl ⟨⟨x :: u, rfl⟩, hhead⟩)
      · exact Or.inr (Or.inr h)

/-- **Text without the two bytes is not split**, and joins the first piece of what follows. -/
theorem splitOn2_append {s t : Bytes} (h : ¬ [a, b] <:+: s)
    (hjoin : ∀ u, s = u ++ [a] → t.head? ≠ some b) :
    splitOn2 a b (s ++ t) = (splitOn2 a b t).modifyHead (s ++ ·) := by
  induction s with
  | nil => cases hs : splitOn2 a b t <;> simp [hs]
  | cons x s ih =>
    rw [pair_infix_cons, not_or] at h
    have hcut : ¬ (x = a ∧ (s ++ t).head? = some b) := by
      rintro ⟨rfl, hhead⟩
      cases s with
      | nil => exact hjoin [] rfl hhead
      | cons y s => exact h.1 ⟨rfl, hhead⟩
    rw [List.cons_append, splitOn2_cons_of_not hcut,
      ih h.2 fun u hu => hjoin (x :: u) (by rw [hu, List.cons_append]), List.modifyHead_modifyHead]
    rfl

/-- The first piece begins the text, and none holds the two bytes. -/
theorem splitOn2_pieces (a b : UInt8) (s : Bytes) :
    ∃ p ps, splitOn2 a b s = p :: ps ∧ p <+: s ∧ ∀ q ∈ p :: ps, ¬ [a, b] <:+: q := by
  induction hlen : s.length using Nat.strongRecOn generalizing s with
  | ind n ih =>
    cases s with
    | nil => exact ⟨[], [], rfl, List.prefix_refl _, by simp⟩
    | cons x s =>
      rw [List.length_cons] at hlen
      by_cases hcut : x = a ∧ s.head? = some b
      · obtain ⟨rfl, hhead⟩ := hcut
        obtain ⟨t, rfl⟩ : ∃ t, s = b :: t := by
          cases s with
          | nil => cases hhead
          | cons y t => exact ⟨t, by rw [Option.some.inj hhead]⟩
        rw [List.length_cons] at hlen
        obtain ⟨p, ps, hsplit, -, hpieces⟩ := ih t.length (by omega) t rfl
        refine ⟨[], p :: ps, by rw [splitOn2_pair, hsplit], List.nil_prefix, ?_⟩
        intro q hq
        rcases List.mem_cons.mp hq with rfl | hq
        · simp
        · exact hpieces q hq
      · obtain ⟨p, ps, hsplit, hhead, hpieces⟩ := ih s.length (by omega) s rfl
        refine ⟨x :: p, ps, by rw [splitOn2_cons_of_not hcut, hsplit]; rfl,
          List.cons_prefix_cons.mpr ⟨rfl, hhead⟩, ?_⟩
        intro q hq
        rcases List.mem_cons.mp hq with rfl | hq
        · rw [pair_infix_cons, not_or]
          refine ⟨?_, hpieces p List.mem_cons_self⟩
          rintro ⟨hx, hp⟩
          obtain ⟨r, rfl⟩ := hhead
          refine hcut ⟨hx, ?_⟩
          rw [List.head?_append, hp]
          rfl
        · exact hpieces q (List.mem_cons_of_mem _ hq)

end SplitOn2

/-! ## A separator outside ASCII

The separator written is the second byte of its own encoding, or another one.  Either the first
field is cut within its value, or it runs on into the next field. -/

section Encoded

variable {a b : UInt8}

/-- A byte outside ASCII does not occur in front of a value. -/
theorem notMem_tagPart {c : UInt8} (hc : 128 ≤ c) (t : ℤ) : c ∉ itoa t ++ [61] := by
  have hdigit : Decimal.isDigit c = false := by
    rw [Bool.eq_false_iff]
    intro hd
    have h1 := (Decimal.isDigit_iff c).mp hd
    have h2 := UInt8.le_iff_toNat_le.mp hc
    have h3 : (128 : UInt8).toNat = 128 := rfl
    omega
  have hne : ∀ k : UInt8, k < 128 → c ≠ k := fun k hk he =>
    absurd (UInt8.lt_of_lt_of_le hk hc) (by rw [he]; exact UInt8.lt_irrefl k)
  rw [List.mem_append, List.mem_singleton, not_or]
  exact ⟨notMem_itoa hdigit (hne 45 (by decide)), hne 61 (by decide)⟩

theorem pairText_append (e : Field) : pairText e = (itoa e.1 ++ [61]) ++ e.2 := by
  rw [pairText, List.append_assoc, List.singleton_append]

theorem pairText_snoc (t : ℤ) (v w : Bytes) : pairText (t, v ++ w) = pairText (t, v) ++ w := by
  simp [pairText]

/-- The encoding of a separator occurs in a field only within its value. -/
theorem not_infix_pairText (ha : 128 ≤ a) {e : Field} (he : ¬ [a, b] <:+: e.2) :
    ¬ [a, b] <:+: pairText e := by
  have hmem : ∀ s : Bytes, [a, b] <:+: s → a ∈ s := fun s hs => hs.subset List.mem_cons_self
  rw [pairText_append]
  intro h
  rcases pair_infix_append h with h | ⟨⟨u, hu⟩, -⟩ | h
  · exact notMem_tagPart ha e.1 (hmem _ h)
  · exact notMem_tagPart ha e.1 (by rw [hu]; simp)
  · exact he h

theorem head?_wireText_ne {sep : UInt8} (hb : 128 ≤ b) (l : List Field) :
    (wireText sep l).head? ≠ some b := by
  cases l with
  | nil => exact (Option.some_ne_none b).symm
  | cons e l =>
    intro h
    rw [wireText_cons, fieldText_eq, pairText_append] at h
    refine notMem_tagPart hb e.1 (List.mem_of_mem_head? (l := itoa e.1 ++ [61]) ?_)
    cases hi : itoa e.1 with
    | nil => exact absurd hi (itoa_ne_nil _)
    | cons c cs =>
      rw [hi] at h
      exact h

/-- A field in front of a text is cut short by its last byte and the separator, or runs on into the
text: it never ends where it was written to end. -/
theorem splitOn2_fieldText (sep : UInt8) (ha : 128 ≤ a) {e : Field} (he : ¬ [a, b] <:+: e.2)
    {w p : Bytes} {ps : List Bytes} (hw : w.head? ≠ some b) (hsplit : splitOn2 a b w = p :: ps) :
    ∃ v qs, splitOn2 a b (fieldText sep e.1 e.2 ++ w) = pairText (e.1, v) :: qs ∧ v ≠ e.2
      ∧ (qs = p :: ps ∨ qs = ps) := by
  have htext : ¬ [a, b] <:+: pairText e := not_infix_pairText ha he
  rw [fieldText_eq, List.append_assoc, List.singleton_append]
  by_cases hcut : (∃ u, e.2 = u ++ [a]) ∧ sep = b
  · obtain ⟨⟨u, hu⟩, rfl⟩ := hcut
    have hsnoc : pairText e = pairText (e.1, u) ++ [a] := by rw [← pairText_snoc, ← hu]
    refine ⟨u, p :: ps, ?_, by rw [hu]; simp, Or.inl rfl⟩
    rw [hsnoc, List.append_assoc, List.singleton_append, splitOn2_append, splitOn2_pair, hsplit]
    · simp
    · exact fun h => htext (hsnoc ▸ h.trans (List.prefix_append _ _).isInfix)
    · intro r hr hhead
      refine htext ⟨r, [], ?_⟩
      rw [hsnoc, hr, Option.some.inj hhead]
      simp
  · have hw' : ¬ (sep = a ∧ w.head? = some b) := fun h => hw h.2
    refine ⟨e.2 ++ sep :: p, ps, ?_, by simp, Or.inr rfl⟩
    rw [splitOn2_append htext, splitOn2_cons_of_not hw', hsplit, pairText_snoc]
    · rfl
    · intro r hr hhead
      refine hcut ⟨?_, Option.some.inj hhead⟩
      rcases List.eq_nil_or_concat e.2 with hnil | ⟨u, c, hu⟩
      · rw [pairText_append, hnil, List.append_nil] at hr
        exact absurd (by rw [hr]; simp) (notMem_tagPart ha e.1)
      · rw [pairText_append, hu, List.concat_eq_append, ← List.append_assoc] at hr
        refine ⟨u, ?_⟩
        rw [hu, List.concat_eq_append, (List.append_inj' hr rfl).2]

/-- **How a wire comes apart**: its first field has the tag that was written and another value, and
what is behind it comes under tags of the other fields. -/
theorem splitOn2_wireText (sep : UInt8) (ha : 128 ≤ a) (hb : 128 ≤ b) {e : Field} {l : List Field}
    (h : ∀ d ∈ e :: l, ¬ [a, b] <:+: d.2) :
    ∃ v ps, splitOn2 a b (wireText sep (e :: l)) = pairText (e.1, v) :: ps ∧ v ≠ e.2
      ∧ ∃ fs : List Field, tokeniseFields ps = .ok (fs.map tagText)
        ∧ ∀ d ∈ fs, d.1 ∈ l.map Prod.fst := by
  induction l generalizing e with
  | nil =>
    have hhead : ([] : Bytes).head? ≠ some b := (Option.some_ne_none b).symm
    have hend : splitOn2 a b [] = [] :: [] := rfl
    obtain ⟨v, qs, hsplit, hv, hqs⟩ :=
      splitOn2_fieldText sep ha (h e List.mem_cons_self) hhead hend
    refine ⟨v, qs, hsplit, hv, [], ?_, fun d hd => absurd hd List.not_mem_nil⟩
    rcases hqs with rfl | rfl <;> rfl
  | cons d l ih =>
    obtain ⟨u, ps, hrest, -, fs, hfs, htags⟩ := ih fun c hc => h c (List.mem_cons_of_mem _ hc)
    obtain ⟨v, qs, hsplit, hv, hqs⟩ := splitOn2_fieldText sep ha (h e List.mem_cons_self)
      (head?_wireText_ne hb (d :: l)) hrest
    refine ⟨v, qs, hsplit, hv, ?_⟩
    have htags' : ∀ c ∈ fs, c.1 ∈ (d :: l).map Prod.fst := fun c hc =>
      List.mem_cons_of_mem _ (htags c hc)
    rcases hqs with rfl | rfl
    · refine ⟨(d.1, u) :: fs, ?_, fun c hc => ?_⟩
      · rw [tokeniseFields, if_neg (pairText_ne_nil _), cutAt_pairText, hfs]
        rfl
      · rcases List.mem_cons.mp hc with rfl | hc
        · exact List.mem_cons_self
        · exact htags' c hc
    · exact ⟨fs, hfs, htags'⟩

end Encoded

/-! ## What such a separator loses -/

/-- The strings of a parse are values of its pairs. -/
theorem value_of_setPairs {pairs : List Pair} {f : FixFragment} {t : ℤ} {v : Bytes}
    (h : Assoc.find? t (setPairs f pairs) = some (.str v)) :
    Assoc.find? t f = some (.str v) ∨ ∃ p ∈ pairs, p.2 = v := by
  induction pairs generalizing f with
  | nil => exact Or.inl h
  | cons p pairs ih =>
    rw [setPairs] at h
    rw [List.exists_mem_cons_iff]
    cases htag : atoi? p.1 with
    | none =>
      rw [htag] at h
      exact (ih h).imp_right Or.inr
    | some tag =>
      rw [htag] at h
      rcases ih h with h | h
      · rw [FixFragment.set, Assoc.find?_insert] at h
        split at h
        · cases h
          exact Or.inr (Or.inl rfl)
        · exact Or.inl h
      · exact Or.inr (Or.inr h)

/-- A wire split at two bytes is never read back as the fields it was written from.  A value that
holds the two bytes is no part of a piece. -/
theorem setPairs_ne_of_splitOn2 {a b sep : UInt8} (ha : 128 ≤ a) (hb : 128 ≤ b) {l : List Field}
    (hne : l ≠ []) (hnodup : (l.map Prod.fst).Nodup) (hint : ∀ e ∈ l, IsInt64 e.1)
    {pairs : List Pair} (hpairs : tokeniseFields (splitOn2 a b (wireText sep l)) = .ok pairs) :
    ∃ e ∈ l, Assoc.find? e.1 (setPairs [] pairs) ≠ some (.str e.2) := by
  by_cases hfree : ∀ e ∈ l, ¬ [a, b] <:+: e.2
  · obtain ⟨e, l, rfl⟩ := List.exists_cons_of_ne_nil hne
    refine ⟨e, List.mem_cons_self, fun h => ?_⟩
    obtain ⟨v, ps, hsplit, hv, fs, hfs, htags⟩ := splitOn2_wireText sep ha hb hfree
    have hread : pairs = ((e.1, v) :: fs).map tagText := by
      rw [hsplit, tokeniseFields, if_neg (pairText_ne_nil _), cutAt_pairText, hfs] at hpairs
      exact (Except.ok.inj hpairs).symm
    rw [List.map_cons, List.nodup_cons] at hnodup
    have hint' : ∀ d ∈ (e.1, v) :: fs, IsInt64 d.1 := by
      intro d hd
      rcases List.mem_cons.mp hd with rfl | hd
      · exact hint e List.mem_cons_self
      · obtain ⟨c, hc, heq⟩ := List.mem_map.mp (htags d hd)
        exact heq ▸ hint c (List.mem_cons_of_mem _ hc)
    have hother : e.1 ∉ fs.map Prod.fst := by
      intro hmem
      obtain ⟨d, hd, heq⟩ := List.mem_map.mp hmem
      exact hnodup.1 (heq ▸ htags d hd)
    rw [hread, setPairs_tagText hint', setFields_cons, find?_setFields_of_notMem hother,
      FixFragment.set, Assoc.find?_insert_self] at h
    cases h
    exact hv rfl
  · obtain ⟨e, hfree⟩ := not_forall.mp hfree
    obtain ⟨he, hin⟩ := Classical.not_imp.mp hfree
    refine ⟨e, he, fun h => ?_⟩
    rcases value_of_setPairs h with h | ⟨q, hq, hvalue⟩
    · cases h
    · obtain ⟨x, hx, hcut⟩ := (mem_of_tokeniseFields hpairs).mp hq
      obtain ⟨p, ps, hsplit, -, hpieces⟩ := splitOn2_pieces a b (wireText sep l)
      refine hpieces x (hsplit ▸ hx) ((not_not.mp hin).trans ?_)
      rw [(eq_of_cutAt hcut).1, hvalue]
      exact ⟨q.1 ++ [61], [], by simp⟩

/-- The encoding of a byte outside ASCII lies outside ASCII. -/
theorem encoded_ge (sep : UInt8) :
    (128 : UInt8) ≤ (0xC0 : UInt8) ||| sep >>> 6
      ∧ (128 : UInt8) ≤ (0x80 : UInt8) ||| sep &&& 0x3F := by
  have hor : ∀ x y : UInt8, 128 ≤ x → 128 ≤ x ||| y := by
    intro x y hx
    rw [UInt8.le_iff_toNat_le, UInt8.toNat_or]
    exact (UInt8.le_iff_toNat_le.mp hx).trans Nat.left_le_or
  exact ⟨hor _ _ (by decide), hor _ _ (by decide)⟩

/-- **A separator outside ASCII brings no field back.** -/
theorem not_roundTrips_of_not_ascii {sep : UInt8} (hsep : IsSeparator sep) (hascii : ¬ sep < 128)
    (σ : SortSlice) {f : FixFragment} (hflat : f.Flat) (hwf : f.WF) (hne : f ≠ []) :
    ¬ ((Codec.new none).withSeparator sep).RoundTrips σ f := by
  rintro ⟨out, hout, hparse⟩
  rw [Codec.serialise_of_plain hflat.plain, sep_withSeparator _ hsep] at hout
  obtain rfl := Except.ok.inj hout
  rw [Codec.parse, sep_withSeparator _ hsep, tokenise, splitFields, if_neg hascii] at hparse
  cases hpairs : tokeniseFields (splitOn2 ((0xC0 : UInt8) ||| sep >>> 6)
      ((0x80 : UInt8) ||| sep &&& 0x3F) (wireText sep (writtenFields σ f))) with
  | error e => rw [hpairs] at hparse; cases hparse
  | ok pairs =>
    rw [hpairs] at hparse
    have hread : setPairs [] pairs = f := Except.ok.inj hparse
    have hfields := writtenFields_flat hflat σ
    have htags : (writtenFields σ f).map Prod.fst = σ.run [] tagSortKey f.tags := by
      rw [hfields, List.map_map]
      exact List.map_id _
    have hwritten : writtenFields σ f ≠ [] := by
      intro hnil
      rw [hnil] at htags
      have hperm := σ.perm [] tagSortKey f.tags
      rw [← htags] at hperm
      exact hne (List.map_eq_nil_iff.mp hperm.nil_eq.symm)
    obtain ⟨e, he, hlost⟩ := setPairs_ne_of_splitOn2 (encoded_ge sep).1 (encoded_ge sep).2 hwritten
      (htags ▸ σ.nodup_run hwf.sorted.nodup) (isInt64_writtenFields hflat.plain hwf σ) hpairs
    rw [hfields] at he
    obtain ⟨t, ht, rfl⟩ := List.mem_map.mp he
    obtain ⟨s, hs⟩ := hflat.get (σ.mem_run.mp ht)
    rw [hread, FixFragment.getD_of_get hs] at hlost
    exact hlost (FixFragment.get_eq_some_iff.mp hs)

/-- **A separator of one's own works exactly where it is ASCII**, or where there is nothing to
separate. -/
theorem withSeparator_roundTrips_iff {sep : UInt8} (hsep : IsSeparator sep) (σ : SortSlice)
    {m : FixMessage} (hflat : m.fields.Flat) (hpos : ∀ t ∈ m.fields.tags, 0 < t)
    (hvalues : m.fields.AllStrings (sep ∉ ·)) :
    ((Codec.new none).withSeparator sep).RoundTrips σ m.fields ↔ sep < 128 ∨ m.fields = [] := by
  constructor
  · intro h
    by_contra hnot
    rw [not_or] at hnot
    exact not_roundTrips_of_not_ascii hsep hnot.1 σ hflat m.wf hnot.2 h
  · rintro (hascii | hnil)
    · have hwritten : ∀ e ∈ writtenFields σ m.fields, e.1 ∈ m.fields.tags ∧ sep ∉ e.2 := by
        intro e he
        rw [writtenFields_flat hflat] at he
        obtain ⟨t, ht, rfl⟩ := List.mem_map.mp he
        have htags := σ.mem_run.mp ht
        obtain ⟨s, hs⟩ := hflat.get htags
        rw [FixFragment.getD_of_get hs]
        exact ⟨htags, hvalues _ (self_mem_fragments _) _
          (Assoc.mem_of_find? (FixFragment.get_eq_some_iff.mp hs)) s rfl⟩
      exact roundTrips_of_ascii hsep hascii σ hflat m.wf (fun e he => hpos _ (hwritten e he).1)
        fun e he => (hwritten e he).2
    · rw [hnil] at hflat ⊢
      have hwritten : writtenFields σ [] = [] := by
        rw [writtenFields_flat hflat]
        exact List.map_eq_nil_iff.mpr (σ.perm [] tagSortKey []).eq_nil
      refine ⟨[], ?_, ?_⟩
      · rw [Codec.serialise_of_plain hflat.plain, hwritten]
        rfl
      · rw [parse_of_tokenise (l := []) ?_ fun e he => absurd he List.not_mem_nil]
        · rfl
        · rw [sep_withSeparator _ hsep, tokenise, splitFields]
          split
          · rfl
          · rfl

/-- An order of two fields. -/
def pairOrder : FixMessage :=
  (FixMessage.empty.set 35 (by decide) (ascii "D")).set 55 (by decide) (ascii "EUR")

/-- A vertical bar brings the order back, a section sign does not. -/
theorem withSeparator_roundTrips_iff_pairOrder :
    ((Codec.new none).withSeparator 124).RoundTrips .stable pairOrder.fields
      ∧ ¬ ((Codec.new none).withSeparator 0xA7).RoundTrips .stable pairOrder.fields :=
  ⟨(withSeparator_roundTrips_iff (by decide) .stable (by decide) (by decide)
      (by decide)).mpr (Or.inl (by decide)),
    fun h => absurd ((withSeparator_roundTrips_iff (by decide) .stable (by decide) (by decide)
      (by decide)).mp h) (by decide)⟩

/-- Between section signs the whole order is read as its first field. -/
theorem sectionSign_reads_one_field :
    IsSeparator 0xA7 ∧ pairOrder.fields.Flat ∧ (∀ t ∈ pairOrder.fields.tags, 0 < t)
      ∧ pairOrder.fields.AllStrings ((0xA7 : UInt8) ∉ ·)
      ∧ ∃ out, ((Codec.new none).withSeparator 0xA7).serialise .stable pairOrder.fields = .ok out
        ∧ ((Codec.new none).withSeparator 0xA7).parse out
          = .ok [(35, .str (ascii "D" ++ [0xA7] ++ ascii "55=EUR" ++ [0xA7]))]
        ∧ ((Codec.new none).withSeparator 0xA7).parse out ≠ .ok pairOrder.fields := by
  have hread : ((Codec.new none).withSeparator 0xA7).parse
      (ascii "35=D" ++ [0xA7] ++ ascii "55=EUR" ++ [0xA7])
      = .ok [(35, .str (ascii "D" ++ [0xA7] ++ ascii "55=EUR" ++ [0xA7]))] := by rfl
  refine ⟨by decide, by decide, by decide, by decide, _, rfl, hread, fun h => ?_⟩
  exact absurd (congrArg List.length (Except.ok.inj (hread.symm.trans h))) (by decide)

end FixMsg
