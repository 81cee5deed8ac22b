import GoFixMsg.Codec.NormalForm

/-!
# Codec/Loading — one buffer after another

`LoadFix` sets the fields of a buffer in a message over what the message holds.  Loading buffers
that end with a separator one after another is loading them in one piece (`loadFix_flatten`), and a
message that is loaded over another is as it was sent exactly if the other has no tags that it
lacks (`loadFix_restores_iff`).

A message without a Codec is meant, which loads with the built-in parser.  A buffer that ends within
a field cannot be loaded in pieces, since the rest of the field would be read as a field of its own;
so all but the last buffer have to be whole.
-/

open GoLang

namespace FixMsg

/-! ## Setting pairs

Loading is parsing into an empty fragment and merging that into the message.  It comes to setting
the pairs in the message itself, one after the other. -/

theorem setPairs_sorted {f : FixFragment} (hf : Assoc.Sorted f) (pairs : List Pair) :
    Assoc.Sorted (setPairs f pairs) := by
  induction pairs generalizing f with
  | nil => exact hf
  | cons p pairs ih =>
    rw [setPairs]
    split
    · exact ih hf
    · next tag _ => exact ih (hf.insert tag _)

theorem setPairs_append (f : FixFragment) (pairs pairs' : List Pair) :
    setPairs f (pairs ++ pairs') = setPairs (setPairs f pairs) pairs' := by
  induction pairs generalizing f with
  | nil => rfl
  | cons p pairs ih =>
    rw [List.cons_append, setPairs, setPairs]
    split
    · exact ih f
    · exact ih _

/-- A tag is what the last pair under it says, or else what it was. -/
theorem find?_setPairs (f : FixFragment) (pairs : List Pair) (t : ℤ) :
    Assoc.find? t (setPairs f pairs)
      = (Assoc.find? t (setPairs [] pairs)).or (Assoc.find? t f) := by
  induction pairs generalizing f with
  | nil => rfl
  | cons p pairs ih =>
    rw [setPairs, setPairs]
    cases atoi? p.1 with
    | none => exact ih f
    | some tag =>
      dsimp only
      rw [ih (f.set tag p.2), ih (FixFragment.set [] tag p.2), FixFragment.set, FixFragment.set,
        Assoc.find?_insert, Assoc.find?_insert, Assoc.find?_nil, Option.or_assoc]
      split <;> rfl

/-- **Merging what was parsed is setting the pairs in the message itself.** -/
theorem mergeFields_setPairs {m : FixFragment} (hm : Assoc.Sorted m) (pairs : List Pair) :
    mergeFields m (setPairs [] pairs) = setPairs m pairs := by
  have hparsed := setPairs_sorted Assoc.sorted_nil pairs
  refine (hm.bindAll _).ext (setPairs_sorted hm pairs) fun t => ?_
  rw [Assoc.find?_bindAll hparsed.nodup, find?_setPairs m]

/-- **`LoadFix` sets the fields of the buffer**, one after another. -/
theorem loadFix_eq {m : FixFragment} (hm : Assoc.Sorted m) (buf : Bytes) :
    loadFix none m buf = (tokeniseFields (buf.splitOn soh)).map (setPairs m) := by
  rw [loadFix, defaultParse_eq]
  cases tokeniseFields (buf.splitOn soh) with
  | error e => rfl
  | ok pairs => exact congrArg Except.ok (mergeFields_setPairs hm pairs)

theorem loadFix_sorted {m m' : FixFragment} (hm : Assoc.Sorted m) {buf : Bytes}
    (h : loadFix none m buf = .ok m') : Assoc.Sorted m' := by
  rw [loadFix_eq hm] at h
  cases htok : tokeniseFields (buf.splitOn soh) with
  | error e =>
    rw [htok] at h
    cases h
  | ok pairs =>
    rw [htok] at h
    cases h
    exact setPairs_sorted hm pairs

/-! ## Buffers in one piece -/

/-- A buffer of whole fields: it ends with a separator, where it has any fields. -/
def WholeFields (buf : Bytes) : Prop := buf = [] ∨ buf.getLast? = some soh

instance (buf : Bytes) : Decidable (WholeFields buf) := inferInstanceAs (Decidable (_ ∨ _))

theorem tokeniseFields_append (fields fields' : List Bytes) :
    tokeniseFields (fields ++ fields') = (tokeniseFields fields).bind fun pairs =>
      (tokeniseFields fields').map (pairs ++ ·) := by
  induction fields with
  | nil =>
    change tokeniseFields fields' = (tokeniseFields fields').map fun pairs => pairs
    cases tokeniseFields fields' <;> rfl
  | cons field fields ih =>
    rw [List.cons_append, tokeniseFields, tokeniseFields, ih]
    split
    · rfl
    · cases cutAt 61 field with
      | none => rfl
      | some pair =>
        dsimp only
        cases tokeniseFields fields with
        | error e => rfl
        | ok pairs => cases tokeniseFields fields' <;> rfl

/-- **The fields of a buffer of whole fields and what follows it** are those of the two. -/
theorem tokeniseFields_splitOn_append {buf : Bytes} (h : WholeFields buf) (rest : Bytes) :
    tokeniseFields ((buf ++ rest).splitOn soh)
      = tokeniseFields (buf.splitOn soh ++ rest.splitOn soh) := by
  rcases h with rfl | hlast
  · rfl
  · obtain ⟨init, rfl⟩ := List.getLast?_eq_some_iff.mp hlast
    have hend : ∀ xs : Bytes, tokeniseFields (List.splitOn soh [] ++ xs.splitOn soh)
        = tokeniseFields (xs.splitOn soh) := fun xs => rfl
    rw [List.append_assoc, List.singleton_append, List.splitOn_append_cons_self,
      List.splitOn_append_cons_self, List.append_assoc, tokeniseFields_append,
      tokeniseFields_append, hend]

/-- **Loading two buffers one after the other is loading them in one piece**, where the first is of
whole fields: the same fields are set, or the same field is malformed. -/
theorem loadFix_append {m : FixFragment} (hm : Assoc.Sorted m) {buf : Bytes} (h : WholeFields buf)
    (rest : Bytes) :
    loadFix none m (buf ++ rest) = (loadFix none m buf).bind fun m' => loadFix none m' rest := by
  rw [loadFix_eq hm, loadFix_eq hm, tokeniseFields_splitOn_append h, tokeniseFields_append]
  cases htok : tokeniseFields (buf.splitOn soh) with
  | error e => rfl
  | ok pairs =>
    change ((tokeniseFields (rest.splitOn soh)).map (pairs ++ ·)).map (setPairs m)
      = loadFix none (setPairs m pairs) rest
    rw [loadFix_eq (setPairs_sorted hm pairs)]
    cases tokeniseFields (rest.splitOn soh) with
    | error e => rfl
    | ok pairs' => exact congrArg Except.ok (setPairs_append m pairs pairs')

/-- **Loading any number of buffers one after another is loading them in one piece.** -/
theorem loadFix_flatten {m : FixMessage} {bufs : List Bytes} (h : ∀ buf ∈ bufs, WholeFields buf)
    (rest : Bytes) :
    loadFix none m.fields (bufs.flatten ++ rest)
      = (bufs.foldlM (loadFix none) m.fields).bind fun m' => loadFix none m' rest := by
  have hfold : ∀ f : FixFragment, Assoc.Sorted f → loadFix none f (bufs.flatten ++ rest)
      = (bufs.foldlM (loadFix none) f).bind fun m' => loadFix none m' rest := by
    induction bufs with
    | nil => exact fun f _ => rfl
    | cons buf bufs ih =>
      intro f hf
      obtain ⟨hbuf, hbufs⟩ := List.forall_mem_cons.mp h
      rw [List.flatten_cons, List.append_assoc, loadFix_append hf hbuf, List.foldlM_cons]
      cases hload : loadFix none f buf with
      | error e => rfl
      | ok f' => exact ih hbufs f' (loadFix_sorted hf hload)
  exact hfold m.fields m.wf.sorted

/-- A buffer with a tag twice, and one that sets it again. -/
theorem loadFix_flatten_order : loadFix none [] (ascii "35=D\x0155=A\x0155=B\x01" ++ ascii "55=C")
    = (loadFix none [] (ascii "35=D\x0155=A\x0155=B\x01")).bind fun m' =>
      loadFix none m' (ascii "55=C") := by
  exact @loadFix_flatten ⟨[], FixFragment.wf_nil⟩ [ascii "35=D\x0155=A\x0155=B\x01"] (by decide)
    (ascii "55=C")

/-! ## A message over another -/

/-- **What `LoadFix` leaves of the message it loads into**: the wire of a message is loaded as it
was stamped, over the tags of the other, and the message is the one that was sent exactly if the
other has no tags that it lacks. -/
theorem loadFix_restores_iff {m : FixMessage} (h : m.fields.Parsed) (m₀ : FixMessage)
    (σ τ : SortSlice) :
    ∃ out m', (toWire σ τ none m).2 = .ok out ∧ loadFix none m₀.fields out = .ok m'
      ∧ (∀ t, Assoc.find? t m' = (Assoc.find? t (toWire σ τ none m).1.fields).or
          (Assoc.find? t m₀.fields))
      ∧ (m' = (toWire σ τ none m).1.fields
          ↔ ∀ t ∈ m₀.fields.tags, t ∈ (toWire σ τ none m).1.fields.tags) := by
  obtain ⟨body, out, hstamped, hout, -, hparse⟩ := @defaultParse_toWire σ τ none
    (fun _ hc => by cases hc) m h
  have hsorted := (h.stampBody body).wf.sorted
  refine ⟨out, mergeFields m₀.fields (stampBody m.fields body), hout, ?_, fun t => ?_, ?_⟩
  · rw [loadFix, hparse]
    rfl
  · rw [hstamped]
    exact Assoc.find?_bindAll hsorted.nodup m₀.fields t
  · rw [hstamped]
    exact Assoc.bindAll_eq_iff m₀.wf.sorted hsorted

/-- A Heartbeat loaded over a message with a Text keeps the Text. -/
theorem loadFix_restores_heartbeat : ∃ m m₀ : FixMessage, m.fields = [(35, .str (ascii "0"))]
    ∧ m₀.fields = [(58, .str (ascii "late"))]
    ∧ ∃ out m', (toWire .stable .stable none m).2 = .ok out ∧ loadFix none m₀.fields out = .ok m'
      ∧ m' ≠ (toWire .stable .stable none m).1.fields := by
  have hm : FixFragment.Parsed (FixFragment.set [] 35 (ascii "0")) :=
    parsed_nil.set (by decide) (by decide)
  have hm₀ : FixFragment.Parsed (FixFragment.set [] 58 (ascii "late")) :=
    parsed_nil.set (by decide) (by decide)
  obtain ⟨out, m', hout, hload, -, hiff⟩ :=
    loadFix_restores_iff (m := ⟨_, hm.wf⟩) hm ⟨_, hm₀.wf⟩ .stable .stable
  refine ⟨⟨_, hm.wf⟩, ⟨_, hm₀.wf⟩, rfl, rfl, out, m', hout, hload, fun heq => ?_⟩
  have hmem := hiff.mp heq 58 (List.mem_singleton.mpr rfl)
  obtain ⟨body, hfields, -⟩ := @toWire_written .stable .stable none ⟨_, hm.wf⟩ hm.flat.plain
  rw [hfields, mem_tags_stampBody] at hmem
  have hnot : ¬ ((58 : ℤ) = tagCheckSum ∨ (58 : ℤ) = tagBodyLength
      ∨ 58 ∈ FixFragment.tags (FixFragment.set [] 35 (ascii "0"))) := by decide
  exact hnot hmem

end FixMsg
