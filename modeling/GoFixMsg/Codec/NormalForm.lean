import Mathlib.Data.List.Pairwise
import GoFixMsg.Codec.Parsers

/-!
# Codec/NormalForm — loading a buffer and writing it out again

The length and the checksum of a message without groups do not depend on the order of its fields, so
what `ToWire` stamps on it is stamped on it again (`stampBody_stampBody`).  The wire is then the
same again as far as the order of the fields is: where two tags rank alike, it is up to the map and
to `sort.Slice` which of the two comes first (`normalForm_iff`).
-/

open GoLang

namespace FixMsg

/-! ## Two sorts that differ wherever they can

Tags that rank alike may come in either order.  Two runs are enough to see it: they order by a
second key, in one direction and in the other. -/

namespace SortSlice

/-- Tags that rank alike come in the order of `next`. -/
def tieBreak (next : ℤ → ℤ) : SortSlice where
  run _ key l := l.insertionSort fun a b => key a < key b ∨ key a = key b ∧ next a ≤ next b
  perm _ key l := List.perm_insertionSort _ l
  sorted _ key l := by
    have htotal : Std.Total fun a b : ℤ => key a < key b ∨ key a = key b ∧ next a ≤ next b :=
      ⟨fun a b => by omega⟩
    have htrans : IsTrans ℤ fun a b => key a < key b ∨ key a = key b ∧ next a ≤ next b :=
      ⟨fun a b c h1 h2 => by omega⟩
    refine (List.pairwise_insertionSort
      (fun a b => key a < key b ∨ key a = key b ∧ next a ≤ next b) l).imp fun h => ?_
    omega

theorem tieBreak_pairwise (next : ℤ → ℤ) (p : Path) (key : ℤ → ℤ) (l : List ℤ) :
    ((tieBreak next).run p key l).Pairwise
      fun a b => key a < key b ∨ key a = key b ∧ next a ≤ next b := by
  have htotal : Std.Total fun a b : ℤ => key a < key b ∨ key a = key b ∧ next a ≤ next b :=
    ⟨fun a b => by omega⟩
  have htrans : IsTrans ℤ fun a b => key a < key b ∨ key a = key b ∧ next a ≤ next b :=
    ⟨fun a b c h1 h2 => by omega⟩
  exact List.pairwise_insertionSort
    (fun a b => key a < key b ∨ key a = key b ∧ next a ≤ next b) l

/-- **Where every run sorts alike, no two tags rank alike.** -/
theorem keys_inj_of_run_eq {p : Path} {key : ℤ → ℤ} {l : List ℤ}
    (h : ∀ σ τ : SortSlice, σ.run p key l = τ.run p key l) :
    ∀ a ∈ l, ∀ b ∈ l, key a = key b → a = b := by
  have hup := tieBreak_pairwise id p key l
  have hdown := tieBreak_pairwise (fun t => -t) p key l
  rw [← h (tieBreak id)] at hdown
  have hsymm : Std.Symm fun a b : ℤ => key a = key b → a = b :=
    ⟨fun a b hab hkey => (hab hkey.symm).symm⟩
  have hall : ∀ a ∈ (tieBreak id).run p key l, ∀ b ∈ (tieBreak id).run p key l,
      key a = key b → a = b := by
    refine List.Pairwise.forall_of_forall (fun _ _ _ => rfl) ((hup.and hdown).imp ?_)
    rintro a b ⟨h1, h2⟩ hkey
    simp only [id] at h1
    omega
  exact fun a ha b hb => hall a ((tieBreak id).mem_run.mpr ha) b ((tieBreak id).mem_run.mpr hb)

end SortSlice

/-! ## What is stamped does not depend on the order

Without groups the body is a list of fields.  In another order it has the same length and the same
sum, and 9 and 10 are computed from these. -/

/-- The body of a message without groups. -/
def flatBody (σ : SortSlice) (f : FixFragment) : Bytes :=
  (bodyTags σ f).flatMap fun t => fieldText soh t (f.getD t)

theorem buildBody_flat {f : FixFragment} (h : f.Flat) (σ : SortSlice) :
    buildBody σ f = .ok (flatBody σ f) := by
  have hat : ∀ t ∈ sortedTags σ [] f, fieldAt σ f t = .ok (fieldText soh t (f.getD t)) := by
    intro t ht
    obtain ⟨s, hs⟩ := h.get (σ.mem_run.mp ht)
    rw [fieldAt_str hs, FixFragment.getD_of_get hs]
  rw [buildBody, bodyLoop_eq fun t ht _ _ _ => by rw [hat t ht]; rfl]
  refine congrArg Except.ok (List.flatMap_congr fun t ht => ?_)
  rw [hat t (List.mem_of_mem_filter ht)]
  rfl

/-- Bodies of the same fields are as long as each other, and sum up alike. -/
theorem flatBody_perm {f g : FixFragment} (σ τ : SortSlice) (hf : Assoc.Sorted f)
    (hg : Assoc.Sorted g) (htags : ∀ t, t ∈ bodyTags σ f ↔ t ∈ bodyTags τ g)
    (hget : ∀ t ∈ bodyTags σ f, f.getD t = g.getD t) :
    (flatBody σ f).Perm (flatBody τ g) := by
  have hperm : (bodyTags σ f).Perm (bodyTags τ g) :=
    (List.perm_ext_iff_of_nodup ((σ.nodup_run hf.nodup).filter _)
      ((τ.nodup_run hg.nodup).filter _)).mpr htags
  rw [flatBody, List.flatMap_congr fun t ht => by rw [hget t ht]]
  exact hperm.flatMap_right _

/-- Only the length and the sum of the body are stamped. -/
theorem stampBody_of_perm (f : FixFragment) {body body' : Bytes} (h : body.Perm body') :
    stampBody f body = stampBody f body' := by
  have hsum : byteSum body = byteSum body' := (h.map UInt8.toNat).sum_nat
  rw [stampBody, stampBody, h.length_eq, hsum]

/-- **What is stamped once is stamped again.** -/
theorem stampBody_stampBody {f : FixFragment} (hf : f.WF) (body : Bytes) :
    stampBody (stampBody f body) body = stampBody f body := by
  refine (stampBody_wf (stampBody_wf hf body) body).sorted.ext (stampBody_wf hf body).sorted
    fun t => ?_
  by_cases h10 : t = tagCheckSum
  · subst h10
    have h8 : (stampBody f body).getD tagBeginString = f.getD tagBeginString := by
      rw [FixFragment.getD, FixFragment.getD, FixFragment.get,
        find?_stampBody (by decide) (by decide), FixFragment.get]
    rw [stampBody, h8, FixFragment.set, Assoc.find?_insert_self, stampBody, FixFragment.set,
      Assoc.find?_insert_self]
  · by_cases h9 : t = tagBodyLength
    · subst h9
      have hlen : ∀ g : FixFragment, Assoc.find? tagBodyLength (stampBody g body)
          = some (.str (itoa body.length)) := by
        intro g
        rw [stampBody, FixFragment.set, Assoc.find?_insert_of_ne (by decide), FixFragment.set,
          Assoc.find?_insert_self]
      rw [hlen, hlen]
    · exact find?_stampBody h9 h10

/-- What `ToWire` makes of the fields of a message without groups, whatever the order. -/
def stampedForm (f : FixFragment) : FixFragment := stampBody f (flatBody .stable f)

theorem stampBody_flatBody {f : FixFragment} (hf : f.WF) (σ : SortSlice) :
    stampBody f (flatBody σ f) = stampedForm f := by
  refine stampBody_of_perm f (flatBody_perm σ .stable hf.sorted hf.sorted (fun t => ?_)
    fun _ _ => rfl)
  rw [mem_bodyTags, mem_bodyTags]

/-- **Stamping reaches its end in one step.** -/
theorem stampedForm_stampedForm {f : FixFragment} (hf : f.WF) :
    stampedForm (stampedForm f) = stampedForm f := by
  have hwf : (stampedForm f).WF := stampBody_wf hf _
  have hperm : (flatBody .stable (stampedForm f)).Perm (flatBody .stable f) := by
    refine flatBody_perm .stable .stable hwf.sorted hf.sorted (fun t => ?_) fun t ht => ?_
    · rw [mem_bodyTags, mem_bodyTags, stampedForm, mem_tags_stampBody]
      tauto
    · obtain ⟨-, -, h9, h10⟩ := mem_bodyTags.mp ht
      rw [FixFragment.getD, FixFragment.getD, FixFragment.get, stampedForm, find?_stampBody h9 h10,
        FixFragment.get]
  rw [stampedForm, stampBody_of_perm _ hperm]
  exact stampBody_stampBody hf _

/-- The wire of a message without groups. -/
theorem toWire_flat {m : FixMessage} (h : m.fields.Parsed) (σ τ : SortSlice) :
    (toWire σ τ none m).2 = .ok (wireText soh (writtenFields τ (stampedForm m.fields))) := by
  have hplain : (stampedForm m.fields).Plain := (h.stampBody _).flat.plain
  unfold toWire setLenAndChecksum
  rw [buildBody_flat h.flat, ← stampBody_flatBody h.wf σ]
  rw [← stampBody_flatBody h.wf σ] at hplain
  change defaultSerialise τ (stampBody m.fields (flatBody σ m.fields)) = _
  rw [defaultSerialise_eq, writeFragment_written hplain]
  rfl

/-- It is read back as it was stamped. -/
theorem loadFix_wire {f : FixFragment} (h : f.Parsed) (τ : SortSlice) :
    loadFix none [] (wireText soh (writtenFields τ f)) = .ok f := by
  rw [loadFix_fresh, defaultParse_wireText (sohFree_writtenFields h.flat.plain h.values τ)
    (isInt64_writtenFields h.flat.plain h.wf τ), setFields_writtenFields h.flat h.wf.sorted]

/-! ## The order of the fields -/

/-- A text gives back the fields it is made of. -/
theorem wireText_injective {l l' : List Field} (hs : ∀ e ∈ l, SohFree e.2)
    (hs' : ∀ e ∈ l', SohFree e.2) (ht : ∀ e ∈ l, IsInt64 e.1) (ht' : ∀ e ∈ l', IsInt64 e.1)
    (h : wireText soh l = wireText soh l') : l = l' := by
  have hpairs := tokenise_wireText hs
  rw [h, tokenise_wireText hs'] at hpairs
  have hmap := (Except.ok.inj hpairs).symm
  clear hs hs' h hpairs
  induction l generalizing l' with
  | nil => exact (List.map_eq_nil_iff.mp hmap.symm).symm
  | cons e l ih =>
    cases l' with
    | nil => cases hmap
    | cons e' l' =>
      obtain ⟨hhead, htail⟩ := List.cons.inj hmap
      obtain ⟨htag, hvalue⟩ := Prod.mk.inj hhead
      have he : e = e' := Prod.ext
        (itoa_injective (ht e List.mem_cons_self) (ht' e' List.mem_cons_self) htag) hvalue
      rw [he, ih (fun d hd => ht d (List.mem_cons_of_mem _ hd))
        (fun d hd => ht' d (List.mem_cons_of_mem _ hd)) htail]

/-- **The fields are written in the same order always, exactly if no two tags rank alike.** -/
theorem wire_unique_iff {f : FixFragment} (h : f.Parsed) :
    (∀ τ τ' : SortSlice, wireText soh (writtenFields τ f) = wireText soh (writtenFields τ' f))
      ↔ ∀ a ∈ f.tags, ∀ b ∈ f.tags, tagSortKey a = tagSortKey b → a = b := by
  constructor
  · intro htext
    refine @SortSlice.keys_inj_of_run_eq [] _ _ fun σ τ => ?_
    have hfields := wireText_injective (sohFree_writtenFields h.flat.plain h.values σ)
      (sohFree_writtenFields h.flat.plain h.values τ) (isInt64_writtenFields h.flat.plain h.wf σ)
      (isInt64_writtenFields h.flat.plain h.wf τ) (htext σ τ)
    have htags := congrArg (List.map Prod.fst) hfields
    rw [writtenFields_flat h.flat, writtenFields_flat h.flat, List.map_map, List.map_map] at htags
    exact (List.map_id _).symm.trans (htags.trans (List.map_id _))
  · intro hinj τ τ'
    rw [writtenFields_flat h.flat, writtenFields_flat h.flat, τ.run_eq_run τ' hinj]

/-! ## The normal form

A loaded message has the tags of the buffer, and `ToWire` adds 9 and 10.  If none of all these takes
the rank of another, loading and writing again changes nothing; and if one does, some run writes
another text. -/

/-- **Loading the wire of a message and writing it out again gives the same wire**, whatever the
order of the maps in each step. -/
def ReachesNormalForm (m : FixMessage) : Prop :=
  ∀ σ τ σ' τ' : SortSlice, ∃ b₁ m', (toWire σ τ none m).2 = .ok b₁
    ∧ loadFix none [] b₁ = .ok m'.fields ∧ (toWire σ' τ' none m').2 = .ok b₁

theorem reachesNormalForm_iff {m : FixMessage} (h : m.fields.Parsed) :
    ReachesNormalForm m ↔ ∀ a ∈ (stampedForm m.fields).tags, ∀ b ∈ (stampedForm m.fields).tags,
      tagSortKey a = tagSortKey b → a = b := by
  have hstamped : (stampedForm m.fields).Parsed := h.stampBody _
  have hagain : ∀ m' : FixMessage, m'.fields = stampedForm m.fields → ∀ σ τ : SortSlice,
      (toWire σ τ none m').2 = .ok (wireText soh (writtenFields τ (stampedForm m.fields))) := by
    intro m' hm' σ τ
    rw [toWire_flat (hm' ▸ hstamped), hm', stampedForm_stampedForm h.wf]
  rw [← wire_unique_iff hstamped]
  constructor
  · intro hnormal τ τ'
    obtain ⟨b₁, m', hwire, hload, hwire'⟩ := hnormal .stable τ .stable τ'
    rw [toWire_flat h] at hwire
    obtain rfl := Except.ok.inj hwire
    rw [loadFix_wire hstamped] at hload
    rw [hagain m' (Except.ok.inj hload).symm] at hwire'
    exact (Except.ok.inj hwire').symm
  · intro hunique σ τ σ' τ'
    refine ⟨_, ⟨stampedForm m.fields, hstamped.wf⟩, toWire_flat h σ τ, loadFix_wire hstamped τ, ?_⟩
    rw [hagain _ rfl, hunique τ' τ]

/-- The tags a buffer sets. -/
theorem mem_tags_setPairs {pairs : List Pair} {m : FixFragment} {t : ℤ} :
    t ∈ (setPairs m pairs).tags ↔ t ∈ m.tags ∨ ∃ p ∈ pairs, atoi? p.1 = some t := by
  induction pairs generalizing m with
  | nil =>
    refine (or_iff_left ?_).symm
    rintro ⟨_, hp, -⟩
    exact absurd hp List.not_mem_nil
  | cons p pairs ih =>
    rw [setPairs, List.exists_mem_cons_iff]
    cases htag : atoi? p.1 with
    | none =>
      dsimp only
      rw [ih]
      exact or_congr Iff.rfl ⟨Or.inr, fun h => h.resolve_left (Option.some_ne_none t).symm⟩
    | some tag =>
      dsimp only
      rw [ih, FixFragment.mem_tags_set, Option.some.injEq]
      tauto

/-- The tags of a loaded message are those of the buffer. -/
theorem mem_tags_loadFix {buf : Bytes} {f : FixFragment} (h : loadFix none [] buf = .ok f) {t : ℤ} :
    t ∈ f.tags ↔ HasTag buf t := by
  rw [loadFix_fresh, defaultParse_eq, ← tokenise_soh] at h
  cases hpairs : tokenise soh buf with
  | error e =>
    rw [hpairs] at h
    cases h
  | ok pairs =>
    rw [hpairs] at h
    obtain rfl := Except.ok.inj h
    rw [mem_tags_setPairs, hasTag_iff hpairs]
    exact ⟨fun ht => ht.resolve_left List.not_mem_nil, Or.inr⟩

/-- A tag of the buffer, or one of those `ToWire` stamps. -/
def IsWritten (buf : Bytes) (t : ℤ) : Prop := t = tagBodyLength ∨ t = tagCheckSum ∨ HasTag buf t

/-- **Re-serialising reaches a normal form in one step, exactly if** no tag takes the rank of
another one. -/
theorem normalForm_iff {buf : Bytes} {m : FixMessage} (h : loadFix none [] buf = .ok m.fields) :
    ReachesNormalForm m ↔ ∀ t u, IsWritten buf t → IsWritten buf u → ¬ TakesRank t u := by
  have hparsed : m.fields.Parsed := parsed_defaultParse (loadFix_fresh buf ▸ h)
  have hwf : (stampedForm m.fields).WF := (hparsed.stampBody _).wf
  have htags : ∀ t, t ∈ (stampedForm m.fields).tags ↔ IsWritten buf t := by
    intro t
    rw [stampedForm, mem_tags_stampBody, mem_tags_loadFix h, IsWritten]
    exact or_left_comm
  rw [reachesNormalForm_iff hparsed]
  constructor
  · intro hinj t u ht hu htakes
    obtain rfl := hinj t ((htags t).mpr ht) u ((htags u).mpr hu) htakes.rank_eq
    exact htakes.ne rfl
  · intro hapart a ha b hb hkey
    rcases (tagSortKey_eq_iff (hwf.isInt64 ha) (hwf.isInt64 hb)).mp hkey with heq | htakes | htakes
    · exact heq
    · exact absurd htakes (hapart a b ((htags a).mp ha) ((htags b).mp hb))
    · exact absurd htakes (hapart b a ((htags b).mp hb) ((htags a).mp ha))

/-- A buffer whose only tag takes the rank of BodyLength. -/
theorem normalForm_fails : ∃ m : FixMessage,
    loadFix none [] (ascii "-29=x\x01") = .ok m.fields ∧ ¬ ReachesNormalForm m := by
  refine ⟨⟨[(-29, .str (ascii "x"))], by decide⟩, rfl, fun hnormal => ?_⟩
  have hparsed : FixFragment.Parsed [(-29, .str (ascii "x"))] :=
    parsed_nil.set (by decide) (show SohFree (ascii "x") by decide)
  have hmem : ∀ t, t = -29 ∨ t = tagBodyLength →
      t ∈ (stampedForm [(-29, .str (ascii "x"))]).tags := by
    intro t ht
    rw [stampedForm, mem_tags_stampBody]
    rcases ht with rfl | rfl
    · exact Or.inr (Or.inr List.mem_cons_self)
    · exact Or.inr (Or.inl rfl)
  have heq := (reachesNormalForm_iff hparsed).mp hnormal (-29) (hmem _ (Or.inl rfl)) tagBodyLength
    (hmem _ (Or.inr rfl)) (by decide)
  exact absurd heq (by decide)

/-- The fields of a heartbeat, the wrong way round. -/
theorem normalForm_heartbeat : ∃ m : FixMessage,
    loadFix none [] (ascii "35=0\x018=FIX.4.4\x01") = .ok m.fields ∧ ReachesNormalForm m := by
  have hload : loadFix none [] (ascii "35=0\x018=FIX.4.4\x01")
      = .ok [(8, .str (ascii "FIX.4.4")), (35, .str (ascii "0"))] := rfl
  have hwritten : ∀ t, IsWritten (ascii "35=0\x018=FIX.4.4\x01") t → t ∈ [9, 10, 8, 35] := by
    intro t ht
    rw [IsWritten, ← mem_tags_loadFix hload] at ht
    rcases ht with rfl | rfl | ht
    · decide
    · decide
    · exact List.mem_cons_of_mem _ (List.mem_cons_of_mem _ ht)
  have hapart : ∀ t ∈ [9, 10, 8, (35 : ℤ)], ∀ u ∈ [9, 10, 8, (35 : ℤ)], ¬ TakesRank t u := by decide
  exact ⟨⟨_, by decide⟩, hload, (normalForm_iff hload).mpr fun t u ht hu =>
    hapart t (hwritten t ht) u (hwritten u hu)⟩

end FixMsg
