import GoFixMsg.Engine.Resendable

/-!
# Handler/Fidelity — does a replay carry what was sent?

The built-in parser sets the fields of the stored wire one after the other, so of a tag that comes
twice only the last value is left.  A replay therefore carries the stored fields exactly if no tag
comes twice (`replays_pairs_iff`), which groups of two members rule out.

A message with a repeating group writes the tags of a member once for each member, and the parser
without a dictionary knows no groups.  So the message that is loaded from the store is not the one
that was sent, and neither is its replay, however carefully it is written out again.
-/

open GoLang

namespace FixMsg

/-! ## Fields set one after the other -/

theorem mem_tags_setFields {l : List Field} {f : FixFragment} {t : ℤ} :
    t ∈ (setFields f l).tags ↔ t ∈ l.map Prod.fst ∨ t ∈ f.tags := by
  induction l generalizing f with
  | nil => simp [setFields]
  | cons e l ih =>
    rw [setFields_cons, ih, FixFragment.mem_tags_set, List.map_cons, List.mem_cons]
    tauto

/-- A field whose tag comes once is what is read under its tag. -/
theorem get_setFields {l : List Field} {keep : ℤ → Bool}
    (hnodup : ((l.filter fun e => keep e.1).map Prod.fst).Nodup) {t : ℤ} {s : Bytes}
    (hmem : (t, s) ∈ l) (ht : keep t = true) (f : FixFragment) :
    (setFields f l).get t = some s := by
  obtain ⟨a, b, rfl⟩ := List.append_of_mem hmem
  have hlast : t ∉ b.map Prod.fst := by
    intro htb
    obtain ⟨e, he, hte⟩ := List.mem_map.mp htb
    have hkeep : e ∈ b.filter fun e => keep e.1 :=
      List.mem_filter.mpr ⟨he, by rw [hte]; exact ht⟩
    have hcons : ((t, s) :: b).filter (fun e => keep e.1)
        = (t, s) :: b.filter fun e => keep e.1 := List.filter_cons_of_pos ht
    rw [List.filter_append, hcons, List.map_append, List.map_cons] at hnodup
    exact (List.nodup_cons.mp (List.nodup_append.mp hnodup).2.1).1
      (List.mem_map.mpr ⟨e, hkeep, hte⟩)
  rw [FixFragment.get_eq_some_iff, find?_setFields_append hlast]

/-- **Setting the fields keeps them all exactly if no tag comes twice** — among the tags that are
to be kept. -/
theorem filter_perm_setFields_iff (l : List Field) (keep : ℤ → Bool) :
    (l.filter fun e => keep e.1).Perm
      (((setFields [] l).tags.filter keep).map fun t => (t, (setFields [] l).getD t))
      ↔ ((l.filter fun e => keep e.1).map Prod.fst).Nodup := by
  have htags : ((setFields [] l).tags.filter keep).Nodup :=
    (setFields_sorted Assoc.sorted_nil l).nodup.filter _
  have hfst : (((setFields [] l).tags.filter keep).map fun t =>
      ((t, (setFields [] l).getD t) : Field)).map Prod.fst = (setFields [] l).tags.filter keep := by
    rw [List.map_map]
    exact List.map_id _
  constructor
  · intro hperm
    rw [(hperm.map Prod.fst).nodup_iff, hfst]
    exact htags
  · intro hnodup
    refine (List.perm_ext_iff_of_nodup hnodup.of_map ?_).mpr fun e => ?_
    · exact List.Nodup.of_map Prod.fst (hfst.symm ▸ htags)
    · obtain ⟨t, s⟩ := e
      rw [List.mem_filter, List.mem_map]
      constructor
      · rintro ⟨hmem, hkeep⟩
        refine ⟨t, List.mem_filter.mpr ⟨?_, hkeep⟩, ?_⟩
        · exact mem_tags_setFields.mpr (Or.inl (List.mem_map.mpr ⟨_, hmem, rfl⟩))
        · rw [FixFragment.getD_of_get (get_setFields hnodup hmem hkeep [])]
      · rintro ⟨u, hu, heq⟩
        cases heq
        obtain ⟨hu, hkeep⟩ := List.mem_filter.mp hu
        rcases mem_tags_setFields.mp hu with hu | hu
        · obtain ⟨e, he, rfl⟩ := List.mem_map.mp hu
          rw [FixFragment.getD_of_get (get_setFields hnodup he hkeep [])]
          exact ⟨he, hkeep⟩
        · cases hu

/-! ## The pairs of a wire

Wires are compared as collections of `tag=value` pairs, since the order of the fields is the
serialiser's.  Left out are the tags that a replay sets anew. -/

/-- The tags under which a replay may differ from what was stored. -/
def resetTags : List ℤ :=
  [tagBodyLength, tagCheckSum, tagPossDupFlag, tagSendingTime, tagOrigSendTime]

/-- The tags under which it may not. -/
def isKept (t : ℤ) : Bool := t ∉ resetTags

/-- The `tag=value` pairs of a wire under the tags that are kept. -/
def keptPairs (wire : Bytes) : List Pair :=
  match tokenise soh wire with
  | .ok pairs => pairs.filter fun p => p.1 ∉ resetTags.map itoa
  | .error _ => []

theorem keptPairs_wireText {l : List Field} (hs : ∀ e ∈ l, SohFree e.2)
    (ht : ∀ e ∈ l, IsInt64 e.1) :
    keptPairs (wireText soh l) = (l.filter fun e => isKept e.1).map tagText := by
  have hreset : ∀ t ∈ resetTags, IsInt64 t := by decide
  rw [keptPairs, tokenise_wireText hs]
  dsimp only
  rw [List.filter_map]
  congr 1
  refine List.filter_congr fun e he => ?_
  rw [isKept, Function.comp_apply, decide_eq_decide, tagText, List.mem_map, not_iff_not]
  constructor
  · rintro ⟨t, hmem, heq⟩
    rw [← itoa_injective (hreset t hmem) (ht e he) heq]
    exact hmem
  · exact fun hmem => ⟨e.1, hmem, rfl⟩

/-- A field is known from its pair. -/
def fieldOf (p : Pair) : Field := ((atoi? p.1).getD 0, p.2)

theorem map_fieldOf {l : List Field} (ht : ∀ e ∈ l, IsInt64 e.1) :
    (l.map tagText).map fieldOf = l := by
  rw [List.map_map, List.map_congr_left (g := id), List.map_id]
  intro e he
  rw [Function.comp_apply, fieldOf, tagText, atoi?_itoa (ht e he)]
  rfl

theorem tagText_perm_iff {l r : List Field} (hl : ∀ e ∈ l, IsInt64 e.1)
    (hr : ∀ e ∈ r, IsInt64 e.1) : (l.map tagText).Perm (r.map tagText) ↔ l.Perm r := by
  refine ⟨fun h => ?_, fun h => h.map tagText⟩
  have hfields := h.map fieldOf
  rwa [map_fieldOf hl, map_fieldOf hr] at hfields

theorem nodup_tagText_iff {l : List Field} (ht : ∀ e ∈ l, IsInt64 e.1) :
    ((l.map tagText).map Prod.fst).Nodup ↔ (l.map Prod.fst).Nodup := by
  have htexts : (l.map tagText).map Prod.fst = (l.map Prod.fst).map itoa := by
    rw [List.map_map, List.map_map]
    rfl
  rw [htexts]
  refine ⟨List.Nodup.of_map itoa, fun h => (List.nodup_map_iff_inj_on h).mpr ?_⟩
  intro a ha b hb hab
  obtain ⟨d, hd, rfl⟩ := List.mem_map.mp ha
  obtain ⟨e, he, rfl⟩ := List.mem_map.mp hb
  exact itoa_injective (ht d hd) (ht e he) hab

/-! ## The pairs of a replay -/

/-- The fields a parsed message writes under the tags that are kept. -/
theorem filter_writtenFields_perm {f g : FixFragment} (hf : f.Parsed) (hg : g.Parsed)
    (hget : ∀ t, isKept t = true → g.get t = f.get t) (τ : SortSlice) :
    ((writtenFields τ g).filter fun e => isKept e.1).Perm
      ((f.tags.filter isKept).map fun t => (t, f.getD t)) := by
  have htags : ((τ.run [] tagSortKey g.tags).filter isKept).Perm (f.tags.filter isKept) := by
    refine (List.perm_ext_iff_of_nodup ((τ.nodup_run hg.wf.sorted.nodup).filter _)
      (hf.wf.sorted.nodup.filter _)).mpr fun t => ?_
    rw [List.mem_filter, List.mem_filter, τ.mem_run, hg.flat.mem_tags_iff, hf.flat.mem_tags_iff]
    refine and_congr_left fun hkeep => ?_
    rw [hget t hkeep]
  have hvalues : (f.tags.filter isKept).map (fun t => ((t, g.getD t) : Field))
      = (f.tags.filter isKept).map fun t => (t, f.getD t) := by
    refine List.map_congr_left fun t ht => ?_
    rw [FixFragment.getD, hget t (List.mem_filter.mp ht).2, FixFragment.getD]
  rw [writtenFields_flat hg.flat, List.filter_map, ← hvalues]
  exact htags.map _

/-- **The pairs of a replay** are the fields of the stored message as they were read. -/
theorem emit_replay_pairs {m : CodedMessage} (h : m.Simple) (env : Env) (seq : ℤ) :
    ∃ x, emit env .replay seq (replayMessage env.now m) = some x ∧ x.kind = .replay
      ∧ (keptPairs x.frame).Perm
        (((m.fields.tags.filter isKept).map fun t => (t, m.fields.getD t)).map tagText) := by
  obtain ⟨hsimple, hget⟩ := get_replayMessage h env.now
  obtain ⟨body, out, hemit, rfl, -⟩ := emit_simple hsimple env .replay seq
  have hstamped := hsimple.parsed.stampBody body
  refine ⟨_, hemit, rfl, ?_⟩
  rw [keptPairs_wireText (sohFree_writtenFields hstamped.flat.plain hstamped.values env.τ)
    (isInt64_writtenFields hstamped.flat.plain hstamped.wf env.τ)]
  refine (filter_writtenFields_perm h.parsed hstamped (fun t ht => ?_) env.τ).map tagText
  simp only [isKept, resetTags, List.mem_cons, List.not_mem_nil, or_false, not_or,
    decide_eq_true_eq] at ht
  obtain ⟨h9, h10, h43, h52, h122⟩ := ht
  rw [get_stampBody h9 h10, hget, replayedField, if_neg h52, if_neg h43, if_neg h122]

/-- The replay of a message that was read from the pairs of `l` has these pairs exactly if no tag
comes twice among them. -/
theorem emit_replay_perm_iff {m : CodedMessage} (h : m.Simple) {l : List Field}
    (hkept : ∀ e ∈ l.filter fun e => isKept e.1, IsInt64 e.1) (hfields : m.fields = setFields [] l)
    (env : Env) (seq : ℤ) :
    ∃ x, emit env .replay seq (replayMessage env.now m) = some x ∧ x.kind = .replay
      ∧ (((l.filter fun e => isKept e.1).map tagText).Perm (keptPairs x.frame)
        ↔ ((l.filter fun e => isKept e.1).map Prod.fst).Nodup) := by
  obtain ⟨x, hx, hkind, hpairs⟩ := emit_replay_pairs h env seq
  rw [hfields] at hpairs
  refine ⟨x, hx, hkind, ?_⟩
  rw [← filter_perm_setFields_iff, hpairs.congr_right, tagText_perm_iff hkept]
  intro e he
  obtain ⟨t, ht, rfl⟩ := List.mem_map.mp he
  exact (hfields ▸ h.parsed.wf).isInt64 (List.mem_filter.mp ht).1

/-! ## The pairs of what was sent -/

/-- A message of strings without SOH and groups, with a codec that separates by SOH if any. -/
structure CodedMessage.Sendable (m : CodedMessage) : Prop where
  plain : m.fields.Plain
  values : m.fields.AllStrings SohFree
  codec : ∀ c ∈ m.codec, c.separator = soh

/-- The wire of a message is the text of fields, among which are its strings. -/
theorem CodedMessage.Sendable.wire {m : CodedMessage} (h : m.Sendable) {σ τ : SortSlice}
    {out : Bytes} (hout : (m.toWire σ τ).2 = .ok out) :
    ∃ l : List Field, out = wireText soh l ∧ (∀ e ∈ l, SohFree e.2) ∧ (∀ e ∈ l, IsInt64 e.1)
      ∧ ∀ t s, t ≠ tagBodyLength → t ≠ tagCheckSum → m.fields.get t = some s → (t, s) ∈ l := by
  obtain ⟨body, hwire, hplain, hsoh, hint⟩ := toWire_fields σ τ m.codec h.plain h.values
  rw [wireSep_eq_soh h.codec] at hwire
  obtain rfl := Except.ok.inj (hwire.symm.trans hout)
  refine ⟨_, rfl, hsoh, hint, fun t s h9 h10 hget => ?_⟩
  refine (mem_writeFragment_out hplain).mpr ⟨t, .str s, ?_, List.mem_singleton_self _⟩
  rw [find?_stampBody h9 h10]
  exact FixFragment.get_eq_some_iff.mp hget

/-- An application message has a type. -/
theorem get_msgType_of_isApplication {m : CodedMessage} (h : m.isApplication = true) :
    m.fields.get tagMsgType = some (m.fields.getD tagMsgType) := by
  cases hget : m.fields.get tagMsgType with
  | none =>
    rw [CodedMessage.isApplication, FixFragment.getD, hget] at h
    cases h
  | some s => rw [FixFragment.getD_of_get hget]

/-- **A stored message is replayed with its fields exactly if no tag comes twice** among its pairs,
those apart that a replay changes. -/
theorem replays_pairs_iff {m : CodedMessage} (hsend : m.Sendable) (happ : m.isApplication = true)
    {σ τ : SortSlice} {out : Bytes} (hout : (m.toWire σ τ).2 = .ok out) {env : ℕ → Env}
    (hreads : ∀ k, (env k).reads = .ok) {fuel : ℕ} {req q : CodedMessage} {e : Engine} {n : ℤ}
    (hint : IsInt64 n) (hasked : Asked env fuel req q e n) {row : MessageRow}
    (hrow : e.seqMgr.messages ⟨ascii "FIX.4.4", q.fields.getD tagTargetCompID,
      q.fields.getD tagSenderCompID, n⟩ = some row) (hbody : row.body = out) :
    (∃ x ∈ (process env fuel req e).emitted, x.seq = n ∧ x.kind = .replay
      ∧ (keptPairs out).Perm (keptPairs x.frame)) ↔ ((keptPairs out).map Prod.fst).Nodup := by
  obtain ⟨l, rfl, hvalues, htags, hstrings⟩ := hsend.wire hout
  have hparse : defaultParse (wireText soh l) = .ok (setFields [] l) :=
    defaultParse_wireText hvalues htags
  have hkept : ∀ e ∈ l.filter fun e => isKept e.1, IsInt64 e.1 := fun e he =>
    htags e (List.mem_filter.mp he).1
  rw [keptPairs_wireText hvalues htags, nodup_tagText_iff hkept]
  refine hasked.exists_emitted_iff hint (fun k => ?_) fun _ hstore => ?_
  · have hlookup := lookup_ok (q.fields.getD tagTargetCompID) (q.fields.getD tagSenderCompID) n
      e.seqMgr
    rw [← hreads (k + 1), hrow, Option.map_some] at hlookup
    constructor
    · rintro ⟨x, hx, hkind, hsame⟩
      obtain ⟨stored, m', hfound, hparse', hcodec, -, hemit⟩ := (resendPass_spec hx).2 hkind
      rw [hlookup] at hfound
      cases hfound
      rw [hbody] at hparse'
      have hfields : m'.fields = setFields [] l := Except.ok.inj (hparse'.symm.trans hparse)
      obtain ⟨y, hy, -, hiff⟩ := emit_replay_perm_iff ⟨parsed_defaultParse hparse', hcodec⟩ hkept
        hfields (env (k + 1)) n
      rw [hemit] at hy
      cases hy
      exact hiff.mp hsame
    · intro hnodup
      have htype : (setFields [] l).getD tagMsgType ∉ gapFilledTypes := by
        have hget : m.fields.get tagMsgType = some (m.fields.getD tagMsgType) :=
          get_msgType_of_isApplication happ
        rw [FixFragment.getD_of_get (get_setFields hnodup
          (hstrings _ _ (by decide) (by decide) hget) (by decide) [])]
        exact notMem_gapFilledTypes happ
      obtain ⟨m', hfields, hsimple, hpass⟩ := @resendPass_loaded (env (k + 1))
        (q.fields.getD tagTargetCompID) (q.fields.getD tagSenderCompID) n ⟨ascii "FIX.4.4", _, _, n,
        row.msgType, row.body, row.created⟩ _ (hbody ▸ hparse) htype
      obtain ⟨x, hx, hkind, hiff⟩ := emit_replay_perm_iff hsimple hkept hfields (env (k + 1)) n
      refine ⟨x, ?_, hkind, hiff.mpr hnodup⟩
      rw [emission, hlookup, hpass]
      exact hx
  · rw [SeqManager.messages, hstore] at hrow
    cases hrow

/-- A party of an order. -/
def party (id : Bytes) : FixFragment := [(447, .str (ascii "D")), (448, .str id)]

/-- An order with one party. -/
def orderOfOne : CodedMessage where
  fields := [(8, .str (ascii "FIX.4.4")), (34, .str (ascii "1")), (35, .str (ascii "D")),
    (453, .group 453 448 [party (ascii "A")])]
  wf := by decide
  codec := none

/-- An order with two parties. -/
def orderOfTwo : CodedMessage where
  fields := [(8, .str (ascii "FIX.4.4")), (34, .str (ascii "1")), (35, .str (ascii "D")),
    (453, .group 453 448 [party (ascii "A"), party (ascii "B")])]
  wf := by decide
  codec := none

/-- The wire of a message. -/
def wireOf (m : CodedMessage) : Bytes := (m.toWire .stable .stable).2.toOption.getD []

/-- A store that holds the wire of a message under number 1. -/
def storeOf (m : CodedMessage) : SQLiteStore :=
  (SQLiteStore.opened.saveMessage .ok
    ⟨ascii "FIX.4.4", ascii "S", ascii "T", 1, ascii "D", wireOf m, 0⟩).1

/-- An order with one party is replayed as it was stored. -/
theorem replays_pairs_one : ∃ x ∈ (process (fun _ => Outbound.calm) 2
    (resendRequest (ascii "1") (ascii "1")) (engineOn (storeOf orderOfOne))).emitted,
      x.seq = 1 ∧ x.kind = .replay ∧ (keptPairs (wireOf orderOfOne)).Perm (keptPairs x.frame) := by
  have hout : (orderOfOne.toWire .stable .stable).2 = .ok (wireOf orderOfOne) := by rfl
  have hsend : orderOfOne.Sendable := ⟨by decide, by decide, nofun⟩
  refine (replays_pairs_iff hsend (by decide) hout (fun _ => rfl) (by decide)
    ⟨rfl, rfl, by decide, by decide, by decide, by decide⟩ rfl rfl).mpr ?_
  decide +kernel

/-- An order with two parties is replayed with one of them. -/
theorem replay_loses_party : (keptPairs (wireOf orderOfTwo)).length = 8
    ∧ ((process (fun _ => Outbound.calm) 2 (resendRequest (ascii "1") (ascii "1"))
      (engineOn (storeOf orderOfTwo))).emitted.map fun x => (x.kind, (keptPairs x.frame).length))
        = [(.replay, 6)] := by
  decide +kernel

end FixMsg
