import GoFixMsg.Codec.RoundTrip

/-!
# Codec/Parsers — three parsers, one reading

The built-in parser sets the fields as it cuts them off the buffer; the codec cuts the buffer into
pairs first, and sets them in a second loop, or hands them to the loop that dispatches on count
tags.  On every buffer they read the same message or fail on the same field, as long as no field
stands under a count tag of the dictionary (`parsers_agree`).

Three of them are compared: `defaultParse`, a codec without a dictionary, and a codec that has one
but finds no count tag in the buffer.  They agree on errors, too: all of them give up at the first
field without `=`, and none of them does at a field whose tag is no integer, which they skip.
-/

open GoLang

namespace FixMsg

/-- A field of the buffer has this integer tag. -/
def HasTag (buf : Bytes) (t : ℤ) : Prop :=
  ∃ field ∈ buf.splitOn soh, ∃ p, cutAt 61 field = some p ∧ atoi? p.1 = some t

/-- **No field of the buffer has a tag that counts a group** of a message type of the dictionary. -/
def NoCountTag (s : FixSpec) (buf : Bytes) : Prop :=
  ∀ t, HasTag buf t → ∀ ty msgSpec, s.messagesByType ty = some msgSpec →
    Assoc.find? t msgSpec.groups = none

/-- Cutting off a field at a time is cutting the buffer up, and setting the pairs. -/
theorem defaultParseFields_eq (fields : List Bytes) (m : FixFragment) :
    defaultParseFields m fields = (tokeniseFields fields).map (setPairs m) := by
  induction fields generalizing m with
  | nil => rfl
  | cons field fields ih =>
    rw [defaultParseFields, tokeniseFields]
    split
    · exact ih m
    · cases cutAt 61 field with
      | none => rfl
      | some p =>
        obtain ⟨t, value⟩ := p
        dsimp only
        cases htag : atoi? t with
        | none =>
          dsimp only
          rw [ih m]
          cases tokeniseFields fields with
          | error e => rfl
          | ok pairs =>
            refine congrArg Except.ok ?_
            rw [setPairs, htag]
        | some tag =>
          dsimp only
          rw [ih (m.set tag value)]
          cases tokeniseFields fields with
          | error e => rfl
          | ok pairs =>
            refine congrArg Except.ok ?_
            rw [setPairs, htag]

theorem defaultParse_eq (buf : Bytes) :
    defaultParse buf = (tokeniseFields (buf.splitOn soh)).map (setPairs []) := by
  rw [defaultParse, defaultParseFields_eq]
  split
  · next h =>
    subst h
    rfl
  · rfl

theorem tokenise_soh (buf : Bytes) : tokenise soh buf = tokeniseFields (buf.splitOn soh) := by
  rw [tokenise, splitFields, if_pos (by decide)]

/-- **A codec that sets every pair is the built-in parser.** -/
theorem parse_of_flat {c : Codec} (hsep : c.sep = soh) {buf : Bytes}
    (hflat : ∀ pairs, tokenise soh buf = .ok pairs → c.parsePairs pairs = .ok (setPairs [] pairs)) :
    c.parse buf = defaultParse buf := by
  rw [Codec.parse, hsep, defaultParse_eq, ← tokenise_soh]
  cases h : tokenise soh buf with
  | error e => rfl
  | ok pairs => exact hflat pairs h

/-- A pair is a field, cut at its `=`. -/
theorem mem_of_tokeniseFields {fields : List Bytes} {pairs : List Pair}
    (h : tokeniseFields fields = .ok pairs) {p : Pair} :
    p ∈ pairs ↔ ∃ field ∈ fields, cutAt 61 field = some p := by
  induction fields generalizing pairs with
  | nil =>
    cases h
    refine iff_of_false List.not_mem_nil ?_
    rintro ⟨_, hx, -⟩
    exact absurd hx List.not_mem_nil
  | cons field fields ih =>
    rw [tokeniseFields] at h
    split at h
    · next hnil =>
      have hcut : cutAt 61 field = none := by rw [hnil]; rfl
      rw [ih h, List.exists_mem_cons_iff, hcut]
      exact ⟨Or.inr, fun hp => hp.resolve_left (Option.some_ne_none p).symm⟩
    · split at h
      · cases h
      · next q hcut =>
        split at h
        · cases h
        · next rest hrest =>
          cases h
          rw [List.mem_cons, ih hrest, List.exists_mem_cons_iff, hcut]
          exact or_congr ⟨fun hp => hp ▸ rfl, fun hp => (Option.some.inj hp).symm⟩ Iff.rfl

/-- A tag of the buffer is that of a pair. -/
theorem hasTag_iff {buf : Bytes} {pairs : List Pair} (h : tokenise soh buf = .ok pairs) {t : ℤ} :
    HasTag buf t ↔ ∃ p ∈ pairs, atoi? p.1 = some t := by
  rw [tokenise_soh] at h
  constructor
  · rintro ⟨field, hfield, p, hcut, htag⟩
    exact ⟨p, (mem_of_tokeniseFields h).mpr ⟨field, hfield, hcut⟩, htag⟩
  · rintro ⟨p, hp, htag⟩
    obtain ⟨field, hfield, hcut⟩ := (mem_of_tokeniseFields h).mp hp
    exact ⟨field, hfield, p, hcut, htag⟩

/-- Where no pair stands under a count tag, dispatching on the tags sets every pair. -/
theorem dispatchPairs_flat {s : FixSpec} {msgSpec : MessageSpec} {pairs : List Pair}
    (h : ∀ p ∈ pairs, ∀ t, atoi? p.1 = some t → Assoc.find? t msgSpec.groups = none)
    (msg : FixFragment) : dispatchPairs s msgSpec msg pairs = .ok (setPairs msg pairs) := by
  induction pairs generalizing msg with
  | nil => rfl
  | cons p pairs ih =>
    obtain ⟨t, value⟩ := p
    have hrest := ih fun q hq => h q (List.mem_cons_of_mem _ hq)
    cases htag : atoi? t with
    | none => rw [dispatchPairs_skip htag, hrest, setPairs, htag]
    | some tag =>
      rw [dispatchPairs_plain htag (h (t, value) List.mem_cons_self tag htag), hrest, setPairs,
        htag]

/-- **The parsers agree outside groups**: they read the same message, or fail alike. -/
theorem parsers_agree (buf : Bytes) :
    (Codec.new none).parse buf = loadFix none [] buf
      ∧ Codec.newNoGroups.parse buf = loadFix none [] buf
      ∧ ∀ s, NoCountTag s buf → (Codec.new (some s)).parse buf = loadFix none [] buf := by
  rw [loadFix_fresh]
  refine ⟨parse_of_flat rfl fun _ _ => rfl, parse_of_flat rfl fun _ _ => rfl, fun s hs => ?_⟩
  refine parse_of_flat rfl fun pairs hpairs => ?_
  unfold Codec.parsePairs Codec.new
  dsimp only
  rw [if_neg Bool.false_ne_true]
  cases hspec : findMsgSpec s pairs with
  | none => rfl
  | some msgSpec =>
    refine dispatchPairs_flat (fun p hp t htag => ?_) []
    obtain ⟨ty, hty⟩ : ∃ ty, s.messagesByType ty = some msgSpec := by
      rw [findMsgSpec] at hspec
      split at hspec
      · cases hspec
      · exact ⟨_, hspec⟩
    exact hs t ((hasTag_iff hpairs).mpr ⟨p, hp, htag⟩) ty msgSpec hty

/-- An order without parties is read alike with the dictionary that groups them. -/
theorem parsers_agree_order :
    (Codec.new (some partySpec)).parse (ascii "35=D\x0155=IBM\x01")
      = loadFix none [] (ascii "35=D\x0155=IBM\x01") := by
  have hpairs : tokenise soh (ascii "35=D\x0155=IBM\x01")
      = .ok [(ascii "35", ascii "D"), (ascii "55", ascii "IBM")] := by decide +kernel
  refine (parsers_agree _).2.2 partySpec fun t ht ty msgSpec hty => ?_
  obtain ⟨p, hp, htag⟩ := (hasTag_iff hpairs).mp ht
  have hspec : msgSpec = orderSpec := by
    rw [partySpec] at hty
    dsimp only at hty
    split at hty
    · exact (Option.some.inj hty).symm
    · cases hty
  have hplain : ∀ p ∈ [(ascii "35", ascii "D"), (ascii "55", ascii "IBM")],
      ∀ t ∈ atoi? p.1, Assoc.find? t orderSpec.groups = none := by decide
  rw [hspec]
  exact hplain p hp t htag

end FixMsg
