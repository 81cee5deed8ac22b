import GoFixMsg.Codec.Codec
import GoFixMsg.Message.Fields

/-!
# Message/FixMessage — `ToWire` and `LoadFix`

`ToWire` computes BodyLength and CheckSum from one traversal of the message (`buildBody`), stores
them, and produces the wire by another.  Each traversal ranges over the map anew, so each has its
own choices of order.

So BodyLength is the length of one text, and the body on the wire is another; they have the same
length because they have the same fields (`toWire_layout`).  The codec of a message may separate by
another byte than SOH, but BodyLength and CheckSum are always computed with SOH.
-/

open GoLang

namespace FixMsg

/-! ## The built-in serialiser -/

/-- `sortedTags`. -/
def sortedTags (σ : SortSlice) (p : Path) (f : FixFragment) : List ℤ := σ.run p tagSortKey f.tags

/-- `writeField`. -/
def writeField (σ : SortSlice) (p : Path) (tag : ℤ) (v : Value) : Written UInt8 :=
  writeTree (fieldText soh) σ tagSortKey p tag v

/-- `defaultSerialise`. -/
def defaultSerialise (σ : SortSlice) (f : FixFragment) : Except Fault Bytes :=
  (inOrder (sortedTags σ [] f) (f.map fun e => (e.1, writeField σ [] e.1 e.2))).toExcept

/-- What `writeField` writes for a tag of a fragment. -/
def fieldAt (σ : SortSlice) (f : FixFragment) (tag : ℤ) : Written UInt8 :=
  ((Assoc.find? tag f).map (writeField σ [] tag)).getD (.ok [])

/-- The loop of `buildBody`.  The error of a field is dropped, and what the field wrote before it
stays; a nil group panics. -/
def bodyLoop (σ : SortSlice) (f : FixFragment) : List ℤ → Except Fault Bytes
  | [] => .ok []
  | tag :: tags =>
      if tag = tagBeginString ∨ tag = tagBodyLength ∨ tag = tagCheckSum then bodyLoop σ f tags
      else
        if (fieldAt σ f tag).fault = some .nilPointer then .error .nilPointer
        else (bodyLoop σ f tags).map ((fieldAt σ f tag).out ++ ·)

/-- `buildBody`: every field but 8, 9 and 10. -/
def buildBody (σ : SortSlice) (f : FixFragment) : Except Fault Bytes :=
  bodyLoop σ f (sortedTags σ [] f)

/-- The sum of the bytes of a buffer.  No buffer is long enough for it to leave Go's `int`. -/
def byteSum (s : Bytes) : ℕ := (s.map UInt8.toNat).sum

/-- The wire up to the body: `8=<BeginString>` and `9=<BodyLength>`. -/
def wirePrefix (beginStr : Bytes) (bodyLen : ℕ) : Bytes :=
  fieldText soh tagBeginString beginStr ++ fieldText soh tagBodyLength (itoa bodyLen)

/-- What `SetLenAndChecksum` stores, given the body. -/
def stampBody (f : FixFragment) (body : Bytes) : FixFragment :=
  (f.set tagBodyLength (itoa body.length)).set tagCheckSum
    (Decimal.padded3
      ((byteSum (wirePrefix (f.getD tagBeginString) body.length) + byteSum body) % 256))

theorem stampBody_wf {f : FixFragment} (h : f.WF) (body : Bytes) : (stampBody f body).WF :=
  (h.set (by decide) _).set (by decide) _

/-- `SetLenAndChecksum`. -/
def setLenAndChecksum (σ : SortSlice) (m : FixMessage) : Except Fault FixMessage :=
  (buildBody σ m.fields).map fun body => ⟨stampBody m.fields body, stampBody_wf m.wf body⟩

/-- **`ToWire`**, with the codec of the message if it has one: the message it leaves behind, and the
wire. -/
def toWire (σ τ : SortSlice) (codec : Option Codec) (m : FixMessage) :
    FixMessage × Except Fault Bytes :=
  match setLenAndChecksum σ m with
  | .error e => (m, .error e)
  | .ok m' =>
      match codec with
      | some c => (m', c.serialise τ m'.fields)
      | none => (m', defaultSerialise τ m'.fields)

/-! ## The built-in parser

Without a dictionary there are no groups: every field becomes a string under its tag, and a tag that
comes twice keeps its last value.  `LoadFix` puts what was parsed over what the message holds. -/

/-- The loop of `defaultParse` over the fields. -/
def defaultParseFields : FixFragment → List Bytes → Except ParseError FixFragment
  | m, [] => .ok m
  | m, field :: fields =>
      if field = [] then defaultParseFields m fields
      else
        match cutAt 61 field with
        | none => .error (.malformedField field)
        | some (t, value) =>
            match atoi? t with
            | none => defaultParseFields m fields
            | some tag => defaultParseFields (m.set tag value) fields

/-- `defaultParse`. -/
def defaultParse (buf : Bytes) : Except ParseError FixFragment :=
  if buf = [] then .ok [] else defaultParseFields [] (buf.splitOn soh)

/-- The entries of the parsed message are set in the message, over what it holds. -/
def mergeFields (m parsed : FixFragment) : FixFragment :=
  parsed.foldl (fun m e => Assoc.insert e.1 e.2 m) m

/-- `LoadFix`, on the fields of a message. -/
def loadFix (codec : Option Codec) (m : FixFragment) (buf : Bytes) :
    Except ParseError FixFragment :=
  match codec with
  | some c => (c.parse buf).map (mergeFields m)
  | none => (defaultParse buf).map (mergeFields m)

/-! ## Serialising

There are two serialisers, the built-in one and that of the codec, with a separator each.  They
write the same fields, in the same order, and the rest of this module treats them as one. -/

/-- The built-in serialiser and the codec's write the same fields. -/
theorem defaultSerialise_eq (σ : SortSlice) (f : FixFragment) :
    defaultSerialise σ f = (writeFragment (fieldText soh) σ tagSortKey [] f).toExcept := by
  rw [defaultSerialise, writeFragment, writeFields_eq]
  rfl

/-- The separator `ToWire` writes. -/
def wireSep : Option Codec → UInt8
  | none => soh
  | some c => c.sep

theorem wireSep_eq_soh {codec : Option Codec} (h : ∀ c ∈ codec, c.separator = soh) :
    wireSep codec = soh := by
  cases codec with
  | none => rfl
  | some c =>
    rw [wireSep, Codec.sep, h c rfl]
    rfl

/-- **The wire of `ToWire`, whichever serialiser wrote it**, is that of the stamped message. -/
theorem toWire_eq_ok {σ τ : SortSlice} {codec : Option Codec}
    (hsep : wireSep codec = soh) {m : FixMessage} {out : Bytes}
    (h : (toWire σ τ codec m).2 = .ok out) :
    ∃ body, buildBody σ m.fields = .ok body
      ∧ (toWire σ τ codec m).1.fields = stampBody m.fields body
      ∧ writeFragment (fieldText soh) τ tagSortKey [] (stampBody m.fields body) = .ok out := by
  unfold toWire setLenAndChecksum at h ⊢
  cases hb : buildBody σ m.fields with
  | error e => rw [hb] at h; cases h
  | ok body =>
    rw [hb] at h
    simp only [Except.map] at h ⊢
    refine ⟨body, rfl, ?_, ?_⟩
    · cases codec <;> rfl
    · cases codec with
      | none => rwa [defaultSerialise_eq, Written.toExcept_eq_ok_iff] at h
      | some c =>
        have hser : c.serialise τ (stampBody m.fields body) = .ok out := h
        rw [wireSep] at hsep
        rwa [Codec.serialise_eq, Written.toExcept_eq_ok_iff, hsep] at hser

/-! ## The body is the wire between 9 and 10

Stamping 9 and 10 puts two strings into the message, and their ranks are known: 8 comes first, 9
next, and 10 last.  What is between is what `buildBody` has written, field by field. -/

theorem find?_stampBody {f : FixFragment} {body : Bytes} {t : ℤ} (h9 : t ≠ tagBodyLength)
    (h10 : t ≠ tagCheckSum) : Assoc.find? t (stampBody f body) = Assoc.find? t f := by
  rw [stampBody, FixFragment.set, Assoc.find?_insert_of_ne h10, FixFragment.set,
    Assoc.find?_insert_of_ne h9]

/-- The tags of the body, in the order `buildBody` writes them. -/
def bodyTags (σ : SortSlice) (f : FixFragment) : List ℤ :=
  (sortedTags σ [] f).filter fun t => t ≠ tagBeginString ∧ t ≠ tagBodyLength ∧ t ≠ tagCheckSum

theorem mem_bodyTags {σ : SortSlice} {f : FixFragment} {t : ℤ} :
    t ∈ bodyTags σ f ↔ t ∈ f.tags ∧ t ≠ tagBeginString ∧ t ≠ tagBodyLength ∧ t ≠ tagCheckSum := by
  rw [bodyTags, List.mem_filter, decide_eq_true_eq, sortedTags, σ.mem_run]

theorem mem_tags_stampBody {f : FixFragment} {body : Bytes} {t : ℤ} :
    t ∈ (stampBody f body).tags ↔ t = tagCheckSum ∨ t = tagBodyLength ∨ t ∈ f.tags := by
  rw [stampBody, FixFragment.mem_tags_set, FixFragment.mem_tags_set]

/-- Where no field faults, the body is what the fields of the body tags write. -/
theorem bodyLoop_eq {σ : SortSlice} {f : FixFragment} {ts : List ℤ}
    (h : ∀ t ∈ ts, t ≠ tagBeginString → t ≠ tagBodyLength → t ≠ tagCheckSum →
      (fieldAt σ f t).fault = none) :
    bodyLoop σ f ts = .ok
      ((ts.filter fun t => t ≠ tagBeginString ∧ t ≠ tagBodyLength ∧ t ≠ tagCheckSum).flatMap
        fun t => (fieldAt σ f t).out) := by
  induction ts with
  | nil => rfl
  | cons t ts ih =>
    have htail := ih fun u hu => h u (List.mem_cons_of_mem _ hu)
    rw [bodyLoop]
    split
    · next hskip =>
      rw [htail, List.filter_cons_of_neg (by rw [decide_eq_true_eq]; tauto)]
    · next hkeep =>
      simp only [not_or] at hkeep
      obtain ⟨h8, h9, h10⟩ := hkeep
      rw [if_neg (by rw [h t List.mem_cons_self h8 h9 h10]; exact nofun), htail,
        List.filter_cons_of_pos (by rw [decide_eq_true_eq]; exact ⟨h8, h9, h10⟩),
        List.flatMap_cons]
      rfl

/-- Stamping 9 and 10 keeps every tag in range. -/
theorem inTagRange_stampBody {f : FixFragment} (h : f.AllTags InTagRange) (body : Bytes) :
    ∀ t ∈ (stampBody f body).tags, InTagRange t := by
  intro t ht
  rcases mem_tags_stampBody.mp ht with rfl | rfl | ht
  · decide
  · decide
  · exact h f (self_mem_fragments f) t ht

/-- The tags of the stamped message in the order they are written: 8, 9, the body, 10. -/
def stampedTags (σ : SortSlice) (f : FixFragment) : List ℤ :=
  tagBeginString :: tagBodyLength :: (bodyTags σ f ++ [tagCheckSum])

theorem nodup_stampedTags {σ : SortSlice} {f : FixFragment} (hf : Assoc.Sorted f) :
    (stampedTags σ f).Nodup := by
  have hnodup : (bodyTags σ f).Nodup := (σ.nodup_run hf.nodup).filter _
  refine List.nodup_cons.mpr ⟨fun h => ?_, List.nodup_cons.mpr ⟨fun h => ?_, ?_⟩⟩
  · rcases List.mem_cons.mp h with h | h
    · exact absurd h (by decide)
    · rcases List.mem_append.mp h with h | h
      · exact (mem_bodyTags.mp h).2.1 rfl
      · exact absurd (List.mem_singleton.mp h) (by decide)
  · rcases List.mem_append.mp h with h | h
    · exact (mem_bodyTags.mp h).2.2.1 rfl
    · exact absurd (List.mem_singleton.mp h) (by decide)
  · refine List.nodup_append.mpr ⟨hnodup, List.nodup_singleton _, fun a ha b hb hab => ?_⟩
    exact (mem_bodyTags.mp ha).2.2.2 (hab.trans (List.mem_singleton.mp hb))

/-- The ranks ascend along 8, 9, the body and 10. -/
theorem pairwise_stampedTags {σ : SortSlice} {f : FixFragment} (htags : f.AllTags InTagRange) :
    (stampedTags σ f).Pairwise fun a b => tagSortKey a ≤ tagSortKey b := by
  have hbody : ∀ t ∈ bodyTags σ f, InTagRange t := fun t ht =>
    htags f (self_mem_fragments f) t (mem_bodyTags.mp ht).1
  have hkey8 : tagSortKey tagBeginString = 0 := rfl
  have hkey9 : tagSortKey tagBodyLength = 1 := rfl
  have hge : ∀ t, InTagRange t → t ≠ tagBeginString → 1 ≤ tagSortKey t := by
    intro t ht hne
    have h0 := tagSortKey_nonneg ht
    have h1 : tagSortKey t ≠ 0 := fun h => hne (tagSortKey_injOn ht (by decide) h)
    omega
  refine List.pairwise_cons.mpr ⟨fun t ht => ?_, List.pairwise_cons.mpr ⟨fun t ht => ?_, ?_⟩⟩
  · rw [hkey8]
    rcases List.mem_cons.mp ht with rfl | ht
    · decide
    · rcases List.mem_append.mp ht with ht | ht
      · exact tagSortKey_nonneg (hbody t ht)
      · rw [List.mem_singleton.mp ht]
        decide
  · rw [hkey9]
    rcases List.mem_append.mp ht with ht | ht
    · exact hge t (hbody t ht) (mem_bodyTags.mp ht).2.1
    · rw [List.mem_singleton.mp ht]
      decide
  · refine List.pairwise_append.mpr
      ⟨(σ.sorted [] tagSortKey f.tags).filter _, List.pairwise_singleton _ _, fun a ha b hb => ?_⟩
    rw [List.mem_singleton.mp hb]
    exact tagSortKey_le_checkSum (hbody a ha)

/-- **The stamped message is written 8, 9, body, 10.** -/
theorem sortedTags_stampBody {σ τ : SortSlice} {f : FixFragment} (hf : f.WF)
    (h8 : tagBeginString ∈ f.tags) (htags : f.AllTags InTagRange) (body : Bytes) :
    sortedTags τ [] (stampBody f body) = stampedTags σ f := by
  have hrange := inTagRange_stampBody htags body
  refine τ.run_eq_of_sorted (fun a ha b hb => tagSortKey_injOn (hrange a ha) (hrange b hb)) ?_
    (pairwise_stampedTags htags)
  refine (List.perm_ext_iff_of_nodup (nodup_stampedTags hf.sorted)
    (stampBody_wf hf body).sorted.nodup).mpr fun t => ?_
  rw [mem_tags_stampBody, stampedTags]
  simp only [List.mem_cons, List.mem_append, List.not_mem_nil, or_false, mem_bodyTags]
  by_cases ht8 : t = tagBeginString
  · subst ht8
    tauto
  · tauto

/-- A field of the body is written alike in both traversals. -/
theorem fieldAt_stampBody {σ τ : SortSlice} {f : FixFragment} (htags : f.AllTags InTagRange)
    {t : ℤ} (ht : t ∈ bodyTags σ f) (body : Bytes) :
    fieldAt τ (stampBody f body) t = fieldAt σ f t := by
  obtain ⟨-, -, h9, h10⟩ := mem_bodyTags.mp ht
  rw [fieldAt, fieldAt, find?_stampBody h9 h10]
  cases hv : Assoc.find? t f with
  | none => rfl
  | some v =>
    exact writeTree_congr _ τ σ (keyInj_of_inTagRange htags) (Assoc.mem_of_find? hv) t [] []

theorem fieldAt_str {σ : SortSlice} {f : FixFragment} {t : ℤ} {s : Bytes} (h : f.get t = some s) :
    fieldAt σ f t = .ok (fieldText soh t s) := by
  rw [fieldAt, FixFragment.get_eq_some_iff.mp h]
  rfl

theorem AllTags.stampBody {f : FixFragment} (h : f.AllTags InTagRange) (body : Bytes) :
    (stampBody f body).AllTags InTagRange := (h.set (by decide) _).set (by decide) _

/-- **Strings and groups always serialise**: the wire is the text of the fields of the stamped
message, in the order of this run. -/
theorem toWire_written {σ τ : SortSlice} (codec : Option Codec) {m : FixMessage}
    (hplain : m.fields.Plain) : ∃ body, (toWire σ τ codec m).1.fields = stampBody m.fields body
      ∧ (toWire σ τ codec m).2
        = .ok (wireText (wireSep codec) (writtenFields τ (stampBody m.fields body))) := by
  have hfault : ∀ t, (fieldAt σ m.fields t).fault = none := by
    intro t
    rw [fieldAt]
    cases hv : Assoc.find? t m.fields with
    | none => rfl
    | some v =>
      have hmem := Assoc.mem_of_find? hv
      rw [Option.map_some, Option.getD_some, writeField, writeTree_fieldText]
      exact writeTree_fault σ tagSortKey hplain hmem t []
  have hbody : bodyLoop σ m.fields (sortedTags σ [] m.fields) = _ :=
    bodyLoop_eq fun t _ _ _ _ => hfault t
  generalize List.flatMap _ _ = body at hbody
  have hwrite := writeFragment_written ((hplain.set tagBodyLength (itoa body.length)).set
    tagCheckSum (Decimal.padded3 ((byteSum (wirePrefix (m.fields.getD tagBeginString) body.length)
      + byteSum body) % 256))) (wireSep codec) τ
  refine ⟨body, ?_⟩
  unfold toWire setLenAndChecksum buildBody
  rw [hbody]
  cases codec with
  | none =>
    refine ⟨rfl, ?_⟩
    change defaultSerialise τ (stampBody m.fields body) = _
    rw [wireSep] at hwrite
    rw [defaultSerialise_eq, stampBody, hwrite]
    rfl
  | some c =>
    refine ⟨rfl, ?_⟩
    change c.serialise τ (stampBody m.fields body) = _
    rw [wireSep] at hwrite
    rw [Codec.serialise_eq, stampBody, hwrite]
    rfl

/-- So it is with `SOH` for a codec that separates by it. -/
theorem toWire_of_plain {σ τ : SortSlice} {codec : Option Codec}
    (hcodec : ∀ c ∈ codec, c.separator = soh) {m : FixMessage} (hplain : m.fields.Plain) :
    ∃ body, (toWire σ τ codec m).1.fields = stampBody m.fields body
      ∧ (toWire σ τ codec m).2
        = .ok (wireText soh (writtenFields τ (stampBody m.fields body))) := by
  have h := @toWire_written σ τ codec m hplain
  rwa [wireSep_eq_soh hcodec] at h

/-- CheckSum as `SetLenAndChecksum` computes it from the body. -/
def checkSum (beginStr body : Bytes) : Bytes :=
  Decimal.padded3 ((byteSum (wirePrefix beginStr body.length) + byteSum body) % 256)

/-- **The wire of a message**: BeginString, BodyLength, the body and CheckSum.  It is the fields of
the stamped tags, one after the other; so no field of the body faults, and the body is those of the
body tags. -/
theorem toWire_layout {σ τ : SortSlice} {codec : Option Codec}
    (hsep : wireSep codec = soh) {m : FixMessage} {v out : Bytes}
    (hv : m.fields.get tagBeginString = some v) (htags : m.fields.AllTags InTagRange)
    (h : (toWire σ τ codec m).2 = .ok out) :
    ∃ body, (toWire σ τ codec m).1.fields = stampBody m.fields body
      ∧ body = (bodyTags σ m.fields).flatMap (fun t => (fieldAt σ m.fields t).out)
      ∧ out = wirePrefix v body.length ++ (body ++ fieldText soh tagCheckSum (checkSum v body)) := by
  obtain ⟨body, hbody, hfields, hwrite⟩ := toWire_eq_ok hsep h
  refine ⟨body, hfields, ?_⟩
  have h8 : tagBeginString ∈ m.fields.tags :=
    FixFragment.mem_tags_of_get hv
  have hget8 : (stampBody m.fields body).get tagBeginString = some v := by
    rw [stampBody, FixFragment.get_set_of_ne _ (by decide), FixFragment.get_set_of_ne _ (by decide),
      hv]
  have hget9 : (stampBody m.fields body).get tagBodyLength = some (itoa body.length) := by
    rw [stampBody, FixFragment.get_set_of_ne _ (by decide), FixFragment.get_set_self]
  have hget10 : (stampBody m.fields body).get tagCheckSum = some (checkSum v body) := by
    rw [stampBody, FixFragment.get_set_self, FixFragment.getD, hv]
    rfl
  have horder : inOrder (stampedTags σ m.fields)
      (writeFields (fieldText soh) τ tagSortKey [] (stampBody m.fields body)) = .ok out := by
    rw [← sortedTags_stampBody (τ := τ) m.wf h8 htags body]
    exact hwrite
  have hat : ∀ t, (Assoc.find? t
      (writeFields (fieldText soh) τ tagSortKey [] (stampBody m.fields body))).getD (.ok [])
        = fieldAt τ (stampBody m.fields body) t := by
    intro t
    rw [find?_writeFields]
    rfl
  obtain ⟨hfault, hout⟩ := inOrder_out (congrArg Written.fault horder)
  rw [horder] at hout
  simp only [hat] at hfault hout
  have hbodyEq : body = (bodyTags σ m.fields).flatMap fun t => (fieldAt σ m.fields t).out := by
    have hloop : bodyLoop σ m.fields (sortedTags σ [] m.fields) = .ok body := hbody
    rw [bodyLoop_eq] at hloop
    · exact (Except.ok.inj hloop).symm
    · intro t ht h8' h9 h10
      have hmem : t ∈ bodyTags σ m.fields := mem_bodyTags.mpr ⟨σ.mem_run.mp ht, h8', h9, h10⟩
      rw [← fieldAt_stampBody (τ := τ) htags hmem body]
      exact hfault t (List.mem_cons_of_mem _ (List.mem_cons_of_mem _ (List.mem_append_left _ hmem)))
  refine ⟨hbodyEq, ?_⟩
  have hmid : (bodyTags σ m.fields).flatMap (fun t => (fieldAt τ (stampBody m.fields body) t).out)
      = body := by
    conv_rhs => rw [hbodyEq]
    refine List.flatMap_congr fun t ht => ?_
    rw [fieldAt_stampBody htags ht]
  have hflat : out = (stampedTags σ m.fields).flatMap
      fun t => (fieldAt τ (stampBody m.fields body) t).out := hout
  rw [hflat, stampedTags, List.flatMap_cons, List.flatMap_cons, List.flatMap_append, hmid,
    List.flatMap_singleton, fieldAt_str hget8, fieldAt_str hget9, fieldAt_str hget10, wirePrefix,
    List.append_assoc]
  rfl

end FixMsg
