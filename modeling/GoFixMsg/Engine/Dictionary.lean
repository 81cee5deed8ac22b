import GoFixMsg.Engine.Validator

/-!
# Engine/Dictionary — validating a message against a dictionary

Given a `FixSpec`, `ValidateMessage` goes on from the mandatory tags to the type of the message, its
required tags and its values, down through the groups the dictionary lists.  It ranges over maps
and returns at the first error, so the order of a map decides *which* error comes back.  It does not
decide whether one does: `validateMessage_eq_none_iff` says what is accepted, for every order.

Requirements come in three kinds: a tag that must be there, a value that must have the form its type
asks for, and a value that must be one of those listed.  A string under a tag that the dictionary
does not define is accepted, and so is a group that it does not list.  What the standard library
makes of a number or a time is a parameter.
-/

open GoLang

namespace FixMsg

/-! ## The library -/

/-- What the validator takes from Go's library: whether `strconv.Atoi` and `strconv.ParseFloat` read
a text, the error `time.Parse` has for a layout and a text, and `%q`. -/
structure ValidatorLib where
  atoi : Bytes → Bool
  parseFloat : Bytes → Bool
  timeParse : Bytes → Bytes → Option Bytes
  quote : Bytes → Bytes

/-- How `ValidateMessage` fails: with an error, or by reading the members of a nil
`*RepeatingGroup`, which panics. -/
inductive ValidateError where
  | invalid (text : Bytes)
  | nilPointer
  deriving DecidableEq

/-- `fmt.Errorf("<label>%w", err)`; a panic goes through. -/
def ValidateError.wrap (label : Bytes) : ValidateError → ValidateError
  | .invalid text => .invalid (label ++ text)
  | .nilPointer => .nilPointer

/-! ## `validateDataType` -/

/-- The types `strconv.Atoi` checks. -/
def integerTypes : List Bytes :=
  [ascii "INT", ascii "LENGTH", ascii "NUMINGROUP", ascii "SEQNUM"]

/-- The types `strconv.ParseFloat` checks. -/
def floatTypes : List Bytes :=
  [ascii "FLOAT", ascii "QTY", ascii "PRICE", ascii "PRICEOFFSET", ascii "AMT", ascii "PERCENTAGE"]

/-- The layout a UTCTIMESTAMP is read by, which its length chooses. -/
def timestampLayout (value : Bytes) : Bytes :=
  if value.length = 21 then ascii "20060102-15:04:05.000"
  else if value.length = 24 then ascii "20060102-15:04:05.000000"
  else ascii "20060102-15:04:05"

/-- The layout a UTCTIMEONLY is read by. -/
def timeOnlyLayout (value : Bytes) : Bytes :=
  if value.length = 12 then ascii "15:04:05.000" else ascii "15:04:05"

/-- `validateDataType`: its error. -/
def validateDataType (lib : ValidatorLib) (dataType value : Bytes) : Option Bytes :=
  if dataType ∈ integerTypes then
    if lib.atoi value then none else some (ascii "expected integer, got " ++ lib.quote value)
  else if dataType ∈ floatTypes then
    if lib.parseFloat value then none else some (ascii "expected float, got " ++ lib.quote value)
  else if dataType = ascii "UTCTIMESTAMP" then
    if value.length < 17 then some (ascii "UTCTimestamp too short")
    else (lib.timeParse (timestampLayout value) value).map (ascii "invalid UTCTimestamp: " ++ ·)
  else if dataType = ascii "UTCDATEONLY" then
    (lib.timeParse (ascii "20060102") value).map (ascii "invalid UTCDateOnly: " ++ ·)
  else if dataType = ascii "UTCTIMEONLY" then
    (lib.timeParse (timeOnlyLayout value) value).map (ascii "invalid UTCTimeOnly: " ++ ·)
  else if dataType = ascii "BOOLEAN" then
    if value ≠ ascii "Y" ∧ value ≠ ascii "N" then
      some (ascii "invalid boolean " ++ lib.quote value ++ ascii " (expected Y/N)")
    else none
  else none

/-- **What a type asks of a value.**  A type of any other name asks nothing. -/
@[mk_iff]
structure TypeConforms (lib : ValidatorLib) (dataType value : Bytes) : Prop where
  integer : dataType ∈ integerTypes → lib.atoi value = true
  float : dataType ∈ floatTypes → lib.parseFloat value = true
  timestamp : dataType = ascii "UTCTIMESTAMP" →
    17 ≤ value.length ∧ lib.timeParse (timestampLayout value) value = none
  dateOnly : dataType = ascii "UTCDATEONLY" → lib.timeParse (ascii "20060102") value = none
  timeOnly : dataType = ascii "UTCTIMEONLY" → lib.timeParse (timeOnlyLayout value) value = none
  boolean : dataType = ascii "BOOLEAN" → value = ascii "Y" ∨ value = ascii "N"

theorem integerTypes_ne : ∀ t ∈ integerTypes, t ∉ floatTypes ∧ t ≠ ascii "UTCTIMESTAMP"
    ∧ t ≠ ascii "UTCDATEONLY" ∧ t ≠ ascii "UTCTIMEONLY" ∧ t ≠ ascii "BOOLEAN" := by decide

theorem floatTypes_ne : ∀ t ∈ floatTypes, t ≠ ascii "UTCTIMESTAMP" ∧ t ≠ ascii "UTCDATEONLY"
    ∧ t ≠ ascii "UTCTIMEONLY" ∧ t ≠ ascii "BOOLEAN" := by decide

/-- The names of the types differ, so at most one of the six demands applies to a value. -/
theorem validateDataType_eq_none {lib : ValidatorLib} {dataType value : Bytes} :
    validateDataType lib dataType value = none ↔ TypeConforms lib dataType value := by
  have hdate : ascii "UTCDATEONLY" ≠ ascii "UTCTIMESTAMP" := by decide
  have htime : ascii "UTCTIMEONLY" ≠ ascii "UTCTIMESTAMP"
    ∧ ascii "UTCTIMEONLY" ≠ ascii "UTCDATEONLY" := by decide
  have hbool : ascii "BOOLEAN" ≠ ascii "UTCTIMESTAMP" ∧ ascii "BOOLEAN" ≠ ascii "UTCDATEONLY"
    ∧ ascii "BOOLEAN" ≠ ascii "UTCTIMEONLY" := by decide
  unfold validateDataType
  rw [typeConforms_iff]
  split
  · next h =>
    obtain ⟨h1, h2, h3, h4, h5⟩ := integerTypes_ne dataType h
    simp [h, h1, h2, h3, h4, h5]
  next hint =>
  split
  · next h =>
    obtain ⟨h2, h3, h4, h5⟩ := floatTypes_ne dataType h
    simp [hint, h, h2, h3, h4, h5]
  next hfloat =>
  split
  · next h =>
    subst h
    rcases Nat.lt_or_ge value.length 17 with hlen | hlen
    · simp [hint, hfloat, hdate.symm, htime.1.symm, hbool.1.symm, hlen]
    · simp [hint, hfloat, hdate.symm, htime.1.symm, hbool.1.symm, hlen, Nat.not_lt.mpr hlen]
  next hstamp =>
  split
  · next h =>
    subst h
    simp [hint, hfloat, hdate, htime.2.symm, hbool.2.1.symm]
  next hday =>
  split
  · next h =>
    subst h
    simp [hint, hfloat, htime, hbool.2.2.symm]
  next htod =>
  split
  · next h =>
    subst h
    simp [hint, hfloat, hbool]
    grind
  · next h => simp [hint, hfloat, hstamp, hday, htod, h]

/-! ## Strings -/

/-- The checks on a string under a tag: its type, and its enum values where some are listed.  A tag
the dictionary does not define is let through. -/
def validateString (lib : ValidatorLib) (s : FixSpec) (tag : ℤ) (value : Bytes) : Option Bytes :=
  match s.tags tag with
  | none => none
  | some tagDef =>
      match validateDataType lib tagDef.type value with
      | some err =>
          some (ascii "invalid value for tag " ++ itoa tag ++ ascii " (" ++ tagDef.name
            ++ ascii "): " ++ err)
      | none =>
          if tagDef.values ≠ [] ∧ value ∉ tagDef.values then
            some (ascii "invalid enum value " ++ lib.quote value ++ ascii " for tag " ++ itoa tag
              ++ ascii " (" ++ tagDef.name ++ ascii ")")
          else none

/-- **What the dictionary asks of a string under a tag it defines.** -/
def StringConforms (lib : ValidatorLib) (s : FixSpec) (tag : ℤ) (value : Bytes) : Prop :=
  ∀ tagDef ∈ s.tags tag, TypeConforms lib tagDef.type value
    ∧ (tagDef.values ≠ [] → value ∈ tagDef.values)

theorem validateString_eq_none {lib : ValidatorLib} {s : FixSpec} {tag : ℤ} {value : Bytes} :
    validateString lib s tag value = none ↔ StringConforms lib s tag value := by
  unfold validateString StringConforms
  cases htag : s.tags tag with
  | none => simp
  | some tagDef =>
    simp only [Option.mem_some_iff, forall_eq']
    rw [← validateDataType_eq_none]
    cases hdata : validateDataType lib tagDef.type value with
    | some err => simp
    | none => simp

/-! ## Ranging over a fragment

Each entry has its own error, if any, whatever comes before it.  So the loop is written as the error
of every entry, and the first of these in the order in which the map comes out. -/

/-- The first required tag that is missing, in the order in which the tags come out. -/
def missingTag (ρ : RangeOrder) (p : Path) (requiredTags : List ℤ) (f : FixFragment) : Option ℤ :=
  (ρ.run p requiredTags).find? fun t => !f.contains t

theorem missingTag_eq_none {ρ : RangeOrder} {p : Path} {requiredTags : List ℤ} {f : FixFragment} :
    missingTag ρ p requiredTags f = none ↔ ∀ t ∈ requiredTags, t ∈ f.tags := by
  simp only [missingTag, List.find?_eq_none, ρ.mem_run, Bool.not_eq_true', Bool.not_eq_false,
    FixFragment.contains_iff]

/-- The first error, in the order in which the tags come out, of what each tag has. -/
def firstError (tags : List ℤ) (errs : List (ℤ × Option ValidateError)) : Option ValidateError :=
  tags.findSome? fun t => (Assoc.find? t errs).join

section Traversal

variable (lib : ValidatorLib) (s : FixSpec) (σ ρ : RangeOrder)

mutual

/-- The body of the loop over a fragment, for one entry.  A group is looked into when the dictionary
lists its count tag at this level: `groups` is `Groups`, or `NestedGroups` further down. -/
def validateValue (p : Path) (groupWord : Bytes) (groups : List (ℤ × GroupRef)) (tag : ℤ) :
    Value → Option ValidateError
  | .str value => (validateString lib s tag value).map .invalid
  | .group _ _ members =>
      match Assoc.find? tag groups with
      | none => none
      | some gSpec =>
          (validateRepeatingGroup p tag (s.groupSpec gSpec) 0 members).map
            (.wrap (groupWord ++ itoa tag ++ ascii ": "))
  | .nilGroup => (Assoc.find? tag groups).map fun _ => .nilPointer
  | .other => none

/-- `validateRepeatingGroup`, from the `i`-th member on. -/
def validateRepeatingGroup (p : Path) (tag : ℤ) (gSpec : GroupSpec) (i : ℕ) :
    List FixFragment → Option ValidateError
  | [] => none
  | member :: members =>
      match missingTag ρ ((tag, i) :: p) gSpec.requiredTags member with
      | some t =>
          some (.invalid (ascii "member " ++ itoa i ++ ascii ": missing required tag " ++ itoa t))
      | none =>
          match firstError (σ.run ((tag, i) :: p) (Assoc.keys member))
            (validateFields ((tag, i) :: p) (ascii "sub-group ") gSpec.nestedGroups member) with
          | some err => some (err.wrap (ascii "member " ++ itoa i ++ ascii ": "))
          | none => validateRepeatingGroup p tag gSpec (i + 1) members

/-- The error of each entry of a fragment. -/
def validateFields (p : Path) (groupWord : Bytes) (groups : List (ℤ × GroupRef)) :
    FixFragment → List (ℤ × Option ValidateError)
  | [] => []
  | (t, v) :: rest =>
      (t, validateValue p groupWord groups t v) :: validateFields p groupWord groups rest

end

/-- The loop over a fragment. -/
def validateFragment (p : Path) (groupWord : Bytes) (groups : List (ℤ × GroupRef))
    (f : FixFragment) : Option ValidateError :=
  firstError (σ.run p f.tags) (validateFields lib s σ ρ p groupWord groups f)

/-- The part of `ValidateMessage` that reads the dictionary. -/
def validateDictionary (f : FixFragment) : Option ValidateError :=
  match s.messagesByType (f.getD tagMsgType) with
  | none =>
      some (.invalid (ascii "unknown MsgType " ++ lib.quote (f.getD tagMsgType)
        ++ ascii " in dictionary"))
  | some msgSpec =>
      match missingTag ρ [] msgSpec.requiredTags f with
      | some t =>
          some (.invalid (ascii "missing required tag " ++ itoa t ++ ascii " for MsgType "
            ++ f.getD tagMsgType ++ ascii " (" ++ msgSpec.name ++ ascii ")"))
      | none => validateFragment lib s σ ρ [] (ascii "group ") msgSpec.groups f

end Traversal

/-- **`ValidateMessage`**, with or without a dictionary. -/
def validateMessage (lib : ValidatorLib) (σ ρ : RangeOrder) (m : FixMessage) (s : Option FixSpec) :
    Option ValidateError :=
  match validateMandatory m.fields with
  | some err => some (.invalid err)
  | none => s.bind fun s => validateDictionary lib s σ ρ m.fields

/-! ## What is accepted

Conformity is a recursion over the fragment, group by group and member by member, with the tags that
each level requires.  It does not mention orders, errors or the tables of the validator. -/

/-- **What the dictionary asks of the values of a fragment**, `groups` being the groups it lists at
this level: its strings conform, and so do those of every member of a listed group, which also holds
every tag the group requires. -/
inductive FieldsConform (lib : ValidatorLib) (s : FixSpec) :
    List (ℤ × GroupRef) → FixFragment → Prop
  | intro {groups : List (ℤ × GroupRef)} {f : FixFragment}
      (strings : ∀ t value, f.get t = some value → StringConforms lib s t value)
      (required : ∀ t n k members gSpec, Assoc.find? t f = some (.group n k members) →
        Assoc.find? t groups = some gSpec → ∀ member ∈ members,
          ∀ u ∈ (s.groupSpec gSpec).requiredTags, u ∈ FixFragment.tags member)
      (members : ∀ t n k members gSpec, Assoc.find? t f = some (.group n k members) →
        Assoc.find? t groups = some gSpec → ∀ member ∈ members,
          FieldsConform lib s (s.groupSpec gSpec).nestedGroups member) :
      FieldsConform lib s groups f

/-- **What the dictionary asks of a message**: the type under tag 35 is one of its types, the tags
of that type are there, and the values conform. -/
def ConformsToDictionary (lib : ValidatorLib) (s : FixSpec) (f : FixFragment) : Prop :=
  ∃ msgSpec, s.messagesByType (f.getD tagMsgType) = some msgSpec
    ∧ (∀ t ∈ msgSpec.requiredTags, t ∈ f.tags) ∧ FieldsConform lib s msgSpec.groups f

section Accepted

variable {lib : ValidatorLib} {s : FixSpec} {σ ρ : RangeOrder}

theorem find?_validateFields {p : Path} {groupWord : Bytes} {groups : List (ℤ × GroupRef)} {t : ℤ}
    {f : FixFragment} : Assoc.find? t (validateFields lib s σ ρ p groupWord groups f)
      = (Assoc.find? t f).map (validateValue lib s σ ρ p groupWord groups t) := by
  induction f with
  | nil => rfl
  | cons e f ih =>
    rw [validateFields, Assoc.find?_cons, Assoc.find?_cons, ih]
    split
    · next h => rw [h, Option.map_some]
    · rfl

/-- The loop over a fragment finds no error exactly when no entry has one. -/
theorem validateFragment_eq_none {p : Path} {groupWord : Bytes} {groups : List (ℤ × GroupRef)}
    {f : FixFragment} : validateFragment lib s σ ρ p groupWord groups f = none ↔
      ∀ t v, Assoc.find? t f = some v → validateValue lib s σ ρ p groupWord groups t v = none := by
  rw [validateFragment, firstError, List.findSome?_eq_none_iff]
  simp only [find?_validateFields, σ.mem_run]
  constructor
  · intro h t v hv
    have := h t (Assoc.find?_isSome_iff.mp (by rw [hv]; rfl))
    rwa [hv] at this
  · intro h t _
    cases hv : Assoc.find? t f with
    | none => rfl
    | some v => exact h t v hv

/-- **A group is accepted exactly when every member is**: it holds the required tags, and no entry
of it has an error. -/
theorem validateRepeatingGroup_eq_none {p : Path} {tag : ℤ} {gSpec : GroupSpec} {i : ℕ}
    {members : List FixFragment} {P : FixFragment → Prop}
    (h : ∀ m ∈ members, ∀ q w, validateFragment lib s σ ρ q w gSpec.nestedGroups m = none ↔ P m) :
    validateRepeatingGroup lib s σ ρ p tag gSpec i members = none ↔
      ∀ m ∈ members, (∀ u ∈ gSpec.requiredTags, u ∈ FixFragment.tags m) ∧ P m := by
  induction members generalizing i with
  | nil => simp [validateRepeatingGroup]
  | cons m members ih =>
    have hm := h m List.mem_cons_self ((tag, i) :: p) (ascii "sub-group ")
    rw [validateFragment] at hm
    rw [List.forall_mem_cons, ← ih (i := i + 1) fun m' hm' => h m' (List.mem_cons_of_mem _ hm'),
      ← missingTag_eq_none (ρ := ρ) (p := (tag, i) :: p), ← hm, validateRepeatingGroup]
    cases missingTag ρ ((tag, i) :: p) gSpec.requiredTags m with
    | some t => simp
    | none =>
      cases firstError (σ.run ((tag, i) :: p) m.tags)
          (validateFields lib s σ ρ ((tag, i) :: p) (ascii "sub-group ") gSpec.nestedGroups m) with
      | some err => simp
      | none => simp

/-- **The loop over a fragment accepts what conforms**, at any depth and in any order. -/
theorem validateFragment_eq_none_iff {f : FixFragment} (hplain : f.Plain)
    {groups : List (ℤ × GroupRef)} (p : Path) (groupWord : Bytes) :
    validateFragment lib s σ ρ p groupWord groups f = none ↔ FieldsConform lib s groups f := by
  induction f using FixFragment.induction generalizing groups p groupWord with
  | step f ih =>
    have hgroup : ∀ {t n k members}, Assoc.find? t f = some (.group n k members) → ∀ gSpec,
        validateRepeatingGroup lib s σ ρ p t (s.groupSpec gSpec) 0 members = none ↔
          ∀ m ∈ members, (∀ u ∈ (s.groupSpec gSpec).requiredTags, u ∈ FixFragment.tags m)
            ∧ FieldsConform lib s (s.groupSpec gSpec).nestedGroups m := by
      intro t n k members hv gSpec
      have hmem := Assoc.mem_of_find? hv
      exact validateRepeatingGroup_eq_none fun m hm q w =>
        ih t n k members hmem m hm (hplain.member hmem hm) q w
    rw [validateFragment_eq_none]
    constructor
    · intro h
      refine .intro (fun t value hv => ?_) (fun t n k members gSpec hv hg m hm => ?_)
        fun t n k members gSpec hv hg m hm => ?_
      · have hstr := h t _ (FixFragment.get_eq_some_iff.mp hv)
        rw [validateValue, Option.map_eq_none_iff] at hstr
        exact validateString_eq_none.mp hstr
      · have hmembers := h t _ hv
        rw [validateValue, hg] at hmembers
        exact ((hgroup hv gSpec).mp (Option.map_eq_none_iff.mp hmembers) m hm).1
      · have hmembers := h t _ hv
        rw [validateValue, hg] at hmembers
        exact ((hgroup hv gSpec).mp (Option.map_eq_none_iff.mp hmembers) m hm).2
    · rintro ⟨hstr, hreq, hmembers⟩ t v hv
      rcases hplain f (self_mem_fragments f) _ (Assoc.mem_of_find? hv) with ⟨value, hs⟩ | hgrp
      · dsimp only at hs
        subst hs
        rw [validateValue, Option.map_eq_none_iff]
        exact validateString_eq_none.mpr (hstr t value (FixFragment.get_eq_some_iff.mpr hv))
      · obtain ⟨n, k, members, hg⟩ := hgrp
        dsimp only at hg
        subst hg
        rw [validateValue]
        cases hspec : Assoc.find? t groups with
        | none => rfl
        | some gSpec =>
          exact Option.map_eq_none_iff.mpr ((hgroup hv gSpec).mpr fun m hm =>
            ⟨hreq t n k members gSpec hv hspec m hm, hmembers t n k members gSpec hv hspec m hm⟩)

theorem validateDictionary_eq_none_iff {f : FixFragment} (hplain : f.Plain) :
    validateDictionary lib s σ ρ f = none ↔ ConformsToDictionary lib s f := by
  unfold validateDictionary ConformsToDictionary
  cases s.messagesByType (f.getD tagMsgType) with
  | none => simp
  | some msgSpec =>
    simp only [Option.some_inj, exists_eq_left']
    rw [← missingTag_eq_none (ρ := ρ) (p := []),
      ← validateFragment_eq_none_iff (σ := σ) (ρ := ρ) hplain [] (ascii "group ")]
    cases missingTag ρ [] msgSpec.requiredTags f with
    | some t => simp
    | none => simp

end Accepted

/-- Without a dictionary only the mandatory tags are asked for. -/
theorem validateMessage_none (lib : ValidatorLib) (σ ρ : RangeOrder) (m : FixMessage) :
    validateMessage lib σ ρ m none = (validateMandatory m.fields).map .invalid := by
  unfold validateMessage
  cases validateMandatory m.fields <;> rfl

/-- **The exact meaning of `ValidateMessage`.**  A message of strings and groups is accepted exactly
when the mandatory tags are there and, given a dictionary, the message conforms to it.  The order in
which the maps come out has no say. -/
theorem validateMessage_eq_none_iff {m : FixMessage} (hplain : m.fields.Plain) (lib : ValidatorLib)
    (σ ρ : RangeOrder) (s : Option FixSpec) :
    validateMessage lib σ ρ m s = none ↔
      (∀ t ∈ mandatoryTags, t ∈ m.fields.tags)
        ∧ ∀ d, s = some d → ConformsToDictionary lib d m.fields := by
  rw [← validateMandatory_eq_none, validateMessage]
  cases validateMandatory m.fields with
  | some err => simp
  | none =>
    cases s with
    | none => simp
    | some d => simp [validateDictionary_eq_none_iff hplain]

/-- `strconv` and `time.Parse` on whole numbers and on texts as long as their layout. -/
def sampleLib : ValidatorLib where
  atoi value := (atoi? value).isSome
  parseFloat value := (atoi? value).isSome
  timeParse layout value :=
    if layout.length = value.length then none else some (ascii "cannot parse")
  quote value := ascii "\"" ++ value ++ ascii "\""

/-- A dictionary with one message type, whose parties have sub-identifiers. -/
def orderDictionary : FixSpec where
  messagesByType t :=
    if t = ascii "D" then some ⟨ascii "NewOrderSingle", ascii "D", [54], [54], [(453, 0)]⟩ else none
  groupSpec r :=
    if r = 0 then ⟨453, 448, [448, 452], [448, 452], [(802, 1)]⟩
    else ⟨802, 523, [523], [523, 803], []⟩
  tags t :=
    if t = 52 then some ⟨52, ascii "SendingTime", ascii "UTCTIMESTAMP", []⟩
    else if t = 54 then some ⟨54, ascii "Side", ascii "CHAR", [ascii "1", ascii "2"]⟩
    else if t = 452 then some ⟨452, ascii "PartyRole", ascii "INT", []⟩
    else if t = 803 then some ⟨803, ascii "PartySubIDType", ascii "INT", [ascii "4"]⟩
    else none

/-- An order with one party, which has one sub-identifier. -/
def partyOrder : FixMessage where
  fields :=
    [(8, .str (ascii "FIX.4.4")), (9, .str (ascii "5")), (10, .str (ascii "000")),
     (34, .str (ascii "1")), (35, .str (ascii "D")), (49, .str (ascii "S")),
     (52, .str (ascii "20260228-12:00:00.000")), (54, .str (ascii "1")), (56, .str (ascii "T")),
     (453, .group 453 448
        [[(448, .str (ascii "ID1")), (452, .str (ascii "1")),
          (802, .group 802 523 [[(523, .str (ascii "desk")), (803, .str (ascii "4"))]])]])]
  wf := by decide

theorem validateMessage_partyOrder :
    validateMessage sampleLib .written .written partyOrder (some orderDictionary) = none
      ∧ ConformsToDictionary sampleLib orderDictionary partyOrder.fields :=
  have haccepted :
      validateMessage sampleLib .written .written partyOrder (some orderDictionary) = none := by
    decide
  ⟨haccepted, ((validateMessage_eq_none_iff (by decide) sampleLib .written .written
    (some orderDictionary)).mp haccepted).2 orderDictionary rfl⟩

end FixMsg
