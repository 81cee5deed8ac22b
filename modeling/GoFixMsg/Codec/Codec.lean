import GoFixMsg.Message.Writer

/-!
# Codec/Codec — the wire-format codec

`Codec.parse` splits a buffer into `tag=value` pairs and fills a fragment, recognising repeating
groups through a `FixSpec`; `Codec.serialise` writes a fragment out.  The group loop consumes its
list of pairs from the front, where the source moves an offset.

`Parse` has three ways through.  Without a dictionary, or with a message type it does not find
there, every pair is set as a string; with one, the loop that dispatches hands each count field of
the message type to `parseGroup`.  Pairs whose tag is not an integer are stepped over, but in a
group they end it.
-/

open GoLang

namespace FixMsg

/-! ## Dictionaries

A dictionary maps message types to the groups they may carry, and each group to its own.  Groups
refer to groups by a name, since a `*GroupSpec` may lead back to itself. -/

/-- A `*GroupSpec`: where in the dictionary's group table the group is.  Groups refer to each other
through the table, so a dictionary may be recursive. -/
abbrev GroupRef := ℕ

/-- `spec.GroupSpec`. -/
structure GroupSpec where
  numberTag : ℤ
  firstTag : ℤ
  requiredTags : List ℤ
  tags : List ℤ
  nestedGroups : List (ℤ × GroupRef)

/-- `spec.MessageSpec`. -/
structure MessageSpec where
  name : Bytes
  msgType : Bytes
  requiredTags : List ℤ
  tags : List ℤ
  groups : List (ℤ × GroupRef)

/-- `spec.FixTag`; of `Values`, the enum values. -/
structure FixTag where
  number : ℤ
  name : Bytes
  type : Bytes
  values : List Bytes

/-- `spec.FixSpec`: the message types, what each `*GroupSpec` points to, and the tags it defines. -/
structure FixSpec where
  messagesByType : Bytes → Option MessageSpec
  groupSpec : GroupRef → GroupSpec
  tags : ℤ → Option FixTag := fun _ => none

/-- `Codec`. -/
structure Codec where
  spec : Option FixSpec
  separator : UInt8
  noGroups : Bool

/-- `SOH`. -/
def soh : UInt8 := 1

namespace Codec

/-- `New`. -/
def new (s : Option FixSpec) : Codec := ⟨s, soh, false⟩

/-- `NewNoGroups`. -/
def newNoGroups : Codec := ⟨none, soh, true⟩

/-- `WithSeparator`. -/
def withSeparator (c : Codec) (sep : UInt8) : Codec := { c with separator := sep }

/-- The separator a codec works with: zero stands for `SOH`. -/
def sep (c : Codec) : UInt8 := if c.separator = 0 then soh else c.separator

end Codec

/-! ## Splitting a buffer into pairs

The separator is turned into a string before it splits, which for a byte of 128 and above is two
bytes.  An empty field is skipped, and one without `=` fails the whole buffer. -/

/-- A `tag=value` pair as it stands in the buffer. -/
abbrev Pair := Bytes × Bytes

/-- What parsing can fail with. -/
inductive ParseError where
  | malformedField (field : Bytes)
  | groupCount (tag : ℤ)
  | subGroupCount (tag : ℤ)
  | outOfFuel
  deriving DecidableEq

/-- `strings.Split` at a separator of two bytes. -/
def splitOn2 (a b : UInt8) : Bytes → List Bytes
  | x :: y :: rest =>
      if x = a ∧ y = b then [] :: splitOn2 a b rest
      else (splitOn2 a b (y :: rest)).modifyHead (x :: ·)
  | [x] => [[x]]
  | [] => [[]]

/-- `strings.Split(s, string(separator))`: `string` turns the byte into the UTF-8 encoding of the
rune with that number, which from 128 on is two bytes long. -/
def splitFields (separator : UInt8) (s : Bytes) : List Bytes :=
  if separator < 128 then s.splitOn separator
  else splitOn2 ((0xC0 : UInt8) ||| separator >>> 6) ((0x80 : UInt8) ||| separator &&& 0x3F) s

/-- The loop of `tokenise` over the fields. -/
def tokeniseFields : List Bytes → Except ParseError (List Pair)
  | [] => .ok []
  | field :: fields =>
      if field = [] then tokeniseFields fields
      else
        match cutAt 61 field with
        | none => .error (.malformedField field)
        | some pair =>
            match tokeniseFields fields with
            | .error e => .error e
            | .ok pairs => .ok (pair :: pairs)

/-- `tokenise`, at the delimiter `=`. -/
def tokenise (separator : UInt8) (buf : Bytes) : Except ParseError (List Pair) :=
  tokeniseFields (splitFields separator buf)

/-! ## Parsing

The group loop keeps the members it has closed and the one that is open.  It stops at the first pair
that is no tag of the group, and at FirstTag when enough members are closed. -/

/-- The flat loop: every pair whose tag is an integer is set. -/
def setPairs : FixFragment → List Pair → FixFragment
  | msg, [] => msg
  | msg, p :: pairs =>
      match atoi? p.1 with
      | none => setPairs msg pairs
      | some tag => setPairs (msg.set tag p.2) pairs

/-- The loop of `parseGroup`, with the members closed so far and the open one: the pairs it leaves
and the members of the group.  `fuel` bounds the number of passes. -/
def groupLoop (s : FixSpec) :
    ℕ → GroupSpec → ℤ → List Pair → List FixFragment → Option FixFragment →
      Except ParseError (List Pair × List FixFragment)
  | 0, _, _, _, _, _ => .error .outOfFuel
  | fuel + 1, grp, count, pairs, members, current =>
      match pairs with
      | [] => .ok ([], members ++ current.toList)
      | (t, value) :: rest =>
          if ¬ (members.length : ℤ) < count then .ok (pairs, members ++ current.toList)
          else
            match atoi? t with
            | none => .ok (pairs, members ++ current.toList)
            | some tag =>
                if tag = grp.firstTag then
                  groupLoop s fuel grp count rest (members ++ current.toList)
                    (some (FixFragment.set [] tag value))
                else
                  match current with
                  | none => .ok (pairs, members)
                  | some cur =>
                      if tag ∉ grp.tags then .ok (pairs, members ++ [cur])
                      else
                        match Assoc.find? tag grp.nestedGroups with
                        | none =>
                            groupLoop s fuel grp count rest members (some (cur.set tag value))
                        | some ref =>
                            match atoi? value with
                            | none => .error (.subGroupCount tag)
                            | some subCount =>
                                match
                                  if subCount = 0 then .ok (rest, [])
                                  else groupLoop s fuel (s.groupSpec ref) subCount rest [] none
                                with
                                | .error e => .error e
                                | .ok (rest', sub) =>
                                    groupLoop s fuel grp count rest' members
                                      (some (cur.setGroup tag tag (s.groupSpec ref).firstTag sub))

/-- `parseGroup`: the pairs left over and the members.  Each pass of the loop consumes a pair, so
the fuel is enough. -/
def parseGroup (s : FixSpec) (grp : GroupSpec) (count : ℤ) (pairs : List Pair) :
    Except ParseError (List Pair × List FixFragment) :=
  if count = 0 then .ok (pairs, [])
  else groupLoop s (pairs.length + 1) grp count pairs [] none

/-- The dispatch loop of `Parse` for a message type of the dictionary. -/
def dispatchLoop (s : FixSpec) (msgSpec : MessageSpec) :
    ℕ → FixFragment → List Pair → Except ParseError FixFragment
  | _, msg, [] => .ok msg
  | 0, _, _ :: _ => .error .outOfFuel
  | fuel + 1, msg, (t, value) :: rest =>
      match atoi? t with
      | none => dispatchLoop s msgSpec fuel msg rest
      | some tag =>
          match Assoc.find? tag msgSpec.groups with
          | none => dispatchLoop s msgSpec fuel (msg.set tag value) rest
          | some ref =>
              match atoi? value with
              | none => .error (.groupCount tag)
              | some count =>
                  match parseGroup s (s.groupSpec ref) count rest with
                  | .error e => .error e
                  | .ok (rest', members) =>
                      dispatchLoop s msgSpec fuel
                        (msg.setGroup tag tag (s.groupSpec ref).firstTag members) rest'

/-- The message type among the first six pairs, looked up in the dictionary. -/
def findMsgSpec (s : FixSpec) (pairs : List Pair) : Option MessageSpec :=
  match (pairs.take 6).find? fun p => p.1 == ascii "35" with
  | none => none
  | some p => s.messagesByType p.2

/-- What `Parse` makes of the pairs of a buffer. -/
def Codec.parsePairs (c : Codec) (pairs : List Pair) : Except ParseError FixFragment :=
  if c.noGroups then .ok (setPairs [] pairs)
  else
    match c.spec with
    | none => .ok (setPairs [] pairs)
    | some s =>
        match findMsgSpec s pairs with
        | none => .ok (setPairs [] pairs)
        | some msgSpec => dispatchLoop s msgSpec pairs.length [] pairs

/-- **`Parse`**: the fields of the message a buffer holds. -/
def Codec.parse (c : Codec) (buf : Bytes) : Except ParseError FixFragment :=
  match tokenise c.sep buf with
  | .error e => .error e
  | .ok pairs => c.parsePairs pairs

/-! ## Serialising -/

/-- `tagKey`, the codec's own copy of the rank of a tag. -/
def tagKey (t : ℤ) : ℤ :=
  if t = 93 then 2 ^ 30 - 3
  else if t = 89 then 2 ^ 30 - 2
  else if t = 10 then 2 ^ 30 - 1
  else
    match headerSortMap t with
    | some k => k
    | none => int64 (headerTags.length + t)

/-- `sortedTagsOf`. -/
def sortedTagsOf (σ : SortSlice) (p : Path) (f : FixFragment) : List ℤ := σ.run p tagKey f.tags

/-- `writeVal`. -/
def writeVal (sep : UInt8) (σ : SortSlice) (p : Path) (tag : ℤ) (v : Value) : Written UInt8 :=
  writeTree (fieldText sep) σ tagKey p tag v

/-- **`Serialise`**: the wire of a message. -/
def Codec.serialise (c : Codec) (σ : SortSlice) (f : FixFragment) : Except Fault Bytes :=
  (inOrder (sortedTagsOf σ [] f) (f.map fun e => (e.1, writeVal c.sep σ [] e.1 e.2))).toExcept

/-- The codec's rank of a tag is the message's. -/
theorem tagKey_eq_tagSortKey : tagKey = tagSortKey := by
  funext t
  unfold tagKey tagSortKey trailerSortMap
  split_ifs <;> rfl

/-- A message is written as any fragment is. -/
theorem Codec.serialise_eq (c : Codec) (σ : SortSlice) (f : FixFragment) :
    c.serialise σ f = (writeFragment (fieldText c.sep) σ tagSortKey [] f).toExcept := by
  rw [Codec.serialise, writeFragment, writeFields_eq, ← tagKey_eq_tagSortKey]
  rfl

end FixMsg
