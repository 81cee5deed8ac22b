import GoFixMsg.Codec.Codec
import Mathlib.Logic.Function.Basic

/-!
# Spec/Loader — building a dictionary from a QuickFIX document

`buildSpec` turns the parsed document into a `FixSpec`.  Messages, components and groups name their
fields, and refer to components by name; `collectFields` and `populateGroupSpec` put what a
component has in place of the reference.  They follow references through the table of components as
they come, so a call may be any number of calls deep, or never end: every function here takes the
depth it may go to, and has no result where that is not enough.
-/

open GoLang

namespace FixMsg

/-! ## The document

The children of an element are kept in one list, in the order of the document.  The unmarshalled
records have a list for each kind, and these are read off it. -/

/-- A child of a message, of a component or of a group, with its attributes. -/
inductive XmlChild where
  | field (name required : Bytes)
  | group (name required : Bytes) (children : List XmlChild)
  | component (name required : Bytes)

/-- `xmlFieldRef`. -/
structure XmlFieldRef where
  name : Bytes
  required : Bytes

/-- `xmlGroup`. -/
structure XmlGroup where
  name : Bytes
  required : Bytes
  children : List XmlChild

/-- `xmlCompRef`.  The attribute `required` of a reference is not read. -/
structure XmlCompRef where
  name : Bytes

/-- The children that are fields, in the order of the document. -/
def fieldRefs (children : List XmlChild) : List XmlFieldRef :=
  children.filterMap fun
    | .field name required => some ⟨name, required⟩
    | _ => none

/-- The children that are groups. -/
def groupRefs (children : List XmlChild) : List XmlGroup :=
  children.filterMap fun
    | .group name required children => some ⟨name, required, children⟩
    | _ => none

/-- The children that are references to components. -/
def compRefs (children : List XmlChild) : List XmlCompRef :=
  children.filterMap fun
    | .component name _ => some ⟨name⟩
    | _ => none

/-- `xmlMessage`. -/
structure XmlMessage where
  name : Bytes
  msgType : Bytes
  children : List XmlChild

/-- `xmlComponent`. -/
structure XmlComponent where
  name : Bytes
  children : List XmlChild

/-- `xmlField`; of `Values`, the enum values. -/
structure XmlField where
  number : ℤ
  name : Bytes
  type : Bytes
  values : List Bytes

/-- `xmlFix`. -/
structure XmlFix where
  major : Bytes
  minor : Bytes
  type : Bytes
  messages : List XmlMessage
  components : List XmlComponent
  fields : List XmlField

/-- A table that holds each of the entries under its key, the last of them where keys repeat. -/
def tableOf {α κ β : Type} [DecidableEq κ] (key : α → κ) (val : α → β) (l : List α) :
    κ → Option β :=
  l.foldl (fun t a => Function.update t (key a) (some (val a))) fun _ => none

/-- The tables that `buildSpec` hands down: components by name, and tags by name. -/
structure SpecTables where
  compMap : Bytes → Option XmlComponent
  nameToNum : Bytes → Option ℤ

/-- The tables of a document. -/
def XmlFix.tables (raw : XmlFix) : SpecTables where
  compMap := tableOf XmlComponent.name id raw.components
  nameToNum := tableOf XmlField.name XmlField.number raw.fields

/-! ## Groups

A group is built with all that lies below it, as a tree.  Fields and groups whose names are not
defined are left out without an error. -/

/-- A `*GroupSpec`, with all that it points to. -/
structure GroupTree where
  numberTag : ℤ
  firstTag : ℤ
  requiredTags : List ℤ
  tags : List ℤ
  nestedGroups : List (ℤ × GroupTree)

/-- What `buildGroupSpec` begins with. -/
def GroupTree.empty (numberTag : ℤ) : GroupTree := ⟨numberTag, 0, [], [], []⟩

/-- The set with a tag, if that is marked as required. -/
def requireTag (required : Bytes) (num : ℤ) (tags : List ℤ) : List ℤ :=
  if required = ascii "Y" then tags.insert num else tags

section Load

variable (D : SpecTables)

/-- The body of the loop of `populateGroupSpec` over the fields; the flag is `firstSet`. -/
def populateField (acc : GroupTree × Bool) (f : XmlFieldRef) : GroupTree × Bool :=
  match D.nameToNum f.name with
  | none => acc
  | some num =>
      ({ acc.1 with
        tags := acc.1.tags.insert num
        requiredTags := requireTag f.required num acc.1.requiredTags
        firstTag := if acc.2 then acc.1.firstTag else num }, true)

/-- The body of the loop of `populateGroupSpec` over the groups. -/
def populateGroup (build : ℤ → XmlGroup → Option GroupTree) (acc : GroupTree × Bool)
    (g : XmlGroup) : Option (GroupTree × Bool) :=
  match D.nameToNum g.name with
  | none => some acc
  | some num =>
      (build num g).map fun sub =>
        ({ acc.1 with
          tags := acc.1.tags.insert num
          requiredTags := requireTag g.required num acc.1.requiredTags
          nestedGroups := Assoc.insert num sub acc.1.nestedGroups
          firstTag := if acc.2 then acc.1.firstTag else num }, true)

mutual

/-- `populateGroupSpec`. -/
def populateGroupSpec : ℕ → GroupTree → List XmlFieldRef → List XmlGroup → List XmlCompRef →
    Option GroupTree
  | 0, _, _, _, _ => none
  | n + 1, gs, fields, groups, comps => do
      let (gs, firstSet) := fields.foldl (populateField D) (gs, false)
      let (gs, _) ← groups.foldlM (populateGroup D (buildGroupSpec n)) (gs, firstSet)
      comps.foldlM
        (fun gs ref =>
          match D.compMap ref.name with
          | none => some gs
          | some c =>
              populateGroupSpec n gs (fieldRefs c.children) (groupRefs c.children)
                (compRefs c.children))
        gs

/-- `buildGroupSpec`. -/
def buildGroupSpec : ℕ → ℤ → XmlGroup → Option GroupTree
  | 0, _, _ => none
  | n + 1, numberTag, g =>
      populateGroupSpec n (.empty numberTag) (fieldRefs g.children) (groupRefs g.children)
        (compRefs g.children)

end

/-! ## Messages -/

/-- The maps that `collectFields` writes to. -/
structure Dest where
  tags : List ℤ
  req : List ℤ
  groups : List (ℤ × GroupTree)

/-- The body of the loop of `collectFields` over the fields. -/
def collectField (dest : Dest) (f : XmlFieldRef) : Dest :=
  match D.nameToNum f.name with
  | none => dest
  | some num =>
      { dest with tags := dest.tags.insert num, req := requireTag f.required num dest.req }

/-- The body of the loop of `collectFields` over the groups. -/
def collectGroup (build : ℤ → XmlGroup → Option GroupTree) (dest : Dest) (g : XmlGroup) :
    Option Dest :=
  match D.nameToNum g.name with
  | none => some dest
  | some num =>
      (build num g).map fun sub =>
        { tags := dest.tags.insert num
          req := requireTag g.required num dest.req
          groups := Assoc.insert num sub dest.groups }

/-- `collectFields`. -/
def collectFields : ℕ → Dest → List XmlFieldRef → List XmlGroup → List XmlCompRef → Option Dest
  | 0, _, _, _, _ => none
  | n + 1, dest, fields, groups, comps => do
      let dest := fields.foldl (collectField D) dest
      let dest ← groups.foldlM (collectGroup D (buildGroupSpec D n)) dest
      comps.foldlM
        (fun dest ref =>
          match D.compMap ref.name with
          | none => some dest
          | some c =>
              collectFields n dest (fieldRefs c.children) (groupRefs c.children)
                (compRefs c.children))
        dest

end Load

/-! ## The dictionary -/

mutual

/-- Put a group, and before it all that it points to, into the table of groups. -/
def placeGroup (heap : List GroupSpec) : GroupTree → List GroupSpec × GroupRef
  | ⟨numberTag, firstTag, requiredTags, tags, nestedGroups⟩ =>
      let (heap, refs) := placeGroups heap nestedGroups
      (heap ++ [⟨numberTag, firstTag, requiredTags, tags, refs⟩], heap.length)

/-- Put the groups of a map into the table of groups. -/
def placeGroups (heap : List GroupSpec) :
    List (ℤ × GroupTree) → List GroupSpec × List (ℤ × GroupRef)
  | [] => (heap, [])
  | (num, gs) :: rest =>
      let (heap, ref) := placeGroup heap gs
      let (heap, refs) := placeGroups heap rest
      (heap, (num, ref) :: refs)

end

/-- A `FixSpec` while `buildSpec` goes through the messages. -/
structure Building where
  heap : List GroupSpec
  messagesByType : Bytes → Option MessageSpec
  messagesByName : Bytes → Option MessageSpec

/-- The body of the loop over the messages. -/
def addMessage (D : SpecTables) (n : ℕ) (s : Building) (m : XmlMessage) : Option Building :=
  (collectFields D n ⟨[], [], []⟩ (fieldRefs m.children) (groupRefs m.children)
    (compRefs m.children)).map fun dest =>
      let (heap, refs) := placeGroups s.heap dest.groups
      let ms : MessageSpec := ⟨m.name, m.msgType, dest.req, dest.tags, refs⟩
      { heap := heap
        messagesByType := Function.update s.messagesByType m.msgType (some ms)
        messagesByName := Function.update s.messagesByName m.name (some ms) }

/-- A loaded dictionary: a `FixSpec` with its version and its messages by name. -/
structure LoadedSpec extends FixSpec where
  version : Bytes
  messagesByName : Bytes → Option MessageSpec

/-- **`buildSpec`**, down to a depth of `n` calls.  It has no error to return. -/
def buildSpec (n : ℕ) (raw : XmlFix) : Option LoadedSpec :=
  (raw.messages.foldlM (addMessage raw.tables n) ⟨[], fun _ => none, fun _ => none⟩).map fun s =>
    { messagesByType := s.messagesByType
      groupSpec := fun ref => s.heap.getD ref ⟨0, 0, [], [], []⟩
      tags := tableOf XmlField.number
        (fun f => ⟨f.number, f.name, f.type, f.values⟩) raw.fields
      version := raw.type ++ ascii "." ++ raw.major ++ ascii "." ++ raw.minor
      messagesByName := s.messagesByName }

end FixMsg
