import Mathlib.Data.List.Sort
import GoFixMsg.Message.Fragment

/-!
# Message/Writer — ranging over a fragment and writing its fields out

`fixmsg.writeField` and `codec.writeVal` are one traversal of a fragment, run with two sort keys and
two separators.  The traversal is `writeTree`, with the text of a field as a parameter: with
`fieldText` it writes the wire, with `token` the sequence of `tag=value` fields behind the wire
(`writeTree_bind`).

Go does not fix the order in which it ranges over a map, nor what `sort.Slice` does with equal keys.
Both are choices of a run, one for each time a fragment is sorted, and a writer is handed them as a
`SortSlice`.  What is proved of every `SortSlice` is true of every run.
-/

open GoLang

namespace FixMsg

/-! ## Map order and `sort.Slice`

A choice returns the given tags in some order in which their keys ascend.  Where the keys differ
there is only one such order, so there is no choice. -/

/-- Where in a message the tags of a fragment are sorted: the count tags and member indices leading
to the fragment, innermost first. -/
abbrev Path := List (ℤ × ℕ)

/-- **One run's choices of map order and of `sort.Slice`.**  Go ranges over a map in any order and
`sort.Slice` is not stable, so at each place the tags come out as *some* permutation in which the
keys do not descend. -/
structure SortSlice where
  run : Path → (ℤ → ℤ) → List ℤ → List ℤ
  perm : ∀ p key l, (run p key l).Perm l
  sorted : ∀ p key l, (run p key l).Pairwise fun a b => key a ≤ key b

namespace SortSlice

/-- The choices of a stable sort. -/
def stable : SortSlice where
  run _ key l := l.insertionSort fun a b => key a ≤ key b
  perm _ key l := List.perm_insertionSort (fun a b => key a ≤ key b) l
  sorted _ key l := by
    have htotal : Std.Total fun a b : ℤ => key a ≤ key b := ⟨fun a b => le_total (key a) (key b)⟩
    have htrans : IsTrans ℤ fun a b => key a ≤ key b := ⟨fun _ _ _ h1 h2 => le_trans h1 h2⟩
    exact List.pairwise_insertionSort (fun a b => key a ≤ key b) l

theorem mem_run (σ : SortSlice) {p : Path} {key : ℤ → ℤ} {l : List ℤ} {t : ℤ} :
    t ∈ σ.run p key l ↔ t ∈ l := (σ.perm p key l).mem_iff

theorem nodup_run (σ : SortSlice) {p : Path} {key : ℤ → ℤ} {l : List ℤ} (h : l.Nodup) :
    (σ.run p key l).Nodup := (σ.perm p key l).nodup_iff.mpr h

/-- **Where the keys of the tags differ, there is only one sorted order.** -/
theorem run_eq_of_sorted (σ : SortSlice) {p : Path} {key : ℤ → ℤ} {l l' : List ℤ}
    (hinj : ∀ a ∈ l, ∀ b ∈ l, key a = key b → a = b) (hperm : l'.Perm l)
    (hsorted : l'.Pairwise fun a b => key a ≤ key b) : σ.run p key l = l' := by
  refine List.Perm.eq_of_pairwise ?_ (σ.sorted p key l) hsorted
    ((σ.perm p key l).trans hperm.symm)
  intro a b ha hb hab hba
  exact hinj a (σ.mem_run.mp ha) b (hperm.mem_iff.mp hb) (le_antisymm hab hba)

theorem run_eq_run (σ τ : SortSlice) {p q : Path} {key : ℤ → ℤ} {l : List ℤ}
    (hinj : ∀ a ∈ l, ∀ b ∈ l, key a = key b → a = b) : σ.run p key l = τ.run q key l :=
  σ.run_eq_of_sorted hinj (τ.perm q key l) (τ.sorted q key l)

end SortSlice

/-- **One run's choices of map order**: at each place of the message, the keys of a map come out as
*some* permutation. -/
structure RangeOrder where
  run : Path → List ℤ → List ℤ
  perm : ∀ p l, (run p l).Perm l

namespace RangeOrder

/-- The keys as they are written down. -/
def written : RangeOrder where
  run _ l := l
  perm _ l := List.Perm.refl l

theorem mem_run (σ : RangeOrder) {p : Path} {l : List ℤ} {t : ℤ} : t ∈ σ.run p l ↔ t ∈ l :=
  (σ.perm p l).mem_iff

end RangeOrder

/-! ## Writing with faults

A fault stops the writing, and what was written before stays in the buffer.  `Written` is the two
together; it is sequenced by `andThen`, and refined by `bind`, entry by entry. -/

/-- What stops a serialiser: a value of a type it does not know, under the tag, or the dereference
of a nil `*RepeatingGroup`, which panics. -/
inductive Fault where
  | unsupported (tag : ℤ)
  | nilPointer
  deriving DecidableEq

/-- What a writer has put into its buffer, and the fault that stopped it. -/
structure Written (γ : Type) where
  out : List γ
  fault : Option Fault

namespace Written

variable {γ δ : Type}

/-- A writer that ran through. -/
def ok (out : List γ) : Written γ := ⟨out, none⟩

/-- Go on writing unless a fault stopped the writing. -/
def andThen (a b : Written γ) : Written γ :=
  match a.fault with
  | none => ⟨a.out ++ b.out, b.fault⟩
  | some _ => a

/-- The buffer of a writer that ran through, or its fault. -/
def toExcept (w : Written γ) : Except Fault (List γ) :=
  match w.fault with
  | none => .ok w.out
  | some e => .error e

/-- Write each entry out as a list of its own. -/
def bind (w : Written γ) (g : γ → List δ) : Written δ := ⟨w.out.flatMap g, w.fault⟩

@[simp] theorem ok_andThen (out : List γ) (b : Written γ) :
    (ok out).andThen b = ⟨out ++ b.out, b.fault⟩ := rfl

theorem bind_andThen (a b : Written γ) (g : γ → List δ) :
    (a.andThen b).bind g = (a.bind g).andThen (b.bind g) := by
  unfold andThen bind
  dsimp only
  split <;> simp [*]

theorem toExcept_eq_ok_iff {w : Written γ} {out : List γ} :
    w.toExcept = .ok out ↔ w = ok out := by
  obtain ⟨o, f⟩ := w
  cases f <;> simp [toExcept, ok]

end Written

/-- Write the fields of a fragment, given what each of them writes, in the order of the tags. -/
def inOrder {γ : Type} : List ℤ → List (ℤ × Written γ) → Written γ
  | [], _ => .ok []
  | t :: ts, ws => ((Assoc.find? t ws).getD (.ok [])).andThen (inOrder ts ws)

mutual

/-- **Write one field**: a string is one field of the wire; a group is its count followed by its
members; a nil group gets its count written before its members are asked for. -/
def writeTree {γ : Type} (emit : ℤ → Bytes → List γ) (σ : SortSlice) (key : ℤ → ℤ) (p : Path)
    (tag : ℤ) : Value → Written γ
  | .str s => .ok (emit tag s)
  | .group _ _ ms =>
      (Written.ok (emit tag (itoa ms.length))).andThen (writeMembers emit σ key p tag 0 ms)
  | .nilGroup => ⟨emit tag (itoa 0), some .nilPointer⟩
  | .other => ⟨[], some (.unsupported tag)⟩

/-- Write the members of a group from the `i`-th on, each in the sorted order of its tags. -/
def writeMembers {γ : Type} (emit : ℤ → Bytes → List γ) (σ : SortSlice) (key : ℤ → ℤ) (p : Path)
    (tag : ℤ) (i : ℕ) : List FixFragment → Written γ
  | [] => .ok []
  | m :: ms =>
      (inOrder (σ.run ((tag, i) :: p) key (Assoc.keys m))
        (writeFields emit σ key ((tag, i) :: p) m)).andThen
        (writeMembers emit σ key p tag (i + 1) ms)

/-- What each field of a fragment writes. -/
def writeFields {γ : Type} (emit : ℤ → Bytes → List γ) (σ : SortSlice) (key : ℤ → ℤ) (p : Path) :
    FixFragment → List (ℤ × Written γ)
  | [] => []
  | (t, v) :: rest => (t, writeTree emit σ key p t v) :: writeFields emit σ key p rest

end

/-- Write a whole fragment in the sorted order of its tags. -/
def writeFragment {γ : Type} (emit : ℤ → Bytes → List γ) (σ : SortSlice) (key : ℤ → ℤ) (p : Path)
    (f : FixFragment) : Written γ :=
  inOrder (σ.run p key f.tags) (writeFields emit σ key p f)

section Laws

variable {γ δ : Type} (emit : ℤ → Bytes → List γ) (σ : SortSlice) (key : ℤ → ℤ) (p : Path)

theorem writeMembers_cons (tag : ℤ) (i : ℕ) (m : FixFragment) (ms : List FixFragment) :
    writeMembers emit σ key p tag i (m :: ms)
      = (writeFragment emit σ key ((tag, i) :: p) m).andThen
        (writeMembers emit σ key p tag (i + 1) ms) := rfl

theorem writeFields_eq (f : FixFragment) :
    writeFields emit σ key p f = f.map fun e => (e.1, writeTree emit σ key p e.1 e.2) := by
  induction f with
  | nil => rfl
  | cons e f ih => rw [writeFields, ih, List.map_cons]

/-- Looking a field's writing up is writing the field looked up. -/
theorem find?_writeFields (t : ℤ) (f : FixFragment) :
    Assoc.find? t (writeFields emit σ key p f)
      = (Assoc.find? t f).map (writeTree emit σ key p t) := by
  rw [writeFields_eq, Assoc.find?_map]

/-- **What the fields of the tags write depends only on what each of them writes.** -/
theorem inOrder_congr {ts : List ℤ} {ws ws' : List (ℤ × Written γ)}
    (h : ∀ t ∈ ts, Assoc.find? t ws = Assoc.find? t ws') : inOrder ts ws = inOrder ts ws' := by
  induction ts with
  | nil => rfl
  | cons t ts ih =>
    rw [inOrder, inOrder, h t List.mem_cons_self, ih fun u hu => h u (List.mem_cons_of_mem _ hu)]

theorem inOrder_bind (g : γ → List δ) (ts : List ℤ) (ws : List (ℤ × Written γ)) :
    (inOrder ts ws).bind g = inOrder ts (ws.map fun w => (w.1, w.2.bind g)) := by
  have hfind : ∀ (t : ℤ), Assoc.find? t (ws.map fun w => (w.1, w.2.bind g))
      = (Assoc.find? t ws).map fun w => w.bind g := fun t =>
    Assoc.find?_map (fun _ w => w.bind g) t ws
  induction ts with
  | nil => rfl
  | cons t ts ih =>
    rw [inOrder, inOrder, Written.bind_andThen, ih, hfind t]
    cases Assoc.find? t ws <;> rfl

mutual

/-- **Writing with a finer text per field is writing, then refining each entry.** -/
theorem writeTree_bind (g : γ → List δ) (p : Path) (tag : ℤ) : ∀ v : Value,
    writeTree (fun t s => (emit t s).flatMap g) σ key p tag v
      = (writeTree emit σ key p tag v).bind g
  | .str s => rfl
  | .group n k ms => by
      rw [writeTree, writeTree, Written.bind_andThen, writeMembers_bind g p tag 0 ms]
      rfl
  | .nilGroup => rfl
  | .other => rfl

theorem writeMembers_bind (g : γ → List δ) (p : Path) (tag : ℤ) (i : ℕ) : ∀ ms,
    writeMembers (fun t s => (emit t s).flatMap g) σ key p tag i ms
      = (writeMembers emit σ key p tag i ms).bind g
  | [] => rfl
  | m :: ms => by
      rw [writeMembers, writeMembers, Written.bind_andThen, inOrder_bind,
        writeFields_bind g _ m, writeMembers_bind g p tag (i + 1) ms]

theorem writeFields_bind (g : γ → List δ) (p : Path) : ∀ f : FixFragment,
    writeFields (fun t s => (emit t s).flatMap g) σ key p f
      = (writeFields emit σ key p f).map fun w => (w.1, w.2.bind g)
  | [] => rfl
  | (t, v) :: rest => by
      rw [writeFields, writeFields, writeTree_bind g p t v, writeFields_bind g p rest,
        List.map_cons]

end

theorem writeFragment_bind (g : γ → List δ) (f : FixFragment) :
    writeFragment (fun t s => (emit t s).flatMap g) σ key p f
      = (writeFragment emit σ key p f).bind g := by
  rw [writeFragment, writeFragment, inOrder_bind, writeFields_bind]

end Laws

/-! ## The fields behind the wire

The wire is a text, and its fields cannot always be told from it: a value may hold a separator.  So
statements about what is on the wire are made about the fields, and carried over to the text. -/

/-- A `tag=value` field of the wire. -/
abbrev Field := ℤ × Bytes

/-- A field, as an entry of its own. -/
def token (tag : ℤ) (s : Bytes) : List Field := [(tag, s)]

/-- The text of a field on the wire. -/
def fieldText (sep : UInt8) (tag : ℤ) (s : Bytes) : Bytes := itoa tag ++ 61 :: (s ++ [sep])

/-- The text of a sequence of fields. -/
def wireText (sep : UInt8) (l : List Field) : Bytes := l.flatMap fun e => fieldText sep e.1 e.2

/-- **The wire is the text of the fields behind it.** -/
theorem writeFragment_fieldText (sep : UInt8) (σ : SortSlice) (key : ℤ → ℤ) (p : Path)
    (f : FixFragment) :
    writeFragment (fieldText sep) σ key p f
      = (writeFragment token σ key p f).bind fun e => fieldText sep e.1 e.2 := by
  rw [← writeFragment_bind]
  refine congrArg (fun emit => writeFragment emit σ key p f) (funext fun t => funext fun s => ?_)
  simp [token]

theorem writeTree_fieldText (sep : UInt8) (σ : SortSlice) (key : ℤ → ℤ) (p : Path) (tag : ℤ)
    (v : Value) :
    writeTree (fieldText sep) σ key p tag v
      = (writeTree token σ key p tag v).bind fun e => fieldText sep e.1 e.2 := by
  rw [← writeTree_bind]
  refine congrArg (fun emit => writeTree emit σ key p tag v) (funext fun t => funext fun s => ?_)
  simp [token]

theorem wireText_cons (sep : UInt8) (e : Field) (l : List Field) :
    wireText sep (e :: l) = fieldText sep e.1 e.2 ++ wireText sep l := rfl

end FixMsg
