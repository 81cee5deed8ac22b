import Mathlib.Data.List.Perm.Basic
import Mathlib.Order.Lattice

/-!
# Machinery/SortedAssoc — finite maps as association lists in key order

A finite map is the list of its entries in ascending key order, so that two maps with the same
entries are the *same* list (`Sorted.ext`).  `find?` and `insert` are total on every list; only
extensionality asks for `Sorted`.

A key is bound at the place the order gives it, so the order in which bindings were made is
forgotten.  `bindAll` binds the entries of one map over those of another, as a loader does that
fills a message which is not empty.
-/

namespace Assoc

variable {κ β γ : Type*} [LinearOrder κ]

/-- The keys of a map. -/
abbrev keys (l : List (κ × β)) : List κ := l.map Prod.fst

/-- Each key once, in ascending order. -/
def Sorted (l : List (κ × β)) : Prop := (keys l).Pairwise (· < ·)

instance (l : List (κ × β)) : Decidable (Sorted l) :=
  inferInstanceAs (Decidable (List.Pairwise _ _))

/-- The value a key is bound to. -/
def find? (k : κ) : List (κ × β) → Option β
  | [] => none
  | e :: l => if k = e.1 then some e.2 else find? k l

/-- Bind `k` to `v`, in place of what it was bound to. -/
def insert (k : κ) (v : β) : List (κ × β) → List (κ × β)
  | [] => [(k, v)]
  | e :: l =>
      if k < e.1 then (k, v) :: e :: l
      else if k = e.1 then (k, v) :: l
      else e :: insert k v l

@[simp] theorem find?_nil (k : κ) : find? k ([] : List (κ × β)) = none := rfl

theorem find?_cons (k : κ) (e : κ × β) (l : List (κ × β)) :
    find? k (e :: l) = if k = e.1 then some e.2 else find? k l := rfl

@[simp] theorem find?_insert_self (k : κ) (v : β) (l : List (κ × β)) :
    find? k (insert k v l) = some v := by
  induction l with
  | nil => simp [insert, find?]
  | cons e l ih =>
    unfold insert
    split
    · simp [find?]
    · split
      · simp [find?]
      · next h => rw [find?_cons, if_neg h, ih]

theorem find?_insert_of_ne {k j : κ} (h : j ≠ k) (v : β) (l : List (κ × β)) :
    find? j (insert k v l) = find? j l := by
  induction l with
  | nil => simp [insert, find?, h]
  | cons e l ih =>
    unfold insert
    split
    · rw [find?_cons, if_neg h]
    · split
      · next he => simp only [find?_cons, ← he, if_neg h]
      · rw [find?_cons, ih, find?_cons]

theorem find?_insert (k j : κ) (v : β) (l : List (κ × β)) :
    find? j (insert k v l) = if j = k then some v else find? j l := by
  split
  · next h => rw [h, find?_insert_self]
  · next h => exact find?_insert_of_ne h v l

theorem find?_isSome_iff {k : κ} {l : List (κ × β)} : (find? k l).isSome ↔ k ∈ keys l := by
  induction l with
  | nil => simp
  | cons e l ih =>
    rw [find?_cons]
    split
    · next h => simp [h]
    · next h => simpa [h] using ih

theorem find?_eq_none_iff {k : κ} {l : List (κ × β)} : find? k l = none ↔ k ∉ keys l := by
  rw [← find?_isSome_iff, Option.not_isSome_iff_eq_none]

theorem mem_of_find? {k : κ} {v : β} {l : List (κ × β)} (h : find? k l = some v) : (k, v) ∈ l := by
  induction l with
  | nil => cases h
  | cons e l ih =>
    rw [find?_cons] at h
    split at h
    · next he =>
      rw [← Option.some.inj h, he]
      exact List.mem_cons_self
    · exact List.mem_cons_of_mem _ (ih h)

/-- Looking up in a map whose values were replaced. -/
theorem find?_map (F : κ → β → γ) (k : κ) (l : List (κ × β)) :
    find? k (l.map fun e => (e.1, F e.1 e.2)) = (find? k l).map (F k) := by
  induction l with
  | nil => rfl
  | cons e l ih =>
    rw [List.map_cons, find?_cons, find?_cons]
    split
    · next h => rw [h]; rfl
    · exact ih

theorem mem_keys_insert {k j : κ} {v : β} {l : List (κ × β)} :
    j ∈ keys (insert k v l) ↔ j = k ∨ j ∈ keys l := by
  rw [← find?_isSome_iff, ← find?_isSome_iff, find?_insert]
  split <;> simp [*]

theorem mem_insert {k : κ} {v : β} {e : κ × β} {l : List (κ × β)} (h : e ∈ insert k v l) :
    e = (k, v) ∨ e ∈ l := by
  induction l with
  | nil => exact Or.inl (by simpa [insert] using h)
  | cons d l ih =>
    unfold insert at h
    split at h
    · simpa using h
    · split at h
      · rcases List.mem_cons.mp h with h | h
        · exact Or.inl h
        · exact Or.inr (List.mem_cons_of_mem _ h)
      · rcases List.mem_cons.mp h with h | h
        · exact Or.inr (h ▸ List.mem_cons_self)
        · exact (ih h).imp id (List.mem_cons_of_mem _)

/-! ## Maps in key order -/

theorem sorted_nil : Sorted ([] : List (κ × β)) := List.Pairwise.nil

theorem sorted_cons {e : κ × β} {l : List (κ × β)} :
    Sorted (e :: l) ↔ (∀ k ∈ keys l, e.1 < k) ∧ Sorted l := List.pairwise_cons

theorem Sorted.nodup {l : List (κ × β)} (h : Sorted l) : (keys l).Nodup :=
  h.imp fun hlt => hlt.ne

/-- **Binding a key keeps the map in order.** -/
theorem Sorted.insert {l : List (κ × β)} (h : Sorted l) (k : κ) (v : β) :
    Sorted (Assoc.insert k v l) := by
  induction l with
  | nil => exact List.pairwise_singleton _ _
  | cons e l ih =>
    obtain ⟨he, hl⟩ := sorted_cons.mp h
    unfold Assoc.insert
    split
    · next hlt =>
      refine sorted_cons.mpr ⟨fun j hj => ?_, h⟩
      rcases List.mem_cons.mp hj with rfl | hj
      · exact hlt
      · exact hlt.trans (he j hj)
    · split
      · next heq => exact sorted_cons.mpr ⟨fun j hj => heq ▸ he j hj, hl⟩
      · next hnlt hne =>
        refine sorted_cons.mpr ⟨fun j hj => ?_, ih hl⟩
        rcases mem_keys_insert.mp hj with rfl | hj
        · exact lt_of_le_of_ne (not_lt.mp hnlt) (Ne.symm hne)
        · exact he j hj

/-- In an ordered map an entry is what its key is bound to. -/
theorem Sorted.find?_eq_some_iff {l : List (κ × β)} (h : Sorted l) {k : κ} {v : β} :
    find? k l = some v ↔ (k, v) ∈ l := by
  refine ⟨mem_of_find?, fun hm => ?_⟩
  induction l with
  | nil => cases hm
  | cons e l ih =>
    obtain ⟨he, hl⟩ := sorted_cons.mp h
    rcases List.mem_cons.mp hm with rfl | hm
    · simp [find?_cons]
    · have hk : k ∈ keys l := List.mem_map.mpr ⟨(k, v), hm, rfl⟩
      rw [find?_cons, if_neg (he k hk).ne', ih hl hm]

/-- **Two ordered maps that bind every key alike are the same list.** -/
theorem Sorted.ext {l m : List (κ × β)} (hl : Sorted l) (hm : Sorted m)
    (h : ∀ k, find? k l = find? k m) : l = m := by
  induction l generalizing m with
  | nil =>
    cases m with
    | nil => rfl
    | cons e m =>
      have h1 := h e.1
      rw [find?_cons, if_pos rfl] at h1
      cases h1
  | cons d l ih =>
    cases m with
    | nil =>
      have h1 := h d.1
      rw [find?_cons, if_pos rfl] at h1
      cases h1
    | cons e m =>
      obtain ⟨hd, hl'⟩ := sorted_cons.mp hl
      obtain ⟨he, hm'⟩ := sorted_cons.mp hm
      have hkey : d.1 = e.1 := by
        rcases lt_trichotomy d.1 e.1 with hlt | heq | hgt
        · have hmem : d.1 ∈ keys (e :: m) := by
            rw [← find?_isSome_iff, ← h d.1, find?_cons, if_pos rfl]
            rfl
          rcases List.mem_cons.mp hmem with heq | hmem
          · exact heq
          · exact absurd (he _ hmem) hlt.not_gt
        · exact heq
        · have hmem : e.1 ∈ keys (d :: l) := by
            rw [← find?_isSome_iff, h e.1, find?_cons, if_pos rfl]
            rfl
          rcases List.mem_cons.mp hmem with heq | hmem
          · exact heq.symm
          · exact absurd (hd _ hmem) hgt.not_gt
      have hval : d.2 = e.2 := by
        have h1 := h d.1
        rw [find?_cons, if_pos rfl, find?_cons, if_pos hkey] at h1
        exact Option.some.inj h1
      obtain rfl : d = e := Prod.ext hkey hval
      refine congrArg (d :: ·) (ih hl' hm' fun k => ?_)
      have h1 := h k
      by_cases hk : k = d.1
      · subst hk
        rw [find?_eq_none_iff.mpr fun hmem => (hd _ hmem).false,
          find?_eq_none_iff.mpr fun hmem => (he _ hmem).false]
      · simpa only [find?_cons, if_neg hk] using h1

/-! ## Binding the entries of one map in another

The bound map wins, key by key, and what it does not bind stays.  Nothing stays, and the result is
the bound map itself, exactly if it has all the keys. -/

/-- The entries of a map are bound in another one, over what it holds. -/
def bindAll (m l : List (κ × β)) : List (κ × β) := l.foldl (fun m e => insert e.1 e.2 m) m

theorem bindAll_cons (m : List (κ × β)) (e : κ × β) (l : List (κ × β)) :
    bindAll m (e :: l) = bindAll (insert e.1 e.2 m) l := rfl

theorem Sorted.bindAll {m : List (κ × β)} (h : Sorted m) (l : List (κ × β)) :
    Sorted (Assoc.bindAll m l) := by
  induction l generalizing m with
  | nil => exact h
  | cons e l ih => exact ih (h.insert e.1 e.2)

/-- **A key is bound as in the map whose entries were bound**, or else as before. -/
theorem find?_bindAll {l : List (κ × β)} (h : (keys l).Nodup) (m : List (κ × β)) (k : κ) :
    find? k (bindAll m l) = (find? k l).or (find? k m) := by
  induction l generalizing m with
  | nil => rfl
  | cons e l ih =>
    obtain ⟨hnot, hl⟩ := List.nodup_cons.mp h
    rw [bindAll_cons, ih hl, find?_insert, find?_cons]
    split
    · next heq =>
      rw [heq, find?_eq_none_iff.mpr hnot]
      rfl
    · rfl

/-- **Binding the entries gives the map itself exactly if it has a binding for every key.** -/
theorem bindAll_eq_iff {m l : List (κ × β)} (hm : Sorted m) (hl : Sorted l) :
    bindAll m l = l ↔ ∀ k ∈ keys m, k ∈ keys l := by
  constructor
  · intro h k hk
    rw [← h, ← find?_isSome_iff, find?_bindAll hl.nodup, Option.isSome_or, find?_isSome_iff.mpr hk,
      Bool.or_true]
  · intro h
    refine (hm.bindAll l).ext hl fun k => ?_
    rw [find?_bindAll hl.nodup]
    cases hk : find? k l with
    | some v => rfl
    | none =>
      have hnot : k ∉ keys m := fun hmem => find?_eq_none_iff.mp hk (h k hmem)
      rw [find?_eq_none_iff.mpr hnot]
      rfl

end Assoc
