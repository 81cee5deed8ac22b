import GoFixMsg.Codec.RoundTrip
import GoFixMsg.Handler.Fidelity
import GoFixMsg.Handler.Processor
import GoFixMsg.Session.Delivery

/-!
# Handler/Inbound — does a handler see every field of a frame?

The read loop parses each frame with a codec of its own, which has no dictionary: what `SetSpec`
gives the processor is for validation alone.  So of a tag that comes twice only the last value
reaches `OnMessage` or the processor, and a frame is handed on with all its fields exactly if no tag
comes twice in it (`handed_keepsPairs_iff`).

A frame of the other side is any that its serialiser makes, from groups at any depth.  How the
stream is cut plays no part in it, and neither does the type of the message: what is lost is lost in
the parser, before anybody asks what the message is.
-/

open GoLang

namespace FixMsg

/-- The message that is handed on. -/
def Event.message : Event → Option FixFragment
  | .onMessage msg | .process msg => some msg
  | .parseFailed _ => none

/-- The receivers of a session with a processor, and with `OnMessage` or without. -/
def sessionReceivers (onMessage : Bool) (p : Option Processor) : Receivers := ⟨onMessage, p.isSome⟩

/-- The messages a session hands on. -/
def handed (w : Receivers) (reads : List ReadResult) : List FixFragment :=
  (readLoop w [] reads).1.filterMap Event.message

/-- The `tag=value` pairs of a wire. -/
def pairsOf (wire : Bytes) : List Pair :=
  match tokenise soh wire with
  | .ok pairs => pairs
  | .error _ => []

/-- **A frame that `ToWire` produces** from a message of groups and SOH-free strings. -/
structure IsWire (out : Bytes) : Prop where
  wire : ∃ (m : CodedMessage) (σ τ : SortSlice), m.fields.Plain ∧ m.fields.AllStrings SohFree
    ∧ (m.toWire σ τ).2 = .ok out
  frame : IsFrame out
  length : out.length < 2 ^ 63

/-- **A message has the fields of a frame**: it serialises to the same pairs, in some order. -/
def KeepsPairs (out : Bytes) (msg : FixFragment) : Prop :=
  ∀ (c : Codec) (σ : SortSlice), c.sep = soh →
    ∃ b, c.serialise σ msg = .ok b ∧ (pairsOf out).Perm (pairsOf b)

theorem pairsOf_wireText {l : List Field} (h : ∀ e ∈ l, SohFree e.2) :
    pairsOf (wireText soh l) = l.map tagText := by
  rw [pairsOf, tokenise_wireText h]

/-- A frame is the text of its fields.  It has an SOH, so SOH is what separates them. -/
theorem IsWire.fields {out : Bytes} (h : IsWire out) :
    ∃ l : List Field, out = wireText soh l ∧ (∀ e ∈ l, SohFree e.2) ∧ ∀ e ∈ l, IsInt64 e.1 := by
  obtain ⟨m, σ, τ, hplain, hvalues, hout⟩ := h.wire
  obtain ⟨body, hwire, -, hsoh, hint⟩ := toWire_fields σ τ m.codec hplain hvalues
  obtain rfl := Except.ok.inj (hwire.symm.trans hout)
  have hsep : wireSep m.codec = soh := by
    by_contra hne
    obtain ⟨v, s, rest, trailer, heq, -⟩ := h.frame
    refine sohFree_wireText hne hsoh ?_
    rw [heq, headText]
    simp
  rw [hsep]
  exact ⟨_, rfl, hsoh, hint⟩

/-- **The message read from a frame has its fields exactly if no tag comes twice.**  What is written
of a flat message is its tags, each with its value. -/
theorem keepsPairs_iff {l : List Field} (hs : ∀ e ∈ l, SohFree e.2) (ht : ∀ e ∈ l, IsInt64 e.1) :
    KeepsPairs (wireText soh l) (setFields [] l)
      ↔ ((pairsOf (wireText soh l)).map Prod.fst).Nodup := by
  have hparsed : (setFields [] l).Parsed := parsed_defaultParse (defaultParse_wireText hs ht)
  have hperm : l.Perm ((setFields [] l).tags.map fun t => (t, (setFields [] l).getD t))
      ↔ (l.map Prod.fst).Nodup := by
    simpa using filter_perm_setFields_iff l fun _ => true
  rw [pairsOf_wireText hs, nodup_tagText_iff ht, ← hperm]
  have hwritten : ∀ σ : SortSlice, (writtenFields σ (setFields [] l)).Perm
      ((setFields [] l).tags.map fun t => (t, (setFields [] l).getD t)) := by
    intro σ
    rw [writtenFields_flat hparsed.flat]
    exact (σ.perm _ _ _).map _
  have hserialise : ∀ (c : Codec) (σ : SortSlice), c.sep = soh →
      c.serialise σ (setFields [] l) = .ok (wireText soh (writtenFields σ (setFields [] l))) := by
    intro c σ hsep
    rw [Codec.serialise_eq, hsep, writeFragment_written hparsed.flat.plain]
    rfl
  have hpairs : ∀ σ : SortSlice, pairsOf (wireText soh (writtenFields σ (setFields [] l)))
      = (writtenFields σ (setFields [] l)).map tagText := fun σ =>
    pairsOf_wireText (sohFree_writtenFields hparsed.flat.plain hparsed.values σ)
  constructor
  · intro h
    obtain ⟨b, hb, hsame⟩ := h (Codec.new none) .stable rfl
    rw [hserialise _ _ rfl] at hb
    obtain rfl := Except.ok.inj hb
    rw [pairsOf_wireText hs, hpairs, tagText_perm_iff ht
      (isInt64_writtenFields hparsed.flat.plain hparsed.wf _)] at hsame
    exact hsame.trans (hwritten _)
  · intro h c σ hsep
    refine ⟨_, hserialise c σ hsep, ?_⟩
    rw [pairsOf_wireText hs, hpairs]
    exact (h.trans (hwritten σ).symm).map tagText

/-- **The read loop hands a sequence of frames on**, each as the codec without a dictionary reads
it. -/
theorem handed_wires {outs : List Bytes} (h : ∀ out ∈ outs, IsWire out) {w : Receivers}
    (hw : w.onMessage = true ∨ w.processor = true) {reads : List ReadResult} (hup : StaysUp reads)
    (hreads : stream reads = outs.flatten) :
    List.Forall₂ (fun out msg => (Codec.new none).parse out = .ok msg) outs (handed w reads) := by
  have hself : ∀ f ∈ outs, Framing.SelfFraming scanFrame f := fun f hf =>
    selfFraming_of_isFrame (h f hf).frame (h f hf).length
  have hfeed : Framing.feed scanFrame [] (chunks reads) = (outs, .ok []) := by
    refine Framing.feed_flatten hself rfl ?_ ?_
    · intro f hf
      exact (hself f (List.mem_of_mem_head? hf)).pos
    · rw [List.nil_append, flatten_chunks, hreads]
  rw [handed, readLoop_events w hup hfeed]
  clear hfeed hself hreads hup
  induction outs with
  | nil => exact .nil
  | cons out outs ih =>
    obtain ⟨l, rfl, hs, ht⟩ := (h _ List.mem_cons_self).fields
    have hparse := parse_wireText hs ht
    have hdispatch : (dispatch w (wireText soh l)).filterMap Event.message = [setFields [] l] := by
      rw [dispatch, hparse]
      dsimp only
      split
      · rfl
      · rw [if_pos (hw.resolve_left ‹_›)]
        rfl
    rw [List.flatMap_cons, List.filterMap_append, hdispatch]
    exact .cons hparse (ih fun f hf => h f (List.mem_cons_of_mem _ hf))

/-- **Every frame is handed on with all its fields exactly if no tag comes twice in one**, whatever
dictionary the processor has. -/
theorem handed_keepsPairs_iff {outs : List Bytes} (h : ∀ out ∈ outs, IsWire out) (p : Processor)
    (s : FixSpec) (onMessage : Bool) {reads : List ReadResult} (hup : StaysUp reads)
    (hreads : stream reads = outs.flatten) :
    List.Forall₂ KeepsPairs outs
        (handed (sessionReceivers onMessage (some (p.setSpec (some s)))) reads)
      ↔ ∀ out ∈ outs, ((pairsOf out).map Prod.fst).Nodup := by
  have hhanded := handed_wires h (w := sessionReceivers onMessage (some (p.setSpec (some s))))
    (Or.inr rfl) hup hreads
  generalize handed (sessionReceivers onMessage (some (p.setSpec (some s)))) reads = msgs at hhanded ⊢
  clear hreads
  induction hhanded with
  | nil => exact iff_of_true .nil fun out hout => absurd hout List.not_mem_nil
  | cons hparse _ ih =>
    obtain ⟨l, rfl, hs, ht⟩ := (h _ List.mem_cons_self).fields
    rw [parse_wireText hs ht] at hparse
    obtain rfl := Except.ok.inj hparse
    rw [List.forall₂_cons, List.forall_mem_cons, keepsPairs_iff hs ht]
    exact and_congr Iff.rfl (ih fun out hout => h out (List.mem_cons_of_mem _ hout))

/-- The wire of a message in range, with a BeginString, is such a frame. -/
theorem isWire_of_inRange {m : CodedMessage} (hplain : m.fields.Plain)
    (hvalues : m.fields.AllStrings SohFree) (htags : m.fields.AllTags InTagRange)
    (hsep : wireSep m.codec = soh) {v : Bytes} (hv : m.fields.get tagBeginString = some v)
    {σ τ : SortSlice} {out : Bytes} (hout : (m.toWire σ τ).2 = .ok out)
    (hlen : out.length < 2 ^ 63) : IsWire out := by
  have hsoh : SohFree v := hvalues _ (self_mem_fragments _) _
    (Assoc.mem_of_find? (FixFragment.get_eq_some_iff.mp hv)) v rfl
  exact ⟨⟨m, σ, τ, hplain, hvalues, hout⟩, isFrame_toWire hsep hv hsoh htags hout hlen, hlen⟩

theorem isWire_orderOfOne : IsWire (wireOf orderOfOne) :=
  isWire_of_inRange (m := orderOfOne) (by decide) (by decide) (by decide) rfl rfl
    (σ := .stable) (τ := .stable) rfl (by decide +kernel)

theorem isWire_orderOfTwo : IsWire (wireOf orderOfTwo) :=
  isWire_of_inRange (m := orderOfTwo) (by decide) (by decide) (by decide) rfl rfl
    (σ := .stable) (τ := .stable) rfl (by decide +kernel)

/-- An order with one party arrives whole. -/
theorem handed_keepsPairs_one : List.Forall₂ KeepsPairs [wireOf orderOfOne]
    (handed (sessionReceivers true (some (Processor.new.setSpec (some partySpec))))
      [⟨wireOf orderOfOne, none⟩]) := by
  refine (handed_keepsPairs_iff (List.forall_mem_singleton.mpr isWire_orderOfOne) _ _ _
    (by decide) rfl).mpr (List.forall_mem_singleton.mpr ?_)
  decide +kernel

/-- **Of an order with two parties one arrives.** -/
theorem handed_loses_party : IsWire (wireOf orderOfTwo)
    ∧ ¬ List.Forall₂ KeepsPairs [wireOf orderOfTwo]
      (handed (sessionReceivers true (some (Processor.new.setSpec (some partySpec))))
        [⟨wireOf orderOfTwo, none⟩]) := by
  refine ⟨isWire_orderOfTwo, fun h => ?_⟩
  have hhanded := handed_wires (List.forall_mem_singleton.mpr isWire_orderOfTwo)
    (w := sessionReceivers true (some (Processor.new.setSpec (some partySpec))))
    (Or.inr rfl) (show StaysUp [⟨wireOf orderOfTwo, none⟩] by decide) rfl
  generalize handed _ _ = msgs at h hhanded
  obtain ⟨l, hl, hs, ht⟩ := isWire_orderOfTwo.fields
  cases hhanded with
  | cons hparse _ =>
    cases h with
    | cons hkeeps _ =>
      rw [hl, parse_wireText hs ht] at hparse
      obtain rfl := Except.ok.inj hparse
      rw [hl, keepsPairs_iff hs ht, ← hl] at hkeeps
      exact absurd hkeeps (by decide +kernel)

end FixMsg
