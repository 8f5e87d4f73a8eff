import TctiUefi.EventLog.Successor

namespace TctiUefi.EventLog

/-- The addresses whose contents a computation looks at. -/
def readSet (t : Trace (LogEffect A) α) : Set (SizeT A) :=
  {x | ∃ start len, .read start len ∈ t.log ∧ x ∈ block start len}

theorem logs_within_iff {t : Trace (LogEffect A) α} {lo hi : Nat} :
    t.Logs (LogEffect.Within lo hi) ↔ ∀ x ∈ readSet t, lo ≤ x.toNat ∧ x.toNat < hi := by
  constructor
  · rintro hlogs x ⟨start, len, he, k, hk, rfl⟩
    exact hlogs _ he k hk
  · intro hreads e he
    cases e with
    | read start len =>
      intro k hk
      exact hreads _ ⟨start, len, he, k, hk, rfl⟩
    | event hdr => trivial
    | digest digest => trivial
    | print p => trivial
    | dumpHex indent bytes => trivial
    | lib e => trivial
    | decode format => trivial

section Effects

variable {A : Arch}

@[simp] theorem readSet_pure (x : α) : readSet (pure x : Trace (LogEffect A) α) = ∅ := by
  ext
  simp [readSet]

@[simp] theorem readSet_bind (x : Trace (LogEffect A) α) (f : α → Trace (LogEffect A) β) :
    readSet (x >>= f) = readSet x ∪ readSet (f x.val) := by
  ext
  simp only [readSet, Trace.log_bind, List.mem_append, Set.mem_ofPred_eq, Set.mem_union,
    or_and_right, exists_or]

@[simp] theorem readSet_map (f : α → β) (x : Trace (LogEffect A) α) :
    readSet (f <$> x) = readSet x := by
  simp only [readSet, Trace.log_map]

@[simp] theorem readSet_tell_read (start : SizeT A) (len : Nat) :
    readSet (Trace.tell (.read start len)) = block start len := by
  ext
  simp [readSet]

theorem readSet_tell_of_silent {e : LogEffect A} (h : ∀ start len, e ≠ .read start len) :
    readSet (Trace.tell e) = ∅ := by
  ext
  simp [readSet, fun start len => (h start len).symm]

@[simp] theorem readSet_tell_event (a : SizeT A) : readSet (Trace.tell (.event a)) = ∅ :=
  readSet_tell_of_silent (by simp)

@[simp] theorem readSet_tell_digest (a : SizeT A) : readSet (Trace.tell (.digest a)) = ∅ :=
  readSet_tell_of_silent (by simp)

@[simp] theorem readSet_print (format : String) (args : List PrintArg) :
    readSet (print (A := A) format args) = ∅ := readSet_tell_of_silent (by simp)

@[simp] theorem readSet_dumpHex (m : Memory A.bits) (indent size : Nat) (p : SizeT A) :
    readSet (dumpHex m indent size p) = block p size := by
  rw [dumpHex, readSet_bind, readSet_tell_read, readSet_tell_of_silent (by simp), Set.union_empty]

variable {m : Memory A.bits} {layout : List (Layout.Member LogMember)} {x : LogMember}

theorem readSet_member (h : Layout.memberSpan layout x = ⟨k, n⟩) (p : SizeT A) :
    readSet (member m layout p x) = block (p + BitVec.ofNat _ k) n := by
  rw [member_of_span h]
  ext
  simp [readSet]

@[simp] theorem readSet_algorithmId (p : SizeT A) :
    readSet (member m digest2 p .algorithmId) = block p 2 := by
  rw [readSet_member span_algorithmId, BitVec.add_zero]

@[simp] theorem readSet_eventSize (p : SizeT A) :
    readSet (member m event2 p .eventSize) = block p 4 := by
  rw [readSet_member span_eventSize, BitVec.add_zero]

theorem algorithmId_val (p : SizeT A) :
    (member m digest2 p .algorithmId).val = m.load p 2 := by rw [member_algorithmId]

theorem eventSize_val (p : SizeT A) :
    (member m event2 p .eventSize).val = m.load p 4 := by rw [member_eventSize]

end Effects

section Digests

variable {A : Arch} {m : Memory A.bits}

theorem readSet_prettyprintTpm2Digest (p : SizeT A) :
    readSet (prettyprintTpm2Digest m p) = block p (digestExtent m p) := by
  rw [digestExtent, block_add]
  simp [prettyprintTpm2Digest, algorithmId_val, addressOf_of_span span_digest, ← Set.union_assoc]

theorem readSet_sizeofDigest2 (p : SizeT A) : readSet (sizeofDigest2 m p) = block p 2 := by
  simp [sizeofDigest2]

theorem readSet_getNextDigest (p : SizeT A) : readSet (getNextDigest m p) = block p 2 := by
  simp [getNextDigest]

theorem block_two_subset (p : SizeT A) : block p 2 ⊆ block p (digestExtent m p) :=
  block_mono p (Nat.le_add_right _ _)

theorem readSet_prettyprintTpm2DigestCallback (p n : SizeT A) :
    readSet (prettyprintTpm2DigestCallback m p (some n)) = block p (digestExtent m p) := by
  simp only [prettyprintTpm2DigestCallback, readSet_bind, readSet_prettyprintTpm2Digest,
    readSet_sizeofDigest2, readSet_pure, Set.union_empty]
  exact Set.union_eq_self_of_subset_right (block_two_subset p)

theorem mem_block_digestsExtent {count : Nat} {p x : SizeT A} :
    x ∈ block p (digestsExtent m count p) ↔
      ∃ q ∈ digestsAt m count p, x ∈ block q (digestExtent m q) := by
  induction count generalizing p with
  | zero => simp [digestsExtent, digestsAt]
  | succ count ih =>
    unfold digestsExtent at ih ⊢
    rw [digestsAt]
    split
    · simp
    · rw [List.map_cons, List.sum_cons, block_add, Set.mem_union, ih]
      simp

theorem digests_block (count : Nat) (p : SizeT A) :
    {x | ∃ q ∈ digestsAt m count p, x ∈ block q (digestExtent m q) ∪ block q 2} =
      block p (digestsExtent m count p) := by
  ext x
  simp only [Set.mem_ofPred_eq, Set.union_eq_self_of_subset_right (block_two_subset _)]
  exact mem_block_digestsExtent.symm

variable {σ : Type} {hdr : SizeT A} {callback : Callback A σ} {P : σ → Prop}
  {R : SizeT A → Set (SizeT A)}

theorem readSet_digestLoop (hcallback : ∀ p s, P s → readSet (callback p s) = R p ∧
      (callback p s).val.1 = true ∧ P (callback p s).val.2) (count : Nat) (p : SizeT A) {s : σ}
    (hs : P s) :
    readSet (digestLoop m hdr callback count p s) =
      block (hdr + BitVec.ofNat _ 8) 4 ∪ {x | ∃ q ∈ digestsAt m count p, x ∈ R q ∪ block q 2} := by
  induction count generalizing p s with
  | zero => simp [digestLoop, digestsAt, readSet_member span_digestCount]
  | succ count ih =>
    obtain ⟨hreads, haccepts, hnext⟩ := hcallback p s hs
    rw [digestLoop, digestsAt]
    by_cases hp : p = 0#A.bits
    · simp [hp, readSet_member span_digestCount]
    · have hsplit (qs : List (SizeT A)) : {x | ∃ q ∈ p :: qs, x ∈ R q ∪ block q 2} =
          R p ∪ block p 2 ∪ {x | ∃ q ∈ qs, x ∈ R q ∪ block q 2} := by
        ext x
        simp
      simp only [hp, haccepts, if_true, if_false, readSet_bind, readSet_tell_digest, hreads,
        readSet_getNextDigest, getNextDigest_val, ih _ hnext, readSet_member span_digestCount,
        hsplit, Set.empty_union]
      ext x
      simp only [Set.mem_union]
      tauto

theorem readSet_foreachDigest2 (hcallback : ∀ p s, P s → readSet (callback p s) = R p ∧
      (callback p s).val.1 = true ∧ P (callback p s).val.2) (a : SizeT A) {s : σ} (hs : P s) :
    readSet (foreachDigest2 m a callback s) = block (a + BitVec.ofNat _ 8) 4 ∪
      {x | ∃ q ∈ digestsOf m a, x ∈ R q ∪ block q 2} := by
  rw [foreachDigest2, member_of_span span_digestCount, addressOf_of_span span_digests]
  exact readSet_digestLoop hcallback _ _ hs

end Digests

section Agile

variable {A : Arch} {m : Memory A.bits} {a last : SizeT A}

theorem prettyprintTpm2DigestCallback_val (m : Memory A.bits) (p n : SizeT A) :
    (prettyprintTpm2DigestCallback m p (some n)).val =
      (true, some (n + BitVec.ofNat _ (digestExtent m p))) := by
  simp only [prettyprintTpm2DigestCallback, Trace.val_bind, Trace.val_pure, sizeofDigest2_val]

theorem event2_block (m : Memory A.bits) (a : SizeT A) :
    block a (event2Extent m a) = block a 12 ∪ (block (a + BitVec.ofNat _ 12) (digestsSize m a) ∪
      block (a + BitVec.ofNat _ 12 + BitVec.ofNat _ (digestsSize m a))
        (4 + m.load (a + BitVec.ofNat _ (12 + digestsSize m a)) 4)) := by
  rw [← block_add, ← block_add, event2Extent]
  apply congrArg (block a)
  omega

theorem readSet_prettyprintTpm2EventHeader (a : SizeT A) :
    readSet (prettyprintTpm2EventHeader m a) = block a 12 := by
  have hpcrIndex : Layout.memberSpan eventHeader2 .pcrIndex = ⟨0, 4⟩ := by decide
  have heventType : Layout.memberSpan eventHeader2 .eventType = ⟨4, 4⟩ := by decide
  have hheader : block a 12 = block a 4 ∪ (block (a + BitVec.ofNat _ 4) 4 ∪
      block (a + BitVec.ofNat _ 8) 4) := by
    rw [← add_ofNat_add a 4 4, ← block_add, ← block_add]
  rw [hheader]
  simp [prettyprintTpm2EventHeader, readSet_member hpcrIndex, readSet_member heventType,
    readSet_member span_digestCount, ← Set.union_assoc]

theorem readSet_prettyprintTpm2Eventbuf (p : SizeT A) :
    readSet (prettyprintTpm2Eventbuf m p) = block p (4 + m.load p 4) := by
  rw [block_add]
  simp [prettyprintTpm2Eventbuf, eventSize_val, addressOf_of_span span_event, ← Set.union_assoc]

theorem readSet_foreachDigest2_print (a : SizeT A) :
    readSet (foreachDigest2 m a (prettyprintTpm2DigestCallback m) (some 0#A.bits)) =
      block (a + BitVec.ofNat _ 8) 4 ∪ block (a + BitVec.ofNat _ 12) (digestsSize m a) := by
  rw [readSet_foreachDigest2 (P := fun n => ∃ k, n = some k)
    (R := fun q => block q (digestExtent m q)) ?_ a ⟨_, rfl⟩, digestsOf, digests_block]
  · rfl
  · rintro p _ ⟨n, rfl⟩
    rw [prettyprintTpm2DigestCallback_val]
    exact ⟨readSet_prettyprintTpm2DigestCallback p n, rfl, _, rfl⟩

theorem readSet_foreachDigest2_sizes (a : SizeT A) :
    readSet (foreachDigest2 m a (digest2AccumulatorCallback m) (some 0#A.bits)) ⊆
      block (a + BitVec.ofNat _ 8) 4 ∪ block (a + BitVec.ofNat _ 12) (digestsSize m a) := by
  rw [readSet_foreachDigest2 (P := fun n => ∃ k, n = some k) (R := fun q => block q 2) ?_ a
    ⟨_, rfl⟩, digestsSize, ← digests_block]
  · apply Set.union_subset_union_right
    rintro x ⟨q, hq, hx⟩
    rw [Set.union_self] at hx
    exact ⟨q, hq, .inr hx⟩
  · rintro p _ ⟨n, rfl⟩
    rw [digest2AccumulatorCallback_val]
    refine ⟨?_, rfl, _, rfl⟩
    simp [digest2AccumulatorCallback, readSet_sizeofDigest2]

theorem readSet_prettyprintTpm2Event (hne : a ≠ 0#A.bits) :
    readSet (prettyprintTpm2Event m a) = block a (event2Extent m a) := by
  have hcount : block (a + BitVec.ofNat _ 8) 4 ⊆ block a 12 := block_subset_block a (Nat.le_refl _)
  rw [prettyprintTpm2Event, if_neg hne, event2_block]
  simp only [readSet_bind, readSet_prettyprintTpm2EventHeader, readSet_foreachDigest2_print,
    foreachDigest2_sizes (prettyprintTpm2DigestCallback_val m), if_true, Option.getD_some,
    addressOf_of_span span_digests, readSet_prettyprintTpm2Eventbuf, add_ofNat_add]
  rw [Set.union_assoc, ← Set.union_assoc (block a 12), Set.union_eq_self_of_subset_right hcount]

theorem readSet_getNextEvent (a : SizeT A) :
    readSet (getNextEvent m a) ⊆ block a (event2Extent m a) := by
  have hcount : block (a + BitVec.ofNat _ 8) 4 ⊆ block a 12 := block_subset_block a (Nat.le_refl _)
  rw [getNextEvent, event2_block]
  simp only [readSet_bind, foreachDigest2_sizes (digest2AccumulatorCallback_val m), if_true,
    Option.getD_some, addressOf_of_span span_digests, readSet_eventSize, readSet_pure,
    Set.union_empty]
  apply Set.union_subset
  · refine Set.Subset.trans (readSet_foreachDigest2_sizes a) (Set.union_subset ?_ ?_)
    · exact fun x hx => .inl (hcount hx)
    · exact fun x hx => .inr (.inl hx)
  · exact fun x hx => .inr (.inr (block_mono _ (Nat.le_add_right _ _) hx))

theorem readSet_eventRound (hle : a ≤ last) (hne : a ≠ 0#A.bits) (u : Unit) :
    readSet (eventRound m last (prettyprintTpm2EventCallback m) (a, u)) =
      block a (event2Extent m a) := by
  rw [eventRound, if_pos ⟨hle, hne⟩]
  simp only [prettyprintTpm2EventCallback, readSet_bind, readSet_tell_event, readSet_pure,
    readSet_prettyprintTpm2Event hne, Trace.val_bind, Trace.val_pure, if_true, Set.union_empty,
    Set.empty_union]
  exact Set.union_eq_self_of_subset_right (readSet_getNextEvent a)

end Agile

section Legacy

variable {A : Arch} {m : Memory A.bits} {a last : SizeT A}

theorem readSet_prettyprintTpm12Event (a : SizeT A) :
    readSet (prettyprintTpm12Event m a) = block a (pcrEventExtent m a) := by
  have hpcrIndex : Layout.memberSpan pcrEvent .pcrIndex = ⟨0, 4⟩ := by decide
  have heventType : Layout.memberSpan pcrEvent .eventType = ⟨4, 4⟩ := by decide
  have hdigest : Layout.memberSpan pcrEvent .digest = ⟨8, 20⟩ := by decide
  have hevent : Layout.memberSpan pcrEvent .event = ⟨32, 1⟩ := by decide
  have hentry : block a (pcrEventExtent m a) = block a 4 ∪ (block (a + BitVec.ofNat _ 4) 4 ∪
      (block (a + BitVec.ofNat _ 8) 20 ∪ (block (a + BitVec.ofNat _ 28) 4 ∪
        block (a + BitVec.ofNat _ 32) (m.load (a + BitVec.ofNat _ 28) 4)))) := by
    have hparts : pcrEventExtent m a = 4 + (4 + (20 + (4 + m.load (a + BitVec.ofNat _ 28) 4))) := by
      rw [pcrEventExtent]
      omega
    simp only [hparts, block_add, add_ofNat_add, Nat.reduceAdd]
  have hsize : (member m pcrEvent a .eventSize).val = m.load (a + BitVec.ofNat _ 28) 4 := by
    rw [member_of_span span_pcrEventSize]
  rw [hentry]
  simp [prettyprintTpm12Event, readSet_member hpcrIndex, readSet_member heventType, hdigest,
    readSet_member span_pcrEventSize, hsize, addressOf_of_span hdigest, addressOf_of_span hevent,
    ← Set.union_assoc]

theorem readSet_tpm12EventNext (a last : SizeT A) :
    readSet (tpm12EventNext m a last) ⊆ block a (pcrEventExtent m a) := by
  have hsize : block (a + BitVec.ofNat _ 28) 4 ⊆ block a (pcrEventExtent m a) :=
    block_subset_block a (le_pcrEventExtent m a)
  unfold tpm12EventNext
  split
  · rw [readSet_pure]
    exact Set.empty_subset _
  · rw [readSet_bind, readSet_member span_pcrEventSize]
    apply Set.union_subset hsize
    dsimp only
    split
    · simp
    · simp

theorem readSet_tpm12Round (last a : SizeT A) :
    readSet (tpm12Round m last a) = block a (pcrEventExtent m a) := by
  have hlast (next : SizeT A) : readSet (if next = 0#A.bits then pure (.inr ())
      else pure (.inl next) : Trace (LogEffect A) (SizeT A ⊕ Unit)) = ∅ := by
    split <;> exact readSet_pure _
  simp only [tpm12Round, readSet_bind, readSet_tell_event, readSet_prettyprintTpm12Event, hlast,
    Set.union_empty, Set.empty_union]
  exact Set.union_eq_self_of_subset_right (readSet_tpm12EventNext a last)

end Legacy

end TctiUefi.EventLog
