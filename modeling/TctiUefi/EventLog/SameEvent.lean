import TctiUefi.EventLog.Reads

namespace TctiUefi.EventLog

def LogEffect.digest? : LogEffect A → Option (SizeT A)
  | .digest p => some p
  | _ => none

def handed (t : Trace (LogEffect A) α) : List (SizeT A) := t.log.filterMap LogEffect.digest?

section Handed

variable {A : Arch} {m : Memory A.bits}

@[simp] theorem handed_pure (x : α) : handed (pure x : Trace (LogEffect A) α) = [] := rfl

@[simp] theorem handed_bind (x : Trace (LogEffect A) α) (f : α → Trace (LogEffect A) β) :
    handed (x >>= f) = handed x ++ handed (f x.val) := List.filterMap_append

@[simp] theorem handed_map (f : α → β) (x : Trace (LogEffect A) α) :
    handed (f <$> x) = handed x := by rw [handed, Trace.log_map, handed]

@[simp] theorem handed_tell_digest (p : SizeT A) :
    handed (Trace.tell (.digest p) : Trace (LogEffect A) Unit) = [p] := rfl

@[simp] theorem handed_print (format : String) (args : List PrintArg) :
    handed (print (A := A) format args) = [] := rfl

@[simp] theorem handed_dumpHex (m : Memory A.bits) (indent size : Nat) (p : SizeT A) :
    handed (dumpHex m indent size p) = [] := rfl

@[simp] theorem handed_member (layout : List (Layout.Member LogMember)) (p : SizeT A)
    (x : LogMember) : handed (member m layout p x) = [] := rfl

theorem handed_digestLoop {σ : Type} {callback : Callback A σ}
    (hcallback : ∀ p s, handed (callback p s) = []) (hdr : SizeT A) (count : Nat) (p : SizeT A)
    (s : σ) : handed (digestLoop m hdr callback count p s) =
      (feed (fun p s => (callback p s).val) (digestsAt m count p) s).taken := by
  induction count generalizing p s with
  | zero => simp [digestLoop, digestsAt]
  | succ count ih =>
    rw [digestLoop, digestsAt]
    by_cases hp : p = 0#A.bits
    · simp [hp]
    · rw [if_neg hp, if_neg hp]
      simp only [handed_bind, handed_member, handed_tell_digest, hcallback, List.nil_append]
      by_cases hret : (callback p s).val.1 = true
      · rw [if_pos hret, feed_cons_of_accepts hret, handed_bind, getNextDigest_val, ih]
        simp [getNextDigest]
      · rw [if_neg hret, feed_cons_of_rejects (Bool.eq_false_iff.mpr hret)]
        rfl

theorem handed_foreachDigest2 {callback : Callback A (Option (SizeT A))}
    (hcallback : ∀ p s, handed (callback p s) = [])
    (hsizes : ∀ p n, (callback p (some n)).val =
      (true, some (n + BitVec.ofNat _ (digestExtent m p)))) (a : SizeT A) :
    handed (foreachDigest2 m a callback (some 0#A.bits)) = digestsOf m a := by
  rw [foreachDigest2, member_of_span span_digestCount, addressOf_of_span span_digests,
    handed_digestLoop hcallback]
  exact feed_taken_of_ok (feed_sizes (f := fun p n => (callback p n).val) hsizes _ _).1

theorem handed_print_callback (p : SizeT A) (s : Option (SizeT A)) :
    handed (prettyprintTpm2DigestCallback m p s) = [] := by
  cases s with
  | none => simp [prettyprintTpm2DigestCallback, prettyprintTpm2Digest]
  | some n => simp [prettyprintTpm2DigestCallback, prettyprintTpm2Digest, sizeofDigest2]

theorem handed_accumulator (p : SizeT A) (s : Option (SizeT A)) :
    handed (digest2AccumulatorCallback m p s) = [] := by
  cases s with
  | none => rfl
  | some n => simp [digest2AccumulatorCallback, sizeofDigest2]

end Handed

section Positions

variable {A : Arch} {m : Memory A.bits}

theorem sum_sizeofDigest2 (ps : List (SizeT A)) :
    (ps.map fun p => (sizeofDigest2 m p).val).sum =
      BitVec.ofNat _ (ps.map (digestExtent m)).sum := by
  induction ps with
  | nil => rfl
  | cons p ps ih =>
    rw [List.map_cons, List.sum_cons, ih, sizeofDigest2_val, List.map_cons, List.sum_cons,
      BitVec.ofNat_add]

theorem getElem_digestsAt {count : Nat} {p : SizeT A} {k : Nat}
    (hk : k < (digestsAt m count p).length) :
    (digestsAt m count p)[k] =
      p + BitVec.ofNat _ (((digestsAt m count p).take k).map (digestExtent m)).sum := by
  induction count generalizing p k with
  | zero => cases hk
  | succ count ih =>
    by_cases hp : p = 0#A.bits
    · simp [digestsAt, hp] at hk
    · have hcons : digestsAt m (count + 1) p =
          p :: digestsAt m count (p + BitVec.ofNat _ (digestExtent m p)) := by
        rw [digestsAt, if_neg hp]
      simp only [hcons] at hk ⊢
      cases k with
      | zero => simp
      | succ k =>
        rw [List.getElem_cons_succ, ih, List.take_succ_cons, List.map_cons, List.sum_cons,
          add_ofNat_add]

theorem length_digestsAt {count : Nat} {p : SizeT A} (hp : p ≠ 0#A.bits)
    (hfits : p.toNat + digestsExtent m count p < 2 ^ A.bits) :
    (digestsAt m count p).length = count := by
  induction count generalizing p with
  | zero => rfl
  | succ count ih =>
    have hextent : digestsExtent m (count + 1) p = digestExtent m p +
        digestsExtent m count (p + BitVec.ofNat _ (digestExtent m p)) := by
      rw [digestsExtent, digestsAt, if_neg hp, List.map_cons, List.sum_cons]
      rfl
    rw [hextent] at hfits
    have hnext : (p + BitVec.ofNat _ (digestExtent m p)).toNat = p.toNat + digestExtent m p :=
      toNat_add_ofNat (by omega)
    have hpos := BitVec.toNat_pos_of_ne_zero hp
    rw [digestsAt, if_neg hp, List.length_cons, ih]
    · apply ne_zero_of_toNat_pos
      omega
    · omega

end Positions

section Agree

/-- The printer and the walker find the same digests `ds` and the same `TCG_EVENT2` at `e` in
the entry at `a`. -/
structure FindSameEvent (m : Memory A.bits) (a : SizeT A) (ds : List (SizeT A)) (e : SizeT A) :
    Prop where
  printer_handed :
    handed (foreachDigest2 m a (prettyprintTpm2DigestCallback m) (some 0#A.bits)) = ds
  walker_handed : handed (foreachDigest2 m a (digest2AccumulatorCallback m) (some 0#A.bits)) = ds
  count : ds.length = (member m eventHeader2 a .digestCount).val
  starts : ∀ k (hk : k < ds.length), ds[k] = addressOf eventHeader2 a .digests +
    ((ds.take k).map fun d => (sizeofDigest2 m d).val).sum
  event : e = addressOf eventHeader2 a .digests + (ds.map fun d => (sizeofDigest2 m d).val).sum
  printer : prettyprintTpm2Event m a = (do
    prettyprintTpm2EventHeader m a
    let _ ← foreachDigest2 m a (prettyprintTpm2DigestCallback m) (some 0#A.bits)
    prettyprintTpm2Eventbuf m e)
  walker : getNextEvent m a = (do
    let _ ← foreachDigest2 m a (digest2AccumulatorCallback m) (some 0#A.bits)
    let eventSize ← member m event2 e .eventSize
    pure (addressOf event2 e .event + BitVec.ofNat _ eventSize))
  dumped : ∃ log size, (prettyprintTpm2Event m a).log = log ++
      [.read (addressOf event2 e .event) size,
        .dumpHex 2 ((m.view (addressOf event2 e .event)).bytes size)] ∧
    addressOf event2 e .event + BitVec.ofNat _ size = (getNextEvent m a).val

variable {A : Arch} {m : Memory A.bits} {a : SizeT A}

theorem findSameEvent (ha : a ≠ 0#A.bits) (hfits : a.toNat + event2Extent m a ≤ 2 ^ A.bits) :
    ∃ ds e, FindSameEvent m a ds e := by
  have hfirst : (a + BitVec.ofNat _ 12).toNat = a.toNat + 12 := by
    apply toNat_add_ofNat
    unfold event2Extent at hfits
    omega
  have hprints := foreachDigest2_sizes (prettyprintTpm2DigestCallback_val m) a
  have hwalks := foreachDigest2_sizes (digest2AccumulatorCallback_val m) a
  have hprinter : prettyprintTpm2Event m a = (do
      prettyprintTpm2EventHeader m a
      let _ ← foreachDigest2 m a (prettyprintTpm2DigestCallback m) (some 0#A.bits)
      prettyprintTpm2Eventbuf m
        (addressOf eventHeader2 a .digests + BitVec.ofNat _ (digestsSize m a))) := by
    rw [prettyprintTpm2Event, if_neg ha]
    simp only [bind, hprints, if_true, Option.getD_some]
  have hwalker : getNextEvent m a = (do
      let _ ← foreachDigest2 m a (digest2AccumulatorCallback m) (some 0#A.bits)
      let eventSize ← member m event2
        (addressOf eventHeader2 a .digests + BitVec.ofNat _ (digestsSize m a)) .eventSize
      pure (addressOf event2
        (addressOf eventHeader2 a .digests + BitVec.ofNat _ (digestsSize m a)) .event +
          BitVec.ofNat _ eventSize)) := by
    rw [getNextEvent]
    simp only [bind, hwalks, if_true, Option.getD_some]
  refine ⟨digestsOf m a, addressOf eventHeader2 a .digests + BitVec.ofNat _ (digestsSize m a), ?_⟩
  constructor
  · exact handed_foreachDigest2 handed_print_callback (prettyprintTpm2DigestCallback_val m) a
  · exact handed_foreachDigest2 handed_accumulator (digest2AccumulatorCallback_val m) a
  · rw [member_of_span span_digestCount, digestsOf, length_digestsAt]
    · apply ne_zero_of_toNat_pos
      omega
    · have hextent : event2Extent m a = 16 + digestsSize m a +
        m.load (a + BitVec.ofNat _ (12 + digestsSize m a)) 4 := rfl
      have hsize : digestsExtent m (m.load (a + BitVec.ofNat _ 8) 4) (a + BitVec.ofNat _ 12) =
        digestsSize m a := rfl
      omega
  · intro k hk
    rw [sum_sizeofDigest2, addressOf_of_span span_digests]
    exact getElem_digestsAt hk
  · rw [sum_sizeofDigest2]
    rfl
  · exact hprinter
  · exact hwalker
  · rw [hprinter, hwalker]
    simp only [prettyprintTpm2Eventbuf, dumpHex, member_eventSize, Trace.log_bind, Trace.log_tell,
      Trace.val_bind, Trace.val_pure, ← List.append_assoc]
    exact ⟨_, _, (List.append_assoc _ [_] [_]), rfl⟩

/-- A SHA3-256 digest, which the tools do not know, and a SHA1 digest behind it. -/
def sha3Entry : Memory Arch.x86_64.bits :=
  Memory.holding 4096 ([0, 0, 0, 0, 4, 0, 0, 0, 2, 0, 0, 0, 0x27, 0, 0x04, 0] ++
    List.replicate 20 0xaa ++ [1, 0, 0, 0, 0xff])

theorem findSameEvent_sha3 : ∃ ds e, FindSameEvent sha3Entry 4096 ds e := by
  apply findSameEvent
  · decide
  · have hextent := event2Extent_lt (A := .x86_64) sha3Entry 4096
    exact Nat.le_trans (Nat.add_le_add_left (Nat.le_of_lt hextent) _) (by decide)

end Agree

end TctiUefi.EventLog
