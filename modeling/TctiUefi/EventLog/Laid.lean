import TctiUefi.EventLog.Reads
import Mathlib.Algebra.Order.BigOperators.Group.List

namespace TctiUefi.EventLog

open Memory

theorem length_nil_lt {α : Type} : ([] : List α).length < 2 ^ 32 := Nat.two_pow_pos 32

theorem Digest2.encode_ne_nil (d : Digest2) : d.encode ≠ [] := by
  intro h
  have hlen := congrArg List.length h
  simp [Digest2.encode] at hlen

theorem Event2.encode_ne_nil (e : Event2) : e.encode ≠ [] := by
  intro h
  have hlen := congrArg List.length h
  rw [Event2.length_encode, List.length_nil] at hlen
  omega

theorem Event2.encodeEvent_append_ne_nil (e : Event2) (ys : List UInt8) :
    e.encodeEvent ++ ys ≠ [] := by
  intro hnil
  have hlen := congrArg List.length hnil
  rw [List.length_append, Event2.length_encodeEvent, List.length_nil] at hlen
  omega

theorem PcrEvent.encode_ne_nil (e : PcrEvent) : e.encode ≠ [] := by
  intro h
  have hlen := congrArg List.length h
  rw [PcrEvent.length_encode, List.length_nil] at hlen
  omega

/-- The digest is as long as the tools take a digest of its algorithm to be. -/
def Digest2.Sized (d : Digest2) : Prop := d.digest.length = getAlgSize d.algorithmId

instance (d : Digest2) : Decidable d.Sized := inferInstanceAs (Decidable (_ = _))

def Digest2.readLength (d : Digest2) : Nat := 2 + getAlgSize d.algorithmId

theorem Digest2.Known.sized {d : Digest2} (h : d.Known) : d.Sized := by
  obtain ⟨alg, hid, hlen⟩ := h
  rw [Digest2.Sized, hid, getAlgSize_id, hlen]

theorem Digest2.Sized.length_encode {d : Digest2} (h : d.Sized) :
    d.encode.length = d.readLength := by
  rw [Digest2.encode, List.length_append, length_toLE, h, Digest2.readLength]

section Digests

variable {A : Arch} {m : Memory A.bits} {a : SizeT A} {d : Digest2} {ds : List Digest2}
  {ys : List UInt8}

theorem digestExtent_of_holds (h : m.Holds a (d.encode ++ ys)) :
    digestExtent m a = d.readLength := by
  have hid : m.load a 2 = d.algorithmId.toNat := by
    apply load_of_holds _ d.algorithmId.toNat_lt
    rw [Digest2.encode, List.append_assoc] at h
    exact (holds_append.mp h).1
  rw [digestExtent, hid, UInt16.ofNat_toNat, Digest2.readLength]

/-- Of a digest whose size the tools do not know the next one is looked for in a wrong place, so
that all but the last must have the size that is assumed. -/
theorem digestsAt_of_laid (hsized : ∀ d ∈ ds.dropLast, d.Sized)
    (h : m.Laid a (ds.flatMap Digest2.encode ++ ys)) (hys : ys ≠ []) :
    digestsAt m ds.length a = starts Digest2.encode a ds ∧
      digestsExtent m ds.length a = (ds.map Digest2.readLength).sum := by
  unfold digestsExtent
  induction ds generalizing a with
  | nil => exact ⟨rfl, rfl⟩
  | cons d ds ih =>
    rw [List.flatMap_cons, List.append_assoc] at h
    have hextent := digestExtent_of_holds h.holds
    rw [List.length_cons, digestsAt, if_neg h.ne_zero, starts_cons, List.map_cons, List.map_cons,
      List.sum_cons, List.sum_cons, hextent]
    cases ds with
    | nil => exact ⟨rfl, rfl⟩
    | cons d' ds =>
      have hd : d.Sized := hsized d (List.mem_cons_self ..)
      have hds : ∀ x ∈ (d' :: ds).dropLast, x.Sized :=
        fun x hx => hsized x (List.mem_cons_of_mem _ hx)
      obtain ⟨hstarts, hsum⟩ := ih hds (h.right (List.append_ne_nil_of_right_ne_nil _ hys))
      rw [← hd.length_encode, hstarts, ← hstarts, hsum, hstarts]
      exact ⟨rfl, rfl⟩

end Digests

/-- The bytes that the tools take an entry to have.  The size of its event data is looked for
after the digests, as long as these are taken to be. -/
def Event2.readLength (e : Event2) : Nat :=
  16 + (e.digests.map Digest2.readLength).sum +
    ofLE ((e.encode.drop (12 + (e.digests.map Digest2.readLength).sum)).take 4)

theorem sum_readLength_of_sized {ds : List Digest2} (h : ∀ d ∈ ds, d.Sized) :
    (ds.map Digest2.readLength).sum = (ds.flatMap Digest2.encode).length := by
  rw [List.length_flatMap]
  congr 1
  apply List.map_congr_left
  intro d hd
  exact (h d hd).length_encode.symm

theorem Event2.readLength_of_sized {e : Event2} (h : ∀ d ∈ e.digests, d.Sized) :
    e.readLength = e.encode.length := by
  have hhead : e.encode = (e.encodeHeader ++ e.digests.flatMap Digest2.encode) ++
      (toLE 4 e.event.length ++ e.event) := by
    rw [encode, encodeEvent, List.append_assoc]
  have hlen : (e.encodeHeader ++ e.digests.flatMap Digest2.encode).length =
      12 + (e.digests.flatMap Digest2.encode).length := by
    rw [List.length_append, length_encodeHeader]
  rw [readLength, sum_readLength_of_sized h, length_encode, hhead, List.drop_left' hlen,
    List.take_left' (length_toLE 4 _), ofLE_toLE e.event_lt]

theorem sum_readLength_le {ds : List Digest2} (h : ∀ d ∈ ds, d.readLength ≤ d.encode.length) :
    (ds.map Digest2.readLength).sum ≤ (ds.flatMap Digest2.encode).length := by
  rw [List.length_flatMap]
  exact List.sum_le_sum h

section Events

variable {A : Arch} {m : Memory A.bits} {a : SizeT A} {e : Event2} {ys : List UInt8}

theorem digestCount_of_holds (h : m.Holds a (e.encode ++ ys)) :
    m.load (a + BitVec.ofNat _ 8) 4 = e.digests.length := by
  have hfield : m.Holds a ((toLE 4 e.pcrIndex.toNat ++ toLE 4 e.eventType.toNat) ++
      (toLE 4 e.digests.length ++
        (e.digests.flatMap Digest2.encode ++ (e.encodeEvent ++ ys)))) := by
    simpa only [Event2.encode, Event2.encodeHeader, List.append_assoc] using h
  simpa using load_field hfield e.digests_lt

theorem laid_digests (h : m.Laid a (e.encode ++ ys)) :
    m.Laid (a + BitVec.ofNat _ 12) (e.digests.flatMap Digest2.encode ++ (e.encodeEvent ++ ys)) ∧
      (a + BitVec.ofNat _ 12).toNat = a.toNat + 12 := by
  have hne := e.encodeEvent_append_ne_nil ys
  have hsplit : m.Laid a (e.encodeHeader ++
      (e.digests.flatMap Digest2.encode ++ (e.encodeEvent ++ ys))) := by
    simpa only [Event2.encode, List.append_assoc] using h
  have hlaid := hsplit.right (List.append_ne_nil_of_right_ne_nil _ hne)
  have htoNat := hsplit.toNat_right (List.append_ne_nil_of_right_ne_nil _ hne)
  rw [Event2.length_encodeHeader] at hlaid htoNat
  exact ⟨hlaid, htoNat⟩

theorem digests_of_laid (hsized : ∀ d ∈ e.digests.dropLast, d.Sized)
    (h : m.Laid a (e.encode ++ ys)) :
    digestsOf m a = starts Digest2.encode (a + BitVec.ofNat _ 12) e.digests ∧
      digestsSize m a = (e.digests.map Digest2.readLength).sum := by
  have hne := e.encodeEvent_append_ne_nil ys
  rw [digestsOf, digestsSize, digestCount_of_holds h.holds]
  exact digestsAt_of_laid hsized (laid_digests h).1 hne

theorem event2Extent_of_laid (hsized : ∀ d ∈ e.digests.dropLast, d.Sized)
    (hle : ∀ d ∈ e.digests, d.readLength ≤ d.encode.length) (h : m.Laid a (e.encode ++ ys)) :
    event2Extent m a = e.readLength := by
  have hin : 12 + (e.digests.map Digest2.readLength).sum + 4 ≤ e.encode.length := by
    have hsum := sum_readLength_le hle
    rw [Event2.length_encode]
    omega
  rw [event2Extent, (digests_of_laid hsized h).2, load_of_holds_drop h.left.holds hin,
    Event2.readLength]

theorem event2Extent_of_known (hknown : ∀ d ∈ e.digests, d.Known)
    (h : m.Laid a (e.encode ++ ys)) : event2Extent m a = e.encode.length := by
  have hsized : ∀ d ∈ e.digests, d.Sized := fun d hd => (hknown d hd).sized
  rw [event2Extent_of_laid (fun d hd => hsized d (List.mem_of_mem_dropLast hd))
    (fun d hd => Nat.le_of_eq (hsized d hd).length_encode.symm) h,
    Event2.readLength_of_sized hsized]

theorem pcrEventExtent_of_holds {e : PcrEvent} (h : m.Holds a (e.encode ++ ys)) :
    pcrEventExtent m a = e.encode.length := by
  have hfield : m.Holds a ((toLE 4 e.pcrIndex.toNat ++ toLE 4 e.eventType.toNat ++ e.digest) ++
      (toLE 4 e.event.length ++ (e.event ++ ys))) := by
    simpa only [PcrEvent.encode, List.append_assoc] using h
  have hsize := load_field hfield e.event_lt
  rw [pcrEventExtent, PcrEvent.length_encode, ← hsize]
  simp [e.digest_length]

theorem within_of_subset {t : Trace (LogEffect A) α} {n lo hi : Nat} (ht : readSet t ⊆ block a n)
    (hfits : a.toNat + n ≤ 2 ^ A.bits) (hlo : lo ≤ a.toNat) (hhi : a.toNat + n ≤ hi) :
    t.Logs (LogEffect.Within lo hi) := by
  rw [logs_within_iff]
  intro x hx
  obtain ⟨k, hk, rfl⟩ := ht hx
  rw [toNat_add_ofNat (by omega)]
  omega

end Events

end TctiUefi.EventLog
