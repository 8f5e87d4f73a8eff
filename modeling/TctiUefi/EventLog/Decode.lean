import TctiUefi.EventLog.Laid
import TctiUefi.EventLog.SameEvent

namespace TctiUefi.EventLog

open Memory

/-- The digest at an address, as long as the tools take it to be. -/
def decodeDigest2 (m : Memory A.bits) (p : SizeT A) : Digest2 where
  algorithmId := UInt16.ofNat (m.load p 2)
  digest := (m.view (p + BitVec.ofNat _ 2)).bytes (getAlgSize (UInt16.ofNat (m.load p 2)))

theorem length_digestsAt_le (m : Memory A.bits) (count : Nat) (p : SizeT A) :
    (digestsAt m count p).length ≤ count := by
  induction count generalizing p with
  | zero => exact Nat.le_refl _
  | succ count ih =>
    rw [digestsAt]
    split
    · exact Nat.zero_le _
    · exact Nat.succ_le_succ (ih _)

def decodeEvent2 (m : Memory A.bits) (a : SizeT A) : Event2 where
  pcrIndex := UInt32.ofNat (m.load a 4)
  eventType := UInt32.ofNat (m.load (a + BitVec.ofNat _ 4) 4)
  digests := (digestsOf m a).map (decodeDigest2 m)
  event := (m.view (a + BitVec.ofNat _ (16 + digestsSize m a))).bytes
    (m.load (a + BitVec.ofNat _ (12 + digestsSize m a)) 4)
  digests_lt := by
    rw [List.length_map]
    exact Nat.lt_of_le_of_lt (length_digestsAt_le m _ _) (m.load_lt _ 4)
  event_lt := by
    rw [Buffer.length_bytes]
    exact m.load_lt _ 4

section Digests

variable {A : Arch} {m : Memory A.bits} {p : SizeT A}

theorem decodeDigest2_sized (m : Memory A.bits) (p : SizeT A) : (decodeDigest2 m p).Sized :=
  Buffer.length_bytes _ _

theorem toNat_decodeDigest2_algorithmId (m : Memory A.bits) (p : SizeT A) :
    (decodeDigest2 m p).algorithmId.toNat = m.load p 2 := by
  rw [decodeDigest2, UInt16.toNat_ofNat_of_lt' (m.load_lt p 2)]

theorem length_encode_decodeDigest2 (m : Memory A.bits) (p : SizeT A) :
    (decodeDigest2 m p).encode.length = digestExtent m p := by
  rw [(decodeDigest2_sized m p).length_encode]
  rfl

theorem holds_decodeDigest2 (m : Memory A.bits) (p : SizeT A) :
    m.Holds p (decodeDigest2 m p).encode := by
  rw [Digest2.encode, holds_append, toNat_decodeDigest2_algorithmId, length_toLE]
  refine ⟨m.holds_toLE_load p 2, ?_⟩
  rw [Holds, decodeDigest2, Buffer.length_bytes]

theorem decodeDigest2_of_holds {d : Digest2} {ys : List UInt8} (hd : d.Sized)
    (h : m.Holds p (d.encode ++ ys)) : decodeDigest2 m p = d := by
  rw [Digest2.encode, List.append_assoc] at h
  obtain ⟨hid, htail⟩ := holds_append.mp h
  have hload : m.load p 2 = d.algorithmId.toNat := load_of_holds hid d.algorithmId.toNat_lt
  have hdigest := (holds_append.mp htail).1
  rw [length_toLE, Holds, hd] at hdigest
  rw [decodeDigest2, hload, UInt16.ofNat_toNat, hdigest]

theorem holds_decodeDigests (m : Memory A.bits) (count : Nat) (p : SizeT A) :
    m.Holds p (((digestsAt m count p).map (decodeDigest2 m)).flatMap Digest2.encode) := by
  induction count generalizing p with
  | zero => rfl
  | succ count ih =>
    rw [digestsAt]
    split
    · rfl
    · rw [List.map_cons, List.flatMap_cons, holds_append, length_encode_decodeDigest2]
      exact ⟨holds_decodeDigest2 m p, ih _⟩

theorem length_decodeDigests (m : Memory A.bits) (count : Nat) (p : SizeT A) :
    (((digestsAt m count p).map (decodeDigest2 m)).flatMap Digest2.encode).length =
      digestsExtent m count p := by
  rw [List.length_flatMap, List.map_map, digestsExtent]
  congr 1
  exact List.map_congr_left fun q _ => length_encode_decodeDigest2 m q

theorem map_decodeDigest2_of_laid {ds : List Digest2} {ys : List UInt8}
    (hsized : ∀ d ∈ ds, d.Sized) (h : m.Laid p (ds.flatMap Digest2.encode ++ ys)) (hys : ys ≠ []) :
    (starts Digest2.encode p ds).map (decodeDigest2 m) = ds := by
  induction ds generalizing p with
  | nil => rfl
  | cons d ds ih =>
    rw [List.flatMap_cons, List.append_assoc] at h
    have hhead := decodeDigest2_of_holds (hsized d (List.mem_cons_self ..)) h.holds
    have htail := h.right (List.append_ne_nil_of_right_ne_nil _ hys)
    rw [starts_cons, List.map_cons, hhead,
      ih (fun e he => hsized e (List.mem_cons_of_mem _ he)) htail]

end Digests

section Events

variable {A : Arch} {m : Memory A.bits} {a : SizeT A}

theorem decodeEvent2_sized (m : Memory A.bits) (a : SizeT A) :
    ∀ d ∈ (decodeEvent2 m a).digests, d.Sized := by
  intro d hd
  obtain ⟨q, _, rfl⟩ := List.mem_map.mp hd
  exact decodeDigest2_sized m q

theorem length_digestsOf (hfits : a.toNat + event2Extent m a ≤ 2 ^ A.bits) :
    (digestsOf m a).length = m.load (a + BitVec.ofNat _ 8) 4 := by
  have hextent : event2Extent m a = 16 + digestsSize m a +
    m.load (a + BitVec.ofNat _ (12 + digestsSize m a)) 4 := rfl
  have hsize : digestsExtent m (m.load (a + BitVec.ofNat _ 8) 4) (a + BitVec.ofNat _ 12) =
    digestsSize m a := rfl
  have hfirst : (a + BitVec.ofNat _ 12).toNat = a.toNat + 12 := toNat_add_ofNat (by omega)
  apply length_digestsAt
  · apply ne_zero_of_toNat_pos
    omega
  · omega

theorem holds_decodeEvent2 (hfits : a.toNat + event2Extent m a ≤ 2 ^ A.bits) :
    m.Holds a (decodeEvent2 m a).encode ∧ (decodeEvent2 m a).encode.length = event2Extent m a := by
  have hpcrIndex : (decodeEvent2 m a).pcrIndex.toNat = m.load a 4 :=
    UInt32.toNat_ofNat_of_lt' (m.load_lt a 4)
  have heventType : (decodeEvent2 m a).eventType.toNat = m.load (a + BitVec.ofNat _ 4) 4 :=
    UInt32.toNat_ofNat_of_lt' (m.load_lt _ 4)
  have hcount : (decodeEvent2 m a).digests.length = m.load (a + BitVec.ofNat _ 8) 4 := by
    rw [decodeEvent2, List.length_map, length_digestsOf hfits]
  have hdigests : ((decodeEvent2 m a).digests.flatMap Digest2.encode).length = digestsSize m a :=
    length_decodeDigests m _ _
  have hsize : (decodeEvent2 m a).event.length =
      m.load (a + BitVec.ofNat _ (12 + digestsSize m a)) 4 := Buffer.length_bytes _ _
  have hevent : m.Holds (a + BitVec.ofNat _ (16 + digestsSize m a)) (decodeEvent2 m a).event := by
    rw [Holds, hsize]
    rfl
  constructor
  · simp only [Event2.encode, Event2.encodeHeader, Event2.encodeEvent, holds_append,
      List.length_append, length_toLE, add_ofNat_add, hdigests, hpcrIndex, heventType, hcount,
      hsize]
    refine ⟨⟨⟨m.holds_toLE_load a 4, m.holds_toLE_load _ 4⟩, m.holds_toLE_load _ 4⟩,
      holds_decodeDigests m _ _, m.holds_toLE_load _ 4, ?_⟩
    have hplace : 4 + 4 + 4 + digestsSize m a + 4 = 16 + digestsSize m a := by omega
    rw [hplace]
    exact hevent
  · rw [Event2.length_encode, hdigests, hsize, event2Extent]

theorem decodeEvent2_of_laid {e : Event2} {ys : List UInt8} (hsized : ∀ d ∈ e.digests, d.Sized)
    (h : m.Laid a (e.encode ++ ys)) : decodeEvent2 m a = e := by
  have hne := e.encodeEvent_append_ne_nil ys
  obtain ⟨hlaid, _⟩ := laid_digests h
  obtain ⟨hstarts, hsum⟩ := digests_of_laid (fun d hd => hsized d (List.mem_of_mem_dropLast hd)) h
  rw [sum_readLength_of_sized hsized] at hsum
  have hdigests := map_decodeDigest2_of_laid hsized hlaid hne
  have hparts := h.holds
  simp only [Event2.encode, Event2.encodeHeader, Event2.encodeEvent, holds_append,
    List.length_append, length_toLE, add_ofNat_add] at hparts
  obtain ⟨⟨⟨⟨hpcrIndex, heventType⟩, _⟩, _, hsize, hevent⟩, _⟩ := hparts
  have hplace : 4 + 4 + 4 + (e.digests.flatMap Digest2.encode).length =
    12 + (e.digests.flatMap Digest2.encode).length := by omega
  have hplace' : 12 + (e.digests.flatMap Digest2.encode).length + 4 =
    16 + (e.digests.flatMap Digest2.encode).length := by omega
  rw [hplace] at hsize hevent
  rw [hplace', Holds] at hevent
  have hload := load_of_holds hsize e.event_lt
  obtain ⟨pcrIndex, eventType, digests, event, _, _⟩ := e
  simp only [decodeEvent2, hstarts, hdigests, hsum, hload, hevent,
    load_of_holds hpcrIndex pcrIndex.toNat_lt, load_of_holds heventType eventType.toNat_lt,
    UInt32.ofNat_toNat]

end Events

end TctiUefi.EventLog
