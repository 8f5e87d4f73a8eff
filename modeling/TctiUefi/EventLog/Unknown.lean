import TctiUefi.EventLog.RoundTrip

open StateTransition

namespace TctiUefi.EventLog

open Memory

/-- A digest of an algorithm that the tools know has that algorithm's size.  Of the others
nothing is assumed. -/
def Digest2.Plausible (d : Digest2) : Prop :=
  ∀ h : HashAlg, d.algorithmId = h.id → d.digest.length = h.digestSize

def digestStarts (first : SizeT A) (es : List Event2) : List (SizeT A) :=
  (located Event2.encode first es).flatMap fun p =>
    starts Digest2.encode (p.1 + BitVec.ofNat _ 12) p.2.digests

def OnEntries (first : SizeT A) (es : List Event2) : LogEffect A → Prop
  | .event a => a ∈ starts Event2.encode first es
  | .digest d => d ∈ digestStarts first es
  | _ => True

def digestWalker (m : Memory A.bits) (f g : SizeT A → σ → Bool × σ) : Callback A σ :=
  fun eventHdr data => do
    let r ← foreachDigest2 m eventHdr (pureCallback g) data
    pure (f eventHdr r.2)

def StaysOnEntries (m : Memory A.bits) (first last : SizeT A) (es : List Event2) : Prop :=
  ∀ (σ : Type) (f g : SizeT A → σ → Bool × σ) (data : σ) (fuel : Nat),
    (foreachEvent2 m first last (some (digestWalker m f g)) data fuel).Logs (OnEntries first es)

/-- An entry from which the walk does not stray: of its digests only the last may have
a size that the tools do not know, and if it has, what they then take for the length of the
entry leads to an entry or ends the walk. -/
structure KeepsPlace (first last : SizeT A) (es : List Event2) (a : SizeT A) (e : Event2) :
    Prop where
  sized : ∀ d ∈ e.digests.dropLast, d.Sized
  next : (∃ d ∈ e.digests, ¬d.Sized) → ∀ b,
    inRange last (a + BitVec.ofNat _ e.readLength) = some b → b ∈ starts Event2.encode first es

inductive Met (first last : SizeT A) (es : List Event2) : SizeT A → Event2 → Prop
  | first {e} (he : (first, e) ∈ located Event2.encode first es) : Met first last es first e
  | next {a e b e'} (h : Met first last es a e)
      (hb : inRange last (a + BitVec.ofNat _ e.readLength) = some b)
      (he : (b, e') ∈ located Event2.encode first es) : Met first last es b e'

theorem Digest2.Plausible.sized_or {d : Digest2} (h : d.Plausible) :
    d.Sized ∨ d.readLength = 2 := by
  cases hid : HashAlg.ofId? d.algorithmId with
  | none => exact .inr (by simp [readLength, getAlgSize, hid])
  | some alg =>
    have halg : alg.id = d.algorithmId := by simpa using List.find?_some hid
    refine .inl ?_
    rw [Sized, ← halg, getAlgSize_id]
    exact h alg halg.symm

theorem Digest2.Plausible.readLength_le {d : Digest2} (h : d.Plausible) :
    d.readLength ≤ d.encode.length := by
  rcases h.sized_or with hsized | htwo
  · exact Nat.le_of_eq hsized.length_encode.symm
  · rw [htwo, encode, List.length_append, length_toLE]
    exact Nat.le_add_right _ _

section Digests

variable {A : Arch} {m : Memory A.bits} {p : SizeT A} {d : Digest2} {ds : List Digest2}
  {ys : List UInt8}

theorem Digest2.Plausible.toNat_next (hsize : d.Plausible) (h : m.Laid p (d.encode ++ ys))
    (hys : ys ≠ []) : (p + BitVec.ofNat _ d.readLength).toNat = p.toNat + d.readLength := by
  have hle := hsize.readLength_le
  have hpos := List.length_pos_of_ne_nil hys
  have hfits := h.fits
  rw [List.length_append] at hfits
  apply toNat_add_ofNat
  omega

theorem Digest2.Plausible.sized_of_next (hsize : d.Plausible)
    (hout : d.readLength = 0 ∨ d.encode.length ≤ d.readLength) : d.Sized := by
  rcases hsize.sized_or with hsized | htwo
  · exact hsized
  · rw [Digest2.encode, List.length_append, length_toLE] at hout
    rw [Digest2.Sized]
    rw [Digest2.readLength] at htwo hout
    omega

theorem sized_of_digestsAt {D : SizeT A → Prop} (hsizes : ∀ d ∈ ds, d.Plausible)
    (h : m.Laid p (ds.flatMap Digest2.encode ++ ys)) (hys : ys ≠ [])
    (hD : ∀ q ∈ digestsAt m ds.length p, D q)
    (hinside : ∀ q d, (q, d) ∈ located Digest2.encode p ds → ∀ x, D x →
      x.toNat ≤ q.toNat ∨ q.toNat + d.encode.length ≤ x.toNat) :
    ∀ d ∈ ds.dropLast, d.Sized := by
  induction ds generalizing p with
  | nil => simp
  | cons d ds ih =>
    rw [List.flatMap_cons, List.append_assoc] at h
    cases ds with
    | nil => simp
    | cons d' ds =>
      have hne := List.append_ne_nil_of_right_ne_nil ((d' :: ds).flatMap Digest2.encode) hys
      have hsize := hsizes d (List.mem_cons_self ..)
      have htoNat := hsize.toNat_next h hne
      rw [List.length_cons, digestsAt, if_neg h.ne_zero, digestExtent_of_holds h.holds] at hD
      have hd : d.Sized := by
        apply hsize.sized_of_next
        have hnext : p + BitVec.ofNat _ d.readLength ≠ 0#A.bits := by
          apply ne_zero_of_toNat_pos
          rw [htoNat]
          exact Nat.add_pos_left (BitVec.toNat_pos_of_ne_zero h.ne_zero) _
        have hout := hinside p d (List.mem_cons_self ..) (p + BitVec.ofNat _ d.readLength) (by
          apply hD
          rw [List.length_cons, digestsAt, if_neg hnext]
          exact List.mem_cons_of_mem _ (List.mem_cons_self ..))
        omega
      have hrest := ih (fun x hx => hsizes x (List.mem_cons_of_mem _ hx)) (h.right hne)
        (fun q hq => hD q (by
          rw [← hd.length_encode]
          exact List.mem_cons_of_mem _ hq))
        fun q x hx => hinside q x (List.mem_cons_of_mem _ hx)
      intro x hx
      rcases List.mem_cons.mp hx with rfl | hx
      · exact hd
      · exact hrest x hx

end Digests

section Entries

variable {A : Arch} {m : Memory A.bits} {first last a : SizeT A} {es : List Event2} {e : Event2}

theorem laid_of_entry (hlaid : m.Laid first (es.flatMap Event2.encode))
    (he : (a, e) ∈ located Event2.encode first es) : e ∈ es ∧ ∃ ys, m.Laid a (e.encode ++ ys) := by
  obtain ⟨hmem, ys, hentry, _⟩ := laid_of_mem_located Event2.encode_ne_nil hlaid he
  exact ⟨hmem, ys, hentry⟩

theorem digest_in_entry {ys : List UInt8} (h : m.Laid a (e.encode ++ ys)) {q : SizeT A}
    {d : Digest2} (hd : (q, d) ∈ located Digest2.encode (a + BitVec.ofNat _ 12) e.digests) :
    a.toNat ≤ q.toNat ∧ q.toNat + d.encode.length ≤ a.toNat + e.encode.length := by
  obtain ⟨hdigests, htoNat⟩ := laid_digests h
  obtain ⟨_, _, _, hlo, hhi⟩ := laid_of_mem_located Digest2.encode_ne_nil hdigests.left hd
  rw [Event2.length_encode]
  omega

theorem digestStarts_disjoint (hlaid : m.Laid first (es.flatMap Event2.encode))
    (he : (a, e) ∈ located Event2.encode first es) {q x : SizeT A} {d : Digest2}
    (hd : (q, d) ∈ located Digest2.encode (a + BitVec.ofNat _ 12) e.digests)
    (hx : x ∈ digestStarts first es) :
    x.toNat ≤ q.toNat ∨ q.toNat + d.encode.length ≤ x.toNat := by
  obtain ⟨⟨a', e'⟩, he', hx⟩ := List.mem_flatMap.mp hx
  obtain ⟨d', hd'⟩ := mem_starts_iff.mp hx
  obtain ⟨_, _, hentry⟩ := laid_of_entry hlaid he
  obtain ⟨_, _, hentry'⟩ := laid_of_entry hlaid he'
  have hin := digest_in_entry hentry hd
  have hin' := digest_in_entry hentry' hd'
  rcases located_disjoint Event2.encode_ne_nil hlaid he he' with heq | hbefore | hbehind
  · obtain ⟨rfl, rfl⟩ := Prod.mk.inj heq
    have hdigests := (laid_digests hentry).1.left
    rcases located_disjoint Digest2.encode_ne_nil hdigests hd hd' with heq | hbefore | hbehind
    · exact .inl (Nat.le_of_eq (congrArg BitVec.toNat (Prod.mk.inj heq).1.symm))
    · exact .inr hbefore
    · exact .inl (Nat.le_trans (Nat.le_add_right _ _) hbehind)
  · exact .inr (by omega)
  · exact .inl (by omega)

theorem KeepsPlace.digestsOf_subset (hlaid : m.Laid first (es.flatMap Event2.encode))
    (he : (a, e) ∈ located Event2.encode first es) (h : KeepsPlace first last es a e) :
    ∀ q ∈ digestsOf m a, q ∈ digestStarts first es := by
  obtain ⟨_, _, hentry⟩ := laid_of_entry hlaid he
  rw [(digests_of_laid h.sized hentry).1]
  intro q hq
  exact List.mem_flatMap.mpr ⟨(a, e), he, hq⟩

theorem KeepsPlace.next_mem_starts (hlaid : m.Laid first (es.flatMap Event2.encode))
    (hlast : (starts Event2.encode first es).getLast? = some last)
    (he : (a, e) ∈ located Event2.encode first es) (h : KeepsPlace first last es a e)
    {b : SizeT A} (hb : inRange last (a + BitVec.ofNat _ e.readLength) = some b) :
    b ∈ starts Event2.encode first es := by
  by_cases hsized : ∃ d ∈ e.digests, ¬d.Sized
  · exact h.next hsized b hb
  · simp only [not_exists, not_and, not_not] at hsized
    rw [Event2.readLength_of_sized hsized] at hb
    obtain ⟨rfl, hrange⟩ := inRange_eq_some_iff.mp hb
    rcases end_of_mem_located he with hstart | hend
    · exact hstart
    · rw [hend] at hrange
      exact absurd hrange (past_last_start hlaid hlast)

theorem event2Next_of_sized (hsizes : ∀ d ∈ e.digests, d.Plausible)
    (hsized : ∀ d ∈ e.digests.dropLast, d.Sized) {ys : List UInt8}
    (h : m.Laid a (e.encode ++ ys)) :
    event2Next m last a = inRange last (a + BitVec.ofNat _ e.readLength) := by
  rw [event2Next, event2Extent_of_laid hsized (fun d hd => (hsizes d hd).readLength_le) h]

theorem sized_of_digestsOf (hlaid : m.Laid first (es.flatMap Event2.encode))
    (hsizes : ∀ e ∈ es, ∀ d ∈ e.digests, d.Plausible)
    (he : (a, e) ∈ located Event2.encode first es)
    (h : ∀ q ∈ digestsOf m a, q ∈ digestStarts first es) :
    ∀ d ∈ e.digests.dropLast, d.Sized := by
  obtain ⟨hmem, ys, hentry⟩ := laid_of_entry hlaid he
  have hne := e.encodeEvent_append_ne_nil ys
  rw [digestsOf, digestCount_of_holds hentry.holds] at h
  apply sized_of_digestsAt (hsizes e hmem) (laid_digests hentry).1 hne h
  intro q d hd x hx
  exact digestStarts_disjoint hlaid he hd hx

theorem of_staysOnEntries (h : StaysOnEntries m first last es) (hlast : last ≠ 0#A.bits)
    (hfirst : first ≤ last ∧ first ≠ 0#A.bits) (ha : Reaches (event2Next m last) first a) :
    a ∈ starts Event2.encode first es ∧ ∀ q ∈ digestsOf m a, q ∈ digestStarts first es := by
  have hruns := h Unit (fun _ _ => (true, ())) (fun _ _ => (true, ())) ()
  simp only [foreachEvent2_of_ne_zero hfirst.2 hlast] at hruns
  obtain ⟨⟨⟩, hreach⟩ := eventRound_reaches
    (digestWalker m (fun _ _ => (true, ())) fun _ _ => (true, ())) (fun _ _ => rfl) ha hfirst ()
  obtain ⟨hle, hne⟩ := reaches_in_range ha hfirst
  obtain ⟨hentry, hwalker, _⟩ :=
    (eventRound_logs_iff hle hne).mp (Loop.run_logs_iff.mp hruns _ hreach)
  refine ⟨hentry, ?_⟩
  intro q hq
  apply (Trace.logs_bind_iff.mp hwalker).1 (.digest q)
  rw [foreachDigest2, member_of_span span_digestCount, addressOf_of_span span_digests]
  exact digest_mem_digestLoop (fun _ _ => rfl) a hq ()

theorem reaches_of_met (hlaid : m.Laid first (es.flatMap Event2.encode))
    (hsizes : ∀ e ∈ es, ∀ d ∈ e.digests, d.Plausible)
    (h : ∀ a, Reaches (event2Next m last) first a → ∀ q ∈ digestsOf m a, q ∈ digestStarts first es)
    (hmet : Met first last es a e) :
    (a, e) ∈ located Event2.encode first es ∧ Reaches (event2Next m last) first a := by
  induction hmet with
  | first he => exact ⟨he, .refl⟩
  | @next a e b e' _ hb he' ih =>
    obtain ⟨he, hreach⟩ := ih
    obtain ⟨hmem, _, hentry⟩ := laid_of_entry hlaid he
    have hsized := sized_of_digestsOf hlaid hsizes he (h a hreach)
    refine ⟨he', hreach.tail ?_⟩
    rw [Option.mem_def, event2Next_of_sized (hsizes e hmem) hsized hentry]
    exact hb

theorem met_of_reaches (hlaid : m.Laid first (es.flatMap Event2.encode))
    (hlast : (starts Event2.encode first es).getLast? = some last)
    (hsizes : ∀ e ∈ es, ∀ d ∈ e.digests, d.Plausible)
    (h : ∀ a e, Met first last es a e → KeepsPlace first last es a e)
    (ha : Reaches (event2Next m last) first a) :
    ∃ e, (a, e) ∈ located Event2.encode first es ∧ Met first last es a e := by
  induction ha with
  | refl =>
    cases es with
    | nil => cases hlast
    | cons e es => exact ⟨e, List.mem_cons_self .., .first (List.mem_cons_self ..)⟩
  | @tail a b _ hstep ih =>
    obtain ⟨e, he, hmet⟩ := ih
    obtain ⟨hmem, _, hentry⟩ := laid_of_entry hlaid he
    have hkeeps := h a e hmet
    rw [Option.mem_def, event2Next_of_sized (hsizes e hmem) hkeeps.sized hentry] at hstep
    obtain ⟨e', he'⟩ := mem_starts_iff.mp (hkeeps.next_mem_starts hlaid hlast he hstep)
    exact ⟨e', he', .next hmet hstep he'⟩

theorem KeepsPlace.round_logs {callback : Callback A σ}
    (hlaid : m.Laid first (es.flatMap Event2.encode))
    (he : (a, e) ∈ located Event2.encode first es) (h : KeepsPlace first last es a e)
    (hle : a ≤ last) (hne : a ≠ 0#A.bits)
    (hcallback : ∀ s, (callback a s).Logs (OnEntries first es)) (s : σ) :
    (eventRound m last callback (a, s)).Logs (OnEntries first es) := by
  rw [eventRound_logs_iff hle hne]
  exact ⟨mem_starts_iff.mpr ⟨e, he⟩, hcallback s,
    fun _ => getNextEvent_logs (fun _ _ => trivial) (h.digestsOf_subset hlaid he)⟩

theorem staysOnEntries_iff (hsizes : ∀ e ∈ es, ∀ d ∈ e.digests, d.Plausible)
    (hlaid : m.Laid first (es.flatMap Event2.encode))
    (hlast : (starts Event2.encode first es).getLast? = some last) :
    StaysOnEntries m first last es ↔
      ∀ a e, Met first last es a e → KeepsPlace first last es a e := by
  have hstart : first ∈ starts Event2.encode first es := by
    cases es with
    | nil => cases hlast
    | cons e es => exact List.mem_cons_self ..
  have hfirst : first ≤ last ∧ first ≠ 0#A.bits :=
    ⟨le_last_start Event2.encode_ne_nil hlaid hlast hstart, hlaid.ne_zero⟩
  have hne : last ≠ 0#A.bits := last_ne_zero hlaid hlast
  constructor
  · intro hstays a e hmet
    have hall (b : SizeT A) (hb : Reaches (event2Next m last) first b) :=
      of_staysOnEntries hstays hne hfirst hb
    obtain ⟨he, hreach⟩ := reaches_of_met hlaid hsizes (fun b hb => (hall b hb).2) hmet
    obtain ⟨hmem, _, hentry⟩ := laid_of_entry hlaid he
    have hsized := sized_of_digestsOf hlaid hsizes he (hall a hreach).2
    refine ⟨hsized, ?_⟩
    intro _ b hb
    apply (hall b (hreach.tail _)).1
    rw [Option.mem_def, event2Next_of_sized (hsizes e hmem) hsized hentry]
    exact hb
  · intro hkeeps σ f g data fuel
    rw [foreachEvent2_of_ne_zero hfirst.2 hne]
    revert fuel
    rw [Loop.run_logs_iff]
    rintro ⟨a, s⟩ hreach
    by_cases ha : a ≤ last ∧ a ≠ 0#A.bits
    · obtain ⟨e, he, hmet⟩ :=
        met_of_reaches hlaid hlast hsizes hkeeps (reaches_of_eventRound hreach ha)
      have hkeep := hkeeps a e hmet
      apply hkeep.round_logs hlaid he ha.1 ha.2
      intro s
      refine Trace.Logs.bind ?_ (Trace.logs_pure _ _)
      exact foreachDigest2_logs (fun _ _ => trivial) (fun _ _ => Trace.logs_pure _ _)
        (hkeep.digestsOf_subset hlaid he) s
    · rw [eventRound_of_past _ ha]
      simp [Trace.Logs]

end Entries

def sha3Measured : Event2 where
  pcrIndex := 0
  eventType := 0x4
  digests := [⟨0x0027, List.replicate 32 0xbb⟩, ⟨HashAlg.sha1.id, List.replicate 20 0xaa⟩]
  event := [4, 5]
  digests_lt := by decide
  event_lt := by decide

def sha3Log : Memory Arch.x86_64.bits := holding 4096 ([sha3Measured].flatMap Event2.encode)

theorem sha3Log_laid : sha3Log.Laid 4096 ([sha3Measured].flatMap Event2.encode) :=
  ⟨holds_holding _ (by decide), by decide, by decide⟩

theorem sha3Measured_sizes : ∀ e ∈ [sha3Measured], ∀ d ∈ e.digests, d.Plausible := by
  intro e he d hd h hid
  obtain rfl := List.mem_singleton.mp he
  rcases List.mem_pair.mp hd with rfl | rfl
  · cases h <;> cases hid
  · cases h <;> first | rfl | cases hid

theorem staysOnEntries_sha3 :
    StaysOnEntries sha3Log 4096 4096 [sha3Measured] ↔
      ∀ (a : SizeT .x86_64) (e : Event2), Met 4096 4096 [sha3Measured] a e →
        KeepsPlace 4096 4096 [sha3Measured] a e :=
  staysOnEntries_iff sha3Measured_sizes sha3Log_laid rfl

theorem sha3Log_strays :
    (∀ e ∈ [sha3Measured], ∀ d ∈ e.digests, d.Plausible) ∧
      sha3Log.Laid 4096 ([sha3Measured].flatMap Event2.encode) ∧
      ¬StaysOnEntries sha3Log 4096 4096 [sha3Measured] := by
  refine ⟨sha3Measured_sizes, sha3Log_laid, ?_⟩
  intro hstays
  have hdigests := (of_staysOnEntries hstays (by decide) (by decide) .refl).2
  have hinside : (4110 : SizeT .x86_64) ∈ digestsOf sha3Log 4096 := by decide +kernel
  have hoff : (4110 : SizeT .x86_64) ∉ digestStarts 4096 [sha3Measured] := by decide +kernel
  exact hoff (hdigests 4110 hinside)

end TctiUefi.EventLog
