import TctiUefi.EventLog.Laid
import TctiUefi.EventLog.Successor

namespace TctiUefi.EventLog

open Memory

section Walk

variable {m : Memory A.bits} {σ : Type} {f : SizeT A → σ → Bool × σ} {a last : SizeT A} {s : σ}

theorem trail_of_laid {es : List Event2} (hes : es ≠ [])
    (hknown : ∀ e ∈ es, ∀ d ∈ e.digests, d.Known) (hlaid : m.Laid a (es.flatMap Event2.encode))
    (hlast : ∀ p ∈ starts Event2.encode a es, p ≤ last)
    (hend : ¬(a + BitVec.ofNat _ (es.flatMap Event2.encode).length ≤ last ∧
      a + BitVec.ofNat _ (es.flatMap Event2.encode).length ≠ 0#A.bits)) :
    Trail (event2Next m last) a (starts Event2.encode a es) := by
  induction es generalizing a with
  | nil => exact absurd rfl hes
  | cons e es ih =>
    rw [List.flatMap_cons] at hlaid
    have hextent := event2Extent_of_known (hknown e (List.mem_cons_self ..)) hlaid
    rw [List.flatMap_cons, List.length_append, ← add_ofNat_add] at hend
    rw [starts_cons]
    by_cases hnil : es = []
    · subst hnil
      apply Trail.stop
      rw [event2Next, hextent, inRange_eq_none_iff]
      simpa using hend
    · have htail := Laid.tail Event2.encode_ne_nil hlaid hnil
      have hle : a + BitVec.ofNat _ e.encode.length ≤ last := by
        cases es with
        | nil => exact absurd rfl hnil
        | cons e' es => exact hlast _ (List.mem_cons_of_mem _ (List.mem_cons_self ..))
      refine .step (b := a + BitVec.ofNat _ e.encode.length) ?_ ?_
      · rw [event2Next_eq_some_iff, hextent]
        exact ⟨rfl, hle, htail.ne_zero⟩
      · exact ih hnil (fun e' he' => hknown e' (List.mem_cons_of_mem _ he')) htail
          (fun p hp => hlast p (List.mem_cons_of_mem _ hp)) hend

theorem getNextEvent_reads {es : List Event2} (hknown : ∀ e ∈ es, ∀ d ∈ e.digests, d.Known)
    (hlaid : m.Laid a (es.flatMap Event2.encode)) (hp : p ∈ starts Event2.encode a es) :
    (getNextEvent m p).Logs
      (LogEffect.Within a.toNat (a.toNat + (es.flatMap Event2.encode).length)) := by
  obtain ⟨e, he, ys, hlaid', hlo, hhi⟩ := laid_of_mem_starts Event2.encode_ne_nil hlaid hp
  have hreads := readSet_getNextEvent (m := m) p
  rw [event2Extent_of_known (hknown e he) hlaid'] at hreads
  have hfits := hlaid'.left.fits
  exact within_of_subset hreads hfits hlo hhi

theorem evals_of_laid {es : List Event2} (hes : es ≠ [])
    (hknown : ∀ e ∈ es, ∀ d ∈ e.digests, d.Known) (hlaid : m.Laid a (es.flatMap Event2.encode))
    (hlast : ∀ p ∈ starts Event2.encode a es, p ≤ last)
    (hend : ¬(a + BitVec.ofNat _ (es.flatMap Event2.encode).length ≤ last ∧
      a + BitVec.ofNat _ (es.flatMap Event2.encode).length ≠ 0#A.bits)) :
    ∃ t, Loop.Evals (eventRound m last (pureCallback f)) (a, s) t ∧
      t.val = ((feed f (starts Event2.encode a es) s).ok,
        (feed f (starts Event2.encode a es) s).state) ∧
      visits t = (feed f (starts Event2.encode a es) s).taken ∧
      t.Logs (LogEffect.Within a.toNat (a.toNat + (es.flatMap Event2.encode).length)) := by
  have hle : a ≤ last := by
    cases es with
    | nil => exact absurd rfl hes
    | cons e es => exact hlast a (List.mem_cons_self ..)
  apply evals_of_trail (trail_of_laid hes hknown hlaid hlast hend) hle hlaid.ne_zero
  intro p hp
  exact ⟨trivial, getNextEvent_reads hknown hlaid hp⟩

/-- Beyond the start of the final entry there is only the end of the log, which may be the
end of the memory. -/
theorem past_last_start {es : List Event2} (hlaid : m.Laid a (es.flatMap Event2.encode))
    (hlast : (starts Event2.encode a es).getLast? = some last) :
    ¬(a + BitVec.ofNat _ (es.flatMap Event2.encode).length ≤ last ∧
      a + BitVec.ofNat _ (es.flatMap Event2.encode).length ≠ 0#A.bits) := by
  rintro ⟨hle, hne⟩
  have hmem := mem_starts Event2.encode_ne_nil hlaid (List.mem_of_getLast? hlast)
  have hlt : a.toNat + (es.flatMap Event2.encode).length < 2 ^ A.bits := by
    apply Nat.lt_of_le_of_ne hlaid.fits
    intro heq
    apply hne
    apply BitVec.eq_of_toNat_eq
    have hmod := Nat.add_mod_mod a.toNat (es.flatMap Event2.encode).length (2 ^ A.bits)
    rw [BitVec.toNat_add, BitVec.toNat_ofNat, hmod, heq, Nat.mod_self]
    simp
  rw [BitVec.le_def, toNat_add_ofNat hlt] at hle
  omega

theorem last_ne_zero {es : List Event2} (hlaid : m.Laid a (es.flatMap Event2.encode))
    (hlast : (starts Event2.encode a es).getLast? = some last) : last ≠ 0#A.bits := by
  have hmem := mem_starts Event2.encode_ne_nil hlaid (List.mem_of_getLast? hlast)
  exact ne_zero_of_le hmem.1 hlaid.ne_zero

theorem foreachEvent2_encode {es : List Event2} (hknown : ∀ e ∈ es, ∀ d ∈ e.digests, d.Known)
    (hlaid : m.Laid a (es.flatMap Event2.encode))
    (hlast : (starts Event2.encode a es).getLast? = some last)
    (f : SizeT A → σ → Bool × σ) (data : σ) :
    ∃ t, Halts (foreachEvent2 m a last (some (pureCallback f)) data) t ∧
      t.val = ((feed f (starts Event2.encode a es) data).ok,
        (feed f (starts Event2.encode a es) data).state) ∧
      visits t = (feed f (starts Event2.encode a es) data).taken ∧
      t.Logs (LogEffect.Within a.toNat (a.toNat + (es.flatMap Event2.encode).length)) := by
  have hes : es ≠ [] := by
    rintro rfl
    cases hlast
  obtain ⟨t, hevals, hspec⟩ := evals_of_laid (f := f) (s := data) hes hknown hlaid
    (fun p hp => le_last_start Event2.encode_ne_nil hlaid hlast hp) (past_last_start hlaid hlast)
  exact ⟨t, foreachEvent2_of_evals hlaid.ne_zero (last_ne_zero hlaid hlast) hevals, hspec⟩

end Walk

def measured (pcrIndex : UInt32) : Event2 where
  pcrIndex := pcrIndex
  eventType := 0x4
  digests := [⟨HashAlg.sha1.id, List.replicate 20 0xaa⟩]
  event := [1, 2, 3]
  digests_lt := by decide
  event_lt := by decide

theorem measured_known (pcrIndex : UInt32) : ∀ d ∈ (measured pcrIndex).digests, d.Known := by
  intro d hd
  rw [List.mem_singleton.mp hd]
  exact ⟨.sha1, rfl, rfl⟩

theorem foreachEvent2_encode_two :
    ∃ t, Halts (foreachEvent2
        (holding 4096 ([measured 0, measured 7].flatMap Event2.encode) : Memory Arch.x86_64.bits)
        4096 4137 (some (pureCallback fun p n => (p != 4137, n + 1))) 0) t ∧
      t.val = (false, 2) ∧ visits t = [4096, 4137] ∧
      t.Logs (LogEffect.Within 4096 4178) :=
  foreachEvent2_encode (a := 4096) (fun e he => by
      rcases List.mem_pair.mp he with rfl | rfl <;> exact measured_known _)
    ⟨holds_holding _ (by decide), by decide, by decide⟩ (by decide)
    (fun p n => (p != 4137, n + 1)) 0

end TctiUefi.EventLog
