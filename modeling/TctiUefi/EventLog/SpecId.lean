import TctiUefi.EventLog.RoundTrip

namespace TctiUefi.EventLog

open Memory

/-- The first 16 bytes of a Spec ID entry, taken for a crypto-agile entry without digests. -/
def specIdHead : Event2 where
  pcrIndex := 0
  eventType := evNoAction
  digests := []
  event := []
  digests_lt := by decide
  event_lt := by decide

def specIdTail (data : List UInt8) (h : data.length < 2 ^ 32) : Event2 where
  pcrIndex := 0
  eventType := 0
  digests := []
  event := data
  digests_lt := by decide
  event_lt := h

theorem specId_encode (data : List UInt8) (h : data.length < 2 ^ 32) :
    (specId data h).encode = specIdHead.encode ++ (specIdTail data h).encode := by
  have hzeros : List.replicate 20 (0 : UInt8) =
      toLE 4 0 ++ (toLE 4 0 ++ (toLE 4 0 ++ (toLE 4 0 ++ toLE 4 0))) := by decide
  simp only [PcrEvent.encode, specId, hzeros, Event2.encode, Event2.encodeHeader,
    Event2.encodeEvent, specIdHead, specIdTail, List.flatMap_nil, List.nil_append,
    List.append_assoc, List.length_nil, UInt32.toNat_zero, List.append_nil]

section SpecId

variable {m : Memory A.bits} {first last : SizeT A} {data : List UInt8} {h : data.length < 2 ^ 32}
  {later : List Event2}

def logStarts (first : SizeT A) (data : List UInt8) (h : data.length < 2 ^ 32)
    (later : List Event2) : List (SizeT A) :=
  first :: starts Event2.encode (first + BitVec.ofNat _ (specId data h).encode.length) later

theorem starts_specId (first : SizeT A) (data : List UInt8) (h : data.length < 2 ^ 32)
    (later : List Event2) :
    starts Event2.encode first (specIdHead :: specIdTail data h :: later) =
      first :: (first + 16#A.bits) ::
        starts Event2.encode (first + BitVec.ofNat _ (specId data h).encode.length) later := by
  have hhead : specIdHead.encode.length = 16 := by decide
  rw [starts_cons, starts_cons, add_ofNat_add, ← List.length_append, ← specId_encode, hhead]

theorem specId_known (hknown : ∀ e ∈ later, ∀ d ∈ e.digests, d.Known) :
    ∀ e ∈ specIdHead :: specIdTail data h :: later, ∀ d ∈ e.digests, d.Known := by
  intro e he d hd
  rcases List.mem_cons.mp he with rfl | he
  · cases hd
  rcases List.mem_cons.mp he with rfl | he
  · cases hd
  exact hknown e he d hd

/-- What the walker visits of a crypto-agile log: after the Spec ID entry an address inside
of it, unless the log has no other entry. -/
def visitedStarts (first : SizeT A) (data : List UInt8) (h : data.length < 2 ^ 32)
    (later : List Event2) : List (SizeT A) :=
  if later = [] then [first] else
    first :: (first + 16#A.bits) ::
      starts Event2.encode (first + BitVec.ofNat _ (specId data h).encode.length) later

theorem visitedStarts_eq_iff (first : SizeT A) (data : List UInt8) (h : data.length < 2 ^ 32)
    (later : List Event2) :
    visitedStarts first data h later = logStarts first data h later ↔ later = [] := by
  constructor
  · intro heq
    by_contra hne
    rw [visitedStarts, if_neg hne, logStarts] at heq
    have hlen := congrArg List.length heq
    simp only [List.length_cons] at hlen
    omega
  · intro hnil
    rw [visitedStarts, if_pos hnil, logStarts, hnil, starts_nil]

theorem foreachEvent2_specId {σ : Type} {f : SizeT A → σ → Bool × σ}
    (hf : ∀ p s, (f p s).1 = true) (hknown : ∀ e ∈ later, ∀ d ∈ e.digests, d.Known)
    (hlaid : m.Laid first ((specId data h).encode ++ later.flatMap Event2.encode))
    (hlast : (logStarts first data h later).getLast? = some last) (s : σ) :
    ∃ t, Halts (foreachEvent2 m first last (some (pureCallback f)) s) t ∧
      visits t = visitedStarts first data h later := by
  have hall : m.Laid first ((specIdHead :: specIdTail data h :: later).flatMap Event2.encode) := by
    rw [List.flatMap_cons, List.flatMap_cons, ← List.append_assoc, ← specId_encode]
    exact hlaid
  have haccepts (es : List Event2) : (feed f (starts Event2.encode first es) s).taken =
      starts Event2.encode first es := feed_taken_of_accepting hf _ s
  by_cases hlater : later = []
  · have hfirst : first = last := by simpa [logStarts, hlater] using hlast
    subst hfirst
    have hhead : m.Laid first ([specIdHead].flatMap Event2.encode) := by
      rw [List.flatMap_cons] at hall ⊢
      rw [List.flatMap_nil, List.append_nil]
      exact hall.left
    have hheadKnown : ∀ e ∈ [specIdHead], ∀ d ∈ e.digests, d.Known := by
      intro e he d hd
      rw [List.mem_singleton.mp he] at hd
      cases hd
    obtain ⟨t, hevals, _, hvisits, _⟩ := evals_of_laid (f := f) (s := s)
      (List.cons_ne_nil _ _) hheadKnown hhead (by simp) (past_last_start hhead rfl)
    refine ⟨t, foreachEvent2_of_evals hlaid.ne_zero hlaid.ne_zero hevals, ?_⟩
    rw [hvisits, haccepts, visitedStarts, if_pos hlater]
    rfl
  · have hlast' : (starts Event2.encode first
        (specIdHead :: specIdTail data h :: later)).getLast? = some last := by
      rw [starts_specId]
      cases later with
      | nil => exact absurd rfl hlater
      | cons e es => exact hlast
    obtain ⟨t, hevals, _, hvisits, _⟩ := evals_of_laid (f := f) (s := s)
      (List.cons_ne_nil _ _) (specId_known hknown) hall
      (fun p hp => le_last_start Event2.encode_ne_nil hall hlast' hp) (past_last_start hall hlast')
    refine ⟨t, foreachEvent2_of_evals hlaid.ne_zero (last_ne_zero hall hlast') hevals, ?_⟩
    rw [hvisits, haccepts, starts_specId, visitedStarts, if_neg hlater]

theorem specId_walk_iff {σ : Type} {f : SizeT A → σ → Bool × σ} (hf : ∀ p s, (f p s).1 = true)
    (hknown : ∀ e ∈ later, ∀ d ∈ e.digests, d.Known)
    (hlaid : m.Laid first ((specId data h).encode ++ later.flatMap Event2.encode))
    (hlast : (logStarts first data h later).getLast? = some last) (s : σ) :
    (∃ t, Halts (foreachEvent2 m first last (some (pureCallback f)) s) t ∧
      visits t = visitedStarts first data h later) ∧
    ((∃ t, Halts (foreachEvent2 m first last (some (pureCallback f)) s) t ∧
      visits t = logStarts first data h later) ↔ later = []) := by
  obtain ⟨t, hhalts, hvisits⟩ := foreachEvent2_specId hf hknown hlaid hlast s
  refine ⟨⟨t, hhalts, hvisits⟩, ?_⟩
  rw [← visitedStarts_eq_iff first data h, ← hvisits]
  constructor
  · rintro ⟨t', hhalts', hvisits'⟩
    rw [hhalts.unique hhalts', hvisits']
  · intro heq
    exact ⟨t, hhalts, heq⟩

end SpecId

def specIdLog : Memory Arch.x86_64.bits :=
  holding 4096 ((specId [] (by decide)).encode ++ [measured 0].flatMap Event2.encode)

theorem specIdLog_laid : specIdLog.Laid 4096
    ((specId [] (by decide)).encode ++ [measured 0].flatMap Event2.encode) :=
  ⟨holds_holding _ (by decide), by decide, by decide⟩

theorem specIdLog_known : ∀ e ∈ [measured 0], ∀ d ∈ e.digests, d.Known := by
  intro e he
  rw [List.mem_singleton.mp he]
  exact measured_known 0

theorem specId_walk_short :
    (∃ t, Halts (foreachEvent2 specIdLog 4096 4128 (some (pureCallback fun _ n => (true, n + 1)))
        0) t ∧ visits t = [4096, 4112, 4128]) ∧
    ((∃ t, Halts (foreachEvent2 specIdLog 4096 4128 (some (pureCallback fun _ n => (true, n + 1)))
        0) t ∧ visits t = [4096, 4128]) ↔ [measured 0] = []) :=
  specId_walk_iff (fun _ _ => rfl) specIdLog_known specIdLog_laid rfl 0

theorem specId_walk_visits_digest :
    ¬∃ t, Halts (foreachEvent2 specIdLog 4096 4128 (some (pureCallback fun _ n => (true, n + 1)))
      0) t ∧ visits t = logStarts 4096 [] (by decide) [measured 0] := by
  rintro ⟨t, hhalts, hvisits⟩
  obtain ⟨t', hhalts', hvisits'⟩ := foreachEvent2_specId (f := fun _ n => (true, n + 1))
    (fun _ _ => rfl) specIdLog_known specIdLog_laid rfl 0
  rw [hhalts'.unique hhalts, hvisits] at hvisits'
  exact absurd ((visitedStarts_eq_iff _ _ _ _).mp hvisits'.symm) (List.cons_ne_nil _ _)

end TctiUefi.EventLog
