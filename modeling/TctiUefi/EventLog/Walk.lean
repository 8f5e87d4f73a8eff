import TctiUefi.EventLog.Format
import TctiUefi.Lib.Loop

namespace TctiUefi.EventLog

def getNextDigest (m : Memory A.bits) (digest : SizeT A) : Trace (LogEffect A) (SizeT A) := do
  let algorithmId ← member m digest2 digest .algorithmId
  pure (addressOf digest2 digest .digest + BitVec.ofNat _ (getAlgSize (UInt16.ofNat algorithmId)))

def sizeofDigest2 (m : Memory A.bits) (digest : SizeT A) : Trace (LogEffect A) (SizeT A) := do
  let algorithmId ← member m digest2 digest .algorithmId
  pure (BitVec.ofNat _ (Layout.sizeof digest2) +
    BitVec.ofNat _ (getAlgSize (UInt16.ofNat algorithmId)))

abbrev Callback (A : Arch) (σ : Type) := SizeT A → σ → Trace (LogEffect A) (Bool × σ)

/-- The loop of `foreach_digest2`.  `left` is `DigestCount - i`: the count is read again
before every round, but nothing writes to the log in between. -/
def digestLoop (m : Memory A.bits) (eventHdr : SizeT A) (callback : Callback A σ) :
    Nat → SizeT A → σ → Trace (LogEffect A) (Bool × σ)
  | 0, _, data => do
    let _ ← member m eventHeader2 eventHdr .digestCount
    pure (true, data)
  | left + 1, digest, data => do
    let _ ← member m eventHeader2 eventHdr .digestCount
    if digest = 0#A.bits then
      pure (true, data)
    else
      Trace.tell (.digest digest)
      let r ← callback digest data
      if r.1 then
        let next ← getNextDigest m digest
        digestLoop m eventHdr callback left next r.2
      else
        pure (false, r.2)

def foreachDigest2 (m : Memory A.bits) (eventHdr : SizeT A) (callback : Callback A σ) (data : σ) :
    Trace (LogEffect A) (Bool × σ) :=
  digestLoop m eventHdr callback (member m eventHeader2 eventHdr .digestCount).val
    (addressOf eventHeader2 eventHdr .digests) data

/-- The data are a pointer to a `size_t`, which may be `NULL`. -/
def digest2AccumulatorCallback (m : Memory A.bits) : Callback A (Option (SizeT A)) :=
  fun digest data =>
    match data with
    | none => pure (false, none)
    | some size => do
      let n ← sizeofDigest2 m digest
      pure (true, some (size + n))

def getNextEvent (m : Memory A.bits) (eventHdr : SizeT A) : Trace (LogEffect A) (SizeT A) := do
  let r ← foreachDigest2 m eventHdr (digest2AccumulatorCallback m) (some 0#A.bits)
  if r.1 then
    let event := addressOf eventHeader2 eventHdr .digests + r.2.getD 0#A.bits
    let eventSize ← member m event2 event .eventSize
    pure (addressOf event2 event .event + BitVec.ofNat _ eventSize)
  else
    pure 0#A.bits

def eventRound (m : Memory A.bits) (eventLast : SizeT A) (callback : Callback A σ)
    (s : SizeT A × σ) : Trace (LogEffect A) ((SizeT A × σ) ⊕ (Bool × σ)) :=
  if s.1 ≤ eventLast ∧ s.1 ≠ 0#A.bits then do
    Trace.tell (.event s.1)
    let r ← callback s.1 s.2
    if r.1 then
      let next ← getNextEvent m s.1
      pure (.inl (next, r.2))
    else
      pure (.inr (false, r.2))
  else
    pure (.inr (true, s.2))

/-- The last argument bounds the number of rounds. -/
def foreachEvent2 (m : Memory A.bits) (eventFirst eventLast : SizeT A)
    (callback : Option (Callback A σ)) (data : σ) (fuel : Nat) :
    Trace (LogEffect A) (Option (Bool × σ)) :=
  match callback with
  | none => pure (some (false, data))
  | some callback =>
    if eventFirst = 0#A.bits ∨ eventLast = 0#A.bits then
      pure (some (false, data))
    else
      Loop.run (eventRound m eventLast callback) fuel (eventFirst, data)

def visits (t : Trace (LogEffect A) α) : List (SizeT A) := t.log.filterMap LogEffect.event?

section Logs

variable {m : Memory A.bits} {P : LogEffect A → Prop}

theorem member_logs (hread : ∀ start len, P (.read start len))
    (layout : List (Layout.Member LogMember)) (p : SizeT A) (x : LogMember) :
    (member m layout p x).Logs P :=
  (Trace.logs_tell (hread _ _)).bind (Trace.logs_pure _ _)

end Logs

end TctiUefi.EventLog
