import TctiUefi.Efi
import TctiUefi.Pcr.Selection

namespace TctiUefi.Pcr

structure Tpm2bDigest where
  size : UInt16
  buffer : Buffer

structure TpmlDigest where
  count : UInt32
  digests : Nat → Tpm2bDigest

inductive PcrEffect
  | print (p : Print)
  | digest (i : Nat)
  | dumpHex (indent : Nat) (bytes : List UInt8)
  | pcrRead (request : TpmlPcrSelection)

structure CallbackData where
  digestI : Nat
  lastAlg : UInt16
  tpmlDigests : TpmlDigest
  pcrSelect : TpmlPcrSelection

def print (format : String) (args : List PrintArg) : Trace PcrEffect Unit :=
  Trace.tell (.print ⟨format, args⟩)

/-- The loop over the request: the PCR is taken out of every selection of its bank. -/
def deselect (pcrSelect : TpmlPcrSelection) (alg : UInt16) (pcr : UInt8) : TpmlPcrSelection where
  count := pcrSelect.count
  pcrSelections i :=
    let selection := pcrSelect.pcrSelections i
    if i < pcrSelect.count.toNat ∧ selection.hash = alg then
      { selection with pcrSelect := deselectPcr selection.pcrSelect pcr }
    else
      selection

/-- `digests [i]`, the only way in which the tool gets at a digest. -/
def TpmlDigest.digestAt (tpmlDigests : TpmlDigest) (i : Nat) : Trace PcrEffect Tpm2bDigest := do
  Trace.tell (.digest i)
  pure (tpmlDigests.digests i)

def selectedDigestCallback (alg : UInt16) (pcr : UInt8) (data : Option CallbackData) :
    Trace PcrEffect (Bool × Option CallbackData) :=
  match data with
  | none => do
    print "ERROR: cbdata cannot be NULL.\n" []
    pure (false, none)
  | some cbdata => do
    let digest ← cbdata.tpmlDigests.digestAt cbdata.digestI
    let digestI := cbdata.digestI + 1
    if getAlgSize alg ≠ digest.size.toNat then
      print "ERROR: algorithm and digest size disagre?\n" []
    if cbdata.lastAlg ≠ alg then
      print "PCR bank: %s\n" [.str (getAlgName alg)]
    print "  PCR: %u\n" [.int pcr.toNat]
    Trace.tell (.dumpHex 4 (digest.buffer.bytes digest.size.toNat))
    pure (digestI < cbdata.tpmlDigests.count.toNat,
      some { cbdata with
        digestI := digestI
        -- an assignment without effect when the bank is still the same
        lastAlg := alg
        pcrSelect := deselect cbdata.pcrSelect alg pcr })

structure PcrReply where
  rc : UInt32
  pcrSelectOut : TpmlPcrSelection
  tpmlDigests : TpmlDigest

/-- A TPM answers each round: it is given the request, and what the out parameter for
the selection holds from the round before. -/
abbrev Tpm := Nat → TpmlPcrSelection → TpmlPcrSelection → PcrReply

def zeroSelection : TpmlPcrSelection where
  count := 0
  pcrSelections := fun _ => ⟨0, 0, fun _ => 0⟩

def zeroDigests : TpmlDigest where
  count := 0
  digests := fun _ => ⟨0, fun _ => 0⟩

structure RoundState where
  round : Nat
  cbdata : CallbackData
  pcrSelectOut : TpmlPcrSelection

def startState (activeBanks : UInt32) : RoundState :=
  ⟨0, ⟨0, 0, zeroDigests, selectAllActivePcrs activeBanks zeroSelection⟩, zeroSelection⟩

/-- The body of the `do` loop.  The digests of the reply were zeroed before the call. -/
def readRound (tpm : Tpm) (s : RoundState) : Trace PcrEffect (RoundState ⊕ Nat) := do
  Trace.tell (.pcrRead s.cbdata.pcrSelect)
  let reply := tpm s.round s.cbdata.pcrSelect s.pcrSelectOut
  if reply.rc ≠ 0 then
    print "ERROR: Tss2_Sys_PCR_Read failed with RC: 0x%x\n" [.int reply.rc.toNat]
    pure (.inr 1)
  else
    let cbdata : CallbackData :=
      { s.cbdata with digestI := 0, tpmlDigests := reply.tpmlDigests }
    let data ← foreachSelection reply.pcrSelectOut selectedDigestCallback (some cbdata)
    let cbdata := data.getD cbdata
    if cbdata.tpmlDigests.count > 0 then
      pure (.inl ⟨s.round + 1, cbdata, reply.pcrSelectOut⟩)
    else
      pure (.inr 0)

/-- The last argument bounds the number of rounds. -/
def prettyprintPcrsAll (tpm : Tpm) (activeBanks : UInt32) (fuel : Nat) :
    Trace PcrEffect (Option Nat) :=
  Loop.run (readRound tpm) fuel (startState activeBanks)

end TctiUefi.Pcr
