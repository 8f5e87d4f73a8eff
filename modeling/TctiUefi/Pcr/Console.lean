import TctiUefi.Pcr.Tool

namespace TctiUefi.Pcr

/-- What a reader of the console knows: the bank and the PCR named last, and the triples of
bank, PCR and digest seen so far. -/
structure Console where
  bank : String
  pcr : Nat
  shown : List (String × Nat × List UInt8)

namespace Console

def after (c : Console) : PcrEffect → Console
  | .print ⟨format, [.str name]⟩ =>
    if format = "PCR bank: %s\n" then { c with bank := name } else c
  | .print ⟨format, [.int pcr]⟩ =>
    if format = "  PCR: %u\n" then { c with pcr := pcr } else c
  | .print _ => c
  | .dumpHex _ bytes => { c with shown := c.shown ++ [(c.bank, c.pcr, bytes)] }
  | .digest _ => c
  | .pcrRead _ => c

def read (c : Console) (log : List PcrEffect) : Console := log.foldl after c

@[simp] theorem read_nil (c : Console) : c.read [] = c := rfl

@[simp] theorem read_append (c : Console) (xs ys : List PcrEffect) :
    c.read (xs ++ ys) = (c.read xs).read ys := List.foldl_append

def Agrees (c : Console) (lastAlg : UInt16) : Prop := lastAlg ≠ 0 → c.bank = getAlgName lastAlg

end Console

def printed (t : Trace PcrEffect α) : List (String × Nat × List UInt8) :=
  (Console.read ⟨"", 0, []⟩ t.log).shown

def CallbackData.advance (cbdata : CallbackData) (alg : UInt16) (pcr : UInt8) : CallbackData :=
  { cbdata with
    digestI := cbdata.digestI + 1
    lastAlg := alg
    pcrSelect := deselect cbdata.pcrSelect alg pcr }

def TpmlDigest.bytes (digests : TpmlDigest) (k : Nat) : List UInt8 :=
  (digests.digests k).buffer.bytes (digests.digests k).size.toNat

section Callback

variable {cbdata : CallbackData} {alg : UInt16} {pcr : UInt8} {c : Console}

theorem selectedDigestCallback_val (cbdata : CallbackData) (alg : UInt16) (pcr : UInt8) :
    (selectedDigestCallback alg pcr (some cbdata)).val =
      (decide (cbdata.digestI + 1 < cbdata.tpmlDigests.count.toNat),
        some (cbdata.advance alg pcr)) := by
  simp only [selectedDigestCallback, TpmlDigest.digestAt, Trace.val_bind, Trace.val_ite]
  split <;> split <;> rfl

theorem selectedDigestCallback_log (cbdata : CallbackData) (alg : UInt16) (pcr : UInt8) :
    (selectedDigestCallback alg pcr (some cbdata)).log =
      .digest cbdata.digestI ::
      ((if getAlgSize alg ≠ (cbdata.tpmlDigests.digests cbdata.digestI).size.toNat then
        [.print ⟨"ERROR: algorithm and digest size disagre?\n", []⟩] else []) ++
      ((if cbdata.lastAlg ≠ alg then
          [.print ⟨"PCR bank: %s\n", [.str (getAlgName alg)]⟩] else []) ++
        [.print ⟨"  PCR: %u\n", [.int pcr.toNat]⟩,
          .dumpHex 4 (cbdata.tpmlDigests.bytes cbdata.digestI)])) := by
  simp only [selectedDigestCallback, TpmlDigest.digestAt, Trace.log_bind, Trace.val_bind,
    Trace.val_pure]
  split <;> split <;> rfl

theorem selectedDigestCallback_read_eq (c : Console) (cbdata : CallbackData) (alg : UInt16)
    (pcr : UInt8) : c.read (selectedDigestCallback alg pcr (some cbdata)).log =
      (c.read (if cbdata.lastAlg ≠ alg then
        [.print ⟨"PCR bank: %s\n", [.str (getAlgName alg)]⟩] else [])).read
          [.print ⟨"  PCR: %u\n", [.int pcr.toNat]⟩,
            .dumpHex 4 (cbdata.tpmlDigests.bytes cbdata.digestI)] := by
  have herror : c.read (.digest cbdata.digestI ::
      if getAlgSize alg ≠ (cbdata.tpmlDigests.digests cbdata.digestI).size.toNat then
        [.print ⟨"ERROR: algorithm and digest size disagre?\n", []⟩] else []) = c := by
    split <;> rfl
  rw [selectedDigestCallback_log, ← List.cons_append, Console.read_append, herror,
    Console.read_append]

theorem selectedDigestCallback_read (pcr : UInt8)
    (hc : cbdata.lastAlg = alg → c.bank = getAlgName alg) :
    c.read (selectedDigestCallback alg pcr (some cbdata)).log =
      ⟨getAlgName alg, pcr.toNat,
        c.shown ++ [(getAlgName alg, pcr.toNat, cbdata.tpmlDigests.bytes cbdata.digestI)]⟩ := by
  have hbank : c.read (if cbdata.lastAlg ≠ alg then
      [.print ⟨"PCR bank: %s\n", [.str (getAlgName alg)]⟩] else []) =
        { c with bank := getAlgName alg } := by
    split
    · rfl
    · rename_i hlast
      rw [Console.read_nil, ← hc (Decidable.not_not.mp hlast)]
  rw [selectedDigestCallback_read_eq, hbank]
  rfl

end Callback

def advanceAll (alg : Nat → UInt16) (cbdata : CallbackData) (xs : List (Nat × Nat)) :
    CallbackData :=
  xs.foldl (fun cbdata x => cbdata.advance (alg x.1) (UInt8.ofNat x.2)) cbdata

section Callbacks

variable {alg : Nat → UInt16}

theorem tpmlDigests_advanceAll (alg : Nat → UInt16) (cbdata : CallbackData)
    (xs : List (Nat × Nat)) :
    (advanceAll alg cbdata xs).tpmlDigests = cbdata.tpmlDigests := by
  induction xs generalizing cbdata with
  | nil => rfl
  | cons x xs ih => exact ih _

theorem pcrSelect_advanceAll (alg : Nat → UInt16) (cbdata : CallbackData) (xs : List (Nat × Nat)) :
    (advanceAll alg cbdata xs).pcrSelect =
      xs.foldl (fun sel x => deselect sel (alg x.1) (UInt8.ofNat x.2)) cbdata.pcrSelect := by
  induction xs generalizing cbdata with
  | nil => rfl
  | cons x xs ih => exact ih _

end Callbacks

end TctiUefi.Pcr
