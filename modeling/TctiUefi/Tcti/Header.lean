import TctiUefi.Lib.Memory
import TctiUefi.Tcti.Init
import TctiUefi.Tcti.Run

namespace TctiUefi

/-- The size that a command or a response gives of itself, after the 16-bit tag of its header. -/
def sizeField (message : Buffer) : Nat := message.loadBE 2 4

structure WellFormedCommand (cmd : Buffer) (n : Nat) : Prop where
  header : tpm2HeaderSize ≤ n
  commandSize : sizeField cmd = n

def TakesIfFits (c : TctiUefiContext A) (n : SizeT A) (cmd : Buffer) : Prop :=
  (tctiUefiTransmit (some c) n (some cmd)).val = (.success, some (c.store cmd n.toNat)) ↔
    n.toNat ≤ c.size.toNat

section Transmit

variable {c : TctiUefiContext A} {n : SizeT A} {cmd : Buffer}

theorem transmit_short (c : TctiUefiContext A) (cmd : Buffer) (hshort : n.toNat ≤ tpm2HeaderSize) :
    (tctiUefiTransmit (some c) n (some cmd)).val.1 ≠ .success ∧
      (tctiUefiTransmit (some c) n (some cmd)).val.2 = some c := by
  rcases tctiUefiTransmit_cases (some c) n (some cmd) with
    ⟨c', cmd', _, _, haccepts⟩ | ⟨hrc, hcontext, _⟩
  · exact absurd haccepts.header (Nat.not_lt.mpr hshort)
  · exact ⟨hrc, hcontext⟩

theorem takesIfFits_of_long (hvalid : c.Valid) (hstate : c.state = .transmit)
    (hlong : tpm2HeaderSize < n.toNat) : TakesIfFits c n cmd := by
  constructor
  · intro htaken
    rcases tctiUefiTransmit_cases (some c) n (some cmd) with
      ⟨c', cmd', hc, _, haccepts⟩ | ⟨hrc, _, _⟩
    · rw [Option.some.inj hc]
      exact haccepts.fits
    · rw [htaken] at hrc
      exact absurd rfl hrc
  · intro hfits
    rw [tctiUefiTransmit_of_accepts ⟨hvalid, hstate, hfits, hlong⟩]

theorem takesIfFits_iff (hvalid : c.Valid) (hstate : c.state = .transmit)
    (hcmd : WellFormedCommand cmd n.toNat) :
    (TakesIfFits c n cmd ↔ n.toNat ≠ tpm2HeaderSize ∨ c.size.toNat < tpm2HeaderSize) ∧
    ∀ (k : SizeT A) (short : Buffer), k.toNat < tpm2HeaderSize →
      (tctiUefiTransmit (some c) k (some short)).val.1 ≠ .success ∧
        (tctiUefiTransmit (some c) k (some short)).val.2 = some c := by
  refine ⟨?_, fun k short hk => transmit_short c short (Nat.le_of_lt hk)⟩
  by_cases hlong : tpm2HeaderSize < n.toNat
  · exact iff_of_true (takesIfFits_of_long hvalid hstate hlong) (.inl (Nat.ne_of_gt hlong))
  · have hshort := Nat.not_lt.mp hlong
    have hn : n.toNat = tpm2HeaderSize := Nat.le_antisymm hshort hcmd.header
    have hrefused : (tctiUefiTransmit (some c) n (some cmd)).val ≠
        (.success, some (c.store cmd n.toNat)) := by
      intro htaken
      exact (transmit_short c cmd hshort).1 (congrArg Prod.fst htaken)
    rw [TakesIfFits, iff_false_left hrefused, hn, Nat.not_le]
    exact (or_iff_right (not_not_intro rfl)).symm

end Transmit

def getTestResult : Buffer :=
  Buffer.write (fun _ => 0) [0x80, 0x01, 0x00, 0x00, 0x00, 0x0a, 0x00, 0x00, 0x01, 0x7c]

theorem getTestResult_wellFormed : WellFormedCommand getTestResult 10 :=
  ⟨by decide, by decide⟩

theorem takesIfFits_getTestResult :
    (TakesIfFits ((filledBlock .x86_64 0).opened 4184) 10 getTestResult ↔
      10 ≠ tpm2HeaderSize ∨ 4096 < tpm2HeaderSize) ∧
    ∀ (k : SizeT .x86_64) (short : Buffer), k.toNat < tpm2HeaderSize →
      (tctiUefiTransmit (some ((filledBlock .x86_64 0).opened 4184)) k (some short)).val.1 ≠
          .success ∧
        (tctiUefiTransmit (some ((filledBlock .x86_64 0).opened 4184)) k (some short)).val.2 =
          some ((filledBlock .x86_64 0).opened 4184) :=
  takesIfFits_iff (n := 10) (opened_valid _ _) rfl getTestResult_wellFormed

theorem refuses_getTestResult :
    ((filledBlock .x86_64 0).opened 4184).Valid ∧
      ((filledBlock .x86_64 0).opened 4184).state = .transmit ∧
      WellFormedCommand getTestResult 10 ∧
      ¬TakesIfFits ((filledBlock .x86_64 0).opened 4184) 10 getTestResult := by
  refine ⟨opened_valid _ _, rfl, getTestResult_wellFormed, ?_⟩
  intro htakes
  have htaken := htakes.mpr (by decide)
  have hrefused := transmit_short ((filledBlock .x86_64 0).opened 4184) (n := 10) getTestResult
    (by decide)
  exact hrefused.1 (congrArg Prod.fst htaken)

/-- Whenever `SubmitCommand` succeeds, it has left a response in the output block. -/
def Tcg2Protocol.WritesResponses (p : Tcg2Protocol A) : Prop :=
  ∀ inputSize input outputSize out,
    (p.submitCommand inputSize input outputSize out).1 = efiSuccess A →
      tpm2HeaderSize ≤ sizeField (p.submitCommand inputSize input outputSize out).2 ∧
        sizeField (p.submitCommand inputSize input outputSize out).2 ≤ outputSize.toNat

def ReceiveResult.TellsLength (r : ReceiveResult A) (l : Nat) : Prop :=
  ∃ m, r.size = some m ∧ m.toNat = l

section Receive

variable {c : TctiUefiContext A} {n : SizeT A} {buf : Buffer} {timeout : Int32} {fw : Firmware A}

theorem receive_success
    (hrc : (tctiUefiReceive (some c) (some n) (some buf) timeout fw).val.rc = .success) :
    (fw.locateProtocol.2.submit (c.submitCall n) buf).1 = efiSuccess A ∧
      tctiUefiReceive (some c) (some n) (some buf) timeout fw =
        ⟨⟨.success, some { c with state := .transmit }, some n,
            some (fw.locateProtocol.2.submit (c.submitCall n) buf).2⟩,
          [.submit (c.submitCall n), .write (memberSpan A .state)]⟩ := by
  rcases tctiUefiReceive_cases (some c) (some n) (some buf) timeout fw with
    ⟨c', n', hc, hn, hready, hnone | ⟨buf', p, hbuf, hp⟩⟩ | ⟨rc, hne, heq⟩
  · cases hnone
  · obtain rfl := Option.some.inj hc
    have hlocated : p = fw.locateProtocol.2 := by
      unfold tcg2GetProtocol at hp
      split at hp
      · cases hp
      · exact (Option.some.inj hp).symm
    by_cases hs : (p.submit (c.submitCall n) buf).1 = efiSuccess A
    · have hanswered := tctiUefiReceive_answered hready hp n buf hs
      rw [hlocated] at hs hanswered
      exact ⟨hs, hanswered⟩
    · obtain ⟨rc, tail, hne, _, heq⟩ := tctiUefiReceive_unanswered hready hp n buf hs
      rw [heq] at hrc
      exact absurd hrc hne
  · rw [heq] at hrc
    exact absurd hrc hne

theorem tellsLength_iff (hfw : fw.locateProtocol.2.WritesResponses)
    (hrc : (tctiUefiReceive (some c) (some n) (some buf) timeout fw).val.rc = .success) :
    let r := tctiUefiReceive (some c) (some n) (some buf) timeout fw
    let reply := fw.locateProtocol.2.submit (c.submitCall n) buf
    .submit (c.submitCall n) ∈ r.log ∧ reply.1 = efiSuccess A ∧ r.val.response = some reply.2 ∧
      tpm2HeaderSize ≤ sizeField reply.2 ∧ sizeField reply.2 ≤ n.toNat ∧
      (r.val.TellsLength (sizeField reply.2) ↔ n.toNat = sizeField reply.2) := by
  intro r reply
  obtain ⟨hs, heq⟩ := receive_success hrc
  obtain ⟨hheader, hfits⟩ := hfw _ _ _ buf hs
  have hroom : (toUInt32 n).toNat ≤ n.toNat := by
    rw [toNat_toUInt32]
    exact Nat.mod_le _ _
  simp only [r, heq]
  refine ⟨List.mem_cons_self .., hs, rfl, hheader, Nat.le_trans hfits hroom, ?_⟩
  constructor
  · rintro ⟨m, hm, hlen⟩
    rwa [Option.some.inj hm]
  · intro hlen
    exact ⟨n, rfl, hlen⟩

end Receive

def emptyResponse : List UInt8 := [0x80, 0x01, 0x00, 0x00, 0x00, 0x0a, 0x00, 0x00, 0x00, 0x00]

def respondingFirmware (A : Arch) : Firmware A where
  locateProtocol := (efiSuccess A, {
    acceptingProtocol A 4096 4096 with
    submitCommand := fun _ _ outputSize out =>
      if tpm2HeaderSize ≤ outputSize.toNat then (efiSuccess A, out.write emptyResponse)
      else (efiBufferTooSmall A, out) })

theorem sizeField_emptyResponse (out : Buffer) : sizeField (out.write emptyResponse) = 10 := rfl

theorem respondingFirmware_writesResponses (A : Arch) :
    (respondingFirmware A).locateProtocol.2.WritesResponses := by
  intro inputSize input outputSize out hs
  simp only [respondingFirmware] at hs ⊢
  by_cases hroom : tpm2HeaderSize ≤ outputSize.toNat
  · simp only [if_pos hroom, sizeField_emptyResponse]
    exact ⟨Nat.le_refl _, hroom⟩
  · rw [if_neg hroom] at hs
    have hstatus : efiBufferTooSmall A = efiSuccess A := hs
    cases A <;> exact absurd hstatus (by decide)

def pendingContext (A : Arch) : TctiUefiContext A :=
  ((filledBlock A 0).opened 4184).store (fun _ => 7) 12

theorem tellsLength_ten :
    let c := pendingContext .x86_64
    let r := tctiUefiReceive (some c) (some 10) (some fun _ => 0) tctiTimeoutBlock
      (respondingFirmware .x86_64)
    let reply := (respondingFirmware .x86_64).locateProtocol.2.submit (c.submitCall 10) fun _ => 0
    .submit (c.submitCall 10) ∈ r.log ∧ reply.1 = efiSuccess .x86_64 ∧
      r.val.response = some reply.2 ∧ tpm2HeaderSize ≤ sizeField reply.2 ∧
      sizeField reply.2 ≤ 10 ∧
      (r.val.TellsLength (sizeField reply.2) ↔ 10 = sizeField reply.2) :=
  tellsLength_iff (n := 10) (respondingFirmware_writesResponses .x86_64) rfl

theorem tells_stale_length :
    let c := pendingContext .x86_64
    let r := tctiUefiReceive (some c) (some 4096) (some fun _ => 0) tctiTimeoutBlock
      (respondingFirmware .x86_64)
    let reply := (respondingFirmware .x86_64).locateProtocol.2.submit (c.submitCall 4096)
      fun _ => 0
    (respondingFirmware .x86_64).locateProtocol.2.WritesResponses ∧ r.val.rc = .success ∧
      r.val.response = some reply.2 ∧ sizeField reply.2 = 10 ∧
      r.val.TellsLength 4096 ∧ ¬r.val.TellsLength (sizeField reply.2) := by
  intro c r reply
  have hrc : r.val.rc = .success := by decide
  have hlength : sizeField reply.2 = 10 := sizeField_emptyResponse _
  have hval := congrArg Trace.val (receive_success hrc).2
  have hsize : r.val.size = some 4096 := congrArg ReceiveResult.size hval
  refine ⟨respondingFirmware_writesResponses .x86_64, hrc, congrArg ReceiveResult.response hval,
    hlength, ⟨_, hsize, rfl⟩, ?_⟩
  rintro ⟨m, hm, hlen⟩
  obtain rfl := Option.some.inj (hsize.symm.trans hm)
  rw [hlength] at hlen
  exact absurd hlen (by decide)

end TctiUefi
