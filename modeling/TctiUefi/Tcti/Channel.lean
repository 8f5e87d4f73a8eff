import TctiUefi.Tcti.Line

namespace TctiUefi

def SubmitCall.command (b : SubmitCall) : List UInt8 :=
  b.input.take (sizeField (message b.input))

def SubmitCall.Within (b : SubmitCall) (maxCommandSize maxResponseSize : UInt16) : Prop :=
  b.inputSize.toNat ≤ maxCommandSize.toNat ∧ b.outputSize.toNat ≤ maxResponseSize.toNat

instance (b : SubmitCall) (maxCommandSize maxResponseSize : UInt16) :
    Decidable (b.Within maxCommandSize maxResponseSize) :=
  inferInstanceAs (Decidable (_ ∧ _))

abbrev Tpm (τ : Type) := Machine τ (List UInt8) (List UInt8)

/-- A caller right at the TPM, which is spared commands that are no longer than a header or
longer than the capacity. -/
def attached (tpm : Tpm τ) (capacity : Nat) : Machine τ (List UInt8) (Option (List UInt8)) where
  step t cmd :=
    if tpm2HeaderSize < cmd.length ∧ cmd.length ≤ capacity then
      ((tpm.step t cmd).1, some (tpm.step t cmd).2)
    else (t, none)

def unanswered : Machine Unit (List UInt8) (Option (List UInt8)) where
  step _ _ := ((), none)

/-- A driver that reports these limits.  Of the blocks within them it passes the command at their
start to the TPM, and the response back if there is room for it. -/
structure Drives (dev : Device A τ) (tpm : Tpm τ) (maxCommandSize maxResponseSize : UInt16) :
    Prop where
  reports : ∀ t, (dev.firmware t).Reports maxCommandSize maxResponseSize
  answers : ∀ t b out, b.Within maxCommandSize maxResponseSize →
    (tpm.step t b.command).2.length ≤ b.outputSize.toNat →
      (dev.firmware t).locateProtocol.2.submit b out =
        (efiSuccess A, out.write (tpm.step t b.command).2)
  advances : ∀ t b, b.Within maxCommandSize maxResponseSize →
    dev.after t b = (tpm.step t b.command).1

structure Refuses (dev : Device A τ) (maxCommandSize maxResponseSize : UInt16) : Prop where
  fails : ∀ t b out, ¬b.Within maxCommandSize maxResponseSize →
    ((dev.firmware t).locateProtocol.2.submit b out).1 ≠ efiSuccess A
  spares : ∀ t b, ¬b.Within maxCommandSize maxResponseSize → dev.after t b = t

structure Responds (tpm : Tpm τ) (room : Nat) : Prop where
  size : ∀ t cmd, sizeField (message (tpm.step t cmd).2) = (tpm.step t cmd).2.length
  fits : ∀ t cmd, (tpm.step t cmd).2.length ≤ room

structure IdleContext (capacity : Nat) (c : TctiUefiContext A) : Prop where
  valid : c.Valid
  state : c.state = .transmit
  size : c.size.toNat = capacity

section Messages

theorem sizeField_congr {a b : Buffer} (h : ∀ i < tpm2HeaderSize, a i = b i) :
    sizeField a = sizeField b := by
  apply Buffer.loadBE_congr
  intro i hi
  apply h
  rw [tpm2HeaderSize]
  omega

theorem command_append {cmd : List UInt8} (hheader : tpm2HeaderSize < cmd.length)
    (hsize : sizeField (message cmd) = cmd.length) (n m : UInt32) (rest : List UInt8) :
    SubmitCall.command ⟨n, cmd ++ rest, m⟩ = cmd := by
  have hfield : sizeField (message (cmd ++ rest)) = cmd.length := by
    rw [← hsize]
    apply sizeField_congr
    intro i hi
    have hlt := Nat.lt_trans hi hheader
    rw [message, message, Buffer.write_of_lt _ hlt, Buffer.write_of_lt _ (by simp; omega),
      List.getElem_append_left hlt]
  rw [SubmitCall.command, hfield, List.take_left]

end Messages

section Exchange

variable {A : Arch} {τ : Type} {dev : Device A τ} {tpm : Tpm τ} {room : SizeT A}
  {capacity : Nat} {c : TctiUefiContext A} {cmd : List UInt8} {l : Line τ}
  {maxCommandSize maxResponseSize : UInt16}

theorem toNat_ofNat_capacity (h : capacity < 2 ^ 32) :
    (UInt32.ofNat capacity).toNat = capacity := by
  rw [UInt32.toNat_ofNat', Nat.mod_eq_of_lt h]

theorem toNat_toUInt32_room (h : room.toNat ≤ maxResponseSize.toNat) :
    (toUInt32 room).toNat = room.toNat := by
  have hlt := maxResponseSize.toNat_lt
  rw [toNat_toUInt32, Nat.mod_eq_of_lt (by omega)]

theorem line_attached (hdev : Drives dev tpm maxCommandSize maxResponseSize)
    (hresponds : Responds tpm room.toNat) (hroom : room.toNat ≤ maxResponseSize.toNat)
    (hcap : capacity ≤ maxCommandSize.toNat) (hsize : sizeField (message cmd) = cmd.length)
    (hstuck : l.stuck = false) :
    ((dev.line capacity room).step l cmd).2 = ((attached tpm capacity).step l.device cmd).2 ∧
      ((dev.line capacity room).step l cmd).1.device =
        ((attached tpm capacity).step l.device cmd).1 ∧
      ((dev.line capacity room).step l cmd).1.stuck = false := by
  by_cases hfits : tpm2HeaderSize < cmd.length ∧ cmd.length ≤ capacity
  · have hlt := maxCommandSize.toNat_lt
    have hp : (tcg2GetProtocol (dev.firmware l.device)).2 =
        some (dev.firmware l.device).locateProtocol.2 :=
      tcg2GetProtocol_of_reports (hdev.reports l.device)
    have hcommand := command_append hfits.1 hsize (UInt32.ofNat capacity) (toUInt32 room)
      (l.block.drop cmd.length)
    have hwithin : SubmitCall.Within
        ⟨UInt32.ofNat capacity, cmd ++ l.block.drop cmd.length, toUInt32 room⟩ maxCommandSize
          maxResponseSize := by
      rw [SubmitCall.Within, toNat_ofNat_capacity (by omega), toNat_toUInt32_room hroom]
      exact ⟨hcap, hroom⟩
    have hanswer := hdev.answers l.device _ (fun _ => 0) hwithin
    have hafter := hdev.advances l.device _ hwithin
    rw [hcommand] at hanswer hafter
    have hsubmit := hanswer (by
      rw [toNat_toUInt32_room hroom]
      exact hresponds.fits l.device cmd)
    have hfield : sizeField (Buffer.write (fun _ => 0) (tpm.step l.device cmd).2) =
        (tpm.step l.device cmd).2.length := hresponds.size l.device cmd
    simp only [Device.line, hstuck, hfits, and_self, if_true, hp, hsubmit, hafter, attached,
      hfield, Buffer.bytes_write]
  · have hline : (dev.line capacity room).step l cmd = _ := if_neg fun h => hfits h.2
    have hattached : (attached tpm capacity).step l.device cmd = _ := if_neg hfits
    rw [hline, hattached]
    exact ⟨rfl, rfl, hstuck⟩

theorem line_unanswered (hreports : ∀ t, (dev.firmware t).Reports maxCommandSize maxResponseSize)
    (hrefuses : Refuses dev maxCommandSize maxResponseSize)
    (hcap : maxCommandSize.toNat < capacity) (hlt : capacity < 2 ^ 32) (room : SizeT A)
    (l : Line τ) (cmd : List UInt8) :
    ((dev.line capacity room).step l cmd).2 = none ∧
      ((dev.line capacity room).step l cmd).1.device = l.device := by
  by_cases hcmd : l.stuck = false ∧ tpm2HeaderSize < cmd.length ∧ cmd.length ≤ capacity
  · have hp : (tcg2GetProtocol (dev.firmware l.device)).2 =
        some (dev.firmware l.device).locateProtocol.2 :=
      tcg2GetProtocol_of_reports (hreports l.device)
    have hbeyond : ¬SubmitCall.Within
        ⟨UInt32.ofNat capacity, cmd ++ l.block.drop cmd.length, toUInt32 room⟩ maxCommandSize
          maxResponseSize := by
      rw [SubmitCall.Within, toNat_ofNat_capacity hlt]
      exact fun h => absurd h.1 (Nat.not_le.mpr hcap)
    have hfails := hrefuses.fails l.device _ (fun _ => 0) hbeyond
    have hspares := hrefuses.spares l.device _ hbeyond
    simp only [Device.line, hcmd, and_self, if_true, hp, hfails, if_false, hspares]
  · have hline : (dev.line capacity room).step l cmd = _ := if_neg hcmd
    rw [hline]
    exact ⟨rfl, rfl⟩

theorem channel_step (hdev : Drives dev tpm maxCommandSize maxResponseSize)
    (hresponds : Responds tpm room.toNat) (hroom : room.toNat ≤ maxResponseSize.toNat)
    (hcap : capacity ≤ maxCommandSize.toNat) (s : TctiUefiContext A × τ) (t : τ)
    (cmd : List UInt8) (hcmd : cmd.length < 2 ^ A.bits ∧ sizeField (message cmd) = cmd.length)
    (hs : s.2 = t ∧ IdleContext capacity s.1) :
    ((dev.channel room).step s cmd).2 = ((attached tpm capacity).step t cmd).2 ∧
      ((dev.channel room).step s cmd).1.2 = ((attached tpm capacity).step t cmd).1 ∧
      IdleContext capacity ((dev.channel room).step s cmd).1.1 := by
  have hlt := maxCommandSize.toNat_lt
  obtain ⟨rfl, hc⟩ := hs
  have honline : OnLine capacity s ⟨s.1.cmdBuf.bytes capacity, false, s.2⟩ :=
    ⟨hc.valid, hc.state, hc.size, rfl, rfl⟩
  obtain ⟨hanswer, hstep⟩ := line_step dev room (by omega) s _ cmd hcmd.1 honline
  obtain ⟨hresponse, hdevice, hstuck⟩ := line_attached hdev hresponds hroom hcap hcmd.2
    (l := ⟨s.1.cmdBuf.bytes capacity, false, s.2⟩) rfl
  have hstate := hstep.state
  rw [hstuck] at hstate
  exact ⟨hanswer.trans hresponse, hstep.device.trans hdevice, hstep.valid, hstate, hstep.size⟩

theorem channel_by_limits {ε α : Type} {fw : Firmware A} {block : TctiUefiContext A}
    {size : SizeT A} (hdev : Drives dev tpm maxCommandSize maxResponseSize)
    (hrefuses : Refuses dev maxCommandSize maxResponseSize)
    (hresponds : Responds tpm room.toNat) (hroom : room.toNat ≤ maxResponseSize.toNat)
    (hfw : fw.Reports maxCommandSize maxResponseSize) (hc : Negotiated fw block size c) (t : τ)
    (client : Client ε (List UInt8) (Option (List UInt8)) α)
    (hclient : client.Asks fun cmd =>
      cmd.length < 2 ^ A.bits ∧ sizeField (message cmd) = cmd.length) :
    let channel := dev.channel room
    let direct := attached tpm c.size.toNat
    (maxResponseSize ≤ maxCommandSize →
      client.result channel (c, t) = client.result direct t ∧
        (client.run channel (c, t)).log = (client.run direct t).log ∧
        (client.final channel (c, t)).2 = client.final direct t) ∧
    (maxCommandSize < maxResponseSize →
      client.result channel (c, t) = client.result unanswered () ∧
        (client.run channel (c, t)).log = (client.run unanswered ()).log ∧
        (client.final channel (c, t)).2 = t) := by
  intro channel direct
  have hcap := hc.capacity_of_reports hfw (hc.limits_ne_zero hfw)
  have hidle : IdleContext c.size.toNat c := by
    rw [hc.ctx_eq]
    exact ⟨opened_valid _ _, rfl, rfl⟩
  constructor
  · intro hle
    have hfits : c.size.toNat ≤ maxCommandSize.toNat := by
      rw [hcap, Nat.max_eq_left (UInt16.le_iff_toNat_le.mp hle)]
    obtain ⟨hresult, hlog, hfinal, _⟩ := Client.run_of_related
      (channel_step hdev hresponds hroom hfits) hclient (s := (c, t)) ⟨rfl, hidle⟩
    exact ⟨hresult, hlog, hfinal⟩
  · intro hlt
    have hbeyond : maxCommandSize.toNat < c.size.toNat := by
      rw [hcap]
      exact Nat.lt_of_lt_of_le (UInt16.lt_iff_toNat_lt.mp hlt) (Nat.le_max_right _ _)
    have hsmall : c.size.toNat < 2 ^ 32 := Nat.lt_trans hc.capacity_lt (by decide)
    have hstep (s : TctiUefiContext A × τ) (_ : Unit) (cmd : List UInt8)
        (hcmd : cmd.length < 2 ^ A.bits ∧ sizeField (message cmd) = cmd.length)
        (hs : ∃ l : Line τ, OnLine c.size.toNat s l ∧ l.device = t) :
        (channel.step s cmd).2 = none ∧
          ∃ l : Line τ, OnLine c.size.toNat (channel.step s cmd).1 l ∧ l.device = t := by
      obtain ⟨l, honline, hdevice⟩ := hs
      obtain ⟨hanswer, hstep⟩ := line_step dev room hsmall s l cmd hcmd.1 honline
      obtain ⟨hnone, hkept⟩ := line_unanswered hdev.reports hrefuses hbeyond hsmall room l cmd
      exact ⟨hanswer.trans hnone, _, hstep, hkept.trans hdevice⟩
    obtain ⟨hresult, hlog, l, honline, hdevice⟩ := Client.run_of_related (N := unanswered) hstep
      hclient (s := (c, t)) (t := ())
      ⟨⟨c.cmdBuf.bytes c.size.toNat, false, t⟩, ⟨hidle.valid, hidle.state, rfl, rfl, rfl⟩, rfl⟩
    exact ⟨hresult, hlog, honline.device.trans hdevice⟩

end Exchange

section Reference

def Tpm.device (A : Arch) (tpm : Tpm τ) (maxCommandSize maxResponseSize : UInt16) :
    Device A τ where
  firmware t := ⟨efiSuccess A, { acceptingProtocol A maxCommandSize maxResponseSize with
    submitCommand := fun inputSize input outputSize out =>
      let b : SubmitCall := ⟨inputSize, input, outputSize⟩
      let response := (tpm.step t b.command).2
      if ¬b.Within maxCommandSize maxResponseSize then (efiInvalidParameter A, out)
      else if response.length ≤ outputSize.toNat then (efiSuccess A, out.write response)
      else (efiBufferTooSmall A, out) }⟩
  after t b :=
    if b.Within maxCommandSize maxResponseSize then (tpm.step t b.command).1 else t

theorem Tpm.drives (A : Arch) (tpm : Tpm τ) (c r : UInt16) : Drives (tpm.device A c r) tpm c r where
  reports := fun _ => ⟨efiError_efiSuccess A, efiError_efiSuccess A, rfl, rfl⟩
  answers := by
    intro t b out hwithin hfits
    change (if ¬b.Within c r then _ else if _ then _ else _) = _
    rw [if_neg (not_not_intro hwithin), if_pos hfits]
  advances := fun _ _ h => if_pos h

theorem Tpm.refuses (A : Arch) (tpm : Tpm τ) (c r : UInt16) : Refuses (tpm.device A c r) c r where
  fails := by
    intro t b out hbeyond
    change (if ¬b.Within c r then _ else if _ then _ else _ : EfiStatus A × Buffer).1 ≠ _
    rw [if_pos hbeyond]
    have hinvalid : efiInvalidParameter A ≠ efiSuccess A := by cases A <;> decide
    exact hinvalid
  spares := fun _ _ h => if_neg h

def countingTpm : Tpm Nat where
  step n _ := (n + 1, [0x80, 0x01, 0x00, 0x00, 0x00, 0x0a, 0x00, 0x00, 0x00, UInt8.ofNat n])

theorem countingTpm_responds : Responds countingTpm (4096 : SizeT .x86_64).toNat where
  size := fun _ _ => rfl
  fits := fun _ _ => (by decide : 10 ≤ (4096 : SizeT .x86_64).toNat)

theorem channel_by_limits_retrying :
    ((retrying 4).result ((countingTpm.device .x86_64 4096 4096).channel 4096)
        (openedContext, 1) = (retrying 4).result (attached countingTpm 4096) 1 ∧
      ((retrying 4).run ((countingTpm.device .x86_64 4096 4096).channel 4096)
        (openedContext, 1)).log = ((retrying 4).run (attached countingTpm 4096) 1).log ∧
      ((retrying 4).final ((countingTpm.device .x86_64 4096 4096).channel 4096)
        (openedContext, 1)).2 = (retrying 4).final (attached countingTpm 4096) 1) ∧
    ((retrying 4).result ((countingTpm.device .x86_64 1024 4096).channel 4096)
        (openedContext, 1) = (retrying 4).result unanswered () ∧
      ((retrying 4).run ((countingTpm.device .x86_64 1024 4096).channel 4096)
        (openedContext, 1)).log = ((retrying 4).run unanswered ()).log ∧
      ((retrying 4).final ((countingTpm.device .x86_64 1024 4096).channel 4096)
        (openedContext, 1)).2 = 1) :=
  ⟨(channel_by_limits (Tpm.drives .x86_64 countingTpm 4096 4096) (Tpm.refuses .x86_64 _ _ _)
      countingTpm_responds (by decide) (acceptingFirmware_reports .x86_64 4096 4096)
      (.of_reports (acceptingFirmware_reports .x86_64 4096 4096) (by decide) (filledBlock _ 0)) 1
      (retrying 4) (retrying_asks ⟨by decide, rfl⟩ 4)).1 (by decide),
    (channel_by_limits (Tpm.drives .x86_64 countingTpm 1024 4096) (Tpm.refuses .x86_64 _ _ _)
      countingTpm_responds (by decide) (acceptingFirmware_reports .x86_64 1024 4096)
      (.of_reports (acceptingFirmware_reports .x86_64 1024 4096) (by decide) (filledBlock _ 0)) 1
      (retrying 4) (retrying_asks ⟨by decide, rfl⟩ 4)).2 (by decide)⟩

end Reference

end TctiUefi
