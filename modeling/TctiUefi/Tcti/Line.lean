import TctiUefi.Lib.Client
import TctiUefi.Tcti.Shared

namespace TctiUefi

def message (bytes : List UInt8) : Buffer := Buffer.write (fun _ => 0) bytes

/-- One command and its response by way of a context, for a caller with a block of `room` bytes
who takes the length of the response from its header. -/
def Device.exchange (dev : Device A τ) (room : SizeT A) (s : TctiUefiContext A × τ)
    (cmd : List UInt8) : (TctiUefiContext A × τ) × Option (List UInt8) :=
  let sent := tctiUefiTransmit (some s.1) (BitVec.ofNat _ cmd.length) (some (message cmd))
  if sent.val.1 = .success then
    let got := tctiUefiReceive sent.val.2 (some room) (some fun _ => 0) tctiTimeoutBlock
      (dev.firmware s.2)
    ((got.val.context.getD s.1, (got.log.filterMap Effect.submission?).foldl dev.after s.2),
      if got.val.rc = .success then
        got.val.response.map fun out => out.bytes (sizeField out)
      else none)
  else ((sent.val.2.getD s.1, s.2), none)

def Device.channel (dev : Device A τ) (room : SizeT A) :
    Machine (TctiUefiContext A × τ) (List UInt8) (Option (List UInt8)) where
  step := dev.exchange room

/-- A line to a driver: the block that it is handed next, whether a command has failed on it, and
the device at its end. -/
structure Line (τ : Type) where
  block : List UInt8
  stuck : Bool
  device : τ

/-- A command overwrites the start of the block, and all of the block is handed over.  Once a
command has failed nothing is passed on any more. -/
def Device.line (dev : Device A τ) (capacity : Nat) (room : SizeT A) :
    Machine (Line τ) (List UInt8) (Option (List UInt8)) where
  step l cmd :=
    if l.stuck = false ∧ tpm2HeaderSize < cmd.length ∧ cmd.length ≤ capacity then
      let block := cmd ++ l.block.drop cmd.length
      let b : SubmitCall := ⟨UInt32.ofNat capacity, block, toUInt32 room⟩
      match (tcg2GetProtocol (dev.firmware l.device)).2 with
      | none => (⟨block, true, l.device⟩, none)
      | some p =>
        let reply := p.submit b fun _ => 0
        if reply.1 = efiSuccess A then
          (⟨block, false, dev.after l.device b⟩, some (reply.2.bytes (sizeField reply.2)))
        else
          (⟨block, true, dev.after l.device b⟩, none)
    else
      (l, none)

structure OnLine (capacity : Nat) (s : TctiUefiContext A × τ) (l : Line τ) : Prop where
  valid : s.1.Valid
  state : s.1.state = if l.stuck then .receive else .transmit
  size : s.1.size.toNat = capacity
  block : s.1.cmdBuf.bytes capacity = l.block
  device : s.2 = l.device

section Line

variable {A : Arch} {τ : Type} {dev : Device A τ} {room : SizeT A} {capacity : Nat}
  {c : TctiUefiContext A} {l : Line τ} {cmd : List UInt8}

theorem OnLine.refused {t : τ} (h : OnLine capacity (c, t) l) (hlen : cmd.length < 2 ^ A.bits)
    (hcmd : ¬(l.stuck = false ∧ tpm2HeaderSize < cmd.length ∧ cmd.length ≤ capacity)) :
    dev.exchange room (c, t) cmd = ((c, t), none) := by
  rcases tctiUefiTransmit_cases (some c) (BitVec.ofNat A.bits cmd.length) (some (message cmd)) with
    ⟨c', _, hc', _, haccepts⟩ | ⟨hrc, hcontext, _⟩
  · obtain rfl := Option.some.inj hc'
    have hheader := haccepts.header
    have hfits := haccepts.fits
    rw [BitVec.toNat_ofNat, Nat.mod_eq_of_lt hlen] at hheader hfits
    have hstuck : l.stuck = false := by
      rw [Bool.eq_false_iff]
      intro hstuck
      have hstate := h.state
      rw [hstuck, if_pos rfl, haccepts.state] at hstate
      cases hstate
    exact absurd ⟨hstuck, hheader, h.size ▸ hfits⟩ hcmd
  · simp only [Device.exchange, if_neg hrc, hcontext, Option.getD_some]

theorem OnLine.submitCall_store {t : τ} (h : OnLine capacity (c, t) l) (hcap : capacity < 2 ^ 32)
    (hfits : cmd.length ≤ capacity) (room : SizeT A) :
    (c.store (message cmd) cmd.length).submitCall room =
        ⟨UInt32.ofNat capacity, cmd ++ l.block.drop cmd.length, toUInt32 room⟩ ∧
      (c.store (message cmd) cmd.length).cmdBuf.bytes capacity =
        cmd ++ l.block.drop cmd.length := by
  have hcopy : c.cmdBuf.copy (message cmd) cmd.length = c.cmdBuf.write cmd := by
    rw [Buffer.copy_eq_write, message, Buffer.bytes_write]
  have hblock : (c.store (message cmd) cmd.length).cmdBuf.bytes capacity =
      cmd ++ l.block.drop cmd.length := by
    rw [← h.block]
    simp only [TctiUefiContext.store, hcopy]
    exact Buffer.bytes_write_of_le _ hfits
  refine ⟨?_, hblock⟩
  have hsize : toUInt32 c.size = UInt32.ofNat capacity := congrArg UInt32.ofNat h.size
  have hbytes : (toUInt32 c.size).toNat = capacity := by
    rw [toNat_toUInt32, h.size, Nat.mod_eq_of_lt hcap]
  rw [← hblock, ← hsize, TctiUefiContext.submitCall]
  simp only [TctiUefiContext.store, hbytes]

theorem OnLine.exchange {t : τ} (h : OnLine capacity (c, t) l) (hcap : capacity < 2 ^ 32)
    (hcmd : l.stuck = false ∧ tpm2HeaderSize < cmd.length ∧ cmd.length ≤ capacity) :
    (dev.exchange room (c, t) cmd).2 = ((dev.line capacity room).step l cmd).2 ∧
      OnLine capacity (dev.exchange room (c, t) cmd).1
        ((dev.line capacity room).step l cmd).1 := by
  obtain ⟨hstuck, hheader, hfits⟩ := hcmd
  have hbits : 2 ^ 32 ≤ 2 ^ A.bits := by cases A <;> decide
  have hlen : (BitVec.ofNat A.bits cmd.length).toNat = cmd.length := by
    rw [BitVec.toNat_ofNat, Nat.mod_eq_of_lt (by omega)]
  have hstate : c.state = .transmit := by
    have hstate := h.state
    rwa [hstuck] at hstate
  have haccepts : TransmitAccepts c (BitVec.ofNat A.bits cmd.length) :=
    ⟨h.valid, hstate, by rw [hlen, h.size]; exact hfits, by rw [hlen]; exact hheader⟩
  have hsent := tctiUefiTransmit_of_accepts haccepts (message cmd)
  have hready := store_ready haccepts (message cmd) cmd.length
  obtain ⟨hcall, hblock⟩ := h.submitCall_store hcap hfits room
  obtain rfl := h.device
  rw [hlen] at hsent
  simp only [Device.exchange, hsent, if_true, Device.line, hstuck, hheader, hfits, and_self]
  cases hp : (tcg2GetProtocol (dev.firmware l.device)).2 with
  | none =>
    rcases tctiUefiReceive_cases (some (c.store (message cmd) cmd.length)) (some room)
        (some fun _ => 0) tctiTimeoutBlock (dev.firmware l.device) with
      ⟨_, _, _, _, _, hnone | ⟨_, _, _, hp'⟩⟩ | ⟨rc, hrc, heq⟩
    · cases hnone
    · rw [hp] at hp'
      cases hp'
    · simp only [heq, hrc, if_false, Option.getD_some]
      exact ⟨trivial, h.valid, rfl, h.size, hblock, rfl⟩
  | some p =>
    dsimp only
    rw [← hcall]
    by_cases hs : (p.submit ((c.store (message cmd) cmd.length).submitCall room)
        fun _ => 0).1 = efiSuccess A
    · rw [tctiUefiReceive_answered hready hp room _ hs, if_pos hs]
      exact ⟨rfl, h.valid, rfl, h.size, hblock, rfl⟩
    · obtain ⟨rc, tail, hrc, hquiet, heq⟩ := tctiUefiReceive_unanswered hready hp room _ hs
      simp only [heq, hrc, if_false, if_neg hs, Option.getD_some]
      refine ⟨trivial, h.valid, rfl, h.size, hblock, ?_⟩
      simp [Effect.submission?, hquiet.submissions]

theorem line_step (dev : Device A τ) (room : SizeT A) (hcap : capacity < 2 ^ 32)
    (s : TctiUefiContext A × τ) (l : Line τ) (cmd : List UInt8) (hlen : cmd.length < 2 ^ A.bits)
    (h : OnLine capacity s l) :
    ((dev.channel room).step s cmd).2 = ((dev.line capacity room).step l cmd).2 ∧
      OnLine capacity ((dev.channel room).step s cmd).1
        ((dev.line capacity room).step l cmd).1 := by
  obtain ⟨c, t⟩ := s
  by_cases hcmd : l.stuck = false ∧ tpm2HeaderSize < cmd.length ∧ cmd.length ≤ capacity
  · exact h.exchange hcap hcmd
  · have hchannel : (dev.channel room).step (c, t) cmd = _ := h.refused hlen hcmd
    have hline : (dev.line capacity room).step l cmd = _ := if_neg hcmd
    rw [hchannel, hline]
    exact ⟨rfl, h⟩

end Line

section Retrying

def startup : List UInt8 :=
  [0x80, 0x01, 0x00, 0x00, 0x00, 0x0c, 0x00, 0x00, 0x01, 0x44, 0x00, 0x00]

def retrying : Nat → Client String (List UInt8) (Option (List UInt8)) Nat
  | 0 => .done 0
  | n + 1 => .ask startup fun response => match response with
    | none => .done 0
    | some bytes => if (bytes.getD 9 0) % 2 = 0 then .done (n + 1) else .tell "again" (retrying n)

theorem retrying_asks {D : List UInt8 → Prop} (h : D startup) (n : Nat) : (retrying n).Asks D := by
  induction n with
  | zero => trivial
  | succ n ih =>
    refine ⟨h, fun response => ?_⟩
    cases response with
    | none => trivial
    | some bytes =>
      dsimp only
      split
      · trivial
      · exact ih

def failingDevice (A : Arch) : Device A Nat where
  firmware n := ⟨efiSuccess A, { acceptingProtocol A 4096 4096 with
    submitCommand := fun _ _ _ out =>
      if n < 3 then (efiSuccess A, out.write [0x80, 0x01, 0, 0, 0, 0x0a, 0, 0, 0, 0x01])
      else (efiDeviceError A, out) }⟩
  after n _ := n + 1

end Retrying

end TctiUefi
