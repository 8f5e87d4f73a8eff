import TctiUefi.Tcti.Init
import TctiUefi.Tcti.Run

namespace TctiUefi

/-- The two block sizes stand for a command of `n` bytes and a response buffer of `m` bytes:
the first leaves out nothing of the command, the second is the largest that the buffer allows
and a `UINT32` can express. -/
structure SubmitCall.Describes (b : SubmitCall) (n m : Nat) : Prop where
  input : n ≤ b.inputSize.toNat
  output : b.outputSize.toNat = min m (2 ^ 32 - 1)

/-- Somewhere in the run a command is sent, and later a receive with `*size = m` submits `b`. -/
def Exchanged (tr : List (Event A)) (cmd : List UInt8) (m : SizeT A) (b : SubmitCall) : Prop :=
  ∃ pre t mid e post, tr = pre ++ t :: (mid ++ e :: post) ∧ t.sent = some cmd ∧
    e.1.size = some m ∧ e.submits b

theorem Exchanged.eq_submitCall {s : TctiUefiContext A} {is : List (Call A)}
    (h : Exchanged (events s is) cmd m b) :
    b.inputSize = toUInt32 s.size ∧ b.outputSize = toUInt32 m := by
  obtain ⟨pre, t, mid, e, post, hrun, _, hm, hb⟩ := h
  have hall : ∀ e : Event A, e ∈ events s is → e.1.size = some m → e.submits b →
      b.inputSize = toUInt32 s.size ∧ b.outputSize = toUInt32 m := by
    apply events_forall
    intro u i r hstep hsize hi hb
    obtain ⟨n, hn, rfl⟩ := hstep.submission hb
    obtain rfl : m = n := Option.some.inj (hi.symm.trans hn)
    rw [← hsize]
    exact ⟨rfl, rfl⟩
  exact hall e (by simp [hrun]) hm hb

theorem toUInt32_eq_min_iff (m : SizeT A) :
    (toUInt32 m).toNat = min m.toNat (2 ^ 32 - 1) ↔
      m.toNat < 2 ^ 32 ∨ m.toNat % 2 ^ 32 = 2 ^ 32 - 1 := by
  rw [toNat_toUInt32]
  by_cases hlt : m.toNat < 2 ^ 32
  · have hle : m.toNat ≤ 2 ^ 32 - 1 := Nat.le_pred_of_lt hlt
    rw [Nat.mod_eq_of_lt hlt, Nat.min_eq_left hle]
    exact iff_of_true rfl (.inl hlt)
  · have hge : 2 ^ 32 - 1 ≤ m.toNat := Nat.le_trans (Nat.sub_le _ _) (Nat.not_lt.mp hlt)
    rw [Nat.min_eq_right hge]
    exact (or_iff_right hlt).symm

section Narrowing

variable {block ctx : TctiUefiContext A} {size m : SizeT A} {conf : Option String}
  {fw : Firmware A} {cmd : List UInt8} {b : SubmitCall}

theorem capacity_of_init (hroom : sizeofContext A ≤ size.toNat)
    (hinit : (tss2TctiUefiInit (some block) (some size) conf fw).val =
      ⟨.success, some ctx, some size⟩) :
    ctx.size.toNat = size.toNat - sizeofContext A := by
  rw [tss2TctiUefiInit_block] at hinit
  have hctx : block.opened size = ctx := Option.some.inj (InitResult.mk.inj hinit).2.1
  rw [← hctx, opened_size_of_le hroom]

theorem describes_iff (hroom : sizeofContext A ≤ size.toNat)
    (hinit : (tss2TctiUefiInit (some block) (some size) conf fw).val =
      ⟨.success, some ctx, some size⟩)
    (is : List (Call A)) (h : Exchanged (events ctx is) cmd m b) :
    b.Describes cmd.length m.toNat ↔
      cmd.length ≤ (size.toNat - sizeofContext A) % 2 ^ 32 ∧
        (m.toNat < 2 ^ 32 ∨ m.toNat % 2 ^ 32 = 2 ^ 32 - 1) := by
  obtain ⟨hinput, houtput⟩ := h.eq_submitCall
  have hcap : b.inputSize.toNat = (size.toNat - sizeofContext A) % 2 ^ 32 := by
    rw [hinput, toNat_toUInt32, capacity_of_init hroom hinit]
  rw [← hcap, ← toUInt32_eq_min_iff, ← houtput]
  constructor
  · intro hdescribes
    exact ⟨hdescribes.input, hdescribes.output⟩
  · rintro ⟨hin, hout⟩
    exact ⟨hin, hout⟩

end Narrowing

theorem exchanged_of_accepts {s : TctiUefiContext A} {fw : Firmware A} (h : TransmitAccepts s n)
    (cmd : Buffer) (m : SizeT A) (buf : Buffer) (hfw : efiError fw.locateProtocol.1 = false) :
    Exchanged (events s (exchange n cmd m buf fw)) (cmd.bytes n.toNat) m
      ((s.store cmd n.toNat).submitCall m) := by
  refine ⟨[], _, [], _, [], rfl, ?_, rfl, ?_⟩
  · rw [tcti_step, exec_transmit h]
    rfl
  · have hsub := receive_submissions (store_ready h cmd n.toNat) hfw m buf
    obtain ⟨e, he, hb⟩ := List.mem_filterMap.mp (hsub ▸ List.mem_singleton_self _)
    rw [tcti_step, tcti_step, exec_transmit h]
    cases e with
    | print p => cases hb
    | write s => cases hb
    | submit b =>
      obtain rfl := Option.some.inj hb
      exact he
    | getEventLog format => cases hb

theorem exchanged_twelve (size m : SizeT .x86_64) (h : 100 ≤ size.toNat) :
    Exchanged (events ((filledBlock .x86_64 0).opened size)
        (exchange 12 (fun _ => 7) m (fun _ => 0) (acceptingFirmware .x86_64 4096 4096)))
      (Buffer.bytes (fun _ => 7) 12) m
      ((((filledBlock .x86_64 0).opened size).store (fun _ => 7) 12).submitCall m) := by
  have hsizeof : sizeofContext .x86_64 = 88 := by decide
  refine exchanged_of_accepts (n := 12) ⟨opened_valid _ _, rfl, ?_, by decide⟩ _ _ _ rfl
  rw [opened_size_of_le (by omega), hsizeof]
  exact Nat.le_sub_of_add_le h

theorem describes_4096 :
    (((filledBlock .x86_64 0).opened 4184).store (fun _ => 7) 12 |>.submitCall 4096).Describes
        12 4096 ↔
      12 ≤ (4184 - sizeofContext .x86_64) % 2 ^ 32 ∧
        (4096 < 2 ^ 32 ∨ 4096 % 2 ^ 32 = 2 ^ 32 - 1) := by
  have hroom : sizeofContext .x86_64 ≤ (4184 : SizeT .x86_64).toNat := by decide
  have hinit := congrArg Trace.val (tss2TctiUefiInit_block (filledBlock .x86_64 0) 4184 none
    (acceptingFirmware .x86_64 4096 4096))
  exact describes_iff hroom hinit _ (exchanged_twelve 4184 4096 (by decide))

theorem not_describes_4_gib :
    (tss2TctiUefiInit (some (filledBlock .x86_64 0)) (some 0x100000058) none
      (acceptingFirmware .x86_64 4096 4096)).val =
        ⟨.success, some ((filledBlock .x86_64 0).opened 0x100000058), some 0x100000058⟩ ∧
    ∃ b, Exchanged (events ((filledBlock .x86_64 0).opened 0x100000058)
        (exchange 12 (fun _ => 7) 4096 (fun _ => 0) (acceptingFirmware .x86_64 4096 4096)))
      (Buffer.bytes (fun _ => 7) 12) 4096 b ∧ b.inputSize = 0 ∧ ¬b.Describes 12 4096 := by
  refine ⟨rfl, _, exchanged_twelve 0x100000058 4096 (by decide), by decide, ?_⟩
  intro hdescribes
  exact absurd hdescribes.input (by decide)

end TctiUefi
