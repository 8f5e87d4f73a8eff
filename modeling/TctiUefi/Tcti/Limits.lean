import TctiUefi.Tcti.Containment
import TctiUefi.Tcti.Pairing

namespace TctiUefi

theorem toNat_toUInt32_of_lt {n : SizeT A} (h : n.toNat < 2 ^ 16) :
    (toUInt32 n).toNat = n.toNat := by
  rw [toNat_toUInt32, Nat.mod_eq_of_lt]
  omega

theorem submits_size (s : TctiUefiContext A) (is : List (Call A)) :
    ∀ e : Event A, e ∈ events s is → ∀ b, e.submits b → b.inputSize = toUInt32 s.size := by
  apply events_forall
  intro t i r h hsize b hb
  obtain ⟨n, _, rfl⟩ := h.submission hb
  rw [← hsize]
  rfl

theorem sent_length (s : TctiUefiContext A) (is : List (Call A)) :
    ∀ e : Event A, e ∈ events s is → ∀ cmd, e.sent = some cmd → tpm2HeaderSize < cmd.length := by
  apply events_forall
  intro t i r h _ cmd hcmd
  cases h with
  | @refused _ o hrc _ _ _ =>
    rw [Event.sent_of_not_succeeds (e := (i, o)) hrc] at hcmd
    cases hcmd
  | @stored n buf haccepts =>
    have hbytes : buf.bytes n.toNat = cmd := by simpa [Event.sent] using hcmd
    rw [← hbytes, Buffer.length_bytes]
    exact haccepts.header
  | queried _ => cases hcmd
  | answered _ => cases hcmd
  | unanswered _ _ _ => cases hcmd
  | finalized _ => cases hcmd

def Call.isExchange : Call A → Bool
  | .transmit _ _ _ => true
  | .receive _ _ _ _ _ => true
  | .finalize _ => false

def CommandsWithin (n : Nat) (tr : List (Event A)) : Prop :=
  ∀ e : Event A, e ∈ tr → ∀ cmd, e.sent = some cmd → cmd.length ≤ n

def InputsWithin (n : Nat) (tr : List (Event A)) : Prop :=
  ∀ e : Event A, e ∈ tr → ∀ b, e.submits b → b.inputSize.toNat ≤ n

def SubmitsWithin (ctx : TctiUefiContext A) (n : Nat) : Prop :=
  ∀ is : List (Call A), (∀ i ∈ is, i.isExchange = true) →
    CommandsWithin n (events ctx is) → InputsWithin n (events ctx is)

section Limits

variable {fw : Firmware A} {block ctx : TctiUefiContext A} {size : SizeT A} {c r : UInt16}

theorem submitsWithin_of_response_le (hfw : fw.Reports c r) (hpos : c ≠ 0 ∨ r ≠ 0)
    (h : Negotiated fw block size ctx) (hle : r.toNat ≤ c.toNat) : SubmitsWithin ctx c.toNat := by
  intro is _ _ e he b hb
  rw [submits_size ctx is e he b hb, toNat_toUInt32_of_lt h.capacity_lt,
    h.capacity_of_reports hfw hpos, Nat.max_eq_left hle]

theorem submitsWithin_of_le_header (h : Negotiated fw block size ctx) {n : Nat}
    (hn : n ≤ tpm2HeaderSize) : SubmitsWithin ctx n := by
  intro is _ hcmds e he b hb
  obtain ⟨as, q, hobs, hpath, _⟩ := (tcti_simulates A).path (refines_idle h) is
  obtain ⟨pre, post, heq⟩ := List.append_of_mem he
  obtain ⟨pre₁, t, pre₂, cmd, hpre, hsent, _, _⟩ :=
    (paired_of_path hobs hpath).submitted pre e post b heq hb
  have ht : t ∈ events ctx is := by simp [heq, hpre]
  have hlong := sent_length ctx is t ht cmd hsent
  have hshort := hcmds t ht cmd hsent
  omega

theorem toNat_eleven (A : Arch) : (BitVec.ofNat A.bits 11).toNat = 11 := by cases A <;> rfl

theorem Negotiated.accepts (h : Negotiated fw block size ctx) {n : SizeT A}
    (hfits : n.toNat ≤ ctx.size.toNat) (hlong : tpm2HeaderSize < n.toNat) :
    TransmitAccepts ctx n := by
  refine ⟨?_, ?_, hfits, hlong⟩
  · rw [h.ctx_eq]
    exact opened_valid block size
  · rw [h.ctx_eq]
    rfl

theorem not_submitsWithin (hfw : fw.Reports c r) (h : Negotiated fw block size ctx)
    (hc : tpm2HeaderSize < c.toNat) (hlt : c.toNat < r.toNat) : ¬SubmitsWithin ctx c.toNat := by
  intro hwithin
  have hpos : c ≠ 0 ∨ r ≠ 0 := .inl (by rintro rfl; simp at hc)
  have hcap := h.capacity_of_reports hfw hpos
  rw [Nat.max_eq_right (Nat.le_of_lt hlt)] at hcap
  simp only [tpm2HeaderSize] at hc
  have haccepts : TransmitAccepts ctx (BitVec.ofNat _ 11) :=
    h.accepts (by rw [toNat_eleven]; omega) (by rw [toNat_eleven]; decide)
  have hsub := submissions_exchange haccepts (fun _ => 0) 0 (fun _ => 0) hfw.located
  obtain ⟨e, he, hb⟩ := mem_submissions.mp (hsub ▸ List.mem_singleton_self _)
  have hle := hwithin _ (by simp [exchange, Call.isExchange]) ?_ e he _ hb
  · rw [submits_size ctx _ e he _ hb, toNat_toUInt32_of_lt h.capacity_lt] at hle
    omega
  · intro e he cmd hcmd
    simp only [exchange, events, Machine.trace_cons, Machine.trace_nil, List.mem_cons,
      List.not_mem_nil, or_false] at he
    rcases he with rfl | rfl
    · have hcmd' : Buffer.bytes (fun _ => 0) (BitVec.ofNat A.bits 11).toNat = cmd := by
        simpa [Event.sent, exec_transmit haccepts] using hcmd
      rw [← hcmd', Buffer.length_bytes, toNat_eleven]
      omega
    · cases hcmd

theorem input_within_limit_iff (hfw : fw.Reports c r) (hpos : c ≠ 0 ∨ r ≠ 0)
    (h : Negotiated fw block size ctx) :
    SubmitsWithin ctx c.toNat ↔ c.toNat ≤ 10 ∨ r.toNat ≤ c.toNat := by
  constructor
  · intro hwithin
    by_contra hnot
    have hboth : tpm2HeaderSize < c.toNat ∧ c.toNat < r.toNat := by
      simp only [tpm2HeaderSize]
      omega
    exact not_submitsWithin hfw h hboth.1 hboth.2 hwithin
  · rintro (hc | hle)
    · exact submitsWithin_of_le_header h hc
    · exact submitsWithin_of_response_le hfw hpos h hle

end Limits

theorem input_within_limit_4096 :
    SubmitsWithin ((filledBlock .x86_64 0).opened
        (sizeofTctiUefiContext (acceptingFirmware .x86_64 4096 2048)).val) (4096 : UInt16).toNat ↔
      (4096 : UInt16).toNat ≤ 10 ∨ (2048 : UInt16).toNat ≤ (4096 : UInt16).toNat :=
  input_within_limit_iff (acceptingFirmware_reports .x86_64 4096 2048) (by decide)
    (.of_reports (acceptingFirmware_reports .x86_64 4096 2048) (by decide) _)

theorem input_exceeds_limit_1024 :
    ¬SubmitsWithin ((filledBlock .x86_64 0).opened
        (sizeofTctiUefiContext (acceptingFirmware .x86_64 1024 4096)).val) 1024 :=
  not_submitsWithin (c := 1024) (r := 4096) (acceptingFirmware_reports .x86_64 1024 4096)
    (.of_reports (acceptingFirmware_reports .x86_64 1024 4096) (by decide) _) (by decide)
    (by decide)

/-- What a context promises its caller at every point of a run, for limits `c` and `r`. -/
structure Serves (s : TctiUefiContext A) (c r : Nat) : Prop where
  capacity : s.size.toNat = max c r
  transmit : s.state = .transmit → ∀ (n : SizeT A) cmd, 10 < n.toNat → n.toNat ≤ c →
    Event.succeeds (.transmit .given n (some cmd),
      ((Call.transmit .given n (some cmd)).exec s).2)
  receive : s.state = .receive → ∀ n fw, ∃ m : SizeT A, r ≤ m.toNat ∧
    ((Call.receive .given (some n) none tctiTimeoutBlock fw).exec s).2 =
      ⟨some .success, some m, none, []⟩ ∧
    ∀ buf fw', efiError fw'.locateProtocol.1 = false → ∃ b, b.outputSize.toNat = m.toNat ∧
      submissions (events s [.receive .given (some n) none tctiTimeoutBlock fw,
        .receive .given (some m) (some buf) tctiTimeoutBlock fw']) = [b]

theorem submissions_query {s : TctiUefiContext A} {fw fw' : Firmware A}
    (h : ReceiveReady s tctiTimeoutBlock) (n m : SizeT A) (buf : Buffer)
    (hfw : efiError fw'.locateProtocol.1 = false) :
    submissions (events s [.receive .given (some n) none tctiTimeoutBlock fw,
      .receive .given (some m) (some buf) tctiTimeoutBlock fw']) = [s.submitCall m] := by
  have hquery : (Call.receive .given (some n) none tctiTimeoutBlock fw).exec s =
      (s, ⟨some .success, some s.size, none, []⟩) := by
    simp only [Call.exec, ContextArg.resolve, tctiUefiReceive_query h, Option.getD_some]
  simp only [events, Machine.trace_cons, Machine.trace_nil, tcti_step, hquery, submissions,
    List.flatMap_cons, List.flatMap_nil, List.filterMap_nil, List.nil_append, List.append_nil]
  exact receive_submissions h hfw m buf

theorem serves_of_capacity {s : TctiUefiContext A} (hvalid : s.Valid) {c r : UInt16}
    (hcap : s.size.toNat = max c.toNat r.toNat) : Serves s c.toNat r.toNat where
  capacity := hcap
  transmit := by
    intro hstate n cmd hlong hle
    have haccepts : TransmitAccepts s n := ⟨hvalid, hstate, by omega, hlong⟩
    simp [Event.succeeds, exec_transmit haccepts]
  receive := by
    intro hstate n fw
    have hready : ReceiveReady s tctiTimeoutBlock := ⟨hvalid, hstate, rfl⟩
    have hlt : s.size.toNat < 2 ^ 16 := by
      have := c.toNat_lt
      have := r.toNat_lt
      omega
    refine ⟨s.size, by omega, ?_, ?_⟩
    · simp only [Call.exec, ContextArg.resolve, tctiUefiReceive_query hready]
    · intro buf fw' hfw'
      refine ⟨s.submitCall s.size, ?_, submissions_query hready n s.size buf hfw'⟩
      exact toNat_toUInt32_of_lt hlt

theorem negotiated_buffer_suffices {fw : Firmware A} {c r : UInt16} (hfw : fw.Reports c r)
    (hpos : c ≠ 0 ∨ r ≠ 0) :
    ∃ size : SizeT A,
      (∀ n conf, (tss2TctiUefiInit none (some n) conf fw).val = ⟨.success, none, some size⟩) ∧
      ∀ block conf fw', ∃ ctx,
        (tss2TctiUefiInit (some block) (some size) conf fw').val =
          ⟨.success, some ctx, some size⟩ ∧
        ∀ is : List (Call A), Serves ((tcti A).final ctx is) c.toNat r.toNat := by
  refine ⟨(sizeofTctiUefiContext fw).val, tss2TctiUefiInit_query hfw hpos, ?_⟩
  intro block conf fw'
  refine ⟨block.opened (sizeofTctiUefiContext fw).val, by rw [tss2TctiUefiInit_block], ?_⟩
  intro is
  have h := Negotiated.of_reports hfw hpos block
  obtain ⟨hcommon, hsize⟩ := final_header (block.opened (sizeofTctiUefiContext fw).val) is
  apply serves_of_capacity
  · simp only [TctiUefiContext.Valid, hcommon]
    exact opened_valid block _
  · rw [hsize, h.capacity_of_reports hfw hpos]

theorem negotiated_buffer_suffices_2048 :
    ∃ size : SizeT .ia32,
      (∀ n conf, (tss2TctiUefiInit none (some n) conf (acceptingFirmware .ia32 2048 4096)).val =
        ⟨.success, none, some size⟩) ∧
      ∀ block conf fw', ∃ ctx,
        (tss2TctiUefiInit (some block) (some size) conf fw').val =
          ⟨.success, some ctx, some size⟩ ∧
        ∀ is : List (Call .ia32), Serves ((tcti .ia32).final ctx is) 2048 4096 :=
  negotiated_buffer_suffices (acceptingFirmware_reports .ia32 2048 4096) (by decide)

end TctiUefi
