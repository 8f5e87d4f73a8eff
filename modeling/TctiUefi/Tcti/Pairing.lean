import TctiUefi.Lib.Exchange
import TctiUefi.Tcti.Init
import TctiUefi.Tcti.Run

namespace TctiUefi

open Exchange

def Event.turn? (e : Event A) : Option Turn :=
  if e.sent.isSome then some .send else if e.answered then some .answer else none

def SubmitCall.Carries (b : SubmitCall) (cmd : List UInt8) : Prop :=
  cmd <+: b.input ∧ cmd.length ≤ b.inputSize.toNat

def Observed (e : Event A) : Act (List UInt8) → Prop
  | .send cmd => e.sent = some cmd ∧ e.finalizes = false ∧ ∀ b, ¬e.submits b
  | .ask cmd answered => e.sent = none ∧ e.answered = answered ∧ e.finalizes = false ∧
      ∃ b, submissions [e] = [b] ∧ b.Carries cmd
  | .peek => e.sent = none ∧ e.answered = false ∧ e.finalizes = false ∧ ∀ b, ¬e.submits b
  | .close => e.sent = none ∧ e.answered = false ∧ ¬e.succeeds ∧ ∀ b, ¬e.submits b
  | .silent => e.sent = none ∧ e.answered = false ∧ e.finalizes = false ∧ ¬e.succeeds ∧
      ∀ b, ¬e.submits b

theorem Observed.turn?_eq {e : Event A} {a : Act (List UInt8)} (h : Observed e a) :
    e.turn? = a.turn? := by
  cases a with
  | send cmd => simp [Event.turn?, Act.turn?, h.1]
  | ask cmd answered => cases answered <;> simp [Event.turn?, Act.turn?, h.1, h.2.1]
  | peek => simp [Event.turn?, Act.turn?, h.1, h.2.1]
  | close => simp [Event.turn?, Act.turn?, h.1, h.2.1]
  | silent => simp [Event.turn?, Act.turn?, h.1, h.2.1]

def TctiUefiContext.Tracks (s : TctiUefiContext A) : Phase (List UInt8) → Prop
  | .idle => s.state = .transmit
  | .pending cmd => s.state = .receive ∧ cmd.length ≤ s.size.toNat ∧
      s.cmdBuf.bytes cmd.length = cmd
  | .closed => s.state = .final

/-- The simulation relation.  The capacity must survive the conversion to `UINT32`. -/
structure Refines (s : TctiUefiContext A) (p : Phase (List UInt8)) : Prop where
  valid : s.Valid
  capacity : s.size.toNat < 2 ^ 32
  tracks : s.Tracks p

theorem submitCall_carries {s : TctiUefiContext A} {cmd : List UInt8} (n : SizeT A)
    (hcap : s.size.toNat < 2 ^ 32) (hlen : cmd.length ≤ s.size.toNat)
    (hbytes : s.cmdBuf.bytes cmd.length = cmd) : (s.submitCall n).Carries cmd := by
  have hsize : (toUInt32 s.size).toNat = s.size.toNat := by
    rw [toNat_toUInt32, Nat.mod_eq_of_lt hcap]
  refine ⟨?_, hsize ▸ hlen⟩
  rw [List.prefix_iff_eq_take]
  simp only [TctiUefiContext.submitCall, hsize]
  rw [Buffer.take_bytes _ hlen, hbytes]

theorem state_eq_receive {s : TctiUefiContext A} {p : Phase (List UInt8)} (h : s.Tracks p)
    (hs : s.state = .receive) :
    ∃ cmd, p = .pending cmd ∧ cmd.length ≤ s.size.toNat ∧ s.cmdBuf.bytes cmd.length = cmd := by
  cases p with
  | idle => exact absurd (hs.symm.trans h) (by simp)
  | pending cmd => exact ⟨cmd, rfl, h.2⟩
  | closed => exact absurd (hs.symm.trans h) (by simp)

theorem state_eq_transmit {s : TctiUefiContext A} {p : Phase (List UInt8)} (h : s.Tracks p)
    (hs : s.state = .transmit) : p = .idle := by
  cases p with
  | idle => rfl
  | pending cmd => exact absurd (hs.symm.trans h.1) (by simp)
  | closed => exact absurd (hs.symm.trans h) (by simp)

theorem Event.answered_of_not_succeeds {e : Event A} (h : ¬e.succeeds) : e.answered = false := by
  unfold Event.answered
  split
  · exact decide_eq_false h
  · rfl

theorem StepSpec.simulates {s : TctiUefiContext A} {p : Phase (List UInt8)} (h : StepSpec s i r)
    (hR : Refines s p) : ∃ a q, Observed (i, r.2) a ∧ Exchange.Step p a q ∧ Refines r.1 q := by
  cases h with
  | @refused _ o hrc _ hquiet hfin =>
    have hns : ¬Event.succeeds (i, o) := hrc
    refine ⟨.silent, p, ⟨Event.sent_of_not_succeeds hns, Event.answered_of_not_succeeds hns, ?_,
      hns, hquiet.not_submit⟩, .silent, hR⟩
    unfold Event.finalizes
    split
    · rename_i heq
      exact absurd hR.valid (hfin (Prod.mk.inj heq).1)
    · rfl
  | @stored n cmd haccepts =>
    obtain rfl := state_eq_transmit hR.tracks haccepts.state
    refine ⟨.send (cmd.bytes n.toNat), .pending (cmd.bytes n.toNat),
      ⟨by simp [Event.sent], rfl, ?_⟩, .send, hR.valid, hR.capacity, rfl, ?_, ?_⟩
    · simp [Event.submits]
    · simpa [TctiUefiContext.store] using haccepts.fits
    · simpa [TctiUefiContext.store] using Buffer.bytes_copy s.cmdBuf cmd n.toNat
  | queried hready =>
    obtain ⟨cmd, rfl, _⟩ := state_eq_receive hR.tracks hready.state
    exact ⟨.peek, .pending cmd, ⟨rfl, rfl, rfl, by simp [Event.submits]⟩, .peek, hR⟩
  | @answered n _ _ _ _ hready =>
    obtain ⟨cmd, rfl, hlen, hbytes⟩ := state_eq_receive hR.tracks hready.state
    exact ⟨.ask cmd true, .idle, ⟨rfl, by simp [Event.answered], rfl, s.submitCall n, rfl,
      submitCall_carries n hR.capacity hlen hbytes⟩, .answered, hR.valid, hR.capacity, rfl⟩
  | @unanswered n _ _ _ _ _ _ hready hrc hquiet =>
    obtain ⟨cmd, rfl, hlen, hbytes⟩ := state_eq_receive hR.tracks hready.state
    refine ⟨.ask cmd false, .pending cmd, ⟨rfl, by simpa [Event.answered] using hrc, rfl,
      s.submitCall n, ?_, submitCall_carries n hR.capacity hlen hbytes⟩, .unanswered, hR⟩
    simp [submissions, Effect.submission?, hquiet.submissions]
  | finalized _ =>
    exact ⟨.close, .closed, ⟨rfl, rfl, by simp [Event.succeeds], by simp [Event.submits]⟩, .close,
      hR.valid, hR.capacity, rfl⟩

theorem tcti_simulates (A : Arch) : (tcti A).Simulates Exchange.Step Observed Refines :=
  fun s _ i hR => (step_spec s i).simulates hR

structure Paired (tr : List (Event A)) : Prop where
  alternate : Alternating .send (tr.filterMap Event.turn?)
  submitted : ∀ pre e post b, tr = pre ++ e :: post → e.submits b →
    ∃ pre₁ t pre₂ cmd, pre = pre₁ ++ t :: pre₂ ∧ t.sent = some cmd ∧
      (∀ m ∈ pre₂, m.turn? = none) ∧ b.Carries cmd
  closed : ∀ pre e post, tr = pre ++ e :: post → e.finalizes = true →
    ∀ m ∈ post, ¬m.succeeds ∧ ∀ b, ¬m.submits b

theorem Observed.ask_of_submits {e : Event A} {a : Act (List UInt8)} (h : Observed e a)
    (hb : e.submits b) : ∃ cmd answered, a = .ask cmd answered ∧ b.Carries cmd := by
  cases a with
  | send cmd => exact absurd hb (h.2.2 b)
  | ask cmd answered =>
    obtain ⟨b', hb', hcarries⟩ := h.2.2.2
    have hmem : b ∈ submissions [e] := mem_submissions.mpr ⟨e, List.mem_singleton_self e, hb⟩
    rw [hb', List.mem_singleton] at hmem
    exact ⟨cmd, answered, rfl, hmem ▸ hcarries⟩
  | peek => exact absurd hb (h.2.2.2 b)
  | close => exact absurd hb (h.2.2.2 b)
  | silent => exact absurd hb (h.2.2.2.2 b)

theorem Observed.close_of_finalizes {e : Event A} {a : Act (List UInt8)} (h : Observed e a)
    (he : e.finalizes = true) : a = .close := by
  cases a with
  | send cmd => exact absurd he (by simp [h.2.1])
  | ask cmd answered => exact absurd he (by simp [h.2.2.1])
  | peek => exact absurd he (by simp [h.2.2.1])
  | close => rfl
  | silent => exact absurd he (by simp [h.2.2.1])

theorem Observed.inert {e : Event A} {a : Act (List UInt8)} (h : Observed e a)
    (ha : a = .close ∨ a = .silent) : ¬e.succeeds ∧ ∀ b, ¬e.submits b := by
  cases ha with
  | inl ha => subst ha; exact h.2.2
  | inr ha => subst ha; exact h.2.2.2

open Machine in
theorem paired_of_path {tr : List (Event A)} {as : List (Act (List UInt8))}
    {q : Phase (List UInt8)} (hobs : List.Forall₂ Observed tr as)
    (hpath : Path Exchange.Step .idle as q) : Paired tr where
  alternate := by
    rw [filterMap_eq_of_forall₂ (fun _ _ h => Observed.turn?_eq h) hobs]
    exact Path.alternating hpath
  submitted := by
    rintro pre e post b rfl hb
    obtain ⟨as₁, a, as₂, rfl, hpre, he, _⟩ := forall₂_append_left_inv hobs
    obtain ⟨cmd, answered, rfl, hcarries⟩ := he.ask_of_submits hb
    obtain ⟨bs₁, bs₂, rfl, hnone⟩ := Path.ask_last_sent hpath
    obtain ⟨pre₁, t, pre₂, rfl, _, ht, hpre₂⟩ := forall₂_append_right_inv hpre
    refine ⟨pre₁, t, pre₂, cmd, rfl, ht.1, ?_, hcarries⟩
    have hturns := filterMap_eq_of_forall₂ (fun _ _ h => Observed.turn?_eq h) hpre₂
    rw [List.filterMap_eq_nil_iff.mpr hnone] at hturns
    exact List.filterMap_eq_nil_iff.mp hturns
  closed := by
    rintro pre e post rfl he m hm
    obtain ⟨as₁, a, as₂, rfl, _, ha, hpost⟩ := forall₂_append_left_inv hobs
    obtain rfl := ha.close_of_finalizes he
    have hafter := Path.after_close hpath
    obtain ⟨post₁, post₂, rfl⟩ := List.append_of_mem hm
    obtain ⟨bs₁, b, bs₂, rfl, _, hb, _⟩ := forall₂_append_left_inv hpost
    exact hb.inert (hafter b (by simp))

theorem refines_idle {fw : Firmware A} {block ctx : TctiUefiContext A} {size : SizeT A}
    (h : Negotiated fw block size ctx) : Refines ctx .idle := by
  have hcap := h.capacity_lt
  have hctx := h.ctx_eq
  refine ⟨?_, ?_, ?_⟩
  · rw [hctx]
    exact opened_valid block size
  · omega
  · rw [hctx]
    rfl

theorem command_response_pairing {fw : Firmware A} {block ctx : TctiUefiContext A} {size : SizeT A}
    (h : Negotiated fw block size ctx) (is : List (Call A)) :
    Paired (events ctx is) := by
  obtain ⟨as, q, hobs, hpath, _⟩ := (tcti_simulates A).path (refines_idle h) is
  exact paired_of_path hobs hpath

theorem command_response_pairing_retry :
    Paired (events ((filledBlock .x86_64 0).opened
        (sizeofTctiUefiContext (acceptingFirmware .x86_64 4096 4096)).val)
      [.transmit .given 12 (some fun _ => 7),
        .receive .given (some 4096) (some fun _ => 0) tctiTimeoutBlock
          ⟨(efiDeviceError .x86_64, acceptingProtocol .x86_64 4096 4096)⟩,
        .receive .given (some 4096) (some fun _ => 0) tctiTimeoutBlock
          (acceptingFirmware .x86_64 4096 4096),
        .finalize .given]) :=
  command_response_pairing
    (.of_reports (acceptingFirmware_reports .x86_64 4096 4096) (by decide) _) _

end TctiUefi
