import TctiUefi.Tcti.Init
import TctiUefi.Tcti.Run

namespace TctiUefi

def Effect.Within (A : Arch) (n : Nat) : Effect → Prop
  | .print _ => True
  | .write s => s.Within n
  | .submit b => Layout.Span.Within ⟨offsetofCmdBuf A, b.inputSize.toNat⟩ n
  | .getEventLog _ => True

theorem Quiet.within (h : Quiet log) (A : Arch) (n : Nat) : ∀ e ∈ log, e.Within A n := by
  intro e he
  cases e with
  | print p => trivial
  | write s => exact (h.not_write s he).elim
  | submit b => exact (h.not_submit b he).elim
  | getEventLog format => trivial

def TctiUefiContext.Fits (c : TctiUefiContext A) (n : Nat) : Prop :=
  sizeofContext A + c.size.toNat ≤ n

theorem TctiUefiContext.Fits.member {c : TctiUefiContext A} (h : c.Fits n) (x : CtxMember) :
    (memberSpan A x).Within n :=
  (memberSpan_within A x).mono (Nat.le_trans (Nat.le_add_right _ _) h)

theorem TctiUefiContext.Fits.cmdBuf {c : TctiUefiContext A} (h : c.Fits n) {m : Nat}
    (hm : m ≤ c.size.toNat) : Layout.Span.Within ⟨offsetofCmdBuf A, m⟩ n := by
  simp only [Layout.Span.Within, offsetofCmdBuf_eq]
  exact Nat.le_trans (Nat.add_le_add_left hm _) h

theorem StepSpec.within {s : TctiUefiContext A} (h : StepSpec s i r) (hs : s.Fits n) :
    ∀ e ∈ r.2.effects, e.Within A n := by
  have hsubmit : (toUInt32 s.size).toNat ≤ s.size.toNat := by
    rw [toNat_toUInt32]
    exact Nat.mod_le _ _
  cases h with
  | refused _ _ hquiet _ => exact hquiet.within A n
  | stored haccepts =>
    simp only [List.forall_mem_cons, List.not_mem_nil, false_imp_iff, implies_true, and_true]
    exact ⟨hs.cmdBuf haccepts.fits, hs.member .state⟩
  | queried _ => simp
  | answered _ =>
    simp only [List.forall_mem_cons, List.not_mem_nil, false_imp_iff, implies_true, and_true]
    exact ⟨hs.cmdBuf hsubmit, hs.member .state⟩
  | unanswered _ _ hquiet =>
    rw [List.forall_mem_cons]
    exact ⟨hs.cmdBuf hsubmit, hquiet.within A n⟩
  | finalized _ =>
    simp only [List.forall_mem_cons, List.not_mem_nil, false_imp_iff, implies_true, and_true]
    exact hs.member .state

theorem run_within {s : TctiUefiContext A} (hs : s.Fits n) (is : List (Call A)) :
    ∀ ev ∈ events s is, ∀ e ∈ ev.2.effects, e.Within A n := by
  apply events_forall (P := fun ev => ∀ e ∈ ev.2.effects, e.Within A n)
  intro t i r h hsize
  apply h.within
  rw [TctiUefiContext.Fits, hsize]
  exact hs

/-- Init on a block of `*size = n` bytes records the room that is left after the header,
and neither Init nor any later run touches a byte past the block. -/
structure ContainedRuns (block : TctiUefiContext A) (n : SizeT A) (conf : Option String)
    (fw : Firmware A) : Prop where
  capacity : ∀ ctx, (tss2TctiUefiInit (some block) (some n) conf fw).val.rc = .success →
    (tss2TctiUefiInit (some block) (some n) conf fw).val.context = some ctx →
      ctx.size.toNat + sizeofContext A = n.toNat
  init : ∀ e ∈ (tss2TctiUefiInit (some block) (some n) conf fw).log, e.Within A n.toNat
  run : ∀ ctx, (tss2TctiUefiInit (some block) (some n) conf fw).val.context = some ctx →
    ∀ is, ∀ ev ∈ events ctx is, ∀ e ∈ ev.2.effects, e.Within A n.toNat

theorem init_contained_iff (block : TctiUefiContext A) (n : SizeT A) (conf : Option String)
    (fw : Firmware A) : ContainedRuns block n conf fw ↔ sizeofContext A ≤ n.toNat := by
  constructor
  · intro h
    have hsize : Effect.Within A n.toNat (.write (memberSpan A .size)) :=
      h.init _ (by simp [tss2TctiUefiInit_block, initMembers])
    rw [← sizeMember_end]
    exact hsize
  · intro hn
    have hcap : (block.opened n).size.toNat = n.toNat - sizeofContext A := opened_size_of_le hn
    refine ⟨?_, ?_, ?_⟩
    · intro ctx _ hctx
      obtain rfl : block.opened n = ctx := by simpa [tss2TctiUefiInit_block] using hctx
      omega
    · intro e he
      simp only [tss2TctiUefiInit_block, List.mem_map] at he
      obtain ⟨x, _, rfl⟩ := he
      exact (memberSpan_within A x).mono hn
    · intro ctx hctx
      obtain rfl : block.opened n = ctx := by simpa [tss2TctiUefiInit_block] using hctx
      apply run_within
      simp only [TctiUefiContext.Fits]
      omega

theorem init_contained_short_block :
    ¬ContainedRuns (filledBlock .x86_64 0) 16 none (acceptingFirmware .x86_64 4096 4096) := by
  intro h
  have hcap := h.capacity _ rfl rfl
  exact absurd hcap (by decide)

end TctiUefi
