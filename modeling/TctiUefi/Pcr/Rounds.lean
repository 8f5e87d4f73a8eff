import TctiUefi.Lib.Trail
import TctiUefi.Pcr.Received

namespace TctiUefi.Pcr

def isPcrRead : PcrEffect → Bool
  | .pcrRead _ => true
  | _ => false

def pcrReads (log : List PcrEffect) : Nat := log.countP isPcrRead

section Round

variable {tpm : Tpm} {s s' : RoundState}

theorem next_readRound (h : Loop.next (readRound tpm) s = some s') :
    (tpm.reply s).rc = 0 ∧ 0 < (tpm.reply s).tpmlDigests.count ∧
      s' = ⟨s.round + 1, s.cbdata.after (tpm.reply s), (tpm.reply s).pcrSelectOut⟩ := by
  rw [Loop.next_eq_some_iff, readRound_val] at h
  split at h
  · cases h
  · rename_i hrc
    split at h
    · rename_i hcount
      exact ⟨Decidable.not_not.mp hrc, hcount, (Sum.inl.inj h).symm⟩
    · cases h

theorem selectedDigestCallback_logs (alg : UInt16) (pcr : UInt8) (data : Option CallbackData) :
    (selectedDigestCallback alg pcr data).Logs fun e => isPcrRead e = false := by
  cases data with
  | none => exact Trace.logs_tell rfl
  | some cbdata =>
    intro e he
    rw [selectedDigestCallback_log] at he
    simp only [List.mem_append, List.mem_cons, List.not_mem_nil, or_false] at he
    rcases he with rfl | he | he | rfl | rfl
    · rfl
    · split at he
      · rw [List.mem_singleton.mp he]
        rfl
      · cases he
    · split at he
      · rw [List.mem_singleton.mp he]
        rfl
      · cases he
    · rfl
    · rfl

theorem pcrReads_readRound (tpm : Tpm) (s : RoundState) : pcrReads (readRound tpm s).log = 1 := by
  have hloops : pcrReads (s.cbdata.loops (tpm.reply s)).log = 0 := by
    rw [(loops_eq s.cbdata (tpm.reply s)).2, pcrReads, List.countP_eq_zero]
    intro e he
    rw [callLogs_logs selectedDigestCallback_logs _ _ _ e he]
    exact Bool.false_ne_true
  rw [readRound_log, pcrReads, List.countP_cons_of_pos rfl]
  split
  · rfl
  · rw [← pcrReads, hloops]

/-- A successful reply that brings digests, but for none of the PCRs asked for. -/
def Idle (request : TpmlPcrSelection) (reply : PcrReply) : Prop :=
  reply.rc = 0 ∧ 0 < reply.tpmlDigests.count ∧ ∀ y ∈ request.selected, ∀ x ∈ reply.received,
    ¬(request.hashAt y.1 = reply.pcrSelectOut.hashAt x.1 ∧ y.2 = x.2)

instance (request : TpmlPcrSelection) (reply : PcrReply) : Decidable (Idle request reply) :=
  inferInstanceAs (Decidable (_ ∧ _ ∧ _))

def idleRound (tpm : Tpm) (s : RoundState) : Bool := decide (Idle s.cbdata.pcrSelect (tpm.reply s))

theorem selected_after (cbdata : CallbackData) (reply : PcrReply) :
    (cbdata.after reply).pcrSelect.selected =
      cbdata.pcrSelect.selected.filter (cbdata.after reply).pcrSelect.has := by
  have hcount : (cbdata.after reply).pcrSelect.count = cbdata.pcrSelect.count := by
    rw [after_eq, pcrSelect_advanceAll]
    exact (sameBanks_foldl _ _ _).count
  rw [TpmlPcrSelection.selected, hcount, TpmlPcrSelection.selected, List.filter_filter]
  apply List.filter_congr
  intro y hy
  rw [Bool.eq_iff_iff, Bool.and_eq_true]
  have hafter := has_after_iff cbdata reply (mem_positions.mp hy).1
  exact ⟨fun h => ⟨h, (hafter.mp h).1⟩, fun h => h.1⟩

theorem length_selected_next (h : Loop.next (readRound tpm) s = some s') :
    s'.cbdata.pcrSelect.selected.length + 1 ≤
      s.cbdata.pcrSelect.selected.length + (idleRound tpm s).toNat := by
  obtain ⟨hrc, hcount, rfl⟩ := next_readRound h
  rw [selected_after]
  by_cases hidle : Idle s.cbdata.pcrSelect (tpm.reply s)
  · rw [idleRound, decide_eq_true hidle]
    exact Nat.succ_le_succ (List.length_filter_le _ _)
  · rw [idleRound, decide_eq_false hidle]
    have hgone : ∃ y ∈ s.cbdata.pcrSelect.selected,
        ¬(s.cbdata.after (tpm.reply s)).pcrSelect.has y = true := by
      by_contra hnone
      apply hidle
      refine ⟨hrc, hcount, ?_⟩
      intro y hy x hx hxy
      apply hnone
      refine ⟨y, hy, ?_⟩
      intro hbit
      have hbank := (mem_positions.mp (List.mem_of_mem_filter hy)).1
      rw [← shown_eq_received (.inl hcount)] at hx
      exact ((has_after_iff s.cbdata (tpm.reply s) hbank).mp hbit).2 x hx hxy
    exact List.length_filter_lt_length_iff_exists.mpr hgone

end Round

section Rounds

def rounds (tpm : Tpm) (activeBanks : UInt32) (n : Nat) : List RoundState :=
  Loop.states (readRound tpm) n (startState activeBanks)

theorem pcrReads_prettyprintPcrsAll (tpm : Tpm) (activeBanks : UInt32) (n : Nat) :
    pcrReads (prettyprintPcrsAll tpm activeBanks n).log = (rounds tpm activeBanks n).length := by
  change pcrReads (Loop.run (readRound tpm) n (startState activeBanks)).log = _
  rw [Loop.log_run_eq, rounds, pcrReads, List.countP_flatMap]
  have hone : List.countP isPcrRead ∘ (fun s => (readRound tpm s).log) = fun _ => 1 :=
    funext (pcrReads_readRound tpm)
  rw [hone, List.map_const', List.sum_replicate_nat, Nat.mul_one]

theorem length_rounds_le (tpm : Tpm) (activeBanks : UInt32) (n : Nat) :
    (rounds tpm activeBanks n).length ≤
      (selectAllActivePcrs activeBanks zeroSelection).selected.length + 1 +
        (rounds tpm activeBanks n).countP (idleRound tpm) :=
  Loop.length_states_le (μ := fun s : RoundState => s.cbdata.pcrSelect.selected.length)
    (fun _ _ => length_selected_next) n _

theorem prettyprintPcrsAll_reads_le (tpm : Tpm) (activeBanks : UInt32) :
    (∀ n, pcrReads (prettyprintPcrsAll tpm activeBanks n).log ≤
      (selectAllActivePcrs activeBanks zeroSelection).selected.length + 1 +
        (rounds tpm activeBanks n).countP (idleRound tpm)) ∧
    ((∀ n, ∀ s ∈ rounds tpm activeBanks n, ¬Idle s.cbdata.pcrSelect (tpm.reply s)) →
      ∃ t, Halts (prettyprintPcrsAll tpm activeBanks) t ∧
        pcrReads t.log ≤ (selectAllActivePcrs activeBanks zeroSelection).selected.length + 1) := by
  constructor
  · intro n
    rw [pcrReads_prettyprintPcrsAll]
    exact length_rounds_le tpm activeBanks n
  · intro hbusy
    have hle (n) : (rounds tpm activeBanks n).length ≤
        (selectAllActivePcrs activeBanks zeroSelection).selected.length + 1 := by
      have hnone : (rounds tpm activeBanks n).countP (idleRound tpm) = 0 := by
        rw [List.countP_eq_zero]
        intro s hs
        rw [idleRound, decide_eq_true_eq]
        exact hbusy n s hs
      have hrounds := length_rounds_le tpm activeBanks n
      rwa [hnone, Nat.add_zero] at hrounds
    obtain ⟨r, hevals⟩ := Loop.exists_evals_of_length_lt (Nat.lt_succ_of_le (hle _))
    refine ⟨_, hevals.halts, ?_⟩
    change pcrReads (prettyprintPcrsAll tpm activeBanks _).log ≤ _
    rw [pcrReads_prettyprintPcrsAll]
    exact hle _

def idleTpm : Tpm := fun _ _ _ => ⟨0, zeroSelection, { zeroDigests with count := 1 }⟩

theorem next_idleTpm (s : RoundState) : ∃ s', Loop.next (readRound idleTpm) s = some s' := by
  have hmore : 0 < (idleTpm.reply s).tpmlDigests.count := (by decide : (0 : UInt32) < 1)
  refine ⟨⟨s.round + 1, s.cbdata.after (idleTpm.reply s), zeroSelection⟩, ?_⟩
  rw [Loop.next_eq_some_iff, readRound_val, if_neg (fun h => h rfl), if_pos hmore]
  rfl

theorem prettyprintPcrsAll_idleTpm :
    OnlyKnownBanks 1 ∧
      (∀ round request before, (idleTpm round request before).tpmlDigests.count.toNat ≤ 8 ∧
        (idleTpm round request before).pcrSelectOut.count.toNat ≤ tpm2NumPcrBanks) ∧
      (selectAllActivePcrs 1 zeroSelection).selected.length = 24 ∧
      ∀ n, (prettyprintPcrsAll idleTpm 1 n).val = none ∧
        pcrReads (prettyprintPcrsAll idleTpm 1 n).log = n := by
  refine ⟨by decide, ?_, by decide, ?_⟩
  · intro round request before
    exact (by decide : (1 : UInt32).toNat ≤ 8 ∧ (0 : UInt32).toNat ≤ tpm2NumPcrBanks)
  · intro n
    have hnone : (prettyprintPcrsAll idleTpm 1 n).val = none :=
      Loop.run_eq_none (P := fun _ => True)
        (fun s _ => (next_idleTpm s).imp fun _ h => ⟨h, trivial⟩) trivial n
    refine ⟨hnone, ?_⟩
    rw [pcrReads_prettyprintPcrsAll]
    exact Loop.length_states_of_unfinished hnone

end Rounds

end TctiUefi.Pcr
