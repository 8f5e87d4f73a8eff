import TctiUefi.Pcr.Console
import TctiUefi.Pcr.Request

namespace TctiUefi.Pcr

def printedPcr : PcrEffect → Option Nat
  | .print ⟨format, [.int pcr]⟩ => if format = "  PCR: %u\n" then some pcr else none
  | _ => none

section Loops

variable {alg : Nat → UInt16} {cbdata : CallbackData} {x : Nat × Nat} {xs : List (Nat × Nat)}

def callLogs (alg : Nat → UInt16) : CallbackData → List (Nat × Nat) → List PcrEffect
  | _, [] => []
  | cbdata, x :: xs => (selectedDigestCallback (alg x.1) (UInt8.ofNat x.2) (some cbdata)).log ++
      callLogs alg (cbdata.advance (alg x.1) (UInt8.ofNat x.2)) xs

/-- The PCRs that the callback is called on.  It compares the number of digests with the
index after the digest was read, so that it is called once even if there is none. -/
def shownPcrs (cbdata : CallbackData) (xs : List (Nat × Nat)) : List (Nat × Nat) :=
  xs.take (max 1 (cbdata.tpmlDigests.count.toNat - cbdata.digestI))

theorem shownPcrs_of_more (alg : Nat → UInt16)
    (h : cbdata.digestI + 1 < cbdata.tpmlDigests.count.toNat) :
    shownPcrs cbdata (x :: xs) =
      x :: shownPcrs (cbdata.advance (alg x.1) (UInt8.ofNat x.2)) xs := by
  have hmax : max 1 (cbdata.tpmlDigests.count.toNat - cbdata.digestI) =
      max 1 (cbdata.tpmlDigests.count.toNat - (cbdata.digestI + 1)) + 1 := by omega
  rw [shownPcrs, hmax, List.take_succ_cons]
  rfl

theorem shownPcrs_of_last (h : ¬cbdata.digestI + 1 < cbdata.tpmlDigests.count.toNat) :
    shownPcrs cbdata (x :: xs) = [x] := by
  have hmax : max 1 (cbdata.tpmlDigests.count.toNat - cbdata.digestI) = 1 := by omega
  rw [shownPcrs, hmax, List.take_succ_cons, List.take_zero]

theorem forWhile_shownPcrs (alg : Nat → UInt16) (cbdata : CallbackData) (xs : List (Nat × Nat)) :
    (forWhile (fun x => selectedDigestCallback (alg x.1) (UInt8.ofNat x.2)) xs
        (some cbdata)).val.2 = some (advanceAll alg cbdata (shownPcrs cbdata xs)) ∧
      (forWhile (fun x => selectedDigestCallback (alg x.1) (UInt8.ofNat x.2)) xs
        (some cbdata)).log = callLogs alg cbdata (shownPcrs cbdata xs) := by
  induction xs generalizing cbdata with
  | nil =>
    rw [shownPcrs, List.take_nil]
    exact ⟨rfl, rfl⟩
  | cons x xs ih =>
    have hval := selectedDigestCallback_val cbdata (alg x.1) (UInt8.ofNat x.2)
    simp only [forWhile, Trace.val_bind, Trace.log_bind, hval]
    by_cases hmore : cbdata.digestI + 1 < cbdata.tpmlDigests.count.toNat
    · have hrest := ih (cbdata.advance (alg x.1) (UInt8.ofNat x.2))
      rw [shownPcrs_of_more alg hmore]
      simp only [hmore, decide_true, if_true]
      exact ⟨hrest.1, congrArg _ hrest.2⟩
    · rw [shownPcrs_of_last hmore]
      simp only [hmore, decide_false, Bool.false_eq_true, if_false]
      exact ⟨rfl, rfl⟩

theorem callLogs_logs {P : PcrEffect → Prop}
    (h : ∀ alg pcr data, (selectedDigestCallback alg pcr data).Logs P) (alg : Nat → UInt16)
    (cbdata : CallbackData) (xs : List (Nat × Nat)) : ∀ e ∈ callLogs alg cbdata xs, P e := by
  induction xs generalizing cbdata with
  | nil => simp [callLogs]
  | cons x xs ih =>
    intro e he
    rcases List.mem_append.mp he with he | he
    · exact h _ _ _ e he
    · exact ih _ e he

theorem selectedDigestCallback_digest_iff (cbdata : CallbackData) (alg : UInt16) (pcr : UInt8)
    (i : Nat) : .digest i ∈ (selectedDigestCallback alg pcr (some cbdata)).log ↔
      i = cbdata.digestI := by
  rw [selectedDigestCallback_log]
  split <;> split <;> simp

theorem digest_mem_callLogs_iff (alg : Nat → UInt16) (cbdata : CallbackData)
    (xs : List (Nat × Nat)) (i : Nat) : .digest i ∈ callLogs alg cbdata xs ↔
      cbdata.digestI ≤ i ∧ i < cbdata.digestI + xs.length := by
  induction xs generalizing cbdata with
  | nil =>
    simp only [callLogs, List.not_mem_nil, List.length_nil, false_iff]
    omega
  | cons x xs ih =>
    rw [callLogs, List.mem_append, selectedDigestCallback_digest_iff, ih, List.length_cons]
    change i = cbdata.digestI ∨ cbdata.digestI + 1 ≤ i ∧ i < cbdata.digestI + 1 + xs.length ↔ _
    omega

theorem selectedDigestCallback_printed (cbdata : CallbackData) (alg : UInt16) (pcr : UInt8) :
    (selectedDigestCallback alg pcr (some cbdata)).log.filterMap printedPcr = [pcr.toNat] := by
  rw [selectedDigestCallback_log, List.filterMap_cons_none rfl,
    List.filterMap_append, List.filterMap_append]
  split <;> split <;> rfl

theorem callLogs_printed (hxs : ∀ x ∈ xs, x.2 < 256) (cbdata : CallbackData) :
    (callLogs alg cbdata xs).filterMap printedPcr = xs.map Prod.snd := by
  induction xs generalizing cbdata with
  | nil => rfl
  | cons x xs ih =>
    have hnat : (UInt8.ofNat x.2).toNat = x.2 :=
      UInt8.toNat_ofNat_of_lt' (hxs x (List.mem_cons_self ..))
    rw [callLogs, List.filterMap_append, selectedDigestCallback_printed, hnat,
      ih fun y hy => hxs y (List.mem_cons_of_mem _ hy)]
    rfl

theorem callLogs_read (alg : Nat → UInt16) (xs : List (Nat × Nat)) (cbdata : CallbackData)
    (c : Console) (hpcr : ∀ x ∈ xs, x.2 < 256)
    (hc : ∀ x ∈ xs, cbdata.lastAlg = alg x.1 → c.bank = getAlgName (alg x.1)) :
    (xs ≠ [] → (c.read (callLogs alg cbdata xs)).bank =
        getAlgName (advanceAll alg cbdata xs).lastAlg) ∧
      (c.read (callLogs alg cbdata xs)).shown = c.shown ++ xs.mapIdx fun k x =>
        (getAlgName (alg x.1), x.2, cbdata.tpmlDigests.bytes (cbdata.digestI + k)) := by
  induction xs generalizing cbdata c with
  | nil => exact ⟨fun h => absurd rfl h, (List.append_nil _).symm⟩
  | cons x xs ih =>
    have hnat : (UInt8.ofNat x.2).toNat = x.2 :=
      UInt8.toNat_ofNat_of_lt' (hpcr x (List.mem_cons_self ..))
    have hfirst := selectedDigestCallback_read (UInt8.ofNat x.2) (hc x (List.mem_cons_self ..))
    rw [hnat] at hfirst
    obtain ⟨hbank, hshown⟩ := ih (cbdata.advance (alg x.1) (UInt8.ofNat x.2))
      ⟨getAlgName (alg x.1), x.2, c.shown ++
        [(getAlgName (alg x.1), x.2, cbdata.tpmlDigests.bytes cbdata.digestI)]⟩
      (fun y hy => hpcr y (List.mem_cons_of_mem _ hy)) (fun _ _ hsame => congrArg getAlgName hsame)
    rw [callLogs, Console.read_append, hfirst]
    constructor
    · intro _
      cases xs with
      | nil => rfl
      | cons y ys => exact hbank (List.cons_ne_nil _ _)
    · rw [hshown, List.mapIdx_cons, List.append_assoc, List.singleton_append]
      congr 3
      funext k y
      change (_, _, cbdata.tpmlDigests.bytes (cbdata.digestI + 1 + k)) = _
      rw [Nat.add_assoc, Nat.add_comm 1 k]

end Loops

section Received

variable {cbdata : CallbackData} {reply : PcrReply}

def CallbackData.receive (cbdata : CallbackData) (reply : PcrReply) : CallbackData :=
  { cbdata with digestI := 0, tpmlDigests := reply.tpmlDigests }

def CallbackData.loops (cbdata : CallbackData) (reply : PcrReply) :
    Trace PcrEffect (Option CallbackData) :=
  foreachSelection reply.pcrSelectOut selectedDigestCallback (some (cbdata.receive reply))

/-- The data that the loops over a reply leave. -/
def CallbackData.after (cbdata : CallbackData) (reply : PcrReply) : CallbackData :=
  (cbdata.loops reply).val.getD (cbdata.receive reply)

def PcrReply.received (reply : PcrReply) : List (Nat × Nat) :=
  reply.pcrSelectOut.selected.take
    (min reply.tpmlDigests.count.toNat reply.pcrSelectOut.selected.length)

def PcrReply.shown (reply : PcrReply) : List (Nat × Nat) :=
  reply.pcrSelectOut.selected.take (max 1 reply.tpmlDigests.count.toNat)

/-- Only digests that were received are shown, and only their PCRs leave the request.  The banks
are read off a console that names the one the callback remembers. -/
structure ShowsReceived (cbdata : CallbackData) (reply : PcrReply) : Prop where
  reads : ∀ i, .digest i ∈ (cbdata.loops reply).log → i < reply.tpmlDigests.count.toNat
  prints : (cbdata.loops reply).log.filterMap printedPcr = reply.received.map Prod.snd
  shows : ∀ c : Console, c.bank = getAlgName cbdata.lastAlg →
    (c.read (cbdata.loops reply).log).shown = c.shown ++ reply.received.mapIdx fun k x =>
      (getAlgName (reply.pcrSelectOut.hashAt x.1), x.2, reply.tpmlDigests.bytes k)
  deselects : ∀ y, y.1 < cbdata.pcrSelect.count.toNat → cbdata.pcrSelect.has y = true →
    (cbdata.after reply).pcrSelect.has y = false →
      ∃ x ∈ reply.received,
        cbdata.pcrSelect.hashAt y.1 = reply.pcrSelectOut.hashAt x.1 ∧ y.2 = x.2

theorem loops_eq (cbdata : CallbackData) (reply : PcrReply) :
    (cbdata.loops reply).val =
        some (advanceAll reply.pcrSelectOut.hashAt (cbdata.receive reply) reply.shown) ∧
      (cbdata.loops reply).log =
        callLogs reply.pcrSelectOut.hashAt (cbdata.receive reply) reply.shown := by
  rw [CallbackData.loops, foreachSelection_eq, Trace.val_map, Trace.log_map]
  exact forWhile_shownPcrs _ _ _

theorem after_eq (cbdata : CallbackData) (reply : PcrReply) : cbdata.after reply =
    advanceAll reply.pcrSelectOut.hashAt (cbdata.receive reply) reply.shown := by
  rw [CallbackData.after, (loops_eq cbdata reply).1, Option.getD_some]

theorem snd_lt_of_mem_selected {sel : TpmlPcrSelection} {x : Nat × Nat} (h : x ∈ sel.selected) :
    x.2 < 256 :=
  Nat.lt_trans (mem_positions.mp (List.mem_of_mem_filter h)).2 (by decide)

theorem snd_lt_of_mem_shown {x : Nat × Nat} (h : x ∈ reply.shown) : x.2 < 256 :=
  snd_lt_of_mem_selected (List.mem_of_mem_take h)

theorem has_after_iff (cbdata : CallbackData) (reply : PcrReply) {y : Nat × Nat}
    (hy : y.1 < cbdata.pcrSelect.count.toNat) :
    (cbdata.after reply).pcrSelect.has y = true ↔
      cbdata.pcrSelect.has y = true ∧ ∀ x ∈ reply.shown,
        ¬(cbdata.pcrSelect.hashAt y.1 = reply.pcrSelectOut.hashAt x.1 ∧ y.2 = x.2) := by
  rw [after_eq, pcrSelect_advanceAll]
  exact has_deselectAll_iff (fun x hx => snd_lt_of_mem_shown hx) hy

theorem shown_eq_received
    (h : 0 < reply.tpmlDigests.count.toNat ∨ reply.pcrSelectOut.selected = []) :
    reply.shown = reply.received := by
  rw [PcrReply.shown, PcrReply.received]
  cases h with
  | inl hcount => rw [Nat.max_eq_right hcount, ← List.take_eq_take_min]
  | inr hnil => rw [hnil, List.take_nil, List.take_nil]

theorem digest_mem_loops_iff (cbdata : CallbackData) (reply : PcrReply) (i : Nat) :
    .digest i ∈ (cbdata.loops reply).log ↔ i < reply.shown.length := by
  rw [(loops_eq cbdata reply).2, digest_mem_callLogs_iff]
  change 0 ≤ i ∧ i < 0 + _ ↔ _
  omega

theorem loops_read (cbdata : CallbackData) (reply : PcrReply) (c : Console)
    (hc : ∀ x ∈ reply.shown, cbdata.lastAlg = reply.pcrSelectOut.hashAt x.1 →
      c.bank = getAlgName (reply.pcrSelectOut.hashAt x.1)) :
    (reply.shown ≠ [] → (c.read (cbdata.loops reply).log).bank =
        getAlgName (cbdata.after reply).lastAlg) ∧
      (c.read (cbdata.loops reply).log).shown = c.shown ++ reply.shown.mapIdx fun k x =>
        (getAlgName (reply.pcrSelectOut.hashAt x.1), x.2, reply.tpmlDigests.bytes k) := by
  rw [(loops_eq cbdata reply).2, after_eq]
  have hread := callLogs_read reply.pcrSelectOut.hashAt reply.shown (cbdata.receive reply) c
    (fun x hx => snd_lt_of_mem_shown hx) hc
  simpa only [CallbackData.receive, Nat.zero_add] using hread

theorem showsReceived_iff (cbdata : CallbackData) (reply : PcrReply) :
    ShowsReceived cbdata reply ↔
      0 < reply.tpmlDigests.count.toNat ∨ reply.pcrSelectOut.selected = [] := by
  constructor
  · intro h
    cases hselected : reply.pcrSelectOut.selected with
    | nil => exact .inr rfl
    | cons x xs =>
      -- the first call reads the first digest
      have hpos : 0 < reply.shown.length := by
        rw [PcrReply.shown, hselected, List.length_take, List.length_cons]
        omega
      exact .inl (h.reads 0 ((digest_mem_loops_iff cbdata reply 0).mpr hpos))
  · intro h
    have hshown := shown_eq_received h
    constructor
    · intro i hi
      rw [digest_mem_loops_iff, hshown, PcrReply.received, List.length_take] at hi
      omega
    · rw [(loops_eq cbdata reply).2, callLogs_printed fun x hx => snd_lt_of_mem_shown hx, hshown]
    · intro c hc
      rw [← hshown]
      exact (loops_read cbdata reply c fun _ _ hlast => hc.trans (congrArg _ hlast)).2
    · intro y hy hbit hgone
      by_contra hnone
      have hkept := (has_after_iff cbdata reply hy).mpr ⟨hbit, fun x hx hxy =>
        hnone ⟨x, hshown ▸ hx, hxy⟩⟩
      rw [hgone] at hkept
      cases hkept

theorem shows_without_digest :
    (⟨0, sha256Selection 3 [0x01], zeroDigests⟩ : PcrReply).tpmlDigests.count.toNat ≤ 8 ∧
      (sha256Selection 3 [0x01]).count.toNat ≤ tpm2NumPcrBanks ∧
      ¬ShowsReceived ⟨0, 0, zeroDigests, sha256Selection 3 [0xff, 0xff, 0xff]⟩
        ⟨0, sha256Selection 3 [0x01], zeroDigests⟩ := by
  refine ⟨by decide, by decide, ?_⟩
  intro h
  have hread : PcrEffect.digest 0 ∈ (CallbackData.loops
      ⟨0, 0, zeroDigests, sha256Selection 3 [0xff, 0xff, 0xff]⟩
        ⟨0, sha256Selection 3 [0x01], zeroDigests⟩).log := List.mem_cons_self ..
  exact absurd (h.reads 0 hread) (by decide)

end Received

section Round

def Tpm.reply (tpm : Tpm) (s : RoundState) : PcrReply :=
  tpm s.round s.cbdata.pcrSelect s.pcrSelectOut

theorem readRound_val (tpm : Tpm) (s : RoundState) : (readRound tpm s).val =
    if (tpm.reply s).rc ≠ 0 then .inr 1
    else if 0 < (tpm.reply s).tpmlDigests.count then
      .inl ⟨s.round + 1, s.cbdata.after (tpm.reply s), (tpm.reply s).pcrSelectOut⟩
    else .inr 0 := by
  have hdigests : (s.cbdata.after (tpm.reply s)).tpmlDigests = (tpm.reply s).tpmlDigests := by
    rw [after_eq, tpmlDigests_advanceAll]
    rfl
  rw [← hdigests]
  simp only [readRound, Trace.val_bind, Trace.val_ite, Trace.val_pure]
  rfl

theorem readRound_log (tpm : Tpm) (s : RoundState) :
    (readRound tpm s).log = .pcrRead s.cbdata.pcrSelect ::
      if (tpm.reply s).rc ≠ 0 then
        [.print ⟨"ERROR: Tss2_Sys_PCR_Read failed with RC: 0x%x\n",
          [.int (tpm.reply s).rc.toNat]⟩]
      else
        (s.cbdata.loops (tpm.reply s)).log := by
  simp only [readRound, Trace.log_bind, Trace.log_ite, Trace.log_tell, Trace.log_pure,
    List.append_nil, ite_self, print]
  rfl

end Round

end TctiUefi.Pcr
