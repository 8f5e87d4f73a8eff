import TctiUefi.Pcr.Received

namespace TctiUefi.Pcr

section Prefix

variable {α : Type*} [DecidableEq α] {l : List α}

theorem filter_eq_take (hl : l.Nodup) {p q : α → Bool} {n : Nat}
    (h : ∀ x ∈ l, (q x = true ↔ x ∈ (l.filter p).take n)) :
    l.filter q = (l.filter p).take n := by
  calc l.filter q = (l.filter p).filter ((l.filter p).take n).elem := by
        rw [List.filter_filter]
        apply List.filter_congr
        intro x hx
        rw [Bool.eq_iff_iff, h x hx, Bool.and_eq_true, List.elem_iff]
        constructor
        · intro hmem
          exact ⟨hmem, (List.mem_filter.mp (List.mem_of_mem_take hmem)).2⟩
        · exact fun hx => hx.1
    _ = (l.filter p).take n := (hl.filter p).take_eq_filter_mem.symm

theorem filter_not_mem_take (hl : l.Nodup) (n : Nat) :
    l.filter (fun x => decide (x ∉ l.take n)) = l.drop n := by
  have hsplit := List.take_append_drop n l
  have hdisj : List.Disjoint (l.take n) (l.drop n) := by
    rw [← hsplit] at hl
    exact List.disjoint_of_nodup_append hl
  conv_lhs => rw [← hsplit, List.filter_append]
  rw [List.filter_eq_nil_iff.mpr, List.nil_append, List.filter_eq_self]
  · intro x hx
    rw [hsplit]
    simpa using fun hmem => hdisj hmem hx
  · intro x hx
    rw [hsplit]
    simpa using hx

end Prefix

section Round

structure RoundInv (s : RoundState) (c : Console) : Prop where
  readable : Readable s.cbdata.pcrSelect
  agrees : c.Agrees s.cbdata.lastAlg
  clear : s.pcrSelectOut.ClearPast s.cbdata.pcrSelect

variable {B : PcrBanks} {request : TpmlPcrSelection} {reply : PcrReply} {m : Nat}

theorem selected_reply (h : Conforms B request reply m) :
    reply.pcrSelectOut.selected = (B.wanted request).take m := by
  rw [TpmlPcrSelection.selected, h.count]
  exact filter_eq_take (nodup_positions _) h.bits

theorem clearPast_reply (h : Conforms B request reply m) :
    reply.pcrSelectOut.ClearPast request := by
  intro x hx hsize
  rw [Bool.eq_false_iff, ne_eq, h.bits x hx]
  intro hmem
  have hlt := (mem_wanted.mp (List.mem_of_mem_take hmem)).2.1
  omega

theorem wanted_deselected {request' : TpmlPcrSelection} (hsame : SameBanks request request')
    (hhas : ∀ y, y.1 < request.count.toNat →
      request'.has y = (request.has y && decide (y ∉ (B.wanted request).take m))) :
    B.wanted request' = (B.wanted request).drop m := by
  rw [← filter_not_mem_take (nodup_wanted B request) m]
  conv_rhs => rw [PcrBanks.wanted]
  rw [List.filter_filter, PcrBanks.wanted, hsame.count]
  apply List.filter_congr
  intro x hx
  rw [hhas x (mem_positions.mp hx).1, hsame.hash, hsame.size]
  simp only [PcrBanks.wanted, Bool.and_assoc, Bool.and_comm, Bool.and_left_comm]

def triple (B : PcrBanks) (request : TpmlPcrSelection) (x : Nat × Nat) :
    String × Nat × List UInt8 :=
  (getAlgName (request.hashAt x.1), x.2, B.value (request.hashAt x.1) x.2)

theorem lt_of_mem_taken {x : Nat × Nat} (hx : x ∈ (B.wanted request).take m) :
    x.1 < request.count.toNat ∧ x.2 < 256 := by
  have hpos := (mem_wanted.mp (List.mem_of_mem_take hx)).1
  exact ⟨hpos.1, Nat.lt_trans hpos.2 (by decide)⟩

theorem shown_reply (h : Conforms B request reply m) :
    reply.shown = (B.wanted request).take m := by
  have hselected := selected_reply h
  have hreceived : 0 < reply.tpmlDigests.count.toNat ∨ reply.pcrSelectOut.selected = [] := by
    rw [h.digestCount, hselected]
    cases m with
    | zero => exact .inr rfl
    | succ m => exact .inl (Nat.succ_pos m)
  rw [shown_eq_received hreceived, PcrReply.received, h.digestCount, hselected,
    List.length_take_of_le h.available, Nat.min_self, List.take_take, Nat.min_self]

theorem read_reply (hr : Readable request) (h : Conforms B request reply m)
    {cbdata : CallbackData} {c : Console} (hc : c.Agrees cbdata.lastAlg) :
    (c.read (cbdata.loops reply).log).Agrees (cbdata.after reply).lastAlg ∧
      (c.read (cbdata.loops reply).log).shown =
        c.shown ++ ((B.wanted request).take m).map (triple B request) := by
  have hshown := shown_reply h
  have hhash : ∀ x ∈ reply.shown, reply.pcrSelectOut.hashAt x.1 = request.hashAt x.1 :=
    fun x hx => h.hash x.1 (lt_of_mem_taken (hshown ▸ hx)).1
  have hnamed : ∀ x ∈ reply.shown, cbdata.lastAlg = reply.pcrSelectOut.hashAt x.1 →
      c.bank = getAlgName (reply.pcrSelectOut.hashAt x.1) := by
    intro x hx hlast
    rw [← hlast]
    apply hc
    rw [hlast, hhash x hx]
    exact hr.hash_ne_zero x.1 (lt_of_mem_taken (hshown ▸ hx)).1
  obtain ⟨hbank, hread⟩ := loops_read cbdata reply c hnamed
  constructor
  · by_cases hnil : reply.shown = []
    · rw [(loops_eq cbdata reply).2, after_eq, hnil]
      exact hc
    · exact fun _ => hbank hnil
  · rw [hread, ← hshown]
    congr 1
    apply List.ext_getElem (by simp)
    intro k _ hk
    rw [List.length_map] at hk
    have hget : ((B.wanted request).take m)[k]? = some reply.shown[k] := by
      rw [← hshown, List.getElem?_eq_getElem hk]
    rw [List.getElem_mapIdx, List.getElem_map, triple, hhash _ (List.getElem_mem _),
      ← h.digest k _ hget]
    rfl

theorem readRound_conforms {tpm : Tpm} {s : RoundState} {c : Console} (hinv : RoundInv s c)
    (h : Conforms B s.cbdata.pcrSelect (tpm.reply s) m) :
    ∃ s' : RoundState, (readRound tpm s).val = (if 0 < m then .inl s' else .inr 0) ∧
      RoundInv s' (c.read (readRound tpm s).log) ∧
      SameBanks s.cbdata.pcrSelect s'.cbdata.pcrSelect ∧
      B.wanted s'.cbdata.pcrSelect = (B.wanted s.cbdata.pcrSelect).drop m ∧
      (c.read (readRound tpm s).log).shown =
        c.shown ++ ((B.wanted s.cbdata.pcrSelect).take m).map (triple B s.cbdata.pcrSelect) := by
  have hr := hinv.readable
  have hrc : ¬(tpm.reply s).rc ≠ 0 := not_not_intro h.success
  obtain ⟨hagrees, hread⟩ := read_reply hr h hinv.agrees
  obtain ⟨hsame, hhas⟩ := deselect_all hr (fun i hi => (h.hash i hi).symm)
    fun x (hx : x ∈ (B.wanted s.cbdata.pcrSelect).take m) => lt_of_mem_taken hx
  have hrequest : (s.cbdata.after (tpm.reply s)).pcrSelect =
      ((B.wanted s.cbdata.pcrSelect).take m).foldl (fun sel x =>
        deselect sel ((tpm.reply s).pcrSelectOut.hashAt x.1) (UInt8.ofNat x.2))
          s.cbdata.pcrSelect := by
    rw [after_eq, shown_reply h, pcrSelect_advanceAll]
    rfl
  have hloops : c.read (readRound tpm s).log = c.read (s.cbdata.loops (tpm.reply s)).log := by
    rw [readRound_log, if_neg hrc]
    rfl
  rw [← hrequest] at hsame hhas
  refine ⟨⟨s.round + 1, s.cbdata.after (tpm.reply s), (tpm.reply s).pcrSelectOut⟩,
    ?_, ⟨hsame.readable hr, ?_, ?_⟩, hsame, wanted_deselected hsame hhas, ?_⟩
  · have hmore : 0 < (tpm.reply s).tpmlDigests.count ↔ 0 < m := by
      rw [UInt32.lt_iff_toNat_lt, h.digestCount]
      rfl
    rw [readRound_val, if_neg hrc]
    exact if_congr hmore rfl rfl
  · rw [hloops]
    exact hagrees
  · rw [(hsame.readable hr).clearPast_iff, hsame.count, ← hr.clearPast_iff]
    exact clearPast_reply h
  · rw [hloops, hread]

end Round

section ReadAll

variable {B : PcrBanks} {tpm : Tpm}

theorem SameBanks.triple_eq {request request' : TpmlPcrSelection}
    (h : SameBanks request request') : triple B request' = triple B request := by
  funext x
  rw [triple, triple, h.hash]

/-- From any round on, the loop ends and shows what is still wanted.  Each round that goes on
was given a digest, so that fewer PCRs are wanted in the next. -/
theorem evals_of_conforming (htpm : tpm.Conforming B) {s : RoundState} {c : Console}
    (hinv : RoundInv s c) :
    ∃ t, Loop.Evals (readRound tpm) s t ∧ t.val = 0 ∧
      (c.read t.log).shown =
        c.shown ++ (B.wanted s.cbdata.pcrSelect).map (triple B s.cbdata.pcrSelect) := by
  induction hn : (B.wanted s.cbdata.pcrSelect).length using Nat.strong_induction_on
    generalizing s c with
  | _ n ih =>
    obtain ⟨m, h⟩ := htpm s.round s.cbdata.pcrSelect s.pcrSelectOut hinv.readable.wellFormed
      hinv.clear
    obtain ⟨s', hval, hinv', hsame, hwanted, hshown⟩ := readRound_conforms hinv h
    have hbody (r) (hr : (readRound tpm s).val = r) :
        readRound tpm s = ⟨r, (readRound tpm s).log⟩ := by rw [← hr]
    by_cases hm : 0 < m
    · rw [if_pos hm] at hval
      have hlt : (B.wanted s'.cbdata.pcrSelect).length < n := by
        have havailable := h.available
        rw [hwanted, List.length_drop]
        omega
      obtain ⟨t, hevals, hzero, hrest⟩ := ih _ hlt hinv' rfl
      refine ⟨_, .next (hbody _ hval) hevals, hzero, ?_⟩
      rw [Console.read_append, hrest, hshown, hwanted, hsame.triple_eq, List.append_assoc,
        ← List.map_append, List.take_append_drop]
    · rw [if_neg hm] at hval
      have hnil : B.wanted s.cbdata.pcrSelect = [] := by
        by_contra hne
        exact hm (h.at_least hne)
      refine ⟨_, .exit (hbody _ hval), rfl, ?_⟩
      rw [hshown, hnil, List.take_nil]

section Start

variable {activeBanks : UInt32} (h : OnlyKnownBanks activeBanks)
include h

theorem hashAt_start {i : Nat} (hi : i < (banks activeBanks).length) :
    (selectAllActivePcrs activeBanks zeroSelection).hashAt i = ((banks activeBanks)[i]).id := by
  rw [TpmlPcrSelection.hashAt, selectAllActivePcrs_entry h _ hi]
  rfl

theorem has_start {x : Nat × Nat} (hx : x.1 < (banks activeBanks).length) (hp : x.2 < 24) :
    (selectAllActivePcrs activeBanks zeroSelection).has x = true := by
  have hbyte : x.2 / 8 < 3 := Nat.div_lt_of_lt_mul hp
  have hbit : x.2 % 8 < 8 := Nat.mod_lt _ (by decide)
  rw [TpmlPcrSelection.has, selectAllActivePcrs_entry h _ hx, Buffer.hasBit]
  simp only [allPcrs, Buffer.write, List.getD_eq_getElem?_getD, List.getElem?_replicate, hbyte,
    if_true, Option.getD_some]
  exact (by decide : ∀ j < 8, (0xff : UInt8).toBitVec.getLsbD j = true) _ hbit

theorem readable_start : Readable (selectAllActivePcrs activeBanks zeroSelection) where
  count := by
    rw [selectAllActivePcrs_count h]
    exact Nat.le_trans (length_banks activeBanks) (by decide)
  size i hi := by
    rw [selectAllActivePcrs_count h] at hi
    rw [TpmlPcrSelection.sizeAt, selectAllActivePcrs_entry h _ hi]
    rfl
  hash_ne_zero i hi := by
    rw [selectAllActivePcrs_count h] at hi
    rw [hashAt_start h hi]
    generalize (banks activeBanks)[i] = alg
    cases alg <;> decide
  hash_inj i hi j hj := by
    rw [selectAllActivePcrs_count h] at hi hj
    rw [hashAt_start h hi, hashAt_start h hj]
    intro heq
    exact (nodup_banks activeBanks).getElem_inj_iff.mp (HashAlg.id_injective heq)

theorem mem_wanted_start {x : Nat × Nat} :
    x ∈ B.wanted (selectAllActivePcrs activeBanks zeroSelection) ↔
      ∃ hi : x.1 < (banks activeBanks).length, x.2 < 24 ∧
        B.implemented ((banks activeBanks)[x.1]).id x.2 = true := by
  rw [mem_wanted, selectAllActivePcrs_count h]
  constructor
  · rintro ⟨⟨hi, _⟩, hsize, _, himpl⟩
    rw [(readable_start h).size x.1 (by rwa [selectAllActivePcrs_count h])] at hsize
    rw [hashAt_start h hi] at himpl
    exact ⟨hi, hsize, himpl⟩
  · rintro ⟨hi, hp, himpl⟩
    refine ⟨⟨hi, Nat.lt_trans hp (by decide)⟩, ?_, has_start h hi hp, ?_⟩
    · rw [(readable_start h).size x.1 (by rwa [selectAllActivePcrs_count h])]
      exact hp
    · rw [hashAt_start h hi]
      exact himpl

theorem triple_start {x : Nat × Nat} (hx : x.1 < (banks activeBanks).length) :
    triple B (selectAllActivePcrs activeBanks zeroSelection) x =
      (((banks activeBanks)[x.1]).name, x.2, B.value ((banks activeBanks)[x.1]).id x.2) := by
  rw [triple, hashAt_start h hx, getAlgName_id]

theorem nodup_triples : (((B.wanted (selectAllActivePcrs activeBanks zeroSelection)).map
    (triple B (selectAllActivePcrs activeBanks zeroSelection))).map
      fun line => (line.1, line.2.1)).Nodup := by
  rw [List.map_map]
  refine List.Nodup.map_on ?_ (nodup_wanted B _)
  intro x hx y hy heq
  obtain ⟨hi, -, -⟩ := (mem_wanted_start h).mp hx
  obtain ⟨hj, -, -⟩ := (mem_wanted_start h).mp hy
  rw [Function.comp_apply, Function.comp_apply, triple_start h hi, triple_start h hj] at heq
  obtain ⟨hname, hpcr⟩ := Prod.mk.inj heq
  have hbank := (nodup_banks activeBanks).getElem_inj_iff.mp (HashAlg.name_injective hname)
  exact Prod.ext hbank hpcr

theorem mem_triples {name : String} {pcr : Nat} {digest : List UInt8} :
    (name, pcr, digest) ∈ (B.wanted (selectAllActivePcrs activeBanks zeroSelection)).map
        (triple B (selectAllActivePcrs activeBanks zeroSelection)) ↔
      ∃ alg : HashAlg, activeBanks &&& alg.mask ≠ 0 ∧ name = alg.name ∧ pcr < 24 ∧
        B.implemented alg.id pcr = true ∧ digest = B.value alg.id pcr := by
  rw [List.mem_map]
  constructor
  · rintro ⟨x, hx, heq⟩
    obtain ⟨hi, hp, himpl⟩ := (mem_wanted_start h).mp hx
    rw [triple_start h hi] at heq
    obtain ⟨rfl, hrest⟩ := Prod.mk.inj heq
    obtain ⟨rfl, rfl⟩ := Prod.mk.inj hrest
    exact ⟨_, mem_banks.mp (List.getElem_mem hi), rfl, hp, himpl, rfl⟩
  · rintro ⟨alg, hactive, rfl, hp, himpl, rfl⟩
    obtain ⟨i, hi, rfl⟩ := List.getElem_of_mem (mem_banks.mpr hactive)
    exact ⟨(i, pcr), (mem_wanted_start h).mpr ⟨hi, hp, himpl⟩, triple_start h hi⟩

end Start

theorem roundInv_start {activeBanks : UInt32} (h : OnlyKnownBanks activeBanks) :
    RoundInv (startState activeBanks) ⟨"", 0, []⟩ where
  readable := readable_start h
  agrees hne := absurd rfl hne
  clear x _ _ := by simp [startState, TpmlPcrSelection.has, zeroSelection, Buffer.hasBit]

theorem prettyprintPcrsAll_shows_all (htpm : tpm.Conforming B) {activeBanks : UInt32}
    (h : OnlyKnownBanks activeBanks) :
    ∃ t, Halts (prettyprintPcrsAll tpm activeBanks) t ∧ t.val = 0 ∧
      ((printed t).map fun line => (line.1, line.2.1)).Nodup ∧
      ∀ name pcr digest, (name, pcr, digest) ∈ printed t ↔
        ∃ alg : HashAlg, activeBanks &&& alg.mask ≠ 0 ∧ name = alg.name ∧ pcr < 24 ∧
          B.implemented alg.id pcr = true ∧ digest = B.value alg.id pcr := by
  obtain ⟨t, hevals, hzero, hshown⟩ := evals_of_conforming htpm (roundInv_start h)
  refine ⟨t, hevals.halts, hzero, ?_, ?_⟩
  · rw [printed, hshown, List.nil_append]
    exact nodup_triples h
  · intro name pcr digest
    rw [printed, hshown, List.nil_append]
    exact mem_triples h

def numberedBanks : PcrBanks where
  implemented _ _ := true
  value alg pcr := List.replicate (getAlgSize alg) (UInt8.ofNat pcr)
  value_lt alg pcr := by
    rw [List.length_replicate, getAlgSize]
    cases HashAlg.ofId? alg with
    | none => decide
    | some h => cases h <;> decide

theorem prettyprintPcrsAll_shows_all_numbered :
    ∃ t, Halts (prettyprintPcrsAll (referenceTpm numberedBanks) 3) t ∧ t.val = 0 ∧
      ((printed t).map fun line => (line.1, line.2.1)).Nodup ∧
      ∀ name pcr digest, (name, pcr, digest) ∈ printed t ↔
        ∃ alg : HashAlg, (3 : UInt32) &&& alg.mask ≠ 0 ∧ name = alg.name ∧ pcr < 24 ∧
          numberedBanks.implemented alg.id pcr = true ∧ digest = numberedBanks.value alg.id pcr :=
  prettyprintPcrsAll_shows_all (referenceTpm_conforming numberedBanks) (by decide)

end ReadAll

end TctiUefi.Pcr

