import TctiUefi.Pcr.Rounds

namespace TctiUefi

theorem getAlgName_eq_name_iff {alg : UInt16} {h : HashAlg} :
    getAlgName alg = h.name ↔ alg = h.id := by
  constructor
  · intro hname
    unfold getAlgName at hname
    split at hname
    · rename_i k hk
      obtain rfl := HashAlg.name_injective hname
      have hid := List.find?_some hk
      exact (of_decide_eq_true hid).symm
    · cases h <;> exact absurd hname (by decide)
  · rintro rfl
    exact getAlgName_id h

namespace Pcr

def Console.start : Console := ⟨"", 0, []⟩

/-- The request asks for what was asked for at the start, less what the console shows. -/
structure Narrowed (start request : TpmlPcrSelection) (c : Console) : Prop where
  banks : SameBanks start request
  asked : ∀ y h, y.1 < start.count.toNat → start.hashAt y.1 = HashAlg.id h →
    (request.has y = true ↔ start.has y = true ∧ ∀ digest, (h.name, y.2, digest) ∉ c.shown)

def Console.Names (c : Console) (lastAlg : UInt16) : Prop :=
  ∀ h : HashAlg, c.bank = h.name ↔ lastAlg = h.id

section Callback

variable {start : TpmlPcrSelection} {cbdata : CallbackData} {c : Console}

theorem selectedDigestCallback_shows (alg : UInt16) (pcr : UInt8) (hc : c.Names cbdata.lastAlg) :
    ∃ bank, c.read (selectedDigestCallback alg pcr (some cbdata)).log =
        ⟨bank, pcr.toNat,
          c.shown ++ [(bank, pcr.toNat, cbdata.tpmlDigests.bytes cbdata.digestI)]⟩ ∧
      ∀ h : HashAlg, bank = h.name ↔ alg = h.id := by
  rw [selectedDigestCallback_read_eq]
  by_cases hlast : cbdata.lastAlg = alg
  · rw [if_neg (not_not_intro hlast)]
    exact ⟨c.bank, rfl, fun h => hlast ▸ hc h⟩
  · rw [if_pos hlast]
    exact ⟨getAlgName alg, rfl, fun _ => getAlgName_eq_name_iff⟩

theorem Narrowed.callback (h : Narrowed start cbdata.pcrSelect c) (hc : c.Names cbdata.lastAlg)
    (alg : UInt16) (pcr : UInt8) :
    Narrowed start (cbdata.advance alg pcr).pcrSelect
        (c.read (selectedDigestCallback alg pcr (some cbdata)).log) ∧
      (c.read (selectedDigestCallback alg pcr (some cbdata)).log).Names
        (cbdata.advance alg pcr).lastAlg := by
  obtain ⟨bank, hread, hbank⟩ := selectedDigestCallback_shows alg pcr hc
  rw [hread]
  refine ⟨⟨?_, ?_⟩, hbank⟩
  · have hsame := sameBanks_deselect cbdata.pcrSelect alg pcr
    exact ⟨hsame.count.trans h.banks.count, fun i => (hsame.hash i).trans (h.banks.hash i),
      fun i => (hsame.size i).trans (h.banks.size i)⟩
  · intro y k hy hk
    have hhash : cbdata.pcrSelect.hashAt y.1 = k.id := (h.banks.hash _).trans hk
    have hdeselect : (cbdata.advance alg pcr).pcrSelect.has y = true ↔ _ :=
      has_deselect_iff (h.banks.count ▸ hy)
    have hnew : (∀ digest, (k.name, y.2, digest) ≠
        (bank, pcr.toNat, cbdata.tpmlDigests.bytes cbdata.digestI)) ↔
          ¬(k.id = alg ∧ y.2 = pcr.toNat) := by
      constructor
      · rintro hne ⟨rfl, hpcr⟩
        exact hne _ (by rw [(hbank k).mpr rfl, hpcr])
      · intro hne digest heq
        obtain ⟨hname, hrest⟩ := Prod.mk.inj heq
        exact hne ⟨((hbank k).mp hname.symm).symm, (Prod.mk.inj hrest).1⟩
    rw [hdeselect, h.asked y k hy hk, hhash, and_assoc, ← hnew]
    simp only [List.mem_append, List.mem_singleton, not_or, forall_and]

theorem Narrowed.callbacks (alg : Nat → UInt16) (xs : List (Nat × Nat))
    (h : Narrowed start cbdata.pcrSelect c) (hc : c.Names cbdata.lastAlg) :
    Narrowed start (advanceAll alg cbdata xs).pcrSelect
        (c.read (callLogs alg cbdata xs)) ∧
      (c.read (callLogs alg cbdata xs)).Names
        (advanceAll alg cbdata xs).lastAlg := by
  induction xs generalizing cbdata c with
  | nil => exact ⟨h, hc⟩
  | cons x xs ih =>
    obtain ⟨hfirst, hnames⟩ := h.callback hc (alg x.1) (UInt8.ofNat x.2)
    rw [callLogs, Console.read_append]
    exact ih hfirst hnames

end Callback

section Round

variable {tpm : Tpm} {start : TpmlPcrSelection} {s s' : RoundState} {c : Console}

theorem Narrowed.round (h : Narrowed start s.cbdata.pcrSelect c) (hc : c.Names s.cbdata.lastAlg)
    (hnext : Loop.next (readRound tpm) s = some s') :
    Narrowed start s'.cbdata.pcrSelect (c.read (readRound tpm s).log) ∧
      (c.read (readRound tpm s).log).Names s'.cbdata.lastAlg := by
  obtain ⟨hrc, _, rfl⟩ := next_readRound hnext
  rw [readRound_log, if_neg (not_not_intro hrc), (loops_eq s.cbdata (tpm.reply s)).2, after_eq]
  have hreceive : Narrowed start (s.cbdata.receive (tpm.reply s)).pcrSelect c := h
  exact hreceive.callbacks _ _ hc

theorem readRound_log_tail (tpm : Tpm) (s : RoundState) :
    ∃ tail, (readRound tpm s).log = .pcrRead s.cbdata.pcrSelect :: tail ∧
      ∀ request, .pcrRead request ∉ tail := by
  refine ⟨_, readRound_log tpm s, ?_⟩
  intro request hmem
  split at hmem
  · cases List.mem_singleton.mp hmem
  · rw [(loops_eq s.cbdata (tpm.reply s)).2] at hmem
    have hsilent := callLogs_logs selectedDigestCallback_logs _ _ _ _ hmem
    cases hsilent

theorem exists_of_append_eq {α : Type*} {tail xs pre post : List α} {x : α} (hx : x ∉ tail)
    (h : tail ++ xs = pre ++ x :: post) : ∃ rest, pre = tail ++ rest ∧ xs = rest ++ x :: post := by
  rcases List.append_eq_append_iff.mp h with hsplit | ⟨ys, rfl, hys⟩
  · exact hsplit
  · cases ys with
    | nil => exact ⟨[], by simp, by simpa using hys.symm⟩
    | cons y ys =>
      obtain ⟨rfl, _⟩ := List.cons.inj hys
      exact absurd (List.mem_append_right _ (List.mem_cons_self ..)) hx

theorem narrowed_of_log {n : Nat} (h : Narrowed start s.cbdata.pcrSelect c)
    (hc : c.Names s.cbdata.lastAlg) {pre post : List PcrEffect} {request : TpmlPcrSelection}
    (hlog : (Loop.run (readRound tpm) n s).log = pre ++ .pcrRead request :: post) :
    Narrowed start request (c.read pre) := by
  induction n generalizing s c pre with
  | zero => cases pre <;> cases hlog
  | succ n ih =>
    obtain ⟨tail, htail, hsilent⟩ := readRound_log_tail tpm s
    rw [Loop.run_succ, htail, List.cons_append] at hlog
    cases pre with
    | nil =>
      obtain ⟨heq, _⟩ := List.cons.inj hlog
      obtain rfl := PcrEffect.pcrRead.inj heq
      exact h
    | cons e pre =>
      obtain ⟨rfl, hrest⟩ := List.cons.inj hlog
      obtain ⟨rest, rfl, hlater⟩ := exists_of_append_eq (hsilent request) hrest
      cases hnext : Loop.next (readRound tpm) s with
      | none =>
        rw [hnext] at hlater
        cases rest <;> cases hlater
      | some s' =>
        rw [hnext] at hlater
        obtain ⟨hround, hnames⟩ := h.round hc hnext
        rw [← List.cons_append, ← htail, Console.read_append]
        exact ih hround hnames hlater

end Round

theorem narrowed_startState (activeBanks : UInt32) :
    Narrowed (selectAllActivePcrs activeBanks zeroSelection)
      (startState activeBanks).cbdata.pcrSelect Console.start :=
  ⟨⟨rfl, fun _ => rfl, fun _ => rfl⟩, fun _ _ _ _ => by simp [startState, Console.start]⟩

theorem names_startState (activeBanks : UInt32) :
    Console.start.Names (startState activeBanks).cbdata.lastAlg := by
  intro h
  change "" = h.name ↔ (0 : UInt16) = h.id
  cases h <;> decide

theorem pcrRead_asks_for_rest (tpm : Tpm) (activeBanks : UInt32) (n : Nat)
    {pre post : List PcrEffect} {request : TpmlPcrSelection}
    (hlog : (prettyprintPcrsAll tpm activeBanks n).log = pre ++ .pcrRead request :: post) :
    Narrowed (selectAllActivePcrs activeBanks zeroSelection) request (Console.start.read pre) :=
  narrowed_of_log (narrowed_startState activeBanks) (names_startState activeBanks) hlog

def firstPcrTpm : Tpm := fun _ _ _ =>
  ⟨0, ⟨1, fun _ => ⟨HashAlg.sha1.id, 3, Buffer.write (fun _ => 0) [1]⟩⟩,
    ⟨1, fun _ => ⟨20, fun _ => 0xaa⟩⟩⟩

theorem pcrRead_asks_for_rest_second :
    Narrowed (selectAllActivePcrs 1 zeroSelection)
      (deselect (selectAllActivePcrs 1 zeroSelection) HashAlg.sha1.id 0)
      (Console.start.read [.pcrRead (selectAllActivePcrs 1 zeroSelection), .digest 0,
        .print ⟨"PCR bank: %s\n", [.str HashAlg.sha1.name]⟩, .print ⟨"  PCR: %u\n", [.int 0]⟩,
        .dumpHex 4 (List.replicate 20 0xaa)]) :=
  pcrRead_asks_for_rest firstPcrTpm 1 2
    (rfl : (prettyprintPcrsAll firstPcrTpm 1 2).log = _ ++ PcrEffect.pcrRead _ ::
      [.digest 0, .print ⟨"  PCR: %u\n", [.int 0]⟩, .dumpHex 4 (List.replicate 20 0xaa)])

end Pcr

end TctiUefi
