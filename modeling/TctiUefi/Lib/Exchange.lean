import TctiUefi.Lib.Machine

universe u

namespace TctiUefi.Exchange

open Machine

variable {Cmd : Type u}

/-- Where a half-duplex exchange stands: nothing sent, one command waiting for its answer,
or closed for good. -/
inductive Phase (Cmd : Type u)
  | idle
  | pending (c : Cmd)
  | closed

/-- What a call did to the exchange.  An `ask` passes the waiting command on; only an
answered one ends the exchange.  A `peek` asks how large the answer may be. -/
inductive Act (Cmd : Type u)
  | send (c : Cmd)
  | ask (c : Cmd) (answered : Bool)
  | peek
  | close
  | silent

inductive Step : Phase Cmd → Act Cmd → Phase Cmd → Prop
  | send {c} : Step .idle (.send c) (.pending c)
  | answered {c} : Step (.pending c) (.ask c true) .idle
  | unanswered {c} : Step (.pending c) (.ask c false) (.pending c)
  | peek {c} : Step (.pending c) .peek (.pending c)
  | close {p} : Step p .close .closed
  | silent {p} : Step p .silent p

inductive Turn where | send | answer
  deriving DecidableEq

def Turn.other : Turn → Turn
  | .send => .answer
  | .answer => .send

def Act.turn? : Act Cmd → Option Turn
  | .send _ => some .send
  | .ask _ true => some .answer
  | .ask _ false => none
  | .peek => none
  | .close => none
  | .silent => none

/-- `Alternating t ts`: the list starts with `t`, unless it is empty, and each turn is
followed by the other one. -/
def Alternating : Turn → List Turn → Prop
  | _, [] => True
  | t, u :: us => u = t ∧ Alternating t.other us

theorem Path.closed {as : List (Act Cmd)} {q : Phase Cmd} (h : Path Step .closed as q) :
    ∀ a ∈ as, a = .close ∨ a = .silent := by
  induction as with
  | nil => simp
  | cons a as ih =>
    cases h with
    | cons hstep h =>
      cases hstep with
      | close => simpa using ih h
      | silent => simpa using ih h

theorem turns_of_closed {as : List (Act Cmd)} {q : Phase Cmd} (h : Path Step .closed as q) :
    as.filterMap Act.turn? = [] := by
  rw [List.filterMap_eq_nil_iff]
  intro a ha
  rcases Path.closed h a ha with rfl | rfl <;> rfl

def Phase.turn : Phase Cmd → Turn
  | .idle => .send
  | .pending _ => .answer
  | .closed => .send

theorem Path.alternating {as : List (Act Cmd)} {p q : Phase Cmd} (h : Path Step p as q) :
    Alternating p.turn (as.filterMap Act.turn?) := by
  induction as generalizing p with
  | nil => trivial
  | cons a as ih =>
    cases h with
    | cons hstep h =>
      cases hstep with
      | send => exact ⟨rfl, ih h⟩
      | answered => exact ⟨rfl, ih h⟩
      | unanswered => exact ih h
      | peek => exact ih h
      | silent => exact ih h
      | close =>
        simp only [List.filterMap_cons, Act.turn?]
        rw [turns_of_closed h]
        trivial

theorem Path.pending {as : List (Act Cmd)} {p : Phase Cmd} {c : Cmd}
    (h : Path Step p as (.pending c)) :
    (p = .pending c ∧ ∀ a ∈ as, a.turn? = none) ∨
      ∃ pre post, as = pre ++ .send c :: post ∧ ∀ a ∈ post, a.turn? = none := by
  induction as generalizing p with
  | nil => cases h; exact .inl ⟨rfl, by simp⟩
  | cons a as ih =>
    cases h with
    | cons hstep h =>
      rcases ih h with ⟨rfl, hnone⟩ | ⟨pre, post, rfl, hnone⟩
      · cases hstep with
        | send => exact .inr ⟨[], as, rfl, hnone⟩
        | unanswered => exact .inl ⟨rfl, by simpa [Act.turn?] using hnone⟩
        | peek => exact .inl ⟨rfl, by simpa [Act.turn?] using hnone⟩
        | silent => exact .inl ⟨rfl, by simpa [Act.turn?] using hnone⟩
      · exact .inr ⟨a :: pre, post, rfl, hnone⟩

theorem Path.ask_last_sent {pre post : List (Act Cmd)} {c : Cmd} {b : Bool} {q : Phase Cmd}
    (h : Path Step .idle (pre ++ .ask c b :: post) q) :
    ∃ pre₁ pre₂, pre = pre₁ ++ .send c :: pre₂ ∧ ∀ a ∈ pre₂, a.turn? = none := by
  obtain ⟨r, hpre, hask⟩ := Path.append_inv h
  have hr : r = .pending c := by
    cases hask with
    | cons hstep _ => cases hstep <;> rfl
  subst hr
  rcases Path.pending hpre with ⟨hp, _⟩ | hsent
  · cases hp
  · exact hsent

theorem Path.after_close {pre post : List (Act Cmd)} {p q : Phase Cmd}
    (h : Path Step p (pre ++ .close :: post) q) : ∀ a ∈ post, a = .close ∨ a = .silent := by
  obtain ⟨r, _, hpost⟩ := Path.append_inv h
  cases hpost with
  | cons hstep hpost =>
    cases hstep
    exact Path.closed hpost

def Act.sent? : Act Cmd → Option Cmd
  | .send c => some c
  | .ask _ _ => none
  | .peek => none
  | .close => none
  | .silent => none

def Act.asked? : Act Cmd → Option (Cmd × Bool)
  | .send _ => none
  | .ask c answered => some (c, answered)
  | .peek => none
  | .close => none
  | .silent => none

def Phase.waiting : Phase Cmd → List Cmd
  | .idle => []
  | .pending c => [c]
  | .closed => []

/-- How often a command that was sent was passed on in vain, and whether it was then answered. -/
structure Fate (Cmd : Type u) where
  command : Cmd
  failed : Nat
  answered : Bool

def Fate.asks (f : Fate Cmd) : List (Cmd × Bool) :=
  List.replicate f.failed (f.command, false) ++ if f.answered then [(f.command, true)] else []

theorem Fate.asks_failed (f : Fate Cmd) :
    Fate.asks { f with failed := f.failed + 1 } = (f.command, false) :: f.asks := rfl

theorem Path.nothing_after_close {as : List (Act Cmd)} {q : Phase Cmd}
    (h : Path Step .closed as q) :
    as.filterMap Act.sent? = [] ∧ as.filterMap Act.asked? = [] := by
  constructor
  · rw [List.filterMap_eq_nil_iff]
    intro a ha
    rcases Path.closed h a ha with rfl | rfl <;> rfl
  · rw [List.filterMap_eq_nil_iff]
    intro a ha
    rcases Path.closed h a ha with rfl | rfl <;> rfl

structure Fates (sent : List Cmd) (asked : List (Cmd × Bool)) (fates : List (Fate Cmd)) :
    Prop where
  sent : sent = fates.map Fate.command
  asked : asked = fates.flatMap Fate.asks
  answered : ∀ f ∈ fates.dropLast, f.answered = true

theorem Phase.exists_fates (p : Phase Cmd) : ∃ fates, Fates p.waiting [] fates := by
  cases p with
  | idle => exact ⟨[], rfl, rfl, by simp⟩
  | pending c => exact ⟨[⟨c, 0, false⟩], rfl, rfl, by simp⟩
  | closed => exact ⟨[], rfl, rfl, by simp⟩

theorem Fates.answer {c : Cmd} {sent : List Cmd} {asked : List (Cmd × Bool)}
    {fates : List (Fate Cmd)} (h : Fates sent asked fates) :
    Fates (c :: sent) ((c, true) :: asked) (⟨c, 0, true⟩ :: fates) where
  sent := congrArg (c :: ·) h.sent
  asked := congrArg ((c, true) :: ·) h.asked
  answered := by
    cases fates with
    | nil => simp
    | cons g gs => exact List.forall_mem_cons.mpr ⟨rfl, h.answered⟩

theorem Fates.fail {c : Cmd} {sent : List Cmd} {asked : List (Cmd × Bool)}
    {fates : List (Fate Cmd)} (h : Fates (c :: sent) asked fates) :
    ∃ fates', Fates (c :: sent) ((c, false) :: asked) fates' := by
  obtain ⟨hsent, hasked, hanswered⟩ := h
  cases fates with
  | nil => cases hsent
  | cons f fs =>
    obtain ⟨rfl, htail⟩ := List.cons.inj hsent
    refine ⟨{ f with failed := f.failed + 1 } :: fs, congrArg (f.command :: ·) htail, ?_, ?_⟩
    · rw [List.flatMap_cons, Fate.asks_failed, List.cons_append, hasked, List.flatMap_cons]
    · cases fs with
      | nil => simp
      | cons g gs =>
        obtain ⟨hf, hgs⟩ := List.forall_mem_cons.mp hanswered
        exact List.forall_mem_cons.mpr ⟨hf, hgs⟩

theorem Path.exists_fates {as : List (Act Cmd)} {p q : Phase Cmd} (h : Path Step p as q) :
    ∃ fates, Fates (p.waiting ++ as.filterMap Act.sent?) (as.filterMap Act.asked?) fates := by
  induction as generalizing p with
  | nil =>
    rw [List.filterMap_nil, List.append_nil]
    exact p.exists_fates
  | cons a as ih =>
    cases h with
    | cons hstep h =>
      cases hstep with
      | send => exact ih h
      | peek => exact ih h
      | silent => exact ih h
      | unanswered =>
        obtain ⟨fates, hfates⟩ := ih h
        exact hfates.fail
      | answered =>
        obtain ⟨fates, hfates⟩ := ih h
        exact ⟨_, hfates.answer⟩
      | close =>
        obtain ⟨hsent, hasked⟩ := Path.nothing_after_close h
        simp only [List.filterMap_cons, Act.sent?, Act.asked?, hsent, hasked, List.append_nil]
        exact p.exists_fates

end TctiUefi.Exchange
