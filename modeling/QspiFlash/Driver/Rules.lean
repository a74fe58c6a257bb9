/-
  QspiFlash.Driver.Rules — the rules of `wp` and `All` for the driver's own shapes, in any
  environment: the HAL calls, `onOk`, `qspi_command`, 32-bit results; and runs that end well.
-/

import QspiFlash.Driver.Flash
import QspiFlash.Interact.Env

namespace QspiFlash.Driver

open Interact

variable {S : Type} {E : Env Call Call.Resp S} {s : S}

theorem wp_onOk {p k : M QspiResult} {Q : QspiResult → S → Prop}
    (h : wp E p (fun r s' => (r = .ok → wp E k Q s') ∧ (r ≠ .ok → Q r s')) s) : wp E (onOk p k) Q s := by
  refine wp_seq h fun r s' hr => ?_
  split
  · exact hr.1 ‹_›
  · exact hr.2 ‹_›

/-- Where only `ok` is looked at, the rest starts from what an `ok` leaves. -/
theorem wp_onOk_ok {p k : M QspiResult} {P Q : S → Prop} (hp : wp E p (fun r s' => r = .ok → P s') s)
    (hk : ∀ s', P s' → wp E k (fun r s' => r = .ok → Q s') s') : wp E (onOk p k) (fun r s' => r = .ok → Q s') s :=
  wp_onOk (wp_mono hp fun _ s' h => ⟨fun hr => hk s' (h hr), fun hr hok => absurd hok hr⟩)

theorem wp_onOk_rest {p k : M QspiResult} {Q : QspiResult → S → Prop} {s₁ : S} (h : wp E (onOk p k) Q s)
    (hr : Runs E p s .ok s₁) : wp E k Q s₁ := by
  have hk := wp_rest h hr
  rwa [if_pos rfl] at hk

/-- A conditional step in front of the rest, that leaves the state as it was. -/
theorem wp_when {α : Type} {c : Prop} [Decidable c] {p : M Unit} {f : Unit → M α} {Q : α → S → Prop}
    (hp : wp E p (fun _ s' => s' = s) s) (hf : wp E (f ()) Q s) : wp E (if c then p >>= f else f ()) Q s := by
  refine wp_ite (fun _ => wp_seq hp ?_) fun _ => hf
  rintro _ _ rfl
  exact hf

theorem wp_halReceiveIT {Q : QspiResult → S → Prop} :
    wp E halReceiveIT Q s ↔ E.guard s .halReceiveIT ∧ ∀ r s', E.step s .halReceiveIT r s' → Q (ofHal r) s' := Iff.rfl

theorem wp_halReceiveDMA {p : Ptr} {Q : QspiResult → S → Prop} :
    wp E (halReceiveDMA p) Q s ↔
      E.guard s (.halReceiveDMA p) ∧ ∀ r s', E.step s (.halReceiveDMA p) r s' → Q (ofHal r) s' := Iff.rfl

theorem wp_halTransmit {b : UInt8} {t : Timeout} {Q : QspiResult → S → Prop} :
    wp E (halTransmit b t) Q s ↔
      E.guard s (.halTransmit b t) ∧ ∀ r s', E.step s (.halTransmit b t) r s' → Q (ofHal r) s' := Iff.rfl

theorem wp_halTransmitDMA {p : Ptr} {Q : QspiResult → S → Prop} :
    wp E (halTransmitDMA p) Q s ↔
      E.guard s (.halTransmitDMA p) ∧ ∀ r s', E.step s (.halTransmitDMA p) r s' → Q (ofHal r) s' := Iff.rfl

theorem wp_halAutoPollingIT {cmd : QspiCommand} {cfg : QspiAutoPolling} {Q : QspiResult → S → Prop} :
    wp E (halAutoPollingIT cmd cfg) Q s ↔ E.guard s (.halAutoPollingIT cmd cfg) ∧
      ∀ r s', E.step s (.halAutoPollingIT cmd cfg) r s' → Q (ofHal r) s' := Iff.rfl

theorem wp_timedWait {t : Timeout} {Q : QspiResult → S → Prop} :
    wp E (timedWait t) Q s ↔ E.guard s (.timedWait t) ∧
      ∀ r s', E.step s (.timedWait t) r s' → Q (if r then .ok else .timeout) s' := Iff.rfl

/-- A DMA start, before what is allowed at any time. -/
theorem receive_iff {p : Ptr} {k : M QspiResult} (hk : k.All fun c => ∀ s, E.guard s c) :
    wp E (onOk (halReceiveDMA p) k) (fun _ _ => True) s ↔ E.guard s (.halReceiveDMA p) := by
  constructor
  · exact fun h => h.1
  · exact fun h => wp_onOk (wp_halReceiveDMA.mpr ⟨h, fun _ s' _ => ⟨fun _ => wp_allowed hk s', fun _ => trivial⟩⟩)

theorem transmit_iff {p : Ptr} {k : M QspiResult} (hk : k.All fun c => ∀ s, E.guard s c) :
    wp E (onOk (halTransmitDMA p) k) (fun _ _ => True) s ↔ E.guard s (.halTransmitDMA p) := by
  constructor
  · exact fun h => h.1
  · exact fun h => wp_onOk (wp_halTransmitDMA.mpr ⟨h, fun _ s' _ => ⟨fun _ => wp_allowed hk s', fun _ => trivial⟩⟩)

/-- A command is sent once, or aborted and sent once more. -/
theorem wp_qspiCommand {cmd : QspiCommand} {t : Timeout} {Q : QspiResult → S → Prop}
    (hg : E.guard s (.halCommand cmd t))
    (hok : ∀ s₁, E.step s (.halCommand cmd t) .ok s₁ → Q .ok s₁)
    (hretry : ∀ r s₁, r ≠ .ok → E.step s (.halCommand cmd t) r s₁ → E.guard s₁ .crAbort ∧
      ∀ s₂, E.step s₁ .crAbort () s₂ → E.guard s₂ (.halCommand cmd t) ∧
        ∀ r' s₃, E.step s₂ (.halCommand cmd t) r' s₃ → Q (ofHal r') s₃) :
    wp E (qspiCommand cmd t) Q s := by
  refine ⟨hg, fun r s₁ hs => ?_⟩
  by_cases hr : r = .ok
  · subst hr; exact hok s₁ hs
  · have hne : ofHal r ≠ .ok := fun h => hr (ofHal_eq_ok.mp h)
    show wp E (if ofHal r ≠ .ok then _ else _) Q s₁
    rw [if_pos hne]
    obtain ⟨h1, h2⟩ := hretry r s₁ hr hs
    exact ⟨h1, fun _ s₂ ha => h2 s₂ ha⟩

/-- What every attempt gives, from a state in `I`; after a failure the abort leads back to `I`. -/
theorem wp_attempts {I : S → Prop} {cmd : QspiCommand} {t : Timeout} {Q : QspiResult → S → Prop} (hi : I s)
    (hguard : ∀ s, I s → E.guard s (.halCommand cmd t))
    (hok : ∀ s s', I s → E.step s (.halCommand cmd t) .ok s' → Q .ok s')
    (hfail : ∀ s r s', I s → r ≠ .ok → E.step s (.halCommand cmd t) r s' →
      Q (ofHal r) s' ∧ E.guard s' .crAbort ∧ ∀ s'', E.step s' .crAbort () s'' → I s'') :
    wp E (qspiCommand cmd t) Q s := by
  apply wp_qspiCommand (hguard s hi)
  · exact fun s₁ hs => hok s s₁ hi hs
  · intro r s₁ hr hs
    obtain ⟨-, habort, hagain⟩ := hfail s r s₁ hi hr hs
    refine ⟨habort, fun s₂ ha => ⟨hguard s₂ (hagain s₂ ha), ?_⟩⟩
    intro r' s₃ hs'
    by_cases hr' : r' = .ok
    · subst hr'
      exact hok s₂ s₃ (hagain s₂ ha) hs'
    · exact (hfail s₂ r' s₃ (hagain s₂ ha) hr' hs').1

/-! ## Questions that change nothing -/

/-- A question that is always allowed and changes nothing. -/
def Quiet (E : Env Call Call.Resp S) (c : Call) : Prop := ∀ s, E.guard s c ∧ ∀ r s', E.step s c r s' → s' = s

theorem wp_quiet {c : Call} (h : Quiet E c) {Q : c.Resp → S → Prop} {s : S} (hq : ∀ r, Q r s) : wp E (ask c) Q s := by
  refine wp_ask.mpr ⟨(h s).1, ?_⟩
  intro r s' hs
  rw [(h s).2 r s' hs]
  exact hq r

theorem wp_allQuiet {α : Type} {p : M α} (hp : p.All (Quiet E)) (s : S) : wp E p (fun _ s' => s' = s) s :=
  wp_inv (fun s _ hc _ => (hc s).1) (fun _ _ _ _ hc h hs => ((hc _).2 _ _ hs).trans h) hp rfl

/-! ## Looking at memory -/

/-- A load answers the byte `mem` gives, and changes nothing. -/
def Loads (E : Env Call Call.Resp S) (mem : S → Ptr → UInt8) : Prop :=
  ∀ s p, E.guard s (.load p) ∧ ∀ r s', E.step s (.load p) r s' → r = mem s p ∧ s' = s

theorem exists_lt_succ {P : Nat → Prop} {n : Nat} :
    (∃ i, i < n + 1 ∧ P i) ↔ P 0 ∨ ∃ i, i < n ∧ P (i + 1) := by
  constructor
  · intro hex
    obtain ⟨i, hi, hp⟩ := hex
    cases i with
    | zero => exact Or.inl hp
    | succ i => exact Or.inr ⟨i, by omega, hp⟩
  · intro hcase
    rcases hcase with hp | ⟨i, hi, hp⟩
    · exact ⟨0, by omega, hp⟩
    · exact ⟨i + 1, by omega, hp⟩

theorem hasData_loads {mem : S → Ptr → UInt8} (h : Loads E mem) (p : Ptr) (n : Nat) (s : S) :
    wp E (hasData p n) (fun r s' => s' = s ∧ (r = true ↔ ∃ i, i < n ∧ mem s (p.add i) ≠ 0xFF)) s := by
  induction n generalizing p with
  | zero => exact wp_pure.mpr ⟨rfl, by simp⟩
  | succ n ih =>
    refine ⟨(h s p).1, ?_⟩
    intro b s' hs
    obtain ⟨rfl, rfl⟩ := (h s p).2 b s' hs
    show wp E (if mem s' p ≠ 0xFF then pure true else hasData (p.add 1) n) _ s'
    refine wp_ite (fun hb => wp_pure.mpr ⟨rfl, fun _ => ⟨0, by omega, hb⟩, fun _ => rfl⟩) fun hb => ?_
    refine wp_mono (ih (p.add 1)) ?_
    intro r s₁ hpost
    obtain ⟨rfl, hr⟩ := hpost
    refine ⟨rfl, hr.trans ?_⟩
    rw [exists_lt_succ]
    simp only [Ptr.add_add, Nat.add_comm 1]
    exact ⟨Or.inr, fun h' => h'.resolve_left hb⟩

/-! ## Runs -/

theorem runs_onOk_ok {p k : M QspiResult} {r : QspiResult} {s₁ s₂ : S} (hp : Runs E p s .ok s₁)
    (hk : Runs E k s₁ r s₂) : Runs E (onOk p k) s r s₂ :=
  hp.bind (by rw [if_pos rfl]; exact hk)

theorem runs_onOk_fail {p k : M QspiResult} {r : QspiResult} {s₁ : S} (hp : Runs E p s r s₁) (hr : r ≠ .ok) :
    Runs E (onOk p k) s r s₁ :=
  hp.bind (by rw [if_neg hr]; exact .ret _ _)

theorem runs_qspiCommand {cmd : QspiCommand} {t : Timeout} (s₁ : S) (h : E.step s (.halCommand cmd t) .ok s₁) :
    Runs E (qspiCommand cmd t) s .ok s₁ :=
  .call h (.ret _ _)

theorem runs_qspiCommand_retry {cmd : QspiCommand} {t : Timeout} {r r' : HalStatus} {s₁ s₂ s₃ : S} (hr : r ≠ .ok)
    (h : E.step s (.halCommand cmd t) r s₁) (ha : E.step s₁ .crAbort () s₂) (h' : E.step s₂ (.halCommand cmd t) r' s₃) :
    Runs E (qspiCommand cmd t) s (ofHal r') s₃ := by
  refine .call h ?_
  show Runs E (if ofHal r ≠ .ok then _ else _) s₁ _ s₃
  rw [if_pos fun hok => hr (ofHal_eq_ok.mp hok)]
  exact .call ha (.call h' (.ret _ _))

theorem runs_halAutoPollingIT {cmd : QspiCommand} {cfg : QspiAutoPolling} (r : HalStatus) (s₁ : S)
    (h : E.step s (.halAutoPollingIT cmd cfg) r s₁) : Runs E (halAutoPollingIT cmd cfg) s (ofHal r) s₁ :=
  .call h (.ret _ _)

/-! ## Where calls can go well -/

/-- From every state the program can return `ok`. -/
def Succeeds (E : Env Call Call.Resp S) (p : M QspiResult) : Prop := ∀ s, ∃ s', Runs E p s .ok s'

theorem Succeeds.onOk {p k : M QspiResult} (hp : Succeeds E p) (hk : Succeeds E k) : Succeeds E (onOk p k) := by
  intro s
  obtain ⟨s₁, hrun⟩ := hp s
  obtain ⟨s₂, hrest⟩ := hk s₁
  exact ⟨s₂, runs_onOk_ok hrun hrest⟩

theorem Succeeds.when {c : Prop} [Decidable c] {m : M Unit} {k : M QspiResult} (hm : ∀ s, ∃ u s', Runs E m s u s')
    (hk : Succeeds E k) : Succeeds E (if c then m >>= fun _ => k else k) := by
  intro s
  split
  · obtain ⟨u, s₁, hrun⟩ := hm s
    obtain ⟨s₂, hrest⟩ := hk s₁
    exact ⟨s₂, hrun.bind hrest⟩
  · exact hk s

/-- Every question has an answer, and every call of the data path can go well. -/
structure Obliging (E : Env Call Call.Resp S) : Prop where
  total : ∀ s c, ∃ r s', E.step s c r s'
  command : ∀ s cmd t, ∃ s', E.step s (.halCommand cmd t) .ok s'
  receive : ∀ s p, ∃ s', E.step s (.halReceiveDMA p) .ok s'
  transmit : ∀ s p, ∃ s', E.step s (.halTransmitDMA p) .ok s'
  poll : ∀ s cmd cfg, ∃ s', E.step s (.halAutoPollingIT cmd cfg) .ok s'
  wait : ∀ s t, ∃ s', E.step s (.timedWait t) true s'

theorem Obliging.qspiCommand (h : Obliging E) (cmd : QspiCommand) (t : Timeout) : Succeeds E (qspiCommand cmd t) := by
  intro s
  obtain ⟨s', hs⟩ := h.command s cmd t
  exact ⟨s', runs_qspiCommand s' hs⟩

theorem Obliging.timedWait (h : Obliging E) (t : Timeout) : Succeeds E (timedWait t) := by
  intro s
  obtain ⟨s', hs⟩ := h.wait s t
  exact ⟨s', .call hs (.ret _ _)⟩

theorem obliging_monitor (guard : S → Call → Prop) (next : S → (c : Call) → c.Resp → S) :
    Obliging (Env.monitor guard next) where
  total s c := by
    cases c with
    | timedWait | dcacheEnabled => exact ⟨true, _, rfl⟩
    | load | nullDeref => exact ⟨0, _, rfl⟩
    | idBytes => exact ⟨(0, 0, 0), _, rfl⟩
    | _ => first | exact ⟨(), _, rfl⟩ | exact ⟨HalStatus.ok, _, rfl⟩
  command _ _ _ := ⟨_, rfl⟩
  receive _ _ := ⟨_, rfl⟩
  transmit _ _ := ⟨_, rfl⟩
  poll _ _ _ := ⟨_, rfl⟩
  wait _ _ := ⟨_, rfl⟩

theorem Obliging.pageWrite (h : Obliging E) (q : Qspi) (a : Nat) (p : Ptr) (n : Nat) :
    Succeeds E (pageWrite q a p n) := by
  have htransmit : Succeeds E (halTransmitDMA p) := fun s =>
    let ⟨s', hs⟩ := h.transmit s p
    ⟨s', .call hs (.ret _ _)⟩
  have hpoll : ∀ cmd cfg, Succeeds E (halAutoPollingIT cmd cfg) := fun cmd cfg s =>
    let ⟨s', hs⟩ := h.poll s cmd cfg
    ⟨s', runs_halAutoPollingIT .ok s' hs⟩
  refine (h.qspiCommand _ _).onOk ((h.qspiCommand _ _).onOk (.when (run_total h.total _) ?_))
  exact htransmit.onOk ((h.timedWait _).onOk ((hpoll _ _).onOk (h.timedWait _)))

/-! ## Where only the last command counts -/

/-- A command may be sent from every state and can go well, and leaves `after cmd` either way. -/
structure Latches (E : Env Call Call.Resp S) (after : QspiCommand → S) : Prop where
  allowed : ∀ s cmd t, E.guard s (.halCommand cmd t)
  abort : ∀ s, E.guard s .crAbort
  sent : ∀ s cmd t r s', E.step s (.halCommand cmd t) r s' → s' = after cmd
  goesWell : ∀ s cmd t, E.step s (.halCommand cmd t) .ok (after cmd)

/-- What comes after a command is allowed exactly if it is after that command. -/
theorem Latches.onOk_iff {after : QspiCommand → S} (h : Latches E after) {cmd : QspiCommand} {t : Timeout}
    {k : M QspiResult} :
    wp E (onOk (qspiCommand cmd t) k) (fun _ _ => True) s ↔ wp E k (fun _ _ => True) (after cmd) := by
  constructor
  · exact fun hk => wp_onOk_rest hk (runs_qspiCommand _ (h.goesWell s cmd t))
  · intro hk
    have hpost : ∀ (r : QspiResult) (s' : S), s' = after cmd →
        (r = .ok → wp E k (fun _ _ => True) s') ∧ (r ≠ .ok → True) :=
      fun _ _ hs => ⟨fun _ => hs ▸ hk, fun _ => trivial⟩
    apply wp_onOk
    apply wp_attempts (I := fun _ => True) trivial
    · exact fun s₁ _ => h.allowed s₁ cmd t
    · exact fun s₁ s' _ hs => hpost _ _ (h.sent _ _ _ _ _ hs)
    · exact fun s₁ r s' _ _ hs => ⟨hpost _ _ (h.sent _ _ _ _ _ hs), h.abort s', fun _ _ => trivial⟩

end QspiFlash.Driver
