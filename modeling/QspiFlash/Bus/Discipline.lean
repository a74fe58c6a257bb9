/-
  QspiFlash.Bus.Discipline — write enable, busy and the semaphore over runs of data operations.

  The chip has its two status bits: WRITE_ENABLE sets `wel`; an erase, or a PAGE_PROGRAM once
  its data is in, needs `wel` and sets `wip`; when the work is done (`Move.finish`) both are
  cleared. The controller has one transfer at a time; its event (`Move.receive`,
  `Move.transmit`, `Move.poll`) posts the semaphore, a status match only when `wip` is 0.
  Commands and DMA starts may fail without effect; a poll always starts, and the event of a
  started transfer comes before its wait times out.

  The guards say what may reach the chip: no command while `wip` is set, programs and erases
  only with `wel`, everything on four lines.

  - `read_idle`, `pageWrite_idle`, `erase_idle`: from an idle bus to an idle bus, whatever fails.
  - `discipline`: so over any run of data operations, and every question asked is guarded, in
    every interleaving.
-/

import QspiFlash.Driver.Api
import QspiFlash.Driver.Asks
import QspiFlash.Driver.Opened
import QspiFlash.Interact.Interleave

namespace QspiFlash.Bus.Discipline

open Interact Driver
open Relation (ReflTransGen)

inductive Transfer where
  | receive
  | transmit
  | poll
  deriving DecidableEq, Repr

structure St where
  wel : Bool
  wip : Bool
  sem : Bool
  /-- The transfer started whose event has not come. -/
  transfer : Option Transfer
  /-- The last command accepted with a data phase. -/
  cmd : Instruction
  deriving DecidableEq, Repr

/-- What a command without a data phase does to the chip. -/
def act (s : St) (i : Instruction) : St :=
  if i = .WRITE_ENABLE then { s with wel := true }
  else if IsErase i ∧ s.wel = true then { s with wip := true }
  else s

def accept (s : St) (cmd : QspiCommand) : St :=
  if cmd.dataMode = .none then act s cmd.instruction else { s with cmd := cmd.instruction }

def guard (s : St) : Call → Prop
  | .halCommand cmd _ => s.wip = false ∧ cmd.instructionMode = .four ∧
      (cmd.instruction = .PAGE_PROGRAM ∨ IsErase cmd.instruction → s.wel = true)
  | .halReceiveDMA _ => s.wip = false ∧ s.sem = false ∧ s.transfer = none ∧ s.cmd = .FAST_READ_QUAD_IN_OUT
  | .halTransmitDMA _ => s.wip = false ∧ s.sem = false ∧ s.transfer = none ∧ s.cmd = .PAGE_PROGRAM ∧ s.wel = true
  | .halAutoPollingIT cmd _ => s.sem = false ∧ s.transfer = none ∧ cmd.instruction = .READ_STATUS_REGISTER
  | .timedWait _ => s.sem = true ∨ s.transfer ≠ none
  | .halReceiveIT | .halTransmit .. | .halMemoryMapped .. | .halAbort | .idBytes | .qspiFactory _ | .overrun => False
  | .crAbort | .load _ | .dcacheEnabled | .cleanInvalidateDCache .. | .cleanDCache .. => True
  | .setErrno _ | .wrapped | .nullDeref | .dropped .. => True

def step (s : St) : (c : Call) → c.Resp → St → Prop
  | .halCommand cmd _, r, s' => (r = .ok ∧ s' = accept s cmd) ∨ (r ≠ .ok ∧ s' = s)
  | .halReceiveDMA _, r, s' => (r = .ok ∧ s' = { s with transfer := some .receive }) ∨ (r ≠ .ok ∧ s' = s)
  | .halTransmitDMA _, r, s' => (r = .ok ∧ s' = { s with transfer := some .transmit }) ∨ (r ≠ .ok ∧ s' = s)
  | .halAutoPollingIT _ _, r, s' => r = .ok ∧ s' = { s with transfer := some .poll }
  | .timedWait _, r, s' => r = true ∧ s.sem = true ∧ s' = { s with sem := false }
  | _, _, s' => s' = s

inductive Move : St → St → Prop
  | finish {s : St} : s.wip = true → Move s { s with wip := false, wel := false }
  | receive {s : St} : s.transfer = some .receive → Move s { s with transfer := none, sem := true }
  | transmit {s : St} : s.transfer = some .transmit → Move s { s with transfer := none, sem := true, wip := s.wel }
  | poll {s : St} : s.transfer = some .poll → s.wip = false → Move s { s with transfer := none, sem := true }

def bus : Env Call Call.Resp St where
  guard := guard
  step := step

abbrev moving : Env Call Call.Resp St := bus.moving Move

/-- Not busy, no transfer under way, no token. -/
structure Idle (s : St) : Prop where
  wip : s.wip = false
  sem : s.sem = false
  transfer : s.transfer = none

/-- The chip may be at work; the controller is not. -/
structure Working (s : St) : Prop where
  sem : s.sem = false
  transfer : s.transfer = none

theorem Idle.working {s : St} (h : Idle s) : Working s := ⟨h.sem, h.transfer⟩

/-- An idle bus stays as it is. -/
theorem idle_moves {s s' : St} (h : Idle s) (hm : ReflTransGen Move s s') : s' = s := by
  induction hm with
  | refl => rfl
  | tail _ ht ih =>
    subst ih
    cases ht with
    | finish hw => rw [h.wip] at hw; cases hw
    | receive hx => rw [h.transfer] at hx; cases hx
    | transmit hx => rw [h.transfer] at hx; cases hx
    | poll hx => rw [h.transfer] at hx; cases hx

theorem working_stable : Stable Move Working := by
  intro s s' h hm
  cases hm with
  | finish hw => exact ⟨h.sem, h.transfer⟩
  | receive hx => rw [h.transfer] at hx; cases hx
  | transmit hx => rw [h.transfer] at hx; cases hx
  | poll hx => rw [h.transfer] at hx; cases hx

/-! ## Waits -/

/-- While a transfer `t` is awaited: it is under way, with `P` of the chip, or its event has
    come, with `Q`. -/
def Awaiting (t : Transfer) (P Q : St → Prop) (s : St) : Prop :=
  (s.transfer = some t ∧ s.sem = false ∧ P s) ∨ (s.transfer = none ∧ s.sem = true ∧ Q s)

theorem wait_spec {t : Transfer} {P Q : St → Prop} {lim : Timeout} {s : St} (hstable : Stable Move (Awaiting t P Q))
    (h : Awaiting t P Q s) : wp moving (timedWait lim) (fun r s' => r = .ok ∧
      ∃ s₁, Q s₁ ∧ s₁.transfer = none ∧ s' = { s₁ with sem := false }) s := by
  refine wp_timedWait.mpr ⟨?_, ?_⟩
  · intro s₁ hm
    rcases hstable.star hm h with h | h
    · exact Or.inr (by simp [h.1])
    · exact Or.inl h.2.1
  · intro r s' hs
    obtain ⟨s₁, hm, hr, hsem, hs'⟩ := hs
    rcases hstable.star hm h with h | h
    · rw [h.2.1] at hsem; cases hsem
    · exact ⟨by simp [hr], s₁, h.2.2, h.1, hs'⟩

theorem receive_stable : Stable Move (Awaiting .receive (·.wip = false) (·.wip = false)) := by
  intro s s' h hm
  cases hm <;> simp_all [Awaiting]

theorem transmit_stable : Stable Move (Awaiting .transmit (fun s => s.wip = false ∧ s.wel = true) fun _ => True) := by
  intro s s' h hm
  cases hm <;> simp_all [Awaiting]

theorem poll_stable : Stable Move (Awaiting .poll (fun _ => True) (·.wip = false)) := by
  intro s s' h hm
  cases hm <;> simp_all [Awaiting]

/-! ## Commands -/

theorem moving_idle {s : St} (h : Idle s) {c : Call} : moving.guard s c ↔ guard s c := by
  constructor
  · intro hg
    exact hg s .refl
  · intro hg s₁ hm
    rw [idle_moves h hm]
    exact hg

theorem step_idle {s s' : St} (h : Idle s) {c : Call} {r : c.Resp} (hs : moving.step s c r s') : step s c r s' := by
  obtain ⟨s₁, hm, hstep⟩ := hs
  rwa [idle_moves h hm] at hstep

/-- On an idle bus a command is accepted at one of its two attempts, or leaves the bus as it is. -/
theorem command_attempts {cmd : QspiCommand} {t : Timeout} {s : St} {Q : QspiResult → St → Prop} (h : Idle s)
    (hguard : guard s (.halCommand cmd t)) (hok : Q .ok (accept s cmd)) (hfail : ∀ r, r ≠ .ok → Q r s) :
    wp moving (qspiCommand cmd t) Q s := by
  apply wp_attempts (I := (· = s)) rfl
  · intro s₁ he
    subst he
    exact (moving_idle h).mpr hguard
  · intro s₁ s' he hs
    subst he
    rcases step_idle h hs with ⟨-, rfl⟩ | ⟨hr, -⟩
    · exact hok
    · exact absurd rfl hr
  · intro s₁ r s' he hr hs
    subst he
    rcases step_idle h hs with ⟨hr', -⟩ | ⟨-, rfl⟩
    · exact absurd hr' hr
    · exact ⟨hfail _ fun hok => hr (ofHal_eq_ok.mp hok), fun _ _ => trivial, fun s₂ ha => step_idle h ha⟩

/-- A command that is no erase leaves the bus idle, whatever its attempts return. -/
theorem command_idle {cmd : QspiCommand} {t : Timeout} {s : St} (h : Idle s) (hmode : cmd.instructionMode = .four)
    (herase : ¬ IsErase cmd.instruction) (hwel : cmd.instruction = .PAGE_PROGRAM → s.wel = true) :
    wp moving (qspiCommand cmd t) (fun r s' => Idle s' ∧ (s.wel = true → s'.wel = true) ∧
      (r = .ok → s' = accept s cmd)) s := by
  have hguard : guard s (.halCommand cmd t) := ⟨h.wip, hmode, fun h' => h'.elim hwel fun he => absurd he herase⟩
  have hacc : Idle (accept s cmd) ∧ (s.wel = true → (accept s cmd).wel = true) := by
    unfold accept act
    by_cases hd : cmd.dataMode = .none
    · by_cases hw : cmd.instruction = .WRITE_ENABLE
      · simp only [hd, hw, if_true]
        exact ⟨⟨h.wip, h.sem, h.transfer⟩, fun _ => trivial⟩
      · simp only [hd, hw, herase, if_true, if_false, false_and]
        exact ⟨h, id⟩
    · simp only [hd, if_false]
      exact ⟨⟨h.wip, h.sem, h.transfer⟩, id⟩
  apply command_attempts h hguard
  · exact ⟨hacc.1, hacc.2, fun _ => rfl⟩
  · exact fun r hr => ⟨h, id, fun hok => absurd hok hr⟩

/-- The command of an erase, with write enabled: accepted, it leaves the chip at work. -/
theorem erase_command {cmd : QspiCommand} {t : Timeout} {s : St} (h : Idle s) (hmode : cmd.instructionMode = .four)
    (hwel : s.wel = true) (hd : cmd.dataMode = .none) :
    wp moving (qspiCommand cmd t) (fun r s' => Working s' ∧ (r ≠ .ok → Idle s')) s := by
  have hguard : guard s (.halCommand cmd t) := ⟨h.wip, hmode, fun _ => hwel⟩
  have hacc : Working (accept s cmd) := by
    unfold accept act
    rw [if_pos hd]
    split
    · exact ⟨h.sem, h.transfer⟩
    · split
      · exact ⟨h.sem, h.transfer⟩
      · exact h.working
  apply command_attempts h hguard
  · exact ⟨hacc, fun hr => absurd rfl hr⟩
  · exact fun r _ => ⟨h.working, fun _ => h⟩

/-! ## The three operations -/

/-- Questions that leave an idle bus as it is. -/
def Silent (c : Call) : Prop := (∀ s, guard s c) ∧ ∀ (s : St) r s', step s c r s' → s' = s

theorem silent_mark : ∀ c, Mark c → Silent c := by
  intro c h
  cases c <;> first | exact absurd h id | exact ⟨fun _ => trivial, fun _ _ _ h => h⟩

theorem silent_keep {α : Type} {p : M α} (hp : p.All Silent) {s : St} (h : Idle s) :
    wp moving p (fun _ s' => s' = s) s := by
  refine wp_inv (fun _ _ hc _ => ?_) (fun s₁ c r s' hc he hs => ?_) hp rfl
  · exact fun s₂ _ => hc.1 s₂
  · subst he
    exact hc.2 _ _ _ (step_idle h hs)

theorem silent_cleanDcache (p : Ptr) (n : Nat) : (cleanDcache p n).All Silent :=
  all_cleanDcache ⟨fun _ => trivial, fun _ _ _ h => h⟩ (fun _ _ => ⟨fun _ => trivial, fun _ _ _ h => h⟩)
    ⟨fun _ => trivial, fun _ _ _ h => h⟩ p n

theorem silent_invalidateDcache (p : Ptr) (n : Nat) : (invalidateDcache p n).All Silent :=
  all_invalidateDcache ⟨fun _ => trivial, fun _ _ _ h => h⟩ (fun _ _ => ⟨fun _ => trivial, fun _ _ _ h => h⟩)
    ⟨fun _ => trivial, fun _ _ _ h => h⟩ p n

theorem read_idle (q : Qspi) (a : Nat) (p : Ptr) (n : Nat) {s : St} (h : Idle s) :
    wp moving (Driver.read q a p n) (fun _ s' => Idle s') s := by
  unfold Driver.read
  cases q.pdevice with
  | none => exact h
  | some d =>
    refine wp_onOk (wp_mono (command_idle h rfl id nofun) ?_)
    intro r s₁ h₁
    refine ⟨fun hr => ?_, fun _ => h₁.1⟩
    have hcmd : s₁.cmd = .FAST_READ_QUAD_IN_OUT := by rw [h₁.2.2 hr]; rfl
    refine wp_when (silent_keep (silent_invalidateDcache p n) h₁.1) ?_
    refine wp_onOk (wp_halReceiveDMA.mpr ⟨(moving_idle h₁.1).mpr ⟨h₁.1.wip, h₁.1.sem, h₁.1.transfer, hcmd⟩, ?_⟩)
    intro r s₂ hs
    rcases step_idle h₁.1 hs with ⟨rfl, rfl⟩ | ⟨hr, rfl⟩
    · refine ⟨fun _ => wp_mono (wait_spec receive_stable (Or.inl ⟨rfl, h₁.1.sem, h₁.1.wip⟩)) ?_, fun h => absurd rfl h⟩
      intro r s₃ h₃
      obtain ⟨-, s₂, hwip, htr, rfl⟩ := h₃
      exact ⟨hwip, rfl, htr⟩
    · exact ⟨fun h => absurd (ofHal_eq_ok.mp h) hr, fun _ => h₁.1⟩

/-- The poll that ends an erase or a program always starts, and a status match is idle. -/
theorem poll_idle {cmd : QspiCommand} (hc : cmd.instruction = .READ_STATUS_REGISTER) {lim : Timeout} {s : St}
    (h : Working s) :
    wp moving (onOk (halAutoPollingIT cmd statusPoll) (timedWait lim)) (fun _ s' => Idle s') s := by
  refine wp_onOk (wp_halAutoPollingIT.mpr ⟨fun s₁ hm => ?_, ?_⟩)
  · have h₁ := working_stable.star hm h
    exact ⟨h₁.sem, h₁.transfer, hc⟩
  · intro r s₂ hs
    obtain ⟨s₁, hm, rfl, rfl⟩ := hs
    have h₁ := working_stable.star hm h
    refine ⟨fun _ => wp_mono (wait_spec poll_stable (Or.inl ⟨rfl, h₁.sem, trivial⟩)) ?_, fun h => absurd rfl h⟩
    intro r s₃ h₃
    obtain ⟨-, s₂, hwip, htr, rfl⟩ := h₃
    exact ⟨hwip, rfl, htr⟩

theorem writeEnable_idle {cmd : QspiCommand} {t : Timeout} {s : St} (h : Idle s) (hi : cmd.instruction = .WRITE_ENABLE)
    (hmode : cmd.instructionMode = .four) (hd : cmd.dataMode = .none) :
    wp moving (qspiCommand cmd t) (fun r s' => Idle s' ∧ (r = .ok → s'.wel = true)) s := by
  refine wp_mono (command_idle h hmode (by rw [hi]; exact id) (by rw [hi]; exact nofun)) ?_
  intro r s₁ h₁
  refine ⟨h₁.1, fun hr => ?_⟩
  rw [h₁.2.2 hr, accept, if_pos hd, act, if_pos hi]

theorem pageWrite_idle (q : Qspi) (a : Nat) (p : Ptr) (n : Nat) {s : St} (h : Idle s) :
    wp moving (pageWrite q a p n) (fun _ s' => Idle s') s := by
  unfold pageWrite
  refine wp_onOk (wp_mono (writeEnable_idle h rfl rfl rfl) ?_)
  intro r s₁ h₁
  refine ⟨fun hr => ?_, fun _ => h₁.1⟩
  have hwel₁ := h₁.2 hr
  refine wp_onOk (wp_mono (command_idle h₁.1 rfl id fun _ => hwel₁) ?_)
  intro r s₂ h₂
  refine ⟨fun hr => ?_, fun _ => h₂.1⟩
  have hwel₂ := h₂.2.1 hwel₁
  have hcmd : s₂.cmd = .PAGE_PROGRAM := by rw [h₂.2.2 hr]; rfl
  refine wp_when (silent_keep (silent_cleanDcache p n) h₂.1) ?_
  refine wp_onOk (wp_halTransmitDMA.mpr
    ⟨(moving_idle h₂.1).mpr ⟨h₂.1.wip, h₂.1.sem, h₂.1.transfer, hcmd, hwel₂⟩, ?_⟩)
  intro r s₃ hs
  rcases step_idle h₂.1 hs with ⟨rfl, rfl⟩ | ⟨hr, rfl⟩
  · refine ⟨fun _ => ?_, fun h => absurd rfl h⟩
    refine wp_onOk (wp_mono (wait_spec transmit_stable (Or.inl ⟨rfl, h₂.1.sem, h₂.1.wip, hwel₂⟩)) ?_)
    intro r s₄ h₄
    obtain ⟨hr, s₃, -, htr, rfl⟩ := h₄
    exact ⟨fun _ => poll_idle rfl ⟨rfl, htr⟩, fun h => absurd hr h⟩
  · exact ⟨fun h => absurd (ofHal_eq_ok.mp h) hr, fun _ => h₂.1⟩

theorem erase_idle (q : Qspi) (a : Nat) (which : Instruction) {s : St} (h : Idle s) :
    wp moving (erase q a which) (fun _ s' => Idle s') s := by
  unfold erase
  cases q.pdevice with
  | none => exact h
  | some d =>
    refine wp_onOk (wp_mono (writeEnable_idle h rfl rfl rfl) ?_)
    intro r s₁ h₁
    refine ⟨fun hr => ?_, fun _ => h₁.1⟩
    refine wp_onOk (wp_mono (erase_command h₁.1 rfl (h₁.2 hr) rfl) ?_)
    intro r s₂ h₂
    exact ⟨fun _ => poll_idle rfl h₂.1, h₂.2⟩

/-! ## Runs -/

theorem sequenced_idle : Sequenced fun p => ∀ s, Idle s → wp moving p (fun _ s' => Idle s') s where
  pure _ _ h := h
  bind hp hf s h := wp_seq (hp s h) fun a => hf a
  mark c hc _ h := wp_mono (silent_keep ((Prog.all_ask c).mpr (silent_mark c hc)) h) fun _ _ e => e ▸ h

theorem dropped_idle (n : Nat) (r : QspiResult) {s : St} (h : Idle s) :
    wp moving (ask (.dropped n r)) (fun _ s' => Idle s') s :=
  wp_mono (silent_keep ((Prog.all_ask (Call.dropped n r)).mpr ⟨fun _ => trivial, fun _ _ _ h => h⟩) h) fun _ _ e => e ▸ h

theorem dataOp_idle (tbl : List QspiManuf) (o : Op) (ho : DataOp o) (q : Qspi) {s : St} (h : Idle s) :
    wp moving (exec tbl o q) (fun _ s' => Idle s') s := by
  obtain ⟨α, out, p, heq, hp⟩ := sequenced_idle.dataOp (q := q) (fun a p n _ => read_idle q a p n)
    (fun a p n _ => pageWrite_idle q a p n) (fun i a _ _ => erase_idle q a i) (fun n r _ => dropped_idle n r) tbl ho
  rw [heq]
  exact wp_seq (hp s h) fun _ _ h' => h'

/-- Every allowed question is answered: the event of a started transfer can always come. -/
theorem moving_total : moving.Total := by
  intro s c hg
  cases c with
  | timedWait t =>
    have hpost : ∃ s₁, ReflTransGen Move s s₁ ∧ s₁.sem = true := by
      rcases hg s .refl with hsem | htr
      · exact ⟨s, .refl, hsem⟩
      · obtain ⟨t, ht⟩ := Option.ne_none_iff_exists'.mp htr
        cases t with
        | receive => exact ⟨_, .single (.receive ht), rfl⟩
        | transmit => exact ⟨_, .single (.transmit ht), rfl⟩
        | poll =>
          by_cases hw : s.wip = true
          · exact ⟨_, .tail (.single (.finish hw)) (.poll ht rfl), rfl⟩
          · exact ⟨_, .single (.poll ht (by simpa using hw)), rfl⟩
    obtain ⟨s₁, hmoves, hsem⟩ := hpost
    exact ⟨true, _, s₁, hmoves, rfl, hsem, rfl⟩
  | halCommand cmd t => exact ⟨.ok, _, s, .refl, Or.inl ⟨rfl, rfl⟩⟩
  | halReceiveDMA p => exact ⟨.ok, _, s, .refl, Or.inl ⟨rfl, rfl⟩⟩
  | halTransmitDMA p => exact ⟨.ok, _, s, .refl, Or.inl ⟨rfl, rfl⟩⟩
  | halAutoPollingIT cmd cfg => exact ⟨.ok, _, s, .refl, rfl, rfl⟩
  | halReceiveIT => exact absurd (hg s .refl) id
  | halTransmit b t => exact absurd (hg s .refl) id
  | halMemoryMapped cmd cfg => exact absurd (hg s .refl) id
  | halAbort => exact absurd (hg s .refl) id
  | idBytes => exact absurd (hg s .refl) id
  | qspiFactory v => exact absurd (hg s .refl) id
  | overrun => exact absurd (hg s .refl) id
  | load p => exact ⟨0, s, s, .refl, rfl⟩
  | dcacheEnabled => exact ⟨false, s, s, .refl, rfl⟩
  | nullDeref => exact ⟨0, s, s, .refl, rfl⟩
  | _ => exact ⟨(), s, s, .refl, rfl⟩

theorem idle_stable : Stable Move Idle := by
  intro s s' h hm
  rw [idle_moves h (.single hm)]
  exact h

/-- After any run of data operations from an idle bus the bus is idle. Whatever the next one
    and the bus then do, in any order, each question is allowed when it comes, and where the
    operation returns the bus is idle again; and it can return. -/
theorem discipline (tbl : List QspiManuf) {q : Qspi} {s : St}
    (h : Reach moving (exec tbl) DataOp (fun _ s => Idle s) q s) :
    Idle s ∧ ∀ o, DataOp o →
      (∀ c k s', ReflTransGen (IStep bus Move) (exec tbl o q, s) (.call c k, s') → guard s' c) ∧
      (∀ x s', ReflTransGen (IStep bus Move) (exec tbl o q, s) (.ret x, s') → Idle s') ∧
      ∃ x s', ReflTransGen (IStep bus Move) (exec tbl o q, s) (.ret x, s') := by
  have hidle : Idle s :=
    reach_inv (I := fun _ s => Idle s) (fun _ _ h => h) (fun o q s ho hi => dataOp_idle tbl o ho q hi) h
  refine ⟨hidle, ?_⟩
  intro o ho
  have hop := dataOp_idle tbl o ho q hidle
  obtain ⟨x, s', hrun, -⟩ := exists_run moving_total hop
  refine ⟨?_, ?_, x, s', hrun.moving_isteps⟩
  · intro c k s' hsteps
    exact isteps_guard (fun _ => idle_stable) hsteps hop
  · intro x s' hsteps
    exact isteps_result (fun _ => idle_stable) hsteps hop

/-- An opened W25Q128JV, before a sector erase. -/
theorem discipline_jv : ∃ x s', ReflTransGen (IStep bus Move) (exec qspiManufacturers (.eraseSector 3) jvDriver,
    (⟨false, false, false, none, .READ_STATUS_REGISTER⟩ : St)) (.ret x, s') ∧ Idle s' := by
  obtain ⟨-, hops⟩ := discipline qspiManufacturers (q := jvDriver)
    (s := ⟨false, false, false, none, .READ_STATUS_REGISTER⟩) (.init ⟨rfl, rfl, rfl⟩)
  obtain ⟨-, hidle, x, s', hrun⟩ := hops (.eraseSector 3) trivial
  exact ⟨x, s', hrun, hidle x s' hrun⟩

end QspiFlash.Bus.Discipline
