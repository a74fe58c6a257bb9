/-
  QspiFlash.Bus.PowerCut — what is left of the flash when the power goes in the middle of a call.

  The power may go at any question of a call. The erase or the program the chip was given last
  may then be half done, so its target is left with any content (`Torn`); the rest of the
  flash is as the call left it by then. `cutting` is the bus of `Bus.Device` with that target
  beside it.

  - `Calm`: the questions with no effect on the flash, and `calm_keeps`: a program of these.
  - `pageWrite_keeps`, `erase_keeps`: at no question of a page write or an erase has anything
    changed outside its page or unit, nor is anything else at stake.
  - `cut_keeps`: so nothing has when the power is back.
-/

import QspiFlash.Bus.Device
import QspiFlash.Driver.Identity

namespace QspiFlash.Bus.PowerCut

open Interact Driver Bus.Modes Bus.Device
open Bus.Nor (Target)
open NorArray (Bytes)

variable (x : Chip) (w : Nat) (fails : Bool)

/-- The target of the last erase or program of a call. -/
def given (y : St × Option Target) : Call → Option Target
  | .halCommand cmd _ => (Nor.eraseTarget (params x w fails) cmd).or y.2
  | .halTransmitDMA _ => if y.1.cmd.instruction = .PAGE_PROGRAM then some (.unit 256 (y.1.cmd.address % 2 ^ w)) else y.2
  | _ => y.2

def cutting : Env Call Call.Resp (St × Option Target) := (Device.bus x w fails).beside (given x w fails)

/-- The flash `f`, with the target `t` half done. -/
def Torn (t : Option Target) (f g : Bytes) : Prop := ∀ a, (∀ u, t = some u → ¬ u.Has a) → g a = f a

/-- The power went at some question of `p`, and left the flash `g`. -/
def Cut {α : Type} (p : M α) (s : St) (g : Bytes) : Prop :=
  ∃ c y, Asks (cutting x w fails) p (s, none) c y ∧ Torn y.2 y.1.flash g

/-! ## Calm questions -/

/-- Questions with no effect on the flash. -/
def Calm : Call → Prop
  | .halCommand cmd _ => ¬ IsErase cmd.instruction
  | .halTransmitDMA _ => False
  | _ => True

variable {x w fails}

theorem calm_step {s s' : St} {c : Call} {r : c.Resp} (hc : Calm c) (hs : (Device.bus x w fails).step s c r s') :
    s'.flash = s.flash := by
  have hattempt : ∀ {t : St} {r : HalStatus}, Attempt (fails = true) s t r s' → t.flash = s.flash → s'.flash = s.flash :=
    fun h ht => attempt_keeps (P := fun s' => s'.flash = s.flash) h rfl ht
  cases c with
  | halCommand cmd t => exact hattempt hs (erased_other hc)
  | halAutoPollingIT cmd cfg =>
    obtain ⟨-, rfl⟩ := hs
    exact send_flash s cmd
  | halReceiveIT => exact hattempt hs rfl
  | halReceiveDMA p => exact hattempt hs rfl
  | halTransmitDMA p => exact absurd hc id
  | halTransmit b t =>
    refine hattempt hs ?_
    unfold sendByte
    split <;> rfl
  | timedWait t =>
    rcases hs with ⟨-, u, -, -, hflash⟩ | ⟨-, -, rfl⟩
    · exact hflash
    · rfl
  | idBytes => rw [hs.2]
  | load p => rw [hs.2]
  | _ => rw [show s' = s from hs]

theorem calm_flash {α : Type} {p : M α} (hp : p.All Calm) (s : St) :
    wp (Device.bus x w fails) p (fun _ s' => s'.flash = s.flash) s :=
  wp_inv (fun _ _ _ _ => trivial) (fun _ _ _ _ hc h hs => (calm_step hc hs).trans h) hp rfl

theorem calm_given {y : St × Option Target} {c : Call} (hc : Calm c) : given x w fails y c = y.2 := by
  cases c with
  | halCommand cmd t => rw [given, eraseTarget_none hc, Option.none_or]
  | halTransmitDMA p => exact absurd hc id
  | _ => rfl

theorem mark_calm : ∀ c, Mark c → Calm c := by
  intro c h
  cases c <;> first | exact trivial | exact absurd h id

theorem identifies_calm : ∀ c, Identifies c → Calm c := by
  intro c h
  cases c with
  | halCommand cmd t =>
    show ¬ IsErase cmd.instruction
    rw [show cmd.instruction = .JEDEC_ID from h]
    exact id
  | halTransmitDMA p => exact absurd h id
  | _ => trivial

theorem command_calm {cmd : QspiCommand} {t : Timeout} (h : ¬ IsErase cmd.instruction) : (qspiCommand cmd t).All Calm :=
  all_qspiCommand h trivial

theorem enterQuadMode_calm (q : Qspi) : (enterQuadMode q).All Calm := by
  have htransmit : ∀ (b : UInt8) (t : Timeout), (halTransmit b t).All Calm := fun _ _ => ⟨trivial, fun _ => trivial⟩
  have hdummy : (dummyCyclesOf q).All Calm := by
    unfold dummyCyclesOf
    split
    · trivial
    · exact ⟨trivial, fun _ => trivial⟩
  unfold enterQuadMode
  split
  · trivial
  · refine all_onOk (command_calm id) (all_onOk (command_calm id) (all_onOk (htransmit 2 _) ?_))
    refine all_onOk (command_calm id) (all_onOk (command_calm id) ?_)
    exact Prog.all_bind hdummy fun _ => htransmit _ _
  · refine all_onOk (command_calm id) (all_onOk (command_calm id) (Prog.all_bind hdummy fun _ => ?_))
    refine all_onOk (htransmit _ _) (all_onOk (command_calm id) (all_onOk (command_calm id) ?_))
    exact all_onOk (htransmit _ _) (command_calm id)

theorem sleep_calm (state : Bool) : (sleep state).All Calm := command_calm (by cases state <;> exact id)

theorem resetChip_calm : resetChip.All Calm := all_onOk (command_calm id) (command_calm id)

theorem readJedecId_calm (tbl : List QspiManuf) (q : Qspi) : (readJedecId tbl q).All Calm := by
  refine readJedecId_asks identifies_calm (fun m _ => ?_) q
  cases m.qspiFactory with
  | none => exact ⟨trivial, fun _ => trivial⟩
  | some v => exact ⟨trivial, fun _ => trivial⟩

theorem setErrno_calm {α : Type} (e : Errno) (a : α) : (do ask (.setErrno e); pure a : M α).All Calm :=
  ⟨trivial, fun _ => trivial⟩

theorem doVopen_calm (tbl : List QspiManuf) (q : Qspi) : (doVopen tbl q).All Calm := by
  have hinit : (initializeQspi tbl q).All Calm := by
    have hfinish : ∀ y : QspiResult × Qspi, (if y.1 = .ok then do let result ← enterQuadMode y.2; pure (result, y.2)
        else pure y : M (QspiResult × Qspi)).All Calm := fun y =>
      Prog.all_ite (fun _ => Prog.all_bind (enterQuadMode_calm y.2) fun _ => trivial) fun _ => trivial
    refine Prog.all_bind (readJedecId_calm tbl q) fun y => Prog.all_ite (fun _ => ?_) fun _ => hfinish y
    refine Prog.all_bind (sleep_calm false) fun _ => Prog.all_bind resetChip_calm fun r => ?_
    exact Prog.all_ite (fun _ => Prog.all_bind (readJedecId_calm tbl y.2) hfinish) fun _ => hfinish _
  refine Prog.all_ite (fun _ => setErrno_calm _ _) fun _ => Prog.all_ite (fun _ => setErrno_calm _ _) fun _ => ?_
  refine Prog.all_bind hinit fun y => Prog.all_ite (fun _ => setErrno_calm _ _) fun _ => ?_
  exact Prog.all_ite (fun _ => setErrno_calm _ _) fun _ => trivial

theorem doClose_calm (q : Qspi) : (doClose q).All Calm := by
  have huninit : (uninitializeQspi q).All Calm :=
    Prog.all_bind (sleep_calm false) fun _ => Prog.all_bind resetChip_calm fun _ => trivial
  exact Prog.all_bind huninit fun _ => Prog.all_ite (fun _ => setErrno_calm _ _) fun _ => trivial

theorem invalidateDcache_calm (p : Ptr) (n : Nat) : (invalidateDcache p n).All Calm :=
  all_invalidateDcache trivial (fun _ _ => trivial) trivial p n

theorem read_calm (q : Qspi) (a : Nat) (p : Ptr) (n : Nat) : (Driver.read q a p n).All Calm := by
  unfold Driver.read
  split
  · trivial
  · refine all_onOk (command_calm id) (all_when (invalidateDcache_calm p n) fun _ => ?_)
    exact all_onOk ⟨trivial, fun _ => trivial⟩ ⟨trivial, fun _ => trivial⟩

/-! ## What is at stake -/

/-- Outside `T` the flash is `f`, and nothing outside `T` is at stake. -/
structure Inside (T : Nat → Prop) (f : Bytes) (y : St × Option Target) : Prop where
  flash : ∀ a, ¬ T a → y.1.flash a = f a
  stake : ∀ u, y.2 = some u → ∀ a, u.Has a → T a

variable (x w fails) in
/-- At every question of `p`, and after it. -/
def Keeps (T : Nat → Prop) (f : Bytes) {α : Type} (p : M α) : Prop :=
  ∀ y, Inside T f y → wp ((cutting x w fails).guarded fun y _ => Inside T f y) p (fun _ y' => Inside T f y') y

variable {T : Nat → Prop} {f : Bytes}

theorem Inside.calm {y y' : St × Option Target} {c : Call} {r : c.Resp} (h : Inside T f y) (hc : Calm c)
    (hs : (cutting x w fails).step y c r y') : Inside T f y' := by
  refine ⟨fun a ha => ?_, fun u hu => h.stake u ?_⟩
  · rw [calm_step hc hs.1]
    exact h.flash a ha
  · rw [← calm_given (x := x) (w := w) hc, ← hs.2]
    exact hu

theorem calm_keeps {α : Type} {p : M α} (hp : p.All Calm) : Keeps x w fails T f p := fun _ h =>
  wp_inv (fun _ _ _ h => h) (fun _ _ _ _ hc h hs => h.calm hc hs) hp h

theorem composes_keeps : Composes fun {α} (p : M α) => Keeps x w fails T f p where
  pure _ := fun _ h => h
  bind hp hg := fun y h => wp_seq (hp y h) fun a y' h' => hg a y' h'
  mark c hc _ := calm_keeps ((Prog.all_ask c).mpr (mark_calm c hc))

theorem erased_off {u : Target} {g : Bytes} {a : Nat} (h : ¬ u.Has a) : u.erased g a = g a := by
  cases u with
  | unit U b => exact if_neg h
  | all => exact absurd trivial h

/-- Any command, whose target is in `T` if it erases. -/
theorem Inside.command {y y' : St × Option Target} {cmd : QspiCommand} {t : Timeout} {r : HalStatus} (h : Inside T f y)
    (hT : ∀ u, Nor.eraseTarget (params x w fails) cmd = some u → ∀ a, u.Has a → T a)
    (hs : (cutting x w fails).step y (.halCommand cmd t) r y') : Inside T f y' := by
  obtain ⟨hs, hgiven⟩ := hs
  have herased : ∀ a, ¬ T a → erased x w fails y.1 cmd a = f a := by
    intro a ha
    unfold erased
    cases hu : Nor.eraseTarget (params x w fails) cmd with
    | none => exact h.flash a ha
    | some u =>
      show (if _ then u.erased y.1.flash else y.1.flash) a = f a
      split
      · exact (erased_off fun hin => ha (hT u hu a hin)).trans (h.flash a ha)
      · exact h.flash a ha
  refine ⟨fun a ha => ?_, fun u hu => ?_⟩
  · rcases hs with ⟨-, hs⟩ | ⟨-, -, hs⟩
    · rw [hs]
      exact herased a ha
    · rw [hs]
      exact h.flash a ha
  · rw [hgiven] at hu
    rcases Option.or_eq_some_iff.mp hu with hu | ⟨-, hu⟩
    · exact hT u hu
    · exact h.stake u hu

theorem erase_keeps {q : Qspi} {which : Instruction} {a : Nat}
    (hT : ∀ cmd : QspiCommand, cmd.instruction = which → cmd.address = a →
      ∀ u, Nor.eraseTarget (params x w fails) cmd = some u → ∀ b, u.Has b → T b) :
    Keeps x w fails T f (erase q a which) := by
  have hpoll : ∀ cmd lim, Keeps x w fails T f (onOk (halAutoPollingIT cmd statusPoll) (timedWait lim)) := fun cmd lim =>
    calm_keeps (all_onOk ⟨trivial, fun _ => trivial⟩ ⟨trivial, fun _ => trivial⟩)
  unfold erase
  split
  · exact composes_keeps.pure _
  · refine composes_keeps.onOk (calm_keeps (command_calm id)) (composes_keeps.onOk (fun y h => ?_) (hpoll _ _))
    apply wp_attempts (I := Inside T f) h
    · exact fun _ h => h
    · exact fun y y' h hs => h.command (hT _ rfl rfl) hs
    · intro y r y' h _ hs
      have h' := h.command (hT _ rfl rfl) hs
      exact ⟨h', h', fun y'' ha => h'.calm (c := .crAbort) trivial ha⟩

/-- The bytes go to the page the command was for. -/
theorem Inside.transmit {y y' : St × Option Target} {p : Ptr} {r : HalStatus} (h : Inside T f y)
    (hT : ∀ b, b / 256 = y.1.cmd.address % 2 ^ w / 256 → T b)
    (hs : (cutting x w fails).step y (.halTransmitDMA p) r y') : Inside T f y' := by
  obtain ⟨hs, hgiven⟩ := hs
  have hprog : ∀ a, ¬ T a → programmed w y.1 p a = f a := by
    intro a ha
    unfold programmed
    split
    · exact (NorArray.program_frame (by decide) _ _ _ (fun hpage => ha (hT a hpage)) _).trans (h.flash a ha)
    · exact h.flash a ha
  refine ⟨fun a ha => ?_, fun u hu => ?_⟩
  · rcases hs with ⟨-, hs⟩ | ⟨-, -, hs⟩
    · rw [hs]
      exact hprog a ha
    · rw [hs]
      exact h.flash a ha
  · rw [hgiven] at hu
    unfold given at hu
    dsimp only at hu
    split at hu
    · obtain rfl := Option.some.inj hu
      exact hT
    · exact h.stake u hu

/-- Cache maintenance changes nothing on the bus. -/
theorem cleanDcache_same (p : Ptr) (n : Nat) {y : St × Option Target} (h : Inside T f y) :
    wp ((cutting x w fails).guarded fun y _ => Inside T f y) (cleanDcache p n) (fun _ y' => y' = y) y := by
  have hquiet : (cleanDcache p n).All fun c => Calm c ∧ Quiet (Device.bus x w fails) c :=
    all_cleanDcache ⟨trivial, fun _ => ⟨trivial, fun _ _ h => h⟩⟩
      (fun _ _ => ⟨trivial, fun _ => ⟨trivial, fun _ _ h => h⟩⟩) ⟨trivial, fun _ => ⟨trivial, fun _ _ h => h⟩⟩ p n
  refine wp_inv (fun _ _ _ h' => by rw [h']; exact h) (fun y₁ c r y₂ hc h' hs => ?_) hquiet rfl
  rw [← h']
  exact Prod.ext ((hc.2 y₁.1).2 r y₂.1 hs.1) (hs.2.trans (calm_given hc.1))

theorem pageWrite_keeps {q : Qspi} {a : Nat} {p : Ptr} {n : Nat} (hT : ∀ b, b / 256 = a % 2 ^ w / 256 → T b) :
    Keeps x w fails T f (pageWrite q a p n) := by
  refine composes_keeps.onOk (calm_keeps (command_calm id)) fun y h => ?_
  have hcalm : ∀ {cmd : QspiCommand}, cmd.instruction = .PAGE_PROGRAM → ∀ t, Calm (.halCommand cmd t) := by
    intro cmd hi t
    show ¬ IsErase cmd.instruction
    rw [hi]
    exact id
  -- once its command went well, it is the command the transmission is for
  refine wp_onOk (wp_mono (Q := fun r y' => Inside T f y' ∧ (r = .ok → y'.1.cmd.address = a)) ?_ ?_)
  · apply wp_attempts (I := Inside T f) h
    · exact fun _ h => h
    · intro y y' h hs
      refine ⟨h.calm (hcalm rfl _) hs, fun _ => ?_⟩
      rcases hs.1 with ⟨-, hs⟩ | ⟨-, hr, -⟩
      · rw [hs]
        exact congrArg QspiCommand.address (send_cmd _ _)
      · exact absurd rfl hr
    · intro y r y' h hr hs
      have h' := h.calm (hcalm rfl _) hs
      exact ⟨⟨h', fun hok => absurd (ofHal_eq_ok.mp hok) hr⟩, h', fun y'' ha => h'.calm (c := .crAbort) trivial ha⟩
  · intro r y₁ h₁
    refine ⟨fun hr => ?_, fun _ => h₁.1⟩
    refine wp_when (cleanDcache_same p n h₁.1) (wp_onOk (wp_halTransmitDMA.mpr ⟨h₁.1, fun r y' hs => ?_⟩))
    have h' : Inside T f y' := by
      refine h₁.1.transmit ?_ hs
      rw [h₁.2 hr]
      exact hT
    refine ⟨fun _ => calm_keeps ?_ y' h', fun _ => h'⟩
    exact all_onOk ⟨trivial, fun _ => trivial⟩ (all_onOk ⟨trivial, fun _ => trivial⟩ ⟨trivial, fun _ => trivial⟩)

/-- Whatever was cut, the flash outside `T` is as it was. -/
theorem cut_keeps {α : Type} {p : M α} (hp : ∀ f, Keeps x w fails T f p) {s : St} {g : Bytes} (h : Cut x w fails p s g) :
    ∀ a, ¬ T a → g a = s.flash a := by
  obtain ⟨c, y, hasks, htorn⟩ := h
  have hstart : Inside T s.flash (s, none) := ⟨fun _ _ => rfl, fun u hu => by cases hu⟩
  have hin := wp_asks (hp s.flash (s, none) hstart) (asks_guarded hasks)
  exact fun a ha => (htorn a fun u hu hh => ha (hin.stake u hu a hh)).trans (hin.flash a ha)

end QspiFlash.Bus.PowerCut
