/-
  QspiFlash.Bus.Events — transfers, their completion events and the one semaphore.

  A transfer started is numbered. `post i` is the interrupt of transfer `i`: once at most, at
  any later time, also after the wait that was meant for it has timed out. It moves the
  bytes of a read and posts the semaphore, which is binary, so a second token is lost.

  Nothing in the driver drains the semaphore, so a wait can take the token of an earlier
  transfer (`late_event`). `Timely` is the condition under which it does not: a transfer is
  only started with no token left over, and while one is awaited no earlier transfer's event
  is posted. In a run of public operations whose steps are all timely, every `ok` of `read`,
  `do_read_block`, `page_write` and `erase` comes after the event of the last transfer that
  call started (`events_matched`).
-/

import QspiFlash.Bus.Nor
import QspiFlash.Driver.Api
import QspiFlash.Driver.Opened
import QspiFlash.Interact.Interleave

namespace QspiFlash.Bus.Events

open Interact Driver
open NorArray (Bytes)
open Relation (ReflTransGen)

inductive Transfer where
  | receiveIT
  | receive (buff : Ptr) (address count : Nat)
  | transmit (buff : Ptr) (address count : Nat)
  | poll
  deriving DecidableEq, Repr

structure St where
  flash : Bytes
  mem : Region → Nat → UInt8
  /-- The last command accepted with a data phase. -/
  cmd : QspiCommand
  sem : Bool
  /-- The transfers started, oldest first. -/
  started : List Transfer
  /-- The transfers whose event has been posted. -/
  posted : List Nat
  /-- The wait for the last transfer has not ended. -/
  awaiting : Bool

/-- Before the first call. -/
def start (flash : Bytes) (mem : Region → Nat → UInt8) : St :=
  ⟨flash, mem, { instruction := .READ_STATUS_REGISTER, instructionMode := .none }, false, [], [], false⟩

/-- A HAL call that has started a transfer. -/
def Starts : (c : Call) → c.Resp → Prop
  | .halReceiveIT, r | .halReceiveDMA _, r | .halTransmitDMA _, r | .halAutoPollingIT .., r => r = .ok
  | _, _ => False

def begin (s : St) (t : Transfer) : St := { s with started := s.started ++ [t], awaiting := true }

/-- The memory once the bytes of the transfer have been moved. -/
def Transfer.land (f : Bytes) (m : Region → Nat → UInt8) : Transfer → Region → Nat → UInt8
  | .receive p a n => Nor.fill m p n fun i => f (a + i)
  | _ => m

/-- The interrupt of transfer `i`: `cb_event`. -/
def post (s : St) (i : Nat) : St :=
  { s with mem := s.started[i]?.elim s.mem (·.land s.flash s.mem), sem := true, posted := i :: s.posted }

def Pending (s : St) (i : Nat) : Prop := i < s.started.length ∧ i ∉ s.posted

/-- What erases and programs do to the flash is left open; a read does not change it. -/
def command (s : St) (cmd : QspiCommand) (r : HalStatus) (g : Bytes) : St :=
  { s with
    cmd := if r = .ok ∧ cmd.dataMode ≠ .none then cmd else s.cmd
    flash := if cmd.instruction = .FAST_READ_QUAD_IN_OUT then s.flash else g }

def step (s : St) : (c : Call) → c.Resp → St → Prop
  | .halCommand cmd _, r, s' => ∃ g, s' = command s cmd r g
  | .halReceiveIT, r, s' => s' = if r = .ok then begin s .receiveIT else s
  | .halReceiveDMA p, r, s' => s' = if r = .ok then begin s (.receive p s.cmd.address s.cmd.nbData) else s
  | .halTransmitDMA p, r, s' => ∃ g, s' =
      { (if r = .ok then begin s (.transmit p s.cmd.address s.cmd.nbData) else s) with flash := g }
  | .halAutoPollingIT _ _, r, s' => s' = if r = .ok then begin s .poll else s
  | .timedWait _, r, s' => r = s.sem ∧ s' = { s with sem := false, awaiting := false }
  | .load p, r, s' => r = s.mem p.region p.off ∧ s' = s
  | .crAbort, _, s' | .halTransmit .., _, s' | .halMemoryMapped .., _, s' | .halAbort, _, s' => s' = s
  | .idBytes, _, s' | .dcacheEnabled, _, s' | .cleanInvalidateDCache .., _, s' | .cleanDCache .., _, s' => s' = s
  | .qspiFactory _, _, s' | .setErrno _, _, s' | .wrapped, _, s' | .nullDeref, _, s' => s' = s
  | .overrun, _, s' | .dropped .., _, s' => s' = s

def bus : Env Call Call.Resp St where
  guard _ _ := True
  step := step

def interrupt (s s' : St) : Prop := ∃ i, Pending s i ∧ s' = post s i

/-! ## Timely runs -/

/-- A transfer is started only with no token left over. -/
def Timely (s : St) (c : Call) (r : c.Resp) : Prop := Starts c r → s.sem = false

def timelyBus : Env Call Call.Resp St where
  guard _ _ := True
  step s c r s' := step s c r s' ∧ Timely s c r

/-- While a transfer is awaited, no earlier one's event is posted. -/
def timelyInterrupt (s s' : St) : Prop :=
  ∃ i, Pending s i ∧ (s.awaiting = true → i + 1 = s.started.length) ∧ s' = post s i

/-- From `s` to `s'` a transfer was started, and the last one's event has been posted. -/
def Matched (s s' : St) : Prop := s.started.length < s'.started.length ∧ s'.started.length - 1 ∈ s'.posted

/-- The timely bus with its interrupts. -/
abbrev timely : Env Call Call.Resp St := timelyBus.moving timelyInterrupt

/-! ## One wait -/

/-- Transfer `t` is awaited, after those of `l`; `m` and `f` were the memory and the flash at its start. -/
structure Awaited (l : List Transfer) (t : Transfer) (m : Region → Nat → UInt8) (f : Bytes) (s : St) : Prop where
  started : s.started = l ++ [t]
  awaiting : s.awaiting = true
  flash : s.flash = f
  token : (s.sem = false ∧ s.mem = m) ∨ (s.sem = true ∧ l.length ∈ s.posted ∧ s.mem = t.land f m)

theorem awaited_stable {l : List Transfer} {t : Transfer} {m : Region → Nat → UInt8} {f : Bytes} :
    Stable timelyInterrupt (Awaited l t m f) := by
  intro s s' h hi
  obtain ⟨i, ⟨-, hnew⟩, hlast, rfl⟩ := hi
  have hl := hlast h.awaiting
  rw [h.started, List.length_append, List.length_singleton] at hl
  obtain rfl : i = l.length := by omega
  rcases h.token with ⟨-, hm⟩ | ⟨-, hp, -⟩
  · refine ⟨h.started, h.awaiting, h.flash, Or.inr ⟨rfl, List.mem_cons_self, ?_⟩⟩
    simp [post, h.started, h.flash, hm]
  · exact absurd hp hnew

/-- A wait that succeeds took the token of the transfer it was for. -/
theorem wait_spec {l : List Transfer} {t : Transfer} {m : Region → Nat → UInt8} {f : Bytes} {s : St}
    (h : Awaited l t m f s)
    (lim : Timeout) : wp timely (timedWait lim) (fun r s' => s'.started = l ++ [t] ∧ s'.flash = f ∧
      (r = .ok → l.length ∈ s'.posted ∧ s'.mem = t.land f m)) s := by
  refine wp_timedWait.mpr ⟨fun _ _ => trivial, ?_⟩
  intro r s' hs
  obtain ⟨s₁, hmoves, ⟨hr, rfl⟩, -⟩ := hs
  have h₁ := awaited_stable.star hmoves h
  refine ⟨h₁.started, h₁.flash, fun hok => ?_⟩
  rcases h₁.token with ⟨hf, -⟩ | ⟨-, hp, hm⟩
  · rw [hr, hf] at hok
    cases hok
  · exact ⟨hp, hm⟩

/-! ## Up to the start of a transfer -/

theorem moves_keep {s s' : St} (h : ReflTransGen timelyInterrupt s s') :
    s'.started = s.started ∧ s'.cmd = s.cmd ∧ s'.flash = s.flash := by
  induction h with
  | refl => exact ⟨rfl, rfl, rfl⟩
  | tail _ ht ih =>
    obtain ⟨i, -, -, rfl⟩ := ht
    exact ih

/-- At least `n` transfers have been started, and the last command is `cmd`. -/
structure Ready (n : Nat) (cmd : QspiCommand) (s : St) : Prop where
  ahead : n ≤ s.started.length
  cmd : s.cmd = cmd

theorem command_ahead {n : Nat} {cmd : QspiCommand} {t : Timeout} {s : St} (h : n ≤ s.started.length) :
    wp timely (qspiCommand cmd t) (fun r s' => n ≤ s'.started.length ∧
      (r = .ok → cmd.dataMode ≠ .none → s'.cmd = cmd)) s := by
  have hcmd : ∀ s₁ s₂ : St, ∀ r, n ≤ s₁.started.length → timely.step s₁ (.halCommand cmd t) r s₂ →
      n ≤ s₂.started.length ∧ (r = .ok → cmd.dataMode ≠ .none → s₂.cmd = cmd) := by
    intro s₁ s₂ r hn hs
    obtain ⟨s₀, hmoves, ⟨g, rfl⟩, -⟩ := hs
    refine ⟨by rw [← (moves_keep hmoves).1] at hn; exact hn, fun hr hd => ?_⟩
    exact if_pos ⟨hr, hd⟩
  apply wp_attempts (I := fun s => n ≤ s.started.length) h
  · exact fun _ _ _ _ => trivial
  · exact fun s₁ s₂ hn hs => ⟨(hcmd s₁ s₂ .ok hn hs).1, fun _ => (hcmd s₁ s₂ .ok hn hs).2 rfl⟩
  · intro s₁ r s₂ hn hr hs
    have hahead := (hcmd s₁ s₂ r hn hs).1
    refine ⟨⟨hahead, fun hok => absurd (ofHal_eq_ok.mp hok) hr⟩, fun _ _ => trivial, ?_⟩
    intro s₃ hs₃
    obtain ⟨s₀, hmoves, hstep, -⟩ := hs₃
    rw [show s₃ = s₀ from hstep, (moves_keep hmoves).1]
    exact hahead

theorem command_counted {n : Nat} {cmd : QspiCommand} {t : Timeout} {s : St} (h : n ≤ s.started.length) :
    wp timely (qspiCommand cmd t) (fun r s' => r = .ok → n ≤ s'.started.length) s :=
  wp_mono (command_ahead h) fun _ _ h' _ => h'.1

theorem command_ready {n : Nat} {cmd : QspiCommand} {t : Timeout} {s : St} (h : n ≤ s.started.length)
    (hd : cmd.dataMode ≠ .none) :
    wp timely (qspiCommand cmd t) (fun r s' => r = .ok → Ready n cmd s') s :=
  wp_mono (command_ahead h) fun _ _ h' hr => ⟨h'.1, h'.2 hr hd⟩

/-- Cache maintenance starts nothing. -/
def Silent (c : Call) : Prop := ∀ (s : St) r s', step s c r s' → s' = s

theorem silent_ready {p : M Unit} (hp : p.All Silent) {n : Nat} {cmd : QspiCommand} {s : St} (h : Ready n cmd s) :
    wp timely p (fun _ s' => Ready n cmd s') s := by
  refine wp_inv (fun _ _ _ _ _ _ => trivial) ?_ hp h
  intro s₁ c r s' hc hi hs
  obtain ⟨s₀, hmoves, hstep, -⟩ := hs
  rw [hc s₀ r s' hstep]
  obtain ⟨h1, h2, -⟩ := moves_keep hmoves
  exact ⟨by rw [h1]; exact hi.ahead, by rw [h2]; exact hi.cmd⟩

theorem maintained_ready {c : Prop} [Decidable c] {p : M Unit} (hp : p.All Silent) {k : M QspiResult} {n : Nat}
    {cmd : QspiCommand} {s : St} {Q : QspiResult → St → Prop} (h : Ready n cmd s)
    (hk : ∀ s', Ready n cmd s' → wp timely k Q s') :
    wp timely (if c then p >>= fun _ => k else k) Q s :=
  wp_ite (fun _ => wp_seq (silent_ready hp h) fun _ s' h' => hk s' h') fun _ => hk s h

/-! ## Starting and waiting -/

/-- Transfer `t`, started after at least `n` others, is awaited. -/
def Began (n : Nat) (t : Transfer) (s : St) : Prop := ∃ l m f, n ≤ l.length ∧ Awaited l t m f s

/-- Transfer `t` was started last, after at least `n` others, and has moved its bytes and
    posted its event. -/
structure Ended (n : Nat) (t : Transfer) (s : St) : Prop where
  last : ∃ l, n ≤ l.length ∧ s.started = l ++ [t] ∧ l.length ∈ s.posted
  land : ∃ m, s.mem = t.land s.flash m

theorem Ended.matched {n : Nat} {t : Transfer} {s : St} (h : Ended n t s) :
    n < s.started.length ∧ s.started.length - 1 ∈ s.posted := by
  obtain ⟨l, hn, hs, hp⟩ := h.last
  rw [hs, List.length_append, List.length_singleton]
  exact ⟨by omega, hp⟩

theorem start_wait {n : Nat} {t : Transfer} {p : M QspiResult} {lim : Timeout} {s : St}
    (hp : wp timely p (fun r s' => r = .ok → Began n t s') s) :
    wp timely (onOk p (timedWait lim)) (fun r s' => r = .ok → Ended n t s') s := by
  refine wp_onOk_ok hp fun s₁ hbegan => ?_
  obtain ⟨l, m, f, hn, hawait⟩ := hbegan
  refine wp_mono (wait_spec hawait lim) ?_
  intro r' s₂ h hr'
  obtain ⟨hstarted, hflash, hok⟩ := h
  obtain ⟨hpost, hmem⟩ := hok hr'
  exact ⟨⟨l, hn, hstarted, hpost⟩, m, by rw [hflash]; exact hmem⟩

/-- A start with no token left over: the transfer is awaited. -/
theorem begin_awaited {n : Nat} {t : Transfer} {s s₀ : St} {g : Bytes} (hn : n ≤ s.started.length)
    (hmoves : ReflTransGen timelyInterrupt s s₀) (hsem : s₀.sem = false) : Began n t { begin s₀ t with flash := g } :=
  ⟨s₀.started, s₀.mem, g, by rw [(moves_keep hmoves).1]; exact hn, rfl, rfl, rfl, Or.inl ⟨hsem, rfl⟩⟩

theorem receive_began {n : Nat} {cmd : QspiCommand} {s : St} (h : Ready n cmd s) (p : Ptr) :
    wp timely (halReceiveDMA p) (fun r s' => r = .ok → Began n (.receive p cmd.address cmd.nbData) s') s := by
  refine wp_halReceiveDMA.mpr ⟨fun _ _ => trivial, ?_⟩
  intro r s' hs hr
  obtain ⟨s₀, hmoves, hstep, hsem⟩ := hs
  have hcmd : s₀.cmd = cmd := (moves_keep hmoves).2.1.trans h.cmd
  rw [show s' = if r = .ok then _ else _ from hstep, if_pos (ofHal_eq_ok.mp hr), hcmd]
  exact begin_awaited (g := s₀.flash) h.ahead hmoves (hsem (ofHal_eq_ok.mp hr))

theorem transmit_began {n : Nat} {cmd : QspiCommand} {s : St} (h : Ready n cmd s) (p : Ptr) :
    wp timely (halTransmitDMA p) (fun r s' => r = .ok → Began n (.transmit p cmd.address cmd.nbData) s') s := by
  refine wp_halTransmitDMA.mpr ⟨fun _ _ => trivial, ?_⟩
  intro r s' hs hr
  obtain ⟨s₀, hmoves, ⟨g, hstep⟩, hsem⟩ := hs
  have hcmd : s₀.cmd = cmd := (moves_keep hmoves).2.1.trans h.cmd
  rw [hstep, if_pos (ofHal_eq_ok.mp hr), hcmd]
  exact begin_awaited h.ahead hmoves (hsem (ofHal_eq_ok.mp hr))

theorem poll_began {n : Nat} {s : St} (h : n ≤ s.started.length) (cmd : QspiCommand) (cfg : QspiAutoPolling) :
    wp timely (halAutoPollingIT cmd cfg) (fun r s' => r = .ok → Began n .poll s') s := by
  refine wp_halAutoPollingIT.mpr ⟨fun _ _ => trivial, ?_⟩
  intro r s' hs hr
  obtain ⟨s₀, hmoves, hstep, hsem⟩ := hs
  rw [show s' = if r = .ok then _ else _ from hstep, if_pos (ofHal_eq_ok.mp hr)]
  exact begin_awaited (g := s₀.flash) h hmoves (hsem (ofHal_eq_ok.mp hr))

/-! ## The driver's calls -/

theorem read_ended (q : Qspi) (a : Nat) (p : Ptr) (n : Nat) (s : St) :
    wp timely (Driver.read q a p n) (fun r s' => r = .ok → Ended s.started.length (.receive p a n) s') s := by
  unfold Driver.read
  cases q.pdevice with
  | none => exact nofun
  | some d =>
    have hcache : (invalidateDcache p n).All Silent :=
      all_invalidateDcache (fun _ _ _ h => h) (fun _ _ _ _ _ h => h) (fun _ _ _ h => h) p n
    refine wp_onOk_ok (command_ready (Nat.le_refl _) nofun) fun s₁ hready => ?_
    exact maintained_ready hcache hready fun s₂ h₂ => start_wait (receive_began h₂ p)

theorem poll_ended {n : Nat} {s : St} (h : n ≤ s.started.length) (cmd : QspiCommand) (lim : Timeout) :
    wp timely (onOk (halAutoPollingIT cmd statusPoll) (timedWait lim)) (fun r s' => r = .ok → Ended n .poll s') s :=
  start_wait (poll_began h cmd statusPoll)

theorem pageWrite_ended (q : Qspi) (a : Nat) (p : Ptr) (n : Nat) (s : St) :
    wp timely (pageWrite q a p n) (fun r s' => r = .ok → Ended s.started.length .poll s') s := by
  unfold pageWrite
  have hcache : (cleanDcache p n).All Silent :=
    all_cleanDcache (fun _ _ _ h => h) (fun _ _ _ _ _ h => h) (fun _ _ _ h => h) p n
  refine wp_onOk_ok (command_counted (Nat.le_refl _)) fun s₁ h₁ => ?_
  refine wp_onOk_ok (command_ready h₁ nofun) fun s₂ hready => ?_
  refine maintained_ready hcache hready fun s₃ h₃ => ?_
  refine wp_onOk_ok (transmit_began h₃ p) fun s₄ hbegan => ?_
  obtain ⟨l, m, f, hn, hawait⟩ := hbegan
  -- the wait for the program counts one transfer more
  have hcounted : wp timely (timedWait .TIMEOUT) (fun r s' => r = .ok → s.started.length ≤ s'.started.length) s₄ := by
    refine wp_mono (wait_spec hawait .TIMEOUT) ?_
    intro r s₅ h₅ _
    rw [h₅.1, List.length_append]
    omega
  exact wp_onOk_ok hcounted fun s₅ h₅ => poll_ended h₅ _ _

theorem erase_ended (q : Qspi) (a : Nat) (which : Instruction) (s : St) :
    wp timely (erase q a which) (fun r s' => r = .ok → Ended s.started.length .poll s') s := by
  unfold erase
  cases q.pdevice with
  | none => exact nofun
  | some d =>
    refine wp_onOk_ok (command_counted (Nat.le_refl _)) fun s₁ h₁ => ?_
    exact wp_onOk_ok (command_counted h₁) fun s₂ h₂ => poll_ended h₂ _ _

theorem u32_ahead {n : Nat} {s : St} (h : n ≤ s.started.length) (x : Nat) :
    wp timely (u32 x) (fun v s' => v = x % 2 ^ 32 ∧ n ≤ s'.started.length) s := by
  unfold u32
  refine wp_ite (fun hx => wp_pure.mpr ⟨(Nat.mod_eq_of_lt hx).symm, h⟩) fun _ => ?_
  refine wp_seq (P := fun _ s' => n ≤ s'.started.length) ⟨fun _ _ => trivial, ?_⟩ fun _ s' h' => wp_pure.mpr ⟨rfl, h'⟩
  intro r s' hs
  obtain ⟨s₀, hmoves, hstep, -⟩ := hs
  show n ≤ s'.started.length
  rw [show s' = s₀ from hstep, (moves_keep hmoves).1]
  exact h

theorem Ended.mono {n m : Nat} {t : Transfer} {s : St} (h : Ended n t s) (hm : m ≤ n) : Ended m t s := by
  obtain ⟨l, hn, hl⟩ := h.last
  exact ⟨⟨l, Nat.le_trans hm hn, hl⟩, h.land⟩

theorem doReadBlock_ended (q : Qspi) (buf : Ptr) (k n : Nat) (s : St) :
    wp timely (doReadBlock q buf k n) (fun r s' => r ≠ -1 → Ended s.started.length (.receive buf
      (q.blockLogicalSizeBytes * k % 2 ^ 32) (q.blockLogicalSizeBytes * n % 2 ^ 32)) s') s := by
  unfold doReadBlock
  refine wp_seq (u32_ahead (Nat.le_refl _) _) ?_
  intro a s₁ h₁
  refine wp_seq (u32_ahead h₁.2 _) ?_
  intro c s₂ h₂
  rw [h₁.1, h₂.1]
  refine wp_seq (read_ended q _ buf _ s₂) ?_
  intro r s₃ hread
  refine wp_ite (fun _ => ⟨fun _ _ => trivial, fun _ s' _ h => absurd ssize_minusOne h⟩) fun hok => wp_pure.mpr ?_
  exact fun _ => (hread (not_not.mp hok)).mono h₂.2

/-! ## Runs of public operations -/

/-- A call, what it returns when all went well, and the transfer it then started last. -/
inductive Awaits : {α : Type} → M α → (α → Prop) → Transfer → Prop
  | read (q : Qspi) (a : Nat) (p : Ptr) (n : Nat) : Awaits (Driver.read q a p n) (· = .ok) (.receive p a n)
  | doReadBlock (q : Qspi) (buf : Ptr) (k n : Nat) : Awaits (Driver.doReadBlock q buf k n) (· ≠ -1)
      (.receive buf (q.blockLogicalSizeBytes * k % 2 ^ 32) (q.blockLogicalSizeBytes * n % 2 ^ 32))
  | pageWrite (q : Qspi) (a : Nat) (p : Ptr) (n : Nat) : Awaits (Driver.pageWrite q a p n) (· = .ok) .poll
  | erase (q : Qspi) (a : Nat) (which : Instruction) : Awaits (Driver.erase q a which) (· = .ok) .poll

/-- The buffer of a read holds the bytes of the flash. -/
def Transfer.Filled (s : St) : Transfer → Prop
  | .receive p a n => ∀ i, i < n → s.mem p.region (p.off + i) = s.flash (a + i)
  | _ => True

/-- In every run of public operations on a fresh object, each call that returns well has had
    the event of the last transfer it started itself, and its buffer filled. -/
def EventsMatched (E : Env Call Call.Resp St) (tau : St → St → Prop) (tbl : List QspiManuf) : Prop :=
  ∀ (ops : List Op) (q : Qspi) (f : Bytes) (m : Region → Nat → UInt8), Fresh q →
    ∀ {α : Type} {call : M α} {good : α → Prop} {t : Transfer}, Awaits call good t →
      ∀ (k : α → M Qspi) (s₁ : St), ReflTransGen (IStep E tau) (session tbl ops q, start f m) (call >>= k, s₁) →
        ∀ (a : α) (s₂ : St), Runs (E.moving tau) call s₁ a s₂ → good a → Matched s₁ s₂ ∧ t.Filled s₂

theorem Ended.filled {n : Nat} {t : Transfer} {s : St} (h : Ended n t s) : t.Filled s := by
  obtain ⟨m, hm⟩ := h.land
  cases t with
  | receive p a n =>
    intro i hi
    rw [hm]
    show Nor.fill m p n (fun i => s.flash (a + i)) p.region (p.off + i) = _
    exact Nor.fill_on hi
  | receiveIT => trivial
  | transmit p a n => trivial
  | poll => trivial

theorem awaits_ended {α : Type} {call : M α} {good : α → Prop} {t : Transfer} (h : Awaits call good t) (s : St) :
    wp timely call (fun a s' => good a → Ended s.started.length t s') s := by
  cases h with
  | read q a p n => exact read_ended q a p n s
  | doReadBlock q buf k n => exact doReadBlock_ended q buf k n s
  | pageWrite q a p n => exact pageWrite_ended q a p n s
  | erase q a which => exact erase_ended q a which s

/-- Where every step of the run is timely, events are matched to their transfers. -/
theorem events_matched (tbl : List QspiManuf) : EventsMatched timelyBus timelyInterrupt tbl := by
  intro ops q f m _ α call good t hcall k s₁ _ a s₂ hrun hgood
  have hended := wp_runs (awaits_ended hcall s₁) hrun hgood
  exact ⟨hended.matched, hended.filled⟩

/-! ## Two runs -/

def tryPost (s : St) (i : Nat) : St := if i < s.started.length ∧ i ∉ s.posted then post s i else s

/-- A bus without failures and with a W25Q128JV's ID, where the events of `move` come during the waits. -/
def answer (move : St → St) (s : St) : (c : Call) → c.Resp × St
  | .halCommand cmd _ => (.ok, command s cmd .ok s.flash)
  | .halReceiveIT => (.ok, begin s .receiveIT)
  | .halReceiveDMA p => (.ok, begin s (.receive p s.cmd.address s.cmd.nbData))
  | .halTransmitDMA p => (.ok, { begin s (.transmit p s.cmd.address s.cmd.nbData) with flash := s.flash })
  | .halAutoPollingIT _ _ => (.ok, begin s .poll)
  | .timedWait _ => ((move s).sem, { move s with sem := false, awaiting := false })
  | .load p => (s.mem p.region p.off, s)
  | .idBytes => ((0xEF, 0x70, 0x18), s)
  | .halTransmit .. | .halMemoryMapped .. | .halAbort => (.ok, s)
  | .dcacheEnabled => (false, s)
  | .nullDeref => (0, s)
  | .crAbort | .cleanInvalidateDCache .. | .cleanDCache .. | .qspiFactory _ | .setErrno _ => ((), s)
  | .wrapped | .overrun | .dropped .. => ((), s)

theorem answer_steps {move : St → St} {tau : St → St → Prop} {s : St} (hm : ReflTransGen tau s (move s)) (c : Call) :
    (bus.moving tau).step s c (answer move s c).1 (answer move s c).2 := by
  cases c with
  | timedWait t => exact ⟨move s, hm, rfl, rfl⟩
  | halCommand cmd t => exact ⟨s, .refl, s.flash, rfl⟩
  | halTransmitDMA p => exact ⟨s, .refl, s.flash, rfl⟩
  | load p => exact ⟨s, .refl, rfl, rfl⟩
  | _ => exact ⟨s, .refl, rfl⟩

/-- What the property says of a read after other operations. -/
theorem EventsMatched.read {E : Env Call Call.Resp St} {tau : St → St → Prop} {tbl : List QspiManuf}
    (h : EventsMatched E tau tbl) {ops : List Op} {q q' : Qspi} {f : Bytes} {m : Region → Nat → UInt8} {s₁ s₂ : St}
    (hq : Fresh q) (hops : Runs (E.moving tau) (session tbl ops q) (start f m) q' s₁) {a n : Nat} {p : Ptr}
    (hread : Runs (E.moving tau) (Driver.read q' a p n) s₁ .ok s₂) : Matched s₁ s₂ := by
  have hfirst : ReflTransGen (IStep E tau) (session tbl (ops ++ [.read a p n]) q, start f m)
      (session tbl [.read a p n] q', s₁) := by
    rw [session_append]
    exact isteps_bind (session tbl [.read a p n]) hops.moving_isteps
  have hcall : session tbl [.read a p n] q' =
      Driver.read q' a p n >>= fun r => pure (Out.result r, q') >>= fun y => session tbl [] y.2 := by
    simp only [session, exec, keep, bind_assoc]
  rw [hcall] at hfirst
  exact (h _ q f m hq (.read q' a p n) _ s₁ hfirst .ok s₂ hread rfl).1

def readBuff : Ptr := ⟨.caller, 0x20000100, 0⟩

/-- The object and the bus after the operations `ops` and then a read of four bytes. -/
def afterOps (move : St → St) (ops : List Op) : Qspi × St :=
  (session qspiManufacturers ops freshDriver).run (answer move) (start (fun _ => 0xFF) fun _ _ => 0)

def afterRead (move : St → St) (ops : List Op) : QspiResult × St :=
  (Driver.read (afterOps move ops).1 0 readBuff 4).run (answer move) (afterOps move ops).2

/-- The first transfer's event comes in time, the second's only once the third is awaited,
    the third's not at all. -/
def lateMove (s : St) : St :=
  if s.started.length = 1 then tryPost s 0 else if s.started.length = 3 then tryPost s 1 else s

theorem tryPost_moves (s : St) (i : Nat) : ReflTransGen interrupt s (tryPost s i) := by
  unfold tryPost
  split
  · exact .single ⟨i, ‹_›, rfl⟩
  · exact .refl

theorem lateMove_moves (s : St) : ReflTransGen interrupt s (lateMove s) := by
  unfold lateMove
  split
  · exact tryPost_moves s 0
  · split
    · exact tryPost_moves s 1
    · exact .refl

theorem afterRead_late : (afterRead lateMove [.initializeQspi, .read 0 readBuff 4]).1 = .ok := by decide +kernel

/-- After a read whose event is late, the second read takes the late event's token and
    returns `ok` before its own event. -/
theorem late_event : ¬ EventsMatched bus interrupt qspiManufacturers := by
  intro h
  have hrun : ∀ {α : Type} (p : M α) (s : St), Runs (bus.moving interrupt) p s (p.run (answer lateMove) s).1
      (p.run (answer lateMove) s).2 := fun p s =>
    (runs_run (I := fun _ => True) (fun s c _ => answer_steps (lateMove_moves s) c) (fun _ _ _ => trivial) p trivial).1
  have hread := (hrun (Driver.read (afterOps lateMove [.initializeQspi, .read 0 readBuff 4]).1 0 readBuff 4)
    (afterOps lateMove [.initializeQspi, .read 0 readBuff 4]).2).returns afterRead_late
  have hmatched := h.read ⟨rfl, rfl, rfl, rfl, rfl, rfl⟩ (hrun _ _) hread
  exact absurd hmatched.2 (by decide +kernel)

/-- Every event comes during its own wait. -/
def timelyMove (s : St) : St := tryPost s (s.started.length - 1)

theorem timelyMove_moves (s : St) : ReflTransGen timelyInterrupt s (timelyMove s) := by
  unfold timelyMove tryPost
  split
  · rename_i h
    exact .single ⟨_, h, fun _ => by omega, rfl⟩
  · exact .refl

theorem afterRead_timely : (afterRead timelyMove [.initializeQspi]).1 = .ok := by decide +kernel

/-- A timely run of `initialize` and a read. -/
theorem events_matched_read :
    Matched (afterOps timelyMove [.initializeQspi]).2 (afterRead timelyMove [.initializeQspi]).2 := by
  have hkeep : ∀ s c, s.sem = false → (answer timelyMove s c).2.sem = false := by
    intro s c h
    cases c <;> first | exact h | rfl
  have hstep : ∀ s c, s.sem = false → timely.step s c (answer timelyMove s c).1 (answer timelyMove s c).2 := by
    intro s c h
    cases c with
    | timedWait t => exact ⟨timelyMove s, timelyMove_moves s, ⟨rfl, rfl⟩, nofun⟩
    | halCommand cmd t => exact ⟨s, .refl, ⟨s.flash, rfl⟩, nofun⟩
    | halTransmitDMA p => exact ⟨s, .refl, ⟨s.flash, rfl⟩, fun _ => h⟩
    | load p => exact ⟨s, .refl, ⟨rfl, rfl⟩, nofun⟩
    | _ => exact ⟨s, .refl, rfl, fun _ => h⟩
  obtain ⟨hops, hsem⟩ := runs_run hstep hkeep (session qspiManufacturers [.initializeQspi] freshDriver)
    (s := start (fun _ => 0xFF) fun _ _ => 0) rfl
  obtain ⟨hread, -⟩ := runs_run hstep hkeep (Driver.read (afterOps timelyMove [.initializeQspi]).1 0 readBuff 4) hsem
  exact (events_matched qspiManufacturers).read ⟨rfl, rfl, rfl, rfl, rfl, rfl⟩ hops (hread.returns afterRead_timely)
end QspiFlash.Bus.Events
