/-
  QspiFlash.Block.Lifecycle — the driver over a chip's life, power cuts included.

  A chip keeps its flash while the power is off, and powers up awake in SPI mode; the
  processor's own reset leaves it as it is. Each comes with a new driver object. In between,
  the device is opened and closed and, while it is open, its data read, written and erased
  by any function, in any order, on the bus of `Bus.Device`: with `fails` a HAL call may fail,
  but then it does not reach the chip, and the wait for the bytes of a read may time out; a
  status poll and the waits of erases and programs end well, and no event is late. The power
  may go in the middle of any call (`Bus.PowerCut`).

  - `exec_keeps`: a call of the data path that was cut leaves what one that failed may leave.
  - `cut_erase`: and a running erase that was cut may leave anything in its unit.
  - `vopen_run`, `close_run`, `data_run`: what each call does, from a state of the invariant.
  - `history_inv`: over any history the flash is what the calls, cut ones among them, may have
    made of it, and an open device is in sync with its chip.
  - `lifecycle`: so the bytes known are there, and every call returns and does what it should.
-/

import QspiFlash.Bus.PowerCut
import QspiFlash.Driver.Within
import QspiFlash.Block.Contents

namespace QspiFlash.Block.Lifecycle

open Interact Driver Bus Bus.Device Bus.PowerCut
open Bus.Modes (Chip ChipSt InSync St jvChip jvStart)
open NorArray (Bytes Changes Leads)
open Contents (Carries Event InRange Post Returned changes knownAfter)

variable {x : Chip} {w : Nat} {fails : Bool}

/-! ## Calls that are cut -/

/-- The bytes a call may leave with any content when it is cut, on sectors of `Z` bytes. -/
def Lost (Z : Nat) : Op → Nat → Prop
  | .write a _ n, b => a / 256 ≤ b / 256 ∧ b / 256 ≤ (a + n - 1) / 256
  | .writeSector k _ n, b => k * Z / 256 ≤ b / 256 ∧ b / 256 ≤ (k * Z + n - 1) / 256
  | .eraseSector k, b => b / Z = k * Z / Z
  | .eraseBlock32K a, b => b / 0x8000 = a / 0x8000
  | .eraseBlock64K a, b => b / 0x10000 = a / 0x10000
  | .eraseChip, _ => True
  | .doWriteBlock _ k n, b => k * Z ≤ b ∧ b < (k + n) * Z
  | _, _ => False

/-- They are those a call that failed may leave so. -/
theorem failed_change {Z : Nat} {faults : Bool} {o : Op} {mem : Nat → UInt8} {a : Nat} :
    (Lost Z o a ∧ changes Z (fun _ => True) faults o mem (.result .error) a = .lose) ∨
      (¬ Lost Z o a ∧ changes Z (fun _ => True) faults o mem (.result .error) a = .keep) := by
  have hon : ∀ {T : Nat → Prop} [DecidablePred T] {c : Changes}, c a = .lose →
      (T a ∧ Changes.on T c a = .lose) ∨ (¬ T a ∧ Changes.on T c a = .keep) := by
    intro T _ c hc
    by_cases ha : T a
    · exact Or.inl ⟨ha, (if_pos ha).trans hc⟩
    · exact Or.inr ⟨ha, if_neg ha⟩
  cases o with
  | write b p n => exact hon (T := fun y => b / 256 ≤ y / 256 ∧ y / 256 ≤ (b + n - 1) / 256) (c := fun _ => .lose) rfl
  | writeSector k p n =>
    exact hon (T := fun y => k * Z / 256 ≤ y / 256 ∧ y / 256 ≤ (k * Z + n - 1) / 256) (c := fun _ => .lose) rfl
  | eraseSector k => exact hon (T := fun y => y / Z = k * Z / Z) (c := fun _ => .lose) rfl
  | eraseBlock32K b => exact hon (T := fun y => y / 0x8000 = b / 0x8000) (c := fun _ => .lose) rfl
  | eraseBlock64K b => exact hon (T := fun y => y / 0x10000 = b / 0x10000) (c := fun _ => .lose) rfl
  | eraseChip => exact Or.inl ⟨trivial, rfl⟩
  | doWriteBlock p k n => exact hon (T := fun y => k * Z ≤ y ∧ y < (k + n) * Z) (c := fun _ => .lose) rfl
  | _ => exact Or.inr ⟨id, rfl⟩

theorem failed_changes {Z : Nat} {faults : Bool} {o : Op} {mem : Nat → UInt8} {f g : Bytes}
    (h : ∀ a, ¬ Lost Z o a → g a = f a) : (changes Z (fun _ => True) faults o mem (.result .error)).Does f g := by
  intro a
  rcases failed_change (Z := Z) (o := o) (a := a) with ⟨-, hc⟩ | ⟨ha, hc⟩
  · rw [hc]
    trivial
  · rw [hc]
    exact h a ha

/-- The pages and the sectors of blocks lie in the blocks. -/
theorem page_inside {Z k n a b : Nat} (hZ : 256 ∣ Z) (hlo : k * Z ≤ a) (hhi : a < (k + n) * Z) (h : b / 256 = a / 256) :
    k * Z ≤ b ∧ b < (k + n) * Z := by
  obtain ⟨c, rfl⟩ := hZ
  rw [Nat.mul_left_comm] at hlo
  rw [Nat.mul_left_comm] at hhi
  rw [Nat.mul_left_comm, Nat.mul_left_comm (k + n)]
  omega

theorem sector_inside {Z j k n b : Nat} (hZ : 0 < Z) (h1 : k ≤ j) (h2 : j < k + n) (h : b / Z = j) :
    k * Z ≤ b ∧ b < (k + n) * Z :=
  ⟨(Nat.le_div_iff_mul_le hZ).mp (by omega), (Nat.div_lt_iff_lt_mul hZ).mp (by omega)⟩

theorem exec_keeps {q : Qspi} {f : Bytes} (ho : Opened q x.device) (hb : Carries (params x w fails) x.device)
    (tbl : List QspiManuf) {o : Op} (hin : InRange x.device o) :
    Keeps x w fails (Lost x.device.sectorSize.toNat o) f (exec tbl o q) := by
  have hq := ho.pdevice
  have hcap := capacity_le x.device
  have hreach : x.device.capacity ≤ 2 ^ w := hb.reach
  have hfits := hin.fits
  have hpos := hin.nonempty
  have hkeep : ∀ {T : Nat → Prop} {α : Type} (out : α → Out) {p : M α}, Keeps x w fails T f p →
      Keeps x w fails T f (keep q out p) := fun out p hp => composes_keeps.bind hp fun _ => composes_keeps.pure _
  -- an erase of the unit of an address the device has
  have herase : ∀ {T : Nat → Prop} {which : Instruction} {a U : Nat}, a < x.device.capacity →
      (∀ cmd : QspiCommand, cmd.instruction = which → Nor.eraseTarget (params x w fails) cmd =
        some (.unit U (Nor.decode (params x w fails) cmd.address))) → (∀ b, b / U = a / U → T b) →
      Keeps x w fails T f (erase q a which) := by
    intro T which a U ha hwhich hT
    apply erase_keeps
    intro cmd hi hcmd u hu b hin
    have hdecode : Nor.decode (params x w fails) a = a := Nat.mod_eq_of_lt (Nat.lt_of_lt_of_le ha hb.reach)
    rw [hwhich cmd hi, hcmd, hdecode] at hu
    obtain rfl := Option.some.inj hu
    exact hT b hin
  -- a write of `n` bytes at `a`
  have hwrite : ∀ {a n : Nat} (p : Ptr), 0 < n → a + n ≤ x.device.capacity →
      Keeps x w fails (fun b => a / 256 ≤ b / 256 ∧ b / 256 ≤ (a + n - 1) / 256) f (write q a p n) := by
    intro a n p hn hfits
    have hhi : a + n ≤ 2 ^ 32 := by omega
    refine composes_keeps.write_within (fun a' p m (hlo : a ≤ a') hhi hm _ => ?_) hhi hn (Nat.le_refl _) (Nat.le_refl _)
    refine pageWrite_keeps fun b hb => ?_
    rw [Nat.mod_eq_of_lt (show a' < 2 ^ w by omega)] at hb
    omega
  have hsector : ∀ {T : Nat → Prop} {α : Type} {k : Nat} {g : Nat → M α},
      k * x.device.sectorSize.toNat ≤ x.device.capacity →
      Keeps x w fails T f (g (k * x.device.sectorSize.toNat)) →
      Keeps x w fails T f (do let a ← u32 (k * (← sectorSizeOf q)); g a) := fun hk hg =>
    composes_keeps.sector_within hq (by omega) hg
  cases o with
  | read a p n => exact hkeep _ (calm_keeps (read_calm q a p n))
  | readSector k p n =>
    exact hkeep _ (hsector (Nat.le_trans (Nat.le_add_right ..) hfits) (calm_keeps (read_calm q _ p n)))
  | doReadBlock p k n => exact hkeep _ (composes_keeps.doReadBlock p k n fun a => calm_keeps (read_calm q a p _))
  | write a p n => exact hkeep _ (hwrite p hpos hfits)
  | writeSector k p n => exact hkeep _ (hsector (Nat.le_trans (Nat.le_add_right ..) hfits) (hwrite p hpos hfits))
  | eraseSector k =>
    refine hkeep _ (hsector (Nat.le_trans (Nat.le_add_right ..) hfits) (herase hfits (fun cmd hi => ?_) fun _ h => h))
    rw [Nor.eraseTarget, hi]
    rfl
  | eraseBlock32K a =>
    refine hkeep _ (herase hfits (fun cmd hi => ?_) fun _ h => h)
    rw [Nor.eraseTarget, hi]
  | eraseBlock64K a =>
    refine hkeep _ (herase hfits (fun cmd hi => ?_) fun _ h => h)
    rw [Nor.eraseTarget, hi]
  | eraseChip => exact hkeep _ (erase_keeps fun _ _ _ _ _ _ _ => trivial)
  | doWriteBlock p k n =>
    have hn : 0 < n := Nat.pos_of_mul_pos_right hpos
    have hsum : (k + n) * x.device.sectorSize.toNat = k * x.device.sectorSize.toNat + n * x.device.sectorSize.toNat :=
      Nat.add_mul ..
    have hfits : (k + n) * x.device.sectorSize.toNat ≤ x.device.capacity := by
      rw [hsum]
      exact hfits
    refine hkeep _ (composes_keeps.doWriteBlock_within hq ho.logicalSize hb.pages hb.pos hn (by omega)
      (fun a => calm_keeps (read_calm q a _ _)) (fun a' p m hlo hhi hm _ => ?_) (fun j h1 h2 => ?_)
      fun j r => calm_keeps (p := ask (.dropped j r)) ⟨trivial, fun _ => trivial⟩)
    · refine pageWrite_keeps fun b hpage => page_inside hb.pages hlo (show a' < _ by omega) ?_
      rw [hpage, Nat.mod_eq_of_lt (show a' < 2 ^ w by omega)]
    · have hj : (j + 1) * x.device.sectorSize.toNat ≤ (k + n) * x.device.sectorSize.toNat := Nat.mul_le_mul_right _ h2
      have hZ : 0 < x.device.sectorSize.toNat := hb.pos
      rw [Nat.succ_mul] at hj
      refine herase (by omega) (fun cmd hi => by rw [Nor.eraseTarget, hi]) fun b hunit => sector_inside hZ h1 h2 ?_
      exact hunit.trans (Nat.mul_div_cancel _ hZ)
  | _ => exact absurd hin.data id

/-- A 32K erase may be cut once the chip has it, with any content left in its unit. -/
theorem cut_erase {q : Qspi} {d : QspiDevice} (hq : q.pdevice = some d) (tbl : List QspiManuf) {a : Nat}
    (ha : a < 2 ^ w) {s : St} {g : Bytes} (hg : ∀ b, b / 0x8000 ≠ a / 0x8000 → g b = s.flash b) :
    Cut x w fails (exec tbl (.eraseBlock32K a) q) s g := by
  have hunit : ∀ cmd : QspiCommand, cmd.instruction = .BLOCK_32K_ERASE → cmd.address = a →
      Nor.eraseTarget (params x w fails) cmd = some (.unit 0x8000 a) := by
    intro cmd hi hcmd
    rw [Nor.eraseTarget, hi, hcmd]
    exact congrArg (fun b => some (Nor.Target.unit 0x8000 b)) (Nat.mod_eq_of_lt ha)
  have hkeeps : Keeps x w fails (fun b => b / 0x8000 = a / 0x8000) s.flash (exec tbl (.eraseBlock32K a) q) := by
    refine composes_keeps.bind (erase_keeps fun cmd hi hcmd u hu b hin => ?_) fun _ => composes_keeps.pure _
    rw [hunit cmd hi hcmd] at hu
    obtain rfl := Option.some.inj hu
    exact hin
  -- both commands go well, and the poll is what the driver asks next
  have hsent : ∀ (y : St × Option Nor.Target) (cmd : QspiCommand), ∃ s', (cutting x w fails).step y
      (.halCommand cmd .TIMEOUT) .ok (s', (Nor.eraseTarget (params x w fails) cmd).or y.2) :=
    fun y cmd => ⟨_, Or.inl ⟨rfl, rfl⟩, rfl⟩
  obtain ⟨c, y, hasks, hgiven⟩ : ∃ c y, Asks (cutting x w fails) (exec tbl (.eraseBlock32K a) q) (s, none) c y ∧
      y.2 = some (.unit 0x8000 a) := by
    show ∃ c y, Asks _ (keep q .result (erase q a .BLOCK_32K_ERASE)) _ c y ∧ _
    unfold erase
    rw [hq]
    obtain ⟨s₁, henabled⟩ := hsent (s, none) { instruction := .WRITE_ENABLE, instructionMode := .four }
    obtain ⟨s₂, herased⟩ := hsent (s₁, none) { instruction := .BLOCK_32K_ERASE, instructionMode := .four, address := a,
                                               addressMode := .four }
    exact ⟨_, _, .later henabled (.later herased .here), by rw [hunit _ rfl rfl, Option.some_or]⟩
  have hinside := wp_asks (hkeeps (s, none) ⟨fun _ _ => rfl, fun u hu => by cases hu⟩) (asks_guarded hasks)
  refine ⟨c, y, hasks, fun b hb => ?_⟩
  have hout : b / 0x8000 ≠ a / 0x8000 := hb _ hgiven
  exact (hg b hout).trans (hinside.flash b hout).symm

/-! ## Opening and closing leave the bus idle -/

/-- Questions that neither start nor end a transfer. -/
theorem switches_idle {s : St} (s₁ : St) (c : Call) (r : c.Resp) (s₂ : St) (hc : Switches c)
    (h : s₁.transfer = s.transfer) (hs : (Device.bus x w fails).step s₁ c r s₂) : s₂.transfer = s.transfer := by
  cases c with
  | halCommand cmd t =>
    refine attempt_keeps (P := fun s' => s'.transfer = s.transfer) hs h ?_
    show (Modes.send x s₁ cmd).transfer = _
    unfold Modes.send
    split <;> exact h
  | halTransmit b t =>
    refine attempt_keeps (P := fun s' => s'.transfer = s.transfer) hs h ?_
    unfold Modes.sendByte
    split <;> exact h
  | crAbort | nullDeref => rw [show s₂ = s₁ from hs]; exact h
  | _ => exact absurd hc id

/-- No transfer is under way, and the object has the controller it had. -/
def Settled (q : Qspi) (y : QspiResult × Qspi) (s' : St) : Prop :=
  s'.transfer = none ∧ y.2.instanceNull = q.instanceNull

theorem switches_settled {α : Type} {p : M α} (hp : p.All Switches) {s : St} (h : s.transfer = none) :
    wp (Device.bus x w fails) p (fun _ s' => s'.transfer = none) s :=
  wp_mono (wp_inv (fun _ _ _ _ => trivial) switches_idle hp (s := s) rfl) fun _ _ h' => h'.trans h

theorem quiet_looks : ∀ c, Looks c → Quiet (Device.bus x w fails) c := by
  intro c hc s
  cases c <;> first | exact absurd hc id | exact ⟨trivial, fun _ _ h => h⟩

theorem wait_settled (s : St) (lim : Timeout) :
    wp (Device.bus x w fails) (timedWait lim) (fun _ s' => s'.transfer = none) s := by
  refine wp_timedWait.mpr ⟨trivial, ?_⟩
  intro r s' hs
  rcases hs with ⟨-, u, -, hland, -⟩ | ⟨-, -, rfl⟩
  · show (unroll w s').transfer = none
    generalize unroll w s' = m at hland
    cases hland <;> rfl
  · rfl

theorem readJedecId_settled {s : St} (h : s.transfer = none) (tbl : List QspiManuf) (q : Qspi) :
    wp (Device.bus x w fails) (readJedecId tbl q) (Settled q) s := by
  refine wp_seq (P := fun _ s' => s'.transfer = none) ?_ ?_
  · have hsent : (qspiCommand Modes.jedecId .TIMEOUT).All Switches := command_switches nofun
    refine wp_onOk (wp_mono (switches_settled hsent h) ?_)
    intro r s₁ h₁
    refine ⟨fun _ => wp_onOk (wp_halReceiveIT.mpr ⟨trivial, ?_⟩), fun _ => h₁⟩
    intro r s₂ hs
    refine ⟨fun _ => wait_settled s₂ .TIMEOUT, fun hr => ?_⟩
    rcases hs with ⟨rfl, -⟩ | ⟨-, -, rfl⟩
    · exact absurd rfl hr
    · exact h₁
  · intro r s₁ h₁
    refine wp_ite (fun _ => ?_) fun _ => ⟨h₁, rfl⟩
    refine wp_mono (identify_spec quiet_looks tbl q (P := fun _ s' => s'.transfer = none) trivial ?_) ?_
    · intro b s' hs
      rw [hs.2]
      exact h₁
    · intro y s₂ hpost
      obtain ⟨b, h₂, rfl⟩ := hpost
      refine ⟨h₂, ?_⟩
      cases named tbl b <;> rfl

theorem initialize_settled {s : St} (h : s.transfer = none) (tbl : List QspiManuf) (q : Qspi) :
    wp (Device.bus x w fails) (initializeQspi tbl q) (Settled q) s := by
  have hstart : s.transfer = none ∧ q.instanceNull = q.instanceNull := ⟨h, rfl⟩
  refine wp_initializeQspi (I := fun q' (s' : St) => s'.transfer = none ∧ q'.instanceNull = q.instanceNull)
    (fun hi => ?_) (fun hi => ?_) (fun hi => ?_) (fun hi => ?_) hstart
  · exact wp_mono (readJedecId_settled hi.1 tbl _) fun _ _ h' => ⟨h'.1, h'.2.trans hi.2⟩
  · exact wp_mono (switches_settled (sleep_switches false) hi.1) fun _ _ h' => ⟨h', hi.2⟩
  · exact wp_mono (switches_settled resetChip_switches hi.1) fun _ _ h' => ⟨h', hi.2⟩
  · exact wp_mono (switches_settled (enterQuadMode_switches _) hi.1) fun _ _ h' => ⟨h', hi.2⟩

/-! ## A chip's life -/

/-- The bus, with `m` in its caller's memory. -/
def callerMem (s : St) (m : Nat → UInt8) : St :=
  { s with mem := fun r => match r with | .caller => m | .lbuff => s.mem .lbuff }

/-- Opening and closing at any time; while the device is open, the data path for bytes it has. -/
def Allowed (x : Chip) (q : Qspi) : Op → Prop
  | .doVopen | .doClose => True
  | o => q.isOpened = true ∧ InRange x.device o

/-- A new driver object and a bus at rest, with the chip in the state `c`. -/
structure Boot (c : ChipSt) (f : Bytes) (q : Qspi) (s : St) : Prop where
  fresh : Fresh q
  controller : q.instanceNull = false
  chip : s.chip = c
  flash : s.flash = f
  token : s.token = false
  transfer : s.transfer = none

variable (x w fails) in
/-- Calls and restarts in any order, from a chip that powers up with the flash `f`; the calls
    newest first, one that was cut with the result of a failed one. -/
inductive History (f : Bytes) : List Event → Qspi → St → Prop
  | start {q : Qspi} {s : St} : Boot x.powerUp f q s → History f [] q s
  | call {es : List Event} {q q' : Qspi} {s s' : St} {o : Op} {m : Nat → UInt8} {out : Out} : History f es q s →
      Allowed x q o → Runs (Device.bus x w fails) (exec qspiManufacturers o q) (callerMem s m) (out, q') s' →
      History f (⟨o, fails, m, out, s'.mem .caller⟩ :: es) q' s'
  | cut {es : List Event} {q q' : Qspi} {s s' : St} {o : Op} {m : Nat → UInt8} {g : Bytes} : History f es q s →
      Allowed x q o → Cut x w fails (exec qspiManufacturers o q) (callerMem s m) g → Boot x.powerUp g q' s' →
      History f (⟨o, fails, m, .result .error, m⟩ :: es) q' s'
  | powerCycle {es : List Event} {q q' : Qspi} {s s' : St} : History f es q s → Boot x.powerUp s.flash q' s' →
      History f es q' s'
  | reset {es : List Event} {q q' : Qspi} {s s' : St} :
      History f es q s → Boot s.chip s.flash q' s' → History f es q' s'

/-- What a call made after the calls `es` returns and leaves. -/
def Returns (x : Chip) (fails : Bool) (f : Bytes) (es : List Event) (q : Qspi) (o : Op) (m : Nat → UInt8)
    (y : Out × Qspi) (s' : St) : Prop :=
  match o with
  | .doVopen => (y.1 = .value 0 ∧ y.2.isOpened = true) ∨
      (y.1 = .value (-1) ∧ y.2.isOpened = q.isOpened ∧ (q.isOpened = true ∨ fails = true))
  | .doClose => (y.1 = .value 0 ∧ y.2.isOpened = false ∧ (q.isOpened = true → s'.chip.Spi)) ∨
      (y.1 = .value (-1) ∧ y.2.isOpened = q.isOpened ∧ fails = true)
  | o => y.2 = q ∧ Returned x.device.sectorSize.toNat (fun _ => True) f ⟨o, fails, m, y.1, s'.mem .caller⟩ es

/-! ## The invariant -/

/-- What the call `e` did to the flash. -/
abbrev effect (x : Chip) (e : Event) : Changes := e.changes x.device.sectorSize.toNat fun _ => True

/-- What every call keeps of the driver and the bus. -/
structure Live (x : Chip) (q : Qspi) (s : St) : Prop where
  controller : q.instanceNull = false
  token : s.token = false
  idle : s.transfer = none
  awake : s.chip.powerDown = false
  opened : q.isOpened = true → InSync x q s ∧ Opened q x.device

structure Inv (x : Chip) (fails : Bool) (f : Bytes) (es : List Event) (q : Qspi) (s : St) : Prop extends
    Live x q s where
  leads : Leads f (es.map (effect x)) s.flash
  /-- Without failures, only a call that was cut loses anything. -/
  sound : fails = false → ∀ e ∈ es, e.out = .result .error ∨ ∀ a, effect x e a ≠ .lose

theorem table_device (x : Chip) : 0 < x.device.sectorSize.toNat ∧ 256 ∣ x.device.sectorSize.toNat ∧
    0 < x.device.capacity / x.device.sectorSize.toNat := by
  have hall : ∀ m ∈ qspiManufacturers, ∀ d ∈ m.known,
      0 < d.sectorSize.toNat ∧ 256 ∣ d.sectorSize.toNat ∧ 0 < d.capacity / d.sectorSize.toNat := by decide
  exact hall _ x.listed _ x.known

theorem carries (hw : x.device.capacity ≤ 2 ^ w) : Carries (params x w fails) x.device :=
  ⟨rfl, (table_device x).1, (table_device x).2.1, hw⟩

theorem Inv.boot {f g : Bytes} {es : List Event} {c : ChipSt} {q : Qspi} {s : St} (h : Boot c g q s)
    (hc : c.powerDown = false) (hg : Leads f (es.map (effect x)) g)
    (hs : fails = false → ∀ e ∈ es, e.out = .result .error ∨ ∀ a, effect x e a ≠ .lose) : Inv x fails f es q s := by
  refine ⟨⟨h.controller, h.token, h.transfer, by rw [h.chip]; exact hc, fun ho => ?_⟩, by rw [h.flash]; exact hg, hs⟩
  rw [h.fresh.isOpened] at ho
  cases ho

/-! ## Each call -/

variable {f : Bytes} {es : List Event} {q : Qspi} {s : St}

theorem vopen_run (h : Live x q s) (m : Nat → UInt8) : wp (Device.bus x w fails) (exec qspiManufacturers .doVopen q)
    (fun y s' => Returns x fails f es q .doVopen m y s' ∧ Live x y.2 s') s := by
  refine wp_seq (P := fun (y : Int × Qspi) s' =>
    Returns x fails f es q .doVopen m (.value y.1, y.2) s' ∧ Live x y.2 s') ?_ fun _ _ hy => hy
  have herrno : ∀ {e : Errno} {q' : Qspi} {s' : St},
      Returns x fails f es q .doVopen m (.value (-1), q') s' ∧ Live x q' s' →
      wp (Device.bus x w fails) (do ask (.setErrno e); pure (-1, q') : M (Int × Qspi))
        (fun y s' => Returns x fails f es q .doVopen m (.value y.1, y.2) s' ∧ Live x y.2 s') s' := by
    intro e q' s' hpost
    refine ⟨trivial, fun _ s₁ hs => ?_⟩
    rw [show s₁ = s' from hs]
    exact hpost
  unfold doVopen
  by_cases ho : q.isOpened = true
  · rw [if_pos ho]
    exact herrno ⟨Or.inr ⟨rfl, rfl, Or.inl ho⟩, h⟩
  rw [if_neg ho, if_neg (by rw [h.controller]; exact Bool.false_ne_true)]
  have hclosed : q.isOpened = false := by simpa using ho
  have hwake : (unroll w s).chip.Wakeable := by
    intro hp
    rw [show (unroll w s).chip.powerDown = false from h.awake] at hp
    cases hp
  have htok : (unroll w s).token = false := h.token
  refine wp_seq (wp_and (wp_of_modes h.token (Modes.initialize_spec htok hwake q))
    (initialize_settled h.idle qspiManufacturers q)) ?_
  intro y s' hy
  obtain ⟨⟨htok, hpost⟩, hidle, hinst⟩ := hy
  have hstill : y.2.isOpened = false := hpost.isOpened.trans hclosed
  -- an object that is not open has nothing to be in sync for
  have hlive : ∀ q' : Qspi, q'.instanceNull = false → q'.isOpened = false → Live x q' s' := fun q' hinst hopen =>
    ⟨hinst, htok, hidle, hpost.awake h.awake, fun ho' => by rw [hopen] at ho'; cases ho'⟩
  unfold vopenFinish
  refine wp_ite (fun hr => herrno ⟨Or.inr ⟨rfl, hpost.isOpened, Or.inr (hpost.failed hr)⟩, ?_⟩) fun hr => ?_
  · exact hlive y.2 (hinst.trans h.controller) hstill
  have hsync := hpost.inSync (not_not.mp hr)
  obtain ⟨hpos, -, hsectors⟩ := table_device x
  have hsector : getSectorSize y.2 = x.device.sectorSize.toNat := by rw [getSectorSize, hsync.pdevice]
  have hcount : getSectorCount y.2 = x.device.capacity / x.device.sectorSize.toNat := by
    rw [getSectorCount, hsync.pdevice]
  refine wp_ite (fun hzero => ?_) fun _ => wp_pure.mpr ⟨Or.inl ⟨rfl, rfl⟩, ?_⟩
  · have hzero : getSectorCount y.2 = 0 ∨ getSectorSize y.2 = 0 := hzero
    omega
  · exact ⟨hinst.trans h.controller, htok, hidle, hpost.awake h.awake, fun _ =>
      ⟨⟨hsync.pdevice, hsync.quad, hsync.latency⟩, hsync.pdevice, rfl, rfl, hsector, hsector⟩⟩

/-- What `uninitialize` does to the modes. -/
theorem uninitialize_modes (hawake : s.chip.powerDown = false) :
    wp (Modes.bus x (fails = true)) (uninitializeQspi q) (fun y s' => y.2 = { q with pimpl := none } ∧
      s'.chip.powerDown = false ∧ (y.1 = .ok → s.chip.quad = true → s'.chip.Spi) ∧
      (y.1 ≠ .ok → fails = true ∧ s'.chip.quad = s.chip.quad ∧ s'.chip.dummyCycles = s.chip.dummyCycles)) s := by
  refine wp_seq (Modes.wake_spec s) ?_
  intro _ s₁ h₁
  obtain ⟨hsteady, -⟩ := h₁
  have hawake₁ := hsteady.awake hawake
  refine wp_seq (Modes.resetChip_spec s₁) ?_
  intro r s₂ h₂
  refine wp_pure.mpr ⟨rfl, ?_⟩
  by_cases hr : r = .ok
  · obtain ⟨hkept, hawake₂, hup⟩ := h₂.1 hr
    refine ⟨hawake₂ hawake₁, fun _ hq => ?_, fun hne => absurd hr hne⟩
    rw [hup ⟨hsteady.quad.trans hq, hawake₁⟩]
    exact ⟨rfl, rfl⟩
  · obtain ⟨hf, hsteady₂⟩ := h₂.2 hr
    have hboth := hsteady.trans hsteady₂
    exact ⟨hboth.awake hawake, fun h => absurd h hr, fun _ => ⟨hf, hboth.quad, hboth.dummyCycles⟩⟩

theorem close_run (h : Live x q s) (m : Nat → UInt8) : wp (Device.bus x w fails) (exec qspiManufacturers .doClose q)
    (fun y s' => Returns x fails f es q .doClose m y s' ∧ Live x y.2 s') s := by
  refine wp_seq (P := fun (y : Int × Qspi) s' =>
    Returns x fails f es q .doClose m (.value y.1, y.2) s' ∧ Live x y.2 s') ?_ fun _ _ hy => hy
  have hawake : (unroll w s).chip.powerDown = false := h.awake
  refine wp_seq (wp_and (wp_of_modes h.token (uninitialize_modes hawake))
    (switches_settled (uninitializeQspi_switches q) h.idle)) ?_
  intro y s' hy
  obtain ⟨⟨htok, hobj, hawake, hspi, hsame⟩, hidle⟩ := hy
  have hinst : y.2.instanceNull = false := by rw [hobj]; exact h.controller
  refine wp_ite (fun hr => ⟨trivial, fun _ s₁ hs => ?_⟩) fun hr => wp_pure.mpr ?_
  · rw [show s₁ = s' from hs]
    obtain ⟨hf, hquad, hdummy⟩ := hsame hr
    refine ⟨Or.inr ⟨rfl, by rw [hobj], hf⟩, hinst, htok, hidle, hawake, fun ho => ?_⟩
    rw [hobj] at ho
    obtain ⟨hsync, hopened⟩ := h.opened ho
    rw [hobj]
    exact ⟨⟨hsync.pdevice, ⟨hquad.trans hsync.quad.1, hawake⟩, hdummy.trans hsync.latency⟩,
      hopened.pdevice, hopened.isOpened, hopened.numBlocks, hopened.logicalSize, hopened.physicalSize⟩
  · refine ⟨Or.inl ⟨rfl, rfl, fun ho => hspi (not_not.mp hr) (h.opened ho).1.quad.1⟩, hinst, htok, hidle, hawake, ?_⟩
    exact fun ho => absurd ho Bool.false_ne_true

/-- A call of the data path, through the bus of `Bus.Nor`. -/
theorem data_moves (hw : x.device.capacity ≤ 2 ^ w) (h : Live x q s) (ho : q.isOpened = true) {o : Op}
    (hin : InRange x.device o) (m : Nat → UInt8) : wp (Device.bus x w fails) (exec qspiManufacturers o q) (fun y s' =>
      y.2 = q ∧ Live x q s' ∧
      Post (params x w fails) x.device (fun _ => True) o (norSide (callerMem s m)) y.1 (norSide s'))
    (callerMem s m) := by
  obtain ⟨hsync, hopened⟩ := h.opened ho
  have hready : Ready x q (callerMem s m) := ⟨inSync_of_chip hsync rfl rfl rfl, h.idle⟩
  have hpath : wp (kept x w fails) (exec qspiManufacturers o q) (fun y s' => y.2 = q ∧ Ready x q s') (callerMem s m) :=
    dataOp_ready qspiManufacturers hin.data hready
  refine wp_of_runs (wp_allowed (Prog.all_of_forall (fun _ _ => trivial) _) _) fun y s' hrun => ?_
  obtain ⟨hq, hready'⟩ := wp_runs hpath (runs_guarded hrun)
  obtain ⟨t, hnor, hend⟩ := (runs_guarded hrun).simulated nor_simulates hpath (norSide_follows hready.idle)
  obtain ⟨-, -, htok, -⟩ := hrun.simulated_of_free modes_simulates (fun _ _ => trivial) ⟨h.token, rfl⟩
  have hmem : t.mem = s'.mem := hend.idle hready'.idle
  have hmoves := Contents.exec_moves (b := params x w fails) hopened (carries hw) (F := fun _ => True)
    (fun _ _ => trivial) qspiManufacturers hin (s := norSide (callerMem s m)) rfl
  have hpost := (wp_runs hmoves hnor).2
  refine ⟨hq, ⟨h.controller, htok, hready'.idle, hready'.sync.quad.2, fun _ => ⟨hready'.sync, hopened⟩⟩, ?_, rfl, ?_, ?_,
    hpost.failed⟩
  · rw [show (norSide s').flash = t.flash from hend.flash.symm]
    exact hpost.flash
  · rw [show (norSide s').mem = t.mem from hmem.symm]
    exact hpost.frame
  · rw [show (norSide s').mem = t.mem from hmem.symm]
    exact hpost.read

/-- What it does for its caller, and to what is known of the flash. -/
theorem data_run (hw : x.device.capacity ≤ 2 ^ w) (h : Inv x fails f es q s) (ho : q.isOpened = true) {o : Op}
    (hin : InRange x.device o) (m : Nat → UInt8) : wp (Device.bus x w fails) (exec qspiManufacturers o q) (fun y s' =>
      (y.2 = q ∧ Returned x.device.sectorSize.toNat (fun _ => True) f ⟨o, fails, m, y.1, s'.mem .caller⟩ es) ∧
      Live x y.2 s' ∧ (effect x ⟨o, fails, m, y.1, s'.mem .caller⟩).Does s.flash s'.flash) (callerMem s m) := by
  refine wp_mono (data_moves hw h.toLive ho hin m) ?_
  intro y s' hy
  obtain ⟨hq, hlive, hpost⟩ := hy
  refine ⟨⟨hq, fun hok p hp i hi v hv => ?_, hpost.frame, fun hf => ?_⟩, by rw [hq]; exact hlive, hpost.flash⟩
  · exact (hpost.read hok p hp i hi).trans (NorArray.known_sound (fun _ _ hv => Option.some.inj hv) h.leads _ v hv)
  · by_contra hne
    have hfaults : fails = true := hpost.failed (Bool.eq_false_iff.mpr hne)
    rw [show fails = false from hf] at hfaults
    cases hfaults

/-! ## The whole life -/

theorem Live.withMem (h : Live x q s) (m : Nat → UInt8) : Live x q (callerMem s m) :=
  ⟨h.controller, h.token, h.idle, h.awake, fun ho => ⟨inSync_of_chip (h.opened ho).1 rfl rfl rfl, (h.opened ho).2⟩⟩

theorem vopen_calm (q : Qspi) : (exec qspiManufacturers .doVopen q).All Calm :=
  Prog.all_bind (doVopen_calm _ q) fun _ => trivial

theorem close_calm (q : Qspi) : (exec qspiManufacturers .doClose q).All Calm :=
  Prog.all_bind (doClose_calm q) fun _ => trivial

/-- A call does what it should, and leaves the flash as its event says. -/
theorem exec_run (hw : x.device.capacity ≤ 2 ^ w) (h : Inv x fails f es q s) {o : Op} (ha : Allowed x q o)
    (m : Nat → UInt8) : wp (Device.bus x w fails) (exec qspiManufacturers o q) (fun y s' =>
      Returns x fails f es q o m y s' ∧ Inv x fails f (⟨o, fails, m, y.1, s'.mem .caller⟩ :: es) y.2 s')
    (callerMem s m) := by
  have hnext : ∀ {y : Out × Qspi} {s' : St}, Live x y.2 s' →
      (effect x ⟨o, fails, m, y.1, s'.mem .caller⟩).Does s.flash s'.flash →
      (fails = false → ∀ a, effect x ⟨o, fails, m, y.1, s'.mem .caller⟩ a ≠ .lose) →
      Inv x fails f (⟨o, fails, m, y.1, s'.mem .caller⟩ :: es) y.2 s' := by
    intro y s' hlive hdoes hsound
    refine ⟨hlive, .cons h.leads hdoes, fun hf => List.forall_mem_cons.mpr ⟨Or.inr (hsound hf), h.sound hf⟩⟩
  by_cases hdata : DataOp o
  · have hin : q.isOpened = true ∧ InRange x.device o := by
      cases o <;> first | exact ha | exact absurd hdata id
    refine wp_mono (data_run hw h hin.1 hin.2 m) ?_
    intro y s' hy
    obtain ⟨hret, hlive, hdoes⟩ := hy
    refine ⟨?_, hnext hlive hdoes fun hf => ?_⟩
    · cases o <;> first | exact hret | exact absurd hdata id
    · have hok : Contents.succeeded o y.1 = true := hret.2.faultless hf
      intro a
      show changes _ _ fails o m y.1 a ≠ .lose
      rw [hf]
      exact Contents.changes_ne_lose _ hok a
  cases o with
  | doVopen =>
    have hrun : wp (Device.bus x w fails) (exec qspiManufacturers .doVopen q)
        (fun y s' => Returns x fails f es q .doVopen m y s' ∧ Live x y.2 s') (callerMem s m) :=
      vopen_run (h.toLive.withMem m) m
    refine wp_mono (wp_and hrun (calm_flash (vopen_calm q) _)) ?_
    exact fun y s' hy => ⟨hy.1.1, hnext hy.1.2 (fun a => congrFun hy.2 a) fun _ _ => nofun⟩
  | doClose =>
    have hrun : wp (Device.bus x w fails) (exec qspiManufacturers .doClose q)
        (fun y s' => Returns x fails f es q .doClose m y s' ∧ Live x y.2 s') (callerMem s m) :=
      close_run (h.toLive.withMem m) m
    refine wp_mono (wp_and hrun (calm_flash (close_calm q) _)) ?_
    exact fun y s' hy => ⟨hy.1.1, hnext hy.1.2 (fun a => congrFun hy.2 a) fun _ _ => nofun⟩
  | _ => first | exact absurd trivial hdata | exact absurd ha.2.data id

/-- A call that was cut leaves what one that failed may leave. -/
theorem cut_run (hw : x.device.capacity ≤ 2 ^ w) (h : Inv x fails f es q s) {o : Op} (ha : Allowed x q o)
    {m : Nat → UInt8} {g : Bytes} (hcut : Cut x w fails (exec qspiManufacturers o q) (callerMem s m) g) :
    (effect x ⟨o, fails, m, .result .error, m⟩).Does s.flash g := by
  have hkeeps : ∀ f, Keeps x w fails (Lost x.device.sectorSize.toNat o) f (exec qspiManufacturers o q) := by
    intro f
    cases o with
    | doVopen => exact calm_keeps (vopen_calm q)
    | doClose => exact calm_keeps (close_calm q)
    | _ => exact exec_keeps (h.opened ha.1).2 (carries hw) qspiManufacturers ha.2
  have hkept := cut_keeps hkeeps hcut
  exact failed_changes hkept

theorem history_inv (hw : x.device.capacity ≤ 2 ^ w) (h : History x w fails f es q s) : Inv x fails f es q s := by
  induction h with
  | start hb => exact .boot hb rfl .nil fun _ _ he => (by cases he)
  | call _ ha hrun ih => exact (wp_runs (exec_run hw ih ha _) hrun).2
  | cut _ ha hcut hb ih =>
    exact .boot hb rfl (.cons ih.leads (cut_run hw ih ha hcut)) fun hf =>
      List.forall_mem_cons.mpr ⟨Or.inl rfl, ih.sound hf⟩
  | powerCycle _ hb ih => exact .boot hb rfl ih.leads ih.sound
  | reset _ hb ih => exact .boot hb ih.awake ih.leads ih.sound

/-- Without failures a closed device opens, and its flash is as it was. -/
theorem opens (hw : x.device.capacity ≤ 2 ^ w) (h : History x w false f es q s) (hclosed : q.isOpened = false)
    (m : Nat → UInt8) : ∃ out q' s', Runs (Device.bus x w false) (exec qspiManufacturers .doVopen q) (callerMem s m)
      (out, q') s' ∧ q'.isOpened = true ∧ s'.flash = s.flash := by
  obtain ⟨⟨out, q'⟩, s', hrun⟩ := run_total (E := Device.bus x w false) bus_total (exec qspiManufacturers .doVopen q)
    (callerMem s m)
  have hret := (wp_runs (exec_run hw (history_inv hw h) (o := .doVopen) trivial m) hrun).1
  have hflash := wp_runs (calm_flash (vopen_calm q) _) hrun
  refine ⟨out, q', s', hrun, ?_, hflash⟩
  rcases hret with ⟨-, ho⟩ | ⟨-, -, ho | hf⟩
  · exact ho
  · exact absurd (hclosed.symm.trans ho) Bool.false_ne_true
  · cases hf

/-- Over any life of a chip, power cuts and what may fail on the bus included: the bytes known are in
    the flash, and without failures all are known but those a cut call lost; an open device is in sync
    with its chip and has its geometry; and every call returns, and does what it should. -/
theorem lifecycle (hw : x.device.capacity ≤ 2 ^ w) (h : History x w fails f es q s) :
    (∀ a v, knownAfter x.device.sectorSize.toNat (fun _ => True) f es a = some v → s.flash a = v) ∧
    (fails = false → ∀ a, (∀ e ∈ es, e.out = .result .error → ¬ Lost x.device.sectorSize.toNat e.op a) →
      knownAfter x.device.sectorSize.toNat (fun _ => True) f es a = some (s.flash a)) ∧
    (q.isOpened = true → InSync x q s ∧ Opened q x.device) ∧
    ∀ o m, Allowed x q o →
      (∃ y s', Runs (Device.bus x w fails) (exec qspiManufacturers o q) (callerMem s m) y s') ∧
      ∀ y s', Runs (Device.bus x w fails) (exec qspiManufacturers o q) (callerMem s m) y s' →
        Returns x fails f es q o m y s' := by
  have hinv := history_inv hw h
  refine ⟨NorArray.known_sound (fun _ _ hv => Option.some.inj hv) hinv.leads, fun hf a ha => ?_, hinv.opened,
    fun o m ho => ?_⟩
  · refine NorArray.known_exact hinv.leads fun c hc => ?_
    obtain ⟨e, he, rfl⟩ := List.mem_map.mp hc
    rcases hinv.sound hf e he with hcut | hsound
    · rcases failed_change (Z := x.device.sectorSize.toNat) (o := e.op) (a := a) with ⟨hlost, -⟩ | ⟨-, hkeep⟩
      · exact absurd hlost (ha e he hcut)
      · show changes _ _ e.faults e.op e.mem e.out a ≠ .lose
        rw [hcut, hkeep]
        exact nofun
    · exact hsound a
  · exact ⟨run_total bus_total _ _, fun y s' hrun => (wp_runs (exec_run hw hinv ho m) hrun).1⟩

/-- A W25Q128JV on which the power went in a running erase of its first 32 KiB, and left 0x77 there,
    opened again: what lies behind them is read back. -/
theorem lifecycle_jv : ∃ es q s, History jvChip 24 false (fun _ => 0x5A) es q s ∧
    (∃ e ∈ es, e.op = .eraseBlock32K 0 ∧ e.out = .result .error) ∧ q.isOpened = true ∧
    (∀ a, a < 0x8000 → s.flash a = 0x77) ∧
    ∃ y s', Runs (Device.bus jvChip 24 false) (exec qspiManufacturers (.readSector 8 ⟨.caller, 0x20020000, 0⟩ 16) q)
      (callerMem s fun _ => 0) y s' ∧ y.1 = .result .ok ∧ ∀ i, i < 16 → s'.mem .caller i = 0x5A := by
  have hw : jvChip.device.capacity ≤ 2 ^ 24 := by decide
  have hstart : History jvChip 24 false (fun _ => 0x5A) [] freshDriver { jvStart with flash := fun _ => 0x5A } :=
    .start ⟨fresh_driver, rfl, rfl, rfl, rfl, rfl⟩
  obtain ⟨out₁, q₁, s₁, hrun₁, hopen₁, hflash₁⟩ := opens hw hstart rfl fun _ => 0
  have hist₁ := History.call (o := .doVopen) hstart trivial hrun₁
  have herase : InRange jvChip.device (.eraseBlock32K 0) :=
    ⟨trivial, by decide, by decide, fun _ h => (by cases h), fun _ h => (by cases h)⟩
  have hcut : Cut jvChip 24 false (exec qspiManufacturers (.eraseBlock32K 0) q₁) (callerMem s₁ fun _ => 0)
      fun a => if a < 0x8000 then 0x77 else 0x5A := by
    refine cut_erase ((history_inv hw hist₁).opened hopen₁).2.pdevice _ (by decide) fun b hb => ?_
    rw [if_neg (by omega)]
    exact (congrFun hflash₁ b).symm
  have hboot : Boot jvChip.powerUp (fun a => if a < 0x8000 then 0x77 else 0x5A) freshDriver
      { jvStart with flash := fun a => if a < 0x8000 then 0x77 else 0x5A } :=
    ⟨fresh_driver, rfl, rfl, rfl, rfl, rfl⟩
  have hist₂ := History.cut (o := .eraseBlock32K 0) hist₁ ⟨hopen₁, herase⟩ hcut hboot
  obtain ⟨out₃, q₃, s₃, hrun₃, hopen₃, hflash₃⟩ := opens hw hist₂ rfl fun _ => 0
  have hist₃ := History.call (o := .doVopen) hist₂ trivial hrun₃
  have hread : InRange jvChip.device (.readSector 8 ⟨.caller, 0x20020000, 0⟩ 16) :=
    ⟨trivial, by decide, by decide, fun _ h => (by cases h; rfl), fun _ h => (by cases h)⟩
  obtain ⟨⟨y, s', hrun⟩, hret⟩ := (lifecycle hw hist₃).2.2.2 (.readSector 8 ⟨.caller, 0x20020000, 0⟩ 16) (fun _ => 0)
    ⟨hopen₃, hread⟩
  have hreturned := (hret y s' hrun).2
  have hok := hreturned.faultless rfl
  refine ⟨_, _, _, hist₃, ⟨_, List.mem_cons_of_mem _ List.mem_cons_self, rfl, rfl⟩, hopen₃, fun a ha => ?_,
    y, s', hrun, ?_, fun i hi => ?_⟩
  · exact (congrFun hflash₃ a).trans (if_pos ha)
  · obtain ⟨out, q⟩ := y
    cases out with
    | result r => exact congrArg Out.result (of_decide_eq_true hok)
    | value n => cases hok
  · have hknown := hreturned.read hok _ rfl i hi 0x5A
    rw [Nat.zero_add] at hknown
    refine hknown ?_
    have hunit : ¬ Lost jvChip.device.sectorSize.toNat (.eraseBlock32K 0) (8 * jvChip.device.sectorSize.toNat + i) := by
      show ¬ (8 * 4096 + i) / 0x8000 = 0 / 0x8000
      omega
    have hkeep : changes jvChip.device.sectorSize.toNat (fun _ => True) false (.eraseBlock32K 0) (fun _ => 0)
        (.result .error) (8 * jvChip.device.sectorSize.toNat + i) = .keep :=
      (failed_change.resolve_left fun h => hunit h.1).2
    exact congrArg (fun c => NorArray.Change.know .keep (NorArray.Change.know c (some 0x5A))) hkeep

end QspiFlash.Block.Lifecycle
