/-
  QspiFlash.Driver.CApi — the C wrappers (`qspi-flash-c-wrapper.cpp`, `qspi-flash-c-api.h`).

  A wrapper calls the method and casts its result to the C enumeration: it hands on the
  number. The two enumerations agree on the values of the HAL, and differ on the one of their
  own: `type_not_found` is 10, `qspi_type_not_found` is the value after `qspi_timeout`.

  - `same_outcome`: a wrapper changes the object and the bus as the method does, and its
    value names the method's outcome unless it is `qspi_initialize` and the call ends with ID
    bytes that match no entry.
  - `not_found_outcome`: with such a chip it does not return `qspi_type_not_found`.
-/

import QspiFlash.Driver.Initialised

namespace QspiFlash.Driver

open Interact

/-! ## The two enumerations -/

def HalStatus.value : HalStatus → Nat
  | .ok => 0
  | .error => 1
  | .busy => 2
  | .timeout => 3

/-- `qspi_impl::qspi_result_t`. -/
def QspiResult.value : QspiResult → Nat
  | .ok => HalStatus.ok.value
  | .error => HalStatus.error.value
  | .busy => HalStatus.busy.value
  | .timeout => HalStatus.timeout.value
  | .typeNotFound => 10

/-- `qspi_result_t` of the C header. -/
inductive CResult where
  | qspiOk
  | qspiError
  | qspiBusy
  | qspiTimeout
  | qspiTypeNotFound
  deriving DecidableEq, Repr

def CResult.value : CResult → Nat
  | .qspiOk => 0
  | .qspiError => HalStatus.error.value
  | .qspiBusy => HalStatus.busy.value
  | .qspiTimeout => HalStatus.timeout.value
  | .qspiTypeNotFound => HalStatus.timeout.value + 1

/-- The C enumerator for the same outcome. -/
def QspiResult.enumerator : QspiResult → CResult
  | .ok => .qspiOk
  | .error => .qspiError
  | .busy => .qspiBusy
  | .timeout => .qspiTimeout
  | .typeNotFound => .qspiTypeNotFound

theorem value_eq_iff (r : QspiResult) : r.value = r.enumerator.value ↔ r ≠ .typeNotFound := by
  cases r <;> decide

/-! ## The wrappers -/

/-- A method of `qspi_impl` that returns a `qspi_result_t`. -/
abbrev Method := Qspi → M (QspiResult × Qspi)

/-- One that leaves the object as it is. -/
def still (p : Qspi → M QspiResult) : Method := fun q => do
  let result ← p q
  pure (result, q)

/-- `return (qspi_result_t) (... .impl ().method (...))`. -/
def wrap (method : Method) (q : Qspi) : M (Nat × Qspi) := do
  let x ← method q
  pure (x.1.value, x.2)

variable (tbl : List QspiManuf)

def qspiSleep (state : Bool) := wrap (still fun _ => sleep state)
def qspiInitialize := wrap (initializeQspi tbl)
def qspiUninitialize := wrap uninitializeQspi
def qspiEnterMemMapped := wrap (still enterMemMapped)
def qspiExitMemMapped := wrap (still fun _ => exitMemMapped)
def qspiRead (address : Nat) (buff : Ptr) (count : Nat) := wrap (still fun q => read q address buff count)
def qspiWrite (address : Nat) (buff : Ptr) (count : Nat) := wrap (still fun q => write q address buff count)
def qspiReadSector (sector : Nat) (buff : Ptr) (count : Nat) := wrap (still fun q => readSector q sector buff count)
def qspiWriteSector (sector : Nat) (buff : Ptr) (count : Nat) := wrap (still fun q => writeSector q sector buff count)
def qspiEraseSector (sector : Nat) := wrap (still fun q => eraseSector q sector)
def qspiEraseBlock32K (address : Nat) := wrap (still fun q => eraseBlock32K q address)
def qspiEraseBlock64K (address : Nat) := wrap (still fun q => eraseBlock64K q address)
def qspiEraseChip := wrap (still eraseChip)
def qspiResetChip := wrap (still fun _ => resetChip)

/-- A call of a wrapper, with its arguments. -/
inductive CCall where
  | qspiSleep (state : Bool)
  | qspiInitialize
  | qspiUninitialize
  | qspiEnterMemMapped
  | qspiExitMemMapped
  | qspiRead (address : Nat) (buff : Ptr) (count : Nat)
  | qspiWrite (address : Nat) (buff : Ptr) (count : Nat)
  | qspiReadSector (sector : Nat) (buff : Ptr) (count : Nat)
  | qspiWriteSector (sector : Nat) (buff : Ptr) (count : Nat)
  | qspiEraseSector (sector : Nat)
  | qspiEraseBlock32K (address : Nat)
  | qspiEraseBlock64K (address : Nat)
  | qspiEraseChip
  | qspiResetChip
  deriving DecidableEq, Repr

def CCall.wrapper : CCall → Qspi → M (Nat × Qspi)
  | .qspiSleep state => Driver.qspiSleep state
  | .qspiInitialize => Driver.qspiInitialize tbl
  | CCall.qspiUninitialize => Driver.qspiUninitialize
  | .qspiEnterMemMapped => Driver.qspiEnterMemMapped
  | .qspiExitMemMapped => Driver.qspiExitMemMapped
  | .qspiRead address buff count => Driver.qspiRead address buff count
  | .qspiWrite address buff count => Driver.qspiWrite address buff count
  | .qspiReadSector sector buff count => Driver.qspiReadSector sector buff count
  | .qspiWriteSector sector buff count => Driver.qspiWriteSector sector buff count
  | .qspiEraseSector sector => Driver.qspiEraseSector sector
  | .qspiEraseBlock32K address => Driver.qspiEraseBlock32K address
  | .qspiEraseBlock64K address => Driver.qspiEraseBlock64K address
  | .qspiEraseChip => Driver.qspiEraseChip
  | .qspiResetChip => Driver.qspiResetChip

/-- The method it calls. -/
def CCall.method : CCall → Method
  | .qspiSleep state => still fun _ => sleep state
  | .qspiInitialize => initializeQspi tbl
  | CCall.qspiUninitialize => uninitializeQspi
  | .qspiEnterMemMapped => still enterMemMapped
  | .qspiExitMemMapped => still fun _ => exitMemMapped
  | .qspiRead address buff count => still fun q => read q address buff count
  | .qspiWrite address buff count => still fun q => write q address buff count
  | .qspiReadSector sector buff count => still fun q => readSector q sector buff count
  | .qspiWriteSector sector buff count => still fun q => writeSector q sector buff count
  | .qspiEraseSector sector => still fun q => eraseSector q sector
  | .qspiEraseBlock32K address => still fun q => eraseBlock32K q address
  | .qspiEraseBlock64K address => still fun q => eraseBlock64K q address
  | .qspiEraseChip => still eraseChip
  | .qspiResetChip => still fun _ => resetChip

theorem wrapper_eq (w : CCall) : w.wrapper tbl = wrap (w.method tbl) := by cases w <;> rfl

/-! ## The methods that never return `type_not_found` -/

/-- Whatever is answered, it is not the result. -/
def NotUnfound (p : M QspiResult) : Prop := wp (Env.any fun _ => True) p (fun r _ => r ≠ .typeNotFound) ()

theorem NotUnfound.after {α : Type} (p : M α) {f : α → M QspiResult} (hf : ∀ a, NotUnfound (f a)) :
    NotUnfound (p >>= f) :=
  wp_seq (wp_any (Prog.all_of_forall (fun _ => trivial) p) (Q := fun _ _ => True) fun _ => trivial) fun a _ _ => hf a

theorem notUnfound_pure {r : QspiResult} (h : r ≠ .typeNotFound) : NotUnfound (pure r) := h

theorem NotUnfound.ite {c : Prop} [Decidable c] {p p' : M QspiResult} (hp : NotUnfound p) (hp' : NotUnfound p') :
    NotUnfound (if c then p else p') := wp_ite (fun _ => hp) fun _ => hp'

theorem NotUnfound.onOk {p k : M QspiResult} (hp : NotUnfound p) (hk : NotUnfound k) : NotUnfound (onOk p k) :=
  wp_seq hp fun _ _ hr => wp_ite (fun _ => hk) fun _ => hr

theorem ofHal_ne (r : HalStatus) : ofHal r ≠ .typeNotFound := by cases r <;> decide

/-- A HAL call is cast to the HAL's own values. -/
theorem notUnfound_hal {α : Type} (p : M α) (f : α → HalStatus) : NotUnfound (do let r ← p; pure (ofHal (f r))) :=
  .after p fun r => ofHal_ne (f r)

theorem qspiCommand_known (cmd : QspiCommand) (t : Timeout) : NotUnfound (qspiCommand cmd t) := by
  have hcmd : NotUnfound (halCommand cmd t) := notUnfound_hal _ id
  exact wp_seq hcmd fun r _ hr => wp_ite (fun _ => NotUnfound.after _ fun _ => hcmd) fun _ => hr

theorem timedWait_known (t : Timeout) : NotUnfound (timedWait t) := by
  refine .after _ fun r => ?_
  cases r <;> exact notUnfound_pure nofun

theorem sleep_known (state : Bool) : NotUnfound (sleep state) := qspiCommand_known _ _

theorem resetChip_known : NotUnfound resetChip := (qspiCommand_known _ _).onOk (qspiCommand_known _ _)

theorem enterQuadMode_known (q : Qspi) : NotUnfound (enterQuadMode q) := by
  have hbyte : ∀ b t, NotUnfound (halTransmit b t) := fun _ _ => notUnfound_hal _ id
  have hcmd := qspiCommand_known
  unfold enterQuadMode
  split
  · exact notUnfound_pure nofun
  · refine (hcmd _ _).onOk ((hcmd _ _).onOk ((hbyte _ _).onOk
      ((hcmd _ _).onOk ((hcmd _ _).onOk (.after _ fun _ => hbyte _ _)))))
  · refine (hcmd _ _).onOk ((hcmd _ _).onOk (.after _ fun _ => ?_))
    exact (hbyte _ _).onOk ((hcmd _ _).onOk ((hcmd _ _).onOk ((hbyte _ _).onOk (hcmd _ _))))

theorem read_known (q : Qspi) (a : Nat) (p : Ptr) (n : Nat) : NotUnfound (read q a p n) := by
  unfold read
  split
  · exact notUnfound_pure nofun
  · have hreceive : NotUnfound (onOk (halReceiveDMA p) (timedWait .TIMEOUT)) :=
      (notUnfound_hal _ id).onOk (timedWait_known _)
    exact (qspiCommand_known _ _).onOk (.ite (.after _ fun _ => hreceive) hreceive)

theorem poll_known (cmd : QspiCommand) (cfg : QspiAutoPolling) (t : Timeout) :
    NotUnfound (onOk (halAutoPollingIT cmd cfg) (timedWait t)) :=
  (notUnfound_hal _ id).onOk (timedWait_known _)

theorem pageWrite_known (q : Qspi) (a : Nat) (p : Ptr) (n : Nat) : NotUnfound (pageWrite q a p n) := by
  refine (qspiCommand_known _ _).onOk ((qspiCommand_known _ _).onOk ?_)
  have hprogram : ∀ k, NotUnfound k → NotUnfound (onOk (halTransmitDMA p) (onOk (timedWait .TIMEOUT) k)) := fun k hk =>
    (notUnfound_hal _ id).onOk ((timedWait_known _).onOk hk)
  exact .ite (.after _ fun _ => hprogram _ (poll_known _ _ _)) (hprogram _ (poll_known _ _ _))

theorem writeLoop_known (q : Qspi) (a : Nat) (p : Ptr) (n : Nat) : NotUnfound (writeLoop q a p n) := by
  induction a, p, n using writeLoop.induct with
  | case1 a p n ih =>
    rw [writeLoop]
    refine (pageWrite_known _ _ _ _).onOk (.after _ fun a' => ?_)
    split
    · exact ih a' ‹_›
    · exact notUnfound_pure (by decide)

theorem write_known (q : Qspi) (a : Nat) (p : Ptr) (n : Nat) : NotUnfound (write q a p n) := by
  unfold write
  split
  · exact notUnfound_pure nofun
  · exact writeLoop_known q a p n

theorem erase_known (q : Qspi) (a : Nat) (which : Instruction) : NotUnfound (erase q a which) := by
  unfold erase
  split
  · exact notUnfound_pure nofun
  · exact (qspiCommand_known _ _).onOk ((qspiCommand_known _ _).onOk (poll_known _ _ _))

/-- Every method but `initialize`. -/
theorem method_known {w : CCall} (hw : w ≠ .qspiInitialize) (q : Qspi) :
    wp (Env.any fun _ => True) (w.method tbl q) (fun y _ => y.1 ≠ .typeNotFound) () := by
  have hstill : ∀ {p : Qspi → M QspiResult}, NotUnfound (p q) →
      wp (Env.any fun _ => True) (still p q) (fun y _ => y.1 ≠ .typeNotFound) () := fun h => wp_seq h fun _ _ hr => hr
  cases w with
  | qspiInitialize => exact absurd rfl hw
  | qspiUninitialize => exact wp_seq (sleep_known false) fun _ _ _ => wp_seq resetChip_known fun _ _ hr => hr
  | qspiSleep state =>
    apply hstill
    exact sleep_known state
  | qspiResetChip =>
    apply hstill
    exact resetChip_known
  | qspiExitMemMapped =>
    apply hstill
    exact notUnfound_hal _ id
  | qspiEnterMemMapped =>
    apply hstill
    unfold enterMemMapped
    split
    · exact notUnfound_pure nofun
    · exact notUnfound_hal _ id
  | qspiRead a p n =>
    apply hstill
    exact read_known q a p n
  | qspiWrite a p n =>
    apply hstill
    exact write_known q a p n
  | qspiReadSector k p n =>
    apply hstill
    exact .after _ fun _ => .after _ fun a => read_known q a p n
  | qspiWriteSector k p n =>
    apply hstill
    exact .after _ fun _ => .after _ fun a => write_known q a p n
  | qspiEraseSector k =>
    apply hstill
    exact .after _ fun _ => .after _ fun a => erase_known q a _
  | qspiEraseBlock32K a =>
    apply hstill
    exact erase_known q a _
  | qspiEraseBlock64K a =>
    apply hstill
    exact erase_known q a _
  | qspiEraseChip =>
    apply hstill
    exact erase_known q 0 _

/-! ## When `initialize` returns it -/

/-- The last thing heard is three ID bytes that match no entry; a command starts anew. -/
def unknownNext (unknown : Bool) : (c : Call) → c.Resp → Bool
  | .halCommand .., _ => false
  | .idBytes, b => (named tbl b).isNone
  | _, _ => unknown

/-- Any answers; the state says whether unknown ID bytes came last. -/
def lastHeard : Env Call Call.Resp Bool := Env.monitor (fun _ _ => True) (unknownNext tbl)

variable {tbl}

theorem wp_known {p : M QspiResult} (hp : NotUnfound p) {Q : Bool → Prop} {u : Bool}
    (h : wp (lastHeard tbl) p (fun _ u' => Q u') u) :
    wp (lastHeard tbl) p (fun r u' => r ≠ .typeNotFound ∧ Q u') u :=
  wp_of_runs (wp_mono h fun _ _ _ => trivial) fun _ _ hr => ⟨runs_any hp hr, wp_runs h hr⟩

theorem command_clears (cmd : QspiCommand) (t : Timeout) (u : Bool) :
    wp (lastHeard tbl) (qspiCommand cmd t) (fun _ u' => u' = false) u := by
  apply wp_attempts (I := fun _ => True) trivial
  · exact fun _ _ => trivial
  · exact fun _ _ _ hs => hs
  · exact fun _ _ _ _ _ hs => ⟨hs, trivial, fun _ _ => trivial⟩

theorem known_keeps {α : Type} {p : M α} (hp : p.All NoId) : wp (lastHeard tbl) p (fun _ u' => u' = false) false := by
  refine wp_inv (I := fun u => u = false) (fun _ _ _ _ => trivial) ?_ hp rfl
  intro u c r u' hc hu hs
  rw [show u' = unknownNext tbl u c r from hs]
  cases c <;> first | rfl | exact hu | exact absurd hc id

/-- A program that begins with a command, and then brings no ID bytes. -/
theorem command_known {cmd : QspiCommand} {t : Timeout} {k : M QspiResult} (hk : k.All NoId) (hn : NotUnfound k)
    (u : Bool) :
    wp (lastHeard tbl) (onOk (qspiCommand cmd t) k) (fun r u' => r ≠ .typeNotFound ∧ u' = false) u := by
  refine wp_known ((qspiCommand_known cmd t).onOk hn) (wp_seq (command_clears cmd t u) ?_)
  intro r u' hu
  subst hu
  exact wp_ite (fun _ => known_keeps hk) fun _ => rfl

theorem lookup_looks : ∀ c, Looks c → Quiet (lastHeard tbl) c := by
  intro c hc u
  cases c <;> first | exact absurd hc id | exact ⟨trivial, fun _ _ h => h⟩

theorem readJedecId_unknown (q : Qspi) (u : Bool) :
    wp (lastHeard tbl) (readJedecId tbl q) (fun y u' => y.1 = .typeNotFound ↔ u' = true) u := by
  have hbytes : (onOk halReceiveIT (timedWait .TIMEOUT)).All NoId :=
    all_onOk ⟨trivial, fun _ => trivial⟩ ⟨trivial, fun _ => trivial⟩
  refine wp_seq (command_known hbytes ((notUnfound_hal _ id).onOk (timedWait_known _)) u) ?_
  intro r u' hr
  obtain ⟨hne, rfl⟩ := hr
  apply wp_ite
  · intro _
    refine wp_mono (identify_spec lookup_looks tbl q (P := fun b u₁ => u₁ = (named tbl b).isNone) trivial fun _ _ h => h) ?_
    intro y u₁ hy
    obtain ⟨b, rfl, rfl⟩ := hy
    cases named tbl b <;> simp [Found]
  · exact fun _ => iff_of_false hne Bool.false_ne_true

/-- `initialize` returns `type_not_found` exactly if its call ends with unknown ID bytes. -/
theorem initialize_unknown (q : Qspi) (u : Bool) :
    wp (lastHeard tbl) (initializeQspi tbl q) (fun y u' => y.1 = .typeNotFound ↔ u' = true) u := by
  have hfinish : ∀ (y : QspiResult × Qspi) (u₁ : Bool), (y.1 = .typeNotFound ↔ u₁ = true) →
      wp (lastHeard tbl) (if y.1 = .ok then do let result ← enterQuadMode y.2; pure (result, y.2)
        else pure y : M (QspiResult × Qspi)) (fun y u' => y.1 = .typeNotFound ↔ u' = true) u₁ := by
    intro y u₁ hy
    apply wp_ite
    · intro hok
      rw [hok] at hy
      obtain rfl : u₁ = false := by simpa using hy
      refine wp_seq (wp_known (enterQuadMode_known y.2) (known_keeps ((enterQuadMode_switches y.2).mono switches_noId))) ?_
      intro r u' hr
      exact iff_of_false hr.1 (by simp [hr.2])
    · exact fun _ => hy
  refine wp_seq (readJedecId_unknown q u) ?_
  intro y u₁ hy
  refine wp_ite (fun _ => ?_) fun _ => hfinish y u₁ hy
  -- the first identification failed: wake the chip, reset it, and ask once more
  refine wp_seq (command_clears _ _ u₁) ?_
  intro _ u₂ _
  refine wp_seq (command_known (all_qspiCommand trivial trivial) (qspiCommand_known _ _) u₂) ?_
  intro r u₃ hr
  obtain ⟨hne, rfl⟩ := hr
  apply wp_ite
  · exact fun _ => wp_seq (readJedecId_unknown y.2 false) hfinish
  · exact fun _ => hfinish (r, y.2) false (iff_of_false hne Bool.false_ne_true)

/-! ## The values -/

variable (tbl)

/-- The behaviour `f` of the HAL and the chip ends this call of `initialize` with three ID bytes
    that match no entry, those of the identification after wake-up and reset. -/
def EndsUnknown {S : Type} (f : S → (c : Call) → c.Resp × S) (q : Qspi) (s : S) : Prop :=
  ((initializeQspi tbl q).run (watched f (unknownNext tbl)) (s, false)).2.2 = true

/-- For every behaviour, a wrapper leaves what the method leaves; its value names the method's
    outcome unless it is `qspi_initialize` and ends with unknown ID bytes. -/
theorem same_outcome {S : Type} (f : S → (c : Call) → c.Resp × S) (w : CCall) (q : Qspi) (s : S) :
    ((w.wrapper tbl q).run f s).1.2 = ((w.method tbl q).run f s).1.2 ∧
    ((w.wrapper tbl q).run f s).2 = ((w.method tbl q).run f s).2 ∧
    (((w.wrapper tbl q).run f s).1.1 = ((w.method tbl q).run f s).1.1.enumerator.value ↔
      ¬ (w = .qspiInitialize ∧ EndsUnknown tbl f q s)) := by
  have hwrap : (w.wrapper tbl q).run f s =
      ((((w.method tbl q).run f s).1.1.value, ((w.method tbl q).run f s).1.2), ((w.method tbl q).run f s).2) := by
    rw [wrapper_eq]
    exact Prog.run_bind f _ _ s
  rw [hwrap]
  refine ⟨rfl, rfl, (value_eq_iff _).trans (not_congr ?_)⟩
  by_cases hw : w = .qspiInitialize
  · subst hw
    have hrun := runs_watched f (unknownNext tbl) (fun _ _ => True) (initializeQspi tbl q) s false
    have hiff := wp_runs (initialize_unknown q false) hrun
    rw [(run_watched f (unknownNext tbl) (initializeQspi tbl q) s false).1] at hiff
    exact hiff.trans (and_iff_right rfl).symm
  · have hrun := runs_watched f (fun _ _ _ => ()) (fun _ _ => True) (w.method tbl q) s ()
    have hne := runs_any (method_known tbl hw q) hrun
    rw [(run_watched f (fun _ _ _ => ()) (w.method tbl q) s ()).1] at hne
    exact iff_of_false hne fun h => hw h.1

/-- The last ID bytes match no entry: on a bus without faults, `qspi_initialize` returns 10. -/
theorem not_found_outcome : ¬ ∀ (b : UInt8 × UInt8 × UInt8), named qspiManufacturers b = none → ∀ q,
    ((qspiInitialize qspiManufacturers q).run (fun u c => (Initialised.goesWell b c, u)) ()).1.1 =
      CResult.qspiTypeNotFound.value := by
  intro h
  exact absurd (h (0xFF, 0xFF, 0xFF) (by decide) freshDriver) (by decide +kernel)

end QspiFlash.Driver
