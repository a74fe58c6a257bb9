/-
  QspiFlash.Driver.Initialised — what a driver that is not initialised says and does.

  Initialised means that the latest `initialize` or `uninitialize`, called directly or by
  `do_vopen` or `do_close`, was an `initialize` that returned `ok`; `execInit` runs an
  operation and keeps that flag. The bus answers as it likes; `watch` only records whether
  any ID bytes so far stood for a device.

  The driver keeps `pdevice_` where it found it: `uninitialize` does not clear it, and
  `read_JEDEC_ID` sets it before the switch to quad mode has succeeded. So it is silent
  exactly as long as no device has been found (`silent_iff`), and not whenever it is not
  initialised (`not_silent`).
-/

import QspiFlash.Driver.Identity
import QspiFlash.Driver.Opened

namespace QspiFlash.Driver.Initialised

open Interact

variable (tbl : List QspiManuf)

/-- The driver says that there is no device, and hands no command to the HAL. -/
structure Silent (q : Qspi) : Prop where
  memoryType : getMemoryType q = none
  manufacturer : getManufacturer q = none
  sectorSize : getSectorSize q = 0
  sectorCount : getSectorCount q = 0
  read : ∀ a p n, Driver.read q a p n = pure .error
  write : ∀ a p n, Driver.write q a p n = pure .error
  eraseBlock32K : ∀ a, Driver.eraseBlock32K q a = pure .error
  eraseBlock64K : ∀ a, Driver.eraseBlock64K q a = pure .error
  eraseChip : Driver.eraseChip q = pure .error
  enterMemMapped : Driver.enterMemMapped q = pure .error

theorem silent_of_none {q : Qspi} (hd : q.pdevice = none) (hm : q.pmanufacturer = none) : Silent q := by
  refine ⟨?_, hm, ?_, ?_, fun a p n => ?_, fun a p n => ?_, fun a => ?_, fun a => ?_, ?_, ?_⟩
  · rw [getMemoryType, hd]
  · rw [getSectorSize, hd]
  · rw [getSectorCount, hd]
  · rw [Driver.read, hd]
  · rw [Driver.write, hd]
  · rw [Driver.eraseBlock32K, erase, hd]
  · rw [Driver.eraseBlock64K, erase, hd]
  · rw [Driver.eraseChip, erase, hd]
  · rw [Driver.enterMemMapped, hd]

/-- With a device the driver asks the HAL to map it. -/
theorem Silent.pdevice {q : Qspi} (h : Silent q) : q.pdevice = none := by
  have hmap := h.enterMemMapped
  unfold Driver.enterMemMapped at hmap
  cases hd : q.pdevice with
  | none => rfl
  | some d =>
    rw [hd] at hmap
    cases hmap

/-! ## Runs with the flag -/

/-- An operation on the object and the flag of its initialisation. -/
def execInit (o : Op) (x : Qspi × Bool) : M (Out × Qspi × Bool) :=
  match o with
  | .initializeQspi => do
    let y ← Driver.initializeQspi tbl x.1
    pure (.result y.1, y.2, y.1 = .ok)
  | .uninitializeQspi => do
    let y ← Driver.uninitializeQspi x.1
    pure (.result y.1, y.2, false)
  | .doVopen =>
    if x.1.isOpened ∨ x.1.instanceNull then do
      let y ← Driver.doVopen tbl x.1
      pure (.value y.1, y.2, x.2)
    else do
      let y ← Driver.initializeQspi tbl x.1
      let z ← vopenFinish y.1 y.2
      pure (.value z.1, z.2, y.1 = .ok)
  | .doClose => do
    let y ← Driver.doClose x.1
    pure (.value y.1, y.2, false)
  | o => do
    let y ← exec tbl o x.1
    pure (y.1, y.2, x.2)

/-- Without the flag it is the operation. -/
theorem execInit_exec (o : Op) (x : Qspi × Bool) : (do let y ← execInit tbl o x; pure (y.1, y.2.1)) = exec tbl o x.1 := by
  cases o with
  | doVopen =>
    unfold execInit exec Driver.doVopen
    by_cases ho : x.1.isOpened = true
    · simp [ho]
    · by_cases hn : x.1.instanceNull = true
      · simp [ho, hn]
      · simp [ho, hn]
  | _ => simp [execInit, exec, keep]

def next (m : Bool) : (c : Call) → c.Resp → Bool
  | .idBytes, b => m || (named tbl b).isSome
  | _, _ => m

/-- Any answers; the state says whether ID bytes have stood for a device. -/
def watch : Env Call Call.Resp Bool := Env.monitor (fun _ _ => True) (next tbl)

variable {tbl}

/-- The object has a device exactly if one has been found. -/
structure Tracks (q : Qspi) (m : Bool) : Prop where
  unfound : m = false → q.pdevice = none ∧ q.pmanufacturer = none
  found : m = true → q.pdevice ≠ none

theorem Tracks.same {q q' : Qspi} {m : Bool} (h : Tracks q m) (hd : q'.pdevice = q.pdevice)
    (hm : q'.pmanufacturer = q.pmanufacturer) : Tracks q' m :=
  ⟨fun h' => ⟨hd.trans (h.unfound h').1, hm.trans (h.unfound h').2⟩, fun h' => by rw [hd]; exact h.found h'⟩

/-! ## What each operation does to it -/

theorem noId_keeps {α : Type} {p : M α} (hp : p.All NoId) (m : Bool) : wp (watch tbl) p (fun _ m' => m' = m) m := by
  refine wp_inv (fun _ _ _ _ => trivial) ?_ hp rfl
  intro m₁ c r m₂ hc he hs
  rw [show m₂ = next tbl m₁ c r from hs, he]
  cases c <;> first | rfl | exact absurd hc id

theorem quiet_looks : ∀ c, Looks c → Quiet (watch tbl) c := by
  intro c hc m
  cases c <;> first | exact absurd hc id | exact ⟨trivial, fun _ _ h => h⟩

theorem readJedecId_tracks {q : Qspi} {m : Bool} (h : Tracks q m) :
    wp (watch tbl) (readJedecId tbl q) (fun y m' => Tracks y.2 m') m := by
  have hwait : (onOk halReceiveIT (timedWait .TIMEOUT)).All NoId :=
    all_onOk ⟨trivial, fun _ => trivial⟩ ⟨trivial, fun _ => trivial⟩
  refine wp_seq (noId_keeps (all_onOk (all_qspiCommand trivial trivial) hwait) m) ?_
  intro r m' hm
  subst hm
  refine wp_ite (fun _ => ?_) fun _ => h
  refine wp_mono (identify_spec quiet_looks tbl q (P := fun b m₁ => m₁ = (m' || (named tbl b).isSome)) trivial
    fun _ _ h => h) ?_
  intro y m₁ hy
  obtain ⟨b, rfl, rfl⟩ := hy
  cases named tbl b with
  | none =>
    rw [Option.isSome_none, Bool.or_false]
    exact h.same rfl rfl
  | some z =>
    rw [Option.isSome_some, Bool.or_true]
    exact ⟨nofun, fun _ => nofun⟩

/-- The property of the identity that `exec` keeps. -/
theorem tracks_keeps : KeepsIdentity (watch tbl) tbl Tracks where
  same h hd hm _ := h.same hd hm
  cleared h := h.same rfl rfl
  allowed _ _ _ := trivial
  step := by
    intro q m m' c r hc h hs
    rw [show m' = next tbl m c r from hs]
    cases c <;> first | exact h | exact absurd hc id
  readJedecId := readJedecId_tracks

theorem execInit_tracks (o : Op) {x : Qspi × Bool} {m : Bool} (h : Tracks x.1 m) :
    wp (watch tbl) (execInit tbl o x) (fun y m' => Tracks y.2.1 m') m := by
  have hkeeps : KeepsIdentity (watch tbl) tbl Tracks := tracks_keeps
  have hexec := hkeeps.exec o h
  rw [← execInit_exec] at hexec
  exact wp_bind.mp hexec

/-! ## Every run -/

/-- A new object, not initialised, before any ID bytes. -/
structure Start (x : Qspi × Bool) (m : Bool) : Prop where
  fresh : Fresh x.1
  uninitialised : x.2 = false
  unfound : m = false

/-- The object, not initialised, after some run of public operations that found a device or not. -/
def Uninitialised (tbl : List QspiManuf) (q : Qspi) (found : Bool) : Prop :=
  Reach (watch tbl) (execInit tbl) (fun _ => True) Start (q, false) found

theorem tracks_reach {x : Qspi × Bool} {m : Bool} (h : Reach (watch tbl) (execInit tbl) (fun _ => True) Start x m) :
    Tracks x.1 m := by
  refine reach_inv (I := fun x m => Tracks x.1 m) ?_ (fun o _ _ _ hi => execInit_tracks o hi) h
  intro x m h
  refine ⟨fun _ => ⟨h.fresh.pdevice, h.fresh.pmanufacturer⟩, fun hm => ?_⟩
  rw [h.unfound] at hm
  cases hm

/-- Not initialised, the driver is silent exactly if no ID bytes have stood for a device. -/
theorem silent_iff {q : Qspi} {found : Bool} (h : Uninitialised tbl q found) : Silent q ↔ found = false := by
  have htracks : Tracks q found := tracks_reach h
  constructor
  · intro hs
    cases found with
    | false => rfl
    | true => exact absurd hs.pdevice (htracks.found rfl)
  · intro hf
    obtain ⟨hd, hm⟩ := htracks.unfound hf
    exact silent_of_none hd hm

/-! ## Two runs -/

/-- Every call goes well, and the chip sends `id`. -/
def goesWell (id : UInt8 × UInt8 × UInt8) : (c : Call) → c.Resp
  | .halCommand .. | .halReceiveIT | .halReceiveDMA _ | .halTransmit .. | .halTransmitDMA _ => .ok
  | .halAutoPollingIT .. | .halMemoryMapped .. | .halAbort => .ok
  | .timedWait _ | .dcacheEnabled => true
  | .load _ => 0
  | .idBytes => id
  | .nullDeref => 0
  | .crAbort | .cleanInvalidateDCache .. | .cleanDCache .. | .qspiFactory _ | .setErrno _ => ()
  | .wrapped | .overrun | .dropped .. => ()

/-- One operation of the object `x` on that bus. -/
def after (id : UInt8 × UInt8 × UInt8) (o : Op) (x : (Qspi × Bool) × Bool) : (Qspi × Bool) × Bool :=
  let z :=
    (execInit qspiManufacturers o x.1).run (fun m c => (goesWell id c, next qspiManufacturers m c (goesWell id c))) x.2
  (z.1.2, z.2)

theorem after_reach {x : (Qspi × Bool) × Bool} (id : UInt8 × UInt8 × UInt8) (o : Op)
    (h : Reach (watch qspiManufacturers) (execInit qspiManufacturers) (fun _ => True) Start x.1 x.2) :
    Reach (watch qspiManufacturers) (execInit qspiManufacturers) (fun _ => True) Start (after id o x).1
      (after id o x).2 := by
  have hrun := (runs_run (E := watch qspiManufacturers) (I := fun _ => True)
    (f := fun m c => (goesWell id c, next qspiManufacturers m c (goesWell id c))) (fun _ _ _ => rfl)
      (fun _ _ _ => trivial)
    (execInit qspiManufacturers o x.1) (s := x.2) trivial).1
  exact .op h trivial hrun

def start : (Qspi × Bool) × Bool := ((freshDriver, false), false)

theorem start_reach :
    Reach (watch qspiManufacturers) (execInit qspiManufacturers) (fun _ => True) Start start.1 start.2 :=
  .init ⟨fresh_driver, rfl, rfl⟩

/-- Initialised and uninitialised again, the driver still reports its device. -/
theorem not_silent : ¬ ∀ q found, Uninitialised qspiManufacturers q found → Silent q := by
  intro h
  have hreach :=
    after_reach (0xEF, 0x70, 0x18) .uninitializeQspi (after_reach (0xEF, 0x70, 0x18) .initializeQspi start_reach)
  have hsilent := h _ _ hreach
  exact absurd hsilent.sectorSize (by decide +kernel)

/-- With a chip it does not know, the driver stays silent. -/
theorem silent_unknown : Silent (after (0xFF, 0xFF, 0xFF) .initializeQspi start).1.1 := by
  have hreach := after_reach (0xFF, 0xFF, 0xFF) .initializeQspi start_reach
  have hflag : (after (0xFF, 0xFF, 0xFF) .initializeQspi start).1.2 = false := by decide +kernel
  have huninit : Uninitialised qspiManufacturers (after (0xFF, 0xFF, 0xFF) .initializeQspi start).1.1
      (after (0xFF, 0xFF, 0xFF) .initializeQspi start).2 := by
    unfold Uninitialised
    rw [← hflag]
    exact hreach
  exact (silent_iff huninit).mpr (by decide +kernel)

end QspiFlash.Driver.Initialised
