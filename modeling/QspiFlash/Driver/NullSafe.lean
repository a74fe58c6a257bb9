/-
  QspiFlash.Driver.NullSafe — when the driver reads through a null pointer.

  `memory` gives any HAL outcomes and any ID bytes, answers loads from the memory it keeps, and
  does not allow a null pointer to be read. `pimpl` is set together with `pdevice_` and cleared
  alone, so the switch to quad mode finds its descriptor; `read`, `write`, the block and chip
  erases and the getters look at `pdevice_` first. The sector functions do not: `Guarded` is
  when their callers have done it for them.

  - `null_safe_iff`: a sequence of operations is defined exactly if every operation is guarded
    in every state it can be called in.
  - `null_sector`: a sector read of a new object is not.
-/

import QspiFlash.Driver.Coherent

namespace QspiFlash.Driver.NullSafe

open Interact

/-- Only a load and a 32-bit computation are sure to leave the memory as it is. -/
def memory : Env Call Call.Resp (Ptr → UInt8) where
  guard _ c := c ≠ .nullDeref
  step m c r m' :=
    match c, r with
    | .load p, b => b = m p ∧ m' = m
    | .wrapped, _ => m' = m
    | _, _ => True

/-- No null pointer will be read: the sector functions need a device, and so does a block
    write that erases without having found data to write. -/
def Guarded (q : Qspi) (m : Ptr → UInt8) : Op → Prop
  | .readSector .. | .writeSector .. | .eraseSector _ => q.pdevice ≠ none
  | .doWriteBlock buf _ nblocks => q.pdevice ≠ none ∨ nblocks = 0 ∨
      ∃ i, i < q.blockLogicalSizeBytes * nblocks % 2 ^ 32 ∧ m (buf.add i) ≠ 0xFF
  | _ => True

theorem memory_total (m : Ptr → UInt8) (c : Call) : ∃ r m', memory.step m c r m' := by
  cases c with
  | load p => exact ⟨m p, m, rfl, rfl⟩
  | wrapped => exact ⟨(), m, rfl⟩
  | halCommand | halReceiveIT | halReceiveDMA | halTransmit | halTransmitDMA | halAutoPollingIT | halMemoryMapped | halAbort =>
    exact ⟨.ok, m, trivial⟩
  | timedWait | dcacheEnabled => exact ⟨true, m, trivial⟩
  | idBytes => exact ⟨(0, 0, 0), m, trivial⟩
  | nullDeref => exact ⟨0, m, trivial⟩
  | _ => exact ⟨(), m, trivial⟩

theorem loads_memory : Loads memory fun m p => m p := fun _ _ => ⟨nofun, fun _ _ h => h⟩

/-- A program that reads no null pointer is allowed from every state. -/
theorem wp_safe {α : Type} {p : M α} (hp : p.All (· ≠ .nullDeref)) (m : Ptr → UInt8) : wp memory p (fun _ _ => True) m :=
  wp_allowed (hp.mono fun _ hc _ => hc) m

theorem composes_safe : Composes fun p => p.All (· ≠ Call.nullDeref) where
  pure _ := trivial
  bind hp hf := Prog.all_bind hp hf
  mark c _ hc := (Prog.all_ask c).mpr hc

theorem marked {α : Type} {c : Call} (hc : c ≠ .nullDeref) {f : c.Resp → M α} (hf : ∀ r, (f r).All (· ≠ .nullDeref)) :
    (ask c >>= f).All (· ≠ .nullDeref) :=
  Prog.all_bind ((Prog.all_ask c).mpr hc) hf

/-! ## The operations that need no guard -/

theorem enterQuadMode_safe {q : Qspi} (hq : q.pdevice = none → q.pimpl = none) :
    (enterQuadMode q).All (· ≠ .nullDeref) := by
  unfold enterQuadMode
  cases hd : q.pdevice with
  | none =>
    rw [hq hd]
    trivial
  | some d =>
    have hcmd : ∀ cmd t, (qspiCommand cmd t).All (· ≠ .nullDeref) := fun _ _ => all_qspiCommand nofun nofun
    have hbyte : ∀ b t, (halTransmit b t).All (· ≠ .nullDeref) := fun _ _ => ⟨nofun, fun _ => trivial⟩
    cases q.pimpl with
    | none => trivial
    | some v =>
      cases v with
      | winbond =>
        unfold QspiWinbond.enterQuadMode dummyCyclesOf
        rw [hd]
        exact all_onOk (hcmd _ _) (all_onOk (hcmd _ _) (all_onOk (hbyte _ _)
          (all_onOk (hcmd _ _) (all_onOk (hcmd _ _) (hbyte _ _)))))
      | micron =>
        unfold QspiMicron.enterQuadMode dummyCyclesOf
        rw [hd]
        exact all_onOk (hcmd _ _) (all_onOk (hcmd _ _) (all_onOk (hbyte _ _) (all_onOk (hcmd _ _) (all_onOk (hcmd _ _)
          (all_onOk (hbyte _ _) (hcmd _ _))))))

theorem sleep_safe (state : Bool) : (sleep state).All (· ≠ .nullDeref) := all_qspiCommand nofun nofun

theorem resetChip_safe : resetChip.All (· ≠ .nullDeref) :=
  all_onOk (all_qspiCommand nofun nofun) (all_qspiCommand nofun nofun)

theorem readJedecId_safe (q : Qspi) : (readJedecId qspiManufacturers q).All (· ≠ .nullDeref) := by
  apply readJedecId_asks
  · intro c hc h
    rw [h] at hc
    exact hc
  · intro m hm
    rw [tables_vendor m hm]
    exact marked (c := .qspiFactory _) nofun fun _ => trivial

theorem uninitializeQspi_safe (q : Qspi) : (uninitializeQspi q).All (· ≠ .nullDeref) :=
  Prog.all_bind (sleep_safe false) fun _ => Prog.all_bind resetChip_safe fun _ => trivial

/-- The object on every path to the switch to quad mode is coherent. -/
theorem initializeQspi_safe {q : Qspi} (hq : Coherent qspiManufacturers makerVendor q) :
    wp (Env.any (· ≠ Call.nullDeref)) (initializeQspi qspiManufacturers q) (fun _ _ => True) () := by
  have hany : ∀ {α : Type} {p : M α} {Q : Prop}, p.All (· ≠ .nullDeref) → Q →
      wp (Env.any (· ≠ Call.nullDeref)) p (fun _ _ => Q) () := fun hp hQ => wp_any hp fun _ => hQ
  refine wp_mono (wp_initializeQspi (I := fun q _ => Coherent qspiManufacturers makerVendor q) ?_ ?_ ?_ ?_ hq) fun _ _ _ => trivial
  · intro q _ hi
    exact wp_of_runs (hany (readJedecId_safe q) trivial) fun y _ hr =>
      runs_any ((coherent_keeps tables_vendor).readJedecId hi) hr
  · exact fun hi => hany (sleep_safe false) hi
  · exact fun hi => hany resetChip_safe hi
  · exact fun hi => hany (enterQuadMode_safe fun hd => (hi.unset hd).2) hi

/-- The operations that are not of the data path. -/
theorem modeOp_safe {o : Op} (ho : ¬ DataOp o) {q : Qspi} (hq : Coherent qspiManufacturers makerVendor q)
    (m : Ptr → UInt8) :
    wp memory (exec qspiManufacturers o q) (fun _ _ => True) m := by
  have hinit : wp memory (initializeQspi qspiManufacturers q) (fun _ _ => True) m := by
    exact wp_of_any (fun _ _ hc => hc) (initializeQspi_safe hq) m
  have herrno : ∀ (e : Errno) (n : Int) (q' : Qspi), (do ask (.setErrno e); pure (n, q') : M (Int × Qspi)).All
    (· ≠ .nullDeref) :=
    fun e _ _ => marked (c := .setErrno e) nofun fun _ => trivial
  have hkeep : ∀ {α : Type} (out : α → Out) {p : M α}, p.All (· ≠ .nullDeref) →
    wp memory (keep q out p) (fun _ _ => True) m :=
    fun out p hp => wp_seq (wp_safe hp m) fun _ _ _ => trivial
  cases o with
  | initializeQspi => exact wp_seq hinit fun _ _ _ => trivial
  | uninitializeQspi => exact wp_seq (wp_safe (uninitializeQspi_safe q) m) fun _ _ _ => trivial
  | doVopen =>
    refine wp_seq (P := fun _ _ => True) ?_ fun _ _ _ => trivial
    refine wp_ite (fun _ => wp_safe (herrno _ _ _) m) fun _ => wp_ite (fun _ => wp_safe (herrno _ _ _) m) fun _ => ?_
    refine wp_seq hinit fun y m' _ => wp_safe ?_ m'
    exact Prog.all_ite (fun _ => herrno _ _ _) fun _ => Prog.all_ite (fun _ => herrno _ _ _) fun _ => trivial
  | doClose =>
    have hclose : (Driver.doClose q).All (· ≠ .nullDeref) :=
      Prog.all_bind (uninitializeQspi_safe q) fun y => Prog.all_ite (fun _ => herrno _ _ _) fun _ => trivial
    exact wp_seq (wp_safe hclose m) fun _ _ _ => trivial
  | sleep state => exact hkeep _ (sleep_safe state)
  | resetChip => exact hkeep _ resetChip_safe
  | enterMemMapped =>
    refine hkeep _ ?_
    unfold Driver.enterMemMapped
    split
    · trivial
    · exact ⟨nofun, fun _ => trivial⟩
  | exitMemMapped => exact hkeep _ ⟨nofun, fun _ => trivial⟩
  | _ => exact absurd trivial ho

/-! ## The data path -/

/-- With a device the data operations read no null pointer. -/
theorem dataOp_safe {o : Op} (ho : DataOp o) {q : Qspi} (hd : q.pdevice ≠ none) (m : Ptr → UInt8) :
    wp memory (exec qspiManufacturers o q) (fun _ _ => True) m := by
  have hsize : (sectorSizeOf q).All (· ≠ .nullDeref) := by
    unfold sectorSizeOf
    cases h : q.pdevice with
    | none => exact absurd h hd
    | some d => trivial
  obtain ⟨α, out, p, heq, hp⟩ := composes_safe.dataOp qspiManufacturers ho hsize
    (fun a p n _ => (read_checked q a p n).mono fun _ h => h.2)
    (fun a p n _ => (pageWrite_checked q a p n).mono fun _ h => h.2)
    (fun i a _ => (erase_checked q a i).mono fun _ h => h.2) fun n r => (Prog.all_ask (Call.dropped n r)).mpr nofun
  rw [heq]
  exact wp_seq (wp_safe hp m) fun _ _ _ => trivial

theorem not_wp_sectorSizeOf {q : Qspi} (hd : q.pdevice = none) {α : Type} {f : Nat → M α} {m : Ptr → UInt8} :
    ¬ wp memory (sectorSizeOf q >>= f) (fun _ _ => True) m := by
  intro h
  unfold sectorSizeOf at h
  rw [hd] at h
  exact h.1 rfl

theorem read_none {q : Qspi} (hd : q.pdevice = none) (a : Nat) (p : Ptr) (n : Nat) : read q a p n = pure .error := by
  rw [read, hd]

/-- A 32-bit computation keeps the memory. -/
theorem wp_memory_u32 {x : Nat} {α : Type} {f : Nat → M α} {Q : α → (Ptr → UInt8) → Prop} {m : Ptr → UInt8} :
    wp memory (u32 x >>= f) Q m ↔ wp memory (f (x % 2 ^ 32)) Q m := by
  unfold u32
  split
  · rw [Nat.mod_eq_of_lt ‹_›]
    rfl
  · constructor
    · exact fun h => h.2 () m rfl
    · intro h
      refine ⟨nofun, ?_⟩
      intro _ m' hm
      rw [show m' = m from hm]
      exact h

/-- Without a device the loop ends at its first read, and asks for no erase. -/
theorem writeInPlace_none {q : Qspi} (hd : q.pdevice = none) (buf : Ptr) (a c n : Nat) (m : Ptr → UInt8) :
    wp memory (writeInPlace q buf a c n 0 buf) (fun x _ => x.1 = false) m := by
  have herrno : Call.setErrno .eio ≠ .nullDeref := by simp
  rw [writeInPlace, wp_memory_u32, wp_memory_u32, read_none hd, pure_bind, if_pos (by decide)]
  exact ⟨herrno, fun _ _ _ => rfl⟩

/-- Without a device a block write finds data, and then reads in vain; or has no blocks to erase. -/
theorem doWriteBlock_none {q : Qspi} (hd : q.pdevice = none) (buf : Ptr) (k n : Nat) (m : Ptr → UInt8) :
    wp memory (doWriteBlock q buf k n) (fun _ _ => True) m ↔
      n = 0 ∨ ∃ i, i < q.blockLogicalSizeBytes * n % 2 ^ 32 ∧ m (buf.add i) ≠ 0xFF := by
  unfold doWriteBlock
  rw [wp_memory_u32, wp_memory_u32]
  have hdata := hasData_loads loads_memory buf (q.blockLogicalSizeBytes * n % 2 ^ 32) m
  constructor
  · intro h
    obtain ⟨b, m', hrun⟩ := run_total memory_total (hasData buf (q.blockLogicalSizeBytes * n % 2 ^ 32)) m
    obtain ⟨rfl, hb⟩ := wp_runs hdata hrun
    have hrest := wp_rest h hrun
    cases b with
    | true => exact Or.inr (hb.mp rfl)
    | false =>
      cases n with
      | zero => exact Or.inl rfl
      | succ n =>
        simp only [eraseBlocks, eraseSector, bind_assoc, if_true] at hrest
        exact absurd hrest (not_wp_sectorSizeOf hd)
  · intro h
    refine wp_seq hdata ?_
    intro b m' hpost
    obtain ⟨rfl, hb⟩ := hpost
    apply wp_ite
    · intro hfalse
      rw [hfalse] at hb
      obtain rfl : n = 0 := h.resolve_right fun hex => Bool.false_ne_true (hb.mpr hex)
      trivial
    · intro _
      refine wp_seq (writeInPlace_none hd _ _ _ _ _) ?_
      intro x m₁ hx
      rw [if_neg (by simp [hx])]
      trivial

/-- One operation is defined exactly if it is guarded. -/
theorem guarded_iff {q : Qspi} (hq : Coherent qspiManufacturers makerVendor q) (o : Op) (m : Ptr → UInt8) :
    wp memory (exec qspiManufacturers o q) (fun _ _ => True) m ↔ Guarded q m o := by
  by_cases hdata : DataOp o
  · by_cases hd : q.pdevice = none
    · have hkeep : ∀ {α : Type} (out : α → Out) (p : M α), wp memory (keep q out p) (fun _ _ => True) m ↔
        wp memory p (fun _ _ => True) m :=
        fun out p => wp_bind
      have hsector : ∀ {f : Nat → M QspiResult} (out : QspiResult → Out),
          ¬ wp memory (keep q out (sectorSizeOf q >>= f)) (fun _ _ => True) m :=
            fun out h => not_wp_sectorSizeOf hd (wp_first h)
      have hfree : ∀ (out : QspiResult → Out) {p : M QspiResult}, p = pure .error →
        wp memory (keep q out p) (fun _ _ => True) m := by
        intro out p hp
        rw [hp]
        trivial
      cases o with
      | read a p n => exact iff_of_true (hfree _ (read_none hd a p n)) trivial
      | write a p n => exact iff_of_true (hfree _ (by rw [Driver.write, hd])) trivial
      | eraseBlock32K a => exact iff_of_true (hfree _ (by rw [Driver.eraseBlock32K, erase, hd])) trivial
      | eraseBlock64K a => exact iff_of_true (hfree _ (by rw [Driver.eraseBlock64K, erase, hd])) trivial
      | eraseChip => exact iff_of_true (hfree _ (by rw [Driver.eraseChip, erase, hd])) trivial
      | readSector k p n => exact iff_of_false (hsector _) (absurd hd)
      | writeSector k p n => exact iff_of_false (hsector _) (absurd hd)
      | eraseSector k => exact iff_of_false (hsector _) (absurd hd)
      | doReadBlock buf k n =>
        have hread : (Driver.doReadBlock q buf k n).All (· ≠ .nullDeref) :=
          composes_safe.doReadBlock buf k n fun a => (read_checked q _ _ _).mono fun _ h => h.2
        exact iff_of_true ((hkeep _ _).mpr (wp_safe hread m)) trivial
      | doWriteBlock buf k n =>
        refine (hkeep _ _).trans ((doWriteBlock_none hd buf k n m).trans ?_)
        simp [Guarded, hd]
      | _ => exact absurd hdata id
    · refine iff_of_true (dataOp_safe hdata hd m) ?_
      cases o <;> first | exact hd | exact Or.inl hd | trivial
  · refine iff_of_true (modeOp_safe hdata hq m) ?_
    cases o <;> first | trivial | exact absurd trivial hdata

/-! ## Every sequence of operations -/

/-- Each operation is guarded in every state it can be called in. -/
def AllGuarded : List Op → Qspi → (Ptr → UInt8) → Prop
  | [], _, _ => True
  | o :: os, q, m => Guarded q m o ∧ ∀ x m', Runs memory (exec qspiManufacturers o q) m x m' → AllGuarded os x.2 m'

theorem fresh_coherent {q : Qspi} (hq : Fresh q) : Coherent qspiManufacturers makerVendor q := by
  refine ⟨fun _ => ⟨hq.pmanufacturer, hq.pimpl⟩, fun d hd => ?_⟩
  rw [hq.pdevice] at hd
  cases hd

theorem session_guarded (os : List Op) {q : Qspi} (hq : Coherent qspiManufacturers makerVendor q) (m : Ptr → UInt8) :
    wp memory (session qspiManufacturers os q) (fun _ _ => True) m ↔ AllGuarded os q m := by
  induction os generalizing q m with
  | nil => exact iff_of_true trivial trivial
  | cons o os ih =>
    have hnext : ∀ x m', Runs memory (exec qspiManufacturers o q) m x m' → Coherent qspiManufacturers makerVendor x.2 :=
      fun x m' hr => runs_any ((coherent_keeps tables_vendor).exec o hq) hr
    constructor
    · intro h
      refine ⟨(guarded_iff hq o m).mp (wp_first h), fun x m' hr => ?_⟩
      exact (ih (hnext x m' hr) m').mp (wp_rest (a := x) h hr)
    · intro h
      obtain ⟨ho, hrest⟩ := h
      refine wp_seq (wp_of_runs ((guarded_iff hq o m).mpr ho) fun x m' hr => ?_) fun _ _ h => h
      exact (ih (hnext x m' hr) m').mpr (hrest x m' hr)

theorem session_coherent (os : List Op) {q q' : Qspi} {m m' : Ptr → UInt8} (hq : Coherent qspiManufacturers makerVendor q)
    (hr : Runs memory (session qspiManufacturers os q) m q' m') : Coherent qspiManufacturers makerVendor q' := by
  induction os generalizing q m with
  | nil =>
    obtain ⟨rfl, rfl⟩ := runs_pure.mp hr
    exact hq
  | cons o os ih =>
    obtain ⟨x, m₁, hrun, hrest⟩ := runs_bind.mp hr
    exact ih (runs_any ((coherent_keeps tables_vendor).exec o hq) hrun) hrest

/-- A sequence on a new object reads no null pointer exactly if each operation is guarded in
    every state it can be called in. In each state a run reaches the next operation is defined
    exactly if it is guarded; and where there is no device, what looks at it first says so. -/
theorem null_safe_iff {q : Qspi} (hq : Fresh q) (os : List Op) (m : Ptr → UInt8) :
    ((∀ c m', Asks memory (session qspiManufacturers os q) m c m' → c ≠ .nullDeref) ↔ AllGuarded os q m) ∧
    ∀ q' m', Runs memory (session qspiManufacturers os q) m q' m' →
      (∀ o, (∀ c m₁, Asks memory (exec qspiManufacturers o q') m' c m₁ → c ≠ .nullDeref) ↔ Guarded q' m' o) ∧
      (q'.pdevice = none → Initialised.Silent q') := by
  refine ⟨wp_iff_asks.symm.trans (session_guarded os (fresh_coherent hq) m), ?_⟩
  intro q' m' hr
  have hq' := session_coherent os (fresh_coherent hq) hr
  refine ⟨fun o => wp_iff_asks.symm.trans (guarded_iff hq' o m'), fun hd => ?_⟩
  exact Initialised.silent_of_none hd (hq'.unset hd).1

/-- Reading, opening and erasing a new object, in this order, is defined; and where a W25Q128JV
    was found, so is a sector erase. -/
theorem null_safe_new :
    (¬ ∃ m', Asks memory
      (session qspiManufacturers [.read 0 ⟨.caller, 0x20020000, 0⟩ 4, .doVopen, .eraseChip] freshDriver)
      (fun _ => 0) .nullDeref m') ∧
    ∃ q' m', Runs memory (session qspiManufacturers [.initializeQspi] freshDriver) (fun _ => 0) q' m' ∧
      q'.pdevice = some jv ∧
      ∀ c m₁, Asks memory (exec qspiManufacturers (.eraseSector 3) q') m' c m₁ → c ≠ .nullDeref := by
  constructor
  · intro hask
    obtain ⟨m', hask⟩ := hask
    have hguarded : AllGuarded [.read 0 ⟨.caller, 0x20020000, 0⟩ 4, .doVopen, .eraseChip] freshDriver fun _ => 0 :=
      ⟨trivial, fun _ _ _ => ⟨trivial, fun _ _ _ => ⟨trivial, fun _ _ _ => trivial⟩⟩⟩
    exact (null_safe_iff fresh_driver _ _).1.mpr hguarded _ m' hask rfl
  · -- the memory stays all 0, as it is read
    have hstep : ∀ (m : Ptr → UInt8) (c : Call), m = (fun _ => 0) →
        memory.step m c (Initialised.goesWell (0xEF, 0x70, 0x18) c) m := by
      intro m c hm
      cases c with
      | load p => exact ⟨by rw [hm]; rfl, rfl⟩
      | wrapped => rfl
      | _ => trivial
    have hrun := (runs_run (f := fun m c => (Initialised.goesWell (0xEF, 0x70, 0x18) c, m)) hstep (fun _ _ hm => hm)
      (session qspiManufacturers [.initializeQspi] freshDriver) rfl).1
    have hfound : ((session qspiManufacturers [.initializeQspi] freshDriver).run
        (fun (m : Ptr → UInt8) c => (Initialised.goesWell (0xEF, 0x70, 0x18) c, m)) fun _ => 0).1.pdevice = some jv := by
      decide +kernel
    refine ⟨_, _, hrun, hfound, (((null_safe_iff fresh_driver _ _).2 _ _ hrun).1 (.eraseSector 3)).mpr ?_⟩
    exact fun hnone => absurd (hfound.symm.trans hnone) (Option.some_ne_none _)

/-- A sector read of a new object is not. -/
theorem null_sector : ¬ ∀ q, Fresh q → ∀ (os : List Op) m c m', Asks memory (session qspiManufacturers os q) m c m' →
    c ≠ .nullDeref := by
  intro h
  have hask : Asks memory (session qspiManufacturers [.readSector 0 ⟨.caller, 0x20020000, 0⟩ 4096] freshDriver)
      (fun _ => 0) .nullDeref (fun _ => 0) := .here
  exact h freshDriver fresh_driver _ _ _ _ hask rfl

end QspiFlash.Driver.NullSafe
