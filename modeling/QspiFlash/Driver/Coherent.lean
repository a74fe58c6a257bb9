/-
  QspiFlash.Driver.Coherent — the three identity fields name one row of the table.

  `pdevice_`, `pmanufacturer_` and `pimpl` are set together, by a lookup that does not stop at
  the first match; a lookup that finds nothing leaves all three, and `uninitialize` clears
  `pimpl` alone. `Coherent` is what stays true of them: whatever the chips and the bus do, and
  in whatever order the operations come, the vendor class that switches the chip to quad mode
  is that of the descriptor.

  - `coherent_reach`: it holds in every reachable state, for every table whose factories make
    their row's vendor.
  - `unnamed_row`: a row without a name is found as any other, and leaves `pmanufacturer_` null.
-/

import QspiFlash.Driver.Lookup

namespace QspiFlash.Driver

open Interact

/-- The row `m` and its device `d` are the ones the driver is set to. -/
structure SetTo (tbl : List QspiManuf) (vendor : UInt8 → Vendor) (q : Qspi) (m : QspiManuf) (d : QspiDevice) : Prop where
  row : m ∈ rows tbl
  device : d ∈ m.known
  pmanufacturer : q.pmanufacturer = m.manufacturerName
  pimpl : q.pimpl = none ∨ q.pimpl = some (vendor m.manufacturerID)

/-- `vendor` is the class for the makers' IDs. -/
structure Coherent (tbl : List QspiManuf) (vendor : UInt8 → Vendor) (q : Qspi) : Prop where
  unset : q.pdevice = none → q.pmanufacturer = none ∧ q.pimpl = none
  set : ∀ d, q.pdevice = some d → ∃ m, SetTo tbl vendor q m d

/-- Where every row has a name, the device and the maker are null together. -/
theorem Coherent.null_iff {tbl : List QspiManuf} {vendor : UInt8 → Vendor} {q : Qspi} (h : Coherent tbl vendor q)
    (hname : ∀ m ∈ rows tbl, m.manufacturerName ≠ none) : q.pdevice = none ↔ q.pmanufacturer = none := by
  constructor
  · exact fun hd => (h.unset hd).1
  · intro hm
    cases hd : q.pdevice with
    | none => rfl
    | some d =>
      obtain ⟨m, hset⟩ := h.set d hd
      exact absurd (hset.pmanufacturer.symm.trans hm) (hname m hset.row)

/-- The `enter_quad_mode` of a vendor class. -/
def vendorSequence : Vendor → Qspi → M QspiResult
  | .winbond => QspiWinbond.enterQuadMode
  | .micron => QspiMicron.enterQuadMode

/-- The switch to quad mode is refused, or is the sequence of the row's vendor. -/
theorem SetTo.enterQuadMode {tbl : List QspiManuf} {vendor : UInt8 → Vendor} {q : Qspi} {m : QspiManuf} {d : QspiDevice}
    (h : SetTo tbl vendor q m d) :
    Driver.enterQuadMode q = pure .error ∨ Driver.enterQuadMode q = vendorSequence (vendor m.manufacturerID) q := by
  unfold Driver.enterQuadMode
  rcases h.pimpl with hp | hp
  · simp [hp]
  · cases hv : vendor m.manufacturerID <;> simp [hp, hv, vendorSequence]

/-! ## Every run -/

theorem named_row {tbl : List QspiManuf} {b : UInt8 × UInt8 × UInt8} {m : QspiManuf} {d : QspiDevice}
    (h : named tbl b = some (m, d)) : m ∈ rows tbl ∧ d ∈ m.known := by
  rw [named, lookup_eq, Option.bind_eq_some_iff] at h
  obtain ⟨m', hlast, hlook⟩ := h
  have hrow : m' ∈ rows tbl := List.mem_of_mem_filter (List.mem_of_getLast? hlast)
  unfold QspiManuf.lookup at hlook
  split at hlook
  · obtain ⟨d', hfind, heq⟩ := Option.map_eq_some_iff.mp hlook
    cases heq
    exact ⟨hrow, List.mem_of_find?_eq_some hfind⟩
  · cases hlook

variable {tbl : List QspiManuf} {vendor : UInt8 → Vendor}

theorem coherent_keeps (hfactory : ∀ m ∈ rows tbl, m.qspiFactory = some (vendor m.manufacturerID)) :
    KeepsIdentity (Env.any fun _ => True) tbl fun q _ => Coherent tbl vendor q := by
  apply keepsIdentity_any
  · constructor
    · intro q q' _ h hd hm hp
      refine ⟨fun h' => ?_, fun d h' => ?_⟩
      · rw [hm, hp]
        exact h.unset (hd.symm.trans h')
      · obtain ⟨m, hset⟩ := h.set d (hd.symm.trans h')
        exact ⟨m, hset.row, hset.device, hm.trans hset.pmanufacturer, by rw [hp]; exact hset.pimpl⟩
    · intro q _ h
      refine ⟨fun h' => ⟨(h.unset h').1, rfl⟩, fun d h' => ?_⟩
      obtain ⟨m, hset⟩ := h.set d h'
      exact ⟨m, hset.row, hset.device, hset.pmanufacturer, Or.inl rfl⟩
  · intro q m d b hb _
    obtain ⟨hrow, hdevice⟩ := named_row hb
    refine ⟨nofun, fun d' hd' => ?_⟩
    obtain rfl : d = d' := Option.some.inj hd'
    exact ⟨m, hrow, hdevice, rfl, Or.inr (hfactory m hrow)⟩

/-- In every reachable state the three fields name one row. The object `initialize` returns is
    the one its switch to quad mode ran on, so the sequence was that row's vendor's. -/
theorem coherent_reach {S : Type} {E : Env Call Call.Resp S}
    (hfactory : ∀ m ∈ rows tbl, m.qspiFactory = some (vendor m.manufacturerID)) {q : Qspi} {s : S}
    (h : Reach E (exec tbl) (fun _ => True) (fun q _ => Fresh q) q s) :
    ((∀ m ∈ rows tbl, m.manufacturerName ≠ none) → (q.pdevice = none ↔ q.pmanufacturer = none)) ∧
    (q.pdevice = none → q.pmanufacturer = none ∧ q.pimpl = none) ∧
    ∀ d, q.pdevice = some d → ∃ m, SetTo tbl vendor q m d ∧
      (enterQuadMode q = pure .error ∨ enterQuadMode q = vendorSequence (vendor m.manufacturerID) q) := by
  have hcoherent : Coherent tbl vendor q := by
    refine reach_any (I := Coherent tbl vendor) ?_ (fun o q _ hi => (coherent_keeps hfactory).exec o hi) h
    intro q _ hq
    refine ⟨fun _ => ⟨hq.pmanufacturer, hq.pimpl⟩, fun d hd => ?_⟩
    rw [hq.pdevice] at hd
    cases hd
  refine ⟨hcoherent.null_iff, hcoherent.unset, fun d hd => ?_⟩
  obtain ⟨m, hset⟩ := hcoherent.set d hd
  exact ⟨m, hset, hset.enterQuadMode⟩

/-! ## Two runs -/

/-- One operation of the object `q`, where every call goes well and the chip sends `id`. -/
def afterWell (tbl : List QspiManuf) (id : UInt8 × UInt8 × UInt8) (o : Op) (q : Qspi) : Qspi :=
  ((exec tbl o q).run (fun u c => (Initialised.goesWell id c, u)) ()).1.2

theorem afterWell_reach (tbl : List QspiManuf) (id : UInt8 × UInt8 × UInt8) (o : Op) {q : Qspi}
    (h : Reach (Env.any fun _ => True) (exec tbl) (fun _ => True) (fun q _ => Fresh q) q ()) :
    Reach (Env.any fun _ => True) (exec tbl) (fun _ => True) (fun q _ => Fresh q) (afterWell tbl id o q) () := by
  have hrun := (runs_run (E := Env.any fun _ => True) (I := fun _ => True)
    (f := fun u c => (Initialised.goesWell id c, u)) (fun _ _ _ => rfl) (fun _ _ _ => trivial)
    (exec tbl o q) (s := ()) trivial).1
  exact .op h trivial hrun

/-- The vendor classes of the driver's own tables. -/
def makerVendor (id : UInt8) : Vendor := if id = 0x20 then .micron else .winbond

theorem tables_vendor : ∀ m ∈ rows qspiManufacturers, m.qspiFactory = some (makerVendor m.manufacturerID) := by decide

/-- The first Micron device. -/
def mt25 : QspiDevice := ⟨0xBA18, 4096, some "MT25QL128ABA", 0, .none, .bits8, 8, 0, true⟩

/-- A Micron chip after a Winbond chip: the driver is set to the Micron row, with its vendor. -/
theorem coherent_changed : ∃ m, SetTo qspiManufacturers makerVendor
    (afterWell qspiManufacturers (0x20, 0xBA, 0x18) .initializeQspi
      (afterWell qspiManufacturers (0xEF, 0x70, 0x18) .initializeQspi freshDriver)) m mt25 := by
  have hreach := afterWell_reach qspiManufacturers (0x20, 0xBA, 0x18) .initializeQspi
    (afterWell_reach qspiManufacturers (0xEF, 0x70, 0x18) .initializeQspi (.init fresh_driver))
  obtain ⟨-, -, hset⟩ := coherent_reach tables_vendor hreach
  obtain ⟨m, hm, -⟩ := hset mt25 (by decide +kernel)
  exact ⟨m, hm⟩

/-- A table whose only row has no name. -/
def unnamedTable : List QspiManuf := [⟨0xEF, none, winbondDevices, some .winbond⟩, {}]

/-- Its chips are found, and the maker stays null. -/
theorem unnamed_row : ¬ ∀ (tbl : List QspiManuf) (vendor : UInt8 → Vendor), Ended tbl →
    (∀ m ∈ rows tbl, m.qspiFactory = some (vendor m.manufacturerID)) → ∀ q,
    Reach (Env.any fun _ => True) (exec tbl) (fun _ => True) (fun q _ => Fresh q) q () →
    (q.pdevice = none ↔ q.pmanufacturer = none) := by
  intro h
  have hreach := afterWell_reach unnamedTable (0xEF, 0x70, 0x18) .initializeQspi (.init fresh_driver)
  have hiff := h unnamedTable (fun _ => .winbond) ⟨by decide, by decide⟩ (by decide) _ hreach
  exact absurd hiff (by decide +kernel)

end QspiFlash.Driver
