/-
  QspiFlash.Driver.Identify — what `read_JEDEC_ID` makes of three ID bytes.

  `lookup` is the row and the device the two loops end with: the loops do not stop at a
  match, so it is the last row that matches, with its first device. `Found` is the object
  the driver keeps then.

  - `scanTable_spec`: the loops compute `lookup`, and call a factory for each row in `matching`.
  - `scan_spec`, `identify_spec`: where these calls do nothing, they touch nothing.
  - `named_known`: the ID of each device of the tables stands for that device.
-/

import Mathlib.Data.List.Basic
import QspiFlash.Driver.Rules

namespace QspiFlash.Driver

open Interact

/-- The rows before the sentinel. -/
def rows (tbl : List QspiManuf) : List QspiManuf := tbl.takeWhile (·.manufacturerID ≠ 0)

/-- The devices of a row, before the sentinel. -/
def QspiManuf.known (m : QspiManuf) : List QspiDevice := m.devices.takeWhile (·.deviceID ≠ 0)

/-- The match of one row. -/
def QspiManuf.lookup (m : QspiManuf) (mid : UInt8) (did : UInt16) : Option (QspiManuf × QspiDevice) :=
  if m.manufacturerID = mid then (m.known.find? (·.deviceID = did)).map (m, ·) else none

def lookup (tbl : List QspiManuf) (mid : UInt8) (did : UInt16) : Option (QspiManuf × QspiDevice) :=
  (rows tbl).foldl (fun x m => (m.lookup mid did).or x) none

/-- The object once the device `d` of the row `m` is found. -/
def Qspi.identified (q : Qspi) (m : QspiManuf) (d : QspiDevice) : Qspi :=
  { q with pmanufacturer := m.manufacturerName, pdevice := some d, pimpl := m.qspiFactory }

/-- The result and the object a lookup leaves, on top of what was there. -/
def Found (x : Option (QspiManuf × QspiDevice)) (result : QspiResult) (q : Qspi) : QspiResult × Qspi :=
  x.elim (result, q) fun y => (.ok, q.identified y.1 y.2)

theorem rows_cons (m : QspiManuf) (tbl : List QspiManuf) :
    rows (m :: tbl) = if m.manufacturerID = 0 then [] else m :: rows tbl := by
  unfold rows
  rw [List.takeWhile_cons]
  by_cases h : m.manufacturerID = 0 <;> simp [h]

/-! ## The loops -/

/-- The questions of the two loops. -/
def Looks : Call → Prop
  | .qspiFactory _ | .nullDeref | .overrun => True
  | _ => False

variable {S : Type} {E : Env Call Call.Resp S}

/-- A factory call does `call` to the environment, one through a null pointer too. -/
def Calls (E : Env Call Call.Resp S) (call : Option Vendor → S → S) : Prop :=
  ∀ v s, wp E (callFactory v) (fun r s' => r = v ∧ s' = call v s) s

theorem quiet_calls (hE : ∀ c, Looks c → Quiet E c) : Calls E fun _ s => s := by
  intro v s
  cases v with
  | none => exact wp_bind.mpr (wp_quiet (hE .nullDeref trivial) fun _ => ⟨rfl, rfl⟩)
  | some v => exact wp_bind.mpr (wp_quiet (hE (.qspiFactory v) trivial) fun _ => ⟨rfl, rfl⟩)

variable {call : Option Vendor → S → S}

theorem scanDevices_spec (hcall : Calls E call) (m : QspiManuf) (ds : List QspiDevice)
    (hend : (∃ d ∈ ds, d.deviceID = 0) ∨ Quiet E .overrun) (result : QspiResult) (q : Qspi) (s : S) :
    wp E (scanDevices m ds result q) (fun y s' =>
      y = Found (((ds.takeWhile (·.deviceID ≠ 0)).find? (·.deviceID = q.memoryType)).map (m, ·)) result q ∧
      s' = if ((ds.takeWhile (·.deviceID ≠ 0)).find? (·.deviceID = q.memoryType)).isSome then call m.qspiFactory s else s) s := by
  induction ds with
  | nil =>
    rcases hend with ⟨d, hd, -⟩ | hover
    · cases hd
    · exact wp_bind.mpr (wp_quiet hover fun _ => ⟨rfl, rfl⟩)
  | cons d ds ih =>
    rw [scanDevices]
    by_cases h0 : d.deviceID = 0
    · rw [if_pos h0]
      exact ⟨by simp [h0, Found], by simp [h0]⟩
    · rw [if_neg h0]
      by_cases hd : d.deviceID = q.memoryType
      · rw [if_pos hd]
        refine wp_seq (hcall m.qspiFactory s) ?_
        intro v s' h
        obtain ⟨rfl, rfl⟩ := h
        rw [hd] at h0
        exact ⟨by simp [h0, hd, Found, Qspi.identified], by simp [h0, hd]⟩
      · rw [if_neg hd]
        have hrest : (∃ d ∈ ds, d.deviceID = 0) ∨ Quiet E .overrun := by
          rcases hend with ⟨d', hmem, hz⟩ | hover
          · rcases List.mem_cons.mp hmem with rfl | hmem
            · exact absurd hz h0
            · exact Or.inl ⟨d', hmem, hz⟩
          · exact Or.inr hover
        refine wp_mono (ih hrest) ?_
        intro y s' h
        obtain ⟨rfl, rfl⟩ := h
        exact ⟨by simp [h0, hd], by simp [h0, hd]⟩

theorem scanRow_spec (hcall : Calls E call) {m : QspiManuf} (hend : (∃ d ∈ m.devices, d.deviceID = 0) ∨ Quiet E .overrun)
    {q : Qspi} (hm : m.manufacturerID = q.manufacturerID) (result : QspiResult) (s : S) :
    wp E (scanDevices m m.devices result q) (fun y s' =>
      y = Found (m.lookup q.manufacturerID q.memoryType) result q ∧
      s' = if (m.lookup q.manufacturerID q.memoryType).isSome then call m.qspiFactory s else s) s := by
  unfold QspiManuf.lookup
  rw [if_pos hm, Option.isSome_map]
  exact scanDevices_spec hcall m m.devices hend result q s

theorem found_ids (x : Option (QspiManuf × QspiDevice)) (result : QspiResult) (q : Qspi) :
    (Found x result q).2.manufacturerID = q.manufacturerID ∧ (Found x result q).2.memoryType = q.memoryType := by
  cases x <;> exact ⟨rfl, rfl⟩

/-- What the rest of the table finds takes the place of what was found before. -/
theorem foldl_or (mid : UInt8) (did : UInt16) (x : Option (QspiManuf × QspiDevice)) (l : List QspiManuf) :
    l.foldl (fun x m => (m.lookup mid did).or x) x = (l.foldl (fun x m => (m.lookup mid did).or x) none).or x := by
  induction l generalizing x with
  | nil => rfl
  | cons m l ih =>
    rw [List.foldl_cons, List.foldl_cons, ih, ih ((m.lookup mid did).or none), Option.or_none, Option.or_assoc]

theorem lookup_cons (m : QspiManuf) (tbl : List QspiManuf) (mid : UInt8) (did : UInt16) :
    lookup (m :: tbl) mid did = if m.manufacturerID = 0 then none else (lookup tbl mid did).or (m.lookup mid did) := by
  unfold lookup
  rw [rows_cons]
  split
  · rfl
  · rw [List.foldl_cons, foldl_or, Option.or_none]

theorem found_found (x y : Option (QspiManuf × QspiDevice)) (result : QspiResult) (q : Qspi) :
    Found x (Found y result q).1 (Found y result q).2 = Found (x.or y) result q := by
  cases x <;> cases y <;> rfl

/-- The rows that match, in the order of the table. -/
def matching (tbl : List QspiManuf) (mid : UInt8) (did : UInt16) : List QspiManuf :=
  (rows tbl).filter fun m => (m.lookup mid did).isSome

/-- A sentinel ends the rows, and one the devices of each row before it. -/
structure Ended (tbl : List QspiManuf) : Prop where
  table : ∃ m ∈ tbl, m.manufacturerID = 0
  devices : ∀ m ∈ rows tbl, ∃ d ∈ m.devices, d.deviceID = 0

theorem Ended.tail {m : QspiManuf} {tbl : List QspiManuf} (h : Ended (m :: tbl)) (h0 : m.manufacturerID ≠ 0) :
    Ended tbl := by
  obtain ⟨⟨m', hmem, hz⟩, hdev⟩ := h
  rw [rows_cons, if_neg h0] at hdev
  refine ⟨?_, fun m' hm' => hdev m' (List.mem_cons_of_mem _ hm')⟩
  rcases List.mem_cons.mp hmem with rfl | hmem
  · exact absurd hz h0
  · exact ⟨m', hmem, hz⟩

/-- The loops compute the lookup and call the factory of each row that matches. -/
theorem scanTable_spec (hcall : Calls E call) (tbl : List QspiManuf) (hend : Ended tbl ∨ Quiet E .overrun)
    (result : QspiResult) (q : Qspi) (s : S) : wp E (scanManufacturers tbl result q) (fun y s' =>
      y = Found (lookup tbl q.manufacturerID q.memoryType) result q ∧
      s' = (matching tbl q.manufacturerID q.memoryType).foldl (fun s m => call m.qspiFactory s) s) s := by
  induction tbl generalizing result q s with
  | nil =>
    rcases hend with ⟨⟨m, hm, -⟩, -⟩ | hover
    · cases hm
    · exact wp_bind.mpr (wp_quiet hover fun _ => ⟨rfl, rfl⟩)
  | cons m tbl ih =>
    rw [scanManufacturers, lookup_cons, matching, rows_cons]
    by_cases h0 : m.manufacturerID = 0
    · rw [if_pos h0, if_pos h0, if_pos h0]
      exact ⟨rfl, rfl⟩
    · rw [if_neg h0, if_neg h0, if_neg h0, List.filter_cons]
      have htail := ih (hend.imp_left fun h => h.tail h0)
      by_cases hm : m.manufacturerID = q.manufacturerID
      · rw [if_pos hm]
        have hrow : (∃ d ∈ m.devices, d.deviceID = 0) ∨ Quiet E .overrun :=
          hend.imp_left fun h => h.devices m (by rw [rows_cons, if_neg h0]; exact List.mem_cons_self)
        refine wp_seq (scanRow_spec hcall hrow hm result s) ?_
        intro y s' h
        obtain ⟨rfl, rfl⟩ := h
        have h := htail (Found (m.lookup q.manufacturerID q.memoryType) result q).1
          (Found (m.lookup q.manufacturerID q.memoryType) result q).2
          (if (m.lookup q.manufacturerID q.memoryType).isSome then call m.qspiFactory s else s)
        rw [(found_ids _ _ _).1, (found_ids _ _ _).2, found_found] at h
        split at h <;> simpa [*, matching] using h
      · rw [if_neg hm, QspiManuf.lookup, if_neg hm, Option.or_none]
        exact htail result q s

theorem scan_spec (hE : ∀ c, Looks c → Quiet E c) (tbl : List QspiManuf) (result : QspiResult) (q : Qspi) (s : S) :
    wp E (scanManufacturers tbl result q) (fun y s' => s' = s ∧
      y = Found (lookup tbl q.manufacturerID q.memoryType) result q) s := by
  refine wp_mono (scanTable_spec (quiet_calls hE) tbl (Or.inr (hE .overrun trivial)) result q s) ?_
  intro y s' h
  obtain ⟨hy, rfl⟩ := h
  exact ⟨List.foldl_fixed _, hy⟩

/-! ## The bytes -/

/-- The row and the device three ID bytes stand for. -/
def named (tbl : List QspiManuf) (b : UInt8 × UInt8 × UInt8) : Option (QspiManuf × QspiDevice) :=
  lookup tbl b.1 ((b.2.1.toUInt16 <<< 8) + b.2.2.toUInt16)

theorem identify_spec (hE : ∀ c, Looks c → Quiet E c) (tbl : List QspiManuf) (q : Qspi) {s : S}
    {P : UInt8 × UInt8 × UInt8 → S → Prop} (hg : E.guard s .idBytes) (hb : ∀ b s', E.step s .idBytes b s' → P b s') :
    wp E (identify tbl q) (fun y s' => ∃ b, P b s' ∧ y = Found (named tbl b) .typeNotFound (q.withId b)) s := by
  refine wp_bind.mpr (wp_ask.mpr ⟨hg, ?_⟩)
  intro b s' hs
  refine wp_mono (scan_spec hE tbl .typeNotFound (q.withId b) s') ?_
  intro y s₁ h
  obtain ⟨rfl, rfl⟩ := h
  exact ⟨b, hb b s₁ hs, rfl⟩

/-- The bytes of a device of the tables stand for it: no two have the same. -/
theorem named_known : ∀ m ∈ qspiManufacturers, ∀ d ∈ m.known,
    named qspiManufacturers (m.manufacturerID, (d.deviceID >>> 8).toUInt8, d.deviceID.toUInt8) = some (m, d) := by
  decide

end QspiFlash.Driver
