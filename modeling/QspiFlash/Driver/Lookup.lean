/-
  QspiFlash.Driver.Lookup — the device lookup is exact for every table.

  `listen` answers as it likes; it keeps the ID bytes received and the factory calls made, a
  call through a null pointer as `none`, and does not allow the loops to run past the end of
  the table. `Exact` is what `read_JEDEC_ID` has to return and to leave for the bytes `b`:
  the last row that matches them, with its first device.

  - `lookup_exact`: on a table with its sentinels, it does, in every run that receives the bytes.
  - `lookup_eq`, `lookup_isSome`: what the loops look up, said without them.
-/

import Mathlib.Data.List.Induction
import Mathlib.Data.List.TakeWhile
import QspiFlash.Driver.Initialised

namespace QspiFlash.Driver

open Interact

/-- The device of the code `b1 * 256 + b2`. -/
def QspiDevice.HasCode (d : QspiDevice) (b : UInt8 × UInt8 × UInt8) : Prop :=
  d.deviceID.toNat = b.2.1.toNat * 256 + b.2.2.toNat

instance (d : QspiDevice) (b : UInt8 × UInt8 × UInt8) : Decidable (d.HasCode b) := Nat.decEq _ _

/-- The row of the maker `b0`, with a device of the code. -/
def QspiManuf.Matches (m : QspiManuf) (b : UInt8 × UInt8 × UInt8) : Prop :=
  m.manufacturerID = b.1 ∧ ∃ d ∈ m.known, d.HasCode b

instance (m : QspiManuf) (b : UInt8 × UInt8 × UInt8) : Decidable (m.Matches b) :=
  inferInstanceAs (Decidable (_ ∧ ∃ d ∈ m.known, d.HasCode b))

/-! ## What the loops look up -/

/-- The 16-bit sum of `read_JEDEC_ID` does not wrap. -/
theorem code_toNat (b : UInt8 × UInt8 × UInt8) :
    ((b.2.1.toUInt16 <<< 8) + b.2.2.toUInt16).toNat = b.2.1.toNat * 256 + b.2.2.toNat := by
  have h1 := b.2.1.toNat_lt
  have h2 := b.2.2.toNat_lt
  have hshift : b.2.1.toNat <<< ((8 : UInt16).toNat % 16) = b.2.1.toNat * 256 := Nat.shiftLeft_eq _ 8
  rw [UInt16.toNat_add, UInt16.toNat_shiftLeft, UInt8.toNat_toUInt16, UInt8.toNat_toUInt16, hshift]
  omega

theorem hasCode_iff (d : QspiDevice) (b : UInt8 × UInt8 × UInt8) :
    d.HasCode b ↔ d.deviceID = (b.2.1.toUInt16 <<< 8) + b.2.2.toUInt16 := by
  rw [← UInt16.toNat_inj, code_toNat, QspiDevice.HasCode]

theorem manuf_lookup (m : QspiManuf) (b : UInt8 × UInt8 × UInt8) :
    m.lookup b.1 ((b.2.1.toUInt16 <<< 8) + b.2.2.toUInt16) =
      if m.manufacturerID = b.1 then (m.known.find? (·.HasCode b)).map (m, ·) else none := by
  simp only [QspiManuf.lookup, hasCode_iff]

theorem lookup_isSome (m : QspiManuf) (b : UInt8 × UInt8 × UInt8) :
    (m.lookup b.1 ((b.2.1.toUInt16 <<< 8) + b.2.2.toUInt16)).isSome ↔ m.Matches b := by
  rw [manuf_lookup, QspiManuf.Matches]
  split
  · simp [*, List.find?_isSome]
  · simp [*]

/-- The rows that match, each with its first device: the last of them is found. -/
theorem lookup_eq (tbl : List QspiManuf) (mid : UInt8) (did : UInt16) :
    lookup tbl mid did = (matching tbl mid did).getLast?.bind (·.lookup mid did) := by
  have hfold : ∀ l : List QspiManuf, l.foldl (fun x m => (m.lookup mid did).or x) none =
      (l.filter fun m => (m.lookup mid did).isSome).getLast?.bind (·.lookup mid did) := by
    intro l
    induction l using List.reverseRecOn with
    | nil => rfl
    | append_singleton l m ih =>
      rw [List.foldl_append, List.foldl_cons, List.foldl_nil, ih, List.filter_append]
      cases h : m.lookup mid did with
      | none => simp [h]
      | some y => simp [h]
  exact hfold (rows tbl)

/-- The rows before the sentinel that the bytes match. -/
def rowsOf (tbl : List QspiManuf) (b : UInt8 × UInt8 × UInt8) : List QspiManuf :=
  matching tbl b.1 ((b.2.1.toUInt16 <<< 8) + b.2.2.toUInt16)

theorem mem_rowsOf (tbl : List QspiManuf) (b : UInt8 × UInt8 × UInt8) (m : QspiManuf) :
    m ∈ rowsOf tbl b ↔ m ∈ rows tbl ∧ m.Matches b := by
  rw [rowsOf, matching, List.mem_filter, lookup_isSome]

/-- Zero bytes match nothing: zero is the sentinels' ID. -/
theorem rowsOf_zero (tbl : List QspiManuf) {b : UInt8 × UInt8 × UInt8} (h : b.1 = 0 ∨ b.2.1 = 0 ∧ b.2.2 = 0) :
    rowsOf tbl b = [] := by
  rw [List.eq_nil_iff_forall_not_mem]
  intro m hm
  rw [mem_rowsOf] at hm
  obtain ⟨hrow, hid, d, hd, hcode⟩ := hm
  have hm0 : m.manufacturerID ≠ 0 := by simpa using List.mem_takeWhile_imp hrow
  have hd0 : d.deviceID ≠ 0 := by simpa using List.mem_takeWhile_imp hd
  rcases h with h | ⟨h1, h2⟩
  · exact hm0 (hid.trans h)
  · apply hd0
    rw [← UInt16.toNat_inj, hcode, h1, h2]
    rfl

/-- At most one row matches where the makers' IDs are distinct. -/
theorem rowsOf_distinct {tbl : List QspiManuf} (h : ((rows tbl).map (·.manufacturerID)).Nodup)
    (b : UInt8 × UInt8 × UInt8) :
    (rowsOf tbl b).length ≤ 1 := by
  have hsame : ∀ m ∈ rowsOf tbl b, m.manufacturerID = b.1 := fun m hm => ((mem_rowsOf tbl b m).mp hm).2.1
  have hsub : (rowsOf tbl b).Sublist (rows tbl) := List.filter_sublist
  have hnodup : ((rowsOf tbl b).map (·.manufacturerID)).Nodup := h.sublist (hsub.map _)
  rw [List.map_congr_left hsame, List.map_const', List.nodup_replicate] at hnodup
  exact hnodup

/-! ## What `read_JEDEC_ID` does -/

/-- What `listen` has seen. -/
structure Seen where
  id : Option (UInt8 × UInt8 × UInt8) := none
  calls : List (Option Vendor) := []

def Seen.next (s : Seen) : (c : Call) → c.Resp → Seen
  | .idBytes, b => { s with id := some b }
  | .qspiFactory v, _ => { s with calls := s.calls ++ [some v] }
  | .nullDeref, _ => { s with calls := s.calls ++ [none] }
  | _, _ => s

def listen : Env Call Call.Resp Seen := Env.monitor (fun _ c => c ≠ .overrun) Seen.next

/-- The result and the object for the bytes `b`, and the factory calls made. -/
structure Exact (tbl : List QspiManuf) (q : Qspi) (b : UInt8 × UInt8 × UInt8) (y : QspiResult × Qspi)
    (calls : List (Option Vendor)) : Prop where
  ok : y.1 = .ok ↔ ∃ m ∈ rows tbl, m.Matches b
  /-- The last row that matches, with its first device. -/
  found : ∀ m, (rowsOf tbl b).getLast? = some m → ∃ d, m.known.find? (·.HasCode b) = some d ∧
    y.2.pmanufacturer = m.manufacturerName ∧ y.2.pdevice = some d ∧ y.2.pimpl = m.qspiFactory
  called : calls = (rowsOf tbl b).map (·.qspiFactory)
  once : ((rows tbl).map (·.manufacturerID)).Nodup → y.1 = .ok → calls.length = 1
  missed : y.1 ≠ .ok → y.1 = .typeNotFound ∧ calls = [] ∧
    y.2.pmanufacturer = q.pmanufacturer ∧ y.2.pdevice = q.pdevice ∧ y.2.pimpl = q.pimpl
  zero : b.1 = 0 ∨ b.2.1 = 0 ∧ b.2.2 = 0 → y.1 = .typeNotFound

/-- Where no row matches. -/
theorem exact_missed {tbl : List QspiManuf} {q : Qspi} {b : UInt8 × UInt8 × UInt8} (h : rowsOf tbl b = []) :
    Exact tbl q b (.typeNotFound, q.withId b) ((rowsOf tbl b).map (·.qspiFactory)) where
  ok := by
    have hnone : ∀ m ∈ rows tbl, ¬ m.Matches b := by
      intro m hm hb
      have hmem : m ∈ rowsOf tbl b := (mem_rowsOf tbl b m).mpr ⟨hm, hb⟩
      simp [h] at hmem
    simpa using hnone
  found := by simp [h]
  called := rfl
  once := nofun
  missed _ := ⟨rfl, by simp [h], rfl, rfl, rfl⟩
  zero _ := rfl

/-- Where the row `m` is the last that matches. -/
theorem exact_found {tbl : List QspiManuf} {q : Qspi} {b : UInt8 × UInt8 × UInt8} {m : QspiManuf} {d : QspiDevice}
    (h : (rowsOf tbl b).getLast? = some m) (hd : m.known.find? (·.HasCode b) = some d) :
    Exact tbl q b (.ok, (q.withId b).identified m d) ((rowsOf tbl b).map (·.qspiFactory)) where
  ok := by
    have hm := (mem_rowsOf tbl b m).mp (List.mem_of_getLast? h)
    simpa using ⟨m, hm⟩
  found m' h' := by
    obtain rfl : m = m' := Option.some.inj (h.symm.trans h')
    exact ⟨d, hd, rfl, rfl, rfl⟩
  called := rfl
  once hnodup _ := by
    have hle := rowsOf_distinct hnodup b
    have hpos := List.length_pos_of_mem (List.mem_of_getLast? h)
    rw [List.length_map]
    omega
  missed h := absurd rfl h
  zero h0 := by simp [rowsOf_zero tbl h0] at h

theorem found_exact (tbl : List QspiManuf) (q : Qspi) (b : UInt8 × UInt8 × UInt8) :
    Exact tbl q b (Found (named tbl b) .typeNotFound (q.withId b)) ((rowsOf tbl b).map (·.qspiFactory)) := by
  rw [named, lookup_eq]
  cases h : (rowsOf tbl b).getLast? with
  | none =>
    rw [rowsOf] at h
    rw [h]
    exact exact_missed (List.getLast?_eq_none_iff.mp h)
  | some m =>
    have hm := (mem_rowsOf tbl b m).mp (List.mem_of_getLast? h)
    have hlook := (lookup_isSome m b).mpr hm.2
    rw [manuf_lookup, if_pos hm.2.1, Option.isSome_map, Option.isSome_iff_exists] at hlook
    obtain ⟨d, hd⟩ := hlook
    have hfound : (matching tbl b.1 ((b.2.1.toUInt16 <<< 8) + b.2.2.toUInt16)).getLast?.bind
        (·.lookup b.1 ((b.2.1.toUInt16 <<< 8) + b.2.2.toUInt16)) = some (m, d) := by
      rw [← rowsOf, h, Option.bind_some, manuf_lookup, if_pos hm.2.1, hd, Option.map_some]
    rw [hfound]
    exact exact_found h hd

theorem listen_calls : Calls listen fun v s => { s with calls := s.calls ++ [v] } := by
  intro v s
  cases v with
  | none => exact ⟨nofun, fun _ _ hs => ⟨rfl, hs⟩⟩
  | some v => exact ⟨nofun, fun _ _ hs => ⟨rfl, hs⟩⟩

/-- The rows matched add their factories to the calls. -/
theorem calls_foldl (l : List QspiManuf) (s : Seen) :
    l.foldl (fun s m => { s with calls := s.calls ++ [m.qspiFactory] }) s =
      { s with calls := s.calls ++ l.map (·.qspiFactory) } := by
  induction l generalizing s with
  | nil => simp
  | cons m l ih => simp [ih]

/-- Until the bytes come nothing is seen. -/
def Unseen : Call → Prop
  | .idBytes | .qspiFactory _ | .nullDeref | .overrun => False
  | _ => True

theorem unseen_keeps {α : Type} {p : M α} (hp : p.All Unseen) (s : Seen) : wp listen p (fun _ s' => s' = s) s := by
  refine wp_inv ?_ ?_ hp rfl
  · intro s₁ c hc _ h
    subst h
    exact hc
  · intro s₁ c r s₂ hc h hs
    rw [show s₂ = s₁.next c r from hs, h]
    cases c <;> first | rfl | exact absurd hc id

/-- Either no bytes are received, or the scan is exact for them. -/
theorem readJedecId_exact {tbl : List QspiManuf} (h : Ended tbl) (q : Qspi) :
    wp listen (readJedecId tbl q) (fun y s => ∀ b, s.id = some b → Exact tbl q b y s.calls) {} := by
  have hwait : (onOk halReceiveIT (timedWait .TIMEOUT)).All Unseen :=
    all_onOk ⟨trivial, fun _ => trivial⟩ ⟨trivial, fun _ => trivial⟩
  refine wp_seq (unseen_keeps (all_onOk (all_qspiCommand trivial trivial) hwait) {}) ?_
  intro r s hs
  subst hs
  refine wp_ite (fun _ => ?_) fun _ => nofun
  refine wp_bind.mpr (wp_ask.mpr ⟨nofun, ?_⟩)
  intro b s hs
  rw [show s = { id := some b } from hs]
  refine wp_mono (scanTable_spec listen_calls tbl (Or.inl h) .typeNotFound (q.withId b) _) ?_
  intro y s₁ hy b' hb
  obtain ⟨rfl, rfl⟩ := hy
  rw [calls_foldl] at hb ⊢
  obtain rfl : b = b' := Option.some.inj hb
  exact found_exact tbl q b

/-- Where every call goes well the bytes are received, whatever they are. -/
theorem readJedecId_receives (tbl : List QspiManuf) (h : Ended tbl) (q : Qspi) (b : UInt8 × UInt8 × UInt8) :
    ∃ y s, Runs listen (readJedecId tbl q) {} y s ∧ s.id = some b := by
  have hbytes : Runs listen (onOk (qspiCommand
      { instruction := .JEDEC_ID, instructionMode := .one, dataMode := .one, nbData := 3 } .TIMEOUT) <|
        onOk halReceiveIT <| timedWait .TIMEOUT) {} .ok {} := by
    apply runs_onOk_ok (runs_qspiCommand {} rfl)
    have hreceive : Runs listen halReceiveIT {} .ok {} := .call (r := .ok) rfl (.ret _ _)
    have hwait : Runs listen (timedWait .TIMEOUT) {} .ok {} := .call (r := true) rfl (.ret _ _)
    exact runs_onOk_ok hreceive hwait
  obtain ⟨y, s, hscan⟩ := run_total (E := listen) (fun s c => ⟨Initialised.goesWell b c, _, rfl⟩)
    (scanManufacturers tbl .typeNotFound (q.withId b)) { id := some b }
  have hs := wp_runs (scanTable_spec listen_calls tbl (Or.inl h) .typeNotFound (q.withId b) _) hscan
  rw [calls_foldl] at hs
  have hid : Runs listen (ask .idBytes) {} b { id := some b } := .call rfl (.ret b _)
  exact ⟨y, s, hbytes.bind (hid.bind hscan), by rw [hs.2]⟩

/-- The nested scan stays within the sentinels, some run receives the bytes, whatever they
    are, and in each that does it is exact for them. -/
theorem lookup_exact {tbl : List QspiManuf} (h : Ended tbl) (q : Qspi) :
    (∀ c s, Asks listen (readJedecId tbl q) {} c s → c ≠ .overrun) ∧
    (∀ b, ∃ y s, Runs listen (readJedecId tbl q) {} y s ∧ s.id = some b) ∧
    ∀ y s b, Runs listen (readJedecId tbl q) {} y s → s.id = some b → Exact tbl q b y s.calls := by
  refine ⟨?_, readJedecId_receives tbl h q, ?_⟩
  · exact fun c s => wp_asks (readJedecId_exact h q)
  · exact fun y s b hr => wp_runs (readJedecId_exact h q) hr b

/-- The driver's own tables have their sentinels: a W25Q128JV is found in the Winbond row. -/
theorem lookup_exact_jv : ∃ y s, Runs listen (readJedecId qspiManufacturers freshDriver) {} y s ∧ y.1 = .ok ∧
    s.calls = [some .winbond] ∧ y.2.pdevice = some jv := by
  have h : Ended qspiManufacturers := ⟨by decide, by decide⟩
  obtain ⟨-, hruns, hexact⟩ := lookup_exact h freshDriver
  obtain ⟨y, s, hr, hid⟩ := hruns (0xEF, 0x70, 0x18)
  have hx := hexact y s _ hr hid
  obtain ⟨d, hd, -, hdev, -⟩ := hx.found ⟨0xEF, some "Winbond", winbondDevices, some .winbond⟩ (by decide)
  obtain rfl : jv = d := Option.some.inj (Eq.trans (by decide) hd)
  exact ⟨y, s, hr, hx.ok.mpr (by decide), hx.called.trans (by decide), hdev⟩

end QspiFlash.Driver
