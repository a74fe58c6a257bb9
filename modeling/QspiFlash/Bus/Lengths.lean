/-
  QspiFlash.Bus.Lengths — how many bytes the controller is told to move.

  On a bus without faults (`faultless`) the state is the NbData of the data phases issued so
  far. The length register takes NbData - 1 modulo 2^32, so that 0 moves 2^32 bytes (`moved`).
  Nothing rejects an empty request: `read` hands on its count, and the `do`-`while` loop of
  `write` programs a page before it looks at what is left. Only `do_write_block` looks at its
  data first, and finds none.

  - `writeLoop_lengths`: the pages of a write add up to its count.
  - `lengths_iff`: a call is told exact lengths if it asks for at least a byte, and for no more
    than a 32-bit length can say.
-/

import Mathlib.Algebra.GroupWithZero.Nat
import QspiFlash.Driver.Identity
import QspiFlash.Driver.Opened

namespace QspiFlash.Bus.Lengths

open Interact Driver

/-- Every call of the HAL goes well, and no wait times out. -/
def GoesWell : (c : Call) → c.Resp → Prop
  | .halCommand .., r | .halReceiveDMA _, r | .halTransmitDMA _, r | .halAutoPollingIT .., r => r = .ok
  | .timedWait _, r => r = true
  | _, _ => True

/-- The length of the data phase a question issues. -/
def phase : Call → List Nat
  | .halCommand cmd _ => if cmd.dataMode = .none then [] else [cmd.nbData]
  | _ => []

def faultless : Env Call Call.Resp (List Nat) where
  guard _ _ := True
  step l c r l' := GoesWell c r ∧ l' = l ++ phase c

/-- The bytes the controller moves: the register, NbData - 1 in 32 bits, and one more. -/
def moved (nbData : Nat) : Nat := (nbData + 2 ^ 32 - 1) % 2 ^ 32 + 1

/-- The calls that read or write data, with a `size_t` for their count. -/
def Transfers : Op → Prop
  | .read _ _ count | .write _ _ count | .readSector _ _ count | .writeSector _ _ count => count < 2 ^ 32
  | .doReadBlock .. | .doWriteBlock .. => True
  | _ => False

/-- The bytes a call has to move, if it always has to move the same number. -/
def Requested (q : Qspi) : Op → Option Nat
  | .read _ _ count | .write _ _ count | .readSector _ _ count | .writeSector _ _ count => some count
  | .doReadBlock _ _ nblocks => some (q.blockLogicalSizeBytes * nblocks)
  | _ => none

/-- No data phase is empty, and together they move what was requested. -/
structure Exact (request : Option Nat) (l : List Nat) : Prop where
  pos : ∀ nbData ∈ l, 1 ≤ nbData
  sum : ∀ n, request = some n → (l.map moved).sum = n

/-- At least a byte, and no more than a 32-bit length says. -/
def Sayable (request : Option Nat) : Prop := ∀ n, request = some n → 1 ≤ n ∧ n < 2 ^ 32

/-! ## Lengths that add up -/

/-- The data phases of a transfer of `n` bytes. -/
structure Pieces (n : Nat) (l : List Nat) : Prop where
  some : l ≠ []
  sum : l.sum = n
  pos : 0 < n → ∀ nbData ∈ l, 1 ≤ nbData

theorem pieces_one (n : Nat) : Pieces n [n] := by
  refine ⟨nofun, List.sum_singleton, fun hn nbData hmem => ?_⟩
  rw [List.mem_singleton] at hmem
  omega

theorem Pieces.cons {m n : Nat} {l : List Nat} (hm : 1 ≤ m) (h : Pieces n l) (hn : 0 < n) : Pieces (m + n) (m :: l) := by
  refine ⟨nofun, by simp [h.sum], fun _ => ?_⟩
  intro nbData hmem
  rcases List.mem_cons.mp hmem with rfl | hmem
  · exact hm
  · exact h.pos hn _ hmem

/-- A length that is not 0 and fits 32 bits is moved. -/
theorem moved_eq {n : Nat} (h1 : 1 ≤ n) (h2 : n < 2 ^ 32) : moved n = n := by
  unfold moved
  omega

theorem moved_sum {l : List Nat} (hpos : ∀ nbData ∈ l, 1 ≤ nbData) (hsum : l.sum < 2 ^ 32) :
    (l.map moved).sum = l.sum := by
  induction l with
  | nil => rfl
  | cons m l ih =>
    rw [List.sum_cons] at hsum
    rw [List.map_cons, List.sum_cons, List.sum_cons, moved_eq (hpos m List.mem_cons_self) (by omega),
      ih (fun nbData h => hpos nbData (List.mem_cons_of_mem _ h)) (by omega)]

/-- The data phases of a call: its request cut to 32 bits, or any that are not empty. -/
def Told : Option Nat → List Nat → Prop
  | some n, l => Pieces (n % 2 ^ 32) l
  | none, l => ∀ nbData ∈ l, 1 ≤ nbData

/-- They are exact exactly if there is something to move and it fits 32 bits. -/
theorem exact_iff {request : Option Nat} {l : List Nat} (h : Told request l) : Exact request l ↔ Sayable request := by
  cases request with
  | none => exact ⟨fun _ => nofun, fun _ => ⟨h, nofun⟩⟩
  | some n =>
    have hsum : l.sum = n % 2 ^ 32 := h.sum
    have hlt : l.sum < 2 ^ 32 := by omega
    constructor
    · intro hexact
      have htotal := hexact.sum n rfl
      rw [moved_sum hexact.pos hlt] at htotal
      intro n' hn'
      cases hn'
      cases l with
      | nil => exact absurd rfl h.some
      | cons m l =>
        have hpos := hexact.pos m List.mem_cons_self
        rw [List.sum_cons] at htotal hlt
        omega
    · intro hsay
      obtain ⟨h1, h2⟩ := hsay n rfl
      have hpos := h.pos (by omega)
      refine ⟨hpos, fun n' hn' => ?_⟩
      cases hn'
      rw [moved_sum hpos hlt]
      omega

/-! ## The data phases of a program -/

/-- From any state, `p` issues some data phases that go with its result as `Q` says. -/
def Issues {α : Type} (p : M α) (Q : α → List Nat → Prop) : Prop :=
  ∀ l, wp faultless p (fun a l' => ∃ ns, l' = l ++ ns ∧ Q a ns) l

variable {α β : Type} {p : M α} {Q : α → List Nat → Prop}

theorem issues_pure {a : α} (h : Q a []) : Issues (pure a) Q := fun l => wp_pure.mpr ⟨[], (List.append_nil l).symm, h⟩

theorem issues_ask {c : Call} {Q : c.Resp → List Nat → Prop} (h : ∀ r, GoesWell c r → Q r (phase c)) : Issues (ask c) Q :=
  fun _ => wp_ask.mpr ⟨trivial, fun r _ hs => ⟨phase c, hs.2, h r hs.1⟩⟩

theorem Issues.bind {f : α → M β} {R : β → List Nat → Prop} (hp : Issues p Q)
    (hf : ∀ a ns, Q a ns → Issues (f a) fun b ms => R b (ns ++ ms)) : Issues (p >>= f) R := by
  intro l
  refine wp_seq (hp l) ?_
  rintro a _ ⟨ns, rfl, hq⟩
  refine wp_mono (hf a ns hq _) ?_
  rintro b _ ⟨ms, rfl, hr⟩
  exact ⟨ns ++ ms, List.append_assoc .., hr⟩

theorem Issues.mono {R : α → List Nat → Prop} (h : Issues p Q) (hq : ∀ a ns, Q a ns → R a ns) : Issues p R := by
  intro l
  refine wp_mono (h l) ?_
  rintro a l' ⟨ns, hl, hns⟩
  exact ⟨ns, hl, hq a ns hns⟩

/-- It goes well and issues `ns`. -/
def Sends (p : M QspiResult) (ns : List Nat) : Prop := Issues p fun r l => r = .ok ∧ l = ns

theorem Sends.onOk {p k : M QspiResult} {ns : List Nat} {Q : QspiResult → List Nat → Prop} (hp : Sends p ns)
    (hk : Issues k fun r ms => Q r (ns ++ ms)) : Issues (onOk p k) Q := by
  refine Issues.bind hp ?_
  rintro _ _ ⟨rfl, rfl⟩
  rw [if_pos rfl]
  exact hk

theorem sends_command (cmd : QspiCommand) (t : Timeout) : Sends (qspiCommand cmd t) (phase (.halCommand cmd t)) := by
  intro l
  apply wp_qspiCommand trivial
  · exact fun s₁ hs => ⟨_, hs.2, rfl, rfl⟩
  · exact fun r s₁ hr hs => absurd hs.1 hr

theorem sends_halReceiveDMA (b : Ptr) : Sends (halReceiveDMA b) [] := fun _ =>
  wp_halReceiveDMA.mpr ⟨trivial, fun _ _ hs => ⟨[], hs.2, ofHal_eq_ok.mpr hs.1, rfl⟩⟩

theorem sends_halTransmitDMA (b : Ptr) : Sends (halTransmitDMA b) [] := fun _ =>
  wp_halTransmitDMA.mpr ⟨trivial, fun _ _ hs => ⟨[], hs.2, ofHal_eq_ok.mpr hs.1, rfl⟩⟩

theorem sends_halAutoPollingIT (cmd : QspiCommand) (cfg : QspiAutoPolling) :
    Sends (halAutoPollingIT cmd cfg) [] := fun _ =>
  wp_halAutoPollingIT.mpr ⟨trivial, fun _ _ hs => ⟨[], hs.2, ofHal_eq_ok.mpr hs.1, rfl⟩⟩

theorem sends_timedWait (t : Timeout) : Sends (timedWait t) [] := fun _ =>
  wp_timedWait.mpr ⟨trivial, fun _ _ hs => ⟨[], hs.2, if_pos hs.1, rfl⟩⟩

/-- Cache maintenance issues none. -/
theorem Issues.when {c : Prop} [Decidable c] {m : M Unit} (hm : m.All (Quiet faultless)) (hp : Issues p Q) :
    Issues (if c then m >>= fun _ => p else p) Q := fun l => wp_when (wp_allQuiet hm l) (hp l)

theorem quiet_phase {c : Call} (h : phase c = []) : Quiet faultless c := fun l =>
  ⟨trivial, fun _ _ hs => by rw [hs.2, h, List.append_nil]⟩

/-- Nor does a 32-bit result. -/
theorem issues_u32 {x : Nat} {f : Nat → M α} (h : Issues (f (x % 2 ^ 32)) Q) : Issues (u32 x >>= f) Q := by
  unfold u32
  split
  · rw [Nat.mod_eq_of_lt ‹_›] at h
    exact h
  · exact fun l => ⟨trivial, fun _ s' hs => ((quiet_phase rfl l).2 _ s' hs).symm ▸ h l⟩

/-! ## The operations -/

variable {q : Qspi} {d : QspiDevice}

theorem read_sends (hq : q.pdevice = some d) (a : Nat) (b : Ptr) (n : Nat) : Sends (Driver.read q a b n) [n] := by
  have hcache : (invalidateDcache b n).All (Quiet faultless) :=
    all_invalidateDcache (quiet_phase rfl) (fun _ _ => quiet_phase rfl) (quiet_phase rfl) b n
  unfold Driver.read
  rw [hq]
  refine (sends_command _ _).onOk (Issues.when hcache ?_)
  exact (sends_halReceiveDMA b).onOk ((sends_timedWait _).mono fun r l h => ⟨h.1, by rw [h.2]; rfl⟩)

theorem pageWrite_sends (a : Nat) (b : Ptr) (n : Nat) : Sends (pageWrite q a b n) [n] := by
  have hcache : (cleanDcache b n).All (Quiet faultless) :=
    all_cleanDcache (quiet_phase rfl) (fun _ _ => quiet_phase rfl) (quiet_phase rfl) b n
  refine (sends_command _ _).onOk ((sends_command _ _).onOk (Issues.when hcache ?_))
  refine (sends_halTransmitDMA b).onOk ((sends_timedWait _).onOk ((sends_halAutoPollingIT _ _).onOk ?_))
  exact (sends_timedWait _).mono fun r l h => ⟨h.1, by rw [h.2]; rfl⟩

/-- The pages add up. -/
theorem writeLoop_lengths (a : Nat) (b : Ptr) (n : Nat) : Issues (writeLoop q a b n) fun _ => Pieces n := by
  induction a, b, n using writeLoop.induct with
  | case1 a b n ih =>
    rw [writeLoop]
    have hsize := inBlockCount_eq a n
    refine (pageWrite_sends a b _).onOk (issues_u32 ?_)
    split
    · refine (ih _ ‹_›).mono fun r l h => ?_
      have hcons := h.cons (m := inBlockCount a n) (by omega) ‹_›
      rwa [Nat.add_sub_cancel' (by omega)] at hcons
    · refine issues_pure ?_
      rw [show inBlockCount a n = n by omega]
      exact pieces_one n

theorem write_lengths (hq : q.pdevice = some d) (a : Nat) (b : Ptr) (n : Nat) :
    Issues (write q a b n) fun _ => Pieces n := by
  unfold write
  rw [hq]
  exact writeLoop_lengths a b n

theorem read_lengths (hq : q.pdevice = some d) (a : Nat) (b : Ptr) (n : Nat) :
    Issues (Driver.read q a b n) fun _ => Pieces n :=
  (read_sends hq a b n).mono fun _ _ h => h.2 ▸ pieces_one n

/-- None of the data phases is empty. -/
def NoneEmpty {α : Type} (p : M α) : Prop := Issues p fun _ l => ∀ nbData ∈ l, 1 ≤ nbData

theorem composes_noneEmpty : Composes NoneEmpty where
  pure _ := issues_pure nofun
  bind hp hf := Issues.bind hp fun a ns hns => (hf a).mono fun _ ms hms nbData hmem =>
    (List.mem_append.mp hmem).elim (hns nbData) (hms nbData)
  mark c hc _ := issues_ask fun _ _ => by cases c <;> first | exact absurd hc id | exact nofun

theorem erase_noneEmpty (a : Nat) (which : Instruction) : NoneEmpty (erase q a which) := by
  have hnone : ∀ {ns : List Nat}, ns = [] → ∀ nbData ∈ ns, 1 ≤ nbData := by rintro _ rfl; exact nofun
  unfold erase
  split
  · exact issues_pure nofun
  · refine (sends_command _ _).onOk ((sends_command _ _).onOk ((sends_halAutoPollingIT _ _).onOk ?_))
    exact (sends_timedWait _).mono fun r l h => hnone h.2

/-- What the transfers issue, on a driver with a device. -/
theorem transfers_told (hq : q.pdevice = some d) (tbl : List QspiManuf) {o : Op} (ho : Transfers o) :
    Issues (exec tbl o q) fun _ => Told (Requested q o) := by
  have hkeep : ∀ {α : Type} {p : M α} {out : α → Out}, (Issues p fun _ => Told (Requested q o)) →
      Issues (keep q out p) fun _ => Told (Requested q o) := fun h =>
    h.bind fun a ns hns => issues_pure ((List.append_nil ns).symm ▸ hns)
  have hcount : ∀ {n : Nat} {l : List Nat}, n < 2 ^ 32 → Pieces n l → Pieces (n % 2 ^ 32) l := fun hn h =>
    (Nat.mod_eq_of_lt hn).symm ▸ h
  cases o with
  | read a b n => exact hkeep ((read_lengths hq a b n).mono fun _ _ => hcount ho)
  | write a b n => exact hkeep ((write_lengths hq a b n).mono fun _ _ => hcount ho)
  | readSector k b n =>
    apply hkeep
    rw [readSector, sectorSizeOf_eq hq]
    exact issues_u32 ((read_lengths hq _ b n).mono fun _ _ => hcount ho)
  | writeSector k b n =>
    apply hkeep
    rw [writeSector, sectorSizeOf_eq hq]
    exact issues_u32 ((write_lengths hq _ b n).mono fun _ _ => hcount ho)
  | doReadBlock b k n =>
    refine hkeep (issues_u32 (issues_u32 ((read_sends hq _ b _).bind ?_)))
    rintro _ _ ⟨rfl, rfl⟩
    rw [if_neg (not_not_intro rfl)]
    exact issues_pure (pieces_one _)
  | doWriteBlock b k n =>
    have hsize : NoneEmpty (sectorSizeOf q) := by
      rw [sectorSizeOf_eq hq]
      exact composes_noneEmpty.pure _
    refine hkeep (composes_noneEmpty.doWriteBlock (fun a => ?_) (fun a p m hm _ => ?_) hsize
      (fun a => erase_noneEmpty a _) ?_ b k n)
    · exact (read_sends hq a _ _).mono fun _ _ h => h.2 ▸ (pieces_one lbuffSize).pos (by decide)
    · exact (pageWrite_sends a p m).mono fun _ _ h => h.2 ▸ (pieces_one m).pos hm
    · exact fun n r => issues_ask fun _ _ => nofun
  | _ => exact absurd ho id

theorem faultless_total (l : List Nat) (c : Call) : ∃ r l', faultless.step l c r l' := by
  cases c with
  | timedWait | dcacheEnabled => exact ⟨true, _, by first | rfl | trivial, rfl⟩
  | load | nullDeref => exact ⟨0, _, trivial, rfl⟩
  | idBytes => exact ⟨(0, 0, 0), _, trivial, rfl⟩
  | _ => first | exact ⟨(), _, trivial, rfl⟩ | exact ⟨HalStatus.ok, _, by first | rfl | trivial, rfl⟩

/-- A program that issues a request issues it exactly, in every run, exactly if it can be said. -/
theorem exact_runs_iff {request : Option Nat} (h : Issues p fun _ => Told request) :
    (∀ a l, Runs faultless p [] a l → Exact request l) ↔ Sayable request := by
  have htold : ∀ {a : α} {l : List Nat}, Runs faultless p [] a l → Told request l := by
    intro a l hrun
    obtain ⟨ns, rfl, hns⟩ := wp_runs (h []) hrun
    exact hns
  constructor
  · intro hexact
    obtain ⟨a, l, hrun⟩ := run_total faultless_total p []
    exact (exact_iff (htold hrun)).mp (hexact a l hrun)
  · exact fun hsay a l hrun => (exact_iff (htold hrun)).mpr hsay

/-- On a driver with a device, the data phases of a transfer without faults are exact, in every
    run, exactly if it asks for at least a byte and fewer than 2^32. -/
theorem lengths_iff (hq : q.pdevice = some d) (tbl : List QspiManuf) {o : Op} (ho : Transfers o) :
    (∀ x l, Runs faultless (exec tbl o q) [] x l → Exact (Requested q o) l) ↔ Sayable (Requested q o) :=
  exact_runs_iff (transfers_told hq tbl ho)

/-- A write of 600 bytes and a read of a whole W25Q128JV. -/
theorem lengths_jv :
    (∀ x l, Runs faultless (exec qspiManufacturers (.write 250 ⟨.caller, 0x20020000, 0⟩ 600) jvDriver) [] x l →
      Exact (some 600) l) ∧
    ∀ x l, Runs faultless (exec qspiManufacturers (.doReadBlock ⟨.caller, 0x20020000, 0⟩ 0 4096) jvDriver) [] x l →
      Exact (some (4096 * 4096)) l := by
  have hwrite : Transfers (.write 250 ⟨.caller, 0x20020000, 0⟩ 600) := show 600 < 2 ^ 32 by decide
  have hread : Transfers (.doReadBlock ⟨.caller, 0x20020000, 0⟩ 0 4096) := trivial
  constructor
  · refine (lengths_iff (q := jvDriver) (d := jv) rfl qspiManufacturers hwrite).mpr ?_
    rintro n ⟨⟩
    decide
  · refine (lengths_iff (q := jvDriver) (d := jv) rfl qspiManufacturers hread).mpr ?_
    rintro n ⟨⟩
    decide

/-- An empty write programs a page: the length of its one data phase is 0. -/
theorem empty_write : ¬ ∀ (q : Qspi) (d : QspiDevice) (o : Op), q.pdevice = some d → Transfers o →
    ∀ x l, Runs faultless (exec qspiManufacturers o q) [] x l → Exact (Requested q o) l := by
  intro h
  have ho : Transfers (.write 0 ⟨.caller, 0x20020000, 0⟩ 0) := show 0 < 2 ^ 32 by decide
  have hexact := h jvDriver jv (.write 0 ⟨.caller, 0x20020000, 0⟩ 0) rfl ho
  have hsay := (exact_runs_iff (transfers_told (d := jv) rfl qspiManufacturers ho)).mp hexact
  exact absurd (hsay 0 rfl).1 (by decide)

end QspiFlash.Bus.Lengths
