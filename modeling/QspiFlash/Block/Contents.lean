/-
  QspiFlash.Block.Contents — what the flash holds after any calls of the data path, whatever failed.

  Any reads, writes and erases, of bytes, sectors and blocks, in any order and each on a bus
  that may fail or not as `Bus.Nor` does, which posts no event late and has the chip idle for
  the next command. `changes` says what a call that returned does to each byte: a write
  that went well clears bits, an erase sets its unit to 0xFF, a block write sets its blocks;
  one that failed leaves its own pages, unit or blocks with any content. A block write may
  let the failure of an `erase_sector` go, so on a faulty bus it says nothing of the sectors
  in `F`, whose erase may fail.

  - `exec_moves`: one call, in any state of the bus.
  - `contents_known`: the flash agrees with what is known of it, every read that went well
    returned the bytes known then, no call touches any other memory of its caller, and a call
    on a bus without faults goes well.
  - `contents_exact`: on a bus without faults the calls of any list return, and all of the
    flash is known.
-/

import QspiFlash.Nor.Changes
import QspiFlash.Block.Store
import QspiFlash.Driver.Api

namespace QspiFlash.Block.Contents

open Interact Driver Bus.Nor
open NorArray (Bytes Change Changes Leads known)
open Store (callerMem)

/-! ## What a call addresses -/

section Call

variable (Z : Nat)

/-- The first address of a call on sectors of `Z` bytes. -/
def address : Op → Nat
  | .read a _ _ | .write a _ _ | .eraseBlock32K a | .eraseBlock64K a => a
  | .readSector k _ _ | .writeSector k _ _ | .eraseSector k | .doReadBlock _ k _ | .doWriteBlock _ k _ => k * Z
  | _ => 0

/-- The bytes it reads or writes; an erase is in range when its address is. -/
def count : Op → Nat
  | .read _ _ n | .write _ _ n | .readSector _ _ n | .writeSector _ _ n => n
  | .doReadBlock _ _ n | .doWriteBlock _ _ n => n * Z
  | _ => 1

/-- The buffer it reads into. -/
def into : Op → Option Ptr
  | .read _ p _ | .readSector _ p _ | .doReadBlock p _ _ => some p
  | _ => none

/-- The buffer it writes from. -/
def source : Op → Option Ptr
  | .write _ p _ | .writeSector _ p _ | .doWriteBlock p _ _ => some p
  | _ => none

/-- A call of the data path for bytes the device has, with a buffer of its caller. -/
structure InRange (d : QspiDevice) (o : Op) : Prop where
  data : DataOp o
  nonempty : 0 < count d.sectorSize.toNat o
  fits : address d.sectorSize.toNat o + count d.sectorSize.toNat o ≤ d.capacity
  intoCaller : ∀ p, into o = some p → p.region = .caller
  fromCaller : ∀ p, source o = some p → p.region = .caller

/-- Did it return that it went well? -/
def succeeded : Op → Out → Bool
  | .doReadBlock _ _ n, .value r | .doWriteBlock _ _ n, .value r => r = n
  | _, .result r => r = .ok
  | _, _ => false

/-- A program of the `n` bytes `data` at `a`. -/
def programs (ok : Bool) (a n : Nat) (data : Bytes) : Changes :=
  if ok then .on (fun x => a ≤ x ∧ x < a + n) fun x => .clear (data (x - a))
  else .on (fun x => a / 256 ≤ x / 256 ∧ x / 256 ≤ (a + n - 1) / 256) fun _ => .lose

/-- An erase of the aligned `U` bytes around `a`. -/
def erasesUnit (ok : Bool) (U a : Nat) : Changes :=
  .on (fun x => x / U = a / U) fun _ => if ok then .set 0xFF else .lose

/-- What a call does to the flash, by what it returned; its caller's memory is `mem`. On a
    bus with faults, nothing is said of a block in `F`. -/
def changes (F : Nat → Prop) [DecidablePred F] (faults : Bool) (o : Op) (mem : Nat → UInt8) (out : Out) : Changes :=
  match o with
  | .write a p n => programs (succeeded o out) a n fun i => mem (p.off + i)
  | .writeSector k p n => programs (succeeded o out) (k * Z) n fun i => mem (p.off + i)
  | .eraseSector k => erasesUnit (succeeded o out) Z (k * Z)
  | .eraseBlock32K a => erasesUnit (succeeded o out) 0x8000 a
  | .eraseBlock64K a => erasesUnit (succeeded o out) 0x10000 a
  | .eraseChip => fun _ => if succeeded o out then .set 0xFF else .lose
  | .doWriteBlock p k n => .on (fun x => k * Z ≤ x ∧ x < (k + n) * Z) fun x =>
      if succeeded o out = true ∧ ¬ (faults = true ∧ F (x / Z)) then .set (mem (p.off + (x - k * Z))) else .lose
  | _ => fun _ => .keep

end Call

/-! ## One call -/

variable {b : Params} {q : Qspi} {d : QspiDevice}

/-- What a call left: it reads `n` bytes at `a` into `p`, if it has a buffer to read into. -/
structure Moves (b : Params) (p : Option Ptr) (a n : Nat) (c : Changes) (ok : Bool) (s s' : St) : Prop where
  flash : c.Does s.flash s'.flash
  retry : s'.retry = false
  frame : ∀ o, (∀ p', p = some p' → ¬ (p'.off ≤ o ∧ o < p'.off + n)) → s'.mem .caller o = s.mem .caller o
  read : ok = true → ∀ p', p = some p' → ∀ i, i < n → s'.mem .caller (p'.off + i) = s.flash (a + i)
  failed : ok = false → b.faults = true

/-- On a bus with the device's sectors that decodes its addresses. -/
structure Carries (b : Params) (d : QspiDevice) : Prop where
  sector : b.sectorSize = d.sectorSize.toNat
  pos : 0 < d.sectorSize.toNat
  pages : 256 ∣ d.sectorSize.toNat
  reach : d.capacity ≤ 2 ^ b.addrBits

theorem read_moves (hq : q.pdevice = some d) (hb : Carries b d) {a n : Nat} (hfits : a + n ≤ d.capacity) {p : Ptr}
    (hp : p.region = .caller) {s : St} (hs : s.retry = false) :
    wp (nor b) (Driver.read q a p n) (fun r s' => Moves b (some p) a n (fun _ => .keep) (r = .ok) s s') s := by
  have hreach := hb.reach
  refine wp_mono (read_spec hq a p n hs) ?_
  intro r s' hr
  refine ⟨fun x => ?_, hr.retry, fun o ho => hr.frame _ _ fun h => ho p rfl h.2, fun hok p' hp' i hi => ?_, fun hne => ?_⟩
  · exact congrFun hr.flash x
  · obtain rfl := Option.some.inj hp'
    rw [hr.ok (of_decide_eq_true hok), ← hp, fill_on hi]
    unfold decode
    rw [Nat.mod_eq_of_lt (by omega)]
  · exact hr.failed (of_decide_eq_false hne)

theorem write_moves (hq : q.pdevice = some d) (hb : Carries b d) {a n : Nat} (hn : 0 < n) (hfits : a + n ≤ d.capacity)
    {p : Ptr} (hp : p.region = .caller) {s : St} (hs : s.retry = false) :
    wp (nor b) (Driver.write q a p n) (fun r s' => Moves b none a n
      (programs (r = .ok) a n fun i => s.mem .caller (p.off + i)) (r = .ok) s s') s := by
  have hreach := hb.reach
  have hcap := capacity_le d
  refine wp_mono (write_spec hq p hn (by omega) (by omega) hs) ?_
  intro r s' hw
  refine ⟨?_, hw.within.retry, fun o _ => by rw [hw.within.mem], fun _ p' hp' => (by cases hp'), fun hne => ?_⟩
  · unfold programs
    by_cases hr : r = .ok
    · rw [if_pos (decide_eq_true hr), (hw.ok hr).1]
      refine Changes.does_on (fun x hx => NorArray.andRange_off _ _ hx) fun x hx => ?_
      show _ = s.flash x &&& s.mem .caller (p.off + (x - a))
      rw [← hp]
      exact if_pos hx
    · rw [if_neg fun h => hr (of_decide_eq_true h)]
      exact Changes.does_on (fun x hx => hw.within.flash x hx) fun _ _ => trivial
  · exact hw.failed (of_decide_eq_false hne)

/-- An erase, of a unit or of the chip. -/
theorem erase_moves {p : M QspiResult} {which : Instruction} {t : Target} {c : Bool → Changes} {a n : Nat} {s : St}
    (h : wp (nor b) p (ErasePost b s which t) s) (hok : (c true).Does s.flash (t.erased s.flash))
    (hfail : ∀ g, (∀ x, ¬ t.Has x → g x = s.flash x) → (c false).Does s.flash g) :
    wp (nor b) p (fun r s' => Moves b none a n (c (r = .ok)) (r = .ok) s s') s := by
  refine wp_mono h ?_
  intro r s' he
  refine ⟨?_, he.within.retry, fun o _ => by rw [he.within.mem], fun _ p' hp' => (by cases hp'), fun hne => ?_⟩
  · by_cases hr : r = .ok
    · rw [decide_eq_true hr, (he.ok hr).1]
      exact hok
    · rw [decide_eq_false hr]
      exact hfail _ he.within.flash
  · exact he.failed (of_decide_eq_false hne)

theorem erase_unit_moves (hq : q.pdevice = some d) {a x : Nat} {which : Instruction} {U : Nat} {n : Nat}
    (ht : ∀ cmd : QspiCommand, cmd.instruction = which → cmd.address = x → eraseTarget b cmd = some (.unit U a))
    {s : St} (hs : s.retry = false) :
    wp (nor b) (erase q x which) (fun r s' => Moves b none a n (erasesUnit (r = .ok) U a) (r = .ok) s s') s := by
  apply erase_moves (c := fun ok => erasesUnit ok U a) (erase_spec hq ht hs)
  · exact Changes.does_on (fun x hx => if_neg hx) fun x hx => if_pos hx
  · exact fun g hg => Changes.does_on (fun x hx => hg x hx) fun _ _ => trivial

theorem InRange.span (ho : Opened q d) (hb : Carries b d) {k n : Nat} (hn : 0 < n * d.sectorSize.toNat)
    (hfits : k * d.sectorSize.toNat + n * d.sectorSize.toNat ≤ d.capacity) : Span b q k n := by
  refine span_of_opened ho hb.sector hb.pos hb.pages hb.reach (Nat.pos_of_mul_pos_right hn) ?_
  have hcount : q.numBlocks = d.capacity / d.sectorSize.toNat := by
    rw [ho.numBlocks, getSectorCount, ho.pdevice]
  rw [hcount, Nat.le_div_iff_mul_le hb.pos, Nat.add_mul]
  exact hfits

theorem readBlock_moves (ho : Opened q d) (hb : Carries b d) {k n : Nat} (hn : 0 < n * d.sectorSize.toNat)
    (hfits : k * d.sectorSize.toNat + n * d.sectorSize.toNat ≤ d.capacity) {p : Ptr} (hp : p.region = .caller) {s : St}
    (hs : s.retry = false) : wp (nor b) (doReadBlock q p k n) (fun r s' => Moves b (some p) (k * d.sectorSize.toNat)
      (n * d.sectorSize.toNat) (fun _ => .keep) (r = n) s s') s := by
  refine wp_mono (doReadBlock_spec (InRange.span ho hb hn hfits) p hs) ?_
  intro r s' hpost
  obtain ⟨hflash, -, hret, hfail, hframe, hok⟩ := hpost
  rw [hb.sector] at hframe hok
  refine ⟨fun x => congrFun hflash x, hret, fun o ho' => hframe _ _ fun h => ho' p rfl h.2, fun h p' hp' i hi => ?_,
    fun h => ?_⟩
  · obtain rfl := Option.some.inj hp'
    have hread := hok (of_decide_eq_true h) i hi
    unfold bytesAt at hread
    rwa [hp] at hread
  · exact (hfail (of_decide_eq_false h)).2

/-- What a block write that returned `nblocks` wrote, where no erase failed unseen. -/
theorem written {s s' : St} {p : Ptr} {k n : Nat} {r : Int} (hpos : 0 < b.sectorSize)
    (h : WriteBlockPost b s p k n r s') (hr : r = n) {x : Nat} (hx : InBlocks b k n x)
    (hF : ¬ (b.faults = true ∧ b.eraseMayFail (x / b.sectorSize))) :
    s'.flash x = bytesAt s p (x - k * b.sectorSize) := by
  have hsum : (k + n) * b.sectorSize = k * b.sectorSize + n * b.sectorSize := Nat.add_mul ..
  obtain ⟨hge, hlt⟩ := hx
  have ho : x - k * b.sectorSize < n * b.sectorSize := by omega
  have hoff : k * b.sectorSize + (x - k * b.sectorSize) = x := by omega
  by_cases hneed : NorArray.NeedsErase (NorArray.shift s.flash (k * b.sectorSize)) (bytesAt s p) (n * b.sectorSize)
  · obtain ⟨g, hg, hflash⟩ := h.erased hr hneed
    have h1 : k ≤ x / b.sectorSize := (Nat.le_div_iff_mul_le hpos).mpr hge
    have h2 : x / b.sectorSize < k + n := (Nat.div_lt_iff_lt_mul hpos).mpr hlt
    have hset := hflash _ ho
    rwa [hoff, (hg _ h1 h2).resolve_right hF x rfl, NorArray.ff_and] at hset
  · have hset := h.kept hr hneed _ ho
    rwa [hoff] at hset

theorem writeBlock_moves (ho : Opened q d) (hb : Carries b d) {F : Nat → Prop} [DecidablePred F]
    (hF : ∀ k, b.eraseMayFail k → F k) {k n : Nat} (hn : 0 < n * d.sectorSize.toNat)
    (hfits : k * d.sectorSize.toNat + n * d.sectorSize.toNat ≤ d.capacity) {p : Ptr} (hp : p.region = .caller) {s : St}
    (hs : s.retry = false) : wp (nor b) (doWriteBlock q p k n) (fun r s' => Moves b none (k * d.sectorSize.toNat)
      (n * d.sectorSize.toNat) (changes d.sectorSize.toNat F b.faults (.doWriteBlock p k n) (s.mem .caller) (.value r))
      (r = n) s s') s := by
  refine wp_mono (doWriteBlock_spec (InRange.span ho hb hn hfits) p hp hs) ?_
  intro r s' hw
  refine ⟨Changes.does_on (fun x hx => ?_) fun x hx => ?_, hw.retry, fun o _ => by rw [hw.caller],
    fun _ p' hp' => (by cases hp'), fun h => (hw.failed (of_decide_eq_false h)).2⟩
  · apply hw.flash
    unfold InBlocks
    rwa [hb.sector]
  · split
    · rename_i hgood
      have hset := written (hb.sector ▸ hb.pos) hw (of_decide_eq_true hgood.1) (x := x)
        (by unfold InBlocks; rwa [hb.sector]) fun hbad => hgood.2 ⟨hbad.1, hb.sector ▸ hF _ hbad.2⟩
      rw [hb.sector, bytesAt, hp] at hset
      exact hset
    · trivial

theorem keep_spec {α : Type} {out : α → Out} {p : M α} {P : Out → St → Prop} {s : St}
    (h : wp (nor b) p (fun a s' => P (out a) s') s) : wp (nor b) (keep q out p) (fun x s' => x.2 = q ∧ P x.1 s') s :=
  wp_seq h fun _ _ hr => wp_pure.mpr ⟨rfl, hr⟩

/-- What a call that returned `out` left. -/
def Post (b : Params) (d : QspiDevice) (F : Nat → Prop) [DecidablePred F] (o : Op) (s : St) (out : Out) (s' : St) : Prop :=
  Moves b (into o) (address d.sectorSize.toNat o) (count d.sectorSize.toNat o)
    (changes d.sectorSize.toNat F b.faults o (s.mem .caller) out) (succeeded o out) s s'

theorem exec_moves (ho : Opened q d) (hb : Carries b d) {F : Nat → Prop} [DecidablePred F]
    (hF : ∀ k, b.eraseMayFail k → F k) (tbl : List QspiManuf) {o : Op} (hin : InRange d o) {s : St}
    (hs : s.retry = false) : wp (nor b) (exec tbl o q) (fun x s' => x.2 = q ∧ Post b d F o s x.1 s') s := by
  have hq := ho.pdevice
  have hcap := capacity_le d
  have hreach := hb.reach
  have hfits := hin.fits
  -- the address of a sector
  have hsector : ∀ k, k * d.sectorSize.toNat ≤ d.capacity → ∀ f : Nat → M QspiResult,
      (do let a ← u32 (k * (← sectorSizeOf q)); f a) = f (k * d.sectorSize.toNat) := by
    intro k hk f
    rw [sectorSizeOf_eq hq, pure_bind, u32_lt (by omega), pure_bind]
  have hdecode : ∀ a, a + 1 ≤ d.capacity → decode b a = a := fun a ha => Nat.mod_eq_of_lt (by omega)
  cases o with
  | read a p n => exact keep_spec (P := Post b d F _ s) (read_moves hq hb hfits (hin.intoCaller p rfl) hs)
  | write a p n =>
    exact keep_spec (P := Post b d F _ s) (write_moves hq hb hin.nonempty hfits (hin.fromCaller p rfl) hs)
  | readSector k p n =>
    apply keep_spec (P := Post b d F _ s)
    rw [readSector, hsector k (Nat.le_trans (Nat.le_add_right ..) hfits)]
    exact read_moves hq hb hfits (hin.intoCaller p rfl) hs
  | writeSector k p n =>
    apply keep_spec (P := Post b d F _ s)
    rw [writeSector, hsector k (Nat.le_trans (Nat.le_add_right ..) hfits)]
    exact write_moves hq hb hin.nonempty hfits (hin.fromCaller p rfl) hs
  | eraseSector k =>
    apply keep_spec (P := Post b d F _ s)
    rw [eraseSector, hsector k (Nat.le_trans (Nat.le_add_right ..) hfits)]
    refine erase_unit_moves hq (fun cmd hi ha => ?_) hs
    rw [eraseTarget, hi, ha, hdecode (k * _) hfits, hb.sector]
    rfl
  | eraseBlock32K a =>
    refine keep_spec (P := Post b d F _ s) (erase_unit_moves hq (fun cmd hi ha => ?_) hs)
    rw [eraseTarget, hi, ha, hdecode a hfits]
    rfl
  | eraseBlock64K a =>
    refine keep_spec (P := Post b d F _ s) (erase_unit_moves hq (fun cmd hi ha => ?_) hs)
    rw [eraseTarget, hi, ha, hdecode a hfits]
    rfl
  | eraseChip =>
    apply keep_spec (P := Post b d F _ s)
    refine erase_moves (t := .all) (c := fun ok _ => if ok then .set 0xFF else .lose)
      (erase_spec hq (fun cmd hi _ => ?_) hs) (fun _ => rfl) fun _ _ _ => trivial
    rw [eraseTarget, hi]
  | doReadBlock p k n =>
    exact keep_spec (P := Post b d F _ s) (readBlock_moves ho hb hin.nonempty hfits (hin.intoCaller p rfl) hs)
  | doWriteBlock p k n =>
    exact keep_spec (P := Post b d F _ s) (writeBlock_moves ho hb hF hin.nonempty hfits (hin.fromCaller p rfl) hs)
  | _ => exact absurd hin.data id

/-! ## Whole sessions -/

/-- A call that returned: whether its bus had faults, its caller's memory before and after. -/
structure Event where
  op : Op
  faults : Bool
  mem : Nat → UInt8
  out : Out
  after : Nat → UInt8

/-- What it did to the flash. -/
def Event.changes (Z : Nat) (F : Nat → Prop) [DecidablePred F] (e : Event) : Changes :=
  Contents.changes Z F e.faults e.op e.mem e.out

/-- The bus of a call, with `w` address bits. -/
def busOf (d : QspiDevice) (w : Nat) (F : Nat → Prop) (faults : Bool) : Params := ⟨d.sectorSize.toNat, w, faults, F⟩

/-- Calls one after the other on the driver `q`, newest first. -/
inductive Session (tbl : List QspiManuf) (q : Qspi) (d : QspiDevice) (w : Nat) (F : Nat → Prop) (s : St) :
    List Event → St → Prop
  | nil : Session tbl q d w F s [] s
  | call {e : Event} {es : List Event} {s₁ s₂ : St} : Session tbl q d w F s es s₁ →
      Runs (nor (busOf d w F e.faults)) (exec tbl e.op q) (callerMem s₁ e.mem) (e.out, q) s₂ →
      e.after = s₂.mem .caller → Session tbl q d w F s (e :: es) s₂

/-- The bytes of the flash known after the calls `es` on a flash that held `f`. -/
def knownAfter (Z : Nat) (F : Nat → Prop) [DecidablePred F] (f : Bytes) (es : List Event) : Nat → Option UInt8 :=
  known (fun x => some (f x)) (es.map (·.changes Z F))

/-- What is so of a call made after the calls `earlier`. -/
structure Returned (Z : Nat) (F : Nat → Prop) [DecidablePred F] (f : Bytes) (e : Event) (earlier : List Event) : Prop where
  read : succeeded e.op e.out = true → ∀ p, into e.op = some p → ∀ i, i < count Z e.op →
    ∀ v, knownAfter Z F f earlier (address Z e.op + i) = some v → e.after (p.off + i) = v
  frame : ∀ o, (∀ p, into e.op = some p → ¬ (p.off ≤ o ∧ o < p.off + count Z e.op)) → e.after o = e.mem o
  faultless : e.faults = false → succeeded e.op e.out = true

/-- What is so after a session. -/
structure Known (Z : Nat) (F : Nat → Prop) [DecidablePred F] (s : St) (es : List Event) (s' : St) : Prop where
  leads : Leads s.flash (es.map (·.changes Z F)) s'.flash
  retry : s'.retry = false
  calls : ∀ later e earlier, es = later ++ e :: earlier → Returned Z F s.flash e earlier

variable {tbl : List QspiManuf} {w : Nat} {F : Nat → Prop} [DecidablePred F]

theorem session_known (ho : Opened q d) (hb : ∀ faults, Carries (busOf d w F faults) d) {s s' : St} {es : List Event}
    (hs : s.retry = false) (hin : ∀ e ∈ es, InRange d e.op) (h : Session tbl q d w F s es s') :
    Known d.sectorSize.toNat F s es s' := by
  induction h with
  | nil => exact ⟨.nil, hs, fun later e earlier h => by cases later <;> cases h⟩
  | @call e es s₁ s₂ _ hrun hafter ih =>
    have ih := ih fun e he => hin e (List.mem_cons_of_mem _ he)
    have hpost := (wp_runs (exec_moves ho (hb e.faults) (F := F) (fun _ hk => hk) tbl (hin e List.mem_cons_self)
      (s := callerMem s₁ e.mem) ih.retry) hrun).2
    refine ⟨.cons ih.leads hpost.flash, hpost.retry, fun later e' earlier hes => ?_⟩
    cases later with
    | nil =>
      obtain ⟨rfl, rfl⟩ := List.cons.inj hes
      refine ⟨fun hok p hp i hi v hv => ?_, fun o hout => ?_, fun hf => ?_⟩
      · rw [hafter, hpost.read hok p hp i hi]
        exact NorArray.known_sound (fun x v hv => Option.some.inj hv) ih.leads _ v hv
      · rw [hafter]
        exact hpost.frame o hout
      · by_contra hne
        have hbad := hpost.failed (Bool.eq_false_iff.mpr hne)
        rw [show (busOf d w F e.faults).faults = e.faults from rfl, hf] at hbad
        cases hbad
    | cons e'' later =>
      obtain ⟨-, hes⟩ := List.cons.inj hes
      exact ih.calls later e' earlier hes

/-- Whatever fails on `Bus.Nor`, the flash agrees with what is known of it, and so did every read. -/
theorem contents_known (ho : Opened q d) (hpos : 0 < d.sectorSize.toNat) (hp : 256 ∣ d.sectorSize.toNat)
    (hw : d.capacity ≤ 2 ^ w) (f : Bytes) (m : Region → Nat → UInt8) {es : List Event} {s' : St}
    (hin : ∀ e ∈ es, InRange d e.op) (h : Session tbl q d w F (start f m) es s') :
    (∀ x v, knownAfter d.sectorSize.toNat F f es x = some v → s'.flash x = v) ∧
      ∀ later e earlier, es = later ++ e :: earlier → Returned d.sectorSize.toNat F f e earlier := by
  have hk := session_known ho (fun _ => ⟨rfl, hpos, hp, hw⟩) rfl hin h
  exact ⟨NorArray.known_sound (fun x v hv => Option.some.inj hv) hk.leads, hk.calls⟩

/-- On a W25Q128JV, a write that fails over its first command, and a read of the next page. -/
theorem contents_known_jv : ∃ es s',
    es.map (·.op) = [.read 256 ⟨.caller, 0x20020000, 0⟩ 16, .write 8 ⟨.caller, 0x20020000, 0⟩ 16] ∧
    Session qspiManufacturers jvDriver jv 24 (fun _ => True) (start (fun _ => 0x5A) fun _ _ => 0) es s' ∧
    (∀ x v, knownAfter jv.sectorSize.toNat (fun _ => True) (fun _ => 0x5A) es x = some v → s'.flash x = v) ∧
    ∀ later e earlier, es = later ++ e :: earlier →
      Returned jv.sectorSize.toNat (fun _ => True) (fun _ => 0x5A) e earlier := by
  have hin : InRange jv (.write 8 ⟨.caller, 0x20020000, 0⟩ 16) ∧
      InRange jv (.read 256 ⟨.caller, 0x20020000, 0⟩ 16) := by
    constructor <;> exact ⟨trivial, by decide, by decide, by simp [into], by simp [source]⟩
  have hb : ∀ faults, Carries (busOf jv 24 (fun _ => True) faults) jv := fun _ =>
    ⟨rfl, by decide, by decide, show jv.capacity ≤ 2 ^ 24 by decide⟩
  -- both attempts of WRITE_ENABLE fail
  have hfail : ∀ s, Runs (nor (busOf jv 24 (fun _ => True) true)) (exec qspiManufacturers
      (.write 8 ⟨.caller, 0x20020000, 0⟩ 16) jvDriver) s (.result .error, jvDriver) { s with retry := false } := by
    intro s
    have hspoil : ∀ s : St, Spoil .idle s s := fun s => ⟨s.flash, s.mem, fun _ _ => rfl, fun _ _ _ => rfl, rfl⟩
    have hcommand : Runs (nor (busOf jv 24 (fun _ => True) true))
        (qspiCommand { instruction := .WRITE_ENABLE, instructionMode := .four } .TIMEOUT) s
        .error { s with retry := false } :=
      @runs_qspiCommand_retry _ _ _ _ _ .error .error _ _ _ (by decide) (Or.inr ⟨rfl, by decide, hspoil _⟩) rfl
        (Or.inr ⟨rfl, by decide, hspoil _⟩)
    refine Runs.bind (a := .error) ?_ (.ret _ _)
    show Runs _ (writeLoop jvDriver 8 _ 16) _ _ _
    rw [writeLoop]
    exact runs_onOk_fail (runs_onOk_fail hcommand (by decide)) (by decide)
  obtain ⟨s₁, hret, hwrite⟩ : ∃ s₁ : St, s₁.retry = false ∧ Session qspiManufacturers jvDriver jv 24 (fun _ => True)
      (start (fun _ => 0x5A) fun _ _ => 0)
      [⟨.write 8 ⟨.caller, 0x20020000, 0⟩ 16, true, fun i => i.toUInt8, .result .error, fun i => i.toUInt8⟩] s₁ :=
    ⟨_, rfl, .call .nil (hfail _) rfl⟩
  have hread := exec_moves jv_opened (hb false) (F := fun _ => True) (fun _ hk => hk) qspiManufacturers hin.2
    (s := callerMem s₁ fun _ => 0) hret
  obtain ⟨⟨out, q⟩, s₂, hrun, hq, -⟩ := exists_run (faultFree_total _ 24) hread
  obtain rfl : q = jvDriver := hq
  have hsess := Session.call (e := ⟨_, false, _, out, s₂.mem .caller⟩) hwrite hrun rfl
  refine ⟨_, s₂, rfl, hsess, contents_known jv_opened (by decide) (by decide) (by decide) _ _ ?_ hsess⟩
  simp only [List.forall_mem_cons]
  exact ⟨hin.2, hin.1, by simp⟩

/-! ## Without faults -/

/-- A call that went well on a bus without faults loses nothing. -/
theorem changes_ne_lose (Z : Nat) {o : Op} {mem : Nat → UInt8} {out : Out} (h : succeeded o out = true) (x : Nat) :
    changes Z F false o mem out x ≠ .lose := by
  have hprograms : ∀ a n data, programs (succeeded o out) a n data x ≠ .lose := by
    intro a n data
    unfold programs
    rw [if_pos h]
    exact Changes.on_ne_lose (fun _ _ => Change.noConfusion) x
  have herase : ∀ U a, erasesUnit (succeeded o out) U a x ≠ .lose := by
    intro U a
    refine Changes.on_ne_lose (fun _ _ => ?_) x
    rw [if_pos h]
    exact Change.noConfusion
  cases o with
  | write a p n => exact hprograms a n fun i => mem (p.off + i)
  | writeSector k p n => exact hprograms (k * Z) n fun i => mem (p.off + i)
  | eraseSector k => exact herase Z (k * Z)
  | eraseBlock32K a => exact herase 0x8000 a
  | eraseBlock64K a => exact herase 0x10000 a
  | eraseChip =>
    show (if _ then _ else _) ≠ Change.lose
    rw [if_pos h]
    exact Change.noConfusion
  | doWriteBlock p k n =>
    unfold changes
    refine Changes.on_ne_lose (fun _ _ => ?_) x
    rw [if_pos ⟨h, fun hf => Bool.false_ne_true hf.1⟩]
    exact Change.noConfusion
  | _ => exact Change.noConfusion

theorem session_exists (ho : Opened q d) (hb : ∀ faults, Carries (busOf d w (fun _ => True) faults) d) {s : St}
    (hs : s.retry = false) : ∀ {rs : List (Op × (Nat → UInt8))}, (∀ r ∈ rs, InRange d r.1) → ∃ es s',
      es.map (fun e => (e.op, e.mem)) = rs ∧ (∀ e ∈ es, e.faults = false) ∧
        Session tbl q d w (fun _ => True) s es s' := by
  intro rs
  induction rs with
  | nil => exact fun _ => ⟨[], s, rfl, by simp, .nil⟩
  | cons r rs ih =>
    intro hin
    obtain ⟨es, s₁, hmap, hfree, hsess⟩ := ih fun r hr => hin r (List.mem_cons_of_mem _ hr)
    have hrange : ∀ e ∈ es, InRange d e.op := fun e he =>
      hin (e.op, e.mem) (List.mem_cons_of_mem _ (hmap ▸ List.mem_map_of_mem he))
    have hret := (session_known ho hb hs hrange hsess).retry
    have hnext := exec_moves ho (hb false) (F := fun _ => True) (fun _ hk => hk) tbl (hin r List.mem_cons_self)
      (s := callerMem s₁ r.2) hret
    obtain ⟨⟨out, q'⟩, s₂, hrun, hq, -⟩ := exists_run (faultFree_total _ w) hnext
    obtain rfl : q' = q := hq
    refine ⟨⟨r.1, false, r.2, out, s₂.mem .caller⟩ :: es, s₂, by rw [List.map_cons, hmap], ?_, .call hsess hrun rfl⟩
    exact List.forall_mem_cons.mpr ⟨rfl, hfree⟩

/-- Without faults every call goes well, and all of the flash is known at any time. -/
theorem contents_exact (ho : Opened q d) (hpos : 0 < d.sectorSize.toNat) (hp : 256 ∣ d.sectorSize.toNat)
    (hw : d.capacity ≤ 2 ^ w) (f : Bytes) (m : Region → Nat → UInt8) (rs : List (Op × (Nat → UInt8)))
    (hin : ∀ r ∈ rs, InRange d r.1) :
    (∃ es s', es.map (fun e => (e.op, e.mem)) = rs ∧ (∀ e ∈ es, e.faults = false) ∧
        Session tbl q d w (fun _ => True) (start f m) es s') ∧
      ∀ es s', es.map (fun e => (e.op, e.mem)) = rs → (∀ e ∈ es, e.faults = false) →
        Session tbl q d w (fun _ => True) (start f m) es s' →
        (∀ e ∈ es, succeeded e.op e.out = true) ∧
        (∀ x, knownAfter d.sectorSize.toNat (fun _ => True) f es x = some (s'.flash x)) ∧
        ∀ later e earlier, es = later ++ e :: earlier → ∀ p, into e.op = some p →
          ∀ i, i < count d.sectorSize.toNat e.op →
          knownAfter d.sectorSize.toNat (fun _ => True) f earlier (address d.sectorSize.toNat e.op + i) =
            some (e.after (p.off + i)) := by
  have hb : ∀ faults, Carries (busOf d w (fun _ => True) faults) d := fun _ => ⟨rfl, hpos, hp, hw⟩
  refine ⟨session_exists ho hb rfl hin, ?_⟩
  intro es s' hmap hfree hsess
  have hk := session_known ho hb rfl (fun e he => hin (e.op, e.mem) (hmap ▸ List.mem_map_of_mem he)) hsess
  have hgood : ∀ e ∈ es, succeeded e.op e.out = true := by
    intro e he
    obtain ⟨later, earlier, hes⟩ := List.append_of_mem he
    exact (hk.calls later e earlier hes).faultless (hfree e he)
  have hlose : ∀ x, ∀ c ∈ es.map (·.changes d.sectorSize.toNat fun _ => True), c x ≠ .lose := by
    intro x c hc
    obtain ⟨e, he, rfl⟩ := List.mem_map.mp hc
    unfold Event.changes
    rw [hfree e he]
    exact changes_ne_lose _ (hgood e he) x
  refine ⟨hgood, fun x => NorArray.known_exact hk.leads (hlose x), fun later e earlier hes p hp i hi => ?_⟩
  have he : e ∈ es := by rw [hes]; exact List.mem_append_right _ List.mem_cons_self
  have hearlier : ∀ c ∈ earlier.map (·.changes d.sectorSize.toNat fun _ => True),
      c (address d.sectorSize.toNat e.op + i) ≠ .lose := by
    intro c hc
    apply hlose _ c
    rw [hes, List.map_append, List.map_cons]
    exact List.mem_append_right _ (List.mem_cons_of_mem _ hc)
  obtain ⟨v, hv⟩ := Option.ne_none_iff_exists'.mp (NorArray.known_some
    (k := fun x => some (f x)) (Option.some_ne_none _) hearlier)
  have hread := (hk.calls later e earlier hes).read (hgood e he) p hp i hi v hv
  rw [hread]
  exact hv

/-- A sector erased, written in part, and read back. -/
theorem contents_exact_jv :
    let rs := [(.readSector 7 ⟨.caller, 0x20020000, 0⟩ 4096, fun _ => 0),
      (.writeSector 7 ⟨.caller, 0x20020000, 0⟩ 300, fun i => i.toUInt8), (.eraseSector 7, fun _ => 0)]
    (∃ es s', es.map (fun e => (e.op, e.mem)) = rs ∧ (∀ e ∈ es, e.faults = false) ∧
        Session qspiManufacturers jvDriver jv 24 (fun _ => True) (start (fun _ => 0x5A) fun _ _ => 0) es s') ∧
      ∀ es s', es.map (fun e => (e.op, e.mem)) = rs → (∀ e ∈ es, e.faults = false) →
        Session qspiManufacturers jvDriver jv 24 (fun _ => True) (start (fun _ => 0x5A) fun _ _ => 0) es s' →
        (∀ e ∈ es, succeeded e.op e.out = true) ∧
        (∀ x, knownAfter jv.sectorSize.toNat (fun _ => True) (fun _ => 0x5A) es x = some (s'.flash x)) ∧
        ∀ later e earlier, es = later ++ e :: earlier → ∀ p, into e.op = some p →
          ∀ i, i < count jv.sectorSize.toNat e.op →
          knownAfter jv.sectorSize.toNat (fun _ => True) (fun _ => 0x5A) earlier (address jv.sectorSize.toNat e.op + i) =
            some (e.after (p.off + i)) := by
  refine contents_exact jv_opened (by decide) (by decide) (by decide) _ _ _ ?_
  simp only [List.forall_mem_cons]
  exact ⟨⟨trivial, by decide, by decide, by simp [into], by simp [source]⟩,
    ⟨trivial, by decide, by decide, by simp [into], by simp [source]⟩,
    ⟨trivial, by decide, by decide, by simp [into], by simp [source]⟩, by simp⟩

end QspiFlash.Block.Contents
