/-
  QspiFlash.Driver.Api — the public operations of `qspi_impl` that reach the HAL, and runs of
  them on one object.

  The other public functions (the getters, `do_is_opened`, `do_vioctl`, `do_sync`,
  `get_version`) ask nothing and change nothing.
-/

import QspiFlash.Driver.Composed

namespace QspiFlash.Driver

inductive Op where
  | initializeQspi
  | uninitializeQspi
  | doVopen
  | doClose
  | doReadBlock (buf : Ptr) (blknum nblocks : Nat)
  | doWriteBlock (buf : Ptr) (blknum nblocks : Nat)
  | sleep (state : Bool)
  | resetChip
  | enterMemMapped
  | exitMemMapped
  | read (address : Nat) (buff : Ptr) (count : Nat)
  | write (address : Nat) (buff : Ptr) (count : Nat)
  | readSector (sector : Nat) (buff : Ptr) (count : Nat)
  | writeSector (sector : Nat) (buff : Ptr) (count : Nat)
  | eraseSector (sector : Nat)
  | eraseBlock32K (address : Nat)
  | eraseBlock64K (address : Nat)
  | eraseChip
  deriving DecidableEq, Repr

/-- What an operation returns: a `qspi_result_t`, or an `int` or `ssize_t`. -/
inductive Out where
  | result (r : QspiResult)
  | value (n : Int)
  deriving DecidableEq, Repr

/-- An operation that leaves the object as it is. -/
def keep {α : Type} (q : Qspi) (out : α → Out) (p : M α) : M (Out × Qspi) := do
  let a ← p
  pure (out a, q)

def exec (tbl : List QspiManuf) (o : Op) (q : Qspi) : M (Out × Qspi) :=
  match o with
  | .initializeQspi => do let x ← Driver.initializeQspi tbl q; pure (.result x.1, x.2)
  | .uninitializeQspi => do let x ← Driver.uninitializeQspi q; pure (.result x.1, x.2)
  | .doVopen => do let x ← Driver.doVopen tbl q; pure (.value x.1, x.2)
  | .doClose => do let x ← Driver.doClose q; pure (.value x.1, x.2)
  | .doReadBlock buf blknum nblocks => keep q .value (Driver.doReadBlock q buf blknum nblocks)
  | .doWriteBlock buf blknum nblocks => keep q .value (Driver.doWriteBlock q buf blknum nblocks)
  | .sleep state => keep q .result (Driver.sleep state)
  | .resetChip => keep q .result Driver.resetChip
  | .enterMemMapped => keep q .result (Driver.enterMemMapped q)
  | .exitMemMapped => keep q .result Driver.exitMemMapped
  | .read address buff count => keep q .result (Driver.read q address buff count)
  | .write address buff count => keep q .result (Driver.write q address buff count)
  | .readSector sector buff count => keep q .result (Driver.readSector q sector buff count)
  | .writeSector sector buff count => keep q .result (Driver.writeSector q sector buff count)
  | .eraseSector sector => keep q .result (Driver.eraseSector q sector)
  | .eraseBlock32K address => keep q .result (Driver.eraseBlock32K q address)
  | .eraseBlock64K address => keep q .result (Driver.eraseBlock64K q address)
  | .eraseChip => keep q .result (Driver.eraseChip q)

/-- The operations of a list, one after the other. -/
def session (tbl : List QspiManuf) : List Op → Qspi → M Qspi
  | [], q => pure q
  | o :: os, q => do
    let x ← exec tbl o q
    session tbl os x.2

theorem session_append (tbl : List QspiManuf) (os os' : List Op) (q : Qspi) :
    session tbl (os ++ os') q = session tbl os q >>= session tbl os' := by
  induction os generalizing q with
  | nil => rfl
  | cons o os ih => simp only [List.cons_append, session, ih, bind_assoc]

/-- The outcomes of the operations of a list, one after the other. -/
def outcomes (tbl : List QspiManuf) : List Op → Qspi → M (List Out × Qspi)
  | [], q => pure ([], q)
  | o :: os, q => do
    let y ← exec tbl o q
    let z ← outcomes tbl os y.2
    pure (y.1 :: z.1, z.2)

/-! ## The data path -/

/-- The reads, writes and erases, with any arguments. -/
def DataOp : Op → Prop
  | .read .. | .write .. | .readSector .. | .writeSector .. | .eraseSector _ => True
  | .eraseBlock32K _ | .eraseBlock64K _ | .eraseChip | .doReadBlock .. | .doWriteBlock .. => True
  | .initializeQspi | .uninitializeQspi | .doVopen | .doClose => False
  | .sleep _ | .resetChip | .enterMemMapped | .exitMemMapped => False

/-- The byte counts it reads with. -/
def ReadCount (q : Qspi) : Op → Nat → Prop
  | .read _ _ count, n | .readSector _ _ count, n => n = count
  | .doReadBlock _ _ nblocks, n => n = q.blockLogicalSizeBytes * nblocks % 2 ^ 32
  | .doWriteBlock .., n => n = lbuffSize
  | _, _ => False

/-- The byte counts it programs pages with. -/
def PageCount : Op → Nat → Prop
  | .write _ _ count, n | .writeSector _ _ count, n => n ≤ 256 ∧ (n = 0 → count = 0)
  | .doWriteBlock .., n => 1 ≤ n ∧ n ≤ 256
  | _, _ => False

/-- The data operations leave the object, and run a program of reads, page writes and erases. -/
theorem Composes.dataOp {q : Qspi} {K : {α : Type} → M α → Prop} (h : Composes K) (tbl : List QspiManuf) {o : Op}
    (ho : DataOp o) (hs : K (sectorSizeOf q)) (hr : ∀ a p n, ReadCount q o n → K (Driver.read q a p n))
    (hw : ∀ a p n, PageCount o n → K (pageWrite q a p n)) (he : ∀ i a, IsErase i → K (erase q a i))
    (hd : ∀ n r, K (ask (.dropped n r))) : ∃ (α : Type) (out : α → Out) (p : M α), exec tbl o q = keep q out p ∧ K p := by
  cases o with
  | read a p n => exact ⟨_, _, _, rfl, hr a p n rfl⟩
  | write a p n => exact ⟨_, _, _, rfl, h.write a p n fun a p m hm hzero => hw a p m ⟨hm, hzero⟩⟩
  | readSector k p n => exact ⟨_, _, _, rfl, h.readSector hs k p n fun a => hr a p n rfl⟩
  | writeSector k p n => exact ⟨_, _, _, rfl, h.writeSector hs k p n fun a p m hm hzero => hw a p m ⟨hm, hzero⟩⟩
  | eraseSector k => exact ⟨_, _, _, rfl, h.eraseSector hs (fun a => he _ a trivial) k⟩
  | eraseBlock32K a => exact ⟨_, _, _, rfl, he _ a trivial⟩
  | eraseBlock64K a => exact ⟨_, _, _, rfl, he _ a trivial⟩
  | eraseChip => exact ⟨_, _, _, rfl, he _ 0 trivial⟩
  | doReadBlock buf k n => exact ⟨_, _, _, rfl, h.doReadBlock buf k n fun a => hr a buf _ rfl⟩
  | doWriteBlock buf k n =>
    exact ⟨_, _, _, rfl, h.doWriteBlock (fun a => hr a _ _ rfl) (fun a p m hpos hm => hw a p m ⟨hpos, hm⟩) hs
      (fun a => he _ a trivial) hd buf k n⟩
  | _ => exact absurd ho id

theorem Sequenced.dataOp {K : {α : Type} → M α → Prop} (h : Sequenced K) {q : Qspi}
    (hr : ∀ a p n, K (Driver.read q a p n))
    (hw : ∀ a p n, K (pageWrite q a p n)) (he : ∀ i a, IsErase i → K (erase q a i)) (hd : ∀ n r, K (ask (.dropped n r)))
    (tbl : List QspiManuf) {o : Op} (ho : DataOp o) :
    ∃ (α : Type) (out : α → Out) (p : M α), exec tbl o q = keep q out p ∧ K p :=
  h.composes.dataOp tbl ho (h.sectorSizeOf q) (fun a p n _ => hr a p n) (fun a p n _ => hw a p n) he hd

end QspiFlash.Driver
