/-
  QspiFlash.Driver.DeviceFile — the block device as a file that is open or closed, over any run.

  `File` is what a client knows of the device from its calls: it is closed, or open with the
  geometry of one device. The object has `is_opened_` and the geometry besides its identity,
  and any operation may come in between; an `initialize` may find another chip, and leaves an
  open device with the geometry it was opened with.

  - `exec_file`: each operation is a step of the file.
  - `device_file`: so are the outcomes of any operations in any order, whatever is answered.
-/

import QspiFlash.Driver.Coherent

namespace QspiFlash.Driver.DeviceFile

open Interact

/-! ## The file -/

def Listed (tbl : List QspiManuf) (d : QspiDevice) : Prop := ∃ m ∈ rows tbl, d ∈ m.known

/-- Closed, or open on a device. -/
abbrev File := Option QspiDevice

/-- One operation and its outcome. -/
inductive Step (tbl : List QspiManuf) : File → Op → Out → File → Prop
  | opened {d : QspiDevice} : Listed tbl d → Step tbl none .doVopen (.value 0) (some d)
  | notOpened (f : File) : Step tbl f .doVopen (.value (-1)) f
  | closed (f : File) : Step tbl f .doClose (.value 0) none
  | notClosed (f : File) : Step tbl f .doClose (.value (-1)) f
  | other {o : Op} (f : File) (out : Out) : o ≠ .doVopen → o ≠ .doClose → Step tbl f o out f

inductive Steps (tbl : List QspiManuf) : File → List Op → List Out → File → Prop
  | nil (f : File) : Steps tbl f [] [] f
  | cons {f f' f'' : File} {o : Op} {os : List Op} {out : Out} {outs : List Out} :
      Step tbl f o out f' → Steps tbl f' os outs f'' → Steps tbl f (o :: os) (out :: outs) f''

/-! ## The object -/

/-- The geometry of the device `d`, with blocks in it. -/
structure Sized (q : Qspi) (d : QspiDevice) : Prop where
  numBlocks : q.numBlocks = d.capacity / d.sectorSize.toNat
  blocks : 0 < q.numBlocks
  logicalSize : q.blockLogicalSizeBytes = d.sectorSize.toNat
  physicalSize : q.blockPhysicalSizeBytes = d.sectorSize.toNat

def Shows (q : Qspi) : File → Prop
  | none => q.isOpened = false
  | some d => q.isOpened = true ∧ Sized q d

/-- It shows the file, and has no device but of the table. -/
structure Inv (tbl : List QspiManuf) (f : File) (q : Qspi) : Prop where
  shown : Shows q f
  listed : ∀ d, q.pdevice = some d → Listed tbl d

/-- The flag and the geometry are those of `q`. -/
structure Same (q q' : Qspi) : Prop where
  isOpened : q'.isOpened = q.isOpened
  numBlocks : q'.numBlocks = q.numBlocks
  logicalSize : q'.blockLogicalSizeBytes = q.blockLogicalSizeBytes
  physicalSize : q'.blockPhysicalSizeBytes = q.blockPhysicalSizeBytes

variable {tbl : List QspiManuf} {f : File} {q q' : Qspi}

theorem Same.shows (h : Same q q') (hs : Shows q f) : Shows q' f := by
  cases f with
  | none => exact h.isOpened.trans hs
  | some d =>
    obtain ⟨ho, hsized⟩ := hs
    refine ⟨h.isOpened.trans ho, h.numBlocks.trans hsized.numBlocks, ?_, h.logicalSize.trans hsized.logicalSize,
      h.physicalSize.trans hsized.physicalSize⟩
    rw [h.numBlocks]
    exact hsized.blocks

/-- Any answers. -/
abbrev anything : Env Call Call.Resp Unit := Env.any fun _ => True

/-! ## The operations -/

theorem wp_anything {α : Type} (p : M α) : wp anything p (fun _ _ => True) () :=
  wp_any (Prog.all_of_forall (fun _ => trivial) p) fun _ => trivial

/-- What a lookup keeps: all but the identity, which is of the table. -/
def Kept (tbl : List QspiManuf) (q q' : Qspi) : Prop := Same q q' ∧ ∀ d, q'.pdevice = some d → Listed tbl d

theorem readJedecId_kept {q₁ : Qspi} (h : Kept tbl q q₁) :
    wp anything (readJedecId tbl q₁) (fun y _ => Kept tbl q y.2) () := by
  refine wp_seq (wp_anything _) fun _ _ _ => wp_ite (fun _ => ?_) fun _ => h
  refine wp_mono (identify_spec (fun _ _ _ => ⟨trivial, fun _ _ _ => rfl⟩) tbl q₁ (P := fun _ _ => True) trivial
    fun _ _ _ => trivial) ?_
  intro y _ hpost
  obtain ⟨b, -, rfl⟩ := hpost
  obtain ⟨⟨ho, hn, hl, hp⟩, hlisted⟩ := h
  cases hb : named tbl b with
  | none => exact ⟨⟨ho, hn, hl, hp⟩, hlisted⟩
  | some z =>
    refine ⟨⟨ho, hn, hl, hp⟩, fun d hd => ?_⟩
    obtain rfl : z.2 = d := Option.some.inj hd
    exact ⟨z.1, named_row hb⟩

theorem initializeQspi_kept (h : Kept tbl q q) : wp anything (initializeQspi tbl q) (fun y _ => Kept tbl q y.2) () :=
  wp_initializeQspi (I := fun q' _ => Kept tbl q q') readJedecId_kept
    (fun h => wp_mono (wp_anything _) fun _ _ _ => h) (fun h => wp_mono (wp_anything _) fun _ _ _ => h)
    (fun h => wp_mono (wp_anything _) fun _ _ _ => h) h

theorem uninitializeQspi_kept (h : Kept tbl q q) : wp anything (uninitializeQspi q) (fun y _ => Kept tbl q y.2) () :=
  wp_seq (wp_anything _) fun _ _ _ => wp_seq (wp_anything _) fun _ _ _ =>
    ⟨⟨h.1.isOpened, h.1.numBlocks, h.1.logicalSize, h.1.physicalSize⟩, h.2⟩

theorem Inv.kept (h : Inv tbl f q) : Kept tbl q q := ⟨⟨rfl, rfl, rfl, rfl⟩, h.listed⟩

theorem Inv.of_kept (h : Inv tbl f q) (hk : Kept tbl q q') : Inv tbl f q' := ⟨hk.1.shows h.shown, hk.2⟩

/-- The operation is a step of the file. -/
def Does (tbl : List QspiManuf) (f : File) (o : Op) (y : Out × Qspi) : Prop := ∃ f', Step tbl f o y.1 f' ∧ Inv tbl f' y.2

theorem errno_does {e : Errno} {o : Op} (h : Does tbl f o (.value (-1), q)) :
    wp anything (do ask (.setErrno e); pure (-1, q) : M (Int × Qspi)) (fun y _ => Does tbl f o (.value y.1, y.2)) () :=
  wp_seq (wp_anything _) fun _ _ _ => h

/-- From a closed device with the chip identified. -/
theorem vopenFinish_does (hclosed : q.isOpened = false) (hlisted : ∀ d, q.pdevice = some d → Listed tbl d)
    (r : QspiResult) : wp anything (vopenFinish r q) (fun y _ => Does tbl none .doVopen (.value y.1, y.2)) () := by
  refine wp_ite (fun _ => errno_does ⟨none, .notOpened none, hclosed, hlisted⟩) fun _ => ?_
  refine wp_ite (fun _ => errno_does ⟨none, .notOpened none, hclosed, hlisted⟩) fun hsize => ?_
  have hblocks : 0 < getSectorCount q := Nat.pos_of_ne_zero fun h => hsize (Or.inl h)
  obtain ⟨d, hd⟩ : ∃ d, q.pdevice = some d := by
    cases hd : q.pdevice with
    | none =>
      rw [getSectorCount, hd] at hblocks
      exact absurd hblocks (Nat.lt_irrefl 0)
    | some d => exact ⟨d, rfl⟩
  have hcount : getSectorCount q = d.capacity / d.sectorSize.toNat := by rw [getSectorCount, hd]
  have hsector : getSectorSize q = d.sectorSize.toNat := by rw [getSectorSize, hd]
  exact ⟨some d, .opened (hlisted d hd), ⟨rfl, hcount, hblocks, hsector, hsector⟩, hlisted⟩

theorem doVopen_does (h : Inv tbl f q) :
    wp anything (doVopen tbl q) (fun y _ => Does tbl f .doVopen (.value y.1, y.2)) () := by
  refine wp_ite (fun _ => errno_does ⟨f, .notOpened f, h⟩) fun ho => ?_
  refine wp_ite (fun _ => errno_does ⟨f, .notOpened f, h⟩) fun _ => ?_
  have hclosed : q.isOpened = false := by simpa using ho
  cases f with
  | some d =>
    rw [h.shown.1] at hclosed
    cases hclosed
  | none =>
    refine wp_seq (initializeQspi_kept h.kept) fun y _ hy => ?_
    exact vopenFinish_does (hy.1.isOpened.trans hclosed) hy.2 y.1

theorem doClose_does (h : Inv tbl f q) :
    wp anything (doClose q) (fun y _ => Does tbl f .doClose (.value y.1, y.2)) () := by
  refine wp_seq (uninitializeQspi_kept h.kept) fun y _ hy => ?_
  refine wp_ite (fun _ => errno_does ⟨f, .notClosed f, h.of_kept hy⟩) fun _ => ?_
  exact ⟨none, .closed f, rfl, hy.2⟩

/-- Every operation is a step of the file. -/
theorem exec_file (o : Op) (h : Inv tbl f q) : wp anything (exec tbl o q) (fun y _ => Does tbl f o y) () := by
  by_cases hdata : DataOp o
  · obtain ⟨α, out, p, heq, -⟩ := dataOp_asks (P := fun _ => True) (fun _ _ => trivial) (fun _ _ => trivial) tbl hdata q
    rw [heq]
    have hother : o ≠ .doVopen ∧ o ≠ .doClose := by constructor <;> rintro rfl <;> exact hdata
    exact wp_seq (wp_anything p) fun a _ _ => ⟨f, .other f _ hother.1 hother.2, h⟩
  cases o with
  | doVopen => exact wp_seq (doVopen_does h) fun _ _ hy => hy
  | doClose => exact wp_seq (doClose_does h) fun _ _ hy => hy
  | initializeQspi =>
    exact wp_seq (initializeQspi_kept h.kept) fun y _ hy => ⟨f, .other f _ nofun nofun, h.of_kept hy⟩
  | uninitializeQspi =>
    exact wp_seq (uninitializeQspi_kept h.kept) fun y _ hy => ⟨f, .other f _ nofun nofun, h.of_kept hy⟩
  | sleep | resetChip | enterMemMapped | exitMemMapped =>
    exact wp_seq (wp_anything _) fun _ _ _ => ⟨f, .other f _ nofun nofun, h⟩
  | _ => exact absurd trivial hdata

/-! ## Whole runs -/

theorem outcomes_file (os : List Op) (h : Inv tbl f q) : wp anything (outcomes tbl os q) (fun y _ =>
    ∃ f', Steps tbl f os y.1 f' ∧ Inv tbl f' y.2) () := by
  induction os generalizing f q with
  | nil => exact ⟨f, .nil f, h⟩
  | cons o os ih =>
    refine wp_seq (exec_file o h) ?_
    intro y _ hpost
    obtain ⟨f₁, hstep, h₁⟩ := hpost
    refine wp_seq (ih h₁) ?_
    intro z _ hpost
    obtain ⟨f₂, hsteps, h₂⟩ := hpost
    exact ⟨f₂, .cons hstep hsteps, h₂⟩

/-- Any operations on a new object, in any order and whatever is answered, are steps of a file that
    begins closed, and the object shows the file they leave. -/
theorem device_file {S : Type} {E : Env Call Call.Resp S} {os : List Op} (hq : Fresh q) {y : List Out × Qspi} {s s' : S}
    (hr : Runs E (outcomes tbl os q) s y s') : ∃ f, Steps tbl none os y.1 f ∧ Shows y.2 f := by
  have hinv : Inv tbl none q := by
    refine ⟨hq.isOpened, fun d hd => ?_⟩
    rw [hq.pdevice] at hd
    cases hd
  obtain ⟨f, hsteps, h⟩ := runs_any (outcomes_file os hinv) hr
  exact ⟨f, hsteps, h.shown⟩

/-- All goes well; the first chip that is identified is a W25Q32FV, the next an MT25QL128ABA. -/
def changedChip (n : Nat) (c : Call) : c.Resp × Nat := match c with
  | .idBytes => (if n = 0 then (0xEF, 0x60, 0x16) else (0x20, 0xBA, 0x18), n + 1)
  | c => (Initialised.goesWell (0xEF, 0x60, 0x16) c, n)

/-- Opened on the first, the device keeps its 1024 blocks when the driver is set to the other. -/
theorem device_file_changed : ∃ (y : List Out × Qspi) (f : File),
    Steps qspiManufacturers none [.doVopen, .initializeQspi, .doVopen] y.1 f ∧ Shows y.2 f ∧
    y.1 = [.value 0, .result .ok, .value (-1)] ∧ y.2.pdevice = some mt25 ∧ y.2.isOpened = true ∧ y.2.numBlocks = 1024 := by
  have hrun := (runs_run (E := Env.monitor (fun _ _ => True) fun n c _ => (changedChip n c).2) (I := fun _ => True)
    (f := changedChip) (fun _ _ _ => rfl) (fun _ _ _ => trivial)
    (outcomes qspiManufacturers [.doVopen, .initializeQspi, .doVopen] freshDriver) (s := 0) trivial).1
  obtain ⟨f, hsteps, hshows⟩ := device_file fresh_driver hrun
  exact ⟨_, f, hsteps, hshows, by decide +kernel, by decide +kernel, by decide +kernel, by decide +kernel⟩

end QspiFlash.Driver.DeviceFile
