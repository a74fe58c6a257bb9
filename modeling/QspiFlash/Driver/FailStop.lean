/-
  QspiFlash.Driver.FailStop — the first failure ends an operation and is what it reports.

  A `Verdict` follows the HAL calls of one operation: nothing failed, a command failed and is
  sent once more, or something failed for good. After a failure for good nothing more is asked,
  up to `errno`, which a block function sets to EIO once before it returns -1. Only the erases
  of a block write are gone on after: their results are dropped, and forgotten.

  - `command_stops`, `read_stops`, `pageWrite_stops`, `erase_stops`: the result is the verdict.
  - `eraseBlocks_stops`, `writeInPlace_stops`: the loops of a block write.
  - `first_failure`: every operation but `initialize`, `uninitialize`, `do_vopen` and `do_close`,
    whatever is answered.
-/

import QspiFlash.Driver.Api
import QspiFlash.Driver.Asks
import QspiFlash.Driver.Opened
import QspiFlash.Interact.Simulate

namespace QspiFlash.Driver.FailStop

open Interact

/-! ## The verdict -/

inductive Verdict where
  | fine
  /-- A command failed, and is sent once more. -/
  | again
  | failed (r : QspiResult)
  /-- The failure was told by `errno`. -/
  | reported (r : QspiResult)
  deriving DecidableEq, Repr

def settle (r : QspiResult) : Verdict := if r = .ok then .fine else .failed r

def Allowed : Verdict → Call → Prop
  | .fine, .crAbort | .fine, .setErrno _ => False
  | .fine, .dropped _ r => r = .ok
  | .fine, _ => True
  | .again, .crAbort | .again, .halCommand .. => True
  | .again, _ => False
  | .failed _, .setErrno e => e = .eio
  | .failed r, .dropped _ r' => r' = r
  | .failed _, _ => False
  | .reported _, _ => False

def next (v : Verdict) : (c : Call) → c.Resp → Verdict
  | .halCommand .., r => if r = .ok then .fine else if v = .again then .failed (ofHal r) else .again
  | .halReceiveIT, r | .halReceiveDMA _, r | .halTransmit .., r | .halTransmitDMA _, r => settle (ofHal r)
  | .halAutoPollingIT .., r | .halMemoryMapped .., r | .halAbort, r => settle (ofHal r)
  | .timedWait _, r => settle (if r then .ok else .timeout)
  | .setErrno _, _ => match v with
    | .failed r => .reported r
    | _ => v
  | .dropped .., _ => .fine
  | _, _ => v

def verdicts : Env Call Call.Resp Verdict := Env.monitor Allowed next

/-! ## Results and verdicts -/

/-- The result of the program is the verdict on its calls. -/
def Stops (p : M QspiResult) : Prop := wp verdicts p (fun r v => v = settle r) .fine

theorem Stops.onOk {p k : M QspiResult} (hp : Stops p) (hk : Stops k) : Stops (onOk p k) := by
  refine wp_onOk (wp_mono hp ?_)
  intro r v hv
  subst hv
  refine ⟨fun hr => ?_, fun _ => rfl⟩
  rw [hr]
  exact hk

/-- What is asked between the HAL calls changes nothing. -/
theorem between_stops {α : Type} {p : M α} (hp : p.All fun c => Allowed .fine c ∧ ∀ r, next .fine c r = .fine) :
    wp verdicts p (fun _ v => v = .fine) .fine := by
  refine wp_inv (I := fun v : Verdict => v = .fine) (fun v c hc hv => ?_) (fun v c r v' hc hv hs => ?_) hp rfl
  · rw [hv]
    exact hc.1
  · rw [show v' = next v c r from hs, hv]
    exact hc.2 r

theorem wp_fine {α β : Type} {p : M α} {f : α → M β} {Q : β → Verdict → Prop}
    (hp : p.All fun c => Allowed .fine c ∧ ∀ r, next .fine c r = .fine) (hf : ∀ a, wp verdicts (f a) Q .fine) :
    wp verdicts (p >>= f) Q .fine := by
  refine wp_seq (between_stops hp) ?_
  intro a v hv
  subst hv
  exact hf a

theorem u32_fine (x : Nat) : (u32 x).All fun c => Allowed .fine c ∧ ∀ r, next .fine c r = .fine :=
  all_u32 ⟨trivial, fun _ => rfl⟩ x

theorem command_stops (cmd : QspiCommand) (t : Timeout) : Stops (qspiCommand cmd t) := by
  apply wp_qspiCommand trivial
  · intro v hs
    exact hs
  · intro r v hr hs
    have hv : v = .again := by
      rw [show v = if r = .ok then .fine else .again from hs, if_neg hr]
    rw [hv]
    refine ⟨trivial, fun v₂ ha => ?_⟩
    rw [show v₂ = .again from ha]
    refine ⟨trivial, fun r' v₃ hs' => ?_⟩
    rw [show v₃ = if r' = .ok then .fine else .failed (ofHal r') from hs']
    cases r' <;> rfl

/-- A start or a wait. -/
theorem start_stops (c : Call) (g : c.Resp → QspiResult) (ha : Allowed .fine c)
    (hn : ∀ r, next .fine c r = settle (g r)) : Stops (do let r ← ask c; pure (g r)) :=
  ⟨ha, fun r v hs => (show v = next .fine c r from hs).trans (hn r)⟩

theorem timedWait_stops (t : Timeout) : Stops (timedWait t) :=
  start_stops (.timedWait t) (fun r => if r then .ok else .timeout) trivial fun _ => rfl

theorem receive_stops (p : Ptr) : Stops (halReceiveDMA p) := start_stops (.halReceiveDMA p) ofHal trivial fun _ => rfl

theorem transmit_stops (p : Ptr) : Stops (halTransmitDMA p) :=
  start_stops (.halTransmitDMA p) ofHal trivial fun _ => rfl

theorem poll_stops (cmd : QspiCommand) : Stops (halAutoPollingIT cmd statusPoll) :=
  start_stops (.halAutoPollingIT cmd statusPoll) ofHal trivial fun _ => rfl

variable {q : Qspi} {d : QspiDevice}

theorem cache_stops {p : M Unit} {c : Prop} [Decidable c] {f : Unit → M QspiResult}
    (hp : p.All fun c => Allowed .fine c ∧ ∀ r, next .fine c r = .fine) (hf : Stops (f ())) :
    Stops (if c then p >>= f else f ()) :=
  wp_when (between_stops hp) hf

theorem read_stops (q : Qspi) (hq : q.pdevice = some d) (a : Nat) (p : Ptr) (n : Nat) : Stops (read q a p n) := by
  unfold read
  rw [hq]
  refine (command_stops _ _).onOk (cache_stops ?_ ?_)
  · exact all_invalidateDcache ⟨trivial, fun _ => rfl⟩ (fun _ _ => ⟨trivial, fun _ => rfl⟩) ⟨trivial, fun _ => rfl⟩ p n
  · exact (receive_stops p).onOk (timedWait_stops _)

theorem pageWrite_stops (q : Qspi) (a : Nat) (p : Ptr) (n : Nat) : Stops (pageWrite q a p n) := by
  refine (command_stops _ _).onOk ((command_stops _ _).onOk (cache_stops ?_ ?_))
  · exact all_cleanDcache ⟨trivial, fun _ => rfl⟩ (fun _ _ => ⟨trivial, fun _ => rfl⟩) ⟨trivial, fun _ => rfl⟩ p n
  · exact (transmit_stops p).onOk ((timedWait_stops _).onOk ((poll_stops _).onOk (timedWait_stops _)))

theorem erase_stops (hq : q.pdevice = some d) (a : Nat) (which : Instruction) : Stops (erase q a which) := by
  unfold erase
  rw [hq]
  exact (command_stops _ _).onOk ((command_stops _ _).onOk ((poll_stops _).onOk (timedWait_stops _)))

theorem writeLoop_stops (q : Qspi) (a : Nat) (p : Ptr) (n : Nat) : Stops (writeLoop q a p n) := by
  induction a, p, n using writeLoop.induct with
  | case1 a p n ih =>
    rw [writeLoop]
    refine (pageWrite_stops q a p _).onOk (wp_fine (u32_fine _) fun a' => ?_)
    split
    · exact ih a' ‹_›
    · exact rfl

theorem write_stops (hq : q.pdevice = some d) (a : Nat) (p : Ptr) (n : Nat) : Stops (write q a p n) := by
  unfold write
  rw [hq]
  exact writeLoop_stops q a p n

/-! ## The block functions -/

/-- All went well and `good` is returned, or the failure was told and `bad` is. -/
def Told {α : Type} (good : α → Prop) (bad a : α) (v : Verdict) : Prop :=
  (v = .fine ∧ good a) ∨ ∃ r, r ≠ .ok ∧ v = .reported r ∧ a = bad

/-- What a block function returns, in any environment that allows everything. -/
theorem told_value {S : Type} {E : Env Call Call.Resp S} (hg : ∀ s c, E.guard s c) {p : M Int} {n : Nat}
    (hp : wp verdicts p (Told (· = ssize n) (-1)) .fine) {s s' : S} {y : Out × Qspi}
    (hr : Runs E (keep q .value p) s y s') : y.1 = .value (ssize n) ∨ y.1 = .value (-1) := by
  obtain ⟨i, s₁, hrun, hend⟩ := runs_bind.mp hr
  obtain ⟨rfl, -⟩ := runs_pure.mp hend
  have hfollow : Simulates E verdicts fun _ _ => True := fun _ v c r _ _ _ _ => ⟨next v c r, rfl, trivial⟩
  obtain ⟨v, hrun', -⟩ := hrun.simulated_of_free hfollow hg (t := .fine) trivial
  rcases wp_runs hp hrun' with ⟨-, hi⟩ | ⟨_, -, -, hi⟩
  · exact Or.inl (congrArg Out.value hi)
  · exact Or.inr (congrArg Out.value hi)

/-- A result other than `ok` is told. -/
theorem told_ite {α : Type} {good : α → Prop} {bad : α} {r : QspiResult} {k : M α}
    (hk : r = .ok → wp verdicts k (Told good bad) .fine) :
    wp verdicts (if r ≠ .ok then do ask (.setErrno .eio); pure bad else k) (Told good bad) (settle r) := by
  by_cases hr : r = .ok
  · rw [if_neg (not_not_intro hr), hr]
    exact hk hr
  · rw [if_pos hr, settle, if_neg hr]
    exact ⟨rfl, fun _ v hs => Or.inr ⟨r, hr, hs, rfl⟩⟩

theorem doReadBlock_stops (hq : q.pdevice = some d) (buf : Ptr) (k n : Nat) :
    wp verdicts (doReadBlock q buf k n) (Told (· = ssize n) (-1)) .fine := by
  refine wp_fine (u32_fine _) fun _ => wp_fine (u32_fine _) fun _ => ?_
  refine wp_seq (read_stops q hq _ buf _) ?_
  intro r v hv
  subst hv
  exact told_ite fun _ => Or.inl ⟨rfl, rfl⟩

/-- Each erase that fails is forgotten. -/
theorem eraseBlocks_stops (hq : q.pdevice = some d) (n k : Nat) :
    wp verdicts (eraseBlocks q n k) (fun _ v => v = .fine) .fine := by
  induction n generalizing k with
  | zero => exact rfl
  | succ n ih =>
    have hsector : Stops (eraseSector q k) := by
      unfold eraseSector
      rw [sectorSizeOf_eq hq, pure_bind]
      exact wp_fine (u32_fine _) fun a => erase_stops hq a _
    refine wp_seq hsector ?_
    intro r v hv
    subst hv
    refine ⟨?_, fun _ v hs => ?_⟩
    · by_cases hr : r = .ok
      · rw [settle, if_pos hr]
        exact hr
      · rw [settle, if_neg hr]
        exact (rfl : r = r)
    · rw [show v = .fine from hs]
      show wp verdicts (u32 (k + 1) >>= fun k' => eraseBlocks q n k') _ _
      exact wp_fine (u32_fine _) fun _ => ih _

theorem writeInPlace_stops (hq : q.pdevice = some d) (buf : Ptr) (address count nblocks i : Nat) (p : Ptr) :
    wp verdicts (writeInPlace q buf address count nblocks i p) (Told (fun x => x.2 = nblocks) (false, minusOne)) .fine := by
  induction i, p using writeInPlace.induct buf count with
  | case1 i p ih =>
    have hnext : ∀ r : QspiResult, wp verdicts (if r ≠ .ok then do ask (.setErrno .eio); pure (false, minusOne)
        else do
          let sector256 ← u32 (i + 1)
          if _h : p.off + lbuffSize < buf.off + count then
            writeInPlace q buf address count nblocks sector256 (p.add lbuffSize)
          else pure (false, nblocks) : M (Bool × Nat)) (Told (fun x => x.2 = nblocks) (false, minusOne))
            (settle r) := by
      refine fun r => told_ite fun _ => wp_fine (u32_fine _) fun i' => ?_
      split
      · exact ih i' ‹_›
      · exact Or.inl ⟨rfl, rfl⟩
    rw [writeInPlace]
    refine wp_fine (u32_fine _) fun _ => wp_fine (u32_fine _) fun _ => ?_
    refine wp_seq (read_stops q hq _ q.lbuff lbuffSize) ?_
    intro r v hv
    subst hv
    refine told_ite fun _ => wp_fine (all_compareChunk (fun _ => ⟨trivial, fun _ => rfl⟩) _ _ _ _) fun x => ?_
    refine wp_ite (fun _ => Or.inl ⟨rfl, rfl⟩) fun _ => wp_ite (fun _ => ?_) fun _ => hnext .ok
    refine wp_fine (u32_fine _) fun _ => wp_fine (u32_fine _) fun _ => ?_
    refine wp_seq (write_stops hq _ _ lbuffSize) ?_
    intro r v hv
    subst hv
    exact hnext r

theorem doWriteBlock_stops (hq : q.pdevice = some d) (buf : Ptr) (k n : Nat) :
    wp verdicts (doWriteBlock q buf k n) (Told (· = ssize n) (-1)) .fine := by
  have herase : ∀ {k' : M Int}, wp verdicts k' (Told (· = ssize n) (-1)) .fine →
      wp verdicts (eraseBlocks q n k >>= fun _ => k') (Told (· = ssize n) (-1)) .fine := by
    intro k' hk
    refine wp_seq (eraseBlocks_stops hq n k) ?_
    intro _ v hv
    subst hv
    exact hk
  refine wp_fine (u32_fine _) fun address => wp_fine (u32_fine _) fun count => ?_
  refine wp_fine (all_hasData (fun _ => ⟨trivial, fun _ => rfl⟩) buf count) fun toWrite => ?_
  refine wp_ite (fun _ => herase (Or.inl ⟨rfl, rfl⟩)) fun _ => ?_
  refine wp_seq (writeInPlace_stops hq buf address count n 0 buf) ?_
  rintro x v (⟨rfl, hx⟩ | ⟨r, hr, rfl, rfl⟩)
  · rw [hx]
    refine wp_ite (fun _ => herase ?_) fun _ => Or.inl ⟨rfl, rfl⟩
    refine wp_seq (write_stops hq address buf count) ?_
    intro r v hv
    subst hv
    exact told_ite fun _ => Or.inl ⟨rfl, rfl⟩
  · rw [if_neg (fun h => Bool.noConfusion h.1)]
    exact Or.inr ⟨r, hr, rfl, rfl⟩

/-! ## Every operation -/

/-- Not `initialize` and `do_vopen`, which look for their chip again where they did not find it,
    nor `uninitialize` and `do_close`, which go on with `reset_chip` whatever `sleep` returned. -/
def StopOp : Op → Prop
  | .initializeQspi | .uninitializeQspi | .doVopen | .doClose => False
  | _ => True

/-- The blocks a block function was called for. -/
def blocks : Op → Nat
  | .doReadBlock _ _ n | .doWriteBlock _ _ n => n
  | _ => 0

/-- What is returned, and the verdict. -/
def Reports (o : Op) : Out → Verdict → Prop
  | .result r, v => v = settle r
  | .value n, v => Told (· = ssize (blocks o)) (-1) n v

theorem exec_stops (tbl : List QspiManuf) (hq : q.pdevice = some d) {o : Op} (ho : StopOp o) :
    wp verdicts (exec tbl o q) (fun y v => Reports o y.1 v) .fine := by
  have hresult : ∀ {p : M QspiResult}, Stops p → wp verdicts (keep q .result p) (fun y v => Reports o y.1 v) .fine :=
    fun hp => wp_seq hp fun _ _ h => h
  have hvalue : ∀ {p : M Int}, wp verdicts p (Told (· = ssize (blocks o)) (-1)) .fine →
      wp verdicts (keep q .value p) (fun y v => Reports o y.1 v) .fine := fun hp => wp_seq hp fun _ _ h => h
  have hsector : ∀ {k : Nat} {f : Nat → M QspiResult}, (∀ a, Stops (f a)) →
      Stops (do let a ← u32 (k * (← sectorSizeOf q)); f a) := by
    intro k f hf
    rw [sectorSizeOf_eq hq, pure_bind]
    exact wp_fine (u32_fine _) hf
  cases o with
  | read a p n => exact hresult (read_stops q hq a p n)
  | readSector k p n => exact hresult (hsector fun a => read_stops q hq a p n)
  | doReadBlock p k n => exact hvalue (doReadBlock_stops hq p k n)
  | write a p n => exact hresult (write_stops hq a p n)
  | writeSector k p n => exact hresult (hsector fun a => write_stops hq a p n)
  | doWriteBlock p k n => exact hvalue (doWriteBlock_stops hq p k n)
  | eraseSector k => exact hresult (hsector fun a => erase_stops hq a _)
  | eraseBlock32K a => exact hresult (erase_stops hq a _)
  | eraseBlock64K a => exact hresult (erase_stops hq a _)
  | eraseChip => exact hresult (erase_stops hq 0 _)
  | sleep state => exact hresult (command_stops _ _)
  | resetChip => exact hresult ((command_stops _ _).onOk (command_stops _ _))
  | enterMemMapped =>
    refine hresult ?_
    unfold enterMemMapped
    rw [hq]
    exact start_stops (.halMemoryMapped (fastRead d) { timeOutActivation := false }) ofHal trivial fun _ => rfl
  | exitMemMapped => exact hresult (start_stops .halAbort ofHal trivial fun _ => rfl)
  | _ => exact absurd ho id

/-- Whatever is answered, nothing is asked after a failure for good but what tells it or, for
    an erase of a block write, lets it go; and that failure is what is returned. -/
theorem first_failure (tbl : List QspiManuf) (hq : q.pdevice = some d) {o : Op} (ho : StopOp o) :
    (∀ c v, Asks verdicts (exec tbl o q) .fine c v → Allowed v c) ∧
      ∀ y v, Runs verdicts (exec tbl o q) .fine y v → Reports o y.1 v := by
  have hexec := exec_stops tbl hq ho
  refine ⟨fun c v ha => wp_asks hexec ha, fun y v hr => ?_⟩
  have h := wp_runs hexec hr
  exact h

/-- A block read whose transfer is not waited for in time: EIO is set, and -1 returned. -/
theorem first_failure_jv : ∃ y v,
    Runs verdicts (exec qspiManufacturers (.doReadBlock ⟨.caller, 0x20020000, 0⟩ 3 1) jvDriver) .fine y v ∧
      Reports (.doReadBlock ⟨.caller, 0x20020000, 0⟩ 3 1) y.1 v ∧ y.1 = .value (-1) ∧ v = .reported .timeout := by
  have hlast : Runs verdicts (do ask (.setErrno .eio); pure (.value (-1), jvDriver) : M (Out × Qspi)) (.failed .timeout)
      (.value (-1), jvDriver) (.reported .timeout) := .call (r := ()) rfl (.ret _ _)
  have hrun : Runs verdicts (exec qspiManufacturers (.doReadBlock ⟨.caller, 0x20020000, 0⟩ 3 1) jvDriver) .fine
      (.value (-1), jvDriver) (.reported .timeout) :=
    .call (r := HalStatus.ok) rfl (.call (r := false) rfl (.call (r := HalStatus.ok) rfl
      (.call (r := false) rfl hlast)))
  refine ⟨_, _, hrun, ?_, rfl, rfl⟩
  have hstops := first_failure (q := jvDriver) (d := jv) (o := .doReadBlock ⟨.caller, 0x20020000, 0⟩ 3 1)
    qspiManufacturers rfl trivial
  exact hstops.2 _ _ hrun

end QspiFlash.Driver.FailStop
