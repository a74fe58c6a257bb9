/-
  QspiFlash.Driver.Composed — what holds of every program built from reads, page writes and
  erases.

  `Composes K` says that `K` holds of returning, of looking at memory and of the marks, and is
  kept by sequencing. Such a property of `read`, `page_write` and `erase` is then one of
  everything the driver makes of them: one lemma for each function, and one induction for
  each loop. The lemmas say which byte counts the driver reads and programs with.
  `Sequenced K` holds of reading through a null pointer too, as `sector_size` may be.
-/

import QspiFlash.Driver.Flash

namespace QspiFlash.Driver

open Interact (Prog)

/-- The questions of the driver's own code between its HAL calls. -/
def Mark : Call → Prop
  | .load _ | .setErrno _ | .wrapped | .nullDeref => True
  | _ => False

structure Sequenced (K : {α : Type} → M α → Prop) : Prop where
  pure : ∀ {α : Type} (a : α), K (pure a : M α)
  bind : ∀ {α β : Type} {p : M α} {f : α → M β}, K p → (∀ a, K (f a)) → K (p >>= f)
  mark : ∀ c, Mark c → K (ask c)

structure Composes (K : {α : Type} → M α → Prop) : Prop where
  pure : ∀ {α : Type} (a : α), K (pure a : M α)
  bind : ∀ {α β : Type} {p : M α} {f : α → M β}, K p → (∀ a, K (f a)) → K (p >>= f)
  mark : ∀ c, Mark c → c ≠ .nullDeref → K (ask c)

variable {K : {α : Type} → M α → Prop} {q : Qspi}

theorem Sequenced.composes (h : Sequenced K) : Composes K := ⟨h.pure, h.bind, fun c hc _ => h.mark c hc⟩

theorem Sequenced.sectorSizeOf (h : Sequenced K) (q : Qspi) : K (sectorSizeOf q) := by
  unfold Driver.sectorSizeOf
  split
  · exact h.pure _
  · exact h.bind (h.mark .nullDeref trivial) fun _ => h.pure _

theorem holds_ite {α : Type} {c : Prop} [Decidable c] {p p' : M α} (hp : K p) (hp' : K p') : K (if c then p else p') := by
  split
  · exact hp
  · exact hp'

namespace Composes

variable (h : Composes K)

include h

theorem onOk {p k : M QspiResult} (hp : K p) (hk : K k) : K (onOk p k) :=
  h.bind hp fun r => holds_ite hk (h.pure r)

/-- A 32-bit result is the exact value modulo `2 ^ 32`. -/
theorem u32 {α : Type} {x : Nat} {f : Nat → M α} (hf : K (f (x % 2 ^ 32))) : K (u32 x >>= f) := by
  unfold Driver.u32
  split
  · rw [Nat.mod_eq_of_lt ‹_›] at hf
    exact hf
  · rw [bind_assoc]
    exact h.bind (h.mark .wrapped trivial nofun) fun _ => hf

theorem failed {α : Type} (a : α) : K (do ask (.setErrno .eio); Pure.pure a : M α) :=
  h.bind (h.mark (.setErrno .eio) trivial nofun) fun _ => h.pure a

theorem hasData (p : Ptr) (n : Nat) : K (hasData p n) := by
  induction n generalizing p with
  | zero => exact h.pure false
  | succ n ih => exact h.bind (h.mark (.load p) trivial nofun) fun _ => holds_ite (h.pure true) (ih _)

theorem compareChunk (p l : Ptr) (n : Nat) (v : Bool) : K (compareChunk p l n v) := by
  induction n generalizing p l v with
  | zero => exact h.pure _
  | succ n ih =>
    refine h.bind (h.mark (.load p) trivial nofun) fun _ => h.bind (h.mark (.load l) trivial nofun) fun _ => ?_
    exact holds_ite (h.pure _) (ih _ _ _)

/-! ## Programs of page writes -/

/-- A page write takes at most a page, and nothing only where there is nothing to write. -/
theorem writeLoop (a : Nat) (p : Ptr) (n : Nat) (hw : ∀ a p m, m ≤ 256 → (m = 0 → n = 0) → K (pageWrite q a p m)) :
    K (writeLoop q a p n) := by
  induction a, p, n using writeLoop.induct with
  | case1 a p n ih =>
    rw [Driver.writeLoop]
    have hsize := inBlockCount_eq a n
    refine h.onOk (hw a p _ (by omega) (by omega)) (h.u32 ?_)
    split
    · apply ih _ ‹_›
      intro a' p' m hm hzero
      exact hw a' p' m hm (by omega)
    · exact h.pure _

theorem write (a : Nat) (p : Ptr) (n : Nat) (hw : ∀ a p m, m ≤ 256 → (m = 0 → n = 0) → K (pageWrite q a p m)) :
    K (write q a p n) := by
  unfold Driver.write
  split
  · exact h.pure _
  · exact h.writeLoop a p n hw

theorem writeSector (hs : K (sectorSizeOf q)) (sector : Nat) (p : Ptr) (n : Nat)
    (hw : ∀ a p m, m ≤ 256 → (m = 0 → n = 0) → K (pageWrite q a p m)) : K (writeSector q sector p n) :=
  h.bind hs fun _ => h.u32 (h.write _ p n hw)

/-! ## Programs of reads and erases -/

theorem readSector (hs : K (sectorSizeOf q)) (sector : Nat) (p : Ptr) (n : Nat) (hr : ∀ a, K (read q a p n)) :
    K (readSector q sector p n) :=
  h.bind hs fun _ => h.u32 (hr _)

theorem doReadBlock (buf : Ptr) (k n : Nat) (hr : ∀ a, K (read q a buf (q.blockLogicalSizeBytes * n % 2 ^ 32))) :
    K (doReadBlock q buf k n) := by
  refine h.u32 (h.u32 (h.bind (hr _) fun r => ?_))
  exact holds_ite (h.failed _) (h.pure _)

theorem eraseSector (hs : K (sectorSizeOf q)) (he : ∀ a, K (erase q a .SECTOR_ERASE)) (sector : Nat) :
    K (eraseSector q sector) :=
  h.bind hs fun _ => h.u32 (he _)

theorem eraseBlocks (hs : K (sectorSizeOf q)) (he : ∀ a, K (erase q a .SECTOR_ERASE)) (hd : ∀ n r, K (ask (.dropped n r)))
    (n k : Nat) : K (eraseBlocks q n k) := by
  induction n generalizing k with
  | zero => exact h.pure _
  | succ n ih => exact h.bind (h.eraseSector hs he k) fun r => h.bind (hd k r) fun _ => h.u32 (ih _)

/-! ## The block write -/

variable (hr : ∀ a, K (read q a q.lbuff lbuffSize)) (hw : ∀ a p m, 1 ≤ m → m ≤ 256 → K (pageWrite q a p m))

include hr hw

theorem writeInPlace (buf : Ptr) (address count nblocks i : Nat) (p : Ptr) :
    K (writeInPlace q buf address count nblocks i p) := by
  induction i, p using writeInPlace.induct buf count with
  | case1 i p ih =>
    have hnext : ∀ r : QspiResult, K (if r ≠ .ok then do ask (.setErrno .eio); Pure.pure (false, minusOne)
        else do
          let sector256 ← Driver.u32 (i + 1)
          if _h : p.off + lbuffSize < buf.off + count then
            Driver.writeInPlace q buf address count nblocks sector256 (p.add lbuffSize)
          else Pure.pure (false, nblocks) : M (Bool × Nat)) := by
      refine fun r => holds_ite (h.failed _) (h.u32 ?_)
      split
      · exact ih _ ‹_›
      · exact h.pure _
    have hchunk : ∀ a p', K (Driver.write q a p' lbuffSize) := by
      intro a p'
      apply h.write
      intro a' p'' m hm hzero
      exact hw a' p'' m (Nat.pos_of_ne_zero fun h0 => absurd (hzero h0) (by decide)) hm
    rw [Driver.writeInPlace]
    refine h.u32 (h.u32 (h.bind (hr _) fun r => holds_ite (h.failed _) ?_))
    refine h.bind (h.compareChunk _ _ _ _) fun x => holds_ite (h.pure _) (holds_ite ?_ (hnext .ok))
    exact h.u32 (h.u32 (h.bind (hchunk _ _) hnext))

/-- An empty block write finds no data, so what it programs is not empty. -/
theorem doWriteBlock (hs : K (sectorSizeOf q)) (he : ∀ a, K (erase q a .SECTOR_ERASE))
    (hd : ∀ n r, K (ask (.dropped n r)))
    (buf : Ptr) (k n : Nat) : K (doWriteBlock q buf k n) := by
  have herase := h.eraseBlocks hs he hd n k
  refine h.u32 (h.u32 ?_)
  generalize q.blockLogicalSizeBytes * n % 2 ^ 32 = count
  cases count with
  | zero =>
    rw [Driver.hasData, pure_bind, if_pos rfl]
    exact h.bind herase fun _ => h.pure _
  | succ count =>
    have hwrite : ∀ a, K (Driver.write q a buf (count + 1)) := by
      intro a
      apply h.write
      intro a' p m hm hzero
      exact hw a' p m (Nat.pos_of_ne_zero fun h0 => absurd (hzero h0) (Nat.succ_ne_zero count)) hm
    refine h.bind (h.hasData _ _) fun _ => holds_ite (h.bind herase fun _ => h.pure _) ?_
    refine h.bind (h.writeInPlace hr hw _ _ _ _ _ _) fun x => ?_
    refine holds_ite (h.bind herase fun _ => h.bind (hwrite _) fun r => ?_) (h.pure _)
    exact holds_ite (h.failed _) (h.pure _)

end Composes

end QspiFlash.Driver
