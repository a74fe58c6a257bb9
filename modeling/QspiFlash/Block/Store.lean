/-
  QspiFlash.Block.Store — the open block device is a block store.

  The store maps a block and an offset in it to a byte. `store` is what a call makes of
  it, and `latest init h` is the store after the calls `h`, newest first: for each block
  the data of the latest `do_write_block` of `h` that covered it, `init` where none did.
  `Session` is a sequence of calls on the driver, each with whatever its caller has put
  in memory.

  - `exec_simulates`: on a fault-free bus, one call does to the flash what `store` does.
  - `session_latest`: over a whole session the flash is `latest`, every call returns
    `nblocks` and every read returns the bytes of `latest`.
  - `session_exists`: the calls of any list return.
  - `block_store`: both, for every open device.
-/

import QspiFlash.Block.Write

namespace QspiFlash.Block.Store

open Interact Driver Bus.Nor
open NorArray (Bytes)

inductive Kind where
  | read
  | write
  deriving DecidableEq, Repr

/-- A call of `do_read_block` or `do_write_block`, with its caller's memory. -/
structure Request where
  kind : Kind
  mem : Nat → UInt8
  base : Nat
  off : Nat
  blknum : Nat
  nblocks : Nat

def Request.buf (r : Request) : Ptr := ⟨.caller, r.base, r.off⟩

def exec (q : Qspi) (r : Request) : M Int :=
  match r.kind with
  | .read => doReadBlock q r.buf r.blknum r.nblocks
  | .write => doWriteBlock q r.buf r.blknum r.nblocks

/-! ## The abstract store -/

abbrev Blocks := Nat → Nat → UInt8

def Request.Covers (r : Request) (blk : Nat) : Prop := r.kind = .write ∧ r.blknum ≤ blk ∧ blk < r.blknum + r.nblocks

instance (r : Request) (blk : Nat) : Decidable (r.Covers blk) := inferInstanceAs (Decidable (_ ∧ _))

/-- What a call makes of a store of blocks of `Z` bytes. -/
def store (Z : Nat) (r : Request) (c : Blocks) : Blocks := fun blk o =>
  if r.Covers blk then r.mem (r.off + ((blk - r.blknum) * Z + o)) else c blk o

/-- The store after the calls `h`, newest first. -/
def latest (Z : Nat) (init : Blocks) (h : List Request) : Blocks := h.foldr (store Z) init

/-- The store the flash `f` holds. -/
def content (Z : Nat) (f : Bytes) : Blocks := fun blk o => f (blk * Z + o)

/-! ## Sessions -/

/-- A call that returned: its reply, and the caller's memory then. -/
structure Event where
  req : Request
  reply : Int
  after : Nat → UInt8

/-- The caller puts `m` in its memory. -/
def callerMem (s : St) (m : Nat → UInt8) : St :=
  { s with mem := fun r => match r with | .caller => m | .lbuff => s.mem .lbuff }

/-- Calls one after the other on the driver `q`, newest first. -/
inductive Session (b : Params) (q : Qspi) (s : St) : List Event → St → Prop
  | nil : Session b q s [] s
  | call {e : Event} {es : List Event} {s₁ s₂ : St} : Session b q s es s₁ →
      Runs (nor b) (exec q e.req) (callerMem s₁ e.req.mem) e.reply s₂ → e.after = s₂.mem .caller →
      Session b q s (e :: es) s₂

/-- A call for blocks the device has. -/
def Request.InRange (r : Request) (q : Qspi) : Prop := 1 ≤ r.nblocks ∧ r.blknum + r.nblocks ≤ q.numBlocks

variable {b : Params} {q : Qspi}

/-- One call: its reply, what it read, and the store it leaves. -/
structure Simulates (b : Params) (r : Request) (s : St) (reply : Int) (s' : St) : Prop where
  reply : reply = r.nblocks
  retry : s'.retry = false
  store : ∀ blk o, o < b.sectorSize → content b.sectorSize s'.flash blk o =
    store b.sectorSize r (content b.sectorSize s.flash) blk o
  read : r.kind = .read → ∀ blk o, r.blknum ≤ blk → blk < r.blknum + r.nblocks → o < b.sectorSize →
    s'.mem .caller (r.off + ((blk - r.blknum) * b.sectorSize + o)) = content b.sectorSize s.flash blk o

/-- Where byte `o` of block `blk` lies in the blocks from `k` on. -/
theorem offset_eq {Z k n blk o : Nat} (h1 : k ≤ blk) (h2 : blk < k + n) (ho : o < Z) :
    blk * Z + o = k * Z + ((blk - k) * Z + o) ∧ (blk - k) * Z + o < n * Z := by
  have h3 : blk * Z = k * Z + (blk - k) * Z := by rw [← Nat.add_mul, Nat.add_sub_cancel' h1]
  have h4 : (blk - k) * Z + Z ≤ n * Z := by rw [← Nat.succ_mul]; exact block_le (by omega)
  omega

theorem write_flash (hf : b.faults = false) {s s' : St} {buf : Ptr} {k n : Nat} {r : Int} (hZ : 0 < b.sectorSize)
    (h : WriteBlockPost b s buf k n r s') :
    r = n ∧ ∀ o, o < n * b.sectorSize → s'.flash (k * b.sectorSize + o) = bytesAt s buf o := by
  have hr : r = n := by
    by_contra hne
    have := (h.failed hne).2
    rw [hf] at this
    cases this
  refine ⟨hr, fun o ho => ?_⟩
  by_cases hneed : NorArray.NeedsErase (NorArray.shift s.flash (k * b.sectorSize)) (bytesAt s buf) (n * b.sectorSize)
  · obtain ⟨g, hg, hflash⟩ := h.erased hr hneed
    have hblank : g (k * b.sectorSize + o) = 0xFF := by
      have hdiv : (k * b.sectorSize + o) / b.sectorSize = k + o / b.sectorSize := by
        rw [Nat.add_comm, Nat.add_mul_div_right _ _ hZ, Nat.add_comm]
      have hlt : o / b.sectorSize < n := Nat.div_lt_of_lt_mul (by rw [Nat.mul_comm]; exact ho)
      rcases hg (k + o / b.sectorSize) (Nat.le_add_right ..) (Nat.add_lt_add_left hlt k) with hall | ⟨hf', -⟩
      · exact hall _ hdiv
      · rw [hf] at hf'; cases hf'
    rw [hflash o ho, hblank, NorArray.ff_and]
  · exact h.kept hr hneed o ho

theorem exec_simulates (hf : b.faults = false) {r : Request} (h : Span b q r.blknum r.nblocks) {s : St}
    (hs : s.retry = false) (hm : s.mem .caller = r.mem) :
    wp (nor b) (exec q r) (fun reply s' => Simulates b r s reply s') s := by
  unfold exec
  cases hk : r.kind with
  | read =>
    refine wp_mono (doReadBlock_spec h r.buf hs) ?_
    intro reply s' hpost
    obtain ⟨hfl, -, hret, hfail, -, hok⟩ := hpost
    have hreply : reply = r.nblocks := by
      by_contra hne
      have := (hfail hne).2
      rw [hf] at this
      cases this
    refine ⟨hreply, hret, fun blk o _ => ?_, fun _ blk o h1 h2 ho => ?_⟩
    · rw [hfl, store, if_neg fun h' => by rw [h'.1] at hk; cases hk]
    · obtain ⟨he, hlt⟩ := offset_eq (Z := b.sectorSize) h1 h2 ho
      rw [content, he]
      exact hok hreply _ hlt
  | write =>
    refine wp_mono (doWriteBlock_spec h r.buf rfl hs) ?_
    rintro reply s' hw
    obtain ⟨hreply, hflash⟩ := write_flash hf h.pos hw
    refine ⟨hreply, hw.retry, fun blk o ho => ?_, fun h' => by rw [h'] at hk; cases hk⟩
    by_cases hc : r.blknum ≤ blk ∧ blk < r.blknum + r.nblocks
    · obtain ⟨he, hlt⟩ := offset_eq (Z := b.sectorSize) hc.1 hc.2 ho
      rw [store, if_pos ⟨hk, hc⟩, content, he, hflash _ hlt]
      show s.mem .caller _ = _
      rw [hm]
      rfl
    · rw [store, if_neg fun h' => hc h'.2]
      refine hw.flash _ fun hin => hc ?_
      have hdiv : (blk * b.sectorSize + o) / b.sectorSize = blk := by
        rw [Nat.add_comm, Nat.add_mul_div_right _ _ h.pos, Nat.div_eq_of_lt ho, Nat.zero_add]
      have h1 := (Nat.le_div_iff_mul_le h.pos).mpr hin.1
      have h2 := (Nat.div_lt_iff_lt_mul h.pos).mpr hin.2
      omega

/-! ## Whole sessions -/

theorem latest_cons (Z : Nat) (init : Blocks) (r : Request) (h : List Request) :
    latest Z init (r :: h) = store Z r (latest Z init h) := rfl

/-- A call only looks at the bytes of the blocks. -/
theorem store_congr {Z : Nat} {r : Request} {c c' : Blocks} {blk o : Nat} (h : c blk o = c' blk o) :
    store Z r c blk o = store Z r c' blk o := by
  unfold store; rw [h]

/-- What a session has done so far. -/
structure Latest (b : Params) (s : St) (es : List Event) (s' : St) : Prop where
  retry : s'.retry = false
  store : ∀ blk o, o < b.sectorSize → content b.sectorSize s'.flash blk o =
    latest b.sectorSize (content b.sectorSize s.flash) (es.map (·.req)) blk o
  calls : ∀ later e earlier, es = later ++ e :: earlier → e.reply = e.req.nblocks ∧
    (e.req.kind = .read → ∀ blk o, e.req.blknum ≤ blk → blk < e.req.blknum + e.req.nblocks → o < b.sectorSize →
      e.after (e.req.off + ((blk - e.req.blknum) * b.sectorSize + o)) =
        latest b.sectorSize (content b.sectorSize s.flash) (earlier.map (·.req)) blk o)

theorem session_latest (hf : b.faults = false) {s s' : St} {es : List Event} (hs : s.retry = false)
    (hspan : ∀ e ∈ es, Span b q e.req.blknum e.req.nblocks) (h : Session b q s es s') : Latest b s es s' := by
  induction h with
  | nil => exact ⟨hs, fun _ _ _ => rfl, fun later e earlier h => by cases later <;> cases h⟩
  | @call e es s₁ s₂ _ hrun hafter ih =>
    have ih := ih fun e he => hspan e (List.mem_cons_of_mem _ he)
    have hcall := wp_runs (exec_simulates hf (hspan e List.mem_cons_self) (s := callerMem s₁ e.req.mem) ih.retry rfl) hrun
    refine ⟨hcall.retry, fun blk o ho => ?_, fun later e' earlier hes => ?_⟩
    · rw [hcall.store blk o ho, List.map_cons, latest_cons]
      exact store_congr (ih.store blk o ho)
    · cases later with
      | nil =>
        obtain ⟨rfl, rfl⟩ := List.cons.inj hes
        refine ⟨hcall.reply, fun hk blk o h1 h2 ho => ?_⟩
        rw [hafter, hcall.read hk blk o h1 h2 ho]
        exact ih.store blk o ho
      | cons e'' later =>
        obtain ⟨-, hes⟩ := List.cons.inj hes
        exact ih.calls later e' earlier hes

theorem session_exists (b : Params) (hf : b.faults = false) (ht : (nor b).Total) {s : St} (hs : s.retry = false) :
    ∀ {rs : List Request}, (∀ r ∈ rs, Span b q r.blknum r.nblocks) →
      ∃ es s', es.map (·.req) = rs ∧ Session b q s es s' := by
  intro rs
  induction rs with
  | nil => exact fun _ => ⟨[], s, rfl, .nil⟩
  | cons r rs ih =>
    intro hspan
    obtain ⟨es, s₁, hmap, hsess⟩ := ih fun r hr => hspan r (List.mem_cons_of_mem _ hr)
    have hret : s₁.retry = false := (session_latest hf hs (fun e he => hspan e.req (List.mem_cons_of_mem _
      (hmap ▸ List.mem_map_of_mem he))) hsess).retry
    obtain ⟨reply, s₂, hrun, -⟩ := exists_run ht
      (exec_simulates hf (hspan r List.mem_cons_self) (s := callerMem s₁ r.mem) hret rfl)
    exact ⟨⟨r, reply, s₂.mem .caller⟩ :: es, s₂, by rw [List.map_cons, hmap], .call hsess hrun rfl⟩

/-- The open device is a block store, over any calls for blocks it has. -/
theorem block_store {d : QspiDevice} (ho : Opened q d) (hpos : 0 < d.sectorSize.toNat) (hp : 256 ∣ d.sectorSize.toNat)
    {w : Nat} (hw : d.capacity ≤ 2 ^ w) (f : Bytes) (m : Region → Nat → UInt8) (rs : List Request)
    (hr : ∀ r ∈ rs, r.InRange q) :
    (∃ es s', es.map (·.req) = rs ∧ Session (faultFree d.sectorSize.toNat w) q (start f m) es s') ∧
      ∀ es s', es.map (·.req) = rs → Session (faultFree d.sectorSize.toNat w) q (start f m) es s' →
        Latest (faultFree d.sectorSize.toNat w) (start f m) es s' := by
  have hspan : ∀ r ∈ rs, Span (faultFree d.sectorSize.toNat w) q r.blknum r.nblocks := fun r hm =>
    span_of_opened ho rfl hpos hp hw (hr r hm).1 (hr r hm).2
  refine ⟨session_exists _ rfl (faultFree_total _ _) rfl hspan, fun es s' hmap h => ?_⟩
  exact session_latest rfl rfl (fun e he => hspan e.req (hmap ▸ List.mem_map_of_mem he)) h

/-- Two blocks written over a programmed chip, then one of them and the next read back. -/
theorem block_store_jv : ∃ es s', es.map (·.req) = [⟨.read, fun _ => 0, 0x20020000, 0, 8, 2⟩,
      ⟨.write, fun i => i.toUInt8, 0x20020000, 16, 7, 2⟩] ∧
    Session (faultFree jv.sectorSize.toNat 24) jvDriver (start (fun _ => 0x5A) fun _ _ => 0) es s' ∧
      Latest (faultFree jv.sectorSize.toNat 24) (start (fun _ => 0x5A) fun _ _ => 0) es s' := by
  obtain ⟨⟨es, s', hmap, hsess⟩, hall⟩ := block_store jv_opened (by decide) (by decide) (w := 24) (by decide)
    (fun _ => 0x5A) (fun _ _ => 0) [⟨.read, fun _ => 0, 0x20020000, 0, 8, 2⟩,
      ⟨.write, fun i => i.toUInt8, 0x20020000, 16, 7, 2⟩]
    (by simp only [List.forall_mem_cons, Request.InRange]; decide)
  exact ⟨es, s', hmap, hsess, hall es s' hmap hsess⟩

end QspiFlash.Block.Store
