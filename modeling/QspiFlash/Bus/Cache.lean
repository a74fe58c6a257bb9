/-
  QspiFlash.Bus.Cache — the cache maintenance before a DMA transfer, with the D-cache on.

  The bus answers as it likes; it only keeps which ranges have been maintained since the last
  command (`St.done`), and allows a DMA start only if every cached line of the bytes it moves
  is in one of them (`guard`): cleaned and invalidated for a receive, cleaned for a transmit.

  `invalidate_dcache` and `clean_dcache` round the start and the length down apart and add one
  line. That reaches the last line only if what the two roundings cut off is at most a line
  (`Reaches`), and if the length they pass does not wrap.

  - `read_iff`, `pageWrite_iff`, `writeLoop_iff`: one transfer, and a write's.
  - `maintained_iff`: when the lines are maintained, and `line_missed`: not always.
-/

import QspiFlash.Bus.PageSplit
import QspiFlash.Memory.Lines

namespace QspiFlash.Bus.Cache

open Interact Driver
open Lines (Meets Within)
open NorArray (cells)

/-- A call of `SCB_CleanInvalidateDCache_by_Addr` or `SCB_CleanDCache_by_Addr`. -/
structure Maintained where
  invalidated : Bool
  start : Nat
  count : Nat

structure St where
  cmd : QspiCommand
  /-- The ranges maintained since that command. -/
  done : List Maintained

/-- Every line of the `n` bytes at `a`, from `base` on, is in a range that `P` accepts. -/
def Done (done : List Maintained) (P : Maintained → Prop) (base a n : Nat) : Prop :=
  ∀ line, base ≤ 32 * line → Meets 32 a n line → ∃ x ∈ done, P x ∧ Within 32 x.start x.count line

def guard (base : Nat) (s : St) : Call → Prop
  | .halReceiveDMA p => Done s.done (·.invalidated = true) base p.addr s.cmd.nbData
  | .halTransmitDMA p => Done s.done (fun _ => True) base p.addr s.cmd.nbData
  | _ => True

def next (s : St) : Call → St
  | .halCommand cmd _ => ⟨cmd, []⟩
  | .cleanInvalidateDCache start count => { s with done := s.done ++ [⟨true, start, count⟩] }
  | .cleanDCache start count => { s with done := s.done ++ [⟨false, start, count⟩] }
  | _ => s

/-- The D-cache is enabled. -/
def CacheOn : (c : Call) → c.Resp → Prop
  | .dcacheEnabled, r => r = true
  | _, _ => True

/-- Lines from `base` on are cached. -/
def cache (base : Nat) : Env Call Call.Resp St where
  guard := guard base
  step s c r s' := CacheOn c r ∧ s' = next s c

/-- Rounding the start and the length down apart and adding a line reaches the last line, and
    the length passed is not 2^32. -/
def Reaches (a n : Nat) : Prop := a % 32 + n % 32 ≤ 32 ∧ n + 32 < 2 ^ 32

instance (a n : Nat) : Decidable (Reaches a n) := inferInstanceAs (Decidable (_ ∧ _))

/-- The rounding reaches the last line, or that line is not cached. -/
def Safe (base a n : Nat) : Prop := Reaches a n ∨ 32 * ((a + n - 1) / 32) < base

instance (base a n : Nat) : Decidable (Safe base a n) := inferInstanceAs (Decidable (_ ∨ _))

/-! ## The rounding -/

/-- What both functions pass for the `n` bytes at `a`. -/
def rounded (invalidated : Bool) (a n : Nat) : Maintained :=
  ⟨invalidated, a &&& 0xFFFFFFE0, ((n &&& 0xFFFFFFE0) + 32) % 2 ^ 32⟩

theorem rounded_eq {a n : Nat} (h : a + n + 32 ≤ 2 ^ 32) (v : Bool) :
    rounded v a n = ⟨v, a / 32 * 32, (n / 32 * 32 + 32) % 2 ^ 32⟩ := by
  have hmask : (0xFFFFFFE0 : Nat) = 2 ^ 32 - 2 ^ 5 := rfl
  unfold rounded
  rw [hmask, Lines.and_mask (by omega) (by omega), Lines.and_mask (by omega) (by omega)]
  rfl

theorem rounded_done {base a n : Nat} (h : a + n + 32 ≤ 2 ^ 32) {v : Bool} {P : Maintained → Prop}
    (hP : P (rounded v a n)) :
    Done [rounded v a n] P base a n ↔ Safe base a n := by
  rw [rounded_eq h] at hP ⊢
  constructor
  · intro hdone
    by_contra hsafe
    obtain ⟨hreach, hcached⟩ := not_or.mp hsafe
    have hn : 0 < n := by
      by_contra hn
      exact hreach ⟨by omega, by omega⟩
    obtain ⟨x, hx, -, hin⟩ := hdone _ (Nat.le_of_not_lt hcached) (Lines.meets_last hn)
    obtain rfl := List.mem_singleton.mp hx
    by_cases hwrap : n + 32 < 2 ^ 32
    · rw [Nat.mod_eq_of_lt (by omega)] at hin
      exact hreach ⟨(Lines.within_rounded (by omega) hn).mp hin, hwrap⟩
    · -- the length passed is 0
      have hend := hin.2
      simp only at hend
      omega
  · intro hsafe line hcached hmeets
    refine ⟨_, List.mem_singleton.mpr rfl, hP, ?_⟩
    rcases hsafe with ⟨hreach, hwrap⟩ | hlast
    · have hin := Lines.within_of_meets hreach (by omega) hmeets
      simp only
      rwa [Nat.mod_eq_of_lt (by omega)]
    · have hle := (Lines.meets_bounds hmeets).2
      omega

/-! ## The two functions -/

variable {base : Nat} {p : Ptr} {n : Nat} {s : St}

theorem wp_u32 {x : Nat} {α : Type} {f : Nat → M α} {Q : α → St → Prop} :
    wp (cache base) (u32 x >>= f) Q s ↔ wp (cache base) (f (x % 2 ^ 32)) Q s := by
  unfold u32
  by_cases hx : x < 2 ^ 32
  · rw [if_pos hx, pure_bind, Nat.mod_eq_of_lt hx]
  · rw [if_neg hx]
    constructor
    · intro h
      exact h.2 () s ⟨trivial, rfl⟩
    · intro h
      refine ⟨trivial, fun _ s' hs => ?_⟩
      rw [hs.2]
      exact h

theorem invalidateDcache_spec : wp (cache base) (invalidateDcache p n)
    (fun _ s' => s' = { s with done := s.done ++ [rounded true p.addr n] }) s := by
  refine ⟨trivial, fun r s₁ hs => ?_⟩
  obtain ⟨rfl, rfl⟩ := hs
  refine wp_u32.mpr ⟨trivial, fun _ s₂ hs => ?_⟩
  rw [hs.2]
  rfl

theorem cleanDcache_spec : wp (cache base) (cleanDcache p n)
    (fun _ s' => s' = { s with done := s.done ++ [rounded false p.addr n] }) s := by
  refine ⟨trivial, fun r s₁ hs => ?_⟩
  obtain ⟨rfl, rfl⟩ := hs
  refine wp_u32.mpr ⟨trivial, fun _ s₂ hs => ?_⟩
  rw [hs.2]
  rfl

/-! ## One transfer -/

theorem cache_obliging : Obliging (cache base) where
  total s c := by
    cases c with
    | timedWait t => exact ⟨true, _, trivial, rfl⟩
    | load p => exact ⟨0, _, trivial, rfl⟩
    | idBytes => exact ⟨(0, 0, 0), _, trivial, rfl⟩
    | dcacheEnabled => exact ⟨true, _, rfl, rfl⟩
    | nullDeref => exact ⟨0, _, trivial, rfl⟩
    | _ => first | exact ⟨(), _, trivial, rfl⟩ | exact ⟨HalStatus.ok, _, trivial, rfl⟩
  command _ _ _ := ⟨_, trivial, rfl⟩
  receive _ _ := ⟨_, trivial, rfl⟩
  transmit _ _ := ⟨_, trivial, rfl⟩
  poll _ _ _ := ⟨_, trivial, rfl⟩
  wait _ _ := ⟨_, trivial, rfl⟩

theorem cache_latches : Latches (cache base) fun cmd => ⟨cmd, []⟩ where
  allowed _ _ _ := trivial
  abort _ := trivial
  sent _ _ _ _ _ hs := hs.2
  goesWell _ _ _ := ⟨trivial, rfl⟩

theorem addr_add (h : p.base + p.off + n + 32 ≤ 2 ^ 32) : p.addr = p.base + p.off ∧ (p.add n).addr = p.addr + n := by
  unfold Ptr.addr
  rw [Ptr.add_base, Ptr.add_off]
  omega

/-- The maintenance of a transfer and its start: the start is allowed exactly if it is safe. -/
theorem maintain_iff {m : M Unit} {k : M QspiResult} {cmd : QspiCommand} {v : Bool} {P : Maintained → Prop}
    (hp : p.base + p.off + n + 32 ≤ 2 ^ 32) (hP : P (rounded v p.addr n))
    (hm : ∀ s, wp (cache base) m (fun _ s' => s' = { s with done := s.done ++ [rounded v p.addr n] }) s)
    (hk : ∀ s, s.cmd = cmd → (wp (cache base) k (fun _ _ => True) s ↔ Done s.done P base p.addr n)) :
    wp (cache base) (if (p.add n).addr ≥ base then m >>= fun _ => k else k) (fun _ _ => True) ⟨cmd, []⟩ ↔
      Safe base p.addr n := by
  obtain ⟨haddr, hend⟩ := addr_add hp
  rw [hend]
  by_cases hc : p.addr + n ≥ base
  · rw [if_pos hc, ← rounded_done (by omega) hP]
    constructor
    · intro h
      obtain ⟨_, s₁, hrun, rfl⟩ := exists_run (fun s c _ => cache_obliging.total s c) (hm ⟨cmd, []⟩)
      exact (hk _ rfl).mp (wp_rest h hrun)
    · intro h
      refine wp_seq (hm _) fun _ s₁ hs => ?_
      subst hs
      exact (hk _ rfl).mpr h
  · -- no byte of the buffer is cached
    rw [if_neg hc, hk _ rfl]
    constructor
    · intro _
      by_cases hn : n = 0
      · exact Or.inl ⟨by omega, by omega⟩
      · exact Or.inr (by omega)
    · intro _ line hcached hmeets
      obtain ⟨x, -, hx, rfl⟩ := hmeets
      omega

theorem read_iff {q : Qspi} {d : QspiDevice} (hq : q.pdevice = some d) (hp : p.base + p.off + n + 32 ≤ 2 ^ 32) (a : Nat) :
    wp (cache q.sram1Base) (Driver.read q a p n) (fun _ _ => True) s ↔ Safe q.sram1Base p.addr n := by
  unfold Driver.read
  rw [hq]
  refine cache_latches.onOk_iff.trans (maintain_iff hp (P := (·.invalidated = true)) rfl (fun s => invalidateDcache_spec) ?_)
  rintro ⟨cmd, done⟩ rfl
  exact receive_iff ⟨fun _ => trivial, fun _ => trivial⟩

theorem pageWrite_iff (q : Qspi) (hp : p.base + p.off + n + 32 ≤ 2 ^ 32) (a : Nat) :
    wp (cache q.sram1Base) (pageWrite q a p n) (fun _ _ => True) s ↔ Safe q.sram1Base p.addr n := by
  unfold pageWrite
  refine cache_latches.onOk_iff.trans (cache_latches.onOk_iff.trans
    (maintain_iff hp (P := fun _ => True) trivial (fun s => cleanDcache_spec) ?_))
  rintro ⟨cmd, done⟩ rfl
  refine transmit_iff (all_onOk ⟨fun _ => trivial, fun _ => trivial⟩ ?_)
  exact all_onOk ⟨fun _ => trivial, fun _ => trivial⟩ ⟨fun _ => trivial, fun _ => trivial⟩

/-! ## A write -/

/-- The pages of a write, also where the address passes 2^32: only its offset in the page
    counts. -/
theorem writeLoop_iff (q : Qspi) : ∀ {n a a' : Nat} {p : Ptr} {s : St}, a % 256 = a' % 256 → 0 < n →
    p.base + p.off + n + 32 ≤ 2 ^ 32 → (wp (cache q.sram1Base) (writeLoop q a' p n) (fun _ _ => True) s ↔
      ∀ x ∈ cells 256 a n, Safe q.sram1Base (p.addr + (x.1 - a)) x.2) := by
  intro n
  induction n using Nat.strongRecOn with
  | ind n ih =>
    intro a a' p s ha hn hp
    have hm := Nat.mod_lt a (show 0 < 256 by omega)
    rw [writeLoop, inBlockCount_eq, ← ha, NorArray.cells_cons (by omega) hn, List.forall_mem_cons, Nat.sub_self,
      Nat.add_zero]
    generalize hmin : min (256 - a % 256) n = m
    have hpage := pageWrite_iff (s := s) (n := m) q (p := p) (by omega) a'
    obtain ⟨-, haddr⟩ := addr_add (p := p) (n := m) (by omega)
    have hrest : ∀ s₁, (wp (cache q.sram1Base) (u32 (a' + m) >>= fun address' => if _h : n - m > 0 then
        writeLoop q address' (p.add m) (n - m) else pure .ok) (fun _ _ => True) s₁ ↔
        ∀ x ∈ (if n - m > 0 then cells 256 (a + m) (n - m) else []), Safe q.sram1Base (p.addr + (x.1 - a)) x.2) := by
      intro s₁
      by_cases hmore : n - m > 0
      · rw [if_pos hmore]
        have hcells : (∀ x ∈ cells 256 (a + m) (n - m), Safe q.sram1Base ((p.add m).addr + (x.1 - (a + m))) x.2) ↔
            ∀ x ∈ cells 256 (a + m) (n - m), Safe q.sram1Base (p.addr + (x.1 - a)) x.2 := by
          refine forall₂_congr fun x hx => ?_
          have hle := NorArray.cells_start hx
          rw [haddr, show p.addr + m + (x.1 - (a + m)) = p.addr + (x.1 - a) by omega]
        have hloop : ∀ s₂, wp (cache q.sram1Base) (writeLoop q ((a' + m) % 2 ^ 32) (p.add m) (n - m)) (fun _ _ => True) s₂ ↔
            ∀ x ∈ cells 256 (a + m) (n - m), Safe q.sram1Base (p.addr + (x.1 - a)) x.2 := by
          intro s₂
          rw [← hcells]
          exact ih (n - m) (by omega) (by omega) hmore (by rw [Ptr.add_base, Ptr.add_off]; omega)
        rw [wp_u32, dif_pos hmore]
        exact hloop s₁
      · rw [wp_u32, dif_neg hmore, if_neg hmore]
        exact ⟨fun _ _ hx => absurd hx List.not_mem_nil, fun _ => trivial⟩
    constructor
    · intro h
      obtain ⟨s₁, hrun⟩ := cache_obliging.pageWrite q a' p m s
      exact ⟨hpage.mp (wp_first h), (hrest s₁).mp (wp_onOk_rest h hrun)⟩
    · intro h
      exact wp_onOk (wp_mono (hpage.mpr h.1) fun r s₁ _ => ⟨fun _ => (hrest s₁).mpr h.2, fun _ => trivial⟩)

theorem safe_empty (base a : Nat) : Safe base a 0 := Or.inl ⟨by omega, by omega⟩

theorem write_iff {q : Qspi} {d : QspiDevice} (hq : q.pdevice = some d) (hp : p.base + p.off + n + 32 ≤ 2 ^ 32) (a : Nat) :
    wp (cache q.sram1Base) (write q a p n) (fun _ _ => True) s ↔
      ∀ x ∈ cells 256 a n, Safe q.sram1Base (p.addr + (x.1 - a)) x.2 := by
  unfold write
  rw [hq]
  by_cases hn : 0 < n
  · exact writeLoop_iff q rfl hn hp
  -- nothing to write: one page write of no bytes
  obtain rfl : n = 0 := by omega
  refine ⟨fun _ x hx => ?_, fun _ => ?_⟩
  · rw [NorArray.cells_empty hx]
    exact safe_empty _ _
  · show wp (cache q.sram1Base) (writeLoop q a p 0) (fun _ _ => True) s
    rw [writeLoop, inBlockCount_eq, Nat.min_zero]
    refine wp_onOk (wp_mono ((pageWrite_iff q hp a).mpr (safe_empty _ _)) fun r s₁ _ => ⟨fun _ => ?_, fun _ => trivial⟩)
    rw [wp_u32, dif_neg (by omega)]
    trivial

/-! ## When the lines are maintained -/

/-- After `maintain`, every line of the `n` bytes at `p` is in the range it passed. -/
def Covers (maintain : Ptr → Nat → M Unit) (p : Ptr) (n : Nat) : Prop :=
  ∀ cmd u s', Runs (cache 0) (maintain p n) ⟨cmd, []⟩ u s' → Done s'.done (fun _ => True) 0 p.addr n

theorem covers_iff {maintain : Ptr → Nat → M Unit} {v : Bool} (hp : p.base + p.off + n + 32 ≤ 2 ^ 32)
    (hm : ∀ s, wp (cache 0) (maintain p n) (fun _ s' => s' = { s with done := s.done ++ [rounded v p.addr n] }) s) :
    Covers maintain p n ↔ Reaches p.addr n := by
  obtain ⟨haddr, -⟩ := addr_add hp
  have hsafe : Safe 0 p.addr n ↔ Reaches p.addr n := ⟨fun h => h.resolve_right (Nat.not_lt_zero _), Or.inl⟩
  rw [← hsafe, ← rounded_done (v := v) (P := fun _ => True) (by omega) trivial]
  constructor
  · intro h
    obtain ⟨_, s', hrun, rfl⟩ := exists_run (fun s c _ => cache_obliging.total s c)
      (hm ⟨{ instruction := .READ_STATUS_REGISTER, instructionMode := .none }, []⟩)
    exact h _ _ _ hrun
  · intro h cmd u s' hrun
    rw [wp_runs (hm _) hrun]
    exact h

/-- The questions of a program are allowed from every state, or from none. -/
theorem asks_iff {α : Type} {k : M α} {c : Prop} (h : ∀ s, wp (cache base) k (fun _ _ => True) s ↔ c) :
    (∀ s c s', Asks (cache base) k s c s' → guard base s' c) ↔ c := by
  constructor
  · intro hask
    exact (h ⟨{ instruction := .READ_STATUS_REGISTER, instructionMode := .none }, []⟩).mp (wp_iff_asks.mpr (hask _))
  · exact fun hc s => wp_iff_asks.mp ((h s).mpr hc)

/-- Both functions pass a range with every line of the `n` bytes at `p` exactly if the rounding
    reaches the last line; a read, and each piece of a write at any address, starts its DMA
    with its cached lines maintained exactly if so, or if the last line is not cached. -/
theorem maintained_iff (q : Qspi) (hp : p.base + p.off + n + 32 ≤ 2 ^ 32) (a : Nat) :
    (Covers invalidateDcache p n ↔ Reaches p.addr n) ∧ (Covers cleanDcache p n ↔ Reaches p.addr n) ∧
    ((∀ s c s', Asks (cache q.sram1Base) (Driver.read q a p n) s c s' → guard q.sram1Base s' c) ↔
      q.pdevice = none ∨ Safe q.sram1Base p.addr n) ∧
    ((∀ s c s', Asks (cache q.sram1Base) (write q a p n) s c s' → guard q.sram1Base s' c) ↔
      q.pdevice = none ∨ ∀ x ∈ cells 256 a n, Safe q.sram1Base (p.addr + (x.1 - a)) x.2) := by
  refine ⟨covers_iff hp fun _ => invalidateDcache_spec, covers_iff hp fun _ => cleanDcache_spec, ?_, ?_⟩
  · apply asks_iff
    intro s
    cases hq : q.pdevice with
    | none => exact iff_of_true (by rw [Driver.read, hq]; trivial) (Or.inl rfl)
    | some d => exact (read_iff hq hp a).trans (by simp)
  · apply asks_iff
    intro s
    cases hq : q.pdevice with
    | none => exact iff_of_true (by rw [write, hq]; trivial) (Or.inl rfl)
    | some d => exact (write_iff hq hp a).trans (by simp)

/-- 256 bytes at the start of a line. -/
theorem maintained_line : Covers invalidateDcache ⟨.caller, 0x20020000, 0⟩ 256 ∧
    ∀ s c s', Asks (cache 0x20010000) (write jvDriver 250 ⟨.caller, 0x20020000, 0⟩ 6) s c s' → guard 0x20010000 s' c := by
  have hread := maintained_iff jvDriver (p := ⟨.caller, 0x20020000, 0⟩) (n := 256) (by decide) 0
  have hwrite := maintained_iff jvDriver (p := ⟨.caller, 0x20020000, 0⟩) (n := 6) (by decide) 250
  exact ⟨hread.1.mpr (by decide), hwrite.2.2.2.mpr (Or.inr (by decide))⟩

/-- Two bytes, the last of one line and the first of the next: the second line is missed, and
    a read into them starts without it. -/
theorem line_missed : ¬ Covers invalidateDcache ⟨.caller, 0x20020000, 31⟩ 2 ∧
    ¬ ∀ s c s', Asks (cache 0x20010000) (Driver.read jvDriver 0 ⟨.caller, 0x20020000, 31⟩ 2) s c s' →
      guard 0x20010000 s' c := by
  constructor
  · rw [covers_iff (by decide) fun _ => invalidateDcache_spec]
    decide
  · have hread : ∀ s, wp (cache 0x20010000) (Driver.read jvDriver 0 ⟨.caller, 0x20020000, 31⟩ 2) (fun _ _ => True) s ↔
        Safe 0x20010000 (Ptr.addr ⟨.caller, 0x20020000, 31⟩) 2 :=
          fun s => read_iff (q := jvDriver) (d := jv) rfl (by decide) 0
    rw [asks_iff hread]
    decide

end QspiFlash.Bus.Cache
