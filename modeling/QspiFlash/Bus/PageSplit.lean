/-
  QspiFlash.Bus.PageSplit — `write` is `page_write` on the page cells of its range.

  - `write_eq`: as programs, so in any environment: one `page_write` for each cell, in
    ascending order, up to the first that is not `ok`.
  - `write_splits`: what that means for the outcomes, for the bytes of a NOR flash, and
    for termination.
-/

import QspiFlash.Bus.Nor
import QspiFlash.Driver.Opened

namespace QspiFlash.Bus.PageSplit

open Interact Driver Bus.Nor
open NorArray (Bytes cells Tiles)

def isOk (r : QspiResult) : Bool := decide (r = .ok)

theorem isOk_iff {r : QspiResult} : isOk r = true ↔ r = .ok := decide_eq_true_iff

/-- The page writes of `write (a, p, n)`: one for each cell, with its slice of the buffer. -/
def pageWrites (q : Qspi) (a : Nat) (p : Ptr) (n : Nat) : List (M QspiResult) :=
  (cells 256 a n).map fun c => pageWrite q c.1 (p.add (c.1 - a)) c.2

theorem onOk_eq (p k : M QspiResult) {f : QspiResult → M QspiResult} (h : f .ok = k) :
    onOk p k = (do let r ← p; if isOk r = true then f r else pure r) := by
  unfold onOk
  congr 1
  funext r
  by_cases hr : r = .ok
  · subst hr; rw [if_pos rfl, if_pos (isOk_iff.mpr rfl), h]
  · rw [if_neg hr, if_neg fun h' => hr (isOk_iff.mp h')]

theorem writeLoop_eq (q : Qspi) : ∀ {n a : Nat} {p : Ptr}, 0 < n → a + n < 2 ^ 32 →
    writeLoop q a p n = Prog.firstFailure isOk .ok (pageWrites q a p n) := by
  intro n
  induction n using Nat.strongRecOn with
  | ind n ih =>
    intro a p hn hu
    have hm := Nat.mod_lt a (show 0 < 256 by omega)
    rw [writeLoop, inBlockCount_eq, pageWrites, NorArray.cells_cons (by omega) hn, List.map_cons, Nat.sub_self,
      Ptr.add_zero]
    generalize hmin : min (256 - a % 256) n = m
    refine onOk_eq _ _ ?_
    rw [u32_lt (show a + m < 2 ^ 32 by omega), pure_bind]
    by_cases hrest : n - m > 0
    · rw [dif_pos hrest, if_pos hrest, ih (n - m) (by omega) hrest (by omega), pageWrites]
      congr 1
      refine List.map_congr_left fun c hc => ?_
      have hle := NorArray.cells_start hc
      rw [Ptr.add_add, show m + (c.1 - (a + m)) = c.1 - a by omega]
    · rw [dif_neg hrest, if_neg hrest]
      rfl

theorem write_eq {q : Qspi} {d : QspiDevice} (hq : q.pdevice = some d) {n a : Nat} (p : Ptr) (hn : 0 < n)
    (hu : a + n < 2 ^ 32) : write q a p n = Prog.firstFailure isOk .ok (pageWrites q a p n) := by
  unfold write
  rw [hq]
  exact writeLoop_eq q hn hu

/-- The outcomes of the page writes attempted, and what `write` returns of them. -/
def Outcomes (n : Nat) (rs : List QspiResult) (r : QspiResult) : Prop :=
  (r = .ok ∧ rs.length = n ∧ ∀ x ∈ rs, x = .ok) ∨ (r ≠ .ok ∧ rs.length ≤ n ∧ ∃ oks, rs = oks ++ [r] ∧ ∀ x ∈ oks, x = .ok)

theorem outcomes_iff {S : Type} {E : Env Call Call.Resp S} {ps : List (M QspiResult)} {s s' : S}
    {r : QspiResult} : Runs E (Prog.firstFailure isOk .ok ps) s r s' ↔
      ∃ rs, UpTo E isOk ps s rs s' ∧ Outcomes ps.length rs r := by
  rw [runs_firstFailure]
  refine exists_congr fun rs => and_congr_right fun hup => ?_
  have hlast : ∀ l : List QspiResult, (∀ x ∈ l, x = .ok) → l.getLastD .ok = .ok := by
    intro l hl
    rcases List.eq_nil_or_concat l with rfl | ⟨l', x, rfl⟩
    · rfl
    · rw [List.concat_eq_append, List.getLastD_concat]
      exact hl x (by simp)
  rcases hup.shape with ⟨hlen, hall⟩ | ⟨oks, x, rfl, hoks, hx, hlen⟩
  · have hall : ∀ x ∈ rs, x = .ok := fun x hx => isOk_iff.mp (hall x hx)
    constructor
    · rintro rfl
      exact Or.inl ⟨hlast rs hall, hlen, hall⟩
    · intro hcase
      rcases hcase with ⟨rfl, -, -⟩ | ⟨hr, -, oks, rfl, -⟩
      · exact (hlast rs hall).symm
      · exact absurd (hall r (by simp)) hr
  · have hne : x ≠ .ok := fun h => Bool.false_ne_true (hx.symm.trans (isOk_iff.mpr h))
    rw [List.getLastD_concat]
    constructor
    · rintro rfl
      exact Or.inr ⟨hne, hlen, oks, rfl, fun y hy => isOk_iff.mp (hoks y hy)⟩
    · intro hcase
      rcases hcase with ⟨-, -, hall⟩ | ⟨-, -, oks', he, -⟩
      · exact absurd (hall x (by simp)) hne
      · exact (List.append_inj_right' he rfl |> List.cons.inj |>.1).symm

/-- `write` of `n` bytes at `a`, inside the device. The cells tile the range, each in one
    page; in any environment the runs of `write` are those of its page writes up to the
    first failure; on a NOR chip success ANDs the data into the range and nothing else;
    and where every question has an answer, `write` returns. -/
theorem write_splits {q : Qspi} {d : QspiDevice} (hq : q.pdevice = some d) {n a : Nat} (p : Ptr) (hn : 1 ≤ n)
    (ha : a + n ≤ d.capacity) :
    Tiles 256 (a + n) a (cells 256 a n) ∧
      (∀ {S : Type} (E : Env Call Call.Resp S) (s : S) (r : QspiResult) (s' : S),
        Runs E (write q a p n) s r s' ↔
          ∃ rs, UpTo E isOk (pageWrites q a p n) s rs s' ∧ Outcomes (cells 256 a n).length rs r) ∧
      (∀ (b : Params) (f : Bytes) (m : Region → Nat → UInt8) (s' : St), d.capacity ≤ 2 ^ b.addrBits →
        Runs (nor b) (write q a p n) (start f m) .ok s' →
          ∀ x, s'.flash x = if a ≤ x ∧ x < a + n then f x &&& m p.region (p.off + (x - a)) else f x) ∧
      ∀ {S : Type} (E : Env Call Call.Resp S) (s : S), (∀ s c, ∃ r s', E.step s c r s') →
        ∃ r s', Runs E (write q a p n) s r s' := by
  have hcap := capacity_le d
  have hu : a + n < 2 ^ 32 := by omega
  refine ⟨NorArray.cells_tile (by omega) hn, fun E s r s' => ?_, fun b f m s' hw hr x => ?_, fun E s ht => ?_⟩
  · rw [write_eq hq p hn hu, outcomes_iff, pageWrites, List.length_map]
  · have hpost := wp_runs (write_spec hq p hn (Nat.le_trans ha hw) hu rfl) hr
    rw [(hpost.ok rfl).1]
    rfl
  · exact run_total ht _ s

/-- 600 bytes from 250 on: four cells, and a run. -/
theorem write_splits_jv : Tiles 256 (250 + 600) 250 (cells 256 250 600) ∧
    ∃ r s', Runs (nor (faultFree 4096 24)) (write jvDriver 250 ⟨.caller, 0x20020000, 0⟩ 600)
      (start (fun _ => 0xFF) fun _ _ => 0)
      r s' := by
  have h :=
    write_splits (q := jvDriver) (d := jv) rfl ⟨.caller, 0x20020000, 0⟩ (n := 600) (a := 250) (by decide) (by decide)
  exact ⟨h.1, h.2.2.2 _ _ fun s c => faultFree_total 4096 24 s c trivial⟩

/-- The cells that start and end inside a page. -/
example : cells 256 250 600 = [(250, 6), (256, 256), (512, 256), (768, 82)] := by decide

end QspiFlash.Bus.PageSplit
