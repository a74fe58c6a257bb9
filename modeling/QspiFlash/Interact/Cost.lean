/-
  QspiFlash.Interact.Cost — how long a program may wait for its answers.

  `clock limit` is the environment where a question may have any answer, and may take up to
  its limit for it. In it
  - `Spends limit p Q`: a run of `p` that returns `a` after `n` has `Q a n`;
  - `Within limit p N`: no run of `p` takes more than `N`;
  - `Takes limit p a n`: there is a run of `p` that returns `a` and takes `n`;
  - `Peaks limit p a n`: no run of `p` takes more than `n`, and one that returns `a` takes that.

  Times add up along a sequence (`Spends.seq`, `Within.bind`, `Takes.bind`, `Peaks.bind`), and
  what peaks has its greatest time there (`Peaks.isGreatest`).
-/

import QspiFlash.Interact.Env
import Mathlib.Order.Bounds.Basic

namespace Interact

variable {C : Type} {R : C → Type} {α β : Type} {limit : C → Nat}

def clock (limit : C → Nat) : Env C R Nat where
  guard _ _ := True
  step t c _ t' := t ≤ t' ∧ t' ≤ t + limit c

def Spends (limit : C → Nat) (p : Prog C R α) (Q : α → Nat → Prop) : Prop :=
  ∀ t, wp (clock limit) p (fun a t' => ∃ n, t' = t + n ∧ Q a n) t

def Within (limit : C → Nat) (p : Prog C R α) (N : Nat) : Prop := Spends limit p fun _ n => n ≤ N

def Takes (limit : C → Nat) (p : Prog C R α) (a : α) (n : Nat) : Prop :=
  ∀ t, Runs (clock limit) p t a (t + n)

structure Peaks (limit : C → Nat) (p : Prog C R α) (a : α) (n : Nat) : Prop where
  within : Within limit p n
  takes : Takes limit p a n

/-! ## At most -/

theorem Spends.pure {a : α} {Q : α → Nat → Prop} (h : Q a 0) : Spends limit (Pure.pure a : Prog C R α) Q :=
  fun _ => ⟨0, rfl, h⟩

theorem Spends.mono {p : Prog C R α} {Q Q' : α → Nat → Prop} (h : Spends limit p Q) (hQ : ∀ a n, Q a n → Q' a n) :
    Spends limit p Q' :=
  fun t => wp_mono (h t) fun a _ ⟨n, ht, hq⟩ => ⟨n, ht, hQ a n hq⟩

theorem Spends.seq {p : Prog C R α} {f : α → Prog C R β} {P : α → Nat → Prop} {Q : β → Nat → Prop}
    (hp : Spends limit p P) (hf : ∀ a m, P a m → Spends limit (f a) fun b n => Q b (m + n)) :
    Spends limit (p >>= f) Q := by
  intro t
  refine wp_seq (hp t) ?_
  intro a _ hpost
  obtain ⟨m, rfl, hm⟩ := hpost
  refine wp_mono (hf a m hm (t + m)) ?_
  intro b _ hpost
  obtain ⟨n, rfl, hn⟩ := hpost
  exact ⟨m + n, Nat.add_assoc t m n, hn⟩

theorem Spends.ite {c : Prop} [Decidable c] {p q : Prog C R α} {Q : α → Nat → Prop} (hp : c → Spends limit p Q)
    (hq : ¬ c → Spends limit q Q) : Spends limit (if c then p else q) Q := by
  split
  · exact hp ‹_›
  · exact hq ‹_›

/-- Questions answered at once take no time. -/
theorem Spends.free {p : Prog C R α} (hp : p.All fun c => limit c = 0) : Spends limit p fun _ n => n = 0 := by
  intro t
  have hnone : wp (clock limit) p (fun _ t' => t' = t) t := by
    refine wp_inv (fun _ _ _ _ => trivial) (fun s c _ s' hc hi hs => ?_) hp rfl
    have hstep : s ≤ s' ∧ s' ≤ s + limit c := hs
    omega
  exact wp_mono hnone fun a _ h => ⟨0, h, rfl⟩

theorem Within.pure {a : α} {N : Nat} : Within limit (Pure.pure a : Prog C R α) N := Spends.pure (Nat.zero_le N)

theorem Within.bind {p : Prog C R α} {f : α → Prog C R β} {M N : Nat} (hp : Within limit p M)
    (hf : ∀ a, Within limit (f a) N) : Within limit (p >>= f) (M + N) :=
  Spends.seq hp fun a _ hm => (hf a).mono fun _ _ hn => Nat.add_le_add hm hn

theorem Within.ask (c : C) : Within limit (Prog.ask c : Prog C R (R c)) (limit c) := by
  refine fun t => ⟨trivial, fun r t' hs => ⟨t' - t, ?_, ?_⟩⟩
  · exact (Nat.add_sub_cancel' hs.1).symm
  · exact Nat.sub_le_iff_le_add'.mpr hs.2

/-! ## As much as that -/

theorem Takes.pure (a : α) : Takes limit (Pure.pure a : Prog C R α) a 0 := fun t => .ret a t

theorem Takes.bind {p : Prog C R α} {f : α → Prog C R β} {a : α} {b : β} {m n : Nat} (hp : Takes limit p a m)
    (hf : Takes limit (f a) b n) : Takes limit (p >>= f) b (m + n) := by
  intro t
  have hrest := hf (t + m)
  rw [Nat.add_assoc] at hrest
  exact (hp t).bind hrest

theorem Takes.ask (c : C) (r : R c) {n : Nat} (hn : n ≤ limit c) : Takes limit (Prog.ask c : Prog C R (R c)) r n :=
  fun t => .call ⟨Nat.le_add_right t n, Nat.add_le_add_left hn t⟩ (.ret r (t + n))

/-- The answer `r` may come at once. -/
theorem Takes.answered {c : C} {k : R c → Prog C R α} {a : α} {n : Nat} (r : R c) (h : Takes limit (k r) a n) :
    Takes limit (.call c k) a n := fun t => .call ⟨Nat.le_refl t, Nat.le_add_right t _⟩ (h t)

/-- Any answers may come at once. -/
theorem Takes.unit (hne : ∀ c, Nonempty (R c)) (p : Prog C R Unit) : Takes limit p () 0 := by
  induction p with
  | ret a => exact .pure a
  | call c k ih =>
    obtain ⟨r⟩ := hne c
    exact .answered r (ih r)

/-! ## Exactly -/

theorem Peaks.pure (a : α) : Peaks limit (Pure.pure a : Prog C R α) a 0 := ⟨.pure, .pure a⟩

theorem Peaks.ask (c : C) (r : R c) : Peaks limit (Prog.ask c : Prog C R (R c)) r (limit c) :=
  ⟨.ask c, .ask c r (Nat.le_refl _)⟩

theorem Peaks.bind {p : Prog C R α} {f : α → Prog C R β} {a : α} {b : β} {m n : Nat} (hp : Peaks limit p a m)
    (hw : ∀ a, Within limit (f a) n) (ht : Takes limit (f a) b n) : Peaks limit (p >>= f) b (m + n) :=
  ⟨hp.within.bind hw, hp.takes.bind ht⟩

theorem Peaks.isGreatest {p : Prog C R α} {a : α} {n : Nat} (h : Peaks limit p a n) :
    IsGreatest {t | ∃ a, Runs (clock limit) p 0 a t} n := by
  have hend := h.takes 0
  rw [Nat.zero_add] at hend
  refine ⟨⟨a, hend⟩, ?_⟩
  intro t hpost
  obtain ⟨a', hr⟩ := hpost
  obtain ⟨m, ht, hm⟩ := wp_runs (h.within 0) hr
  rwa [ht, Nat.zero_add]

end Interact
