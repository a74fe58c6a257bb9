/-
  QspiFlash.Interact.Interleave — a program beside an environment that moves by itself.

  Between two questions of the program the environment may take any number of moves
  `tau` of its own (interrupts, a device finishing its work). `IStep` is the small-step
  relation of the two side by side: either the program asks and is answered, or the
  environment moves.

  `Env.moving` folds the moves into the answers, so that `wp` speaks about every
  interleaving: `wp_isteps` says that a `wp` there is kept by every step of `IStep`, and
  `isteps_result`, `isteps_guard` read it at a result and at a question.
-/

import Mathlib.Logic.Relation
import QspiFlash.Interact.Env

namespace Interact

open Relation (ReflTransGen)

variable {C : Type} {R : C → Type} {S α β : Type}

inductive IStep (E : Env C R S) (tau : S → S → Prop) : Prog C R α × S → Prog C R α × S → Prop
  | ask {c : C} {k : R c → Prog C R α} {s s' : S} {r : R c} :
      E.step s c r s' → IStep E tau (.call c k, s) (k r, s')
  | move {p : Prog C R α} {s s' : S} : tau s s' → IStep E tau (p, s) (p, s')

/-- The environment whose answers come after any number of its own moves. -/
def Env.moving (E : Env C R S) (tau : S → S → Prop) : Env C R S where
  guard s c := ∀ s₁, ReflTransGen tau s s₁ → E.guard s₁ c
  step s c r s' := ∃ s₁, ReflTransGen tau s s₁ ∧ E.step s₁ c r s'

/-- A postcondition the environment's own moves keep. -/
def Stable (tau : S → S → Prop) (P : S → Prop) : Prop := ∀ s s', P s → tau s s' → P s'

variable {E : Env C R S} {tau : S → S → Prop}

theorem Stable.star {P : S → Prop} (h : Stable tau P) {s s' : S} (hs : ReflTransGen tau s s') (hp : P s) : P s' := by
  induction hs with
  | refl => exact hp
  | tail _ ht ih => exact h _ _ ih ht

theorem wp_move {p : Prog C R α} {Q : α → S → Prop} (hq : ∀ a, Stable tau (Q a)) {s s' : S}
    (h : wp (E.moving tau) p Q s) (ht : tau s s') : wp (E.moving tau) p Q s' := by
  cases p with
  | ret a => exact hq a s s' h ht
  | call c k =>
    exact ⟨fun s₁ hs => h.1 s₁ (.head ht hs), fun r s'' ⟨s₁, hs, he⟩ => h.2 r s'' ⟨s₁, .head ht hs, he⟩⟩

/-- Every step of the program and its environment side by side keeps a `wp`. -/
theorem wp_isteps {Q : α → S → Prop} (hq : ∀ a, Stable tau (Q a)) {x y : Prog C R α × S}
    (hr : ReflTransGen (IStep E tau) x y) (h : wp (E.moving tau) x.1 Q x.2) : wp (E.moving tau) y.1 Q y.2 := by
  induction hr with
  | refl => exact h
  | tail _ hs ih =>
    cases hs with
    | ask he => exact ih.2 _ _ ⟨_, .refl, he⟩
    | move ht => exact wp_move hq ih ht

theorem isteps_result {p : Prog C R α} {Q : α → S → Prop} (hq : ∀ a, Stable tau (Q a)) {s s' : S} {a : α}
    (hr : ReflTransGen (IStep E tau) (p, s) (.ret a, s')) (h : wp (E.moving tau) p Q s) : Q a s' :=
  wp_isteps hq hr h

theorem isteps_guard {p : Prog C R α} {Q : α → S → Prop} (hq : ∀ a, Stable tau (Q a)) {s s' : S} {c : C}
    {k : R c → Prog C R α} (hr : ReflTransGen (IStep E tau) (p, s) (.call c k, s'))
    (h : wp (E.moving tau) p Q s) : E.guard s' c :=
  (wp_isteps hq hr h).1 s' .refl

/-! ## Building interleaved runs -/

theorem IStep.bind {p p' : Prog C R α} {s s' : S} (f : α → Prog C R β) (h : IStep E tau (p, s) (p', s')) :
    IStep E tau (p >>= f, s) (p' >>= f, s') := by
  cases h with
  | ask he => exact .ask he
  | move ht => exact .move ht

theorem isteps_bind {x y : Prog C R α × S} (f : α → Prog C R β) (h : ReflTransGen (IStep E tau) x y) :
    ReflTransGen (IStep E tau) (x.1 >>= f, x.2) (y.1 >>= f, y.2) := by
  induction h with
  | refl => exact .refl
  | tail _ hs ih => exact ih.tail (hs.bind f)

/-- A run whose answers come after moves of the environment is an interleaved run. -/
theorem Runs.moving_isteps {p : Prog C R α} {s s' : S} {a : α} (h : Runs (E.moving tau) p s a s') :
    ReflTransGen (IStep E tau) (p, s) (.ret a, s') := by
  induction h with
  | ret a s => exact .refl
  | @call c k s s₁ s₂ r a hs _ ih =>
    obtain ⟨s₀, hmoves, he⟩ := hs
    have hm : ReflTransGen (IStep E tau) (Prog.call c k, s) (Prog.call c k, s₀) := by
      clear ih he
      induction hmoves with
      | refl => exact .refl
      | tail _ ht ih => exact ih.tail (.move ht)
    exact hm.trans (.head (.ask he) ih)

end Interact
