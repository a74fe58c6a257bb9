/-
  QspiFlash.Interact.Simulate — one environment answering as another.

  `Simulates E F rel` says that from related states each step of `E` on an allowed question
  is one of `F`, with the same answer, and leads to related states. What a program does in
  `E` is then something it does in `F`: where its questions are allowed (`Runs.simulated`), or
  in an `E` that allows every question (`Runs.simulated_of_free`).

  `Tracks E F rel` says it of the questions `F` allows: a `wp` proved in `F` is then one in `E`.

  `E.guarded guard` is `E` where only the questions of `guard` are allowed, and `E.beside next` is
  `E` with a state beside its own that follows the questions. With the two, a `wp` says what
  holds at every question of a run (`asks_guarded`).
-/

import QspiFlash.Interact.Env

namespace Interact

variable {C : Type} {R : C → Type} {S T α : Type} {E : Env C R S} {F : Env C R T} {rel : S → T → Prop}

def Simulates (E : Env C R S) (F : Env C R T) (rel : S → T → Prop) : Prop :=
  ∀ s t c r s', rel s t → E.guard s c → E.step s c r s' → ∃ t', F.step t c r t' ∧ rel s' t'

theorem Runs.simulated (h : Simulates E F rel) {p : Prog C R α} {Q : α → S → Prop} {s s' : S} {a : α}
    (hr : Runs E p s a s') (hw : wp E p Q s) {t : T} (hst : rel s t) : ∃ t', Runs F p t a t' ∧ rel s' t' := by
  induction hr generalizing t with
  | ret a s => exact ⟨t, .ret a t, hst⟩
  | call hs _ ih =>
    obtain ⟨t₁, hstep, hrel⟩ := h _ _ _ _ _ hst hw.1 hs
    obtain ⟨t₂, hrun, hend⟩ := ih (hw.2 _ _ hs) hrel
    exact ⟨t₂, .call hstep hrun, hend⟩

theorem Runs.simulated_of_free (h : Simulates E F rel) (hg : ∀ s c, E.guard s c) {p : Prog C R α} {s s' : S} {a : α}
    (hr : Runs E p s a s') {t : T} (hst : rel s t) : ∃ t', Runs F p t a t' ∧ rel s' t' :=
  hr.simulated h (wp_allowed (Prog.all_of_forall (fun c s => hg s c) p) s) hst

/-- From related states what `F` allows `E` does, and a step of `E` on it is one of `F`. -/
def Tracks (E : Env C R S) (F : Env C R T) (rel : S → T → Prop) : Prop :=
  ∀ s t c, rel s t → F.guard t c → E.guard s c ∧ ∀ r s', E.step s c r s' → ∃ t', F.step t c r t' ∧ rel s' t'

/-- The environment `E`, allowing only the questions `guard` does. -/
def Env.guarded (E : Env C R S) (guard : S → C → Prop) : Env C R S := { E with guard := guard }

theorem asks_guarded {guard : S → C → Prop} {p : Prog C R α} {s s' : S} {c : C} (ha : Asks E p s c s') :
    Asks (E.guarded guard) p s c s' := by
  induction ha with
  | here => exact .here
  | later hs _ ih => exact .later hs ih

theorem runs_guarded {guard : S → C → Prop} {p : Prog C R α} {s s' : S} {a : α} (hr : Runs E p s a s') :
    Runs (E.guarded guard) p s a s' := by
  induction hr with
  | ret a s => exact .ret a s
  | call hs _ ih => exact .call hs ih

/-- The environment `E`, with what `next` makes of the questions beside its state. -/
def Env.beside (E : Env C R S) (next : S × T → C → T) : Env C R (S × T) where
  guard y c := E.guard y.1 c
  step y c r y' := E.step y.1 c r y'.1 ∧ y'.2 = next y c

end Interact
