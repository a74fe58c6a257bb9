/-
  QspiFlash.Interact.Prog — programs that ask their environment questions.

  A program over a signature of questions `C`, where question `c` has answers `R c`,
  returns or asks one question and goes on with the answer. It is a well-founded tree:
  whatever is answered, it returns after finitely many questions.

  - `All P p`: every question `p` can ask satisfies `P`, whatever the answers.
  - `firstFailure`: programs run one after the other up to the first bad result.
-/

import Mathlib.Logic.Basic

namespace Interact

inductive Prog (C : Type) (R : C → Type) (α : Type) : Type where
  | ret (a : α)
  | call (c : C) (k : R c → Prog C R α)

variable {C : Type} {R : C → Type} {α β : Type}

namespace Prog

def bind : Prog C R α → (α → Prog C R β) → Prog C R β
  | .ret a, f => f a
  | .call c k, f => .call c fun r => (k r).bind f

instance : Monad (Prog C R) where
  pure := .ret
  bind := bind

/-- Ask `c` and return the answer. -/
def ask (c : C) : Prog C R (R c) := .call c .ret

theorem bind_ret (p : Prog C R α) : p.bind .ret = p := by
  induction p with
  | ret a => rfl
  | call c k ih => simp only [bind, ih]

theorem bind_bind {γ : Type} (p : Prog C R α) (f : α → Prog C R β) (g : β → Prog C R γ) :
    (p.bind f).bind g = p.bind fun a => (f a).bind g := by
  induction p with
  | ret a => rfl
  | call c k ih => simp only [bind, ih]

instance : LawfulMonad (Prog C R) :=
  LawfulMonad.mk' _ (fun p => bind_ret p) (fun _ _ => rfl) (fun p f g => bind_bind p f g)

/-! ## Every question -/

def All (P : C → Prop) : Prog C R α → Prop
  | .ret _ => True
  | .call c k => P c ∧ ∀ r, (k r).All P

variable {P : C → Prop}

@[simp] theorem all_ask (c : C) : (ask c : Prog C R (R c)).All P ↔ P c :=
  ⟨fun h => h.1, fun h => ⟨h, fun _ => trivial⟩⟩

theorem all_bind {p : Prog C R α} {f : α → Prog C R β} (hp : p.All P) (hf : ∀ a, (f a).All P) :
    (p >>= f).All P := by
  induction p with
  | ret a => exact hf a
  | call c k ih => exact ⟨hp.1, fun r => ih r (hp.2 r)⟩

theorem All.mono {P' : C → Prop} {p : Prog C R α} (h : p.All P) (hP : ∀ c, P c → P' c) : p.All P' := by
  induction p with
  | ret a => trivial
  | call c k ih => exact ⟨hP c h.1, fun r => ih r (h.2 r)⟩

theorem all_of_forall (h : ∀ c, P c) (p : Prog C R α) : p.All P := by
  induction p with
  | ret a => trivial
  | call c k ih => exact ⟨h c, ih⟩

theorem all_ite {c : Prop} [Decidable c] {p q : Prog C R α} (hp : c → p.All P) (hq : ¬ c → q.All P) :
    (if c then p else q).All P := by
  split
  · exact hp ‹_›
  · exact hq ‹_›

/-! ## One after the other, up to the first failure -/

/-- Run the programs in order while their results are `ok`; the last result seen, `a`
    for an empty list. -/
def firstFailure (ok : α → Bool) (a : α) : List (Prog C R α) → Prog C R α
  | [] => pure a
  | p :: ps => do
    let b ← p
    if ok b then firstFailure ok b ps else pure b

end Prog

end Interact
