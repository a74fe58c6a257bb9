/-
  QspiFlash.Interact.Env — what a program does in an environment.

  An environment keeps a state; `step s c r s'` says that in `s` it may answer `c` with
  `r` and move to `s'`; `guard s c` says that in `s` the question `c` is allowed.
  `Runs` is a whole run, from the first question to the result. `wp E p Q s` says that
  from `s` every question `p` asks is allowed and every run ends in `Q`.

  - `wp_pure`, `wp_bind`, `wp_ask`, `wp_mono`: the rules.
  - `wp_runs`, `wp_asks`: a `wp` holds of every run and of every question asked in one;
    `wp_iff_asks`: and of nothing more.
  - `exists_run`: where every allowed question has an answer, a run ends in `Q`.
  - `wp_inv`: an invariant of the environment's steps holds over a whole run; `wp_allowed`:
    with every question allowed there is nothing more to show.
  - `Runs.mono`: from one environment to another; `runs_any`: to every one.
  - `Prog.run`: the run where a function gives the answers; `run_watched`: with a monitor beside.
-/

import QspiFlash.Interact.Prog

namespace Interact

structure Env (C : Type) (R : C → Type) (S : Type) where
  guard : S → C → Prop
  step : S → (c : C) → R c → S → Prop

variable {C : Type} {R : C → Type} {S α β : Type}

/-- A run of a program: from the state `s`, it returns `a` and leaves `s'`. -/
inductive Runs (E : Env C R S) : Prog C R α → S → α → S → Prop
  | ret (a : α) (s : S) : Runs E (.ret a) s a s
  | call {c : C} {k : R c → Prog C R α} {s s₁ s₂ : S} {r : R c} {a : α} :
      E.step s c r s₁ → Runs E (k r) s₁ a s₂ → Runs E (.call c k) s a s₂

/-- A run of `p` from `s` comes to ask `c` in the state `s'`. -/
inductive Asks (E : Env C R S) : Prog C R α → S → C → S → Prop
  | here {c : C} {k : R c → Prog C R α} {s : S} : Asks E (.call c k) s c s
  | later {c d : C} {k : R c → Prog C R α} {s s₁ s₂ : S} {r : R c} :
      E.step s c r s₁ → Asks E (k r) s₁ d s₂ → Asks E (.call c k) s d s₂

def wp (E : Env C R S) : Prog C R α → (α → S → Prop) → S → Prop
  | .ret a, Q, s => Q a s
  | .call c k, Q, s => E.guard s c ∧ ∀ r s', E.step s c r s' → wp E (k r) Q s'

variable {E : Env C R S}

/-! ## Runs of composed programs -/

theorem runs_pure {a b : α} {s s' : S} : Runs E (pure a) s b s' ↔ b = a ∧ s' = s := by
  constructor
  · intro h; cases h; exact ⟨rfl, rfl⟩
  · rintro ⟨rfl, rfl⟩; exact .ret _ _

theorem Runs.returns {p : Prog C R α} {s : S} {x : α × S} (h : Runs E p s x.1 x.2) {a : α} (ha : x.1 = a) :
    Runs E p s a x.2 := ha ▸ h

theorem Runs.bind {p : Prog C R α} {f : α → Prog C R β} {s s₁ s₂ : S} {a : α} {b : β}
    (hp : Runs E p s a s₁) (hf : Runs E (f a) s₁ b s₂) : Runs E (p >>= f) s b s₂ := by
  induction hp with
  | ret a s => exact hf
  | call hs _ ih => exact .call hs (ih hf)

theorem runs_bind {p : Prog C R α} {f : α → Prog C R β} {s s₂ : S} {b : β} :
    Runs E (p >>= f) s b s₂ ↔ ∃ a s₁, Runs E p s a s₁ ∧ Runs E (f a) s₁ b s₂ := by
  constructor
  · intro h
    induction p generalizing s with
    | ret a => exact ⟨a, s, .ret a s, h⟩
    | call c k ih =>
      cases h with
      | call hs hr =>
        obtain ⟨a, s₁, h1, h2⟩ := ih _ hr
        exact ⟨a, s₁, .call hs h1, h2⟩
  · rintro ⟨a, s₁, h1, h2⟩; exact h1.bind h2

/-- A question of a composed program is one of its first part, or of the rest after a run of the first. -/
theorem asks_bind {p : Prog C R α} {f : α → Prog C R β} {s s' : S} {c : C} :
    Asks E (p >>= f) s c s' ↔ Asks E p s c s' ∨ ∃ a s₁, Runs E p s a s₁ ∧ Asks E (f a) s₁ c s' := by
  constructor
  · intro h
    induction p generalizing s with
    | ret a => exact Or.inr ⟨a, s, .ret a s, h⟩
    | call d k ih =>
      cases h with
      | here => exact Or.inl .here
      | later hs h =>
        rcases ih _ h with h | ⟨a, s₁, hr, h⟩
        · exact Or.inl (.later hs h)
        · exact Or.inr ⟨a, s₁, .call hs hr, h⟩
  · intro h
    rcases h with h | ⟨a, s₁, hr, h⟩
    · induction h with
      | here => exact .here
      | later hs _ ih => exact .later hs ih
    · induction hr with
      | ret a s => exact h
      | call hs _ ih => exact .later hs (ih h)

/-! ## The rules -/

theorem wp_pure {a : α} {Q : α → S → Prop} {s : S} : wp E (pure a) Q s ↔ Q a s := Iff.rfl

theorem wp_ask {c : C} {Q : R c → S → Prop} {s : S} :
    wp E (Prog.ask c) Q s ↔ E.guard s c ∧ ∀ r s', E.step s c r s' → Q r s' := Iff.rfl

theorem wp_bind {p : Prog C R α} {f : α → Prog C R β} {Q : β → S → Prop} {s : S} :
    wp E (p >>= f) Q s ↔ wp E p (fun a s' => wp E (f a) Q s') s := by
  induction p generalizing s with
  | ret a => exact Iff.rfl
  | call c k ih =>
    show (E.guard s c ∧ ∀ r s', E.step s c r s' → wp E (k r >>= f) Q s') ↔
      (E.guard s c ∧ ∀ r s', E.step s c r s' → wp E (k r) _ s')
    simp only [ih]

theorem wp_mono {p : Prog C R α} {Q Q' : α → S → Prop} {s : S} (h : wp E p Q s)
    (hq : ∀ a s', Q a s' → Q' a s') : wp E p Q' s := by
  induction p generalizing s with
  | ret a => exact hq a s h
  | call c k ih => exact ⟨h.1, fun r s' hs => ih r (h.2 r s' hs)⟩

theorem wp_and {p : Prog C R α} {Q Q' : α → S → Prop} {s : S} (h : wp E p Q s) (h' : wp E p Q' s) :
    wp E p (fun a s' => Q a s' ∧ Q' a s') s := by
  induction p generalizing s with
  | ret a => exact ⟨h, h'⟩
  | call c k ih => exact ⟨h.1, fun r s' hs => ih r (h.2 r s' hs) (h'.2 r s' hs)⟩

/-- Sequencing with the first program's own specification. -/
theorem wp_seq {p : Prog C R α} {f : α → Prog C R β} {P : α → S → Prop} {Q : β → S → Prop} {s : S}
    (hp : wp E p P s) (hf : ∀ a s', P a s' → wp E (f a) Q s') : wp E (p >>= f) Q s :=
  wp_bind.mpr (wp_mono hp hf)

theorem wp_ite {c : Prop} [Decidable c] {p q : Prog C R α} {Q : α → S → Prop} {s : S}
    (hp : c → wp E p Q s) (hq : ¬ c → wp E q Q s) : wp E (if c then p else q) Q s := by
  split
  · exact hp ‹_›
  · exact hq ‹_›

/-! ## What a `wp` says of the runs -/

theorem wp_runs {p : Prog C R α} {Q : α → S → Prop} {s s' : S} {a : α} (h : wp E p Q s)
    (hr : Runs E p s a s') : Q a s' := by
  induction hr with
  | ret a s => exact h
  | call hs _ ih => exact ih (h.2 _ _ hs)

theorem wp_asks {p : Prog C R α} {Q : α → S → Prop} {s s' : S} {c : C} (h : wp E p Q s)
    (ha : Asks E p s c s') : E.guard s' c := by
  induction ha with
  | here => exact h.1
  | later hs _ ih => exact ih (h.2 _ _ hs)

/-- What holds of every run may be said of a program whose questions are allowed. -/
theorem wp_of_runs {p : Prog C R α} {Q : α → S → Prop} {s : S} (h : wp E p (fun _ _ => True) s)
    (hr : ∀ a s', Runs E p s a s' → Q a s') : wp E p Q s := by
  induction p generalizing s with
  | ret a => exact hr a s (.ret a s)
  | call c k ih => exact ⟨h.1, fun r s₁ hs => ih r (h.2 r s₁ hs) fun a s₂ hrun => hr a s₂ (.call hs hrun)⟩

/-- A `wp` that says nothing of the result says that every question asked is allowed. -/
theorem wp_iff_asks {p : Prog C R α} {s : S} :
    wp E p (fun _ _ => True) s ↔ ∀ c s', Asks E p s c s' → E.guard s' c := by
  constructor
  · exact fun h c s' ha => wp_asks h ha
  · intro h
    induction p generalizing s with
    | ret a => trivial
    | call c k ih => exact ⟨h c s .here, fun r s₁ hs => ih r fun d s₂ ha => h d s₂ (.later hs ha)⟩

/-- What a `wp` says of the first program. -/
theorem wp_first {p : Prog C R α} {f : α → Prog C R β} {Q : β → S → Prop} {s : S} (h : wp E (p >>= f) Q s) :
    wp E p (fun _ _ => True) s :=
  wp_mono (wp_bind.mp h) fun _ _ _ => trivial

/-- What it says of the rest, once the first program has run. -/
theorem wp_rest {p : Prog C R α} {f : α → Prog C R β} {Q : β → S → Prop} {s s₁ : S} {a : α} (h : wp E (p >>= f) Q s)
    (hr : Runs E p s a s₁) : wp E (f a) Q s₁ :=
  wp_runs (Q := fun a s' => wp E (f a) Q s') (wp_bind.mp h) hr

/-- Every allowed question has an answer. -/
def Env.Total (E : Env C R S) : Prop := ∀ s c, E.guard s c → ∃ r s', E.step s c r s'

theorem exists_run (ht : E.Total) {p : Prog C R α} {Q : α → S → Prop} {s : S} (h : wp E p Q s) :
    ∃ a s', Runs E p s a s' ∧ Q a s' := by
  induction p generalizing s with
  | ret a => exact ⟨a, s, .ret a s, h⟩
  | call c k ih =>
    obtain ⟨r, s₁, hs⟩ := ht s c h.1
    obtain ⟨a, s₂, hr, hq⟩ := ih r (h.2 r s₁ hs)
    exact ⟨a, s₂, .call hs hr, hq⟩

/-- Where every question has an answer, every program returns. -/
theorem run_total (ht : ∀ s c, ∃ r s', E.step s c r s') (p : Prog C R α) (s : S) : ∃ a s', Runs E p s a s' := by
  induction p generalizing s with
  | ret a => exact ⟨a, s, .ret a s⟩
  | call c k ih =>
    obtain ⟨r, s₁, hs⟩ := ht s c
    obtain ⟨a, s₂, hr⟩ := ih r s₁
    exact ⟨a, s₂, .call hs hr⟩

/-! ## Running a program -/

/-- The run of a program where `f` gives each answer. -/
def Prog.run (f : S → (c : C) → R c × S) : Prog C R α → S → α × S
  | .ret a, s => (a, s)
  | .call c k, s => (k (f s c).1).run f (f s c).2

theorem Prog.run_bind (f : S → (c : C) → R c × S) (p : Prog C R α) (k : α → Prog C R β) (s : S) :
    (p >>= k).run f s = (k (p.run f s).1).run f (p.run f s).2 := by
  induction p generalizing s with
  | ret a => rfl
  | call c k' ih => exact ih _ _

/-- It is a run where `f` answers as the environment does, on the states `I` it keeps. -/
theorem runs_run {f : S → (c : C) → R c × S} {I : S → Prop} (hf : ∀ s c, I s → E.step s c (f s c).1 (f s c).2)
    (hi : ∀ s c, I s → I (f s c).2) (p : Prog C R α) {s : S} (hs : I s) :
    Runs E p s (p.run f s).1 (p.run f s).2 ∧ I (p.run f s).2 := by
  induction p generalizing s with
  | ret a => exact ⟨.ret a s, hs⟩
  | call c k ih =>
    obtain ⟨hrun, hend⟩ := ih _ (hi s c hs)
    exact ⟨.call (hf s c hs) hrun, hend⟩

/-! ## Invariants -/

/-- A property that every step on the questions in `P` keeps holds after a program that
    asks only questions in `P`. -/
theorem wp_inv {P : C → Prop} {I : S → Prop} (hg : ∀ s c, P c → I s → E.guard s c)
    (hs : ∀ s c r s', P c → I s → E.step s c r s' → I s') {p : Prog C R α} (hp : p.All P) {s : S}
    (hi : I s) : wp E p (fun _ s' => I s') s := by
  induction p generalizing s with
  | ret a => exact hi
  | call c k ih => exact ⟨hg s c hp.1 hi, fun r s' h => ih r (hp.2 r) (hs s c r s' hp.1 hi h)⟩

/-- Questions allowed in every state. -/
theorem wp_allowed {p : Prog C R α} (hp : p.All fun c => ∀ s, E.guard s c) (s : S) : wp E p (fun _ _ => True) s :=
  wp_inv (I := fun _ => True) (fun s _ hc _ => hc s) (fun _ _ _ _ _ _ _ => trivial) hp trivial

/-! ## From one environment to another -/

/-- A run is one of any environment that answers its questions the same way. -/
theorem Runs.mono {E F : Env C R S} {P : C → Prop} (h : ∀ s c r s', P c → E.step s c r s' → F.step s c r s')
    {p : Prog C R α} (hp : p.All P) {s s' : S} {a : α} (hr : Runs E p s a s') : Runs F p s a s' := by
  induction hr with
  | ret a s => exact .ret a s
  | call hs _ ih => exact .call (h _ _ _ _ hp.1 hs) (ih (hp.2 _))

/-- The environment that gives any answer and only watches: it keeps the state `next`
    makes of the answers, and allows the questions `guard` does. -/
def Env.monitor (guard : S → C → Prop) (next : S → (c : C) → R c → S) : Env C R S where
  guard := guard
  step s c r s' := s' = next s c r

section Watched

variable {T : Type} (f : S → (c : C) → R c × S) (next : T → (c : C) → R c → T)

/-- The answers of `f`, with a monitor's state beside its own. -/
def watched (x : S × T) (c : C) : R c × (S × T) := ((f x.1 c).1, ((f x.1 c).2, next x.2 c (f x.1 c).1))

/-- The monitor does not change the run. -/
theorem run_watched (p : Prog C R α) (s : S) (t : T) :
    (p.run (watched f next) (s, t)).1 = (p.run f s).1 ∧ (p.run (watched f next) (s, t)).2.1 = (p.run f s).2 := by
  induction p generalizing s t with
  | ret a => exact ⟨rfl, rfl⟩
  | call c k ih => exact ih _ _ _

/-- What the monitor sees of it. -/
theorem runs_watched (guard : T → C → Prop) (p : Prog C R α) (s : S) (t : T) :
    Runs (Env.monitor guard next) p t (p.run (watched f next) (s, t)).1 (p.run (watched f next) (s, t)).2.2 := by
  induction p generalizing s t with
  | ret a => exact .ret a t
  | call c k ih => exact .call rfl (ih _ _ _)

end Watched

/-- Any answers, and only the questions in `P` are allowed. -/
def Env.any (P : C → Prop) : Env C R Unit := Env.monitor (fun _ => P) fun _ _ _ => ()

theorem wp_any {P : C → Prop} {p : Prog C R α} (h : p.All P) {Q : α → Unit → Prop} (hq : ∀ a, Q a ()) :
    wp (Env.any P) p Q () :=
  wp_mono (wp_inv (I := fun _ => True) (fun _ _ hc _ => hc) (fun _ _ _ _ _ _ _ => trivial) h trivial) fun a _ _ => hq a

/-- What holds of the results there holds in every environment. -/
theorem runs_any {P : C → Prop} {p : Prog C R α} {Q : α → Prop} (h : wp (Env.any P) p (fun a _ => Q a) ()) {s s' : S} {a : α}
    (hr : Runs E p s a s') : Q a := by
  induction hr with
  | ret a s => exact h
  | @call c k s s₁ s₂ r a hs _ ih => exact ih (h.2 r () rfl)

/-- It holds in each that allows these questions. -/
theorem wp_of_any {P : C → Prop} (hg : ∀ s c, P c → E.guard s c) {p : Prog C R α} {Q : α → Prop}
    (h : wp (Env.any P) p (fun a _ => Q a) ()) (s : S) : wp E p (fun a _ => Q a) s := by
  induction p generalizing s with
  | ret a => exact h
  | call c k ih => exact ⟨hg s c h.1, fun r s' _ => ih r (h.2 r () rfl) s'⟩

/-! ## One program after the other, up to the first failure -/

/-- `rs` are the results of the programs run in order from `s`, up to the first that is not `ok`. -/
inductive UpTo (E : Env C R S) (ok : α → Bool) : List (Prog C R α) → S → List α → S → Prop
  | done (s : S) : UpTo E ok [] s [] s
  | fail {p : Prog C R α} {ps : List (Prog C R α)} {s s' : S} {a : α} :
      Runs E p s a s' → ok a = false → UpTo E ok (p :: ps) s [a] s'
  | next {p : Prog C R α} {ps : List (Prog C R α)} {s s₁ s₂ : S} {a : α} {rs : List α} :
      Runs E p s a s₁ → ok a = true → UpTo E ok ps s₁ rs s₂ → UpTo E ok (p :: ps) s (a :: rs) s₂

theorem runs_firstFailure {ok : α → Bool} {ps : List (Prog C R α)} : ∀ {a r : α} {s s' : S},
    Runs E (Prog.firstFailure ok a ps) s r s' ↔ ∃ rs, UpTo E ok ps s rs s' ∧ r = rs.getLastD a := by
  induction ps with
  | nil =>
    intro a r s s'
    constructor
    · intro h
      obtain ⟨rfl, rfl⟩ := runs_pure.mp h
      exact ⟨[], .done _, rfl⟩
    · intro hex
      obtain ⟨rs, h, rfl⟩ := hex
      cases h
      exact .ret _ _
  | cons p ps ih =>
    intro a r s s'
    constructor
    · intro h
      obtain ⟨b, s₁, hp, h⟩ := runs_bind.mp h
      split at h
      · obtain ⟨rs, hrs, rfl⟩ := ih.mp h
        exact ⟨b :: rs, .next hp ‹_› hrs, by rw [List.getLastD_cons]⟩
      · obtain ⟨rfl, rfl⟩ := runs_pure.mp h
        exact ⟨[r], .fail hp (by simpa using ‹¬ ok r = true›), rfl⟩
    · intro hex
      obtain ⟨rs, h, rfl⟩ := hex
      cases h with
      | fail hp hb => exact hp.bind (by rw [if_neg (by rw [hb]; exact Bool.false_ne_true)]; exact .ret _ _)
      | next hp hb hrs => exact hp.bind (by rw [if_pos hb, List.getLastD_cons]; exact ih.mpr ⟨_, hrs, rfl⟩)

/-- All programs ran and were `ok`, or the last one that ran is the first that was not. -/
theorem UpTo.shape {ok : α → Bool} {ps : List (Prog C R α)} {s s' : S} {rs : List α} (h : UpTo E ok ps s rs s') :
    (rs.length = ps.length ∧ ∀ a ∈ rs, ok a = true) ∨
      ∃ oks a, rs = oks ++ [a] ∧ (∀ b ∈ oks, ok b = true) ∧ ok a = false ∧ rs.length ≤ ps.length := by
  induction h with
  | done => exact Or.inl ⟨rfl, nofun⟩
  | @fail _ _ _ _ a _ hb => exact Or.inr ⟨[], a, rfl, nofun, hb, Nat.succ_le_succ (Nat.zero_le _)⟩
  | @next _ _ _ _ _ b _ _ hb _ ih =>
    have hall : ∀ {l : List α}, (∀ x ∈ l, ok x = true) → ∀ x ∈ b :: l, ok x = true := fun h x hx =>
      (List.mem_cons.mp hx).elim (fun e => e ▸ hb) (h x)
    rcases ih with ⟨hlen, h⟩ | ⟨oks, a, rfl, h, ha, hlen⟩
    · exact Or.inl ⟨congrArg (· + 1) hlen, hall h⟩
    · exact Or.inr ⟨b :: oks, a, rfl, hall h, ha, Nat.succ_le_succ hlen⟩

/-! ## Sequences of operations on an object -/

section Session

variable {Op σ : Type} (E) (exec : Op → σ → Prog C R (β × σ)) (may : Op → Prop) (init : σ → S → Prop)

/-- The object's and the environment's state after some sequence of the operations `may`. -/
inductive Reach : σ → S → Prop
  | init {q : σ} {s : S} : init q s → Reach q s
  | op {q q' : σ} {s s' : S} {o : Op} {b : β} :
      Reach q s → may o → Runs E (exec o q) s (b, q') s' → Reach q' s'

variable {E exec may init}

theorem reach_inv {I : σ → S → Prop} (h0 : ∀ q s, init q s → I q s)
    (hop : ∀ o q s, may o → I q s → wp E (exec o q) (fun x s' => I x.2 s') s) {q : σ} {s : S}
    (h : Reach E exec may init q s) : I q s := by
  induction h with
  | init h => exact h0 _ _ h
  | op _ hm hr ih =>
    have h := wp_runs (hop _ _ _ hm ih) hr
    exact h

/-- An invariant of the object alone. -/
theorem reach_any {P : C → Prop} {I : σ → Prop} (h0 : ∀ q s, init q s → I q)
    (hop : ∀ o q, may o → I q → wp (Env.any P) (exec o q) (fun x _ => I x.2) ()) {q : σ} {s : S}
    (h : Reach E exec may init q s) : I q := by
  induction h with
  | init h => exact h0 _ _ h
  | op _ hm hr ih =>
    have h := runs_any (hop _ _ hm ih) hr
    exact h

end Session

end Interact
