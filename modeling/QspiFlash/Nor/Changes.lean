/-
  QspiFlash.Nor.Changes — what is still known of an array after operations that may have failed.

  A `Change` is what an operation does to one byte: keep it, set it, clear bits of it, or
  leave it with any value. `Changes` is an operation on an array, byte by byte, and `known`
  what a sequence of them leaves known of an array whose bytes were known before.

  - `known_sound`: an array the sequence can lead to has every byte known to be there.
  - `known_some`, `known_exact`: a byte that no operation of the sequence lost is known.
-/

import QspiFlash.Nor.Array

namespace NorArray

inductive Change where
  | keep
  | set (v : UInt8)
  | clear (mask : UInt8)
  | lose
  deriving DecidableEq, Repr

def Change.Does : Change → UInt8 → UInt8 → Prop
  | .keep, old, new => new = old
  | .set v, _, new => new = v
  | .clear mask, old, new => new = old &&& mask
  | .lose, _, _ => True

/-- What is known of a byte after it. -/
def Change.know : Change → Option UInt8 → Option UInt8
  | .keep, k => k
  | .set v, _ => some v
  | .clear mask, k => k.map (· &&& mask)
  | .lose, _ => none

theorem Change.know_sound {c : Change} {k : Option UInt8} {old new v : UInt8} (h : c.Does old new)
    (hk : ∀ v, k = some v → old = v) (hv : c.know k = some v) : new = v := by
  cases c with
  | keep => exact h.trans (hk v hv)
  | set w => exact h.trans (Option.some.inj hv)
  | clear mask =>
    obtain ⟨u, hu, rfl⟩ := Option.map_eq_some_iff.mp hv
    rw [h, hk u hu]
  | lose => cases hv

theorem Change.know_some {c : Change} {k : Option UInt8} (hc : c ≠ .lose) (hk : k ≠ none) : c.know k ≠ none := by
  cases c with
  | keep => exact hk
  | set v => exact Option.some_ne_none v
  | clear mask => exact fun h => hk (Option.map_eq_none_iff.mp h)
  | lose => exact absurd rfl hc

/-! ## Arrays -/

/-- What an operation does to each byte of an array. -/
abbrev Changes := Nat → Change

def Changes.Does (c : Changes) (f g : Bytes) : Prop := ∀ x, (c x).Does (f x) (g x)

/-- `c` on the bytes of `T`, and no change elsewhere. -/
def Changes.on (T : Nat → Prop) [DecidablePred T] (c : Changes) : Changes := fun x => if T x then c x else .keep

section On

variable {T : Nat → Prop} [DecidablePred T] {c : Changes} {f g : Bytes}

theorem Changes.does_on (hoff : ∀ x, ¬ T x → g x = f x) (hon : ∀ x, T x → (c x).Does (f x) (g x)) :
    (Changes.on T c).Does f g := by
  intro x
  unfold Changes.on
  split
  · exact hon x ‹_›
  · exact hoff x ‹_›

theorem Changes.on_ne_lose (h : ∀ x, T x → c x ≠ .lose) (x : Nat) : Changes.on T c x ≠ .lose := by
  unfold Changes.on
  split
  · exact h x ‹_›
  · exact Change.noConfusion

end On

/-- The bytes known after the changes `h`, newest first, of an array of which `k` was known. -/
def known (k : Nat → Option UInt8) (h : List Changes) : Nat → Option UInt8 :=
  h.foldr (fun c k x => (c x).know (k x)) k

@[simp] theorem known_nil (k : Nat → Option UInt8) : known k [] = k := rfl

@[simp] theorem known_cons (k : Nat → Option UInt8) (c : Changes) (h : List Changes) (x : Nat) :
    known k (c :: h) x = (c x).know (known k h x) := rfl

/-- The array `g` is what the changes `h`, newest first, may make of `f`. -/
inductive Leads (f : Bytes) : List Changes → Bytes → Prop
  | nil : Leads f [] f
  | cons {c : Changes} {h : List Changes} {g g' : Bytes} : Leads f h g → c.Does g g' → Leads f (c :: h) g'

theorem known_sound {k : Nat → Option UInt8} {f g : Bytes} {h : List Changes} (hk : ∀ x v, k x = some v → f x = v)
    (hl : Leads f h g) : ∀ x v, known k h x = some v → g x = v := by
  induction hl with
  | nil => exact hk
  | cons _ hc ih => exact fun x v => Change.know_sound (hc x) (ih x)

/-- A byte known before stays so unless it is lost. -/
theorem known_some {k : Nat → Option UInt8} {h : List Changes} {x : Nat} (hk : k x ≠ none) (hc : ∀ c ∈ h, c x ≠ .lose) :
    known k h x ≠ none := by
  induction h with
  | nil => exact hk
  | cons c h ih =>
    exact Change.know_some (hc c List.mem_cons_self) (ih fun c' h' => hc c' (List.mem_cons_of_mem _ h'))

theorem known_exact {f g : Bytes} {h : List Changes} {x : Nat} (hl : Leads f h g) (hc : ∀ c ∈ h, c x ≠ .lose) :
    known (fun x => some (f x)) h x = some (g x) := by
  obtain ⟨v, hv⟩ := Option.ne_none_iff_exists'.mp
    (known_some (k := fun x => some (f x)) (Option.some_ne_none (f x)) hc)
  rw [hv, known_sound (fun x v hv => Option.some.inj hv) hl x v hv]

end NorArray
