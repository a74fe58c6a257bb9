/-
  QspiFlash.Driver.Leak — the vendor objects the driver allocates, and loses.

  A factory is a `new`, and nothing deletes what it makes: `uninitialize` sets `pimpl` to
  `nullptr`, and the next lookup overwrites it. The heap here counts the objects made; what is
  not in `pimpl` is out of reach.

  - `initializeQspi_makes`: one object where it succeeds, and never two.
  - `lost_objects`: so many over any run, and at most one of them can be reached.
-/

import QspiFlash.Driver.Lookup

namespace QspiFlash.Driver.Leak

open Interact

/-- The objects made so far. -/
def made (n : Nat) : Call → Nat
  | .qspiFactory _ => n + 1
  | _ => n

/-- Any answers; the state counts the objects. -/
def heap : Env Call Call.Resp Nat := Env.monitor (fun _ _ => True) fun n c _ => made n c

/-- The objects the driver can reach. -/
def reachable (q : Qspi) : Nat := if q.pimpl.isSome then 1 else 0

/-- The operations that look for the chip. -/
def Starts : Op → Prop
  | .initializeQspi | .doVopen => True
  | _ => False

instance : DecidablePred Starts
  | .initializeQspi | .doVopen => .isTrue trivial
  | .uninitializeQspi | .doClose | .doReadBlock .. | .doWriteBlock .. => .isFalse id
  | .sleep _ | .resetChip | .enterMemMapped | .exitMemMapped => .isFalse id
  | .read .. | .write .. | .readSector .. | .writeSector .. => .isFalse id
  | .eraseSector _ | .eraseBlock32K _ | .eraseBlock64K _ | .eraseChip => .isFalse id

/-- Those that let it go. -/
def Ends : Op → Prop
  | .uninitializeQspi | .doClose => True
  | _ => False

/-- The chip was looked for, and is in use. -/
def Started (o : Op) (out : Out) : Prop := Starts o ∧ (out = .result .ok ∨ out = .value 0)

instance (o : Op) (out : Out) : Decidable (Started o out) := inferInstanceAs (Decidable (_ ∧ _))

/-- From `q` with `n` objects made to `q'` with `n'`: at least `low` more, at most `high`. -/
structure Makes (low high : Nat) (q : Qspi) (n : Nat) (q' : Qspi) (n' : Nat) : Prop where
  least : n + low ≤ n'
  most : n' ≤ n + high
  reached : reachable q' + n ≤ reachable q + n'

theorem Makes.trans {l h l' h' n n' n'' : Nat} {q q' q'' : Qspi} (a : Makes l h q n q' n')
    (b : Makes l' h' q' n' q'' n'') : Makes (l + l') (h + h') q n q'' n'' := by
  obtain ⟨h1, h2, h3⟩ := a
  obtain ⟨h4, h5, h6⟩ := b
  exact ⟨by omega, by omega, by omega⟩

theorem Makes.weaken {l h h' n n' : Nat} {q q' : Qspi} (a : Makes l h q n q' n') (hh : h ≤ h') : Makes 0 h' q n q' n' :=
  ⟨by have := a.least; omega, by have := a.most; omega, a.reached⟩

/-- Nothing is made, and nothing but `pimpl` counts. -/
theorem makes_none {q q' : Qspi} (n : Nat) (h : reachable q' ≤ reachable q) : Makes 0 0 q n q' n :=
  ⟨Nat.le_refl n, Nat.le_refl n, Nat.add_le_add_right h n⟩

/-! ## The lookup -/

/-- Where no two rows are of one maker, at most one matches. -/
theorem matching_once {tbl : List QspiManuf} (h : ((rows tbl).map (·.manufacturerID)).Nodup) (mid : UInt8)
    (did : UInt16) : (matching tbl mid did).length = if (lookup tbl mid did).isSome then 1 else 0 := by
  have hmid : (matching tbl mid did).map (·.manufacturerID) = List.replicate (matching tbl mid did).length mid := by
    refine List.eq_replicate_iff.mpr ⟨List.length_map _, fun b hb => ?_⟩
    obtain ⟨m, hm, rfl⟩ := List.mem_map.mp hb
    have hsome := (List.mem_filter.mp hm).2
    by_contra hne
    simp [QspiManuf.lookup, hne] at hsome
  have hone : (matching tbl mid did).length ≤ 1 := by
    rw [← List.nodup_replicate (a := mid), ← hmid]
    exact h.sublist (List.filter_sublist.map _)
  rw [lookup_eq]
  rcases hl : matching tbl mid did with _ | ⟨m, l⟩
  · rfl
  · obtain rfl : l = [] := by
      rw [hl, List.length_cons] at hone
      exact List.eq_nil_of_length_eq_zero (by omega)
    have hm : m ∈ matching tbl mid did := by
      rw [hl]
      exact List.mem_singleton_self m
    have hsome := (List.mem_filter.mp hm).2
    show 1 = if (m.lookup mid did).isSome = true then 1 else 0
    rw [if_pos hsome]

/-- Each row has a factory, so each that matches makes one object. -/
theorem foldl_makes {l : List QspiManuf} (h : ∀ m ∈ l, m.qspiFactory.isSome) (n : Nat) :
    l.foldl (fun n m => if m.qspiFactory.isSome then n + 1 else n) n = n + l.length := by
  induction l generalizing n with
  | nil => rfl
  | cons m l ih =>
    rw [List.foldl_cons, if_pos (h m List.mem_cons_self), ih fun m' hm' => h m' (List.mem_cons_of_mem _ hm'),
      List.length_cons, Nat.add_assoc, Nat.add_comm 1]

/-- A question that is no allocation. -/
def NotNew : Call → Prop
  | .qspiFactory _ => False
  | _ => True

theorem notNew_keeps {α : Type} {p : M α} (hp : p.All NotNew) (n : Nat) : wp heap p (fun _ n' => n' = n) n := by
  refine wp_allQuiet (hp.mono fun c hc n => ⟨trivial, fun r n' hs => ?_⟩) n
  cases c <;> first | exact absurd hc id | exact hs

theorem factory_calls : Calls heap fun v n => if v.isSome then n + 1 else n := by
  intro v n
  cases v with
  | none => exact ⟨trivial, fun _ _ hs => ⟨rfl, hs⟩⟩
  | some v => exact ⟨trivial, fun _ _ hs => ⟨rfl, hs⟩⟩

theorem tables_makers : ((rows qspiManufacturers).map (·.manufacturerID)).Nodup := by decide

theorem tables_factory : ∀ m ∈ rows qspiManufacturers, m.qspiFactory.isSome := by decide

/-- A lookup that succeeds makes one object, which it keeps; one that fails makes none. -/
structure Looked (q : Qspi) (n : Nat) (y : QspiResult × Qspi) (n' : Nat) : Prop where
  found : y.1 = .ok → n' = n + 1 ∧ y.2.pimpl.isSome
  unfound : y.1 ≠ .ok → n' = n ∧ y.2.pimpl = q.pimpl

theorem Looked.makes {q : Qspi} {n n' : Nat} {y : QspiResult × Qspi} (h : Looked q n y n') :
    Makes (if y.1 = .ok then 1 else 0) 1 q n y.2 n' := by
  by_cases hok : y.1 = .ok
  · obtain ⟨rfl, hsome⟩ := h.found hok
    rw [if_pos hok]
    refine ⟨Nat.le_refl _, Nat.le_refl _, ?_⟩
    rw [reachable, if_pos hsome]
    omega
  · obtain ⟨rfl, hsame⟩ := h.unfound hok
    rw [if_neg hok]
    refine (makes_none n' ?_).weaken (Nat.zero_le 1)
    rw [reachable, hsame, reachable]

theorem readJedecId_looked (q : Qspi) (n : Nat) : wp heap (readJedecId qspiManufacturers q) (Looked q n) n := by
  have hbytes : (onOk halReceiveIT (timedWait .TIMEOUT)).All NotNew :=
    all_onOk ⟨trivial, fun _ => trivial⟩ ⟨trivial, fun _ => trivial⟩
  refine wp_seq (notNew_keeps (all_onOk (all_qspiCommand trivial trivial) hbytes) n) ?_
  intro r v hv
  subst hv
  refine wp_ite (fun _ => wp_bind.mpr (wp_ask.mpr ⟨trivial, ?_⟩)) fun hr =>
    ⟨fun hok => absurd hok hr, fun _ => ⟨rfl, rfl⟩⟩
  intro b v hv
  subst hv
  refine wp_mono (scanTable_spec factory_calls qspiManufacturers (Or.inl ⟨by decide, by decide⟩) .typeNotFound
    (q.withId b) _) ?_
  intro y n' hpost
  obtain ⟨rfl, rfl⟩ := hpost
  have hrows : ∀ m ∈ matching qspiManufacturers (q.withId b).manufacturerID (q.withId b).memoryType,
      m ∈ rows qspiManufacturers := fun m hm => List.mem_of_mem_filter hm
  rw [foldl_makes fun m hm => tables_factory m (hrows m hm), matching_once tables_makers]
  cases hfound : lookup qspiManufacturers (q.withId b).manufacturerID (q.withId b).memoryType with
  | none => exact ⟨fun hok => (by cases hok), fun _ => ⟨rfl, rfl⟩⟩
  | some x =>
    refine ⟨fun _ => ⟨rfl, ?_⟩, fun hne => absurd rfl hne⟩
    rw [lookup_eq, Option.bind_eq_some_iff] at hfound
    obtain ⟨m, hlast, hlook⟩ := hfound
    have hx : x.1 = m := by
      unfold QspiManuf.lookup at hlook
      split at hlook
      · obtain ⟨d, -, rfl⟩ := Option.map_eq_some_iff.mp hlook
        rfl
      · cases hlook
    show x.1.qspiFactory.isSome
    rw [hx]
    exact tables_factory m (hrows m (List.mem_of_getLast? hlast))

/-! ## The operations -/

/-- What an operation makes: `low` is 1 where it started the chip. -/
def Spends (o : Op) (q : Qspi) (n : Nat) (y : Out × Qspi) (n' : Nat) : Prop :=
  Makes (if Started o y.1 then 1 else 0) (if Starts o then 1 else 0) q n y.2 n' ∧ (Ends o → y.2.pimpl = none)

theorem switches_notNew : ∀ c, Switches c → NotNew c := by
  intro c h
  cases c <;> trivial

/-- `initialize` makes an object where it succeeds, and never two. -/
theorem initializeQspi_makes (q : Qspi) (n : Nat) : wp heap (initializeQspi qspiManufacturers q) (fun y n' =>
    Makes (if y.1 = .ok then 1 else 0) 1 q n y.2 n') n := by
  have hfinish : ∀ (y : QspiResult × Qspi) (n₁ : Nat), Makes (if y.1 = .ok then 1 else 0) 1 q n y.2 n₁ →
      wp heap (if y.1 = .ok then do let result ← enterQuadMode y.2; pure (result, y.2)
        else pure y : M (QspiResult × Qspi)) (fun y n' => Makes (if y.1 = .ok then 1 else 0) 1 q n y.2 n') n₁ := by
    intro y n₁ hy
    refine wp_ite (fun hok => ?_) fun _ => hy
    rw [if_pos hok] at hy
    refine wp_seq (notNew_keeps ((enterQuadMode_switches y.2).mono switches_notNew) n₁) ?_
    intro r n₂ hn
    rw [hn]
    refine ⟨?_, hy.most, hy.reached⟩
    have hleast := hy.least
    show n + (if r = .ok then 1 else 0) ≤ n₁
    split <;> omega
  refine wp_seq (readJedecId_looked q n) ?_
  intro y n₁ hy
  refine wp_ite (fun hne => ?_) fun _ => hfinish y n₁ hy.makes
  -- nothing was found: wake the chip, reset it, and look once more
  obtain ⟨hn, hsame⟩ := hy.unfound hne
  rw [hn]
  refine wp_seq (notNew_keeps ((sleep_switches false).mono switches_notNew) n) ?_
  intro _ n₂ hn
  rw [hn]
  refine wp_seq (notNew_keeps (resetChip_switches.mono switches_notNew) n) ?_
  intro r n₃ hn
  rw [hn]
  have hq : reachable y.2 = reachable q := by rw [reachable, hsame, reachable]
  apply wp_ite
  · intro _
    refine wp_seq (readJedecId_looked y.2 n) ?_
    intro z n₄ hz
    have hmakes := hz.makes
    exact hfinish z n₄ ⟨hmakes.least, hmakes.most, hq ▸ hmakes.reached⟩
  · intro hr
    refine hfinish (r, y.2) n ?_
    rw [if_neg hr]
    exact (makes_none n (Nat.le_of_eq hq)).weaken (Nat.zero_le 1)

theorem setErrno_spends {o : Op} {q q' : Qspi} {n n' : Nat} (e : Errno)
    (h : Makes 0 (if Starts o then 1 else 0) q n q' n') (hends : Ends o → q'.pimpl = none) :
    wp heap (do ask (.setErrno e); pure (-1, q') : M (Int × Qspi)) (fun x n₁ => Spends o q n (.value x.1, x.2) n₁) n' := by
  refine ⟨trivial, fun _ n₁ hn => ?_⟩
  rw [show n₁ = n' from hn]
  refine ⟨?_, hends⟩
  rwa [if_neg fun hs => by rcases hs.2 with hs | hs <;> cases hs]

theorem keep_spends {α : Type} {o : Op} (ho : ¬ Starts o) (he : ¬ Ends o) (q : Qspi) (out : α → Out) {p : M α}
    (hp : p.All NotNew) (n : Nat) : wp heap (keep q out p) (Spends o q n) n := by
  refine wp_seq (notNew_keeps hp n) ?_
  intro a n' hn
  rw [hn]
  refine ⟨?_, fun h => absurd h he⟩
  rw [if_neg ho, if_neg fun h => ho h.1]
  exact makes_none n (Nat.le_refl _)

/-- `uninitialize` drops what `pimpl` points to. -/
theorem uninitializeQspi_drops (q : Qspi) (n : Nat) :
    wp heap (uninitializeQspi q) (fun y n' => n' = n ∧ y.2.pimpl = none) n := by
  refine wp_seq (notNew_keeps ((sleep_switches false).mono switches_notNew) n) ?_
  intro _ n₁ hn
  rw [hn]
  refine wp_seq (notNew_keeps (resetChip_switches.mono switches_notNew) n) ?_
  exact fun _ _ hn => ⟨hn, rfl⟩

theorem makes_dropped {q q' : Qspi} (n : Nat) (h : q'.pimpl = none) : Makes 0 0 q n q' n := by
  apply makes_none
  rw [reachable, h]
  exact Nat.zero_le _

theorem doVopen_spends (q : Qspi) (n : Nat) :
    wp heap (doVopen qspiManufacturers q) (fun x n' => Spends .doVopen q n (.value x.1, x.2) n') n := by
  have hnone : Makes 0 1 q n q n := (makes_none n (Nat.le_refl _)).weaken (Nat.zero_le 1)
  refine wp_ite (fun _ => setErrno_spends .eexist hnone fun h => absurd h id) fun _ => ?_
  refine wp_ite (fun _ => setErrno_spends .eio hnone fun h => absurd h id) fun _ => ?_
  refine wp_seq (initializeQspi_makes q n) ?_
  intro y n₁ hy
  have hweak : Makes 0 1 q n y.2 n₁ := hy.weaken (Nat.le_refl 1)
  refine wp_ite (fun _ => setErrno_spends .eio hweak fun h => absurd h id) fun hok => ?_
  refine wp_ite (fun _ => ?_) fun _ => ?_
  · exact setErrno_spends .eio ⟨hweak.least, hweak.most, hweak.reached⟩ fun h => absurd h id
  · rw [if_pos (Decidable.not_not.mp hok)] at hy
    exact ⟨⟨hy.least, hy.most, hy.reached⟩, fun h => absurd h id⟩

theorem doClose_spends (q : Qspi) (n : Nat) :
    wp heap (doClose q) (fun x n' => Spends .doClose q n (.value x.1, x.2) n') n := by
  refine wp_seq (uninitializeQspi_drops q n) ?_
  intro y n' hpost
  obtain ⟨hn, hnull⟩ := hpost
  rw [hn]
  refine wp_ite (fun _ => setErrno_spends .eio (makes_dropped n hnull) fun _ => hnull) fun _ => ?_
  exact ⟨makes_dropped n hnull, fun _ => hnull⟩

theorem exec_spends (o : Op) (q : Qspi) (n : Nat) : wp heap (exec qspiManufacturers o q) (Spends o q n) n := by
  by_cases hdata : DataOp o
  · obtain ⟨α, out, p, heq, hp⟩ := dataOp_asks (P := NotNew) (fun c _ => by cases c <;> trivial)
      (fun _ _ => trivial) qspiManufacturers hdata q
    rw [heq]
    exact keep_spends (by cases o <;> first | exact id | exact absurd hdata id)
      (by cases o <;> first | exact id | exact absurd hdata id) q out hp n
  cases o with
  | initializeQspi =>
    refine wp_seq (initializeQspi_makes q n) ?_
    intro y n' hy
    refine ⟨⟨?_, hy.most, hy.reached⟩, fun h => absurd h id⟩
    have hleast := hy.least
    by_cases hok : y.1 = .ok
    · rw [if_pos hok] at hleast
      rwa [if_pos ⟨trivial, Or.inl (by rw [hok])⟩]
    · rw [if_neg hok] at hleast
      rwa [if_neg fun h => by rcases h.2 with h | h <;> [exact hok (Out.result.inj h); cases h]]
  | doVopen => exact wp_seq (doVopen_spends q n) fun _ _ h => h
  | doClose => exact wp_seq (doClose_spends q n) fun _ _ h => h
  | uninitializeQspi =>
    refine wp_seq (uninitializeQspi_drops q n) ?_
    intro y n' hpost
    obtain ⟨hn, hnull⟩ := hpost
    rw [hn]
    exact ⟨makes_dropped n hnull, fun _ => hnull⟩
  | sleep state => exact keep_spends id id q _ ((sleep_switches state).mono switches_notNew) n
  | resetChip => exact keep_spends id id q _ (resetChip_switches.mono switches_notNew) n
  | enterMemMapped =>
    refine keep_spends id id q _ ?_ n
    unfold enterMemMapped
    split
    · trivial
    · exact ⟨trivial, fun _ => trivial⟩
  | exitMemMapped =>
    refine keep_spends id id q _ ?_ n
    exact ⟨trivial, fun _ => trivial⟩
  | _ => exact absurd trivial hdata

/-! ## Whole runs -/

/-- How many of the operations started the chip. -/
def started (os : List Op) (outs : List Out) : Nat := (os.zip outs).countP fun x => Started x.1 x.2

theorem outcomes_makes (os : List Op) (q : Qspi) (n : Nat) : wp heap (outcomes qspiManufacturers os q) (fun y n' =>
    Makes (started os y.1) (os.countP Starts) q n y.2 n' ∧ (os = [] → y.2 = q) ∧
      ∀ o ∈ os.getLast?, Ends o → y.2.pimpl = none) n := by
  induction os generalizing q n with
  | nil => exact ⟨makes_none n (Nat.le_refl _), fun _ => rfl, fun o ho => (by cases ho)⟩
  | cons o os ih =>
    refine wp_seq (exec_spends o q n) ?_
    intro y n₁ hpost
    obtain ⟨hmakes, hends⟩ := hpost
    refine wp_seq (ih y.2 n₁) ?_
    intro z n₂ hpost
    obtain ⟨hrest, hsame, hlast⟩ := hpost
    refine ⟨?_, fun h => (by cases h), fun o' ho' he => ?_⟩
    · have hall := hmakes.trans hrest
      rw [Nat.add_comm, Nat.add_comm (if Starts o then 1 else 0)] at hall
      simpa only [started, List.zip_cons_cons, List.countP_cons, decide_eq_true_eq] using hall
    · cases os with
      | nil =>
        obtain rfl : o = o' := Option.some.inj ho'
        rw [show z.2 = y.2 from hsame rfl]
        exact hends he
      | cons o₁ os => exact hlast o' ho' he

/-- Over any run on an object that has not looked for its chip, `n` objects are made: one in each
    `initialize` or `do_vopen` that succeeds, and no more than there are calls of them. What is
    not in `pimpl` is lost, after `uninitialize` or `do_close` all of them. -/
theorem lost_objects {os : List Op} {q : Qspi} (hq : q.pimpl = none) {y : List Out × Qspi} {n : Nat}
    (hr : Runs heap (outcomes qspiManufacturers os q) 0 y n) :
    ∃ lost, n = lost + reachable y.2 ∧ started os y.1 ≤ n ∧ n ≤ os.countP Starts ∧
      ∀ o ∈ os.getLast?, Ends o → lost = n := by
  obtain ⟨hmakes, -, hends⟩ := wp_runs (outcomes_makes os q 0) hr
  have hleast := hmakes.least
  have hmost := hmakes.most
  have hreached := hmakes.reached
  rw [show reachable q = 0 by rw [reachable, hq]; rfl] at hreached
  refine ⟨n - reachable y.2, by omega, by omega, by omega, fun o ho he => ?_⟩
  rw [show reachable y.2 = 0 by rw [reachable, hends o ho he]; rfl, Nat.sub_zero]

/-- A chip started and let go twice: two objects made, and both lost. -/
theorem lost_objects_twice : ∃ y n lost, Runs heap (outcomes qspiManufacturers
      [.initializeQspi, .uninitializeQspi, .doVopen, .doClose] freshDriver) 0 y n ∧ n = lost + reachable y.2 ∧
    started [.initializeQspi, .uninitializeQspi, .doVopen, .doClose] y.1 = 2 ∧ n = 2 ∧ lost = 2 := by
  have hrun := (runs_run (E := heap) (I := fun _ => True)
    (f := fun n c => (Initialised.goesWell (0xEF, 0x70, 0x18) c, made n c)) (fun _ _ _ => rfl) (fun _ _ _ => trivial)
    (outcomes qspiManufacturers [.initializeQspi, .uninitializeQspi, .doVopen, .doClose] freshDriver) (s := 0) trivial).1
  obtain ⟨lost, hn, hleast, -, hlost⟩ := lost_objects rfl hrun
  have htwo : ((outcomes qspiManufacturers [.initializeQspi, .uninitializeQspi, .doVopen, .doClose] freshDriver).run
      (fun n c => (Initialised.goesWell (0xEF, 0x70, 0x18) c, made n c)) 0).2 = 2 := by decide +kernel
  have hall := hlost .doClose rfl trivial
  exact ⟨_, _, lost, hrun, hn, by decide +kernel, htwo, hall.trans htwo⟩

end QspiFlash.Driver.Leak
