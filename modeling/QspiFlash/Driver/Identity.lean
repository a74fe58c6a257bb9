/-
  QspiFlash.Driver.Identity — what the public operations do to the identity of the device.

  Only `read_JEDEC_ID` sets `pdevice_`, `pmanufacturer_` and `pimpl`, and only `uninitialize`
  clears one of them. So a property of the three that `read_JEDEC_ID` keeps, and that bears a
  cleared `pimpl`, is kept by every public operation (`exec_keeps`).
-/

import QspiFlash.Driver.Api
import QspiFlash.Driver.Asks
import QspiFlash.Driver.Identify

namespace QspiFlash.Driver

open Interact

/-- A question that brings no ID bytes. -/
def NoId : Call → Prop
  | .idBytes => False
  | _ => True

theorem asked_noId (l : List Instruction) : ∀ c, Asked l c → NoId c := by
  intro c h
  cases c <;> trivial

theorem switches_noId : ∀ c, Switches c → NoId c := by
  intro c h
  cases c <;> trivial

/-! ## What `read_JEDEC_ID` asks -/

/-- The questions of `read_JEDEC_ID`, the calls through the rows apart. -/
def Identifies : Call → Prop
  | .halCommand cmd _ => cmd.instruction = .JEDEC_ID
  | .crAbort | .halReceiveIT | .timedWait _ | .idBytes | .overrun => True
  | _ => False

variable {P : Call → Prop} {tbl : List QspiManuf}

theorem scanDevices_asks (hover : P .overrun) (m : QspiManuf) (hf : (callFactory m.qspiFactory).All P)
    (ds : List QspiDevice) (r : QspiResult) (q : Qspi) : (scanDevices m ds r q).All P := by
  induction ds with
  | nil => exact Prog.all_bind ((Prog.all_ask Call.overrun).mpr hover) fun _ => trivial
  | cons d ds ih =>
    apply Prog.all_ite
    · exact fun _ => trivial
    · exact fun _ => Prog.all_ite (fun _ => Prog.all_bind hf fun _ => trivial) fun _ => ih

theorem scanManufacturers_asks (hover : P .overrun) (hf : ∀ m ∈ rows tbl, (callFactory m.qspiFactory).All P)
    (r : QspiResult) (q : Qspi) : (scanManufacturers tbl r q).All P := by
  induction tbl generalizing r q with
  | nil => exact Prog.all_bind ((Prog.all_ask Call.overrun).mpr hover) fun _ => trivial
  | cons m tbl ih =>
    apply Prog.all_ite
    · exact fun _ => trivial
    · intro h0
      rw [rows_cons, if_neg h0] at hf
      have hrest := ih fun m' hm' => hf m' (List.mem_cons_of_mem _ hm')
      apply Prog.all_ite
      · exact fun _ => Prog.all_bind (scanDevices_asks hover m (hf m List.mem_cons_self) m.devices r q) fun y =>
          hrest y.1 y.2
      · exact fun _ => hrest r q

theorem readJedecId_asks (hP : ∀ c, Identifies c → P c) (hf : ∀ m ∈ rows tbl, (callFactory m.qspiFactory).All P)
    (q : Qspi) :
    (readJedecId tbl q).All P := by
  have hbytes : (onOk halReceiveIT (timedWait .TIMEOUT)).All P :=
    all_onOk ⟨hP .halReceiveIT trivial, fun _ => trivial⟩ ⟨hP (.timedWait _) trivial, fun _ => trivial⟩
  refine Prog.all_bind (all_onOk (all_qspiCommand (hP _ rfl) (hP .crAbort trivial)) hbytes) fun r => ?_
  apply Prog.all_ite
  · exact fun _ => Prog.all_bind ((Prog.all_ask Call.idBytes).mpr (hP .idBytes trivial)) fun b =>
      scanManufacturers_asks (hP .overrun trivial) hf _ _
  · exact fun _ => trivial

/-! ## `initialize` -/

/-- What each of its steps keeps, `initialize` keeps; the switch to quad mode runs on what the
    lookup found. -/
theorem wp_initializeQspi {S : Type} {E : Env Call Call.Resp S} {I : Qspi → S → Prop}
    (hread : ∀ {q s}, I q s → wp E (readJedecId tbl q) (fun y s' => I y.2 s') s)
    (hsleep : ∀ {q s}, I q s → wp E (sleep false) (fun _ s' => I q s') s)
    (hreset : ∀ {q s}, I q s → wp E resetChip (fun _ s' => I q s') s)
    (hquad : ∀ {q s}, I q s → wp E (enterQuadMode q) (fun _ s' => I q s') s) {q : Qspi} {s : S} (hi : I q s) :
    wp E (initializeQspi tbl q) (fun y s' => I y.2 s') s := by
  have hfinish : ∀ (y : QspiResult × Qspi) (s₁ : S), I y.2 s₁ →
      wp E (if y.1 = .ok then do let result ← enterQuadMode y.2; pure (result, y.2)
        else pure y : M (QspiResult × Qspi)) (fun y s' => I y.2 s') s₁ := by
    intro y s₁ hy
    apply wp_ite
    · exact fun _ => wp_seq (hquad hy) fun _ _ hz => hz
    · exact fun _ => hy
  refine wp_seq (hread hi) ?_
  intro y s₁ hy
  refine wp_ite (fun _ => ?_) fun _ => hfinish y s₁ hy
  refine wp_seq (hsleep hy) fun _ s₂ hy => ?_
  refine wp_seq (hreset hy) fun r s₃ hy => ?_
  apply wp_ite
  · exact fun _ => wp_seq (hread hy) hfinish
  · exact fun _ => hfinish _ s₃ hy

/-! ## Every operation -/

/-- Of the object `I` looks at the identity only, and does not ask for a `pimpl`. -/
structure OfIdentity {S : Type} (I : Qspi → S → Prop) : Prop where
  same : ∀ {q q' : Qspi} {s : S}, I q s → q'.pdevice = q.pdevice → q'.pmanufacturer = q.pmanufacturer →
    q'.pimpl = q.pimpl → I q' s
  cleared : ∀ {q : Qspi} {s : S}, I q s → I { q with pimpl := none } s

/-- `read_JEDEC_ID` keeps `I`, and so does the environment as long as no ID bytes come. -/
structure KeepsIdentity {S : Type} (E : Env Call Call.Resp S) (tbl : List QspiManuf) (I : Qspi → S → Prop) : Prop extends
    OfIdentity I where
  allowed : ∀ s c, NoId c → E.guard s c
  step : ∀ {q : Qspi} {s s' : S} {c : Call} {r : c.Resp}, NoId c → I q s → E.step s c r s' → I q s'
  readJedecId : ∀ {q : Qspi} {s : S}, I q s → wp E (Driver.readJedecId tbl q) (fun y s' => I y.2 s') s

namespace KeepsIdentity

variable {S : Type} {E : Env Call Call.Resp S} {I : Qspi → S → Prop} (h : KeepsIdentity E tbl I)
  {q : Qspi} {s : S}

include h

theorem quiet {α : Type} {p : M α} (hp : p.All NoId) (hi : I q s) : wp E p (fun _ s' => I q s') s :=
  wp_inv (fun s c hc _ => h.allowed s c hc) (fun _ _ _ _ hc hi hs => h.step hc hi hs) hp hi

theorem switches {α : Type} {p : M α} (hp : p.All Switches) (hi : I q s) : wp E p (fun _ s' => I q s') s :=
  h.quiet (hp.mono switches_noId) hi

theorem initializeQspi (hi : I q s) : wp E (initializeQspi tbl q) (fun y s' => I y.2 s') s :=
  wp_initializeQspi h.readJedecId (h.switches (sleep_switches false)) (h.switches resetChip_switches)
    (h.switches (enterQuadMode_switches _)) hi

theorem uninitializeQspi (hi : I q s) : wp E (uninitializeQspi q) (fun y s' => I y.2 s') s := by
  refine wp_seq (h.switches (sleep_switches false) (h.cleared hi)) fun _ _ hi => ?_
  exact wp_seq (h.switches resetChip_switches hi) fun _ _ hi => hi

theorem setErrno (hi : I q s) (e : Errno) (n : Int) :
    wp E (do ask (.setErrno e); pure (n, q) : M (Int × Qspi)) (fun y s' => I y.2 s') s :=
  wp_seq (h.quiet ((Prog.all_ask (Call.setErrno e)).mpr trivial) hi) fun _ _ hi => hi

theorem vopenFinish (hi : I q s) (r : QspiResult) : wp E (vopenFinish r q) (fun y s' => I y.2 s') s := by
  unfold Driver.vopenFinish
  refine wp_ite (fun _ => h.setErrno hi _ _) fun _ => wp_ite (fun _ => ?_) fun _ => h.same hi rfl rfl rfl
  apply h.setErrno
  exact h.same hi rfl rfl rfl

theorem doVopen (hi : I q s) : wp E (doVopen tbl q) (fun y s' => I y.2 s') s := by
  unfold Driver.doVopen
  refine wp_ite (fun _ => h.setErrno hi _ _) fun _ => wp_ite (fun _ => h.setErrno hi _ _) fun _ => ?_
  exact wp_seq (h.initializeQspi hi) fun y _ hy => h.vopenFinish hy y.1

theorem doClose (hi : I q s) : wp E (doClose q) (fun y s' => I y.2 s') s := by
  refine wp_seq (h.uninitializeQspi hi) fun y _ hy => ?_
  exact wp_ite (fun _ => h.setErrno hy _ _) fun _ => h.same hy rfl rfl rfl

theorem keep {α : Type} (hi : I q s) (out : α → Out) {p : M α} (hp : p.All NoId) :
    wp E (keep q out p) (fun y s' => I y.2 s') s :=
  wp_seq (h.quiet hp hi) fun _ _ hi => hi

theorem exec (o : Op) (hi : I q s) : wp E (exec tbl o q) (fun y s' => I y.2 s') s := by
  by_cases hdata : DataOp o
  · obtain ⟨α, out, p, heq, hp⟩ := dataOp_asks (asked_noId _) (fun _ _ => trivial) tbl hdata q
    rw [heq]
    exact h.keep hi out hp
  cases o with
  | initializeQspi => exact wp_seq (h.initializeQspi hi) fun _ _ hy => hy
  | uninitializeQspi => exact wp_seq (h.uninitializeQspi hi) fun _ _ hy => hy
  | doVopen => exact wp_seq (h.doVopen hi) fun _ _ hy => hy
  | doClose => exact wp_seq (h.doClose hi) fun _ _ hy => hy
  | sleep state => exact h.keep hi _ ((sleep_switches state).mono switches_noId)
  | resetChip => exact h.keep hi _ (resetChip_switches.mono switches_noId)
  | enterMemMapped =>
    refine h.keep hi _ ?_
    unfold Driver.enterMemMapped
    split
    · trivial
    · exact ⟨trivial, fun _ => trivial⟩
  | exitMemMapped => exact h.keep hi _ ⟨trivial, fun _ => trivial⟩
  | _ => exact absurd trivial hdata

end KeepsIdentity

/-! ## Properties of the object alone -/

/-- In an environment that allows everything and remembers nothing, it is enough that a
    lookup keeps the property. -/
theorem keepsIdentity_any {I : Qspi → Prop} (hI : OfIdentity fun q (_ : Unit) => I q)
    (hfound : ∀ q m d b, named tbl b = some (m, d) → I q → I ((q.withId b).identified m d)) :
    KeepsIdentity (Env.any fun _ => True) tbl fun q _ => I q where
  toOfIdentity := hI
  allowed _ _ _ := trivial
  step _ hi _ := hi
  readJedecId := by
    intro q s hi
    refine wp_seq (wp_any (Prog.all_of_forall (fun _ => trivial) _) (Q := fun _ _ => True) fun _ => trivial) ?_
    intro _ _ _
    refine wp_ite (fun _ => ?_) fun _ => hi
    refine wp_mono (identify_spec (fun _ _ _ => ⟨trivial, fun _ _ _ => rfl⟩) tbl q (P := fun _ _ => True) trivial
      fun _ _ _ => trivial) ?_
    intro y _ hy
    obtain ⟨b, -, rfl⟩ := hy
    cases hb : named tbl b with
    | none => exact hI.same (s := ()) hi rfl rfl rfl
    | some z => exact hfound q z.1 z.2 b hb hi

end QspiFlash.Driver
