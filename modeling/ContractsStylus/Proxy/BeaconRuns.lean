import ContractsStylus.Library.Frames
import ContractsStylus.Proxy.Beacon

/-!
# Beacons and their proxies

A chain of contracts: beacons, proxies that ask them for their implementation, and contracts with
unknown code, which may be implementations. Unknown code that runs in a storage may write it, call
anybody and delegate to anybody, also in the middle of a call that it was given by a proxy.

Two things are kept whatever happens. Nobody but its owner changes a beacon. And as long as no
implementation writes the two slots that a proxy keeps its beacon in, all proxies of a beacon run
the implementation that the beacon has at the time, so that one upgrade is an upgrade of them all.

## Beacons and their owners

A beacon is a contract of its own, and nobody runs unknown code in its storage. So a beacon changes
only by its three calls, and each of them asks for the sender. Whether the sender is the owner at
that moment, and not at the start of the transaction, is what the statement says: it holds in the
middle of calls as well.

## Sparing

An implementation has the storage of its proxies to itself and could write the two slots in which a
proxy keeps its beacon. Nothing in the source prevents it. `spares` names the actions that leave the
slots of some proxies alone, and runs are restricted to these where proxies are spoken of. One of
the actions that are excluded is no write: a proxy that delegates to an account which is a beacon
itself would let that beacon's code take the first slot for its own.

The proxies get their beacons from their constructors. `Installed` is how a state with a number of
proxies has come about: each was deployed with its beacon, or was found with it in both slots, and
what happened in between has spared them.

## Main definitions

* `Beacon.Chain`, `Beacon.Party`, `Beacon.Frame` — the accounts, and who acts
* `Chain.exec` — what somebody can do
* `Chain.spares` — the actions that leave the slots of some proxies alone

## Main results

* `Chain.exec_cases` — what can have been done
* `Chain.beacon_governed` — a beacon is changed by its owner only, and its implementation has code
* `Chain.proxies_follow` — at all times the proxies run the implementation of their beacon
-/

namespace ContractsStylus

namespace Beacon

open Reentrant (Callback Within Reaches Contract restrict restrict_eq_ok restrict_congr
  restrict_true)

/-- The code of an account. -/
inductive Code
  /-- An `UpgradeableBeacon`. -/
  | beacon
  /-- A `BeaconProxy`. -/
  | proxy
  /-- Another contract. -/
  | other
  /-- No code. -/
  | none
  deriving DecidableEq, Repr

/-- Where the code of a running call was taken from, the storage that it runs in, and who called. -/
structure Frame where
  this : Address
  code : Address
  sender : Address
  value : U256
  data : Bytes
  deriving DecidableEq, Repr

/-- Who acts: those outside, who sign transactions, or a running call. -/
inductive Party
  | outside
  | frame (f : Frame)
  deriving DecidableEq, Repr

/-- The accounts of a chain. -/
structure Chain where
  code : Address → Code
  code_zero : code 0 = .none
  /-- The call of a beacon that calldata stands for. -/
  decode : Bytes → Option UpgradeableBeacon.Call
  /-- What a beacon answers to other calldata; it changes nothing then. -/
  view : Slots → Bytes → Except Bytes Bytes
  /-- A static call of `implementation()`, with the decoded answer. -/
  implementation : Storages → Address → Except CallError Address
  implementation_beacon {a : Address} (w : Storages) : code a = .beacon →
    implementation w a = .ok (w a).upgradeableBeacon.implementation
  /-- `Error::encode` of the SDK. -/
  encode : CallError → Bytes
  /-- The data that an error of a beacon is returned as. -/
  encodeError : UpgradeableBeacon.Error → Bytes

/-- What somebody does. The first is for those outside and the others for frames, the last two of
them for those with unknown code. -/
inductive Act
  | transact (account target : Address) (value : U256) (data : Bytes)
  | call (target : Address) (value : U256) (data : Bytes)
  | delegate (target : Address) (data : Bytes)
  | write (s : Slots)
  deriving DecidableEq, Repr

namespace Chain

section Functions

variable (X : Chain)

def hasCode (a : Address) : Bool := X.code a != .none

def revertData : Revert UpgradeableBeacon.Error → Bytes
  | .err e => X.encodeError e
  | .panic _ => []

/-- A call of the code of a frame. A proxy that delegates to a proxy asks the same beacon again,
until that fails. -/
def run (cb : Callback Party Storages Bytes Bytes) (f : Frame) (w : Storages) :
    Except Bytes (Bytes × Storages) :=
  match X.code f.code with
  | .beacon =>
    match X.decode f.data with
    | some call =>
      match (w f.this).upgradeableBeacon.exec X.hasCode f.sender call with
      | .ok self => .ok ([], w.modify f.this (·.setUpgradeableBeacon self))
      | .error e => .error (X.revertData e)
    | none => (X.view (w f.this) f.data).map fun returndata => (returndata, w)
  | .other => cb (.frame f) w
  | .proxy => .error []
  | .none => .ok ([], w)

/-- What a proxy finds around it in a frame. -/
def context (cb : Callback Party Storages Bytes Bytes) (f : Frame) : Context where
  this := f.this
  value := f.value
  hasCode := X.hasCode
  implementation := X.implementation
  encode := X.encode
  delegateCall target data w := X.run cb { f with code := target, data := data } w

/-- A call of the code of a frame, through the fallback of a proxy if it is one. -/
def route (cb : Callback Party Storages Bytes Bytes) (f : Frame) (w : Storages) :
    Except Bytes (Bytes × Storages) :=
  match X.code f.code with
  | .proxy => BeaconProxy.doFallback (X.context cb f) w f.data
  | _ => X.run cb f w

/-- What somebody does. Transactions are signed by accounts without code. -/
def exec : Party → Act → Callback Party Storages Bytes Bytes → Storages → Except Bytes Storages
  | .outside, .transact account target value data, cb, w =>
    if account = 0 ∨ X.hasCode account then .error []
    else (X.route cb ⟨target, target, account, value, data⟩ w).map Prod.snd
  | .frame f, .call target value data, cb, w =>
    (X.route cb ⟨target, target, f.this, value, data⟩ w).map Prod.snd
  | .frame f, .delegate target data, cb, w =>
    match X.code f.code with
    | .other => (X.route cb { f with code := target, data := data } w).map Prod.snd
    | _ => .error []
  | .frame f, .write s, _, w =>
    match X.code f.code with
    | .other => .ok (Function.update w f.this s)
    | _ => .error []
  | _, _, _, _ => .error []

/-- The frame that the code of `f` runs in: a proxy asks its beacon. -/
def resolve (w : Storages) (f : Frame) : Except Bytes Frame :=
  match X.code f.code with
  | .proxy =>
    (BeaconProxy.implementation (X.context (fun _ _ => .error []) f) w).map
      fun implementation => { f with code := implementation }
  | _ => .ok f

/-- The frame that somebody opens by what he does. -/
def opens : Party → Act → Option Frame
  | .outside, .transact account target value data =>
    if account = 0 ∨ X.hasCode account then none else some ⟨target, target, account, value, data⟩
  | .frame f, .call target value data => some ⟨target, target, f.this, value, data⟩
  | .frame f, .delegate target data =>
    match X.code f.code with
    | .other => some { f with code := target, data := data }
    | _ => none
  | _, _ => none

/-- The actions that leave the two slots of the proxies in `S` alone: these are not written, and a
proxy does not delegate to a beacon, which would take the first of them for its own. -/
def spares (S : Address → Bool) (p : Party) (i : Act) (w : Storages) : Bool :=
  match X.opens p i with
  | some f =>
    match X.resolve w f with
    | .ok g => !S g.this || X.code g.code != .beacon
    | .error _ => true
  | none =>
    match p, i with
    | .frame f, .write s =>
      !S f.this || s.first == (w f.this).first && s.beaconSlot == (w f.this).beaconSlot
    | _, _ => true

end Functions

variable {X : Chain} {w w' : Storages} {p : Party} {i : Act} {f g : Frame} {returndata : Bytes}
  {cb cb' : Callback Party Storages Bytes Bytes}

/-! ### What can have been done

`exec` is a long definition, and no proof after this section unfolds it. Three things can have
happened: the code of a beacon has changed the storage that it ran in, unknown code was in control
and has done so, or nothing has changed. -/

theorem route_eq (cb : Callback Party Storages Bytes Bytes) (f : Frame) (w : Storages) :
    X.route cb f w = X.resolve w f >>= fun g => X.run cb g w := by
  cases hcode : X.code f.code with
  | proxy =>
    have himpl : BeaconProxy.implementation (X.context (fun _ _ => .error []) f) w =
        BeaconProxy.implementation (X.context cb f) w := rfl
    rw [route, resolve, hcode]
    dsimp only
    rw [BeaconProxy.doFallback, himpl]
    cases BeaconProxy.implementation (X.context cb f) w with
    | error e => rfl
    | ok a => rfl
  | beacon | other | none =>
    rw [route, resolve, hcode]
    rfl

/-- The storage in which a frame runs and its sender are not changed by a proxy. -/
theorem resolve_eq_ok (h : X.resolve w f = .ok g) : ∃ a, g = { f with code := a } ∧
    (X.code f.code ≠ .proxy → a = f.code) := by
  rw [resolve] at h
  split at h
  · rename_i hcode
    obtain ⟨a, -, rfl⟩ := map_eq_ok.mp h
    exact ⟨a, rfl, fun hne => absurd hcode hne⟩
  · obtain rfl := Except.ok.inj h
    exact ⟨_, rfl, fun _ => rfl⟩

/-- **What the code of a frame has done**: a beacon was changed, or unknown code was in control, or
nothing has changed. -/
theorem run_cases (h : X.run cb g w = .ok (returndata, w')) :
    (∃ call self, X.code g.code = .beacon ∧
      (w g.this).upgradeableBeacon.exec X.hasCode g.sender call = .ok self ∧
      w' = w.modify g.this (·.setUpgradeableBeacon self)) ∨
    (X.code g.code = .other ∧ cb (.frame g) w = .ok (returndata, w')) ∨ w' = w := by
  rw [run] at h
  split at h
  · rename_i hcode
    split at h
    · rename_i call _
      split at h
      · rename_i self hself
        obtain ⟨-, rfl⟩ := Prod.mk.inj (Except.ok.inj h)
        exact Or.inl ⟨call, self, hcode, hself, rfl⟩
      · exact nomatch h
    · obtain ⟨_, -, heq⟩ := map_eq_ok.mp h
      exact Or.inr (Or.inr (Prod.mk.inj heq).2)
  · rename_i hcode
    exact Or.inr (Or.inl ⟨hcode, h⟩)
  · exact nomatch h
  · obtain ⟨-, rfl⟩ := Prod.mk.inj (Except.ok.inj h)
    exact Or.inr (Or.inr rfl)

theorem exec_of_opens (h : X.opens p i = some f) :
    X.exec p i cb w = (X.route cb f w).map Prod.snd := by
  cases p with
  | outside =>
    cases i with
    | transact account target value data =>
      rw [opens] at h
      split at h
      · exact nomatch h
      · rename_i hne
        obtain rfl := Option.some.inj h
        exact if_neg hne
    | call | delegate | write => exact nomatch h
  | frame a =>
    cases i with
    | call target value data =>
      obtain rfl := Option.some.inj h
      rfl
    | delegate target data =>
      rw [opens] at h
      split at h
      · rename_i hcode
        obtain rfl := Option.some.inj h
        rw [exec, hcode]
      · exact nomatch h
    | transact | write => exact nomatch h

/-- Without a frame nothing is done, but for what unknown code writes. -/
theorem exec_of_not_opens (w : Storages) (h : X.opens p i = none) :
    (∀ cb, X.exec p i cb w = .error []) ∨ ∃ f s, p = .frame f ∧ i = .write s ∧
      X.code f.code = .other ∧ ∀ cb, X.exec p i cb w = .ok (Function.update w f.this s) := by
  cases p with
  | outside =>
    cases i with
    | transact account target value data =>
      rw [opens] at h
      split at h
      · rename_i hcond
        exact Or.inl fun cb => if_pos hcond
      · exact nomatch h
    | call | delegate | write => exact Or.inl fun _ => rfl
  | frame f =>
    cases i with
    | call target value data => exact nomatch h
    | delegate target data =>
      rw [opens] at h
      refine Or.inl fun cb => ?_
      rw [exec]
      split at h
      · exact nomatch h
      · rfl
    | write s =>
      cases hcode : X.code f.code with
      | other =>
        refine Or.inr ⟨f, s, rfl, rfl, hcode, fun cb => ?_⟩
        rw [exec, hcode]
      | beacon | proxy | none => exact Or.inl fun cb => by rw [exec, hcode]
    | transact => exact Or.inl fun _ => rfl

/-- **What somebody can have done**: a frame was opened and its code run, or unknown code has
written the storage that it runs in. -/
theorem exec_cases (h : X.exec p i cb w = .ok w') :
    (∃ f g returndata, X.opens p i = some f ∧ X.resolve w f = .ok g ∧
      X.run cb g w = .ok (returndata, w')) ∨
    (X.opens p i = none ∧ ∃ f s, p = .frame f ∧ i = .write s ∧ X.code f.code = .other ∧
      w' = Function.update w f.this s) := by
  cases hopens : X.opens p i with
  | some f =>
    rw [exec_of_opens hopens, route_eq, map_snd_eq_ok] at h
    obtain ⟨returndata, h⟩ := h
    cases hg : X.resolve w f with
    | error e =>
      rw [hg] at h
      exact nomatch h
    | ok g =>
      rw [hg] at h
      exact Or.inl ⟨f, g, returndata, rfl, hg, h⟩
  | none =>
    rcases exec_of_not_opens w hopens with herror | ⟨f, s, rfl, rfl, hcode, hok⟩
    · exact nomatch (herror cb).symm.trans h
    · exact Or.inr ⟨rfl, f, s, rfl, rfl, hcode, Except.ok.inj (h.symm.trans (hok cb))⟩

/-- What somebody does depends on the called frame only. -/
theorem exec_congr (h : ∀ f g, X.opens p i = some f → X.resolve w f = .ok g →
    X.code g.code = .other → cb (.frame g) w = cb' (.frame g) w) :
    X.exec p i cb w = X.exec p i cb' w := by
  cases hopens : X.opens p i with
  | some f =>
    rw [exec_of_opens hopens, exec_of_opens hopens, route_eq, route_eq]
    cases hg : X.resolve w f with
    | error e => rfl
    | ok g =>
      have hrun : X.run cb g w = X.run cb' g w := by
        cases hcode : X.code g.code with
        | other =>
          rw [run, run, hcode]
          exact h f g hopens hg hcode
        | beacon | proxy | none => rw [run, run, hcode]
      exact congrArg (Except.map Prod.snd) hrun
  | none =>
    rcases exec_of_not_opens w hopens with herror | ⟨f, s, -, -, -, hok⟩
    · rw [herror, herror]
    · rw [hok, hok]

/-! ### What is kept

A relation between storages is kept by everything that can happen when it is kept by beacons and by
whoever is given control. `Kept` is that, and `Kept.contract` makes of it the contract of the
parties that the rules for nested calls ask for. -/

/-- A relation between storages that is kept by whatever is allowed: by the changes of a beacon, in
whatever storage its code runs, and by the writes of unknown code in the frames that are legitimate
for it. -/
structure Kept (X : Chain) (allowed : Party → Act → Storages → Bool) (Legit : Frame → Prop)
    (G : Storages → Storages → Prop) : Prop where
  refl (w : Storages) : G w w
  trans {w u w' : Storages} : G w u → G u w' → G w w'
  legit {p : Party} {i : Act} {w : Storages} {f g : Frame} : (∀ f, p = .frame f → Legit f) →
    X.opens p i = some f → X.resolve w f = .ok g → X.code g.code = .other → Legit g
  beacon {p : Party} {i : Act} {w : Storages} {f g : Frame} {call : UpgradeableBeacon.Call}
    {self : UpgradeableBeacon} : (∀ f, p = .frame f → Legit f) → allowed p i w →
    X.opens p i = some f → X.resolve w f = .ok g → X.code g.code = .beacon →
    (w g.this).upgradeableBeacon.exec X.hasCode g.sender call = .ok self →
    G w (w.modify g.this (·.setUpgradeableBeacon self))
  write {f : Frame} {s : Slots} {w : Storages} : Legit f → allowed (.frame f) (.write s) w →
    X.code f.code = .other → G w (Function.update w f.this s)

/-- **The contract of the parties**: they find what has been kept from `w₀` on, and keep it. -/
def Kept.contract {allowed : Party → Act → Storages → Bool} {Legit : Frame → Prop}
    {G : Storages → Storages → Prop} (h : Kept X allowed Legit G) (w₀ : Storages) :
    Contract (restrict allowed [] X.exec) where
  Rely p w := (∀ f, p = .frame f → Legit f) ∧ G w₀ w
  Guarantee := G
  refl := h.refl
  trans := h.trans
  stable hrely hw := ⟨hrely.1, h.trans hrely.2 hw⟩
  exec_ok := by
    rintro p i cb w w' ⟨hlegit, hw⟩ hcb hexec
    obtain ⟨hallowed, hexec⟩ := restrict_eq_ok.mp hexec
    rcases exec_cases hexec with ⟨f, g, returndata, hopens, hg, hrun⟩ |
      ⟨-, f, s, rfl, rfl, hcode, rfl⟩
    · rcases run_cases hrun with ⟨call, self, hcode, hself, rfl⟩ | ⟨hcode, hcall⟩ | rfl
      · exact h.beacon hlegit hallowed hopens hg hcode hself
      · refine hcb _ _ _ _ hcall ⟨?_, hw⟩
        rintro _ ⟨⟩
        exact h.legit hlegit hopens hg hcode
      · exact h.refl _
    · exact h.write (hlegit f rfl) hallowed hcode
  exec_congr := by
    rintro p i cb cb' w ⟨hlegit, hw⟩ - hagree
    refine restrict_congr (exec_congr fun f g hopens hg hcode => hagree _ _ ⟨?_, hw⟩)
    rintro _ ⟨⟩
    exact h.legit hlegit hopens hg hcode

/-! ### Beacons

The relation is between the slots of one beacon. No frame with unknown code runs in its storage, so
it is left to the three calls, and what these keep is kept by everything. That the implementation
has code and that the beacon stays as it is are two instances. -/

/-- Whoever is called runs in the storage of the called account, and whoever is delegated to in that
of the caller. -/
theorem opens_cases (h : X.opens p i = some f) :
    (f.code = f.this ∧ (f.sender ≠ 0 ∨ ∃ f₀, p = .frame f₀ ∧ f.sender = f₀.this)) ∨
      ∃ f₀, p = .frame f₀ ∧ f.this = f₀.this := by
  cases p with
  | outside =>
    cases i with
    | transact account target value data =>
      rw [opens] at h
      split at h
      · exact nomatch h
      · rename_i hne
        obtain rfl := Option.some.inj h
        exact Or.inl ⟨rfl, Or.inl fun hzero => hne (Or.inl hzero)⟩
    | call | delegate | write => exact nomatch h
  | frame f₀ =>
    cases i with
    | call target value data =>
      obtain rfl := Option.some.inj h
      exact Or.inl ⟨rfl, Or.inr ⟨f₀, rfl, rfl⟩⟩
    | delegate target data =>
      rw [opens] at h
      split at h
      · obtain rfl := Option.some.inj h
        exact Or.inr ⟨f₀, rfl, rfl⟩
      · exact nomatch h
    | transact | write => exact nomatch h

variable {B : Address} {allowed : Party → Act → Storages → Bool}
  {R : Slots → Slots → Prop} {u : Storages}

/-- The frames that are not in the storage of `B`. -/
def Apart (X : Chain) (B : Address) (f : Frame) : Prop := f.this ≠ B ∧ X.code f.this ≠ .none

theorem apart_of_code (hB : X.code B = .beacon)
    (h : X.code f.this = .proxy ∨ X.code f.this = .other) : X.Apart B f := by
  refine ⟨fun hthis => ?_, fun hnone => ?_⟩
  · rw [hthis, hB] at h
    simp at h
  · rw [hnone] at h
    simp at h

/-- Nobody is given control in the storage of a beacon, or without code. -/
theorem apart_of_opens (hB : X.code B = .beacon) (hlegit : ∀ f, p = .frame f → X.Apart B f)
    (hopens : X.opens p i = some f) (hg : X.resolve w f = .ok g) (hcode : X.code g.code = .other) :
    X.Apart B g := by
  obtain ⟨a, rfl, ha⟩ := resolve_eq_ok hg
  rcases opens_cases hopens with ⟨hf, -⟩ | ⟨f₀, hf₀, hthis⟩
  · rw [hf] at ha
    refine apart_of_code hB ?_
    by_cases hproxy : X.code f.this = .proxy
    · exact Or.inl hproxy
    · exact Or.inr (ha hproxy ▸ hcode)
  · obtain ⟨hne, hnone⟩ := hlegit f₀ hf₀
    rw [← hthis] at hne hnone
    exact ⟨hne, hnone⟩

/-- Somebody is the sender of every frame in the storage of a beacon. -/
theorem sender_ne_zero (hlegit : ∀ f, p = .frame f → X.Apart B f) (hopens : X.opens p i = some f)
    (hthis : f.this = B) : f.sender ≠ 0 := by
  rcases opens_cases hopens with ⟨-, hne | ⟨f₀, hf₀, hsender⟩⟩ | ⟨f₀, hf₀, hthis'⟩
  · exact hne
  · intro hzero
    have hnone : X.code f₀.this = .none := (congrArg X.code (hsender.symm.trans hzero)).trans
      X.code_zero
    exact (hlegit f₀ hf₀).2 hnone
  · exact absurd (hthis'.symm.trans hthis) (hlegit f₀ hf₀).1

/-- **A beacon is changed by calls of its functions only**: what these keep is kept by everything
that happens. -/
theorem kept_beacon (hB : X.code B = .beacon) (hrefl : ∀ s, R s s)
    (htrans : ∀ s t r, R s t → R t r → R s r)
    (hstep : ∀ p i w f call self, X.opens p i = some f → f.this = B → f.sender ≠ 0 →
      allowed p i w → (w B).upgradeableBeacon.exec X.hasCode f.sender call = .ok self →
      R (w B) ((w B).setUpgradeableBeacon self)) :
    Kept X allowed (X.Apart B) fun w w' => R (w B) (w' B) where
  refl w := hrefl _
  trans := htrans _ _ _
  legit := apart_of_opens hB
  beacon := by
    intro p i w f g call self hlegit hallowed hopens hg _ hself
    obtain ⟨a, rfl, -⟩ := resolve_eq_ok hg
    rw [Storages.modify]
    by_cases hthis : f.this = B
    · have hzero := sender_ne_zero hlegit hopens hthis
      dsimp only at hself
      rw [hthis] at hself
      dsimp only
      rw [hthis, Function.update_self]
      exact hstep p i w f call self hopens hthis hzero hallowed hself
    · rw [Function.update_of_ne (Ne.symm hthis)]
      exact hrefl _
  write := by
    intro f s w hlegit _ _
    rw [Function.update_of_ne hlegit.1.symm]
    exact hrefl _

/-- The actions that are not calls of the beacon `B` by `owner`. -/
def quiet (X : Chain) (owner B : Address) (p : Party) (i : Act) (_w : Storages) : Bool :=
  match X.opens p i with
  | some f => !(f.sender == owner && f.this == B)
  | none => true

/-- What is found in the course of transactions has been kept from their beginning. -/
theorem Kept.reaches {Legit : Frame → Prop} {G : Storages → Storages → Prop}
    (h : Kept X allowed Legit G)
    (hu : Reaches (restrict allowed [] X.exec) .outside w p u) : G w u :=
  ((h.contract w).rely hu ⟨nofun, h.refl w⟩).2

/-- The implementation of a beacon has code once it had. -/
theorem hasCode_kept (hB : X.code B = .beacon) : Kept X allowed (X.Apart B) fun w w' =>
    X.hasCode (w B).upgradeableBeacon.implementation →
      X.hasCode (w' B).upgradeableBeacon.implementation := by
  refine kept_beacon hB (R := fun s t => X.hasCode s.upgradeableBeacon.implementation →
    X.hasCode t.upgradeableBeacon.implementation) (fun _ h => h) ?_ ?_
  · exact fun s t r hst htr hs => htr (hst hs)
  · intro p i w f call self _ _ _ _ hself hs
    obtain ⟨-, ⟨a, -, ha, rfl⟩ | ⟨a, -, -, rfl⟩ | ⟨-, rfl⟩⟩ := UpgradeableBeacon.exec_eq_ok.mp hself
    · exact ha
    · exact hs
    · exact hs

/-- A beacon stays as it is while its owner may not call it. -/
theorem upgradeableBeacon_of_reaches {owner : Address} (hB : X.code B = .beacon)
    (howner : (w B).upgradeableBeacon.ownable.owner = owner)
    (hne : ∀ p i w f, X.opens p i = some f → f.this = B → f.sender ≠ 0 → allowed p i w →
      f.sender ≠ owner)
    (hu : Reaches (restrict allowed [] X.exec) .outside w p u) :
    (u B).upgradeableBeacon = (w B).upgradeableBeacon := by
  have hkept : Kept X allowed (X.Apart B) fun w w' =>
      (w B).upgradeableBeacon.ownable.owner = owner →
        (w' B).upgradeableBeacon = (w B).upgradeableBeacon := by
    refine kept_beacon hB
      (R := fun s t => s.upgradeableBeacon.ownable.owner = owner →
        t.upgradeableBeacon = s.upgradeableBeacon) (fun _ _ => rfl) ?_ ?_
    · intro s t r hst htr hs
      have ht := hst hs
      rw [← ht] at hs
      exact (htr hs).trans ht
    · intro p i w f call self hopens hthis hzero hallowed hself hs
      obtain ⟨hsender, -⟩ := UpgradeableBeacon.exec_eq_ok.mp hself
      exact absurd (hsender.symm.trans hs) (hne p i w f hopens hthis hzero hallowed)
  exact hkept.reaches hu howner

theorem restrict_exec (X : Chain) : restrict (fun _ _ _ => true) [] X.exec = X.exec :=
  restrict_true

theorem hasCode_of_reaches (hB : X.code B = .beacon)
    (hcode : X.hasCode (w B).upgradeableBeacon.implementation)
    (hu : Reaches X.exec .outside w p u) : X.hasCode (u B).upgradeableBeacon.implementation := by
  rw [← X.restrict_exec] at hu
  exact (hasCode_kept hB).reaches hu hcode

/-- A beacon stays as it is until its owner calls it. -/
theorem upgradeableBeacon_of_quiet {owner : Address} (hB : X.code B = .beacon)
    (howner : (w B).upgradeableBeacon.ownable.owner = owner)
    (hu : Reaches (restrict (X.quiet owner B) [] X.exec) .outside w p u) :
    (u B).upgradeableBeacon = (w B).upgradeableBeacon := by
  refine upgradeableBeacon_of_reaches hB howner (fun p i w' f hopens hthis _ hallowed => ?_) hu
  unfold quiet at hallowed
  rw [hopens] at hallowed
  simpa [hthis] using hallowed

/-- **A beacon is governed by its owner.** In every situation in the course of transactions, in
which anybody may call and delegate to anybody, the implementation of the beacon has code if it had
before. As long as the owner does not call the beacon, the beacon does not change, and without an
owner it does not change at all. So a beacon has an implementation with code from its deployment on,
and is as its constructor left it until its first owner calls it. -/
theorem beacon_governed (hB : X.code B = .beacon) :
    (X.hasCode (w B).upgradeableBeacon.implementation →
      ∀ p u, Reaches X.exec .outside w p u →
        X.hasCode (u B).upgradeableBeacon.implementation) ∧
    (∀ p u, Reaches (restrict (X.quiet (w B).upgradeableBeacon.ownable.owner B) [] X.exec)
      .outside w p u → (u B).upgradeableBeacon = (w B).upgradeableBeacon) ∧
    ((w B).upgradeableBeacon.ownable.owner = 0 →
      ∀ p u, Reaches X.exec .outside w p u →
        (u B).upgradeableBeacon = (w B).upgradeableBeacon) ∧
    ∀ implementation initialOwner,
      UpgradeableBeacon.constructor X.hasCode implementation initialOwner =
          .ok (w B).upgradeableBeacon →
        (∀ p u, Reaches X.exec .outside w p u →
          X.hasCode (u B).upgradeableBeacon.implementation) ∧
        ∀ p u, Reaches (restrict (X.quiet initialOwner B) [] X.exec) .outside w p u →
          (u B).upgradeableBeacon = ⟨implementation, ⟨initialOwner⟩⟩ := by
  refine ⟨fun hcode p u hu => hasCode_of_reaches hB hcode hu, fun p u hu => ?_,
    fun howner p u hu => ?_, fun implementation initialOwner hdeploy => ?_⟩
  · exact upgradeableBeacon_of_quiet hB rfl hu
  · rw [← X.restrict_exec] at hu
    exact upgradeableBeacon_of_reaches hB howner (fun _ _ _ _ _ _ hzero _ => hzero) hu
  · obtain ⟨-, hcode, hw⟩ := UpgradeableBeacon.constructor_eq_ok.mp hdeploy
    refine ⟨fun p u hu => hasCode_of_reaches hB (by rwa [hw]) hu, fun p u hu => ?_⟩
    rw [← hw]
    exact upgradeableBeacon_of_quiet hB (by rw [hw]) hu

/-- A beacon at 1, which account 9 owns, proxies at 11 and 12, and two contracts at 21 and 22. -/
def twoProxies : Chain where
  code a :=
    if a = 1 then .beacon
    else if a = 11 ∨ a = 12 then .proxy
    else if a = 21 ∨ a = 22 then .other
    else .none
  code_zero := rfl
  decode data := if data = [1] then some (.upgradeTo 22) else none
  view _ _ := .ok []
  implementation w a := if a = 1 then .ok (w a).first else .error .AbiDecodingFailed
  implementation_beacon {a} w h := by
    by_cases ha : a = 1
    · rw [if_pos ha]
      rfl
    · rw [if_neg ha] at h
      split at h
      · exact nomatch h
      · split at h <;> exact nomatch h
  encode _ := []
  encodeError _ := []

/-- The storages when the beacon is deployed and the proxies are not. -/
def twoProxies.storages : Storages := fun a => if a = 1 then ⟨21, 9, 0⟩ else ⟨0, 0, 0⟩

/-- A beacon is deployed and its owner upgrades it. It stays so if she does not call it again. -/
theorem beacon_governed_upgrade :
    UpgradeableBeacon.constructor twoProxies.hasCode 21 9 =
      .ok (twoProxies.storages 1).upgradeableBeacon ∧
    ∃ u, Within twoProxies.exec .outside twoProxies.storages u ∧
      (u 1).upgradeableBeacon = ⟨22, ⟨9⟩⟩ ∧
      twoProxies.hasCode (u 1).upgradeableBeacon.implementation ∧
      ∀ p v, Reaches (restrict (twoProxies.quiet 9 1) [] twoProxies.exec) .outside u p v →
        (v 1).upgradeableBeacon = ⟨22, ⟨9⟩⟩ := by
  have hdeploy : UpgradeableBeacon.constructor twoProxies.hasCode 21 9 =
      .ok (twoProxies.storages 1).upgradeableBeacon := rfl
  have hrun : (twoProxies.exec .outside (.transact 9 1 0 [1]) (fun _ _ => .error [])
      twoProxies.storages).toOption.map (fun u => (u 1).upgradeableBeacon) = some ⟨22, ⟨9⟩⟩ := by
    decide +kernel
  obtain ⟨u, hexec, hu⟩ := Option.map_eq_some_iff.mp hrun
  have hlegal : Reentrant.Legal twoProxies.exec fun _ _ => .error [] := Reentrant.legal_error []
  have hwithin := (Within.refl .outside twoProxies.storages).call hlegal
    (Except.toOption_eq_some.mp hexec)
  obtain ⟨-, -, -, hdeployed⟩ :=
    beacon_governed (X := twoProxies) (B := 1) (w := twoProxies.storages) rfl
  obtain ⟨-, hquiet, -⟩ := beacon_governed (X := twoProxies) (B := 1) (w := u) rfl
  rw [hu] at hquiet
  exact ⟨hdeploy, u, hwithin, hu, (hdeployed 21 9 hdeploy).1 _ u (Reaches.refl.run hwithin),
    hquiet⟩

/-! ### Proxies

The relation is that the two slots of some proxies are as they were, and it is kept by the actions
that spare them. A proxy that is deployed while others are installed does not change theirs,
whatever its set-up call does that spares them. -/

/-- The slots that the proxies in `S` keep their beacons in are as they were. -/
def SameBeacons (S : Address → Bool) (w w' : Storages) : Prop :=
  ∀ P, S P → (w' P).first = (w P).first ∧ (w' P).beaconSlot = (w P).beaconSlot

theorem sameBeacons_update {S : Address → Bool} {a : Address} {s : Slots}
    (h : S a → s.first = (w a).first ∧ s.beaconSlot = (w a).beaconSlot) :
    SameBeacons S w (Function.update w a s) := by
  intro P hP
  by_cases hPa : P = a
  · subst hPa
    rw [Function.update_self]
    exact h hP
  · rw [Function.update_of_ne hPa]
    exact ⟨rfl, rfl⟩

/-- **What spares the slots of the proxies keeps their beacons.** -/
theorem kept_sameBeacons (S : Address → Bool) :
    Kept X (X.spares S) (fun _ => True) (SameBeacons S) where
  refl _ _ _ := ⟨rfl, rfl⟩
  trans h h' P hP := ⟨(h' P hP).1.trans (h P hP).1, (h' P hP).2.trans (h P hP).2⟩
  legit _ _ _ _ := trivial
  beacon := by
    intro p i w f g call self _ hallowed hopens hg hcode _
    refine sameBeacons_update fun hS => ?_
    unfold spares at hallowed
    rw [hopens] at hallowed
    dsimp only at hallowed
    rw [hg] at hallowed
    dsimp only at hallowed
    rw [hS, hcode] at hallowed
    exact absurd hallowed (by decide)
  write := by
    intro f s w _ hallowed _
    refine sameBeacons_update fun hS => ?_
    simpa [spares, opens, hS] using hallowed

/-- The proxies in `S` have their beacons in both of their slots. -/
def HaveBeacons (beacon : Address → Address) (S : Address → Bool) (w : Storages) : Prop :=
  ∀ P, S P → (w P).first = beacon P ∧ (w P).beaconSlot = beacon P

theorem HaveBeacons.of_same {beacon : Address → Address} {S : Address → Bool}
    (hw : HaveBeacons beacon S w) (hsame : SameBeacons S w w') : HaveBeacons beacon S w' :=
  fun P hP => ⟨(hsame P hP).1.trans (hw P hP).1, (hsame P hP).2.trans (hw P hP).2⟩

/-- The proxies in `S`, and the proxy `P`. -/
def insertProxy (P : Address) (S : Address → Bool) (a : Address) : Bool := a == P || S a

/-- What the set-up call of a new proxy `P` does is no matter to the slots of the other proxies, nor
to `beaconSlot` of the new one. -/
theorem slots_of_setUp {S : Address → Bool} {P sender implementation : Address} {value : U256}
    {data : Bytes}
    (hcb : Reentrant.Legal (restrict (X.spares (insertProxy P S)) [] X.exec) cb)
    (h : Erc1967Utils.SetUpBeacon (X.context cb ⟨P, P, sender, value, data⟩) w implementation data
      w') : ∀ a, insertProxy P S a → (w' a).beaconSlot = (w a).beaconSlot ∧
        (a ≠ P → (w' a).first = (w a).first) := by
  intro a ha
  obtain ⟨-, -, rfl⟩ | ⟨-, returndata, hcall⟩ := h
  · exact ⟨rfl, fun _ => rfl⟩
  · rcases run_cases hcall with ⟨call, self, -, -, rfl⟩ | ⟨-, hcall⟩ | rfl
    · -- a beacon's code writes the first slot of the new proxy, which is still to be set
      rw [Storages.modify]
      by_cases haP : a = P
      · subst haP
        rw [Function.update_self]
        exact ⟨rfl, fun hne => absurd rfl hne⟩
      · rw [Function.update_of_ne haP]
        exact ⟨rfl, fun _ => rfl⟩
    · have hsame : SameBeacons (insertProxy P S) w w' :=
        ((kept_sameBeacons _).contract w).guarantee (hcb _ _ _ _ hcall)
          ⟨fun _ _ => trivial, (kept_sameBeacons (X := X) _).refl w⟩
      exact ⟨(hsame a ha).2, fun _ => (hsame a ha).1⟩
    · exact ⟨rfl, fun _ => rfl⟩

/-- **A constructor** gives a new proxy its beacon, and leaves the other proxies theirs. -/
theorem HaveBeacons.deploy {beacon : Address → Address} {S : Address → Bool} {P sender : Address}
    {value : U256} {data : Bytes}
    (hcb : Reentrant.Legal (restrict (X.spares (insertProxy P S)) [] X.exec) cb)
    (hw : HaveBeacons beacon S w)
    (h : BeaconProxy.constructor (X.context cb ⟨P, P, sender, value, data⟩) w (beacon P) data =
      .ok w') : HaveBeacons beacon (insertProxy P S) w' := by
  obtain ⟨implementation, w₁, -, hsetup, rfl⟩ := BeaconProxy.constructor_eq_ok.mp h
  intro a ha
  obtain ⟨hslot, hfirst⟩ := slots_of_setUp hcb hsetup a ha
  have hthis : (X.context cb ⟨P, P, sender, value, data⟩).this = P := rfl
  rw [Erc1967Utils.announced, Storages.modify, hthis] at hslot hfirst
  rw [Storages.modify, hthis]
  by_cases haP : a = P
  · subst haP
    rw [Function.update_self] at hslot ⊢
    exact ⟨rfl, hslot⟩
  · rw [Function.update_of_ne haP] at hslot hfirst ⊢
    have haS : S a := by simpa [insertProxy, haP] using ha
    exact ⟨(hfirst haP).trans (hw a haS).1, hslot.trans (hw a haS).2⟩

/-- The storages in which the proxies in `S` are installed: they are found with their beacons, or
deployed one after the other, and what happens in between spares them. -/
inductive Installed (X : Chain) (beacon : Address → Address) : (Address → Bool) → Storages → Prop
  | found {S : Address → Bool} {w : Storages} : HaveBeacons beacon S w → Installed X beacon S w
  | deploy {S : Address → Bool} {w w' : Storages} {P sender : Address} {value : U256} {data : Bytes}
      {cb : Callback Party Storages Bytes Bytes} : Installed X beacon S w →
      Reentrant.Legal (restrict (X.spares (insertProxy P S)) [] X.exec) cb →
      BeaconProxy.constructor (X.context cb ⟨P, P, sender, value, data⟩) w (beacon P) data =
        .ok w' → Installed X beacon (insertProxy P S) w'
  | transact {S : Address → Bool} {w w' : Storages} : Installed X beacon S w →
      Within (restrict (X.spares S) [] X.exec) .outside w w' → Installed X beacon S w'

/-- **Installed proxies have their beacons.** -/
theorem Installed.haveBeacons {beacon : Address → Address} {S : Address → Bool}
    (h : X.Installed beacon S w) : HaveBeacons beacon S w := by
  induction h with
  | found hw => exact hw
  | deploy _ hcb hconstructor ih => exact ih.deploy hcb hconstructor
  | transact _ hrun ih =>
    exact ih.of_same ((kept_sameBeacons _).reaches (Reaches.refl.run hrun))

/-- **The proxies follow their beacons.** The proxies in `S` are installed, each by its constructor
or with its beacon in both of its slots, and nothing is done that does not spare these. Then in
every situation in the course of transactions, also in the middle of calls, both slots are still as
they were, and a call of a proxy is one of the implementation that its beacon has at the time, in
the storage of the proxy; that has code if it had before. So proxies of one beacon cannot be found
running different implementations. -/
theorem proxies_follow {S : Address → Bool} {beacon : Address → Address}
    (hproxy : ∀ P, S P → X.code P = .proxy) (hw : X.Installed beacon S w)
    (hu : Reaches (restrict (X.spares S) [] X.exec) .outside w p u) {P : Address}
    (hP : S P) (cb : Callback Party Storages Bytes Bytes) (sender : Address) (value : U256)
    (data : Bytes) :
    BeaconProxy.getBeacon (X.context cb ⟨P, P, sender, value, data⟩) u = beacon P ∧
    Erc1967Utils.getBeacon (X.context cb ⟨P, P, sender, value, data⟩) u = beacon P ∧
    (X.code (beacon P) = .beacon →
      X.route cb ⟨P, P, sender, value, data⟩ u =
        X.run cb ⟨P, (u (beacon P)).upgradeableBeacon.implementation, sender, value, data⟩ u ∧
      (X.hasCode (w (beacon P)).upgradeableBeacon.implementation →
        X.hasCode (u (beacon P)).upgradeableBeacon.implementation)) := by
  obtain ⟨hfirst, hslot⟩ := hw.haveBeacons.of_same ((kept_sameBeacons S).reaches hu) P hP
  refine ⟨hfirst, hslot, fun hB => ⟨?_, (hasCode_kept hB).reaches hu⟩⟩
  have himpl : X.implementation u (u P).first =
      .ok (u (beacon P)).upgradeableBeacon.implementation := by
    rw [hfirst]
    exact X.implementation_beacon u hB
  have hresolve : X.resolve u ⟨P, P, sender, value, data⟩ =
      .ok ⟨P, (u (beacon P)).upgradeableBeacon.implementation, sender, value, data⟩ := by
    rw [resolve, hproxy P hP]
    change ((X.implementation u (u P).first).mapError X.encode).map _ = _
    rw [himpl]
    rfl
  rw [route_eq, hresolve]
  rfl

/-- Both proxies are deployed. After an upgrade they run the new implementation. -/
theorem proxies_follow_upgrade :
    let deploy (w : Storages) (P : Address) :=
      BeaconProxy.constructor (twoProxies.context (fun _ _ => .error []) ⟨P, P, 9, 0, []⟩) w 1 []
    ∃ w₁ w u, deploy twoProxies.storages 11 = .ok w₁ ∧ deploy w₁ 12 = .ok w ∧
      Within twoProxies.exec .outside w u ∧
      ∀ P, P = 11 ∨ P = 12 → ∀ cb sender value data,
        twoProxies.route cb ⟨P, P, sender, value, data⟩ u =
          twoProxies.run cb ⟨P, 22, sender, value, data⟩ u := by
  intro deploy
  let S : Address → Bool := insertProxy 12 (insertProxy 11 fun _ => false)
  let installed (w : Storages) (P : Address) : Storages :=
    (w.modify P ({ · with beaconSlot := 1 })).modify P ({ · with first := 1 })
  let w : Storages := installed (installed twoProxies.storages 11) 12
  have hrun : (restrict (twoProxies.spares S) [] twoProxies.exec .outside (.transact 9 1 0 [1])
      (fun _ _ => .error []) w).toOption.map (fun u => (u 1).upgradeableBeacon) =
        some ⟨22, ⟨9⟩⟩ := by decide +kernel
  obtain ⟨u, hexec, hu⟩ := Option.map_eq_some_iff.mp hrun
  have hlegal : ∀ S, Reentrant.Legal (restrict (twoProxies.spares S) [] twoProxies.exec)
      fun _ _ => .error [] := fun _ => Reentrant.legal_error []
  have hwithin := (Within.refl .outside w).call (hlegal S) (Except.toOption_eq_some.mp hexec)
  have hdeploy₁ : deploy twoProxies.storages 11 = .ok (installed twoProxies.storages 11) := rfl
  have hdeploy₂ : deploy (installed twoProxies.storages 11) 12 = .ok w := rfl
  have hinstalled : twoProxies.Installed (fun _ => 1) S w :=
    .deploy (.deploy (.found nofun) (hlegal _) hdeploy₁) (hlegal _) hdeploy₂
  have hS : ∀ P, S P → P = 12 ∨ P = 11 := by simp [S, insertProxy]
  refine ⟨_, w, u, hdeploy₁, hdeploy₂, hwithin.of_restrict, fun P hP cb sender value data => ?_⟩
  have hproxy : ∀ P, S P → twoProxies.code P = .proxy := by
    intro P hP
    rcases hS P hP with rfl | rfl <;> rfl
  have hSP : S P := by rcases hP with rfl | rfl <;> rfl
  obtain ⟨-, -, hfollow⟩ :=
    proxies_follow hproxy hinstalled (Reaches.refl.run hwithin) hSP cb sender value data
  obtain ⟨hroute, -⟩ := hfollow rfl
  rwa [hu] at hroute

end Chain

end Beacon

end ContractsStylus
