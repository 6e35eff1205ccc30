import ContractsStylus.Proxy.Chain

/-!
# Upgrades within upgrades

What becomes of the version of a proxy and of its implementation when frames may be in the middle
of upgrades that other frames started. There the slot is new and the version old. So what is kept at
all times is less than that the two agree, and a frame in the storage of the proxy has to know that
its code is the one in the slot, or is outdated.

## Rely and guarantee

Frames are nested, and every one of them may be interrupted by the ones it calls. So each has a
condition that it relies on and that no other frame takes away from it (`Rely.stable`), and each
guarantees something about what it has done between any two points (`Guarantee`, which is reflexive
and transitive). The library turns the two into an invariant of whole runs, given a proof for each
thing that a frame can do.

`Later` is the heart of it: the storage of a proxy is as it was, or the version has caught up with
the implementation. In the middle of an upgrade it is neither. A frame that is given control there
runs the code in the slot, and that is all that `Rely` asks of it; the frame that is upgrading has
its turn again only after the version was set, and its code is outdated by then.

The direct calls of an implementation run in its own storage, in which the constructor has left its
flag. They can neither upgrade it nor set a version there.

## Main definitions

* `Chain.Consistent` — the version of a proxy is the one of its implementation
* `Chain.Rely`, `Chain.Guarantee`, `Chain.contract` — what frames rely on, and what they guarantee

## Main results

* `Chain.constructor_consistent` — a proxy is consistent once it is deployed and set up
* `Chain.upgrades_consistent` — it remains so whatever happens
-/

namespace ContractsStylus

namespace UUPSUpgradeable

open Erc1967Utils (IMPLEMENTATION_SLOT SetUp)
open Reentrant (Callback Within Reaches Contract)

namespace Chain

/-- The stored version is the version of the implementation in the slot. -/
def Consistent (X : Chain) (s : ProxyStorage) : Prop := X.code s.implementation = .uups s.version

/-! ### What is kept at all times

`Sound` is about the chain, and is what anybody outside relies on. `Rely` is about a frame. A
guarantee has two parts: soundness is not lost, and the storage of the proxy is the same or a later
one. -/

/-- What the storage of a proxy has become: nothing has changed, or the version has caught up with
the implementation, and with the one that there was before. -/
structure Later (X : Chain) (s s' : ProxyStorage) : Prop where
  version_le : s.version ≤ s'.version
  caught_up : s' = s ∨ X.Consistent s' ∧ ∀ v, X.code s.implementation = .uups v → v ≤ s'.version

/-- The flags tell the implementations from the proxy `P`, which has an implementation. -/
structure Sound (X : Chain) (P : Address) (w : World) : Prop where
  logicFlag : ∀ a v, X.code a = .uups v → (w a).logicFlag
  proxyFlag : (w P).logicFlag = false
  implementation : ∃ v, X.code (w P).implementation = .uups v

/-- What a frame relies on. An implementation has its storage to itself, and in the storage of the
proxy the code is the one in the slot, or is outdated. -/
structure Rely (X : Chain) (P : Address) (f : Frame) (w : World) : Prop where
  sound : X.Sound P w
  direct : ∀ v, X.code f.this = .uups v → f.code = f.this
  running : f.this = P → X.code f.code = .proxy ∨ ∃ v, X.code f.code = .uups v ∧
    ((w P).implementation = f.code ∨ X.Consistent (w P) ∧ v ≤ (w P).version)

/-- What a frame relies on, or somebody outside. -/
def Relies (X : Chain) (P : Address) : Option Frame → World → Prop
  | some f, w => X.Rely P f w
  | none, w => X.Sound P w

/-- What a frame guarantees. -/
structure Guarantee (X : Chain) (P : Address) (w w' : World) : Prop where
  sound : X.Sound P w → X.Sound P w'
  later : X.Later (w P) (w' P)

section Invariant

variable {X : Chain} {P : Address} {w w' u : World} {f : Frame} {s t : ProxyStorage} {v : U32}

theorem Later.refl (s : ProxyStorage) : X.Later s s := ⟨le_refl _, Or.inl rfl⟩

theorem Later.trans {s' : ProxyStorage} (h : X.Later s t) (h' : X.Later t s') : X.Later s s' := by
  refine ⟨le_trans h.version_le h'.version_le, ?_⟩
  rcases h'.caught_up with rfl | ⟨hs', -⟩
  · exact h.caught_up
  · rcases h.caught_up with rfl | ⟨-, hv⟩
    · exact h'.caught_up
    · exact Or.inr ⟨hs', fun v h => le_trans (hv v h) h'.version_le⟩

theorem Later.consistent (h : X.Later s t) (hs : X.Consistent s) : X.Consistent t := by
  rcases h.caught_up with rfl | ⟨ht, -⟩
  · exact hs
  · exact ht

theorem Guarantee.refl (w : World) : X.Guarantee P w w := ⟨fun h => h, .refl _⟩

theorem Guarantee.trans (h : X.Guarantee P w u) (h' : X.Guarantee P u w') : X.Guarantee P w w' :=
  ⟨fun hs => h'.sound (h.sound hs), h.later.trans h'.later⟩

/-- What a frame relies on is left to it. -/
theorem Rely.stable (h : X.Rely P f w) (hw : X.Guarantee P w w') : X.Rely P f w' := by
  refine ⟨hw.sound h.sound, h.direct, fun hthis => ?_⟩
  rcases h.running hthis with hproxy | ⟨v, hv, hrun⟩
  · exact Or.inl hproxy
  · refine Or.inr ⟨v, hv, ?_⟩
    rcases hrun with himpl | ⟨hs, hle⟩
    · rcases hw.later.caught_up with heq | ⟨hs, hle⟩
      · exact Or.inl (heq ▸ himpl)
      · exact Or.inr ⟨hs, hle v (himpl ▸ hv)⟩
    · exact Or.inr ⟨hw.later.consistent hs, le_trans hle hw.later.version_le⟩

/-- The code that runs in a frame can rely on what the frame relies on. -/
theorem Rely.runningCode (h : X.Rely P f w) :
    X.Rely P { f with code := X.runningCode w f.this f.code } w := by
  cases hcode : X.code f.code with
  | proxy =>
    have hrun : X.runningCode w f.this f.code = (w f.this).implementation := by
      rw [Chain.runningCode, hcode]
    rw [hrun]
    refine ⟨h.sound, fun v hv => ?_, fun hthis => ?_⟩
    · rw [h.direct v hv, hv] at hcode
      exact nomatch hcode
    · obtain rfl : f.this = P := hthis
      obtain ⟨v, hv⟩ := h.sound.implementation
      exact Or.inr ⟨v, hv, Or.inl rfl⟩
  | uups _ | other _ | none =>
    have hrun : X.runningCode w f.this f.code = f.code := by rw [Chain.runningCode, hcode]
    rw [hrun]
    exact h

/-- A contract that is called from outside has its storage to itself. -/
theorem Sound.rely_call (h : X.Sound P w) (hP : X.code P = .proxy) (target : Address)
    (value : U256) (data : Bytes) : X.Rely P ⟨target, target, value, data⟩ w :=
  ⟨h, fun _ _ => rfl, fun hthis => Or.inl ((congrArg X.code hthis).trans hP)⟩

/-! ### Writes

A write is described by the account whose storage it is in. Only the proxy and the implementations
matter. -/

/-- Other storages than those of the implementations and of the proxy are of no importance. -/
theorem guarantee_update_of_ne {a : Address} (hne : a ≠ P) (ha : ∀ v, X.code a ≠ .uups v) :
    X.Guarantee P w (Function.update w a s) := by
  have hP : Function.update w a s P = w P := Function.update_of_ne hne.symm _ _
  refine ⟨fun h => ⟨fun b v hb => ?_, ?_, ?_⟩, ?_⟩
  · have hba : b ≠ a := fun hba => ha v (hba ▸ hb)
    rw [Function.update_of_ne hba]
    exact h.logicFlag b v hb
  · rw [hP]
    exact h.proxyFlag
  · rw [hP]
    exact h.implementation
  · rw [hP]
    exact .refl _

/-- The flag of the proxy and its having an implementation survive a write of its storage that
keeps them. -/
theorem Sound.update (h : X.Sound P w) (hP : X.code P = .proxy)
    (hflag : s.logicFlag = (w P).logicFlag) (himpl : ∃ v, X.code s.implementation = .uups v) :
    X.Sound P (Function.update w P s) := by
  refine ⟨fun a v ha => ?_, ?_, ?_⟩
  · have hne : a ≠ P := by
      rintro rfl
      exact nomatch hP.symm.trans ha
    rw [Function.update_of_ne hne]
    exact h.logicFlag a v ha
  · rw [Function.update_self, hflag]
    exact h.proxyFlag
  · rw [Function.update_self]
    exact himpl

/-- Only an implementation has the flag set. -/
theorem Sound.not_uups (h : X.Sound P w) {a : Address} (ha : (w a).logicFlag = false) (v : U32) :
    X.code a ≠ .uups v := by
  intro hv
  rw [h.logicFlag a v hv] at ha
  exact nomatch ha

/-! ### Calls

A version never goes back. A frame whose code is outdated has no newer version than the stored one,
so all that it can set is what is there; a frame that runs the code in the slot sets the version of
that code, and this is how the version catches up. -/

/-- **A version is set for the code in the slot, or for one that is as new.** -/
theorem Rely.later_setVersion (h : X.Rely P f w) (hcode : X.code f.code = .uups v)
    (hset : setVersion v (w f.this) = .ok s) (hthis : f.this = P) :
    X.Later (w P) s ∧ X.Consistent s := by
  obtain rfl := hthis
  obtain ⟨-, hle, rfl⟩ := setVersion_eq_ok.mp hset
  obtain hproxy | ⟨v', hv', hrun⟩ := h.running rfl
  · exact nomatch hproxy.symm.trans hcode
  · obtain rfl := Code.uups.inj (hcode.symm.trans hv')
    rcases hrun with himpl | ⟨hs, hle'⟩
    · have hcons : X.Consistent { w f.this with version := v } :=
        (congrArg X.code himpl).trans hcode
      refine ⟨⟨hle, Or.inr ⟨hcons, fun v' hv' => ?_⟩⟩, hcons⟩
      rw [himpl, hcode] at hv'
      exact (Code.uups.inj hv').ge
    · have heq : { w f.this with version := v } = w f.this := by
        rw [← le_antisymm hle hle']
      rw [heq]
      exact ⟨.refl _, hs⟩

theorem Rely.guarantee_setVersion (hP : X.code P = .proxy) (h : X.Rely P f w)
    (hcode : X.code f.code = .uups v) (hset : setVersion v (w f.this) = .ok s) :
    X.Guarantee P w (Function.update w f.this s) := by
  obtain ⟨hflag, -, hs⟩ := setVersion_eq_ok.mp hset
  by_cases hthis : f.this = P
  · obtain ⟨hlater, hcons⟩ := h.later_setVersion hcode hset hthis
    rw [hthis] at hs ⊢
    refine ⟨fun hsound => hsound.update hP (by rw [hs]) ⟨_, hcons⟩, ?_⟩
    rwa [Function.update_self]
  · exact guarantee_update_of_ne hthis (h.sound.not_uups hflag)

variable {cb cb' : Callback (Option Frame) World Bytes Bytes} {returndata : Bytes}

/-- A call keeps the guarantee if the called frame does. -/
theorem Rely.guarantee_route (hP : X.code P = .proxy)
    (hcb : ∀ a u b u', cb a u = .ok (b, u') → X.Relies P a u → X.Guarantee P u u')
    (h : X.Rely P f w) (hroute : X.route cb f w = .ok (returndata, w')) :
    X.Guarantee P w w' := by
  have hrun := h.runningCode
  rw [route] at hroute
  dsimp only at hroute
  split at hroute
  · rename_i v hv
    split at hroute
    · split at hroute
      · rename_i s hs
        obtain ⟨-, rfl⟩ := Prod.mk.inj (Except.ok.inj hroute)
        have hguarantee := hrun.guarantee_setVersion hP hv hs
        exact hguarantee
      · exact nomatch hroute
    · exact hcb _ _ _ _ hroute hrun
  · exact hcb _ _ _ _ hroute hrun
  · exact nomatch hroute
  · obtain ⟨-, rfl⟩ := Prod.mk.inj (Except.ok.inj hroute)
    exact .refl _

/-- A call depends only on what frames do that find what they rely on. -/
theorem Rely.route_congr (hagree : ∀ a u, X.Relies P a u → cb a u = cb' a u)
    (h : X.Rely P f w) : X.route cb f w = X.route cb' f w := by
  have hrun : cb (some { f with code := X.runningCode w f.this f.code }) w =
      cb' (some { f with code := X.runningCode w f.this f.code }) w := hagree _ _ h.runningCode
  rw [route, route]
  dsimp only
  split <;> simp only [hrun]

/-- The version that `setVersion()` leaves is the one of the implementation that is called. -/
theorem setVersion_of_route (hcode : X.code f.code = .uups v) (hdata : f.data = setVersionCall)
    (hroute : X.route cb f w = .ok (returndata, w')) :
    ∃ s, setVersion v (w f.this) = .ok s ∧ w' = Function.update w f.this s := by
  have hrun : X.runningCode w f.this f.code = f.code := by rw [Chain.runningCode, hcode]
  rw [route, hrun] at hroute
  simp only [hcode, hdata, if_true] at hroute
  split at hroute
  · rename_i s hs
    obtain ⟨-, rfl⟩ := Prod.mk.inj (Except.ok.inj hroute)
    exact ⟨s, hs, rfl⟩
  · exact nomatch hroute

/-- A proxy that is its own implementation cannot be called. -/
theorem route_of_proxy {this newImplementation : Address} {value : U256} {data : Bytes}
    (h : X.code newImplementation = .proxy) :
    X.route cb ⟨this, newImplementation, value, data⟩
      (w.setImplementation this newImplementation) = .error [] := by
  have hrun : X.runningCode (w.setImplementation this newImplementation) this newImplementation =
      newImplementation := by
    rw [Chain.runningCode, h, World.setImplementation, Function.update_self]
  rw [route]
  dsimp only
  rw [hrun, h]

/-! ### Upgrades

An upgrade writes the slot, gives control to the new implementation, and checks. A proxy that is put
into the slot of itself passes the first test, but can then not be called, so the upgrade fails as a
whole. -/

variable {newImplementation : Address} {data : Bytes}

/-- The slot is the answer of implementations, or of proxies. -/
theorem code_of_proxiableUUID
    (hslot : X.proxiableUUID w newImplementation = some IMPLEMENTATION_SLOT) :
    (∃ v, X.code newImplementation = .uups v) ∨ X.code newImplementation = .proxy := by
  cases hcode : X.code newImplementation with
  | uups v => exact Or.inl ⟨v, rfl⟩
  | proxy => exact Or.inr rfl
  | other answers =>
    rw [Chain.proxiableUUID, Chain.runningCode, hcode] at hslot
    dsimp only at hslot
    rw [hcode] at hslot
    exact absurd hslot (X.other_ne hcode w)
  | none =>
    rw [Chain.proxiableUUID, Chain.runningCode, hcode] at hslot
    dsimp only at hslot
    rw [hcode] at hslot
    exact nomatch hslot

/-- **No proxy becomes an implementation**: once it is in the slot it cannot be called any more, and
the call that sets the version fails. -/
theorem exists_uups_of_upgrade
    (h : upgradeToAndCall v (X.context cb f) w newImplementation data = .ok w') :
    ∃ v', X.code newImplementation = .uups v' := by
  obtain ⟨-, hslot, -, u, returndata, hsetup, hversion⟩ := upgradeToAndCall_eq_ok h
  rcases code_of_proxiableUUID hslot with huups | hproxy
  · exact huups
  · rcases hsetup with ⟨-, rfl⟩ | ⟨returndata', hcall⟩
    · exact nomatch (route_of_proxy hproxy).symm.trans hversion
    · exact nomatch (route_of_proxy hproxy).symm.trans hcall

/-- A new implementation can rely on the slot that it finds. -/
theorem Rely.setImplementation (hP : X.code P = .proxy) (h : X.Rely P f w) {v' : U32}
    (honly : onlyProxy v (w f.this) = .ok ()) (hnew : X.code newImplementation = .uups v')
    (data : Bytes) : X.Rely P ⟨f.this, newImplementation, f.value, data⟩
      (w.setImplementation f.this newImplementation) := by
  obtain ⟨hflag, -⟩ := onlyProxy_eq_ok.mp honly
  refine ⟨?_, fun v hv => absurd hv (h.sound.not_uups hflag v), fun hthis => ?_⟩
  · by_cases hthis : f.this = P
    · rw [hthis]
      exact h.sound.update hP rfl ⟨v', hnew⟩
    · exact (guarantee_update_of_ne hthis (h.sound.not_uups hflag)).sound h.sound
  · obtain rfl : f.this = P := hthis
    refine Or.inr ⟨v', hnew, Or.inl ?_⟩
    rw [World.setImplementation, Function.update_self]

/-- What the set-up of a new implementation does is what called frames do. -/
theorem Rely.guarantee_setUp (hP : X.code P = .proxy)
    (hcb : ∀ a u b u', cb a u = .ok (b, u') → X.Relies P a u → X.Guarantee P u u')
    (h : X.Rely P f w) {v' : U32} (honly : onlyProxy v (w f.this) = .ok ())
    (hnew : X.code newImplementation = .uups v')
    (hsetup : SetUp (X.context cb f).toDelegateContext w newImplementation data u) :
    X.Guarantee P (w.setImplementation f.this newImplementation) u := by
  rcases hsetup with ⟨-, rfl⟩ | ⟨returndata, hcall⟩
  · exact .refl _
  · exact (h.setImplementation hP honly hnew data).guarantee_route hP hcb hcall

/-- A frame that passes `only_proxy` knows the version of the implementation in the slot. -/
theorem Rely.version_of_onlyProxy (h : X.Rely P f w) (hcode : X.code f.code = .uups v)
    (honly : onlyProxy v (w f.this) = .ok ()) (hthis : f.this = P) : X.Consistent (w P) := by
  obtain rfl := hthis
  obtain ⟨-, -, hv⟩ := onlyProxy_eq_ok.mp honly
  obtain hproxy | ⟨v', -, himpl | ⟨hs, -⟩⟩ := h.running rfl
  · exact nomatch hproxy.symm.trans hcode
  · rw [Consistent, himpl, hcode, hv]
  · exact hs

/-- **An upgrade keeps the guarantee, whatever its set-up does.** -/
theorem Rely.guarantee_upgrade (hP : X.code P = .proxy)
    (hcb : ∀ a u b u', cb a u = .ok (b, u') → X.Relies P a u → X.Guarantee P u u')
    (h : X.Rely P f w) (hcode : X.code f.code = .uups v)
    (hupgrade : upgradeToAndCall v (X.context cb f) w newImplementation data = .ok w') :
    X.Guarantee P w w' := by
  obtain ⟨v', hnew⟩ := exists_uups_of_upgrade hupgrade
  obtain ⟨honly, -, -, u, returndata, hsetup, hversion⟩ :=
    upgradeToAndCall_eq_ok hupgrade
  have hsetup := h.guarantee_setUp hP hcb honly hnew hsetup
  have hrely := (h.setImplementation hP honly hnew setVersionCall).stable hsetup
  have hafter := hsetup.trans (hrely.guarantee_route hP hcb hversion)
  by_cases hthis : f.this = P
  · have hcons := h.version_of_onlyProxy hcode honly hthis
    obtain ⟨s, hs, rfl⟩ := setVersion_of_route hnew rfl hversion
    obtain ⟨-, hcons'⟩ := hrely.later_setVersion hnew hs hthis
    subst hthis
    have hlater := hafter.later
    rw [World.setImplementation, Function.update_self, Function.update_self] at hlater
    have hle : (w f.this).version ≤ s.version := hlater.version_le
    refine ⟨fun hw => hafter.sound (hw.update hP rfl ⟨v', hnew⟩), ?_⟩
    rw [Function.update_self]
    refine ⟨hle, Or.inr ⟨hcons', fun v hv => ?_⟩⟩
    rwa [← Code.uups.inj (hcons.symm.trans hv)]
  · obtain ⟨hflag, -⟩ := onlyProxy_eq_ok.mp honly
    exact (guarantee_update_of_ne hthis (h.sound.not_uups hflag)).trans hafter

/-- An upgrade depends only on what frames do that find what they rely on. -/
theorem Rely.upgrade_congr (hP : X.code P = .proxy)
    (hcb : ∀ a u b u', cb a u = .ok (b, u') → X.Relies P a u → X.Guarantee P u u')
    (hagree : ∀ a u, X.Relies P a u → cb a u = cb' a u) (h : X.Rely P f w) :
    upgradeToAndCall v (X.context cb f) w newImplementation data =
      upgradeToAndCall v (X.context cb' f) w newImplementation data := by
  refine @upgradeToAndCall_congr v (X.context cb f) w newImplementation data _
    fun honly hslot _ => ?_
  rcases code_of_proxiableUUID hslot with ⟨v', hnew⟩ | hproxy
  · have hrely := h.setImplementation hP honly hnew
    refine ⟨(hrely data).route_congr hagree, fun u hu => ?_⟩
    exact ((hrely setVersionCall).stable (h.guarantee_setUp hP hcb honly hnew hu)).route_congr
      hagree
  · refine ⟨(route_of_proxy hproxy).trans (route_of_proxy hproxy).symm, fun u hu => ?_⟩
    rcases hu with ⟨-, rfl⟩ | ⟨returndata, hcall⟩
    · exact (route_of_proxy hproxy).trans (route_of_proxy hproxy).symm
    · exact nomatch (route_of_proxy hproxy).symm.trans hcall

/-! ### Frames

The lemmas of the last two sections, put together by what a frame does. Two results are needed for
each case: that it keeps the guarantee, and that it does not depend on what the called frames would
do in states that they never find. -/

theorem Relies.sound {a : Option Frame} (h : X.Relies P a w) : X.Sound P w := by
  cases a with
  | none => exact h
  | some f => exact Rely.sound h

/-- Unknown code runs in storages of no importance only. -/
theorem Rely.of_other (h : X.Rely P f w) {answers : World → Option B256}
    (hcode : X.code f.code = .other answers) : f.this ≠ P ∧ ∀ v, X.code f.this ≠ .uups v := by
  refine ⟨fun hthis => ?_, fun v hv => ?_⟩
  · obtain hproxy | ⟨v, hv, -⟩ := h.running hthis
    · exact nomatch hproxy.symm.trans hcode
    · exact nomatch hv.symm.trans hcode
  · rw [h.direct v hv, hv] at hcode
    exact nomatch hcode

/-- Unknown code may delegate to any other code. -/
theorem Rely.delegate (h : X.Rely P f w) {answers : World → Option B256}
    (hcode : X.code f.code = .other answers) (target : Address) (data : Bytes) :
    X.Rely P { f with code := target, data := data } w := by
  obtain ⟨hne, huups⟩ := h.of_other hcode
  exact ⟨h.sound, fun v hv => absurd hv (huups v), fun hthis => absurd hthis hne⟩

/-- **Whatever a frame does keeps the guarantee if the called frames keep it.** -/
theorem guarantee_exec (hP : X.code P = .proxy)
    (hcb : ∀ a u b u', cb a u = .ok (b, u') → X.Relies P a u → X.Guarantee P u u')
    {a : Option Frame} {i : Act} (h : X.Relies P a w) (hexec : X.exec a i cb w = .ok w') :
    X.Guarantee P w w' := by
  rcases exec_cases hexec with ⟨target, value, data, returndata, hroute⟩ | ⟨f, rfl, hframe⟩
  · exact (h.sound.rely_call hP target value data).guarantee_route hP hcb hroute
  · have hrely : X.Rely P f w := h
    rcases hframe with ⟨v, newImplementation, data, hcode, hupgrade⟩ | ⟨v, s, hcode, hset, rfl⟩ |
      ⟨answers, target, data, returndata, hcode, hroute⟩ | ⟨answers, s, hcode, rfl⟩
    · exact hrely.guarantee_upgrade hP hcb hcode hupgrade
    · exact hrely.guarantee_setVersion hP hcode hset
    · exact (hrely.delegate hcode target data).guarantee_route hP hcb hroute
    · obtain ⟨hne, huups⟩ := hrely.of_other hcode
      exact guarantee_update_of_ne hne huups

/-- What a frame does depends only on what frames do that find what they rely on. -/
theorem exec_congr (hP : X.code P = .proxy)
    (hcb : ∀ a u b u', cb a u = .ok (b, u') → X.Relies P a u → X.Guarantee P u u')
    (hagree : ∀ a u, X.Relies P a u → cb a u = cb' a u) {a : Option Frame} {i : Act}
    (h : X.Relies P a w) : X.exec a i cb w = X.exec a i cb' w := by
  cases i with
  | call target value data =>
    rw [exec, exec, (h.sound.rely_call hP target value data).route_congr hagree]
  | upgradeToAndCall newImplementation data =>
    cases a with
    | none => rfl
    | some f =>
      rw [exec, exec]
      split
      · rw [Rely.upgrade_congr hP hcb hagree h]
      · rfl
  | setVersion =>
    cases a with
    | none => rfl
    | some f => rfl
  | delegate target data =>
    cases a with
    | none => rfl
    | some f =>
      rw [exec, exec]
      split
      · rename_i answers hcode
        rw [(Rely.delegate h hcode target data).route_congr hagree]
      · rfl
  | write s =>
    cases a with
    | none => rfl
    | some f => rfl

end Invariant

/-- **The contract of the frames**, for a proxy. -/
def contract {X : Chain} {P : Address} (hP : X.code P = .proxy) : Contract X.exec where
  Rely := X.Relies P
  Guarantee := X.Guarantee P
  refl := .refl
  trans := .trans
  stable {a _ _} h hw :=
    match a with
    | some _ => Rely.stable h hw
    | none => hw.sound h
  exec_ok h hcb hexec := guarantee_exec hP hcb h hexec
  exec_congr h hcb hagree := exec_congr hP hcb hagree h

section Results

variable {X : Chain} {P : Address} {w w' : World}

/-- **A proxy is consistent once it is deployed and set up.** -/
theorem constructor_consistent {cb : Callback (Option Frame) World Bytes Bytes} {f : Frame}
    {implementation : Address} {v : U32} (hcode : X.code implementation = .uups v)
    (h : Erc1967Proxy.constructor (X.context cb f).toDelegateContext w implementation
      setVersionCall = .ok w') :
    X.Consistent (w' f.this) ∧ (w' f.this).logicFlag = false := by
  obtain ⟨-, ⟨hdata, -⟩ | ⟨returndata, hcall⟩⟩ := Erc1967Utils.upgradeToAndCall_eq_ok h
  · exact nomatch hdata
  · obtain ⟨s, hs, rfl⟩ := setVersion_of_route hcode rfl hcall
    obtain ⟨hflag, -, hs⟩ := setVersion_eq_ok.mp hs
    have himpl : s.implementation = implementation := by
      rw [hs]
      exact congrArg ProxyStorage.implementation World.setImplementation_self
    rw [Function.update_self]
    refine ⟨?_, by rw [hs]; exact hflag⟩
    rw [Consistent, himpl, hcode, hs]

/-- **The version of a proxy and its implementation stay consistent.** The implementations have
their flags set, and the proxy `P` is consistent at first.

After any number of transactions, upgrades within upgrades and calls of anybody included, the
version of the proxy is the one of the implementation in its slot, so that `only_proxy` succeeds
behind it. At no time, not even in the middle of an upgrade, does what follows make the version
smaller, is a direct call of an implementation accepted, or the proxy itself as an
implementation. -/
theorem upgrades_consistent (hP : X.code P = .proxy)
    (hlogic : ∀ a v, X.code a = .uups v → (w a).logicFlag) (hproxy : (w P).logicFlag = false)
    (hw : X.Consistent (w P)) :
    (∀ u, Within X.exec none w u → ∃ v, X.code (u P).implementation = .uups v ∧
      (u P).version = v ∧ onlyProxy v (u P) = .ok ()) ∧
    ∀ a u, Reaches X.exec none w a u →
      (∀ u', Within X.exec a u u' → (u P).version ≤ (u' P).version) ∧
      (∀ c v, X.code c = .uups v → setVersion v (u c) = .err .UnauthorizedCallContext ∧
        ∀ cb value calldata newImplementation data,
          upgradeToAndCall v (X.context cb ⟨c, c, value, calldata⟩) u newImplementation data =
            .err .UnauthorizedCallContext) ∧
      ∀ v cb f data u', upgradeToAndCall v (X.context cb f) u P data ≠ .ok u' := by
  have hsound : X.Sound P w := ⟨hlogic, hproxy, ⟨_, hw⟩⟩
  refine ⟨fun u hu => ?_, fun a u hu => ⟨fun u' hu' => ?_, fun c v hc => ?_, ?_⟩⟩
  · have hlater : X.Guarantee P w u := (contract hP).guarantee hu hsound
    have hcons : X.Consistent (u P) := hlater.later.consistent hw
    refine ⟨_, hcons, rfl, onlyProxy_eq_ok.mpr ⟨?_, fun hzero => ?_, rfl⟩⟩
    · exact (hlater.sound hsound).proxyFlag
    · rw [Consistent, hzero, X.code_zero] at hcons
      exact nomatch hcons
  · have hrely : X.Relies P a u := (contract hP).rely hu hsound
    have hlater : X.Guarantee P u u' := (contract hP).guarantee hu' hrely
    exact hlater.later.version_le
  · have hrely : X.Relies P a u := (contract hP).rely hu hsound
    have hflag := hrely.sound.logicFlag c v hc
    refine ⟨setVersion_of_logicFlag hflag, fun cb value calldata _ _ => ?_⟩
    exact upgradeToAndCall_of_logicFlag hflag
  · intro v cb f data u' hupgrade
    obtain ⟨v', hv'⟩ := exists_uups_of_upgrade hupgrade
    exact nomatch hP.symm.trans hv'

/-- A proxy at 11, and three implementations with the versions 1, 2 and 2. -/
def threeVersions : Chain where
  code a :=
    if a = 11 then .proxy
    else if a = 21 then .uups 1
    else if a = 22 ∨ a = 23 then .uups 2
    else .none
  encode _ := []
  code_zero := rfl
  other_ne {a f} h := by
    split at h
    · exact nomatch h
    · split at h
      · exact nomatch h
      · split at h <;> exact nomatch h

theorem threeVersions_uups {a : Address} {v : U32} (h : threeVersions.code a = .uups v) :
    a = 21 ∨ a = 22 ∨ a = 23 := by
  rw [threeVersions] at h
  dsimp only at h
  split at h
  · exact nomatch h
  · split at h
    · exact Or.inl ‹_›
    · split at h
      · exact Or.inr ‹_›
      · exact nomatch h

/-- A proxy is deployed for the first implementation. The second one is set up by a call that makes
the third one its successor. -/
theorem upgrades_consistent_nested :
    let logics : World := fun a =>
      if a = 21 ∨ a = 22 ∨ a = 23 then constructor ⟨0, false, 0⟩ else ⟨0, false, 0⟩
    let ctx := threeVersions.context (fun _ _ => .error []) ⟨11, 11, 0, []⟩
    ∃ w u, Erc1967Proxy.constructor ctx.toDelegateContext logics 21 setVersionCall = .ok w ∧
      Within threeVersions.exec none w u ∧ (u 11).implementation = 23 ∧
      onlyProxy 2 (u 11) = .ok () ∧
      ∀ u', Within threeVersions.exec none u u' → 2 ≤ (u' 11).version := by
  intro logics ctx
  let w : World := Function.update (logics.setImplementation 11 21) 11 ⟨21, false, 1⟩
  have hdeploy : Erc1967Proxy.constructor ctx.toDelegateContext logics 21 setVersionCall = .ok w :=
    rfl
  let script : Option Frame → List Act := fun a =>
    if a = some ⟨11, 21, 0, [1]⟩ then [.upgradeToAndCall 22 [2]]
    else if a = some ⟨11, 22, 0, [2]⟩ then [.setVersion, .upgradeToAndCall 23 []]
    else []
  let cb := Reentrant.scripted threeVersions.exec script []
    (Reentrant.scripted threeVersions.exec script [] fun _ _ => .error [])
  have hcb : Reentrant.Legal threeVersions.exec cb :=
    Reentrant.legal_scripted (Reentrant.legal_scripted (Reentrant.legal_error []))
  have hrun : (threeVersions.exec none (.call 11 0 [1]) cb w).toOption.map (fun u => u 11) =
      some ⟨23, false, 2⟩ := by decide +kernel
  obtain ⟨u, hexec, hu⟩ := Option.map_eq_some_iff.mp hrun
  have hwithin := (Within.refl none w).call hcb (Except.toOption_eq_some.mp hexec)
  have hlogic : ∀ a v, threeVersions.code a = .uups v → (w a).logicFlag := by
    intro a v ha
    rcases threeVersions_uups ha with rfl | rfl | rfl <;> rfl
  obtain ⟨hcons, hflag⟩ := constructor_consistent (X := threeVersions) rfl hdeploy
  obtain ⟨hruns, hsituations⟩ := upgrades_consistent rfl hlogic hflag hcons
  obtain ⟨v, hv, hversion, honly⟩ := hruns u hwithin
  obtain rfl : v = 2 := by rw [← hversion, hu]
  refine ⟨w, u, hdeploy, hwithin, by rw [hu], honly, fun u' hu' => ?_⟩
  rw [← hversion]
  exact (hsituations none u (Reaches.refl.run hwithin)).1 u' hu'

end Results

end Chain

end UUPSUpgradeable

end ContractsStylus
