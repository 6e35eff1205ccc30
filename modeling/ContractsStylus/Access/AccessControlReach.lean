import ContractsStylus.Access.AccessControl
import Mathlib.Logic.Function.Iterate

/-!
# Who can get which role

Over every role stands its admin role, over that the next one, and so on. Accounts that work
together can take a role exactly when one of them holds a role over it: it grants itself the roles
below, one after another. Otherwise none of their calls gives the role to anybody, and they can only
renounce what they have.

## Exactly

`confinement` is a bound on what accounts can do. Here it is met: for a set of accounts that work
together it is decided which roles they can take, by transactions that are given, and that no others
work. `Controls` goes up along the admin roles in some number of steps, so that one direction is an
induction on that number and the way down is a run; the other direction is an invariant, of all
roles that the accounts have no control over at once.

## Main definitions

* `AccessControl.Controls` — to hold a role over a given one
* `AccessControl.Locked` — what is kept by accounts without control

## Main results

* `AccessControl.exists_run_admin` — the way down to the admin role
* `AccessControl.Locked.exec` — a call without control
* `AccessControl.takeover` — which roles can be taken and which can be taken away
-/

namespace ContractsStylus

namespace AccessControl

variable {s t t' : AccessControl} {S : Set Address} {r : B256} {a b : Address} {tx : Tx}

/-- Some account of `S` holds a role over `r`: its admin role, the admin role of that, and so on. -/
def Controls (self : AccessControl) (S : Set Address) (r : B256) : Prop :=
  ∃ k, ∃ b ∈ S, self.hasRole (self.getRoleAdmin^[k + 1] r) b

/-! ### With control

A run is built, by induction on the steps from the role that is held down to the role that is
wanted. -/

theorem step_grantRole (h : s.hasRole (s.getRoleAdmin r) b) (a : Address) :
    machine.step s ⟨b, .grantRole r a⟩ = (s._grantRole r a).2 := by
  have hcheck : s._checkRole (s.getRoleAdmin r) b = .ok () := checkRole_eq_ok.mpr h
  refine Machine.step_of_ok (show s.grantRole b r a = _ from ?_)
  rw [grantRole, onlyRole, hcheck]
  rfl

theorem step_revokeRole (h : s.hasRole (s.getRoleAdmin r) b) (a : Address) :
    machine.step s ⟨b, .revokeRole r a⟩ = (s._revokeRole r a).2 := by
  have hcheck : s._checkRole (s.getRoleAdmin r) b = .ok () := checkRole_eq_ok.mpr h
  refine Machine.step_of_ok (show s.revokeRole b r a = _ from ?_)
  rw [revokeRole, onlyRole, hcheck]
  rfl

/-- **The way down.** Who holds a role over `r` grants itself the roles between, down to the admin
role of `r`. -/
theorem exists_run_admin {k : ℕ} : ∀ {s : AccessControl},
    s.hasRole (s.getRoleAdmin^[k + 1] r) b → ∃ txs : List Tx, (∀ tx ∈ txs, tx.sender = b) ∧
      (machine.run s txs).hasRole ((machine.run s txs).getRoleAdmin r) b := by
  induction k with
  | zero => exact fun {s} h => ⟨[], nofun, h⟩
  | succ k ih =>
    intro s h
    rw [Function.iterate_succ_apply'] at h
    have hadmin : (s._grantRole (s.getRoleAdmin^[k + 1] r) b).2.getRoleAdmin = s.getRoleAdmin :=
      funext (getRoleAdmin_grantRole s _ b)
    have hrole : (s._grantRole (s.getRoleAdmin^[k + 1] r) b).2.hasRole
        ((s._grantRole (s.getRoleAdmin^[k + 1] r) b).2.getRoleAdmin^[k + 1] r) b := by
      rw [hadmin, hasRole_grantRole, if_pos ⟨rfl, rfl⟩]
    obtain ⟨txs, hsender, hrun⟩ := ih hrole
    refine ⟨⟨b, .grantRole (s.getRoleAdmin^[k + 1] r) b⟩ :: txs, ?_, ?_⟩
    · exact List.forall_mem_cons.mpr ⟨rfl, hsender⟩
    · rwa [Machine.run_cons, step_grantRole h]

/-- Accounts with control bring about what one call of the admin does. -/
theorem Controls.exists_run (h : s.Controls S r) (call : Call) : ∃ (txs : List Tx) (b : Address),
    (∀ tx ∈ txs ++ [⟨b, call⟩], tx.sender ∈ S) ∧
      (machine.run s txs).hasRole ((machine.run s txs).getRoleAdmin r) b := by
  obtain ⟨k, b, hb, hrole⟩ := h
  obtain ⟨txs, hsender, hrun⟩ := exists_run_admin hrole
  refine ⟨txs, b, fun tx htx => ?_, hrun⟩
  rcases List.mem_append.mp htx with htx | htx
  · exact hsender tx htx ▸ hb
  · rw [List.mem_singleton.mp htx]
    exact hb

/-! ### Without control

An invariant is kept, of the set of accounts and the role that they want. -/

/-- The admin roles are those of `s`, and no account of `S` holds a role over `r`. -/
structure Locked (s : AccessControl) (S : Set Address) (r : B256) (t : AccessControl) : Prop where
  getRoleAdmin : ∀ role, t.getRoleAdmin role = s.getRoleAdmin role
  hasRole : ∀ k, ∀ b ∈ S, ¬t.hasRole (s.getRoleAdmin^[k + 1] r) b

namespace Locked

theorem refl (h : ¬s.Controls S r) : s.Locked S r s :=
  ⟨fun _ => rfl, fun k b hb hrole => h ⟨k, b, hb, hrole⟩⟩

/-- **A call without control** does not bring control. -/
theorem exec (h : s.Locked S r t) (hsender : tx.sender ∈ S) (hexec : t.exec tx = .ok t') :
    s.Locked S r t' where
  getRoleAdmin role := (getRoleAdmin_exec hexec role).trans (h.getRoleAdmin role)
  hasRole k b hb := by
    let R : Set B256 := {role | ∃ k, role = s.getRoleAdmin^[k + 1] r}
    have hclosed : t.ClosedUnderAdmin R := by
      rintro role ⟨k, rfl⟩
      exact ⟨k + 1, by rw [h.getRoleAdmin, Function.iterate_succ_apply' _ (k + 1)]⟩
    have hnone : ∀ role ∈ R, ¬t.hasRole role tx.sender := by
      rintro role ⟨k, rfl⟩
      exact h.hasRole k tx.sender hsender
    rw [hasRole_exec hclosed hnone hexec ⟨k, rfl⟩]
    exact h.hasRole k b hb

/-- It gives the role to nobody. -/
theorem of_hasRole_exec (h : s.Locked S r t) (hsender : tx.sender ∈ S)
    (hexec : t.exec tx = .ok t') (hrole : t'.hasRole r a) : t.hasRole r a := by
  by_contra hnot
  obtain ⟨-, hadmin⟩ := granted_of_exec hexec hnot hrole
  rw [h.getRoleAdmin] at hadmin
  exact h.hasRole 0 tx.sender hsender hadmin

/-- It takes the role from nobody else. -/
theorem hasRole_exec_of (h : s.Locked S r t) (hsender : tx.sender ∈ S)
    (hexec : t.exec tx = .ok t') (hrole : t.hasRole r a) (ha : a ∉ S) : t'.hasRole r a := by
  by_contra hnot
  rcases revoked_of_exec hexec hrole hnot with ⟨-, hadmin⟩ | rfl
  · rw [h.getRoleAdmin] at hadmin
    exact h.hasRole 0 tx.sender hsender hadmin
  · exact ha hsender

/-- **Runs without control.** -/
theorem run (h : ¬s.Controls S r) {txs : List Tx} (htxs : ∀ tx ∈ txs, tx.sender ∈ S) :
    s.Locked S r (machine.run s txs) ∧
      ∀ a, ((machine.run s txs).hasRole r a → s.hasRole r a) ∧
        (s.hasRole r a → a ∉ S → (machine.run s txs).hasRole r a) := by
  have hinv : ∀ t t', ∀ tx ∈ txs,
      (s.Locked S r t ∧ ∀ a, (t.hasRole r a → s.hasRole r a) ∧
        (s.hasRole r a → a ∉ S → t.hasRole r a)) → machine.exec t tx = .ok t' →
      s.Locked S r t' ∧ ∀ a, (t'.hasRole r a → s.hasRole r a) ∧
        (s.hasRole r a → a ∉ S → t'.hasRole r a) := by
    rintro t t' tx htx ⟨hlocked, hkept⟩ hexec
    have hsender := htxs tx htx
    refine ⟨hlocked.exec hsender hexec, fun a => ⟨fun hrole => ?_, fun hrole ha => ?_⟩⟩
    · exact (hkept a).1 (hlocked.of_hasRole_exec hsender hexec hrole)
    · exact hlocked.hasRole_exec_of hsender hexec ((hkept a).2 hrole ha) ha
  exact machine.run_invariant hinv ⟨refl h, fun _ => ⟨id, fun hrole _ => hrole⟩⟩

end Locked

/-- **Which roles can be taken**, from any assignment of roles and admin roles, by any set of
accounts. Their calls can make an account hold a role exactly when it holds it already or one of
them holds a role over it, any number of steps up. They can make an account lose a role exactly when
it does not hold it, it is one of them, or one of them holds a role over it. Nothing that they do
brings such a role to them. -/
theorem takeover (s : AccessControl) (S : Set Address) (r : B256) :
    (∀ a, (∃ txs : List Tx, (∀ tx ∈ txs, tx.sender ∈ S) ∧ (machine.run s txs).hasRole r a) ↔
      s.hasRole r a ∨ s.Controls S r) ∧
    (∀ a, (∃ txs : List Tx, (∀ tx ∈ txs, tx.sender ∈ S) ∧ ¬(machine.run s txs).hasRole r a) ↔
      ¬s.hasRole r a ∨ a ∈ S ∨ s.Controls S r) ∧
    ∀ txs : List Tx, (∀ tx ∈ txs, tx.sender ∈ S) → (machine.run s txs).Controls S r →
      s.Controls S r := by
  refine ⟨fun a => ⟨?_, ?_⟩, fun a => ⟨?_, ?_⟩, fun txs htxs hcontrols => ?_⟩
  · rintro ⟨txs, htxs, hrole⟩
    by_contra hnot
    rw [not_or] at hnot
    exact hnot.1 (((Locked.run hnot.2 htxs).2 a).1 hrole)
  · rintro (hrole | hcontrols)
    · exact ⟨[], nofun, hrole⟩
    · obtain ⟨txs, b, htxs, hadmin⟩ := hcontrols.exists_run (.grantRole r a)
      refine ⟨_, htxs, ?_⟩
      rw [Machine.run_append, Machine.run_cons, Machine.run_nil, step_grantRole hadmin,
        hasRole_grantRole, if_pos ⟨rfl, rfl⟩]
  · rintro ⟨txs, htxs, hrole⟩
    by_contra hnot
    rw [not_or, not_or, not_not] at hnot
    exact hrole (((Locked.run hnot.2.2 htxs).2 a).2 hnot.1 hnot.2.1)
  · rintro (hrole | ha | hcontrols)
    · exact ⟨[], nofun, hrole⟩
    · refine ⟨[⟨a, .renounceRole r a⟩], fun tx htx => ?_, ?_⟩
      · rw [List.mem_singleton.mp htx]
        exact ha
      · have hstep : machine.step s ⟨a, .renounceRole r a⟩ = (s._revokeRole r a).2 :=
          Machine.step_of_ok (if_neg (not_not.mpr rfl))
        rw [Machine.run_cons, Machine.run_nil, hstep, hasRole_revokeRole, if_pos ⟨rfl, rfl⟩]
        exact Bool.false_ne_true
    · obtain ⟨txs, b, htxs, hadmin⟩ := hcontrols.exists_run (.revokeRole r a)
      refine ⟨_, htxs, ?_⟩
      rw [Machine.run_append, Machine.run_cons, Machine.run_nil, step_revokeRole hadmin,
        hasRole_revokeRole, if_pos ⟨rfl, rfl⟩]
      exact Bool.false_ne_true
  · by_contra hnot
    obtain ⟨k, b, hb, hrole⟩ := hcontrols
    obtain ⟨hlocked, -⟩ := Locked.run hnot htxs
    rw [funext hlocked.getRoleAdmin] at hrole
    exact hlocked.hasRole k b hb hrole

end AccessControl

end ContractsStylus
