import ContractsStylus.Token.Erc20Runs

/-!
# The ERC-20 example

The contract of `examples/erc20`: a token with a cap on its supply, whose holders can burn, and that
can be paused. Everything that moves tokens asks whether the token is paused; approvals do not.

The supply is followed through whole runs, failing calls included: it is what was minted less what
was burned, and never exceeds the cap. An owner who does nothing loses no more than her allowances
do, burns by others included.

The errors of the example repeat those of its parts, variant for variant; they are wrapped here
instead.

## Composition

The example is a record of its three parts, and a call first asks one and then lets another act.
`Effect` lists what can have happened: for each call the conditions that it has passed, and the part
that it has changed. All three results are read off it.

## Losses

What an owner can lose is bounded by a potential: her balance less what her allowances add up to.
Nobody who spends from a finite allowance makes the difference smaller, and nobody but she makes an
allowance larger. `Covered` is that comparison of two states. It is transitive, which makes a run of
it, and it keeps finite allowances finite, which the next step needs.

## Main definitions

* `Pausable`, `Capped`, `Erc20.burn`, `Erc20.burnFrom`
* `Erc20Example.exec` — the calls
* `Erc20Example.minted`, `Erc20Example.burned` — what was minted and burned in a run

## Main results

* `Erc20Example.supply_accounted` — the supply in any run
* `Erc20Example.paused_outcomes` — what can be done while the token is paused
* `Erc20Example.loss_bound` — what an owner who does nothing can lose
-/

namespace ContractsStylus

/-! ### Pausable

A flag, with two modifiers that other functions begin with. -/

/-- State of a `Pausable` contract. -/
structure Pausable where
  paused : Bool
  deriving DecidableEq, Repr

namespace Pausable

inductive Error
  | EnforcedPause
  | ExpectedPause
  deriving DecidableEq, Repr

def whenNotPaused (self : Pausable) : Result Error Unit :=
  if self.paused then .err .EnforcedPause else .ok ()

def whenPaused (self : Pausable) : Result Error Unit :=
  if !self.paused then .err .ExpectedPause else .ok ()

def pause (self : Pausable) : Result Error Pausable := do
  self.whenNotPaused
  pure ⟨true⟩

def unpause (self : Pausable) : Result Error Pausable := do
  self.whenPaused
  pure ⟨false⟩

variable {self self' : Pausable} {u : Unit}

theorem whenNotPaused_eq_ok : self.whenNotPaused = .ok u ↔ self = ⟨false⟩ := by
  rcases self with ⟨_ | _⟩ <;> simp [whenNotPaused]

theorem whenPaused_eq_ok : self.whenPaused = .ok u ↔ self = ⟨true⟩ := by
  rcases self with ⟨_ | _⟩ <;> simp [whenPaused]

theorem pause_eq_ok : self.pause = .ok self' ↔ self = ⟨false⟩ ∧ self' = ⟨true⟩ := by
  simp only [pause, bind_eq_ok, whenNotPaused_eq_ok, pure_eq_ok, exists_const, eq_comm (a := self')]

theorem unpause_eq_ok : self.unpause = .ok self' ↔ self = ⟨true⟩ ∧ self' = ⟨false⟩ := by
  simp only [unpause, bind_eq_ok, whenPaused_eq_ok, pure_eq_ok, exists_const, eq_comm (a := self')]

end Pausable

/-! ### Capped and burnable tokens -/

/-- State of a `Capped` contract. -/
structure Capped where
  cap : U256
  deriving DecidableEq, Repr

namespace Capped

inductive Error
  | ExceededCap (increasedSupply cap : U256)
  | InvalidCap (cap : U256)
  deriving DecidableEq, Repr

def constructor (cap : U256) : Result Error Capped :=
  if cap = 0 then .err (.InvalidCap cap) else .ok ⟨cap⟩

end Capped

namespace Erc20

def burn (self : Erc20) (sender : Address) (value : U256) : Result Error Erc20 :=
  self._burn sender value

def burnFrom (self : Erc20) (sender account : Address) (value : U256) : Result Error Erc20 := do
  let self ← self._spendAllowance account sender value
  self._burn account value

end Erc20

/-! ### The contract

Each function asks whether the contract is paused before it does anything, but for `approve`, which
does not ask. A mint also asks for the cap, with the sum of the supply and the new tokens on checked
words. -/

/-- State of the contract of `examples/erc20`. -/
structure Erc20Example where
  erc20 : Erc20
  capped : Capped
  pausable : Pausable

namespace Erc20Example

inductive Error
  | capped (e : Capped.Error)
  | erc20 (e : Erc20.Error)
  | pausable (e : Pausable.Error)
  deriving DecidableEq, Repr

def constructor (cap : U256) : Result Error Erc20Example := do
  let capped ← (Capped.constructor cap).mapErr .capped
  pure ⟨Erc20.empty, capped, ⟨false⟩⟩

def mint (self : Erc20Example) (account : Address) (value : U256) : Result Error Erc20Example := do
  self.pausable.whenNotPaused.mapErr .pausable
  let maxSupply := self.capped.cap
  -- overflow check required
  let supply ← expect (checkedAdd self.erc20.totalSupply value)
    "new supply should not exceed `U256::MAX`"
  if supply > maxSupply then .err (.capped (.ExceededCap supply maxSupply))
  else do
    let erc20 ← (self.erc20._mint account value).mapErr .erc20
    pure { self with erc20 }

def pause (self : Erc20Example) : Result Error Erc20Example := do
  let pausable ← self.pausable.pause.mapErr .pausable
  pure { self with pausable }

def unpause (self : Erc20Example) : Result Error Erc20Example := do
  let pausable ← self.pausable.unpause.mapErr .pausable
  pure { self with pausable }

/-- A function of the token that is asked for only when the contract is not paused. -/
def unlessPaused (op : Erc20 → Result Erc20.Error Erc20) (self : Erc20Example) :
    Result Error Erc20Example := do
  self.pausable.whenNotPaused.mapErr .pausable
  let erc20 ← (op self.erc20).mapErr .erc20
  pure { self with erc20 }

/-- `transfer`, whose answer is `true` whenever there is one. -/
def transfer (self : Erc20Example) (sender dst : Address) (value : U256) :
    Result Error Erc20Example :=
  self.unlessPaused fun erc20 => Prod.snd <$> erc20.transfer sender dst value

def transferFrom (self : Erc20Example) (sender src dst : Address) (value : U256) :
    Result Error Erc20Example :=
  self.unlessPaused fun erc20 => Prod.snd <$> erc20.transferFrom sender src dst value

def burn (self : Erc20Example) (sender : Address) (value : U256) : Result Error Erc20Example :=
  self.unlessPaused fun erc20 => erc20.burn sender value

def burnFrom (self : Erc20Example) (sender account : Address) (value : U256) :
    Result Error Erc20Example :=
  self.unlessPaused fun erc20 => erc20.burnFrom sender account value

def approve (self : Erc20Example) (sender spender : Address) (value : U256) :
    Result Error Erc20Example := do
  let (_, erc20) ← (self.erc20.approve sender spender value).mapErr .erc20
  pure { self with erc20 }

/-- The calls that change the storage. -/
inductive Call
  | mint (account : Address) (value : U256)
  | pause
  | unpause
  | transfer (dst : Address) (value : U256)
  | transferFrom (src dst : Address) (value : U256)
  | burn (value : U256)
  | burnFrom (account : Address) (value : U256)
  | approve (spender : Address) (value : U256)
  deriving DecidableEq, Repr

/-- A call with its sender. -/
structure Tx where
  sender : Address
  call : Call
  deriving DecidableEq, Repr

def exec (self : Erc20Example) (tx : Tx) : Result Error Erc20Example :=
  match tx.call with
  | .mint account value => self.mint account value
  | .pause => self.pause
  | .unpause => self.unpause
  | .transfer dst value => self.transfer tx.sender dst value
  | .transferFrom src dst value => self.transferFrom tx.sender src dst value
  | .burn value => self.burn tx.sender value
  | .burnFrom account value => self.burnFrom tx.sender account value
  | .approve spender value => self.approve tx.sender spender value

/-- The contract as a machine. -/
def machine : Machine Erc20Example Tx (Revert Error) := ⟨exec⟩

variable {self self' s : Erc20Example} {sender owner account : Address} {value cap : U256} {tx : Tx}
  {txs : List Tx} {op : Erc20 → Result Erc20.Error Erc20}

/-! ### What the calls do -/

theorem constructor_eq_ok :
    constructor cap = .ok self ↔ cap ≠ 0 ∧ self = ⟨Erc20.empty, ⟨cap⟩, ⟨false⟩⟩ := by
  simp only [constructor, Capped.constructor, bind_eq_ok, mapErr_eq_ok, guard_eq_ok,
    Except.ok.injEq, pure_eq_ok, and_assoc, exists_and_left, exists_eq_left', eq_comm (a := self),
    ne_eq]

theorem unlessPaused_eq_ok : self.unlessPaused op = .ok self' ↔
    self.pausable = ⟨false⟩ ∧ ∃ erc20, op self.erc20 = .ok erc20 ∧ self' = { self with erc20 } := by
  simp only [unlessPaused, bind_eq_ok, mapErr_eq_ok, Pausable.whenNotPaused_eq_ok, pure_eq_ok,
    exists_const, eq_comm (a := self')]

theorem mint_eq_ok : self.mint account value = .ok self' ↔ self.pausable = ⟨false⟩ ∧
    self.erc20.totalSupply.toNat + value.toNat ≤ self.capped.cap.toNat ∧
      ∃ erc20, self.erc20._mint account value = .ok erc20 ∧ self' = { self with erc20 } := by
  simp only [mint, bind_eq_ok, mapErr_eq_ok, Pausable.whenNotPaused_eq_ok, expect_eq_ok,
    checkedAdd_eq_some, guard_eq_ok, pure_eq_ok, exists_const, not_lt, BitVec.le_def, gt_iff_lt,
    eq_comm (a := self')]
  refine and_congr_right fun _ => ⟨?_, ?_⟩
  · rintro ⟨supply, hsupply, hle, erc20, hmint, heq⟩
    exact ⟨hsupply ▸ hle, erc20, hmint, heq⟩
  · rintro ⟨hle, erc20, hmint, heq⟩
    exact ⟨erc20.totalSupply, Erc20._mint_totalSupply hmint,
      (Erc20._mint_totalSupply hmint).trans_le hle, erc20, hmint, heq⟩

/-- What a call that succeeds has done. -/
inductive Effect (self : Erc20Example) (sender : Address) : Call → Erc20Example → Prop
  | pause (h : self.pausable = ⟨false⟩) : Effect self sender .pause { self with pausable := ⟨true⟩ }
  | unpause (h : self.pausable = ⟨true⟩) :
      Effect self sender .unpause { self with pausable := ⟨false⟩ }
  | approve {spender : Address} {value : U256} {ok : Bool} {erc20 : Erc20}
      (h : self.erc20._approve sender spender value = .ok (ok, erc20)) :
      Effect self sender (.approve spender value) { self with erc20 }
  | mint {account : Address} {value : U256} {erc20 : Erc20} (hpaused : self.pausable = ⟨false⟩)
      (hcap : self.erc20.totalSupply.toNat + value.toNat ≤ self.capped.cap.toNat)
      (h : self.erc20._mint account value = .ok erc20) :
      Effect self sender (.mint account value) { self with erc20 }
  | transfer {dst : Address} {value : U256} {erc20 : Erc20} (hpaused : self.pausable = ⟨false⟩)
      (h : self.erc20._transfer sender dst value = .ok erc20) :
      Effect self sender (.transfer dst value) { self with erc20 }
  | transferFrom {src dst : Address} {value : U256} {e erc20 : Erc20}
      (hpaused : self.pausable = ⟨false⟩)
      (hspend : self.erc20._spendAllowance src sender value = .ok e)
      (h : e._transfer src dst value = .ok erc20) :
      Effect self sender (.transferFrom src dst value) { self with erc20 }
  | burn {value : U256} {erc20 : Erc20} (hpaused : self.pausable = ⟨false⟩)
      (h : self.erc20._burn sender value = .ok erc20) :
      Effect self sender (.burn value) { self with erc20 }
  | burnFrom {account : Address} {value : U256} {e erc20 : Erc20}
      (hpaused : self.pausable = ⟨false⟩)
      (hspend : self.erc20._spendAllowance account sender value = .ok e)
      (h : e._burn account value = .ok erc20) :
      Effect self sender (.burnFrom account value) { self with erc20 }

theorem effect_of_exec (h : self.exec tx = .ok self') : Effect self tx.sender tx.call self' := by
  rcases tx with ⟨sender, call⟩
  cases call with
  | mint account value =>
    obtain ⟨hpaused, hcap, erc20, hmint, rfl⟩ := mint_eq_ok.mp h
    exact .mint hpaused hcap hmint
  | pause =>
    obtain ⟨pausable, hpausable, h⟩ := bind_eq_ok.mp h
    obtain ⟨hpaused, rfl⟩ := Pausable.pause_eq_ok.mp (mapErr_eq_ok.mp hpausable)
    obtain rfl := pure_eq_ok.mp h
    exact .pause hpaused
  | unpause =>
    obtain ⟨pausable, hpausable, h⟩ := bind_eq_ok.mp h
    obtain ⟨hpaused, rfl⟩ := Pausable.unpause_eq_ok.mp (mapErr_eq_ok.mp hpausable)
    obtain rfl := pure_eq_ok.mp h
    exact .unpause hpaused
  | transfer dst value =>
    change self.transfer sender dst value = _ at h
    rw [Erc20Example.transfer, unlessPaused_eq_ok] at h
    obtain ⟨hpaused, erc20, htransfer, rfl⟩ := h
    obtain ⟨ok, htransfer⟩ := snd_map_eq_ok.mp htransfer
    obtain ⟨_, ht, hpure⟩ := bind_eq_ok.mp htransfer
    cases pure_eq_ok.mp hpure
    exact .transfer hpaused ht
  | transferFrom src dst value =>
    change self.transferFrom sender src dst value = _ at h
    rw [Erc20Example.transferFrom, unlessPaused_eq_ok] at h
    obtain ⟨hpaused, erc20, htransfer, rfl⟩ := h
    obtain ⟨ok, htransfer⟩ := snd_map_eq_ok.mp htransfer
    obtain ⟨e, hspend, htransfer⟩ := bind_eq_ok.mp htransfer
    obtain ⟨_, ht, hpure⟩ := bind_eq_ok.mp htransfer
    cases pure_eq_ok.mp hpure
    exact .transferFrom hpaused hspend ht
  | burn value =>
    change self.burn sender value = _ at h
    rw [Erc20Example.burn, unlessPaused_eq_ok] at h
    obtain ⟨hpaused, erc20, hburn, rfl⟩ := h
    exact .burn hpaused hburn
  | burnFrom account value =>
    change self.burnFrom sender account value = _ at h
    rw [Erc20Example.burnFrom, unlessPaused_eq_ok] at h
    obtain ⟨hpaused, erc20, hburn, rfl⟩ := h
    obtain ⟨e, hspend, hburn⟩ := bind_eq_ok.mp hburn
    exact .burnFrom hpaused hspend hburn
  | approve spender value =>
    obtain ⟨⟨ok, erc20⟩, happrove, h⟩ := bind_eq_ok.mp h
    obtain rfl := pure_eq_ok.mp h
    exact .approve (mapErr_eq_ok.mp happrove)

/-! ### The supply

`Accounted` is kept by a call whatever was minted before, and the same lemma says by how much the
supply moves. What is minted and burned in a run is a total over its transactions, in which a
refused transaction counts for nothing; so the run lemma is the rule of the library for totals. -/

/-- What a transaction mints and burns if it succeeds. -/
def Tx.mints (tx : Tx) : ℕ :=
  match tx.call with
  | .mint _ value => value.toNat
  | _ => 0

def Tx.burns (tx : Tx) : ℕ :=
  match tx.call with
  | .burn value | .burnFrom _ value => value.toNat
  | _ => 0

/-- What was minted in a run; what was refused was not minted. -/
def minted : Erc20Example → List Tx → ℕ := machine.total Tx.mints

/-- What was burned in a run. -/
def burned : Erc20Example → List Tx → ℕ := machine.total Tx.burns

/-- The balances add up to the supply, which does not exceed the cap. -/
structure Accounted (s : Erc20Example) : Prop where
  conserved : s.erc20.Conserved
  le_cap : s.erc20.totalSupply ≤ s.capped.cap

/-- Whatever allowances there are, the supply is accounted for. -/
theorem Accounted.allowances (hs : self.Accounted) {e : Erc20}
    (he : e = { self.erc20 with allowances := e.allowances }) :
    e.totalSupply = self.erc20.totalSupply ∧ Accounted { self with erc20 := e } := by
  obtain ⟨hc, hle⟩ := hs
  rw [he]
  exact ⟨rfl, hc, hle⟩

/-- A transfer does not change the supply. -/
theorem Accounted._transfer (hs : self.Accounted) {src dst : Address} {erc20 : Erc20}
    (h : self.erc20._transfer src dst value = .ok erc20) :
    Accounted { self with erc20 } ∧ erc20.totalSupply = self.erc20.totalSupply := by
  obtain ⟨-, -, hupdate⟩ := Erc20._transfer_eq_ok h
  have hsupply := Erc20._transfer_totalSupply h
  exact ⟨⟨hs.conserved._update hupdate, hsupply ▸ hs.le_cap⟩, hsupply⟩

/-- A burn makes it smaller. -/
theorem Accounted._burn (hs : self.Accounted) {erc20 : Erc20}
    (h : self.erc20._burn account value = .ok erc20) :
    Accounted { self with erc20 } ∧
      erc20.totalSupply.toNat + value.toNat = self.erc20.totalSupply.toNat := by
  have hsupply := hs.conserved._burn_totalSupply h
  have hle : erc20.totalSupply ≤ self.erc20.totalSupply := BitVec.le_def.mpr (by omega)
  exact ⟨⟨hs.conserved._burn h, hle.trans hs.le_cap⟩, hsupply⟩

/-- **A call moves the supply by what it mints and burns**, keeps the balances adding up to it, and
does not change the cap. -/
theorem Accounted.effect (hs : self.Accounted) (h : Effect self tx.sender tx.call self') :
    self'.Accounted ∧ self'.capped = self.capped ∧
      self'.erc20.totalSupply.toNat + tx.burns = self.erc20.totalSupply.toNat + tx.mints := by
  rcases tx with ⟨sender, call⟩
  cases h with
  | pause _ => exact ⟨⟨hs.conserved, hs.le_cap⟩, rfl, rfl⟩
  | unpause _ => exact ⟨⟨hs.conserved, hs.le_cap⟩, rfl, rfl⟩
  | approve h =>
    obtain ⟨hsupply, hs'⟩ := hs.allowances (Erc20._approve_frame h)
    exact ⟨hs', rfl, congrArg BitVec.toNat hsupply⟩
  | mint _ hcap h =>
    have hsupply := Erc20._mint_totalSupply h
    exact ⟨⟨hs.conserved._mint h, BitVec.le_def.mpr (hsupply.trans_le hcap)⟩, rfl, hsupply⟩
  | transfer _ h =>
    obtain ⟨hs', hsupply⟩ := hs._transfer h
    exact ⟨hs', rfl, congrArg BitVec.toNat hsupply⟩
  | transferFrom _ hspend h =>
    obtain ⟨hspent, hs₁⟩ := hs.allowances (Erc20._spendAllowance_eq_ok hspend)
    obtain ⟨hs', hsupply⟩ := hs₁._transfer h
    exact ⟨hs', rfl, congrArg BitVec.toNat (hsupply.trans hspent)⟩
  | burn _ h =>
    obtain ⟨hs', hsupply⟩ := hs._burn h
    exact ⟨hs', rfl, hsupply⟩
  | burnFrom _ hspend h =>
    obtain ⟨hspent, hs₁⟩ := hs.allowances (Erc20._spendAllowance_eq_ok hspend)
    obtain ⟨hs', hsupply⟩ := hs₁._burn h
    exact ⟨hs', rfl, hsupply.trans (congrArg BitVec.toNat hspent)⟩

/-- **The supply in any run from deployment on**: the balances add up to it, it is what was minted
less what was burned, and it does not exceed the cap that the contract was deployed with. -/
theorem supply_accounted (h : constructor cap = .ok s) (txs : List Tx) :
    ∑ a, ((machine.run s txs).erc20.balanceOf a).toNat =
        (machine.run s txs).erc20.totalSupply.toNat ∧
      (machine.run s txs).erc20.totalSupply.toNat + burned s txs = minted s txs ∧
      (machine.run s txs).erc20.totalSupply ≤ cap := by
  obtain ⟨-, rfl⟩ := constructor_eq_ok.mp h
  have hinit : Accounted ⟨Erc20.empty, ⟨cap⟩, ⟨false⟩⟩ :=
    ⟨Erc20.conserved_empty, BitVec.le_def.mpr (Nat.zero_le _)⟩
  have hinv : ∀ s tx s', s.Accounted ∧ s.capped = ⟨cap⟩ → machine.exec s tx = .ok s' →
      s'.Accounted ∧ s'.capped = ⟨cap⟩ := by
    rintro s tx s' ⟨hs, hcap⟩ hexec
    obtain ⟨hs', hcap', -⟩ := hs.effect (effect_of_exec hexec)
    exact ⟨hs', hcap'.trans hcap⟩
  have hlevel := machine.level_run (fun s => s.erc20.totalSupply.toNat) hinv
    (fun s tx s' hs hexec => (hs.1.effect (effect_of_exec hexec)).2.2) txs ⟨hinit, rfl⟩
  have hkeep : ∀ s s', ∀ tx ∈ txs, s.Accounted ∧ s.capped = ⟨cap⟩ →
      machine.exec s tx = .ok s' → s'.Accounted ∧ s'.capped = ⟨cap⟩ :=
    fun s s' tx _ hs hexec => hinv s tx s' hs hexec
  obtain ⟨⟨hc, hle⟩, hcap⟩ := machine.run_invariant hkeep ⟨hinit, rfl⟩
  rw [hcap] at hle
  exact ⟨hc, hlevel.trans (Nat.zero_add _), hle⟩

/-- A cap of 100, of which 90 are minted, 20 more refused, and 30 burned. -/
theorem supply_accounted_capped : ∃ s, constructor 100 = .ok s ∧
    ∑ a, ((machine.run s [⟨1, .mint 1 90⟩, ⟨1, .mint 2 20⟩, ⟨1, .burn 30⟩]).erc20.balanceOf
      a).toNat = 60 ∧
    60 + burned s [⟨1, .mint 1 90⟩, ⟨1, .mint 2 20⟩, ⟨1, .burn 30⟩] =
      minted s [⟨1, .mint 1 90⟩, ⟨1, .mint 2 20⟩, ⟨1, .burn 30⟩] := by
  have hs : constructor 100 = .ok ⟨Erc20.empty, ⟨100⟩, ⟨false⟩⟩ := rfl
  obtain ⟨hsum, hsupply, -⟩ :=
    supply_accounted hs [⟨1, .mint 1 90⟩, ⟨1, .mint 2 20⟩, ⟨1, .burn 30⟩]
  have hsixty : (machine.run ⟨Erc20.empty, ⟨100⟩, ⟨false⟩⟩ [⟨1, .mint 1 90⟩, ⟨1, .mint 2 20⟩,
      ⟨1, .burn 30⟩]).erc20.totalSupply.toNat = 60 := by decide +kernel
  rw [hsixty] at hsum hsupply
  exact ⟨_, hs, hsum, hsupply⟩

/-! ### Pauses

A paused contract and its token with approvals only are run side by side. No transaction but one
that ends the pause can make them part, and the answers are known in advance. -/

/-- What a paused contract answers. -/
def pausedOutcome (tx : Tx) : Except (Revert Error) Unit :=
  match tx.call with
  | .approve spender _ =>
    if tx.sender = 0 then .error (.err (.erc20 (.InvalidApprover 0)))
    else if spender = 0 then .error (.err (.erc20 (.InvalidSpender 0)))
    else .ok ()
  | _ => .error (.err (.pausable .EnforcedPause))

/-- The approvals among some transactions, as transactions of the token. -/
def approvals (txs : List Tx) : List Erc20.Tx :=
  txs.filterMap fun tx =>
    match tx.call with
    | .approve spender value => some ⟨tx.sender, .call (.approve spender value)⟩
    | _ => none

theorem exec_of_paused (hs : s.pausable = ⟨true⟩) (hunpause : tx.call ≠ .unpause)
    (happrove : ∀ spender value, tx.call ≠ .approve spender value) :
    s.exec tx = .error (.err (.pausable .EnforcedPause)) := by
  have hnot : s.pausable.whenNotPaused = .err .EnforcedPause := by
    rw [hs]
    rfl
  rcases tx with ⟨sender, call⟩
  cases call with
  | mint account value =>
    simp only [exec, mint, hnot]
    rfl
  | pause =>
    simp only [exec, pause, Pausable.pause, hnot]
    rfl
  | unpause => exact absurd rfl hunpause
  | transfer dst value =>
    simp only [exec, transfer, unlessPaused, hnot]
    rfl
  | transferFrom src dst value =>
    simp only [exec, transferFrom, unlessPaused, hnot]
    rfl
  | burn value =>
    simp only [exec, burn, unlessPaused, hnot]
    rfl
  | burnFrom account value =>
    simp only [exec, burnFrom, unlessPaused, hnot]
    rfl
  | approve spender value => exact absurd rfl (happrove spender value)

/-- An approval is one of the token, and succeeds between accounts that are not zero. -/
theorem exec_approve (self : Erc20Example) (sender spender : Address) (value : U256) :
    (machine.exec self ⟨sender, .approve spender value⟩).map (fun _ => ()) =
        pausedOutcome ⟨sender, .approve spender value⟩ ∧
      ∃ allowances,
        Erc20.machine.step self.erc20 ⟨sender, .call (.approve spender value)⟩ =
          { self.erc20 with allowances } ∧
        machine.step self ⟨sender, .approve spender value⟩ =
          { self with erc20 := { self.erc20 with allowances } } := by
  have hexec : machine.exec self ⟨sender, .approve spender value⟩ =
      (self.erc20._approve sender spender value).mapErr .erc20 >>= fun p =>
        pure { self with erc20 := p.2 } := rfl
  have htoken : Erc20.machine.exec self.erc20 ⟨sender, .call (.approve spender value)⟩ =
      Prod.snd <$> self.erc20._approve sender spender value := rfl
  rw [Machine.step, Machine.step, hexec, htoken, Erc20._approve, pausedOutcome]
  dsimp only
  by_cases howner : sender = 0
  · rw [if_pos howner, if_pos howner]
    exact ⟨rfl, self.erc20.allowances, rfl, rfl⟩
  · rw [if_neg howner, if_neg howner]
    by_cases hspender : spender = 0
    · rw [if_pos hspender, if_pos hspender]
      exact ⟨rfl, self.erc20.allowances, rfl, rfl⟩
    · rw [if_neg hspender, if_neg hspender]
      exact ⟨rfl, _, rfl, rfl⟩

/-- **While the token is paused** everything but approvals is refused for that reason, and a run
does to it what its approvals do, which change no balance and not the supply. -/
theorem paused_outcomes (hs : s.pausable = ⟨true⟩) (htxs : ∀ tx ∈ txs, tx.call ≠ .unpause) :
    machine.outcomes s txs = txs.map pausedOutcome ∧
      machine.run s txs = { s with erc20 := Erc20.machine.run s.erc20 (approvals txs) } ∧
      ∃ allowances, (machine.run s txs).erc20 = { s.erc20 with allowances } := by
  induction txs generalizing s with
  | nil => exact ⟨rfl, rfl, s.erc20.allowances, rfl⟩
  | cons tx txs ih =>
    have hrest : ∀ tx ∈ txs, tx.call ≠ .unpause := fun tx htx =>
      htxs tx (List.mem_cons_of_mem _ htx)
    rw [Machine.outcomes, Machine.run_cons, List.map_cons]
    by_cases happrove : ∃ spender value, tx.call = .approve spender value
    · rcases tx with ⟨sender, call⟩
      obtain ⟨spender, value, rfl⟩ := happrove
      obtain ⟨hout, allowances, htoken, hstep⟩ := exec_approve s sender spender value
      rw [hstep, hout]
      obtain ⟨houts, hrun, allowances', herc20⟩ :=
        @ih { s with erc20 := { s.erc20 with allowances } } hs hrest
      refine ⟨congrArg _ houts, ?_, allowances', herc20⟩
      rw [hrun]
      change _ = { s with erc20 := Erc20.machine.run s.erc20 (_ :: approvals txs) }
      rw [Machine.run_cons, htoken]
    · have hexec : machine.exec s tx = .error (.err (.pausable .EnforcedPause)) :=
        exec_of_paused hs (htxs tx (List.mem_cons_self ..))
          fun spender value h => happrove ⟨spender, value, h⟩
      obtain ⟨houts, hrun, herc20⟩ := ih hs hrest
      have hout : pausedOutcome tx = .error (.err (.pausable .EnforcedPause)) := by
        rw [pausedOutcome]
        split
        · exact absurd ⟨_, _, ‹_›⟩ happrove
        · rfl
      have hskip : approvals (tx :: txs) = approvals txs := by
        rw [approvals, List.filterMap_cons]
        split
        · rfl
        · rename_i h
          split at h
          · exact absurd ⟨_, _, ‹_›⟩ happrove
          · cases h
      rw [machine.step_of_error hexec, hexec, hout, houts, hskip]
      exact ⟨rfl, hrun, herc20⟩

/-- A pause keeps account `1` from sending what account `2` may then not take either. -/
theorem paused_outcomes_two : ∃ s : Erc20Example, s.pausable = ⟨true⟩ ∧
    machine.outcomes s [⟨1, .approve 2 5⟩, ⟨2, .transferFrom 1 2 5⟩, ⟨1, .burn 5⟩] =
      [.ok (), .error (.err (.pausable .EnforcedPause)),
        .error (.err (.pausable .EnforcedPause))] ∧
    ∃ allowances,
      (machine.run s [⟨1, .approve 2 5⟩, ⟨2, .transferFrom 1 2 5⟩, ⟨1, .burn 5⟩]).erc20 =
        { s.erc20 with allowances } := by
  refine ⟨⟨⟨fun _ => 10, fun _ _ => 0, 10⟩, ⟨10⟩, ⟨true⟩⟩, rfl, ?_⟩
  have htxs : ∀ tx ∈ [⟨1, .approve 2 5⟩, ⟨2, .transferFrom 1 2 5⟩, ⟨1, .burn 5⟩],
      Tx.call tx ≠ .unpause := by decide
  obtain ⟨hout, -, hrun⟩ :=
    paused_outcomes (s := ⟨⟨fun _ => 10, fun _ _ => 0, 10⟩, ⟨10⟩, ⟨true⟩⟩) rfl htxs
  exact ⟨hout, hrun⟩

/-! ### Losses

The sum over all spenders is a finite one, since there are finitely many addresses. An infinite
allowance does not shrink when it is spent, so nobody who has one may act; and no allowance of the
owner becomes infinite while she does nothing. -/

/-- What `owner` allows all spenders together. -/
noncomputable def allowed (e : Erc20) (owner : Address) : ℕ :=
  ∑ spender, (e.allowance owner spender).toNat

/-- The owner has lost no more than her allowances have, none of which has become infinite. -/
structure Covered (owner : Address) (e e' : Erc20) : Prop where
  loss : e.held owner + allowed e' owner ≤ e'.held owner + allowed e owner
  finite : ∀ spender, e'.allowance owner spender = MAX 256 → e.allowance owner spender = MAX 256

variable {e e' t : Erc20} {spender : Address}

theorem Covered.refl (owner : Address) (e : Erc20) : Covered owner e e := ⟨le_refl _, fun _ h => h⟩

theorem Covered.trans (h : Covered owner e t) (h' : Covered owner t e') : Covered owner e e' := by
  obtain ⟨hloss, hfinite⟩ := h
  obtain ⟨hloss', hfinite'⟩ := h'
  exact ⟨by omega, fun sp hsp => hfinite sp (hfinite' sp hsp)⟩

/-- What leaves the allowances of the owner alone must not take anything from her. -/
theorem Covered.of_allowance (h : ∀ sp, e'.allowance owner sp = e.allowance owner sp)
    (hle : e.held owner ≤ e'.held owner) : Covered owner e e' := by
  have hallowed : allowed e' owner = allowed e owner :=
    Finset.sum_congr rfl fun sp _ => congrArg BitVec.toNat (h sp)
  exact ⟨by omega, fun sp hsp => h sp ▸ hsp⟩

/-- What is spent from a finite allowance can be taken from the owner. -/
theorem Covered.of_spend (hspend : e._spendAllowance owner spender value = .ok t)
    (hfinite : e.allowance owner spender ≠ MAX 256)
    (h : ∀ sp, e'.allowance owner sp = t.allowance owner sp)
    (hle : e.held owner ≤ e'.held owner + value.toNat) : Covered owner e e' := by
  obtain ⟨hvalue, hallowance⟩ := Erc20._spendAllowance_allowance hspend
  have hupdate : e'.allowance owner = Function.update (e.allowance owner) spender
      (e.allowance owner spender - value) := by
    funext sp
    rw [h sp, hallowance owner sp, Function.update_apply]
    simp [hfinite]
  have hsum := Tally.sum_update BitVec.toNat (e.allowance owner) spender
    (e.allowance owner spender - value)
  have hcancel := BitVec.toNat_sub_add_cancel (BitVec.le_def.mp hvalue)
  have hallowed : allowed e' owner + value.toNat = allowed e owner := by
    rw [allowed, allowed, hupdate]
    omega
  refine ⟨by omega, fun sp hsp => ?_⟩
  rw [hupdate, Function.update_apply] at hsp
  split at hsp
  · refine absurd (le_antisymm (not_lt.mp BitVec.not_allOnes_lt) (BitVec.le_def.mpr ?_)) hfinite
    rw [hsp] at hcancel
    exact (Nat.le_add_right ..).trans hcancel.le
  · exact hsp

/-- Spending from the allowance of somebody else does not touch those of the owner. -/
theorem allowance_of_spend_ne (hspend : e._spendAllowance account spender value = .ok t)
    (hne : owner ≠ account) (sp : Address) : t.allowance owner sp = e.allowance owner sp := by
  obtain ⟨-, hallowance⟩ := Erc20._spendAllowance_allowance hspend
  rw [hallowance owner sp, if_neg fun hcond => hne hcond.1.1]

/-- Spending moves no tokens. -/
theorem held_of_spend (hspend : e._spendAllowance account spender value = .ok t) :
    t.held = e.held := by
  rw [Erc20._spendAllowance_eq_ok hspend]
  rfl

/-- **What others do is covered by the allowances.** -/
theorem Covered.effect (hs : self.Accounted) {call : Call} (h : Effect self sender call self')
    (hne : sender ≠ owner) (hfinite : self.erc20.allowance owner sender ≠ MAX 256) :
    Covered owner self.erc20 self'.erc20 := by
  cases h with
  | pause _ => exact .refl owner _
  | unpause _ => exact .refl owner _
  | approve h =>
    refine .of_allowance (fun sp => ?_) (le_of_eq ?_)
    · rw [Erc20._approve_eq_ok h owner sp, if_neg fun hcond => hne hcond.1.symm]
    · rw [Erc20._approve_frame h]
      rfl
  | @mint account value erc20 _ _ h =>
    refine .of_allowance (Erc20._update_allowance (guard_eq_ok.mp h).2 owner) ?_
    rw [hs.conserved._mint_held h, Function.update_apply]
    split
    · rename_i heq
      rw [heq]
      exact Nat.le_add_right ..
    · exact le_refl _
  | @transfer dst value erc20 _ h =>
    obtain ⟨-, -, hupdate⟩ := Erc20._transfer_eq_ok h
    refine .of_allowance (Erc20._update_allowance hupdate owner) ?_
    rw [(hs.conserved._transfer_held h).2]
    exact Tally.le_move hne.symm
  | @transferFrom src dst value t erc20 _ hspend h =>
    obtain ⟨-, -, hupdate⟩ := Erc20._transfer_eq_ok h
    have hallowance := Erc20._update_allowance hupdate owner
    have hheld : erc20.held = Tally.move self.erc20.held src dst value.toNat := by
      rw [← held_of_spend hspend]
      exact ((hs.allowances (Erc20._spendAllowance_eq_ok hspend)).2.conserved._transfer_held h).2
    by_cases hsrc : owner = src
    · subst hsrc
      refine .of_spend hspend hfinite hallowance ?_
      rw [hheld]
      exact Tally.le_move_add
    · refine .of_allowance (fun sp => ?_) ?_
      · rw [hallowance sp, allowance_of_spend_ne hspend hsrc]
      · rw [hheld]
        exact Tally.le_move hsrc
  | @burn value erc20 _ h =>
    refine .of_allowance (Erc20._update_allowance (guard_eq_ok.mp h).2 owner) ?_
    rw [(Erc20._burn_held h).2, Function.update_of_ne hne.symm]
  | @burnFrom account value t erc20 _ hspend h =>
    have hallowance := Erc20._update_allowance (guard_eq_ok.mp h).2 owner
    obtain ⟨hle, hheld⟩ := Erc20._burn_held h
    rw [held_of_spend hspend] at hle hheld
    by_cases haccount : owner = account
    · subst haccount
      refine .of_spend hspend hfinite hallowance ?_
      rw [hheld, Function.update_self]
      omega
    · refine .of_allowance (fun sp => ?_) (le_of_eq ?_)
      · rw [hallowance sp, allowance_of_spend_ne hspend haccount]
      · rw [hheld, Function.update_of_ne haccount]

/-- **An owner who does nothing loses no more than her allowances do**, whatever others transfer
and burn, as long as nobody acts whose allowance is infinite. -/
theorem loss_bound (h : constructor cap = .ok s) (before : List Tx)
    (htxs : ∀ tx ∈ txs, tx.sender ≠ owner ∧
      (machine.run s before).erc20.allowance owner tx.sender ≠ MAX 256) :
    ((machine.run s before).erc20.balanceOf owner).toNat +
        ∑ spender, ((machine.run s (before ++ txs)).erc20.allowance owner spender).toNat ≤
      ((machine.run s (before ++ txs)).erc20.balanceOf owner).toNat +
        ∑ spender, ((machine.run s before).erc20.allowance owner spender).toNat := by
  have hinit : s.Accounted := by
    obtain ⟨-, rfl⟩ := constructor_eq_ok.mp h
    exact ⟨Erc20.conserved_empty, BitVec.le_def.mpr (Nat.zero_le _)⟩
  have hbefore : (machine.run s before).Accounted :=
    machine.run_invariant (fun s s' tx _ hs hexec => (hs.effect (effect_of_exec hexec)).1) hinit
  rw [machine.run_append]
  generalize machine.run s before = s₁ at hbefore htxs
  have hkeep : ∀ s s', ∀ tx ∈ txs, s.Accounted ∧ Covered owner s₁.erc20 s.erc20 →
      machine.exec s tx = .ok s' → s'.Accounted ∧ Covered owner s₁.erc20 s'.erc20 := by
    rintro s s' tx htx ⟨hs, hcovered⟩ hexec
    have heffect := effect_of_exec hexec
    obtain ⟨hne, hfinite⟩ := htxs tx htx
    refine ⟨(hs.effect heffect).1, hcovered.trans ?_⟩
    exact .effect hs heffect hne fun hinfinite => hfinite (hcovered.finite _ hinfinite)
  exact (machine.run_invariant hkeep ⟨hbefore, .refl owner _⟩).2.loss

/-- Account `1` has 100 and allows account `2` to spend 30, of which the latter takes 20 and burns
10; it may not take more. -/
theorem loss_bound_two : ∃ s, constructor 100 = .ok s ∧
    ((machine.run s [⟨1, .mint 1 100⟩, ⟨1, .approve 2 30⟩]).erc20.balanceOf 1).toNat +
        ∑ spender, ((machine.run s ([⟨1, .mint 1 100⟩, ⟨1, .approve 2 30⟩] ++
          [⟨2, .transferFrom 1 2 20⟩, ⟨2, .burnFrom 1 10⟩,
            ⟨2, .transferFrom 1 3 5⟩])).erc20.allowance 1 spender).toNat ≤
      70 + ∑ spender, ((machine.run s [⟨1, .mint 1 100⟩,
        ⟨1, .approve 2 30⟩]).erc20.allowance 1 spender).toNat := by
  have hs : constructor 100 = .ok ⟨Erc20.empty, ⟨100⟩, ⟨false⟩⟩ := rfl
  have hseventy : ((machine.run ⟨Erc20.empty, ⟨100⟩, ⟨false⟩⟩ ([⟨1, .mint 1 100⟩,
      ⟨1, .approve 2 30⟩] ++ [⟨2, .transferFrom 1 2 20⟩, ⟨2, .burnFrom 1 10⟩,
        ⟨2, .transferFrom 1 3 5⟩])).erc20.balanceOf 1).toNat = 70 := by decide +kernel
  have htxs : ∀ tx ∈ [⟨2, .transferFrom 1 2 20⟩, ⟨2, .burnFrom 1 10⟩, ⟨2, .transferFrom 1 3 5⟩],
      Tx.sender tx ≠ 1 ∧ (machine.run ⟨Erc20.empty, ⟨100⟩, ⟨false⟩⟩ [⟨1, .mint 1 100⟩,
        ⟨1, .approve 2 30⟩]).erc20.allowance 1 tx.sender ≠ MAX 256 := by decide +kernel
  have hloss := loss_bound hs [⟨1, .mint 1 100⟩, ⟨1, .approve 2 30⟩] htxs
  rw [hseventy] at hloss
  exact ⟨_, hs, hloss⟩

end Erc20Example

end ContractsStylus
