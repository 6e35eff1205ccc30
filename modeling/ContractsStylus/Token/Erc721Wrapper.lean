import ContractsStylus.Token.Erc721Public

/-!
# Erc721Wrapper

An ERC-721 token that wraps another one: whoever deposits an underlying token is minted a wrapped
one with the same id, and whoever burns a wrapped token is sent the underlying one. A wrapped
token is also minted when an underlying token is safely transferred to the wrapper, in the hook
that the underlying contract calls then.

The wrapper, its wrapped tokens and the underlying contract, an ERC-721 of this repository, are
modelled together, since each of them calls the other. `this` is the address of the wrapper. What
the other receivers do is a parameter; they may do anything an account can do.

## Who is asked when

The wrapper's hook is called by the underlying contract in the middle of a transfer, and mints.
Other hooks are called in the middle of withdrawals and of mints, and may deposit, withdraw or
transfer from there. So the invariant has to hold whenever a hook is called, and it does: the
wrapper mints after it owns the underlying token, and burns before it sends that away. In a
withdrawal of several tokens the receiver of the first one may act before the second is burned.

## Custody

`Backed` says that the wrapper owns the underlying token of every wrapped one, and that it has not
approved anybody for its tokens. The second part keeps others from taking them, and is kept because
the wrapper calls nothing that approves.

## Main definitions

* `Erc721Wrapper`, `Erc721Wrapper.Error`, `Erc721Wrapper.World`
* `Erc721Wrapper.depositFor`, `withdrawTo`, `onErc721Received`, `_recover` — the functions
* `Erc721Wrapper.Op`, `Erc721Wrapper.exec`, `Erc721Wrapper.Run` — what a run is made of
* `Erc721Wrapper.Backed` — the wrapper owns what it may be asked for

## Main results

* `Erc721Wrapper.Backed.exec` — every operation keeps it backed
* `Erc721Wrapper.wrapped_backed` — so that no withdrawal lacks its underlying token
-/

namespace ContractsStylus

/-- State of an `Erc721Wrapper` token. -/
structure Erc721Wrapper where
  /-- Address of the underlying token. -/
  underlying : Address
  deriving DecidableEq, Repr

namespace Erc721Wrapper

inductive Error
  | InvalidOwner (owner : Address)
  | NonexistentToken (tokenId : U256)
  | IncorrectOwner (sender : Address) (tokenId : U256) (owner : Address)
  | InvalidSender (sender : Address)
  | InvalidReceiver (receiver : Address)
  | InvalidReceiverWithReason (reason : Bytes)
  | InsufficientApproval (operator : Address) (tokenId : U256)
  | InvalidApprover (approver : Address)
  | InvalidOperator (operator : Address)
  | UnsupportedToken (token : Address)
  | Erc721FailedOperation (token : Address)
  deriving DecidableEq, Repr

/-- `From<erc721::Error>`. -/
def Error.ofErc721 : Erc721.Error → Error
  | .InvalidOwner owner => .InvalidOwner owner
  | .NonexistentToken tokenId => .NonexistentToken tokenId
  | .IncorrectOwner sender tokenId owner => .IncorrectOwner sender tokenId owner
  | .InvalidSender sender => .InvalidSender sender
  | .InvalidReceiver receiver => .InvalidReceiver receiver
  | .InvalidReceiverWithReason reason => .InvalidReceiverWithReason reason
  | .InsufficientApproval operator tokenId => .InsufficientApproval operator tokenId
  | .InvalidApprover approver => .InvalidApprover approver
  | .InvalidOperator operator => .InvalidOperator operator

/-- A wrapper with its wrapped tokens, and the contract at the address of the underlying token. -/
structure World where
  wrapper : Erc721Wrapper
  erc721 : Erc721
  token : Erc721

/-- A call of `on_erc721_received`, by the token contract `caller`. -/
structure HookCall where
  caller : Address
  call : Erc721.ReceiverCall

/-- What the receivers do that are not the wrapper. -/
abbrev Receivers := Reentrant.Callback HookCall World B32 CallError

/-- The wrapped tokens, in the world. -/
def wrappedLayer : Erc721.Layer World Erc721.Error where
  erc721 := World.erc721
  setErc721 self e := { self with erc721 := e }
  erc721_set _ _ := rfl
  set_set _ _ _ := rfl
  set_erc721 _ := rfl
  ownerOf self tokenId := .ok (self.erc721._ownerOf tokenId)
  error e := e

/-- The underlying tokens, in the world. -/
def tokenLayer : Erc721.Layer World Erc721.Error where
  erc721 := World.token
  setErc721 self e := { self with token := e }
  erc721_set _ _ := rfl
  set_set _ _ _ := rfl
  set_erc721 _ := rfl
  ownerOf self tokenId := .ok (self.token._ownerOf tokenId)
  error e := e

/-- What a call finds around the two contracts. -/
structure Context where
  /-- `contract::address()` of the wrapper. -/
  this : Address
  hasCode : Address → Bool
  receivers : Receivers
  /-- What an error is encoded to. -/
  encode : Error → Bytes

namespace Context

variable (ctx : Context)

/-- The data that the error of an ERC-721 contract is encoded to. -/
def encodeErc721 (e : Erc721.Error) : Bytes := ctx.encode (.ofErc721 e)

/-- A call of the underlying contract, its revert data propagated. -/
def callToken {α : Type} : Result Erc721.Error α → Result Bytes α
  | .ok a => .ok a
  | .error (.err e) => .err (ctx.encodeErc721 e)
  | .error (.panic _) => .err []

/-- The receivers of wrapped tokens. The wrapper itself does not accept them, since its hook is not
called by the underlying contract then. -/
def wrappedReceivers : Reentrant.Callback Erc721.ReceiverCall World B32 CallError := fun a self =>
  if a.receiver = ctx.this ∧ self.wrapper.underlying ≠ ctx.this then
    .error (.Revert (ctx.encode (.UnsupportedToken ctx.this)))
  else ctx.receivers ⟨ctx.this, a⟩ self

/-- What a call of the wrapped tokens by `sender` finds. -/
def wrappedEnv (sender : Address) : Env Erc721.ReceiverCall World :=
  ⟨sender, ctx.hasCode, ctx.wrappedReceivers⟩

end Context

/-! ### The extension

Both contracts are layers over one world, each with its own receivers. To the underlying contract
the wrapper is a receiver like others, and its hook answers as another contract does, an error as
the bytes it is encoded to. -/

def constructor (underlyingToken : Address) : Erc721Wrapper := ⟨underlyingToken⟩

/-- Allow minting on direct transfers of underlying tokens to the wrapper. -/
def onErc721Received (ctx : Context) (self : World) (sender _operator src : Address)
    (tokenId : U256) (_data : Bytes) : Result Bytes (B32 × World) :=
  if self.wrapper.underlying ≠ sender then .err (ctx.encode (.UnsupportedToken sender))
  else do
    let self ← (wrappedLayer.safeMint wrappedLayer.updateBase (ctx.wrappedEnv sender) self src
      tokenId []).mapErr ctx.encodeErc721
    pure (Erc721.RECEIVER_FN_SELECTOR, self)

/-- The answer of a call, as its caller gets it. -/
def answer {α : Type} : Result Bytes α → Except CallError α
  | .ok a => .ok a
  | .error (.err data) => .error (.Revert data)
  | .error (.panic _) => .error (.Revert [])

namespace Context

variable (ctx : Context)

/-- The receivers of underlying tokens, the wrapper being one of them. -/
def tokenReceivers : Reentrant.Callback Erc721.ReceiverCall World B32 CallError := fun a self =>
  if a.receiver = ctx.this then
    answer (onErc721Received ctx self self.wrapper.underlying a.operator a.src a.tokenId a.data)
  else ctx.receivers ⟨self.wrapper.underlying, a⟩ self

/-- What a call of the underlying tokens by `sender` finds. -/
def tokenEnv (sender : Address) : Env Erc721.ReceiverCall World :=
  ⟨sender, ctx.hasCode, ctx.tokenReceivers⟩

end Context

/-- One round of `depositFor`. The underlying token is transferred without asking the wrapper. -/
def depositOne (ctx : Context) (sender account : Address) (self : World) (tokenId : U256) :
    Result Bytes World := do
  let self ← ctx.callToken (tokenLayer.transferFrom tokenLayer.updateBase ctx.this self sender
    ctx.this tokenId)
  (wrappedLayer.safeMint wrappedLayer.updateBase (ctx.wrappedEnv sender) self account tokenId
    []).mapErr ctx.encodeErc721

def depositFor (ctx : Context) (self : World) (sender account : Address) (tokenIds : List U256) :
    Result Bytes (Bool × World) := do
  let self ← tokenIds.foldlM (depositOne ctx sender account) self
  pure (true, self)

/-- One round of `withdrawTo`. The wrapped token is burned before the underlying one is sent. -/
def withdrawOne (ctx : Context) (sender account : Address) (self : World) (tokenId : U256) :
    Result Bytes World := do
  let (_, self) ← (wrappedLayer.updateBase self 0 tokenId sender).mapErr ctx.encodeErc721
  ctx.callToken (tokenLayer.safeTransferFromWithData tokenLayer.updateBase (ctx.tokenEnv ctx.this)
    self ctx.this account tokenId [])

def withdrawTo (ctx : Context) (self : World) (sender account : Address) (tokenIds : List U256) :
    Result Bytes (Bool × World) := do
  let self ← tokenIds.foldlM (withdrawOne ctx sender account) self
  pure (true, self)

/-- Mint a wrapped token for an underlying one that the wrapper was sent otherwise. -/
def _recover (ctx : Context) (self : World) (sender account : Address) (tokenId : U256) :
    Result Error (U256 × World) := do
  let owner ← (tokenLayer.requireOwned self tokenId).mapErr fun _ =>
    .Erc721FailedOperation self.wrapper.underlying
  let contractAddress := ctx.this
  if owner ≠ contractAddress then .err (.IncorrectOwner contractAddress tokenId owner)
  else do
    let self ← (wrappedLayer.safeMint wrappedLayer.updateBase (ctx.wrappedEnv sender) self account
      tokenId []).mapErr Error.ofErc721
    pure (tokenId, self)

/-! ### Runs

A run has the calls of the wrapper, those of its wrapped tokens, and those of the underlying
contract by anybody. `_recover` is a function that a wrapper may offer to some senders; it is in the
runs for all of them. -/

/-- The calls of a wrapper and of its underlying token. -/
inductive Op
  | depositFor (account : Address) (tokenIds : List U256)
  | withdrawTo (account : Address) (tokenIds : List U256)
  | onErc721Received (operator src : Address) (tokenId : U256) (data : Bytes)
  | _recover (account : Address) (tokenId : U256)
  | wrapped (c : Erc721.Public)
  | token (c : Erc721.Public)
  /-- A mint of an underlying token. -/
  | mint (dst : Address) (tokenId : U256)
  | safeMint (dst : Address) (tokenId : U256) (data : Bytes)

/-- A call with its sender, and with the accounts that are contracts when it is made. -/
structure Message where
  sender : Address
  hasCode : Address → Bool
  op : Op

section Runs

variable (this underlying : Address) (encode : Error → Bytes)

/-- One call, with the data that it reverts with. -/
def exec (m : Message) (receivers : Receivers) (self : World) : Result Bytes World :=
  let ctx : Context := ⟨this, m.hasCode, receivers, encode⟩
  match m.op with
  | .depositFor account tokenIds => Prod.snd <$> depositFor ctx self m.sender account tokenIds
  | .withdrawTo account tokenIds => Prod.snd <$> withdrawTo ctx self m.sender account tokenIds
  | .onErc721Received operator src tokenId data =>
    Prod.snd <$> onErc721Received ctx self m.sender operator src tokenId data
  | ._recover account tokenId =>
    Prod.snd <$> (_recover ctx self m.sender account tokenId).mapErr encode
  | .wrapped c =>
    (wrappedLayer.execPublic wrappedLayer.updateBase (ctx.wrappedEnv m.sender) self c).mapErr
      ctx.encodeErc721
  | .token c =>
    (tokenLayer.execPublic tokenLayer.updateBase (ctx.tokenEnv m.sender) self c).mapErr
      ctx.encodeErc721
  | .mint dst tokenId =>
    (tokenLayer.mint tokenLayer.updateBase self dst tokenId).mapErr ctx.encodeErc721
  | .safeMint dst tokenId data =>
    (tokenLayer.safeMint tokenLayer.updateBase (ctx.tokenEnv m.sender) self dst tokenId
      data).mapErr ctx.encodeErc721

/-- Every call has a sender. The two contracts call each other in their functions only. -/
def Permitted (_self : World) (m : Message) : Prop :=
  m.sender ≠ 0 ∧ m.sender ≠ this ∧ m.sender ≠ underlying

/-- Runs, whatever the receivers do. -/
abbrev Run : World → World → Prop :=
  Reentrant.Run (exec this encode) (Permitted this underlying)

/-- A new wrapper of a new token. -/
def deploy (underlyingToken : Address) : World :=
  ⟨constructor underlyingToken, Erc721.empty, Erc721.empty⟩

end Runs

/-! ### Backing

One lemma for each thing that can happen to the two contracts, whoever makes it happen. That a new
token has no owner before is asked for mints, and that the wrapped token is gone for what the
wrapper sends. -/

section Backing

variable {this underlying sender account src dst : Address} {encode : Error → Bytes}
  {ctx : Context} {s s' u v w : World} {e : Erc721} {id : U256} {data : Bytes} {b : B32}
  {a : Erc721.ReceiverCall} {m : Message} {receivers : Receivers} {ids : List U256} {ok : Bool}

/-- **The wrapper owns what it may be asked for**, and gave nobody an approval for it. -/
structure Backed (this underlying : Address) (w : World) : Prop where
  underlying_eq : w.wrapper.underlying = underlying
  clean : w.erc721.Clean
  custody : Erc721.Custody this w.token
  owners_eq : ∀ id, w.erc721.owners id ≠ 0 → w.token.owners id = this

theorem plain_wrapped : wrappedLayer.Plain := fun _ _ => rfl

theorem plain_token : tokenLayer.Plain := fun _ _ => rfl

theorem callToken_eq_ok {α : Type} {r : Result Erc721.Error α} {x : α} :
    ctx.callToken r = .ok x ↔ r = .ok x := by
  rcases r with (_ | _) | _ <;> simp [Context.callToken, Result.err]

theorem answer_eq_ok {α : Type} {r : Result Bytes α} {x : α} : answer r = .ok x ↔ r = .ok x := by
  rcases r with (_ | _) | _ <;> simp [answer]

/-- Receivers that keep the wrapper backed. -/
abbrev Keep (this underlying : Address) (receivers : Receivers) : Prop :=
  ∀ a u b u', receivers a u = .ok (b, u') → Backed this underlying u → Backed this underlying u'

namespace Backed

/-- Wrapped tokens are minted for underlying tokens of the wrapper. -/
theorem mintWrapped (hs : Backed this underlying s) (hid : s.token.owners id = this)
    (hnew : s.erc721.owners id = 0) :
    Backed this underlying (wrappedLayer.setErc721 s (s.erc721.move 0 dst id)) where
  underlying_eq := hs.underlying_eq
  clean := by
    have hmove := hs.clean.move dst id
    rwa [hnew] at hmove
  custody := hs.custody
  owners_eq id' hid' := by
    have hid' : (s.erc721.move 0 dst id).owners id' ≠ 0 := hid'
    rw [Erc721.owners_move_apply] at hid'
    split at hid'
    · rename_i heq
      rw [heq]
      exact hid
    · exact hs.owners_eq id' hid'

/-- Wrapped tokens change hands, or disappear. -/
theorem changeWrapped (hs : Backed this underlying s) (hsender : sender ≠ 0)
    (hchange : Erc721.Change sender s.erc721 e) :
    Backed this underlying (wrappedLayer.setErc721 s e) := by
  obtain ⟨hclean, hzero⟩ := hs.clean.change hsender hchange
  exact ⟨hs.underlying_eq, hclean, hs.custody, fun id hid =>
    hs.owners_eq id fun hnone => hid (hzero id hnone)⟩

theorem burnWrapped (hs : Backed this underlying s) :
    Backed this underlying
      (wrappedLayer.setErc721 s (s.erc721.move (s.erc721.owners id) 0 id)) where
  underlying_eq := hs.underlying_eq
  clean := hs.clean.move 0 id
  custody := hs.custody
  owners_eq id' hid' := by
    have hid' : (s.erc721.move (s.erc721.owners id) 0 id).owners id' ≠ 0 := hid'
    rw [Erc721.owners_move_apply] at hid'
    split at hid'
    · exact absurd rfl hid'
    · exact hs.owners_eq id' hid'

/-- Others do with their underlying tokens what they want. -/
theorem changeToken (hs : Backed this underlying s) (hsender : sender ≠ 0) (hne : sender ≠ this)
    (hchange : Erc721.Change sender s.token e) :
    Backed this underlying (tokenLayer.setErc721 s e) := by
  obtain ⟨hcustody, hkept⟩ := hs.custody.change hsender hne hchange
  exact ⟨hs.underlying_eq, hs.clean, hcustody, fun id hid => hkept id (hs.owners_eq id hid)⟩

theorem mintToken (hs : Backed this underlying s) (hthis : this ≠ 0)
    (hnew : s.token.owners id = 0) :
    Backed this underlying (tokenLayer.setErc721 s (s.token.move 0 dst id)) := by
  obtain ⟨hcustody, hkept⟩ := @Erc721.Custody.mint _ _ hs.custody hthis dst id hnew
  exact ⟨hs.underlying_eq, hs.clean, hcustody, fun id hid => hkept id (hs.owners_eq id hid)⟩

/-- The wrapper receives an underlying token, or sends one that is not wrapped. -/
theorem moveToken (hs : Backed this underlying s) (h : dst = this ∨ s.erc721.owners id = 0) :
    Backed this underlying (tokenLayer.setErc721 s (s.token.move (s.token.owners id) dst id)) where
  underlying_eq := hs.underlying_eq
  clean := hs.clean
  custody := hs.custody.move dst id
  owners_eq id' hid' := by
    have hid' : s.erc721.owners id' ≠ 0 := hid'
    change (s.token.move (s.token.owners id) dst id).owners id' = this
    rw [Erc721.owners_move_apply]
    split
    · rename_i heq
      subst heq
      exact h.resolve_right hid'
    · exact hs.owners_eq id' hid'

/-! ### Receivers

A receiver is called in a backed state and may do anything that keeps it backed. The wrapper as a
receiver is not one of them: it is known what it does, and that the token is there. -/

theorem wrappedReceivers (hcb : Keep this underlying ctx.receivers)
    (hu : Backed this underlying u) (h : ctx.wrappedReceivers a u = .ok (b, v)) :
    Backed this underlying v := by
  rw [Context.wrappedReceivers] at h
  split at h
  · exact nomatch h
  · exact hcb _ _ _ _ h hu

theorem safeMintWrapped (hcb : Keep this underlying ctx.receivers)
    (hs : Backed this underlying s) (hid : s.token.owners id = this)
    (h : wrappedLayer.safeMint wrappedLayer.updateBase (ctx.wrappedEnv sender) s dst id data =
      .ok v) :
    Backed this underlying v := by
  obtain ⟨hnew, hv⟩ := plain_wrapped.safeMint_eq_ok h
  have hmint := @mintWrapped _ _ dst _ _ hs hid hnew
  rcases hv with rfl | ⟨b, hb⟩
  · exact hmint
  · exact hmint.wrappedReceivers hcb hb

/-- The hook of the wrapper is called when it owns the token. -/
theorem onErc721Received {operator : Address} (hcb : Keep this underlying ctx.receivers)
    (hs : Backed this underlying s) (hid : s.token.owners id = this)
    (h : onErc721Received ctx s sender operator src id data = .ok (b, v)) :
    Backed this underlying v := by
  obtain ⟨-, h⟩ := guard_eq_ok.mp h
  obtain ⟨w, hw, h⟩ := bind_eq_ok.mp h
  obtain rfl := (Prod.mk.inj (pure_eq_ok.mp h)).2
  exact hs.safeMintWrapped hcb hid (mapErr_eq_ok.mp hw)

theorem tokenReceivers (hctx : ctx.this = this) (hcb : Keep this underlying ctx.receivers)
    (hu : Backed this underlying u) (howner : u.token.owners a.tokenId = a.receiver)
    (h : ctx.tokenReceivers a u = .ok (b, v)) : Backed this underlying v := by
  rw [Context.tokenReceivers] at h
  split at h
  · rename_i ha
    rw [ha, hctx] at howner
    exact hu.onErc721Received hcb howner (answer_eq_ok.mp h)
  · exact hcb _ _ _ _ h hu

/-! ### Operations

The loops of deposits and withdrawals keep the invariant round by round. A withdrawal is then
computed: with the wrapped token burned, nothing in the transfer can fail but the receiver. -/

/-- A call of the underlying contract makes a change, and the receiver may be asked. -/
theorem afterToken (hctx : ctx.this = this) (hcb : Keep this underlying ctx.receivers)
    (hu : Backed this underlying (tokenLayer.setErc721 s e))
    (hv : v = tokenLayer.setErc721 s e ∨ ∃ a b,
      ctx.tokenReceivers a (tokenLayer.setErc721 s e) = .ok (b, v) ∧
        e.owners a.tokenId = a.receiver) : Backed this underlying v := by
  rcases hv with rfl | ⟨a, b, hb, howner⟩
  · exact hu
  · exact hu.tokenReceivers hctx hcb howner hb

/-- A deposit mints a wrapped token for one that the wrapper has received. -/
theorem depositOne (hctx : ctx.this = this) (hcb : Keep this underlying ctx.receivers)
    (hs : Backed this underlying s) (h : depositOne ctx sender account s id = .ok v) :
    Backed this underlying v := by
  obtain ⟨u, hu, h⟩ := bind_eq_ok.mp h
  obtain ⟨-, hupdate⟩ := Erc721.Layer.transferFrom_eq_ok.mp (callToken_eq_ok.mp hu)
  obtain ⟨hsrc, -, rfl⟩ := plain_token.updateBase_eq_ok hupdate
  rw [hsrc, hctx] at h
  refine (hs.moveToken (Or.inl rfl)).safeMintWrapped hcb ?_ (mapErr_eq_ok.mp h)
  exact (Erc721.owners_move_apply ..).trans (if_pos rfl)

/-- An underlying token is sent that is not wrapped any more. -/
theorem sendToken (hctx : ctx.this = this) (hcb : Keep this underlying ctx.receivers)
    (hs : Backed this underlying s) (hnone : s.erc721.owners id = 0)
    (h : tokenLayer.safeTransferFromWithData tokenLayer.updateBase (ctx.tokenEnv sender) s src dst
      id data = .ok v) : Backed this underlying v := by
  obtain ⟨u, htransfer, hasked⟩ := bind_eq_ok.mp h
  obtain ⟨-, hupdate⟩ := Erc721.Layer.transferFrom_eq_ok.mp htransfer
  obtain ⟨rfl, -, rfl⟩ := plain_token.updateBase_eq_ok hupdate
  refine (@moveToken _ _ dst s id hs (Or.inr hnone)).afterToken hctx hcb ?_
  rcases checkOnReceived_cases hasked with hv | ⟨b, hb⟩
  · exact Or.inl hv
  · exact Or.inr ⟨_, b, hb, (Erc721.owners_move_apply ..).trans (if_pos rfl)⟩

/-- A withdrawal burns the wrapped token first. -/
theorem withdrawOne (hctx : ctx.this = this) (hcb : Keep this underlying ctx.receivers)
    (hs : Backed this underlying s) (h : withdrawOne ctx sender account s id = .ok v) :
    Backed this underlying v := by
  obtain ⟨⟨prev, t⟩, hburn, h⟩ := bind_eq_ok.mp h
  obtain ⟨rfl, -, rfl⟩ := plain_wrapped.updateBase_eq_ok (mapErr_eq_ok.mp hburn)
  refine (@burnWrapped _ _ s id hs).sendToken hctx hcb ?_ (callToken_eq_ok.mp h)
  exact (Erc721.owners_move_apply ..).trans (if_pos rfl)

/-- What every round of a loop keeps, the loop keeps. -/
theorem foldlM {f : World → U256 → Result Bytes World}
    (hf : ∀ s id v, Backed this underlying s → f s id = .ok v → Backed this underlying v)
    (hs : Backed this underlying s) (h : ids.foldlM f s = .ok v) : Backed this underlying v :=
  (Machine.Reachable.of_foldlM (M := ⟨f⟩) (P := fun _ _ => True) (fun _ _ _ => trivial) .refl
    h).invariant hs fun s id v hs _ => hf s id v hs

theorem withdrawTo (hctx : ctx.this = this) (hcb : Keep this underlying ctx.receivers)
    (hs : Backed this underlying s) (h : withdrawTo ctx s sender account ids = .ok (ok, v)) :
    Backed this underlying v := by
  obtain ⟨w, hw, h⟩ := bind_eq_ok.mp h
  obtain rfl := (Prod.mk.inj (pure_eq_ok.mp h)).2
  exact foldlM (fun s id v hs hone => hs.withdrawOne hctx hcb hone) hs hw

/-- **Every operation keeps the wrapper backed**, whatever the receivers do. -/
theorem exec (hthis : this ≠ 0) (hs : Backed this underlying s)
    (hP : Permitted this underlying s m) (hcb : Keep this underlying receivers)
    (h : exec this encode m receivers s = .ok v) : Backed this underlying v := by
  obtain ⟨hsender, hne, hnot⟩ := hP
  rcases m with ⟨sender, hasCode, op⟩
  let ctx : Context := ⟨this, hasCode, receivers, encode⟩
  have hctx : ctx.this = this := rfl
  have hcb : Keep this underlying ctx.receivers := hcb
  cases op with
  | depositFor account ids =>
    obtain ⟨ok, h⟩ := snd_map_eq_ok.mp h
    obtain ⟨w, hw, h⟩ := bind_eq_ok.mp h
    obtain rfl := (Prod.mk.inj (pure_eq_ok.mp h)).2
    exact foldlM (fun s id v hs hone => hs.depositOne hctx hcb hone) hs hw
  | withdrawTo account ids =>
    obtain ⟨ok, h⟩ := snd_map_eq_ok.mp h
    exact hs.withdrawTo hctx hcb h
  | onErc721Received operator src tokenId data =>
    -- nobody but the underlying contract is heard
    obtain ⟨b, h⟩ := snd_map_eq_ok.mp h
    rw [Erc721Wrapper.onErc721Received, hs.underlying_eq, if_pos hnot.symm] at h
    exact absurd h err_ne_ok
  | _recover account tokenId =>
    obtain ⟨id, h⟩ := snd_map_eq_ok.mp h
    obtain ⟨owner, howner, h⟩ := bind_eq_ok.mp (mapErr_eq_ok.mp h)
    obtain ⟨-, howner⟩ := guard_eq_ok.mp (mapErr_eq_ok.mp howner)
    obtain ⟨heq, h⟩ := guard_eq_ok.mp h
    obtain ⟨w, hw, h⟩ := bind_eq_ok.mp h
    obtain rfl := (Prod.mk.inj (pure_eq_ok.mp h)).2
    exact hs.safeMintWrapped hcb ((Except.ok.inj howner).trans (not_not.mp heq))
      (mapErr_eq_ok.mp hw)
  | wrapped c =>
    obtain ⟨e, hchange, hv⟩ := plain_wrapped.execPublic_eq_ok hsender (mapErr_eq_ok.mp h)
    have hu := hs.changeWrapped hsender hchange
    rcases hv with rfl | ⟨a, b, hb, -⟩
    · exact hu
    · exact hu.wrappedReceivers hcb hb
  | token c =>
    obtain ⟨e, hchange, hv⟩ := plain_token.execPublic_eq_ok hsender (mapErr_eq_ok.mp h)
    exact (hs.changeToken hsender hne hchange).afterToken hctx hcb hv
  | mint dst tokenId =>
    obtain ⟨-, hupdate⟩ := Erc721.Layer.mint_eq_ok.mp (mapErr_eq_ok.mp h)
    obtain ⟨hnew, -, rfl⟩ := plain_token.updateBase_eq_ok hupdate
    exact hs.mintToken hthis hnew.symm
  | safeMint dst tokenId data =>
    obtain ⟨hnew, hv⟩ := plain_token.safeMint_eq_ok (mapErr_eq_ok.mp h)
    refine (@mintToken _ _ dst s tokenId hs hthis hnew).afterToken hctx hcb ?_
    rcases hv with hv | ⟨b, hb⟩
    · exact Or.inl hv
    · exact Or.inr ⟨_, b, hb, (Erc721.owners_move_apply ..).trans (if_pos rfl)⟩

end Backed

/-- **The wrapper is backed in every state of a run.** -/
theorem backed_of_run (hthis : this ≠ 0)
    (h : Run this underlying encode (deploy underlying) s) : Backed this underlying s := by
  refine h.invariant (fun m receivers t v ht hP hcb hexec => ht.exec hthis hP hcb hexec) ?_
  exact ⟨rfl, Erc721.clean_empty, Erc721.custody_empty this, fun id hid => absurd rfl hid⟩

/-- **A withdrawal comes down to asking the receiver**: the wrapped token is burned and the
underlying one is sent. -/
theorem Backed.withdrawOne_eq (hctx : ctx.this = this) (hthis : this ≠ 0)
    (hs : Backed this underlying s) (howner : s.erc721.owners id ≠ 0)
    (hauth : s.erc721._isAuthorized (s.erc721.owners id) sender id) (haccount : account ≠ 0) :
    Erc721Wrapper.withdrawOne ctx sender account s id =
      ctx.callToken (tokenLayer.checkOnErc721Received (ctx.tokenEnv ctx.this)
        { s with
          erc721 := s.erc721.move (s.erc721.owners id) 0 id
          token := s.token.move ctx.this account id } ctx.this ctx.this account id []) := by
  have hburn : wrappedLayer.updateBase s 0 id sender =
      .ok (s.erc721.owners id, wrappedLayer.modify s (·.move (s.erc721.owners id) 0 id)) :=
    Erc721.Layer.updateBase_eq_ok.mpr ⟨fun _ => hauth, rfl, rfl⟩
  have hself : s.token._isAuthorized ctx.this ctx.this id := by
    rw [hctx, Erc721._isAuthorized, decide_eq_true_eq]
    exact ⟨hthis, Or.inl rfl⟩
  have htransfer : tokenLayer.transferFrom tokenLayer.updateBase ctx.this
      (wrappedLayer.modify s (·.move (s.erc721.owners id) 0 id)) ctx.this account id =
        .ok { s with
          erc721 := s.erc721.move (s.erc721.owners id) 0 id
          token := s.token.move ctx.this account id } := by
    refine Erc721.Layer.transferFrom_eq_ok.mpr ⟨haccount,
      Erc721.Layer.updateBase_eq_ok.mpr ⟨fun _ => hself, ?_, rfl⟩⟩
    exact congrArg Except.ok ((hs.owners_eq id howner).trans hctx.symm)
  rw [Erc721Wrapper.withdrawOne, hburn]
  change ctx.callToken (tokenLayer.transferFrom tokenLayer.updateBase ctx.this
    (wrappedLayer.modify s (·.move (s.erc721.owners id) 0 id)) ctx.this account id >>= _) = _
  rw [htransfer]
  rfl

/-- Rounds of a withdrawal that succeed leave the last one to be made. -/
theorem withdrawTo_append (h : withdrawTo ctx s sender account ids = .ok (ok, v)) (id : U256) :
    withdrawTo ctx s sender account (ids ++ [id]) =
      (do let self ← withdrawOne ctx sender account v id; pure (true, self)) := by
  obtain ⟨w, hw, h⟩ := bind_eq_ok.mp h
  obtain rfl := (Prod.mk.inj (pure_eq_ok.mp h)).2
  rw [withdrawTo, List.foldlM_append, hw, ok_bind, List.foldlM_cons]
  cases withdrawOne ctx sender account w id <;> rfl

/-- **The wrapped tokens are backed.** In every state that deposits, withdrawals, safe transfers of
underlying tokens to the wrapper, recoveries, calls of wrapped and underlying tokens and receivers
that call any of these lead to, the wrapper owns the underlying token of every wrapped token that
exists. So whoever is authorized for a wrapped token can withdraw it, in the middle of a batch as
well: it only depends on the receiver, which is asked when the wrapped token is burned and the
underlying one is its own. -/
theorem wrapped_backed (hthis : this ≠ 0) (h : Run this underlying encode (deploy underlying) s) :
    (∀ id, s.erc721.owners id ≠ 0 → s.token.owners id = this) ∧
    ∀ ctx sender account ids v, ctx.this = this →
      (∀ a u b u', ctx.receivers a u = .ok (b, u') → Run this underlying encode u u') →
      withdrawTo ctx s sender account ids = .ok (true, v) →
      ∀ id, v.erc721.owners id ≠ 0 →
        v.erc721._isAuthorized (v.erc721.owners id) sender id → account ≠ 0 →
        ∃ u, u.erc721.owners id = 0 ∧ u.token.owners id = account ∧
          withdrawTo ctx s sender account (ids ++ [id]) = (do
            let self ← ctx.callToken (tokenLayer.checkOnErc721Received (ctx.tokenEnv this) u this
              this account id [])
            pure (true, self)) ∧
          (ctx.hasCode account = false →
            withdrawTo ctx s sender account (ids ++ [id]) = .ok (true, u)) := by
  have hs := backed_of_run hthis h
  refine ⟨hs.owners_eq, fun ctx sender account ids v hctx hreceivers hv id howner hauth
    haccount => ?_⟩
  have hcb : Keep this underlying ctx.receivers := fun a u b u' hu hbacked =>
    (hreceivers a u b u' hu).invariant
      (fun m cb t w ht hP hcb hexec => ht.exec hthis hP hcb hexec) hbacked
  have hone := (hs.withdrawTo hctx hcb hv).withdrawOne_eq hctx hthis howner hauth haccount
  rw [hctx] at hone
  refine ⟨{ v with
      erc721 := v.erc721.move (v.erc721.owners id) 0 id
      token := v.token.move this account id }, ?_, ?_, ?_, fun hcode => ?_⟩
  · exact (Erc721.owners_move_apply ..).trans (if_pos rfl)
  · exact (Erc721.owners_move_apply ..).trans (if_pos rfl)
  · rw [withdrawTo_append hv, hone]
  · have hcode : (!(ctx.tokenEnv this).hasCode account) = true := by
      rw [Bool.not_eq_true']
      exact hcode
    rw [withdrawTo_append hv, hone, Erc721.Layer.checkOnErc721Received, checkOnReceived,
      if_pos hcode]
    rfl

/-- Account `1` deposits token `5` for account `2`, and safely transfers token `6` to the wrapper at
address `200`. Account `2` withdraws to account `3`. -/
theorem wrapped_backed_deposited : ∃ s u : World,
    (s.erc721.owners 5, s.erc721.owners 6) = (2, 1) ∧ s.token.owners 5 = 200 ∧
    s.token.owners 6 = 200 ∧ u.token.owners 5 = 3 ∧
    withdrawTo ⟨200, fun a => a = 200, fun _ _ => .error .AbiDecodingFailed, fun _ => []⟩ s 2 3
      [5] = .ok (true, u) := by
  let hasCode : Address → Bool := fun a => a = 200
  let receivers : Receivers := fun _ _ => .error .AbiDecodingFailed
  let encode : Error → Bytes := fun _ => []
  obtain ⟨s, hs, hlook⟩ := (Machine.mk fun s m => exec 200 encode m receivers s).exists_reachable
    (P := Permitted 200 100) (deploy 100)
    [⟨9, hasCode, .mint 1 5⟩, ⟨9, hasCode, .safeMint 1 6 []⟩, ⟨1, hasCode, .token (.approve 200 5)⟩,
      ⟨1, hasCode, .depositFor 2 [5]⟩, ⟨1, hasCode, .token (.safeTransferFrom 1 200 6)⟩]
    (fun s => (s.erc721.owners 5, s.erc721.owners 6)) (2, 1)
    (by
      intro m hm _
      simp only [List.mem_cons, List.not_mem_nil, or_false] at hm
      rcases hm with rfl | rfl | rfl | rfl | rfl
      all_goals exact ⟨by decide, by decide, by decide⟩)
    (by decide +kernel)
  have hquiet : ∀ a u b u', receivers a u = .ok (b, u') → u' = u := nofun
  have hrun : Run 200 100 encode (deploy 100) s := .of_reachable hquiet hs
  obtain ⟨hfive, hsix⟩ := Prod.mk.inj hlook
  have hfive' : s.erc721.owners 5 ≠ 0 := by
    rw [hfive]
    decide
  obtain ⟨howners, hwithdraw⟩ := wrapped_backed (by decide) hrun
  obtain ⟨u, -, hu, -, hpaid⟩ := hwithdraw ⟨200, hasCode, receivers, encode⟩ 2 3 [] s rfl nofun rfl
    5 hfive' (by rw [hfive]; simp [Erc721._isAuthorized]) (by decide)
  exact ⟨s, u, hlook, howners 5 hfive', howners 6 (by rw [hsix]; decide), hu, hpaid rfl⟩

end Backing

end Erc721Wrapper

end ContractsStylus
