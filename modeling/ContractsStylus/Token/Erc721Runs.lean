import ContractsStylus.Library.Tally
import ContractsStylus.Token.Erc721

/-!
# Runs of an ERC-721 token

What holds of a token after any number of calls, some of which ask a receiver that may call back.
The receiver is asked last. A call with a receiver is therefore the call without one and then
whatever the receiver does, and a run with receivers that call back is, as far as the storage is
concerned, a run of calls that ask nobody.

## Counting

An account could own all tokens there can be, which are two to the 256, and its balance would be
zero then. So `Counted` says that a balance is the number of tokens as far as words can tell, and
needs no bound on what is minted.

What a call leaves alone is stated for the call and all that its receiver does: the operations that
touch a token are the ones that name it.

## Main definitions

* `Erc721.Call`, `Erc721.Message`, `Erc721.execCall` — the calls, those with receivers included
* `Erc721.Reachable` — the states reached by calls whose receivers may call back
* `Erc721.count`, `Erc721.Counted` — balances count tokens, as far as words can

## Main results

* `Erc721.execCall_eq_ok` — what a call has done when it asks the receiver
* `Erc721.balanceOf_eq_count` — balances count tokens, and no call touches other tokens
-/

namespace ContractsStylus

namespace Erc721

/-! ### Calls with receivers -/

/-- The calls. -/
inductive Call
  /-- An operation that asks no receiver. -/
  | plain (op : Op)
  | safeMint (dst : Address) (tokenId : U256) (data : Bytes)
  | safeTransferFrom (src dst : Address) (tokenId : U256)
  | safeTransferFromWithData (src dst : Address) (tokenId : U256) (data : Bytes)

/-- A call with its sender, and with the accounts that are contracts when it is made. -/
structure Message where
  sender : Address
  hasCode : Address → Bool
  call : Call

/-- What receivers do. -/
abbrev Receivers := Reentrant.Callback ReceiverCall Erc721 B32 CallError

/-- One call. -/
def execCall (m : Message) (receivers : Receivers) (self : Erc721) : Result Error Erc721 :=
  let env : Env ReceiverCall Erc721 := ⟨m.sender, m.hasCode, receivers⟩
  match m.call with
  | .plain op => layer.exec _update self ⟨m.sender, op⟩
  | .safeMint dst tokenId data => _safeMint env self dst tokenId data
  | .safeTransferFrom src dst tokenId => safeTransferFrom env self src dst tokenId
  | .safeTransferFromWithData src dst tokenId data =>
    safeTransferFromWithData env self src dst tokenId data

/-- The states that successful calls lead to from deployment on, whatever the receivers do. -/
abbrev Reachable : Erc721 → Prop := Reentrant.Run execCall (fun _ _ => True) empty

/-- The operation that is left of a call when nobody is asked. -/
def Call.body : Call → Op
  | .plain op => op
  | .safeMint dst tokenId _ => .mint dst tokenId
  | .safeTransferFrom src dst tokenId => .transferFrom src dst tokenId
  | .safeTransferFromWithData src dst tokenId _ => .transferFrom src dst tokenId

def Message.body (m : Message) : Tx := ⟨m.sender, m.call.body⟩

/-- The token that an operation is about. -/
def Op.tokenId : Op → Option U256
  | mint _ tokenId => some tokenId
  | burn tokenId => some tokenId
  | transferFrom _ _ tokenId => some tokenId
  | approve _ tokenId => some tokenId
  | setApprovalForAll _ _ => none

variable {self self' s t u v : Erc721} {m : Message} {receivers : Receivers} {tx : Tx}
  {id : U256}

/-- **The receiver is asked last**, if one is asked. -/
theorem execCall_eq_ok (h : execCall m receivers s = .ok v) :
    ∃ u, layer.exec _update s m.body = .ok u ∧ Asked receivers u v ∧
      ∀ op, m.call = .plain op → v = u := by
  rcases m with ⟨sender, hasCode, call⟩
  cases call with
  | plain op => exact ⟨v, h, Or.inl rfl, fun _ _ => rfl⟩
  | safeMint dst tokenId data =>
    obtain ⟨u, hbody, hasked⟩ := bind_eq_ok.mp h
    exact ⟨u, hbody, checkOnReceived_eq_ok hasked, by simp⟩
  | safeTransferFrom src dst tokenId =>
    obtain ⟨u, hbody, hasked⟩ := bind_eq_ok.mp h
    exact ⟨u, hbody, checkOnReceived_eq_ok hasked, by simp⟩
  | safeTransferFromWithData src dst tokenId data =>
    obtain ⟨u, hbody, hasked⟩ := bind_eq_ok.mp h
    exact ⟨u, hbody, checkOnReceived_eq_ok hasked, by simp⟩

/-- What the operations keep, calls with receivers keep. -/
theorem run_invariant {P : Erc721 → Message → Prop} {Inv : Erc721 → Prop}
    (hexec : ∀ s m u, Inv s → P s m → layer.exec _update s m.body = .ok u → Inv u)
    (h : Reentrant.Run execCall P s v) : Inv s → Inv v := by
  refine h.invariant fun m receivers t v ht hP hcb hcall => ?_
  obtain ⟨u, hbody, hasked, -⟩ := execCall_eq_ok hcall
  have hu := hexec t m u ht hP hbody
  rcases hasked with rfl | ⟨a, b, hreceiver⟩
  · exact hu
  · exact hcb a u b v hreceiver hu

/-! ### Balances -/

/-- The number of tokens of an account. -/
noncomputable def count (self : Erc721) (account : Address) : ℕ :=
  (Finset.univ.filter fun id => self.owners id = account).card

/-- Balances count tokens, as far as words can. -/
def Counted (self : Erc721) : Prop :=
  ∀ account ≠ 0, self.balances account = BitVec.ofNat 256 (self.count account)

theorem counted_empty : empty.Counted := by
  intro account haccount
  have hnone : empty.count account = 0 := by
    rw [count, Finset.card_eq_zero, Finset.filter_eq_empty_iff]
    exact fun _ _ howner => haccount howner.symm
  rw [hnone]
  rfl

/-- A move takes one token from the count of the owner and adds one to that of the recipient. -/
theorem count_move (self : Erc721) (src dst account : Address) (tokenId : U256) :
    (self.move src dst tokenId).count account +
        (if self.owners tokenId = account then 1 else 0) =
      self.count account + if dst = account then 1 else 0 := by
  rw [count, count, Finset.card_filter, Finset.card_filter, owners_move]
  exact Tally.sum_update (fun owner => if owner = account then 1 else 0) self.owners tokenId dst

theorem Counted.move (h : self.Counted) (dst : Address) (tokenId : U256) :
    (self.move (self.owners tokenId) dst tokenId).Counted := by
  intro account haccount
  have hcount := count_move self (self.owners tokenId) dst account tokenId
  by_cases hsrc : self.owners tokenId = account
  · by_cases hdst : dst = account
    · rw [if_pos hsrc, if_pos hdst] at hcount
      rw [Nat.add_right_cancel hcount, ← h account haccount, hsrc, hdst, balances_move_self]
    · rw [if_pos hsrc, if_neg hdst] at hcount
      subst hsrc
      rw [balances_move_src self tokenId haccount (Ne.symm hdst), h _ haccount,
        ← Nat.add_zero (self.count _), ← hcount, BitVec.ofNat_add]
      exact BitVec.add_sub_cancel ..
  · by_cases hdst : dst = account
    · rw [if_neg hsrc, if_pos hdst, Nat.add_zero] at hcount
      subst hdst
      rw [balances_move_dst self tokenId haccount hsrc, h _ haccount, hcount, BitVec.ofNat_add]
      rfl
    · rw [if_neg hsrc, if_neg hdst] at hcount
      rw [balances_move_of_ne self tokenId (Ne.symm hsrc) (Ne.symm hdst), h account haccount,
        Nat.add_right_cancel hcount]

theorem Counted.exec (h : self.Counted) (hok : layer.exec _update self tx = .ok self') :
    self'.Counted := by
  rcases exec_eq_ok hok with ⟨dst, tokenId, rfl, -⟩ | ⟨dst, tokenId, -, rfl⟩ | ⟨approvals, rfl⟩
  · exact h.move dst tokenId
  · exact h
  · exact h

/-- An operation on one token leaves the others alone. -/
theorem exec_of_ne (hok : layer.exec _update self tx = .ok self') (hid : tx.op.tokenId ≠ some id) :
    self'.owners id = self.owners id ∧ self'.tokenApprovals id = self.tokenApprovals id := by
  have hcases := exec_cases hok
  have hmove {src dst : Address} {tokenId : U256} (hne : id ≠ tokenId) :
      (self.move src dst tokenId).owners id = self.owners id ∧
        (self.move src dst tokenId).tokenApprovals id = self.tokenApprovals id := by
    rw [owners_move_apply, tokenApprovals_move_apply, if_neg hne, if_neg fun hcond => hne hcond.2]
    exact ⟨rfl, rfl⟩
  rcases tx with ⟨sender, op⟩
  cases op with
  | mint dst tokenId =>
    obtain ⟨-, rfl⟩ := hcases
    exact hmove fun heq => hid (congrArg some heq.symm)
  | burn tokenId =>
    obtain ⟨-, rfl⟩ := hcases
    exact hmove fun heq => hid (congrArg some heq.symm)
  | transferFrom src dst tokenId =>
    obtain ⟨-, -, rfl⟩ := hcases
    exact hmove fun heq => hid (congrArg some heq.symm)
  | approve dst tokenId =>
    obtain ⟨-, -, rfl⟩ := hcases
    exact ⟨rfl, Function.update_of_ne (fun heq => hid (congrArg some heq.symm)) ..⟩
  | setApprovalForAll operator approved =>
    obtain rfl := hcases
    exact ⟨rfl, rfl⟩

/-- **Balances count tokens**, in every state that calls lead to, receivers that call back
included, for any account but the zero address; and a call changes owner and approval of no other
token than the one it is about, up to the moment when it asks the receiver, for whom balances
count tokens as well. -/
theorem balanceOf_eq_count (h : Reachable self) :
    (∀ account ≠ 0, self.balanceOf account = .ok (BitVec.ofNat 256 (self.count account))) ∧
    ∀ m receivers v, execCall m receivers self = .ok v →
      ∃ u, layer.exec _update self m.body = .ok u ∧ Asked receivers u v ∧
        (∀ op, m.call = .plain op → v = u) ∧ u.Counted ∧
        ∀ id, m.call.body.tokenId ≠ some id →
          u.owners id = self.owners id ∧ u.tokenApprovals id = self.tokenApprovals id := by
  have hcounted := run_invariant (fun _ _ _ hs _ => hs.exec) h counted_empty
  constructor
  · intro account haccount
    rw [balanceOf, if_neg haccount, hcounted account haccount]
  · intro m receivers v hcall
    obtain ⟨u, hbody, hasked, hplain⟩ := execCall_eq_ok hcall
    exact ⟨u, hbody, hasked, hplain, hcounted.exec hbody, fun id => exec_of_ne hbody⟩

/-- Receivers that accept every token and leave the storage alone. -/
def accepting : Receivers := answering fun _ => .ok RECEIVER_FN_SELECTOR

theorem call_accepting {P : Erc721 → Message → Prop} (h : Reentrant.Run execCall P s t)
    (hP : P t m) (hcall : execCall m accepting t = .ok v) : Reentrant.Run execCall P s v := by
  refine h.call hP (fun a u b u' hreceiver => ?_) hcall
  have hasked : Asked accepting u u' := Or.inr ⟨a, b, hreceiver⟩
  rw [hasked.eq_of_answering]
  exact .refl u

/-- Account `1`, a contract, is minted token `5` and accepts it. -/
theorem balanceOf_eq_count_minted : ∃ s : Erc721, Reachable s ∧ s.owners 5 = 1 ∧
    s.balanceOf 1 = .ok (BitVec.ofNat 256 (s.count 1)) := by
  have hcall : execCall ⟨3, fun _ => true, .safeMint 1 5 []⟩ accepting empty =
      .ok (empty.move 0 1 5) := rfl
  have hs : Reachable (empty.move 0 1 5) := call_accepting (.refl empty) trivial hcall
  obtain ⟨hbalance, -⟩ := balanceOf_eq_count hs
  exact ⟨_, hs, by decide +kernel, hbalance 1 (by decide)⟩

end Erc721

end ContractsStylus
