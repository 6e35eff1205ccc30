import Mathlib.Algebra.Order.Ring.Defs
import Mathlib.Tactic.GCongr
import Mathlib.Tactic.Linarith
import Mathlib.Tactic.Positivity
import Mathlib.Tactic.Ring

/-!
# Pools and their exchange rate

A pool holds assets against shares that were issued for them. Shares are issued for assets paid in
and taken back for assets paid out, and the holders of the remaining shares want one thing of such
trades: that the assets behind one share do not become fewer. The rate of a pool is a fraction, so
pools are compared by cross-multiplication, which needs no division.

A trade is described by one inequality against the rate of the pool it is made with, whatever way
the amounts were rounded to meet it.

## Rounding is not modelled

A share price is a fraction and implementations round it, down or up, with or without an offset of
virtual shares. All of that comes to a single inequality for each trade: `Buys` and `Sells` say
that the amounts are no better for the trader than the rate of the pool. An implementation proves
this about its rounding once, and the rest is the order of the rates.

Amounts are of any linearly ordered commutative semiring, so that an implementation may count in
natural numbers.

## The preorder

`p ≤ q` is `p.assets * q.shares ≤ q.assets * p.shares`. It is a preorder and not an order: pools of
different sizes have the same rate. Transitivity is where it is needed that shares are positive in
every pool, which is why this is a field of `Pool`.

## Rounding losses

`Outweighs` is a comparison and not a trade: the shares are worth more than the assets. One share
more than a rounded purchase gave would have been worth more than was paid, and from that follows
both what a buyer can lose, and what someone who wants him to lose has to leave in the pool.

## Main definitions

* `Pool` — assets and shares, with the preorder of the rate
* `Pool.Buys`, `Pool.Sells` — trades that are not better than the rate
* `Pool.Outweighs` — shares that are worth more than some assets

## Main results

* `Pool.le_of_buys`, `Pool.le_of_sells` — such trades do not lower the rate
* `Pool.Sells.lt_assets` — no trade takes all assets
* `Pool.Buys.sells_assets_le`, `Pool.Buys.le_sells_shares` — nothing is gained by a trade and its
  reverse
* `Pool.Outweighs.lt_assets`, `Pool.Outweighs.cost` — what a purchase that was rounded down loses,
  and what it costs the others
-/

/-- Assets held against shares, of which there are some. -/
structure Pool (α : Type*) [Zero α] [LT α] where
  assets : α
  shares : α
  shares_pos : 0 < shares

namespace Pool

variable {α : Type*} [CommSemiring α] [LinearOrder α] [IsStrictOrderedRing α]
variable {p q : Pool α} {a a' s s' : α}

/-- Pools in the order of the assets behind one share. -/
instance : Preorder (Pool α) where
  le p q := p.assets * q.shares ≤ q.assets * p.shares
  le_refl _ := le_rfl
  le_trans p q r hpq hqr := by
    refine le_of_mul_le_mul_right ?_ q.shares_pos
    calc p.assets * r.shares * q.shares = p.assets * q.shares * r.shares := by ring
      _ ≤ q.assets * p.shares * r.shares := mul_le_mul_of_nonneg_right hpq r.shares_pos.le
      _ = q.assets * r.shares * p.shares := by ring
      _ ≤ r.assets * q.shares * p.shares := mul_le_mul_of_nonneg_right hqr p.shares_pos.le
      _ = r.assets * p.shares * q.shares := by ring

theorem le_def : p ≤ q ↔ p.assets * q.shares ≤ q.assets * p.shares := Iff.rfl

/-- Assets that come in without shares going out raise the rate. -/
theorem le_of_assets_le (ha : p.assets ≤ q.assets) (hs : q.shares = p.shares) : p ≤ q := by
  rw [le_def, hs]
  exact mul_le_mul_of_nonneg_right ha p.shares_pos.le

/-- The `s` shares bought for `a` assets are not more than the rate gives. -/
def Buys (p : Pool α) (a s : α) : Prop := s * p.assets ≤ a * p.shares

/-- The `a` assets that `s` shares are sold for are not more than the rate gives. -/
def Sells (p : Pool α) (s a : α) : Prop := a * p.shares ≤ s * p.assets

/-- **Buying at the rate or above does not lower it.** -/
theorem le_of_buys (h : p.Buys a s) (ha : q.assets = p.assets + a)
    (hs : q.shares = p.shares + s) : p ≤ q := by
  rw [Buys, mul_comm s] at h
  rw [le_def, ha, hs, mul_add, add_mul]
  exact add_le_add_right h _

/-- **Selling at the rate or below does not lower it.** Of the assets sold, some may have stayed in
the pool. -/
theorem le_of_sells (h : p.Sells s a) (ha : p.assets ≤ q.assets + a)
    (hs : q.shares + s = p.shares) : p ≤ q := by
  rw [Sells] at h
  rw [le_def]
  refine le_of_add_le_add_right (a := s * p.assets) ?_
  calc p.assets * q.shares + s * p.assets = p.assets * p.shares := by rw [← hs]; ring
    _ ≤ (q.assets + a) * p.shares := mul_le_mul_of_nonneg_right ha p.shares_pos.le
    _ = q.assets * p.shares + a * p.shares := add_mul ..
    _ ≤ q.assets * p.shares + s * p.assets := add_le_add_right h _

/-- **Shares that are not all shares** are sold for less than all assets. -/
theorem Sells.lt_assets (h : p.Sells s a) (ha : 0 < p.assets) (hs : s < p.shares) :
    a < p.assets := by
  refine lt_of_mul_lt_mul_right ?_ p.shares_pos.le
  calc a * p.shares ≤ s * p.assets := h
    _ < p.shares * p.assets := mul_lt_mul_of_pos_right hs ha
    _ = p.assets * p.shares := mul_comm ..

/-- Fewer assets can be sold for as many shares. -/
theorem Sells.mono (h : p.Sells s a) (ha : a' ≤ a) : p.Sells s a' :=
  (mul_le_mul_of_nonneg_right ha p.shares_pos.le).trans h

section RoundTrip

variable (ha : q.assets ≤ p.assets + a) (hs : q.shares = p.shares + s)
include ha hs

/-- What `s'` shares bring in the pool after a purchase. -/
theorem sells_le (hs' : 0 ≤ s') (hsell : q.Sells s' a') :
    a' * (p.shares + s) ≤ s' * (p.assets + a) := by
  rw [Sells, hs] at hsell
  exact hsell.trans (mul_le_mul_of_nonneg_left ha hs')

variable (hbuy : p.Buys a s)
include hbuy

/-- Selling the shares just bought brings at most what was paid for them. -/
theorem Buys.sells_assets_le (hs₀ : 0 ≤ s) (hsell : q.Sells s a') : a' ≤ a := by
  refine le_of_mul_le_mul_right ?_ (add_pos_of_pos_of_nonneg p.shares_pos hs₀)
  calc a' * (p.shares + s) ≤ s * (p.assets + a) := sells_le ha hs hs₀ hsell
    _ = s * p.assets + s * a := mul_add ..
    _ ≤ a * p.shares + s * a := add_le_add_left hbuy _
    _ = a * (p.shares + s) := by ring

/-- Getting back what was paid takes at least the shares that were bought. -/
theorem Buys.le_sells_shares (hs' : 0 ≤ s') (hpos : 0 < p.assets + a) (hsell : q.Sells s' a) :
    s ≤ s' := by
  refine le_of_mul_le_mul_right ?_ hpos
  calc s * (p.assets + a) = s * p.assets + s * a := mul_add ..
    _ ≤ a * p.shares + s * a := add_le_add_left hbuy _
    _ = a * (p.shares + s) := by ring
    _ ≤ s' * (p.assets + a) := sells_le ha hs hs' hsell

end RoundTrip

/-! ### Purchases that are rounded

A buyer gets whole shares, and what he has paid for and not got stays in the pool. -/

/-- At a higher rate shares can be sold for as much. -/
theorem Sells.of_le (hpq : p ≤ q) (hs : 0 ≤ s) (h : p.Sells s a) : q.Sells s a := by
  refine le_of_mul_le_mul_right ?_ p.shares_pos
  calc a * q.shares * p.shares = a * p.shares * q.shares := by ring
    _ ≤ s * p.assets * q.shares := mul_le_mul_of_nonneg_right h q.shares_pos.le
    _ = s * (p.assets * q.shares) := by ring
    _ ≤ s * (q.assets * p.shares) := mul_le_mul_of_nonneg_left hpq hs
    _ = s * q.assets * p.shares := by ring

/-- The `s` shares are worth more than the `a` assets. -/
def Outweighs (p : Pool α) (s a : α) : Prop := a * p.shares < s * p.assets

theorem Outweighs.of_le (hpq : p ≤ q) (hs : 0 ≤ s) (h : p.Outweighs s a) : q.Outweighs s a := by
  refine lt_of_mul_lt_mul_right ?_ p.shares_pos.le
  calc a * q.shares * p.shares = a * p.shares * q.shares := by ring
    _ < s * p.assets * q.shares := mul_lt_mul_of_pos_right h q.shares_pos
    _ = s * (p.assets * q.shares) := by ring
    _ ≤ s * (q.assets * p.shares) := mul_le_mul_of_nonneg_left hpq hs
    _ = s * q.assets * p.shares := by ring

/-- One share more than was bought is worth more than was paid, before and after. -/
theorem Outweighs.of_buys (h : p.Outweighs (s + 1) a) (ha₀ : 0 ≤ a) (ha : q.assets = p.assets + a)
    (hs : q.shares = p.shares + s) : q.Outweighs (s + 1) a := by
  rw [Outweighs, ha, hs]
  calc a * (p.shares + s) = a * p.shares + a * s := mul_add ..
    _ < (s + 1) * p.assets + a * s := add_lt_add_left h _
    _ ≤ (s + 1) * p.assets + (a * s + a) := by
        gcongr
        exact le_add_of_nonneg_right ha₀
    _ = (s + 1) * (p.assets + a) := by ring

/-- What some of the shares outweigh is in the pool. -/
theorem Outweighs.lt_assets (h : p.Outweighs s a) (ha : 0 ≤ p.assets) (hs : s ≤ p.shares) :
    a < p.assets := by
  refine lt_of_mul_lt_mul_right ?_ p.shares_pos.le
  calc a * p.shares < s * p.assets := h
    _ ≤ p.shares * p.assets := mul_le_mul_of_nonneg_right hs ha
    _ = p.assets * p.shares := mul_comm ..

end Pool

/-- **What is lost by rounding costs the others more.** If `s + 1` shares outweigh `a` assets and
the pool counts `v` shares beside the `s`, then `v - 1` times what `a` exceeds the worth of the `s`
shares by is less than what is in the pool beside `a`. -/
theorem Pool.Outweighs.cost {p : Pool ℕ} {s a v : ℕ} (h : p.Outweighs (s + 1) a) (hv : 0 < v)
    (hs : s + v ≤ p.shares) :
    ((v : ℤ) - 1) * (a * p.shares - s * p.assets) < (p.assets - a) * p.shares := by
  obtain ⟨n, hn⟩ := Nat.exists_eq_add_of_le hs
  have hmul : (v : ℤ) * (a * p.shares) < v * ((s + 1) * p.assets) := by
    exact_mod_cast Nat.mul_lt_mul_of_pos_left h hv
  have hrest : (0 : ℤ) ≤ n * p.assets := by positivity
  have hshares : (p.shares : ℤ) = s + v + n := by exact_mod_cast hn
  rw [hshares] at hmul ⊢
  linarith
