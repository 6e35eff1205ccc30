import ContractsStylus.Library.Runs
import Mathlib.Data.List.Nodup

/-!
# Logs and tickets

What the successful operations of a run leave in a log. An object may number the entries of its
log: there is a counter for each key, and an entry takes the next ticket of its key. Then the
tickets of a key are consecutive in every run, and no two entries have the same key and ticket.

## A log is not a part of the state

`Machine.log` is computed from a run: each operation that succeeds contributes what it enters, as a
function of the operation and the state that it was started in. An object need not keep a log, and
what it enters may be more than it stores, such as who was the author of an entry. So that no entry
is ever made twice is a statement about what happened, whatever is left of it.

## One counter for each key

`Draws` is a statement about one operation: it enters at most one entry, with the ticket that the
counter of its key shows, and moves this counter by one and no other. That an operation of somebody
else might move the counter is excluded by the same clause.

## Main definitions

* `Machine.log` — the log of a run
* `Machine.Draws` — every entry takes the next ticket of its key

## Main results

* `Machine.Draws.tickets_eq` — the tickets of a key are consecutive
* `Machine.Draws.nodup_map` — no two entries are alike
-/

namespace Machine

variable {σ ι ε β γ κ : Type*}

/-- What the successful operations of a run enter in a log. -/
def log (M : Machine σ ι ε) (entry : σ → ι → List β) : σ → List ι → List β
  | _, [] => []
  | s, i :: is =>
    (match M.exec s i with
      | .ok _ => entry s i
      | .error _ => []) ++ log M entry (M.step s i) is

variable {M : Machine σ ι ε} {entry : σ → ι → List β} {s s' : σ} {i : ι} {is : List ι}

theorem log_cons_of_ok (h : M.exec s i = .ok s') :
    M.log entry s (i :: is) = entry s i ++ M.log entry s' is := by
  rw [log, h, step_of_ok h]

theorem log_cons_of_error {e : ε} (h : M.exec s i = .error e) :
    M.log entry s (i :: is) = M.log entry s is := by
  rw [log, h, step_of_error h, List.nil_append]

variable [DecidableEq κ] {key : β → κ} {ticket : β → ℕ} {counter : σ → κ → ℕ} {b : β} {k : κ}

/-- Every entry takes the next ticket of its key, and nothing else moves the counters. -/
def Draws (M : Machine σ ι ε) (entry : σ → ι → List β) (key : β → κ) (ticket : β → ℕ)
    (counter : σ → κ → ℕ) : Prop :=
  ∀ s i s', M.exec s i = .ok s' →
    (entry s i = [] ∧ counter s' = counter s) ∨
      ∃ b, entry s i = [b] ∧ ticket b = counter s (key b) ∧
        counter s' = Function.update (counter s) (key b) (counter s (key b) + 1)

namespace Draws

/-- The entries of a key in a log. -/
abbrev entries (key : β → κ) (k : κ) (l : List β) : List β := l.filter fun b => key b = k

theorem entries_cons_self (b : β) (l : List β) :
    entries key (key b) (b :: l) = b :: entries key (key b) l :=
  List.filter_cons_of_pos (decide_eq_true rfl)

theorem entries_cons_of_ne {l : List β} (h : key b ≠ k) :
    entries key k (b :: l) = entries key k l :=
  List.filter_cons_of_neg (by rw [decide_eq_true_eq]; exact h)

/-- **The tickets of a key are consecutive**, from where its counter was. -/
theorem tickets_eq (h : M.Draws entry key ticket counter) (k : κ) (is : List ι) : ∀ s : σ,
    (entries key k (M.log entry s is)).map ticket =
      List.range' (counter s k) (entries key k (M.log entry s is)).length := by
  induction is with
  | nil => exact fun s => rfl
  | cons i is ih =>
    intro s
    cases hexec : M.exec s i with
    | error e =>
      rw [log_cons_of_error hexec]
      exact ih s
    | ok s' =>
      rw [log_cons_of_ok hexec]
      rcases h s i s' hexec with ⟨hnone, hcounter⟩ | ⟨b, hone, hticket, hcounter⟩
      · rw [hnone, List.nil_append, ih s', hcounter]
      · have hrest := ih s'
        rw [hcounter] at hrest
        rw [hone, List.singleton_append]
        by_cases hk : key b = k
        · subst hk
          rw [Function.update_self] at hrest
          rw [entries_cons_self, List.map_cons, List.length_cons, List.range'_succ, hticket, hrest]
        · rw [Function.update_of_ne (Ne.symm hk)] at hrest
          rw [entries_cons_of_ne hk]
          exact hrest

/-- Tickets are taken from the counters on. -/
theorem counter_le (h : M.Draws entry key ticket counter) (hb : b ∈ M.log entry s is) :
    counter s (key b) ≤ ticket b := by
  have hmem : ticket b ∈ (entries key (key b) (M.log entry s is)).map ticket :=
    List.mem_map_of_mem (List.mem_filter.mpr ⟨hb, decide_eq_true rfl⟩)
  rw [h.tickets_eq] at hmem
  exact (List.mem_range'_1.mp hmem).1

/-- **No two entries are alike** in anything that tells key and ticket. -/
theorem nodup_map (h : M.Draws entry key ticket counter) {g : β → γ} (is : List ι) :
    ∀ s : σ, (∀ b ∈ M.log entry s is, ∀ b' ∈ M.log entry s is, g b = g b' →
      key b = key b' ∧ ticket b = ticket b') → ((M.log entry s is).map g).Nodup := by
  induction is with
  | nil => exact fun s _ => List.nodup_nil
  | cons i is ih =>
    intro s hg
    cases hexec : M.exec s i with
    | error e =>
      rw [log_cons_of_error hexec] at hg ⊢
      exact ih s hg
    | ok s' =>
      rw [log_cons_of_ok hexec] at hg ⊢
      rcases h s i s' hexec with ⟨hnone, -⟩ | ⟨b, hone, hticket, hcounter⟩
      · rw [hnone, List.nil_append] at hg ⊢
        exact ih s' hg
      · rw [hone, List.singleton_append] at hg ⊢
        refine List.nodup_cons.mpr ⟨fun hmem => ?_, ih s' fun b₁ hb₁ b₂ hb₂ =>
          hg b₁ (List.mem_cons_of_mem _ hb₁) b₂ (List.mem_cons_of_mem _ hb₂)⟩
        -- a later entry of the same key has a later ticket
        obtain ⟨b', hb', heq⟩ := List.mem_map.mp hmem
        obtain ⟨hkey, hsame⟩ := hg b' (List.mem_cons_of_mem _ hb') b (List.mem_cons_self ..) heq
        have hle := h.counter_le hb'
        rw [hkey, hcounter, Function.update_self] at hle
        omega

end Draws

end Machine
