/-
  One counter that several clients draw from.

  The clients draw in the order of a list, one number each time. The numbers of one client
  are successive modulo `m` exactly when it always comes back after a multiple of `m` draws
  of others (`isChain_draws_iff`).
-/
import Mathlib.Data.List.Chain
import Mathlib.Data.Nat.ModEq

namespace Bifrost.SharedCounter

variable {α : Type}

/-- Between two draws of a client with none of its own between them, the others draw a
    multiple of `m` times. -/
def Returns (m : Nat) (as : List α) : Prop :=
  ∀ pre k mid post, as = pre ++ k :: (mid ++ k :: post) → k ∉ mid → m ∣ mid.length

theorem Returns.tail {m : Nat} {a : α} {as : List α} (h : Returns m (a :: as)) : Returns m as :=
  fun pre k mid post heq => h (a :: pre) k mid post (by rw [heq, List.cons_append])

variable [DecidableEq α]

/-- The numbers that `k` draws, the counter at `n`. -/
def draws (k : α) : Nat → List α → List Nat
  | _, [] => []
  | n, a :: as => if a = k then n :: draws k (n + 1) as else draws k (n + 1) as

theorem draws_append (k : α) (as bs : List α) : ∀ n,
    draws k n (as ++ bs) = draws k n as ++ draws k (n + as.length) bs := by
  induction as with
  | nil => exact fun n => rfl
  | cons a as ih =>
      intro n
      rw [List.cons_append, draws, draws, ih, List.length_cons,
        show n + 1 + as.length = n + (as.length + 1) by omega]
      split <;> rfl

theorem draws_of_notMem {k : α} {as : List α} (h : k ∉ as) : ∀ n, draws k n as = [] := by
  induction as with
  | nil => exact fun n => rfl
  | cons a as ih =>
      intro n
      obtain ⟨hne, hrest⟩ := List.ne_and_not_mem_of_not_mem_cons h
      rw [draws, if_neg hne.symm, ih hrest]

/-- The first draw after the others in `mid`. -/
theorem draws_first {k : α} {mid : List α} (h : k ∉ mid) (post : List α) (n : Nat) :
    draws k n (mid ++ k :: post) =
      (n + mid.length) :: draws k (n + mid.length + 1) post := by
  rw [draws_append, draws_of_notMem h, List.nil_append, draws, if_pos rfl]

theorem isChain_draws {m : Nat} (k : α) {as : List α} (h : Returns m as) : ∀ n,
    (draws k n as).IsChain fun i j => j ≡ i + 1 [MOD m] := by
  induction as with
  | nil => exact fun n => List.isChain_nil
  | cons a as ih =>
      intro n
      rw [draws]
      split
      · next heq =>
          subst heq
          refine List.isChain_cons.mpr ⟨fun j hj => ?_, ih h.tail _⟩
          by_cases hmem : a ∈ as
          · obtain ⟨mid, post, heq, hmid⟩ := List.eq_append_cons_of_mem hmem
            rw [heq, draws_first hmid] at hj
            cases hj
            have hdvd := h [] a mid post (by rw [heq, List.nil_append]) hmid
            exact (Nat.modEq_zero_iff_dvd.mpr hdvd).add_left (n + 1)
          · rw [draws_of_notMem hmem] at hj
            cases hj
      · exact ih h.tail _

/-- **Each client's numbers are successive** exactly when the others draw a multiple of `m`
    times before it comes back. -/
theorem isChain_draws_iff (m : Nat) (as : List α) (n : Nat) :
    (∀ k, (draws k n as).IsChain fun i j => j ≡ i + 1 [MOD m]) ↔ Returns m as := by
  refine ⟨fun hall pre k mid post heq hmid => ?_, fun h k => isChain_draws k h n⟩
  have hchain := hall k
  rw [heq, draws_append, draws, if_pos rfl, draws_first hmid] at hchain
  have htail := (List.isChain_append.mp hchain).2.1
  have hstep := (List.isChain_cons.mp htail).1 _ rfl
  rw [← Nat.modEq_zero_iff_dvd]
  exact Nat.ModEq.add_left_cancel' (n + pre.length + 1) hstep

end Bifrost.SharedCounter
