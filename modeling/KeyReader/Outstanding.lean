import Mathlib.Data.List.Basic
import Mathlib.Tactic.Tauto

/-! Numbered calls that are answered in order.  A call stays outstanding until it is answered, is
replaced by a later one of its key, or is cut off by a call that cancels what was before it. -/

namespace KeyReader.Outstanding

open List

variable {α κ : Type} (key : α → Option κ) (cuts : α → Bool)

/-- The call with a number may be replaced. -/
def Keyed (calls : List α) (n : Nat) : Prop := ∃ call, calls[n]? = some call ∧ (key call).isSome

def Replaced (calls : List α) (n : Nat) : Prop :=
  ∃ later call replacing, n < later ∧ calls[n]? = some call ∧ calls[later]? = some replacing ∧
    (key call).isSome ∧ key replacing = key call ∧ ∀ k, n < k → k < later → Keyed key calls k

/-- A call was cut off by a later one, or by itself. -/
def Cut (calls : List α) (n : Nat) : Prop := ∃ k call, n ≤ k ∧ calls[k]? = some call ∧ cuts call = true

/-- The calls are accounted for: those that are outstanding or answered, in order, and for each other
call the reason why it is neither. -/
structure Accounts (calls : List α) (live answered : List Nat) : Prop where
  sorted : (answered ++ live).Pairwise (· < ·)
  below : ∀ n ∈ answered ++ live, n < calls.length
  between : ∀ n ∈ live, ∀ k, n < k → k < calls.length →
    k ∈ live ∨ Keyed key calls k ∨ Cut cuts calls n
  accounted : ∀ n < calls.length, n ∈ live ∨ n ∈ answered ∨ Replaced key calls n ∨ Cut cuts calls n

variable {key cuts} {calls : List α} {live answered : List Nat}

theorem getElem?_append_of_some {n : Nat} {call : α} (h : calls[n]? = some call) (more : List α) :
    (calls ++ more)[n]? = some call := by
  rw [List.getElem?_append_left (List.getElem?_eq_some_iff.mp h).1, h]

theorem Keyed.append {n : Nat} (h : Keyed key calls n) (more : List α) :
    Keyed key (calls ++ more) n := by
  obtain ⟨call, hcall, hkey⟩ := h
  exact ⟨call, getElem?_append_of_some hcall more, hkey⟩

theorem Cut.append {n : Nat} (h : Cut cuts calls n) (more : List α) : Cut cuts (calls ++ more) n := by
  obtain ⟨k, call, hle, hcall, hcuts⟩ := h
  exact ⟨k, call, hle, getElem?_append_of_some hcall more, hcuts⟩

theorem Cut.anti {n m : Nat} (h : Cut cuts calls m) (hle : n ≤ m) : Cut cuts calls n := by
  obtain ⟨k, call, hk, hcall, hcuts⟩ := h
  exact ⟨k, call, Nat.le_trans hle hk, hcall, hcuts⟩

theorem Replaced.append {n : Nat} (h : Replaced key calls n) (more : List α) :
    Replaced key (calls ++ more) n := by
  obtain ⟨later, call, replacing, hlt, hcall, hreplacing, hkey, hsame, hbetween⟩ := h
  exact ⟨later, call, replacing, hlt, getElem?_append_of_some hcall more,
    getElem?_append_of_some hreplacing more, hkey, hsame, fun k hk hlater => (hbetween k hk hlater).append more⟩

theorem Accounts.new : Accounts key cuts [] [] [] where
  sorted := .nil
  below := nofun
  between := nofun
  accounted := fun _ h => absurd h (Nat.not_lt_zero _)

theorem Accounts.accept (h : Accounts key cuts calls live answered) (call : α) :
    Accounts key cuts (calls ++ [call]) (live ++ [calls.length]) answered := by
  constructor
  · rw [← append_assoc, pairwise_append]
    refine ⟨h.sorted, pairwise_singleton _ _, fun n hn m hm => ?_⟩
    rw [mem_singleton.mp hm]
    exact h.below n hn
  · intro n hn
    rw [length_append, length_singleton]
    rw [← append_assoc] at hn
    rcases mem_append.mp hn with hn | hn
    · exact Nat.lt_succ_of_lt (h.below n hn)
    · rw [mem_singleton.mp hn]
      exact Nat.lt_succ_self _
  · intro n hn k hnk hk
    rw [length_append, length_singleton] at hk
    by_cases hlast : k = calls.length
    · exact .inl (mem_append_right _ (mem_singleton.mpr hlast))
    · rcases mem_append.mp hn with hn | hn
      · rcases h.between n hn k hnk (by omega) with hlive | hkeyed | hcut
        · exact .inl (mem_append_left _ hlive)
        · exact .inr (.inl (hkeyed.append _))
        · exact .inr (.inr (hcut.append _))
      · rw [mem_singleton.mp hn] at hnk
        omega
  · intro n hn
    rw [length_append, length_singleton] at hn
    by_cases hlast : n = calls.length
    · exact .inl (mem_append_right _ (mem_singleton.mpr hlast))
    · rcases h.accounted n (by omega) with hlive | hanswered | hreplaced | hcut
      · exact .inl (mem_append_left _ hlive)
      · exact .inr (.inl hanswered)
      · exact .inr (.inr (.inl (hreplaced.append _)))
      · exact .inr (.inr (.inr (hcut.append _)))

theorem Accounts.forget (h : Accounts key cuts calls live answered) {kept : List Nat}
    (hkept : List.Sublist kept live) (hcut : ∀ n ∈ live, n ∉ kept → Cut cuts calls n) :
    Accounts key cuts calls kept answered where
  sorted := h.sorted.sublist (hkept.append_left answered)
  below := fun n hn => h.below n ((hkept.append_left answered).subset hn)
  between := fun n hn k hnk hk => by
    rcases h.between n (hkept.subset hn) k hnk hk with hlive | hrest
    · by_cases hmem : k ∈ kept
      · exact .inl hmem
      · exact .inr (.inr ((hcut k hlive hmem).anti (Nat.le_of_lt hnk)))
    · exact .inr hrest
  accounted := fun n hn => by
    rcases h.accounted n hn with hlive | hrest
    · by_cases hmem : n ∈ kept
      · exact .inl hmem
      · exact .inr (.inr (.inr (hcut n hlive hmem)))
    · exact .inr hrest

theorem Accounts.answer {n : Nat} (h : Accounts key cuts calls (n :: live) answered) :
    Accounts key cuts calls live (answered ++ [n]) := by
  have hline : answered ++ [n] ++ live = answered ++ n :: live := by simp
  have hfirst : ∀ m ∈ live, n < m := by
    have hsorted := (pairwise_append.mp h.sorted).2.1
    exact (pairwise_cons.mp hsorted).1
  constructor
  · rw [hline]
    exact h.sorted
  · rw [hline]
    exact h.below
  · intro m hm k hmk hk
    rcases h.between m (mem_cons_of_mem _ hm) k hmk hk with hlive | hrest
    · rcases mem_cons.mp hlive with rfl | hlive
      · exact absurd (hfirst m hm) (Nat.lt_asymm hmk)
      · exact .inl hlive
    · exact .inr hrest
  · intro m hm
    rcases h.accounted m hm with hlive | hanswered | hrest
    · rcases mem_cons.mp hlive with rfl | hlive
      · exact .inr (.inl mem_concat_self)
      · exact .inl hlive
    · exact .inr (.inl (mem_append_left _ hanswered))
    · exact .inr (.inr hrest)

/-- A later outstanding call replaces one, if all those between them may be replaced. -/
theorem Accounts.replace {before after rest : List Nat} {n later : Nat} {call replacing : α}
    (h : Accounts key cuts calls (before ++ n :: after ++ later :: rest) answered)
    (hcall : calls[n]? = some call) (hreplacing : calls[later]? = some replacing)
    (hkey : (key call).isSome) (hsame : key replacing = key call)
    (hafter : ∀ k ∈ after, Keyed key calls k) :
    Accounts key cuts calls (before ++ after ++ later :: rest) answered := by
  have hsub : List.Sublist (before ++ after ++ later :: rest)
      (before ++ n :: after ++ later :: rest) :=
    ((List.Sublist.refl before).append (sublist_cons_self n after)).append (List.Sublist.refl _)
  have hmem {k : Nat} (hk : k ∈ before ++ n :: after ++ later :: rest) (hne : k ≠ n) :
      k ∈ before ++ after ++ later :: rest := by
    simp only [mem_append, mem_cons] at hk ⊢
    tauto
  have hline := (pairwise_append.mp h.sorted).2.1
  have hin : n ∈ before ++ n :: after ++ later :: rest := by simp
  have hlt : n < later := by
    have hcons := (pairwise_append.mp hline).2.2
    exact hcons n (by simp) later mem_cons_self
  have hreplaced : Replaced key calls n ∨ Cut cuts calls n := by
    by_cases hcut : Cut cuts calls n
    · exact .inr hcut
    · refine .inl ⟨later, call, replacing, hlt, hcall, hreplacing, hkey, hsame, fun k hnk hk => ?_⟩
      have hlength := h.below later (mem_append_right _ (by simp))
      rcases h.between n hin k hnk (by omega) with hlive | hkeyed | hcut'
      · rcases mem_append.mp hlive with hlive | hlive
        · rcases mem_append.mp hlive with hlive | hlive
          · have hearlier := (pairwise_append.mp (pairwise_append.mp hline).1).2.2 k hlive n
              mem_cons_self
            omega
          · rcases mem_cons.mp hlive with rfl | hlive
            · exact absurd hnk (Nat.lt_irrefl _)
            · exact hafter k hlive
        · rcases mem_cons.mp hlive with rfl | hlive
          · exact absurd hk (Nat.lt_irrefl _)
          · have hafterwards := (pairwise_cons.mp (pairwise_append.mp hline).2.1).1 k hlive
            omega
      · exact hkeyed
      · exact absurd hcut' hcut
  constructor
  · exact h.sorted.sublist (hsub.append_left answered)
  · exact fun m hm => h.below m ((hsub.append_left answered).subset hm)
  · intro m hm k hmk hk
    rcases h.between m (hsub.subset hm) k hmk hk with hlive | hrest
    · by_cases hk : k = n
      · subst hk
        exact .inr (.inl ⟨call, hcall, hkey⟩)
      · exact .inl (hmem hlive hk)
    · exact .inr hrest
  · intro m hm
    rcases h.accounted m hm with hlive | hrest
    · by_cases hm : m = n
      · subst hm
        exact .inr (.inr hreplaced)
      · exact .inl (hmem hlive hm)
    · exact .inr hrest

theorem Accounts.answered_sorted (h : Accounts key cuts calls live answered) :
    answered.Pairwise (· < ·) := (pairwise_append.mp h.sorted).1

end KeyReader.Outstanding
