import Mathlib.Algebra.Order.Ring.Nat
import Mathlib.Data.List.Basic

/-! Encodings whose end can be told from their beginning: what follows the bytes of a value does not
change the value, so that values written one after the other can be told apart. -/

namespace KeyReader.Framing

open List

variable {α β : Type}

/-- Whatever follows the bytes of a value that `valid` takes, the bytes belong to no other one. -/
def Prefixed (valid : α → Prop) (encode : α → List UInt8) : Prop :=
  ∀ ⦃a b⦄, valid a → valid b → ∀ ⦃rest more⦄, encode a ++ rest = encode b ++ more →
    a = b ∧ rest = more

theorem Prefixed.of_length {valid : α → Prop} {encode : α → List UInt8}
    (hlength : ∀ ⦃a b⦄, valid a → valid b → (encode a).length = (encode b).length)
    (hinj : ∀ ⦃a b⦄, valid a → valid b → encode a = encode b → a = b) :
    Prefixed valid encode := by
  intro a b ha hb rest more h
  obtain ⟨hencode, hrest⟩ := append_inj h (hlength ha hb)
  exact ⟨hinj ha hb hencode, hrest⟩

theorem Prefixed.flatMap_inj {valid : α → Prop} {encode : α → List UInt8}
    (h : Prefixed valid encode) (hne : ∀ a, encode a ≠ []) {as bs : List α}
    (has : ∀ a ∈ as, valid a) (hbs : ∀ b ∈ bs, valid b)
    (heq : as.flatMap encode = bs.flatMap encode) : as = bs := by
  induction as generalizing bs with
  | nil =>
    cases bs with
    | nil => rfl
    | cons b bs =>
      rw [flatMap_nil, flatMap_cons] at heq
      exact absurd (append_eq_nil_iff.mp heq.symm).1 (hne b)
  | cons a as ih =>
    cases bs with
    | nil =>
      rw [flatMap_nil, flatMap_cons] at heq
      exact absurd (append_eq_nil_iff.mp heq).1 (hne a)
    | cons b bs =>
      rw [flatMap_cons, flatMap_cons] at heq
      obtain ⟨hhead, htail⟩ := h (has a mem_cons_self) (hbs b mem_cons_self) heq
      rw [hhead, ih (forall_mem_cons.mp has).2 (forall_mem_cons.mp hbs).2 htail]

/-- The last `width` bytes of a number, the highest first. -/
def bigEndian : Nat → Nat → List UInt8
  | 0, _ => []
  | width + 1, n => bigEndian width (n / 256) ++ [UInt8.ofNat n]

@[simp] theorem length_bigEndian (width n : Nat) : (bigEndian width n).length = width := by
  induction width generalizing n with
  | zero => rfl
  | succ width ih => rw [bigEndian, length_append, ih, length_singleton]

theorem bigEndian_inj {width n m : Nat} (hn : n < 256 ^ width) (hm : m < 256 ^ width)
    (h : bigEndian width n = bigEndian width m) : n = m := by
  induction width generalizing n m with
  | zero => omega
  | succ width ih =>
    rw [bigEndian, bigEndian] at h
    obtain ⟨hhigh, hlow⟩ := append_inj h (by simp)
    have hlow : n % 256 = m % 256 := by
      have hbyte := congrArg UInt8.toNat (singleton_inj.mp hlow)
      rwa [UInt8.toNat_ofNat', UInt8.toNat_ofNat'] at hbyte
    rw [Nat.pow_succ] at hn hm
    have hhigh := ih (Nat.div_lt_of_lt_mul (by omega)) (Nat.div_lt_of_lt_mul (by omega)) hhigh
    omega

theorem prefixed_bigEndian (width : Nat) : Prefixed (· < 256 ^ width) (bigEndian width) :=
  .of_length (fun _ _ _ _ => by rw [length_bigEndian, length_bigEndian])
    fun _ _ ha hb h => bigEndian_inj ha hb h

/-- A byte string after its length. -/
def framed (width : Nat) (bytes : List UInt8) : List UInt8 :=
  bigEndian width bytes.length ++ bytes

theorem framed_ne_nil {width : Nat} (h : width ≠ 0) (bytes : List UInt8) :
    framed width bytes ≠ [] := by
  intro heq
  have hlength := congrArg List.length (append_eq_nil_iff.mp heq).1
  rw [length_bigEndian] at hlength
  exact h hlength

theorem prefixed_framed (width : Nat) :
    Prefixed (fun bytes => bytes.length < 256 ^ width) (framed width) := by
  intro a b ha hb rest more h
  rw [framed, framed, append_assoc, append_assoc] at h
  obtain ⟨hlength, h⟩ := prefixed_bigEndian width ha hb h
  exact append_inj h hlength

end KeyReader.Framing
