import Mathlib.Data.Nat.Bitwise
import Mathlib.Logic.Function.Basic
import Mathlib.Tactic.IntervalCases

namespace GiantGecko.Foundation.Bytes

@[ext] structure Memory where
  byte : ℕ → UInt8

def add32 (a b : ℕ) : ℕ := (a + b) % 2 ^ 32

def sub32 (a b : ℕ) : ℕ := (a + 2 ^ 32 - b % 2 ^ 32) % 2 ^ 32

theorem add32_of_lt {a b : ℕ} (h : a + b < 2 ^ 32) : add32 a b = a + b :=
  Nat.mod_eq_of_lt h

theorem sub32_of_le {a b : ℕ} (hb : b ≤ a) (ha : a < 2 ^ 32) : sub32 a b = a - b := by
  simp only [sub32]
  omega

/-- A mask that rounds down to a multiple of a power of two. -/
theorem and_mask {x k : ℕ} (hx : x < 2 ^ 32) (hk : k ≤ 32) :
    x &&& (2 ^ 32 - 2 ^ k) = x / 2 ^ k * 2 ^ k := by
  have hmask : (2 ^ 32 - 2 ^ k : ℕ) = (2 ^ (32 - k) - 1) <<< k := by
    rw [Nat.shiftLeft_eq, Nat.sub_mul, ← Nat.pow_add, Nat.sub_add_cancel hk, Nat.one_mul]
  have hdiv : x / 2 ^ k * 2 ^ k = (x >>> k) <<< k := by
    rw [Nat.shiftRight_eq_div_pow, Nat.shiftLeft_eq]
  refine Nat.eq_of_testBit_eq ?_
  intro i
  rw [hmask, hdiv, Nat.testBit_and, Nat.testBit_shiftLeft, Nat.testBit_shiftLeft,
    Nat.testBit_two_pow_sub_one, Nat.testBit_shiftRight]
  obtain hi | hi := Nat.lt_or_ge i k
  · simp [hi.not_ge]
  · rw [Nat.add_sub_cancel' hi]
    obtain hi' | hi' := Nat.lt_or_ge i 32
    · have h : i - k < 32 - k := by omega
      simp [hi, h]
    · have h : x.testBit i = false :=
        Nat.testBit_lt_two_pow (hx.trans_le (Nat.pow_le_pow_right (by norm_num) hi'))
      simp [h]

def Memory.word (m : Memory) (a : ℕ) : ℕ :=
  (m.byte a).toNat + 2 ^ 8 * (m.byte (a + 1)).toNat + 2 ^ 16 * (m.byte (a + 2)).toNat +
    2 ^ 24 * (m.byte (a + 3)).toNat

def Memory.put (m : Memory) (a : ℕ) (x : UInt8) : Memory := ⟨Function.update m.byte a x⟩

def Memory.putWord (m : Memory) (a v : ℕ) : Memory :=
  ⟨fun i ↦ if a ≤ i ∧ i < a + 4 then UInt8.ofNat (v / 2 ^ (8 * (i - a))) else m.byte i⟩

variable {m : Memory} {a b v i n : ℕ}

theorem Memory.word_lt (m : Memory) (a : ℕ) : m.word a < 2 ^ 32 := by
  have h₀ := (m.byte a).toNat_lt
  have h₁ := (m.byte (a + 1)).toNat_lt
  have h₂ := (m.byte (a + 2)).toNat_lt
  have h₃ := (m.byte (a + 3)).toNat_lt
  simp only [Memory.word]
  omega

@[simp] theorem Memory.put_self (x : UInt8) : (m.put a x).byte a = x := Function.update_self ..

theorem Memory.put_of_ne (h : i ≠ a) (x : UInt8) : (m.put a x).byte i = m.byte i :=
  Function.update_of_ne h ..

theorem Memory.putWord_of_outside (h : i < a ∨ a + 4 ≤ i) : (m.putWord a v).byte i = m.byte i :=
  if_neg (by omega)

theorem Memory.putWord_add (hi : i < 4) :
    ((m.putWord a v).byte (a + i)).toNat = v / 2 ^ (8 * i) % 2 ^ 8 := by
  have h : a ≤ a + i ∧ a + i < a + 4 := by omega
  simp [Memory.putWord, h]

@[simp] theorem Memory.word_putWord (hv : v < 2 ^ 32) : (m.putWord a v).word a = v := by
  have h₀ := Memory.putWord_add (m := m) (a := a) (v := v) (i := 0) (by omega)
  have h₁ := Memory.putWord_add (m := m) (a := a) (v := v) (i := 1) (by omega)
  have h₂ := Memory.putWord_add (m := m) (a := a) (v := v) (i := 2) (by omega)
  have h₃ := Memory.putWord_add (m := m) (a := a) (v := v) (i := 3) (by omega)
  rw [Nat.add_zero] at h₀
  simp only [Memory.word, h₀, h₁, h₂, h₃]
  norm_num only
  omega

theorem Memory.word_congr {m' : Memory} (h : ∀ i, a ≤ i → i < a + 4 → m'.byte i = m.byte i) :
    m'.word a = m.word a := by
  simp only [Memory.word, h a (by omega) (by omega), h (a + 1) (by omega) (by omega),
    h (a + 2) (by omega) (by omega), h (a + 3) (by omega) (by omega)]

theorem Memory.word_putWord_of_apart (h : a + 4 ≤ b ∨ b + 4 ≤ a) :
    (m.putWord a v).word b = m.word b := by
  refine Memory.word_congr ?_
  intro i hb hi
  exact Memory.putWord_of_outside (by omega)

theorem Memory.putWord_word {m' : Memory} (hi : i < 4) :
    (m.putWord a (m'.word b)).byte (a + i) = m'.byte (b + i) := by
  have h₀ := (m'.byte b).toNat_lt
  have h₁ := (m'.byte (b + 1)).toNat_lt
  have h₂ := (m'.byte (b + 2)).toNat_lt
  have h₃ := (m'.byte (b + 3)).toNat_lt
  refine UInt8.toNat_inj.mp ?_
  rw [Memory.putWord_add hi, Memory.word]
  interval_cases i
  all_goals
    norm_num only [Nat.add_zero]
    omega

section Copy

def Memory.moved (m : Memory) (dst src n : ℕ) : Memory :=
  ⟨fun i ↦ if dst ≤ i ∧ i < dst + n then m.byte (src + (i - dst)) else m.byte i⟩

def Memory.copyBytes (m : Memory) (dst src : ℕ) : ℕ → Memory
  | 0 => m
  | n + 1 => (m.put dst (m.byte src)).copyBytes (dst + 1) (src + 1) n

def Memory.copyWords (m : Memory) (dst src : ℕ) : ℕ → Memory
  | 0 => m
  | n + 1 => (m.putWord dst (m.word src)).copyWords (dst + 4) (src + 4) n

variable {dst src k : ℕ}

theorem Memory.moved_of_outside (h : i < dst ∨ dst + n ≤ i) : (m.moved dst src n).byte i = m.byte i :=
  if_neg (by omega)

theorem Memory.moved_of_inside (h : dst ≤ i) (hi : i < dst + n) :
    (m.moved dst src n).byte i = m.byte (src + (i - dst)) := if_pos ⟨h, hi⟩

theorem Memory.moved_moved (h : src + (k + n) ≤ dst ∨ dst + (k + n) ≤ src) :
    (m.moved dst src k).moved (dst + k) (src + k) n = m.moved dst src (k + n) := by
  ext i : 2
  obtain hi | hi := lt_or_ge i (dst + k)
  · rw [Memory.moved_of_outside (.inl hi)]
    exact if_congr (by omega) rfl rfl
  · obtain hn | hn := lt_or_ge i (dst + k + n)
    · rw [Memory.moved_of_inside hi hn, Memory.moved_of_outside (by omega),
        Memory.moved_of_inside (by omega) (by omega)]
      exact congrArg m.byte (by omega)
    · rw [Memory.moved_of_outside (.inr hn), Memory.moved_of_outside (by omega),
        Memory.moved_of_outside (by omega)]

theorem Memory.copyBytes_eq (h : src + n ≤ dst ∨ dst + n ≤ src) :
    m.copyBytes dst src n = m.moved dst src n := by
  induction n generalizing m dst src with
  | zero =>
    ext i : 2
    rw [Memory.moved_of_outside (by omega)]
    rfl
  | succ n ih =>
    have hone : m.put dst (m.byte src) = m.moved dst src 1 := by
      ext i : 2
      obtain rfl | hi := eq_or_ne i dst
      · rw [Memory.put_self, Memory.moved_of_inside le_rfl (by omega), Nat.sub_self, Nat.add_zero]
      · rw [Memory.put_of_ne hi, Memory.moved_of_outside (by omega)]
    rw [Memory.copyBytes, ih (m := _) (by omega), hone, Memory.moved_moved (by omega), Nat.add_comm 1]

theorem Memory.copyWords_eq (h : src + 4 * n ≤ dst ∨ dst + 4 * n ≤ src) :
    m.copyWords dst src n = m.moved dst src (4 * n) := by
  induction n generalizing m dst src with
  | zero =>
    ext i : 2
    rw [Memory.moved_of_outside (by omega)]
    rfl
  | succ n ih =>
    have hone : m.putWord dst (m.word src) = m.moved dst src 4 := by
      ext i : 2
      obtain hi | hi := Decidable.em (dst ≤ i ∧ i < dst + 4)
      · obtain ⟨k, rfl⟩ := Nat.exists_eq_add_of_le hi.1
        rw [Memory.putWord_word (by omega), Memory.moved_of_inside hi.1 hi.2, Nat.add_sub_cancel_left]
      · rw [Memory.putWord_of_outside (by omega), Memory.moved_of_outside (by omega)]
    rw [Memory.copyWords, ih (by omega), hone, Memory.moved_moved (by omega), Nat.mul_succ,
      Nat.add_comm 4]

end Copy

section Fill

def Memory.filled (m : Memory) (dst : ℕ) (x : UInt8) (n : ℕ) : Memory :=
  ⟨fun i ↦ if dst ≤ i ∧ i < dst + n then x else m.byte i⟩

def Memory.fillBytes (m : Memory) (dst : ℕ) (x : UInt8) : ℕ → Memory
  | 0 => m
  | n + 1 => (m.put dst x).fillBytes (dst + 1) x n

def Memory.fillWords (m : Memory) (dst v : ℕ) : ℕ → Memory
  | 0 => m
  | n + 1 => (m.putWord dst v).fillWords (dst + 4) v n

variable {dst k : ℕ} {x : UInt8}

theorem Memory.filled_of_outside (h : i < dst ∨ dst + n ≤ i) :
    (m.filled dst x n).byte i = m.byte i := if_neg (by omega)

theorem Memory.filled_of_inside (h : dst ≤ i) (hi : i < dst + n) :
    (m.filled dst x n).byte i = x := if_pos ⟨h, hi⟩

theorem Memory.filled_filled :
    (m.filled dst x k).filled (dst + k) x n = m.filled dst x (k + n) := by
  ext i : 2
  obtain hi | hi := lt_or_ge i (dst + k)
  · rw [Memory.filled_of_outside (.inl hi)]
    exact if_congr (by omega) rfl rfl
  · obtain hn | hn := lt_or_ge i (dst + k + n)
    · rw [Memory.filled_of_inside hi hn, Memory.filled_of_inside (by omega) (by omega)]
    · rw [Memory.filled_of_outside (.inr hn), Memory.filled_of_outside (by omega),
        Memory.filled_of_outside (by omega)]

theorem Memory.fillBytes_eq : m.fillBytes dst x n = m.filled dst x n := by
  induction n generalizing m dst with
  | zero =>
    ext i : 2
    rw [Memory.filled_of_outside (by omega)]
    rfl
  | succ n ih =>
    have hone : m.put dst x = m.filled dst x 1 := by
      ext i : 2
      obtain rfl | hi := eq_or_ne i dst
      · rw [Memory.put_self, Memory.filled_of_inside le_rfl (by omega)]
      · rw [Memory.put_of_ne hi, Memory.filled_of_outside (by omega)]
    rw [Memory.fillBytes, ih, hone, Memory.filled_filled, Nat.add_comm 1]

theorem Memory.putWord_same (hi : i < 4) :
    (m.putWord a (0x01010101 * x.toNat)).byte (a + i) = x := by
  have hword : 0x01010101 * x.toNat = Memory.word ⟨fun _ ↦ x⟩ 0 := by
    simp only [Memory.word]
    omega
  rw [hword]
  exact Memory.putWord_word hi

theorem Memory.fillWords_eq :
    m.fillWords dst (0x01010101 * x.toNat) n = m.filled dst x (4 * n) := by
  induction n generalizing m dst with
  | zero =>
    ext i : 2
    rw [Memory.filled_of_outside (by omega)]
    rfl
  | succ n ih =>
    have hone : m.putWord dst (0x01010101 * x.toNat) = m.filled dst x 4 := by
      ext i : 2
      obtain hi | hi := Decidable.em (dst ≤ i ∧ i < dst + 4)
      · obtain ⟨k, rfl⟩ := Nat.exists_eq_add_of_le hi.1
        rw [Memory.putWord_same (by omega), Memory.filled_of_inside hi.1 hi.2]
      · rw [Memory.putWord_of_outside (by omega), Memory.filled_of_outside (by omega)]
    rw [Memory.fillWords, ih, hone, Memory.filled_filled, Nat.mul_succ, Nat.add_comm 4]

end Fill

end GiantGecko.Foundation.Bytes
