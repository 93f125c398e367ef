import Os2024.Machine

/-! # Buffers in flat memory

A loop that stores the elements of an array one behind the other stores the whole
array, and the elements loaded one by one are the array that is there. The
addresses are 32-bit numbers, so both need the array to fit into the address
space; it may still wrap around its end.
-/

namespace Os2024
open Library.PackedLayout

namespace Memory
variable {α : Type} {n : ℕ}

def element (mem : Memory) (a : Layout α n) (base : UInt32) (i : ℕ) : α :=
  a.symm (mem.load n (base + .ofNat (n * i)))

def setElement (mem : Memory) (a : Layout α n) (base : UInt32) (i : ℕ) (x : α) : Memory :=
  mem.store (base + .ofNat (n * i)) (a x)

theorem array_element (mem : Memory) (a : Layout α n) (base : UInt32) (k : ℕ) :
    array k a (fun i => mem.element a base i.val) = mem.load (k * n) base := by
  funext b
  obtain ⟨⟨i, j⟩, rfl⟩ := finProdFinEquiv.surjective b
  have hsum : base + UInt32.ofNat (n * i.val) + UInt32.ofNat j.val =
      base + UInt32.ofNat (j.val + n * i.val) := by
    rw [add_assoc, ← UInt32.ofNat_add, add_comm j.val]
  rw [array_apply, element, Equiv.apply_symm_apply, load, load, hsum]
  rfl

theorem offset_add (base a : UInt32) (m : ℕ) (hm : m < 2 ^ 32) :
    (a - (base + .ofNat m)).toNat = ((a - base).toNat + (2 ^ 32 - m)) % 2 ^ 32 := by
  have hbase := base.toNat_lt
  have ha := a.toNat_lt
  simp only [UInt32.toNat_sub, UInt32.toNat_add, UInt32.toNat_ofNat']
  omega

theorem offset_element (base addr : UInt32) {i : ℕ} (h : n * i + n ≤ 2 ^ 32) (hn : 0 < n) :
    ((addr - (base + .ofNat (n * i))).toNat < n ↔
      n * i ≤ (addr - base).toNat ∧ (addr - base).toNat < n * i + n) ∧
    (n * i ≤ (addr - base).toNat →
      (addr - (base + .ofNat (n * i))).toNat = (addr - base).toNat - n * i) := by
  have hoff := (addr - base).toNat_lt
  rw [offset_add base addr (n * i) (by omega)]
  omega

/-- Byte `b` of an array whose element of index `i` is `f i`. -/
def arrayByte (a : Layout α n) (f : ℕ → α) (hn : 0 < n) (b : ℕ) : UInt8 :=
  a (f (b / n)) ⟨b % n, Nat.mod_lt b hn⟩

theorem arrayByte_element (a : Layout α n) (f : ℕ → α) (hn : 0 < n) {i b : ℕ} (hb : b < n) :
    arrayByte a f hn (n * i + b) = a (f i) ⟨b, hb⟩ := by
  have hdiv : (n * i + b) / n = i := by
    rw [Nat.mul_add_div hn, Nat.div_eq_of_lt hb, add_zero]
  have hmod : (n * i + b) % n = b := by
    rw [Nat.mul_add_mod, Nat.mod_eq_of_lt hb]
  simp only [arrayByte, hdiv, hmod]

theorem store_array (mem : Memory) (a : Layout α n) (base : UInt32) (f : ℕ → α) (hn : 0 < n)
    (k : ℕ) (addr : UInt32) :
    mem.store base (array k a fun i => f i.val) addr =
      if (addr - base).toNat < k * n then arrayByte a f hn (addr - base).toNat else mem addr := by
  by_cases h : (addr - base).toNat < k * n
  · rw [store, dif_pos h, if_pos h]
    rfl
  · rw [store, dif_neg h, if_neg h]

theorem foldl_setElement (mem : Memory) (a : Layout α n) (base : UInt32) (f : ℕ → α) (hn : 0 < n)
    {k : ℕ} (hk : n * k ≤ 2 ^ 32) :
    (List.range k).foldl (fun mem i => mem.setElement a base i (f i)) mem =
      mem.store base (array k a fun i => f i.val) := by
  induction k with
  | zero =>
    funext addr
    rw [store_array mem a base f hn, if_neg (by omega)]
    rfl
  | succ k ih =>
    rw [Nat.mul_succ] at hk
    rw [List.range_succ, List.foldl_append, ih (by omega), List.foldl_cons, List.foldl_nil,
      setElement]
    funext addr
    obtain ⟨hin, hoff⟩ := offset_element base addr hk hn
    have hcomm : k * n = n * k := mul_comm k n
    have hsucc : (k + 1) * n = n * k + n := by rw [Nat.succ_mul, hcomm]
    rw [store, store_array mem a base f hn, store_array mem a base f hn, hcomm, hsucc]
    by_cases hlast : (addr - (base + .ofNat (n * k))).toNat < n
    · -- the address is in the element stored last
      obtain ⟨hge, hlt⟩ := hin.mp hlast
      have hsplit : (addr - base).toNat = n * k + (addr - (base + .ofNat (n * k))).toNat := by
        have := hoff hge
        omega
      rw [dif_pos hlast, if_pos hlt, hsplit, arrayByte_element a f hn hlast]
    · rw [dif_neg hlast]
      by_cases hbefore : (addr - base).toNat < n * k
      · rw [if_pos hbefore, if_pos (by omega)]
      · rw [if_neg hbefore, if_neg]
        omega

end Memory

end Os2024
