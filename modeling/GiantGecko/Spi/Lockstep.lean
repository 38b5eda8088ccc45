import GiantGecko.Spi.Program

namespace GiantGecko.Spi.Lockstep

open Dma Driver Program

/-- A transfer with no pipelining: each answer is stored before the next byte
is fetched. -/
def lockstep (line : Line) (src dst : ℕ → Addr) (start : ℕ) : ℕ → World → World
  | 0, w => w
  | n + 1, w =>
    let w' := lockstep line src dst start n w
    (w'.send (w'.mem (src n))).store (dst n) (line.slave (start + n))

section Lockstep

variable (line : Line) (src dst : ℕ → Addr) (start : ℕ) (w : World)

theorem lockstep_add (a b : ℕ) : lockstep line src dst start (a + b) w =
    lockstep line (fun i ↦ src (a + i)) (fun i ↦ dst (a + i)) (start + a) b
      (lockstep line src dst start a w) := by
  induction b with
  | zero => rfl
  | succ b ih =>
    rw [← Nat.add_assoc, lockstep, ih, lockstep]
    simp only [Nat.add_assoc]

theorem lockstep_frame (n : ℕ) :
    (lockstep line src dst start n w).cs = w.cs ∧
      (lockstep line src dst start n w).errno = w.errno ∧
      (lockstep line src dst start n w).mosi.length = w.mosi.length + n := by
  induction n with
  | zero => exact ⟨rfl, rfl, rfl⟩
  | succ n ih =>
    refine ⟨ih.1, ih.2.1, ?_⟩
    simp [lockstep, World.send, World.store, ih.2.2, Nat.add_assoc]

theorem lockstep_mem_of_ne {a : Addr} {n : ℕ} (h : ∀ i < n, dst i ≠ a) :
    (lockstep line src dst start n w).mem a = w.mem a := by
  induction n with
  | zero => rfl
  | succ n ih =>
    rw [← ih fun i hi ↦ h i (by omega)]
    exact Function.update_of_ne (h n (by omega)).symm _ _

theorem lockstep_mem_eq {a : Addr} {r t : ℕ} (hrt : r ≤ t)
    (h : ∀ i, r ≤ i → i < t → dst i ≠ a) :
    (lockstep line src dst start t w).mem a = (lockstep line src dst start r w).mem a := by
  obtain ⟨k, rfl⟩ := Nat.exists_eq_add_of_le hrt
  rw [lockstep_add]
  exact lockstep_mem_of_ne _ _ _ _ _ fun i hi ↦ h (r + i) (by omega) (by omega)

theorem lockstep_mem_stored {b : UInt8} (hslave : ∀ i, line.slave i = b) {i n : ℕ} (hi : i < n) :
    (lockstep line src dst start n w).mem (dst i) = b := by
  induction n with
  | zero => omega
  | succ n ih =>
    simp only [lockstep, World.store, World.send, hslave]
    by_cases hd : dst i = dst n
    · rw [hd, Function.update_self]
    · rw [Function.update_of_ne hd]
      exact ih (by
        rcases Nat.lt_succ_iff_lt_or_eq.mp hi with h | rfl
        · exact h
        · exact absurd rfl hd)

theorem lockstep_mosi_extends {n m : ℕ} (hnm : n ≤ m) :
    (lockstep line src dst start n w).mosi <+: (lockstep line src dst start m w).mosi := by
  induction m, hnm using Nat.le_induction with
  | base => exact List.prefix_rfl
  | succ m _ ih => exact ih.trans (List.prefix_append _ _)

theorem lockstep_mosi_get {k n : ℕ} (hk : k < n) :
    (lockstep line src dst start n w).mosi[w.mosi.length + k]? =
      some ((lockstep line src dst start k w).mem (src k)) := by
  obtain ⟨rest, hrest⟩ := lockstep_mosi_extends line src dst start w hk
  have hlen := (lockstep_frame line src dst start w k).2.2
  rw [← hrest]
  simp [lockstep, World.send, World.store, ← hlen]

end Lockstep

def Unhurried (depth n : ℕ) (src dst : ℕ → Addr) : Prop :=
  ∀ t < n, ∀ r < t, t < r + depth → src t ≠ dst r

section Duplex

variable {line : Line} {tr : Transfer} {rx : Cycle} {src dst : ℕ → Addr} {start n : ℕ}

/-- With `t` bytes fetched and `r` answers stored, MOSI is as after `t` steps
of the lockstep transfer and memory as after `r` of them. -/
theorem duplex_eq_lockstep (hrx : tr.rx = some rx) (htx : tr.tx.count = n) (hcount : rx.count = n)
    (hsrc : ∀ i < n, tr.tx.addr i = src i) (hdst : ∀ i < n, rx.addr i = dst i)
    (hfree : Unhurried line.depth n src dst) (w : World) {k t r : ℕ} (hrt : r ≤ t) (htn : t ≤ n)
    (hk : k = (n - t) + (n - r)) :
    duplex line tr start k t r
        { lockstep line src dst start t w with mem := (lockstep line src dst start r w).mem } =
      lockstep line src dst start n w := by
  induction k generalizing t r with
  | zero =>
    obtain ⟨rfl, rfl⟩ : t = n ∧ r = n := by omega
    rfl
  | succ k ih =>
    simp only [duplex, hrx, htx, hcount]
    split_ifs with hstore hfetch
    · rw [← ih (t := t) (r := r + 1) (by omega) htn (by omega), hdst r hstore.2.1]
      rfl
    · have hread : (lockstep line src dst start t w).mem (src t) =
          (lockstep line src dst start r w).mem (src t) := by
        refine lockstep_mem_eq _ _ _ _ _ hrt fun i hri hit ↦ ?_
        have hahead : ¬ r + line.depth ≤ t := fun h ↦ hstore ⟨by omega, by omega, .inr (.inr h)⟩
        exact (hfree t hfetch i hit (by omega)).symm
      rw [← ih (t := t + 1) (r := r) (by omega) (by omega) (by omega), hsrc t hfetch]
      simp only [lockstep, World.send, World.store, hread]
    · exact absurd ⟨by omega, by omega, .inr (.inl (by omega))⟩ hstore

theorem exchange_eq_lockstep (line : Line) (src dst : ℕ → Addr) (hrx : tr.rx = some rx)
    (htx : tr.tx.count = n) (hcount : rx.count = n)
    (hsrc : ∀ i < n, tr.tx.addr i = src i) (hdst : ∀ i < n, rx.addr i = dst i)
    (hfree : Unhurried line.depth n src dst) (w : World) :
    exchange line w tr = lockstep line src dst w.mosi.length n w := by
  rw [exchange, hrx]
  exact duplex_eq_lockstep hrx htx hcount hsrc hdst hfree w (Nat.zero_le 0) (Nat.zero_le n)
    (by simp [htx, hcount])

theorem duplex_mosi_extends (k t r : ℕ) (w : World) :
    w.mosi <+: (duplex line tr start k t r w).mosi := by
  induction k generalizing t r w with
  | zero => exact List.prefix_rfl
  | succ k ih =>
    have hsend (t' r' : ℕ) (b : UInt8) :
        w.mosi <+: (duplex line tr start k t' r' (w.send b)).mosi :=
      (List.prefix_append _ [b]).trans (ih t' r' (w.send b))
    rw [duplex]
    split
    · rename_i rx _
      split_ifs
      · exact ih t (r + 1) (w.store (rx.addr r) (line.slave (start + r)))
      · exact hsend _ _ _
      · exact List.prefix_rfl
    · split_ifs
      · exact hsend _ _ _
      · exact List.prefix_rfl

theorem fold_mosi_extends (trs : List Transfer) (w : World) :
    w.mosi <+: (trs.foldl (exchange line) w).mosi := by
  induction trs generalizing w with
  | nil => exact List.prefix_rfl
  | cons tr trs ih => exact (duplex_mosi_extends _ _ _ w).trans (ih (exchange line w tr))

theorem duplex_mem_of_ne {a : Addr} (h : ∀ rx ∈ tr.rx, ∀ i < rx.count, rx.addr i ≠ a)
    (k t r : ℕ) (w : World) : (duplex line tr start k t r w).mem a = w.mem a := by
  induction k generalizing t r w with
  | zero => rfl
  | succ k ih =>
    rw [duplex]
    split
    · rename_i rx hrx
      split_ifs with hstore
      · rw [ih]
        exact Function.update_of_ne (h rx hrx r hstore.2.1).symm _ _
      · exact ih _ _ _
      · rfl
    · split_ifs
      · exact ih _ _ _
      · rfl

/-- While the transmitter has room and the line lets it go first, bytes are
fetched from memory as it was. -/
theorem duplex_fetches_ahead (hlate : ∀ t r, line.storeFirst t r = false) {w w' : World} {k t : ℕ}
    (fuel : ℕ) (hk : k < tr.tx.count) (hdepth : k = 0 ∨ k < line.depth) (ht : t ≤ k)
    (hfuel : k < t + fuel) (hmem : w'.mem = w.mem)
    (hmosi : w'.mosi = w.mosi ++ (List.range t).map fun i ↦ w.mem (tr.tx.addr i)) :
    w.mosi ++ (List.range (k + 1)).map (fun i ↦ w.mem (tr.tx.addr i)) <+:
      (duplex line tr start fuel t 0 w').mosi := by
  induction fuel generalizing t w' with
  | zero => omega
  | succ fuel ih =>
    have hnext : (w'.send (w'.mem (tr.tx.addr t))).mosi =
        w.mosi ++ (List.range (t + 1)).map fun i ↦ w.mem (tr.tx.addr i) := by
      simp [World.send, hmosi, hmem, List.range_succ]
    have hgo : w.mosi ++ (List.range (k + 1)).map (fun i ↦ w.mem (tr.tx.addr i)) <+:
        (duplex line tr start fuel (t + 1) 0 (w'.send (w'.mem (tr.tx.addr t)))).mosi := by
      rcases Nat.lt_or_eq_of_le ht with hlt | rfl
      · exact ih hlt (by omega) hmem hnext
      · rw [← hnext]
        exact duplex_mosi_extends _ _ _ _
    have hfetch : t < tr.tx.count := by omega
    rw [duplex]
    split
    · rw [if_neg (by simp only [hlate, Bool.false_eq_true, false_or]; omega), if_pos hfetch]
      exact hgo
    · rw [if_pos hfetch]
      exact hgo

theorem exchange_fetches_ahead (line : Line) (hlate : ∀ t r, line.storeFirst t r = false) {w : World} {k : ℕ}
    (hk : k < tr.tx.count) (hdepth : k = 0 ∨ k < line.depth) :
    w.mosi ++ (List.range (k + 1)).map (fun i ↦ w.mem (tr.tx.addr i)) <+:
      (exchange line w tr).mosi :=
  duplex_fetches_ahead hlate _ hk hdepth (Nat.zero_le k) (by omega) rfl (by simp)

end Duplex

end GiantGecko.Spi.Lockstep
