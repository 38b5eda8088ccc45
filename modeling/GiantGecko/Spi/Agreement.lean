import GiantGecko.Spi.Coverage
import GiantGecko.Spi.Lockstep

namespace GiantGecko.Spi.Agreement

open Dma Driver Program Coverage Lockstep Foundation.Transition

/-- Over every line whose transmitter runs at most `depth` bytes ahead and from
every world, the two operations return the same count and leave the same
world, in which 0xFF was sent for a NULL send buffer and no memory outside the
receive buffer has changed. -/
def Agree (depth : ℕ) (cs : HwSpiCs) (hspi : EfmSpi) (x : Request) : Prop :=
  ∀ line : Line, line.depth = depth → ∀ w : World, ∃ ret w' hspi',
    spiXfer line cs x.1 x.2 w = some (ret, w') ∧
    spiDmaXfer line cs x.1 x.2 hspi w = some (ret, w', hspi') ∧
    (x.1.sendBuf = 0 → w'.mosi = w.mosi ++ List.replicate x.1.length.toNat 0xFF) ∧
    ∀ a, (x.1.recvBuf = 0 ∨ ¬ InBuffer x.1.recvBuf x.1.length a) → w'.mem a = w.mem a

/-- The receive buffer starts inside the first chunk of the send buffer, so
close to its start that the transmitter takes the byte there before the first
answer is stored over it. -/
def Overtaken (depth : ℕ) (m : Message) : Prop :=
  0 < (m.recvBuf - m.sendBuf).toNat ∧ (m.recvBuf - m.sendBuf).toNat < depth ∧
    (m.recvBuf - m.sendBuf).toNat < 128 ∧ (m.recvBuf - m.sendBuf).toNat < m.length.toNat

/-- The lock is taken, the message has 1 to `INT_MAX - 127` bytes and both
buffers, and neither runs into the other. -/
structure Agreeable (depth : ℕ) (x : Request) : Prop where
  locked : x.2 = 0
  pos : 0 < x.1.length.toNat
  short : x.1.length.toNat ≤ 2 ^ 31 - 128
  send : x.1.sendBuf ≠ 0
  recv : x.1.recvBuf ≠ 0
  apart : ¬ Overtaken depth x.1

theorem Agreeable.coverable {depth : ℕ} {x : Request} (h : Agreeable depth x) : Coverable x := by
  rw [Coverable, if_pos h.locked]
  exact ⟨h.pos, h.short, .inl h.recv⟩

def sndAddr (m : Message) (i : ℕ) : Addr := m.sendBuf + BitVec.ofNat 32 i
def rcvAddr (m : Message) (i : ℕ) : Addr := m.recvBuf + BitVec.ofNat 32 i

section Forward

variable {line : Line} {m : Message}

theorem xferLoop_eq_lockstep (line : Line) (hs : m.sendBuf ≠ 0) (w : World) {k : ℕ} (hk : k ≤ m.length.toNat) :
    xferLoop line m k (lockstep line (sndAddr m) (rcvAddr m) w.mosi.length (m.length.toNat - k) w) =
      lockstep line (sndAddr m) (rcvAddr m) w.mosi.length m.length.toNat w := by
  induction k with
  | zero => rfl
  | succ k ih =>
    rw [← ih (by omega), show m.length.toNat - k = m.length.toNat - (k + 1) + 1 by omega]
    simp only [xferLoop, xferByte, if_pos hs, lockstep, (lockstep_frame _ _ _ _ _ _).2.2]
    rfl

theorem unhurried_of_apart {depth : ℕ} (h : ¬ Overtaken depth m) {off n : ℕ} (hn : n ≤ 128)
    (hend : off + n ≤ m.length.toNat) :
    Unhurried depth n (fun i ↦ sndAddr m (off + i)) fun i ↦ rcvAddr m (off + i) := by
  intro t ht r hrt hdepth heq
  have hsplit : BitVec.ofNat 32 (off + t) = BitVec.ofNat 32 (t - r) + BitVec.ofNat 32 (off + r) := by
    rw [← BitVec.ofNat_add]
    congr 1
    omega
  have hk : m.recvBuf - m.sendBuf = BitVec.ofNat 32 (t - r) := by
    simp only [sndAddr, rcvAddr, hsplit, ← add_assoc] at heq
    rw [← add_right_cancel heq, add_sub_cancel_left]
  have hk' : (m.recvBuf - m.sendBuf).toNat = t - r := by
    rw [hk, BitVec.toNat_ofNat]
    omega
  exact h (by rw [Overtaken, hk']; omega)

theorem pieces_eq_lockstep (line : Line) (hs : m.sendBuf ≠ 0) (hr : m.recvBuf ≠ 0)
    (h : ¬ Overtaken line.depth m) {off : ℕ} {calls : List Call} (hp : Pieces m off calls)
    {hspi : EfmSpi} (hready : Ready hspi) (w : World) :
    (program hspi calls).1.foldl (exchange line)
        (lockstep line (sndAddr m) (rcvAddr m) w.mosi.length off w) =
      lockstep line (sndAddr m) (rcvAddr m) w.mosi.length m.length.toNat w := by
  induction hp generalizing hspi with
  | done hend => rw [hend]; rfl
  | @piece off n calls hoff hn hn' hend hp ih =>
    have hnulls := sameNulls m (.inl hr)
    obtain ⟨hcount, haddr, hrx, hwrite, hready'⟩ := dmaxfer_spec hready
      (m.sendBuf + BitVec.ofNat 32 off) (m.recvBuf + BitVec.ofNat 32 off) hn (by omega : n ≤ 1024)
    obtain ⟨rx, hsome⟩ := Option.isSome_iff_exists.mp
      (hrx.mpr ((hnulls.recv off (by omega) hoff).mpr hr))
    obtain ⟨hrxCount, hrxAddr⟩ := hwrite rx hsome
    have hstep := exchange_eq_lockstep line (fun i ↦ sndAddr m (off + i))
      (fun i ↦ rcvAddr m (off + i)) hsome hcount hrxCount
      (fun i hi ↦ by rw [haddr (hnulls.send off (by omega) hs) i hi, sndAddr, BitVec.add_assoc,
        ← BitVec.ofNat_add])
      (fun i hi ↦ by rw [hrxAddr i hi, rcvAddr, BitVec.add_assoc, ← BitVec.ofNat_add])
      (unhurried_of_apart h hn' hend) (lockstep line (sndAddr m) (rcvAddr m) w.mosi.length off w)
    simp only [program, List.foldl_cons]
    rw [hstep, (lockstep_frame _ _ _ _ _ off).2.2, ← lockstep_add]
    exact ih hready'

end Forward

theorem agree_of_agreeable {depth : ℕ} {cs : HwSpiCs} {hspi : EfmSpi} (hready : Ready hspi)
    {x : Request} (hx : Agreeable depth x) : Agree depth cs hspi x := by
  obtain ⟨m, err⟩ := x
  obtain ⟨rfl, hpos, hshort, hs, hr, hapart⟩ := hx
  rintro line rfl w
  dsimp only at hpos hshort hs hr hapart ⊢
  obtain ⟨calls, hcalls, hp⟩ := dmaCalls_pieces m hpos hshort
  have hnonneg : ¬ m.length.toInt < 0 := by
    rw [BitVec.toInt_neg_iff]
    omega
  have hdma := pieces_eq_lockstep line hs hr hapart hp hready (w.takeCs cs m)
  have hloop := xferLoop_eq_lockstep line hs (w.takeCs cs m) le_rfl
  rw [Nat.sub_self] at hloop
  simp only [lockstep] at hdma hloop
  refine ⟨_, _, (program hspi calls).2, spiXfer_locked hnonneg cs w, ?_, fun h ↦ absurd h hs, fun a ha ↦ ?_⟩
  · rw [spiDmaXfer_locked hcalls, hloop, hdma]
  · rw [releaseCs_mem, hloop, ← takeCs_mem w cs m]
    exact lockstep_mem_of_ne _ _ _ _ _ fun i hi heq ↦ ha.resolve_left hr ⟨i, hi, heq.symm⟩

section Converse

variable {line : Line} {m : Message} {hspi : EfmSpi} {calls : List Call} {w : World}

theorem xferLoop_mosi_extends (n : ℕ) (w : World) :
    w.mosi <+: (xferLoop line m n w).mosi := by
  induction n generalizing w with
  | zero => exact List.prefix_rfl
  | succ n ih =>
    exact (List.prefix_append _ _).trans (ih (xferByte line m (m.length.toNat - (n + 1)) w))

theorem mosi_get_of_prefix {l l' : List UInt8} {k : ℕ} {b : UInt8} (h : l <+: l')
    (hk : l[k]? = some b) : l'[k]? = some b := by
  obtain ⟨rest, rfl⟩ := h
  rw [List.getElem?_append_left (List.getElem?_eq_some_iff.mp hk).1, hk]

theorem dma_mosi_get (line : Line) (hready : Ready hspi) (hp : Pieces m 0 calls)
    (hlate : ∀ t r, line.storeFirst t r = false) (hmem : w.mem = fun _ ↦ 0) (hmosi : w.mosi = [])
    {k : ℕ} (hk : k < min m.length.toNat 128) (hdepth : k = 0 ∨ k < line.depth) :
    ((program hspi calls).1.foldl (exchange line) w).mosi[k]? = some 0 := by
  obtain ⟨rest, rfl, -⟩ := hp.head (by omega)
  have hcount := (dmaxfer_spec hready m.sendBuf m.recvBuf (n := min m.length.toNat 128) (by omega)
    (by omega)).1
  have hahead := exchange_fetches_ahead line hlate (w := w) (hcount.symm ▸ hk) hdepth
  refine mosi_get_of_prefix (hahead.trans (fold_mosi_extends _ _)) ?_
  simp [hmosi, hmem]

/-- Without a receive buffer address 0 is never written: the first call leaves
the receive channel alone, and the later ones start past it. -/
theorem dma_mem_null (hready : Ready hspi) (hr : m.recvBuf = 0) {off : ℕ}
    (hp : Pieces m off calls) (w : World) :
    ((program hspi calls).1.foldl (exchange line) w).mem 0 = w.mem 0 := by
  induction hp generalizing hspi w with
  | done => rfl
  | @piece off n calls hoff hn hn' hend hp ih =>
    obtain ⟨-, -, hrx, hwrite, hready'⟩ := dmaxfer_spec hready
      (m.sendBuf + BitVec.ofNat 32 off) (m.recvBuf + BitVec.ofNat 32 off) hn (by omega : n ≤ 1024)
    simp only [program, List.foldl_cons]
    rw [ih hready']
    refine duplex_mem_of_ne (fun rx hmem i hi hzero ↦ ?_) _ _ _ w
    obtain ⟨hcount, haddr⟩ := hwrite rx hmem
    have hstart := hrx.mp (Option.isSome_iff_exists.mpr ⟨rx, hmem⟩)
    rw [haddr i (hcount ▸ hi), hr, zero_add, ← BitVec.ofNat_add] at hzero
    have hbound := m.length.isLt
    have hsum : off + i = 0 := by
      have h := congrArg BitVec.toNat hzero
      rw [BitVec.toNat_ofNat] at h
      change _ = 0 at h
      omega
    exact hstart (by rw [hr, show off = 0 by omega]; rfl)

end Converse

def eager (depth : ℕ) : Line := ⟨fun _ ↦ 1, depth, fun _ _ ↦ false⟩

def blank : World := ⟨fun _ ↦ 0, [], [], 0⟩

theorem locked_of_agree {depth : ℕ} {cs : HwSpiCs} {hspi : EfmSpi} {x : Request}
    (h : Agree depth cs hspi x) : x.2 = 0 := by
  obtain ⟨ret, w', hspi', hx, hd, -⟩ := h (eager depth) rfl blank
  by_contra hne
  simp only [spiXfer, spiDmaXfer, ne_eq, hne, not_false_eq_true, if_true, Option.some.injEq,
    Prod.mk.injEq] at hx hd
  exact hne (hd.1.trans hx.1.symm)

theorem effects_of_agree {depth : ℕ} {cs : HwSpiCs} {hspi : EfmSpi} {m : Message}
    (h : Agree depth cs hspi (m, 0)) :
    m.length.toNat ≤ 2 ^ 31 - 128 ∧ ∃ calls, dmaCalls m = some calls ∧
      ((program hspi calls).1.foldl (exchange (eager depth)) (blank.takeCs cs m)).mem =
        (xferLoop (eager depth) m m.length.toNat (blank.takeCs cs m)).mem ∧
      ((program hspi calls).1.foldl (exchange (eager depth)) (blank.takeCs cs m)).mosi =
        (xferLoop (eager depth) m m.length.toNat (blank.takeCs cs m)).mosi := by
  obtain ⟨ret, w', hspi', hx, hd, -⟩ := h (eager depth) rfl blank
  dsimp only at hx hd
  have hnonneg : ¬ m.length.toInt < 0 := by
    intro hneg
    simp [spiXfer, hneg] at hx
  obtain ⟨calls, hcalls⟩ : ∃ calls, dmaCalls m = some calls := by
    cases hcalls : dmaCalls m with
    | none => simp [spiDmaXfer, hcalls] at hd
    | some calls => exact ⟨calls, rfl⟩
  refine ⟨?_, calls, hcalls, ?_⟩
  · by_contra hlong
    rw [BitVec.toInt_neg_iff] at hnonneg
    simp [dmaCalls_overflow m (by omega) (by omega)] at hcalls
  · rw [spiXfer_locked hnonneg] at hx
    rw [spiDmaXfer_locked hcalls] at hd
    simp only [Option.some.injEq, Prod.mk.injEq] at hx hd
    have hworld := hd.2.1.trans hx.2.symm
    have hmem := congrArg World.mem hworld
    have hmosi := congrArg World.mosi hworld
    rw [releaseCs_mem, releaseCs_mem] at hmem
    rw [releaseCs_mosi, releaseCs_mosi] at hmosi
    exact ⟨hmem, hmosi⟩

section Blank

variable {depth : ℕ} {hspi : EfmSpi} {m : Message} {calls : List Call} {w : World}

theorem pos_of_mosi_eq (hready : Ready hspi) (hcalls : dmaCalls m = some calls) (hwmosi : w.mosi = [])
    (hmosi : ((program hspi calls).1.foldl (exchange (eager depth)) w).mosi =
      (xferLoop (eager depth) m m.length.toNat w).mosi) : 0 < m.length.toNat := by
  by_contra hzero
  have hlen : m.length = 0 := BitVec.eq_of_toNat_eq (by simpa using hzero)
  rw [dmaCalls_zero m hlen] at hcalls
  cases hcalls
  have hcount := dmaxfer_zero hready m.sendBuf m.recvBuf
  have hsent := exchange_fetches_ahead (eager depth) (fun _ _ ↦ rfl) (w := w) (k := 0)
    (hcount.symm ▸ (by decide : 0 < 1024)) (.inl rfl)
  have hlength := hsent.length_le
  simp only [program, List.foldl_cons, List.foldl_nil, hlen] at hmosi
  rw [hmosi] at hlength
  simp [xferLoop, hwmosi] at hlength

theorem sendBuf_ne_of_mosi_eq (hready : Ready hspi) (hp : Pieces m 0 calls) (hpos : 0 < m.length.toNat)
    (hwmem : w.mem = fun _ ↦ 0) (hwmosi : w.mosi = [])
    (hmosi : ((program hspi calls).1.foldl (exchange (eager depth)) w).mosi =
      (xferLoop (eager depth) m m.length.toNat w).mosi) : m.sendBuf ≠ 0 := by
  intro hnull
  have hbyte := dma_mosi_get (eager depth) hready hp (fun _ _ ↦ rfl) hwmem hwmosi (k := 0) (by omega)
    (.inl rfl)
  obtain ⟨n, hn⟩ := Nat.exists_eq_succ_of_ne_zero hpos.ne'
  have hloop : (xferLoop (eager depth) m m.length.toNat w).mosi[0]? = some 0xFF := by
    rw [hn]
    refine mosi_get_of_prefix (xferLoop_mosi_extends n _) ?_
    simp [xferByte, hnull, World.store, World.send, hwmosi]
  rw [hmosi, hloop] at hbyte
  revert hbyte
  decide

theorem recvBuf_ne_of_mem_eq (hready : Ready hspi) (hp : Pieces m 0 calls) (hpos : 0 < m.length.toNat)
    (hwmem : w.mem = fun _ ↦ 0)
    (hmem : ((program hspi calls).1.foldl (exchange (eager depth)) w).mem =
      (lockstep (eager depth) (sndAddr m) (rcvAddr m) w.mosi.length m.length.toNat w).mem) :
    m.recvBuf ≠ 0 := by
  intro hnull
  have hstored := lockstep_mem_stored (eager depth) (sndAddr m) (rcvAddr m) w.mosi.length w
    (b := 1) (fun _ ↦ rfl) hpos
  rw [← hmem, rcvAddr, hnull, show (0 : Addr) + BitVec.ofNat 32 0 = 0 by decide,
    dma_mem_null hready hnull hp, hwmem] at hstored
  revert hstored
  decide

theorem apart_of_mosi_eq (hready : Ready hspi) (hp : Pieces m 0 calls)
    (hwmem : w.mem = fun _ ↦ 0) (hwmosi : w.mosi = [])
    (hmosi : ((program hspi calls).1.foldl (exchange (eager depth)) w).mosi =
      (lockstep (eager depth) (sndAddr m) (rcvAddr m) w.mosi.length m.length.toNat w).mosi) :
    ¬ Overtaken depth m := by
  rintro ⟨hk, hkd, hkc, hkl⟩
  generalize hgap : (m.recvBuf - m.sendBuf).toNat = k at hk hkd hkc hkl
  have hbyte := dma_mosi_get (eager depth) hready hp (fun _ _ ↦ rfl) hwmem hwmosi (k := k) (by omega)
    (.inr hkd)
  have hread := lockstep_mosi_get (eager depth) (sndAddr m) (rcvAddr m) w.mosi.length w hkl
  have hat : sndAddr m k = rcvAddr m 0 := by
    rw [sndAddr, rcvAddr, ← hgap, BitVec.ofNat_toNat, BitVec.setWidth_eq, add_sub_cancel]
    exact (add_zero _).symm
  rw [hat, lockstep_mem_stored _ _ _ _ _ (fun _ ↦ rfl) hk, hwmosi, List.length_nil, Nat.zero_add] at hread
  rw [hmosi, hwmosi, List.length_nil, hread] at hbyte
  revert hbyte
  decide

end Blank

theorem agreeable_of_agree {depth : ℕ} {cs : HwSpiCs} {hspi : EfmSpi} (hready : Ready hspi)
    {x : Request} (h : Agree depth cs hspi x) : Agreeable depth x := by
  have hlock := locked_of_agree h
  obtain ⟨m, err⟩ := x
  obtain rfl : err = 0 := hlock
  obtain ⟨hshort, calls, hcalls, hmem, hmosi⟩ := effects_of_agree h
  have hwmem : (blank.takeCs cs m).mem = fun _ ↦ 0 := takeCs_mem _ _ _
  have hwmosi : (blank.takeCs cs m).mosi = [] := takeCs_mosi _ _ _
  generalize blank.takeCs cs m = w at hmem hmosi hwmem hwmosi
  have hpos := pos_of_mosi_eq hready hcalls hwmosi hmosi
  obtain ⟨calls', hcalls', hp⟩ := dmaCalls_pieces m hpos hshort
  obtain rfl : calls' = calls := Option.some.inj (hcalls'.symm.trans hcalls)
  have hs := sendBuf_ne_of_mosi_eq hready hp hpos hwmem hwmosi hmosi
  have hloop := xferLoop_eq_lockstep (eager depth) hs w le_rfl
  rw [Nat.sub_self] at hloop
  simp only [lockstep] at hloop
  rw [hloop] at hmem hmosi
  exact {
    locked := rfl
    pos := hpos
    short := hshort
    send := hs
    recv := recvBuf_ne_of_mem_eq hready hp hpos hwmem hmem
    apart := apart_of_mosi_eq hready hp hwmem hwmosi hmosi }

/-- In a run of requests on freshly configured channels, the two operations
agree on every request if and only if every request is agreeable. -/
theorem xfer_agree_iff (depth : ℕ) (cs : HwSpiCs) (hspi : EfmSpi) (xs : List Request) :
    Along afterXfer (Agree depth cs) (dmaConfiguration hspi) xs ↔ ∀ x ∈ xs, Agreeable depth x := by
  rw [along_congr (I := Ready) (C := fun _ x ↦ Agreeable depth x)
    (fun h x hready hx ↦ afterXfer_ready hready hx.coverable)
    (fun h x hready ↦ ⟨agreeable_of_agree hready, agree_of_agreeable hready⟩)
    (ready_configuration hspi)]
  exact along_const _ _

/-- Four bytes to receive with no send buffer, and the same four bytes when the
lock is not taken. -/
theorem receive_and_failed_lock_disagree :
    ¬ Agree 3 ⟨10, false⟩ (dmaConfiguration ⟨0x4000C000, ⟨0, 0, 0⟩, ⟨0, 0, 0⟩⟩)
        (⟨0, 0x20000000, 4, true, true, by decide, by decide⟩, 0) ∧
      ¬ Agree 3 ⟨10, false⟩ (dmaConfiguration ⟨0x4000C000, ⟨0, 0, 0⟩, ⟨0, 0, 0⟩⟩)
        (⟨0x20000100, 0x20000000, 4, true, true, by decide, by decide⟩, 0xFFFFFFFE) := by
  constructor
  · intro h
    exact (agreeable_of_agree (ready_configuration _) h).send rfl
  · intro h
    exact absurd (locked_of_agree h) (by decide)

end GiantGecko.Spi.Agreement
