import GiantGecko.Foundation.Transition
import GiantGecko.Spi.Program

namespace GiantGecko.Spi.Coverage

open Dma Driver Program Foundation.Transition

/-- The byte offsets from `off` to the end of the message are moved once each
and in order, 1 to 128 of them by each call. -/
def Covers (m : Message) : ℕ → List (Call × Transfer) → Prop
  | off, [] => off = m.length.toNat
  | off, (c, t) :: rest =>
    c.sndb = m.sendBuf + BitVec.ofNat 32 off ∧ c.rcvb = m.recvBuf + BitVec.ofNat 32 off ∧
    1 ≤ t.tx.count ∧ t.tx.count ≤ 128 ∧
    (m.sendBuf ≠ 0 → ∀ i < t.tx.count, t.tx.addr i = m.sendBuf + BitVec.ofNat 32 (off + i)) ∧
    (∀ rx ∈ t.rx, rx.count = t.tx.count ∧
      ∀ i < rx.count, rx.addr i = m.recvBuf + BitVec.ofNat 32 (off + i)) ∧
    Covers m (off + t.tx.count) rest

def InBuffer (buf : Addr) (length : BitVec 32) (a : Addr) : Prop :=
  ∃ k < length.toNat, a = buf + BitVec.ofNat 32 k

structure Exact (m : Message) (ts : List (Call × Transfer)) : Prop where
  covers : Covers m 0 ts
  receives : ∀ x ∈ ts, x.2.rx.isSome ↔ m.recvBuf ≠ 0
  writes : ∀ x ∈ ts, ∀ rx ∈ x.2.rx, ∀ i < rx.count, InBuffer m.recvBuf m.length (rx.addr i)
  reads : m.sendBuf ≠ 0 → ∀ x ∈ ts, ∀ i < x.2.tx.count,
    InBuffer m.sendBuf m.length (x.2.tx.addr i)

def ProgramsExactly (hspi : EfmSpi) (x : Request) : Prop :=
  ∃ calls, issued x = some calls ∧ Exact x.1 (calls.zip (program hspi calls).1)

/-- The requests that `spiDmaXfer` programs as the message asks. With the lock
taken the message is not empty, its length leaves room for one more chunk
below `INT_MAX`, and a message of more than one chunk has a receive buffer;
without the lock there must be nothing to move. -/
def Coverable (x : Request) : Prop :=
  if x.2 = 0 then
    0 < x.1.length.toNat ∧ x.1.length.toNat ≤ 2 ^ 31 - 128 ∧
      (x.1.recvBuf ≠ 0 ∨ x.1.length.toNat ≤ 128)
  else x.1.length = 0

structure SameNulls (m : Message) : Prop where
  recv : ∀ i < m.length.toNat, 128 ∣ i → (m.recvBuf + BitVec.ofNat 32 i ≠ 0 ↔ m.recvBuf ≠ 0)
  send : ∀ i < m.length.toNat, m.sendBuf ≠ 0 → m.sendBuf + BitVec.ofNat 32 i ≠ 0

theorem sameNulls (m : Message) (h : m.recvBuf ≠ 0 ∨ m.length.toNat ≤ 128) : SameNulls m where
  recv i hi hdvd := by
    by_cases hr : m.recvBuf = 0
    · have hi0 : i = 0 := by
        obtain ⟨k, rfl⟩ := hdvd
        have := h.resolve_left (not_not.mpr hr)
        omega
      simp [hi0]
    · exact iff_of_true (add_ofNat_ne_zero hr (m.recvFits hr) hi) hr
  send i hi hs := add_ofNat_ne_zero hs (m.sendFits hs) hi

theorem pieces_cover {m : Message} (hs : SameNulls m) {off : ℕ} {calls : List Call}
    (hp : Pieces m off calls) {hspi : EfmSpi} (h : Ready hspi) :
    Covers m off (calls.zip (program hspi calls).1) ∧
      ∀ x ∈ calls.zip (program hspi calls).1, x.2.rx.isSome ↔ m.recvBuf ≠ 0 := by
  induction hp generalizing hspi with
  | done hend => exact ⟨hend, by simp [program]⟩
  | @piece off n calls hoff hn hn' hend hp ih =>
    obtain ⟨hcount, haddr, hrx, hwrite, hready⟩ := dmaxfer_spec h
      (m.sendBuf + BitVec.ofNat 32 off) (m.recvBuf + BitVec.ofNat 32 off) hn (by omega : n ≤ 1024)
    obtain ⟨hcover, hrecv⟩ := ih hready
    simp only [program, List.zip_cons_cons]
    refine ⟨⟨rfl, rfl, by omega, by omega, ?_, ?_, ?_⟩, ?_⟩
    · intro hsend i hi
      rw [hcount] at hi
      rw [haddr (hs.send off (by omega) hsend) i hi, BitVec.add_assoc, ← BitVec.ofNat_add]
    · intro rx hmem
      obtain ⟨hc, ha⟩ := hwrite rx hmem
      refine ⟨hc.trans hcount.symm, fun i hi ↦ ?_⟩
      rw [ha i (hc ▸ hi), BitVec.add_assoc, ← BitVec.ofNat_add]
    · rw [hcount]
      exact hcover
    · intro x hx
      rcases List.mem_cons.mp hx with rfl | hx
      · exact hrx.trans (hs.recv off (by omega) hoff)
      · exact hrecv x hx

theorem covers_le {m : Message} {off : ℕ} {ts : List (Call × Transfer)} (h : Covers m off ts) :
    off ≤ m.length.toNat := by
  induction ts generalizing off with
  | nil => exact h.le
  | cons y ts ih => exact (Nat.le_add_right _ _).trans (ih h.2.2.2.2.2.2)

theorem covers_mem {m : Message} {off : ℕ} {ts : List (Call × Transfer)} (h : Covers m off ts)
    {x : Call × Transfer} (hx : x ∈ ts) : ∃ o, o + x.2.tx.count ≤ m.length.toNat ∧
      (m.sendBuf ≠ 0 → ∀ i < x.2.tx.count, x.2.tx.addr i = m.sendBuf + BitVec.ofNat 32 (o + i)) ∧
      ∀ rx ∈ x.2.rx, rx.count = x.2.tx.count ∧
        ∀ i < rx.count, rx.addr i = m.recvBuf + BitVec.ofNat 32 (o + i) := by
  induction ts generalizing off with
  | nil => cases hx
  | cons y ts ih =>
    obtain ⟨-, -, -, -, hsend, hrecv, hrest⟩ := h
    rcases List.mem_cons.mp hx with rfl | hx
    · exact ⟨off, covers_le hrest, hsend, hrecv⟩
    · exact ih hrest hx

theorem exact_of_covers {m : Message} {ts : List (Call × Transfer)} (h : Covers m 0 ts)
    (hrx : ∀ x ∈ ts, x.2.rx.isSome ↔ m.recvBuf ≠ 0) : Exact m ts where
  covers := h
  receives := hrx
  writes x hx rx hmem i hi := by
    obtain ⟨o, ho, -, hw⟩ := covers_mem h hx
    obtain ⟨hc, ha⟩ := hw rx hmem
    exact ⟨o + i, by omega, ha i hi⟩
  reads hs x hx i hi := by
    obtain ⟨o, ho, hr, -⟩ := covers_mem h hx
    exact ⟨o + i, by omega, hr hs i hi⟩

theorem afterXfer_ready {hspi : EfmSpi} (h : Ready hspi) {x : Request} (hx : Coverable x) :
    Ready (afterXfer hspi x) := by
  rw [Coverable] at hx
  by_cases hlock : x.2 = 0
  · rw [if_pos hlock] at hx
    obtain ⟨calls, hcalls, hp⟩ := dmaCalls_pieces x.1 hx.1 hx.2.1
    rw [afterXfer, issued, if_neg (not_not.mpr hlock), hcalls]
    exact program_ready hp h
  · rw [afterXfer, issued, if_pos hlock]
    exact h

theorem programsExactly_of_coverable {hspi : EfmSpi} (h : Ready hspi) {x : Request}
    (hx : Coverable x) : ProgramsExactly hspi x := by
  rw [Coverable] at hx
  by_cases hlock : x.2 = 0
  · rw [if_pos hlock] at hx
    obtain ⟨calls, hcalls, hp⟩ := dmaCalls_pieces x.1 hx.1 hx.2.1
    obtain ⟨hcover, hrx⟩ := pieces_cover (sameNulls x.1 hx.2.2) hp h
    exact ⟨calls, by rw [issued, if_neg (not_not.mpr hlock), hcalls], exact_of_covers hcover hrx⟩
  · rw [if_neg hlock] at hx
    refine ⟨[], by rw [issued, if_pos hlock], exact_of_covers ?_ (by simp [program])⟩
    simp [Covers, program, hx]

/-- Without a receive buffer the second call of a message of more than one
chunk is handed `NULL + 128`, and starts the receive channel. -/
theorem pieces_receive {m : Message} (hr : m.recvBuf = 0) (hlong : 128 < m.length.toNat)
    {calls : List Call} (hp : Pieces m 0 calls) {hspi : EfmSpi} (h : Ready hspi) :
    ∃ x ∈ calls.zip (program hspi calls).1, x.2.rx.isSome := by
  obtain ⟨rest, rfl, hrest⟩ := hp.head (by omega)
  rw [show min m.length.toNat 128 = 128 by omega] at hrest ⊢
  cases hrest with
  | done => omega
  | piece _ hn hn' _ _ =>
    have hready := (dmaxfer_spec h m.sendBuf m.recvBuf (by decide : 0 < 128) (by decide)).2.2.2.2
    refine ⟨_, List.mem_cons_of_mem _ (List.mem_cons_self ..), ?_⟩
    refine (dmaxfer_spec hready _ _ hn (by omega)).2.2.1.mpr ?_
    rw [hr]
    decide

theorem coverable_of_programsExactly {hspi : EfmSpi} (h : Ready hspi) {x : Request}
    (hx : ProgramsExactly hspi x) : Coverable x := by
  obtain ⟨calls, hissued, hexact⟩ := hx
  have hcover := hexact.covers
  rw [issued] at hissued
  rw [Coverable]
  by_cases hlock : x.2 = 0
  · rw [if_neg (not_not.mpr hlock)] at hissued
    rw [if_pos hlock]
    have hpos : 0 < x.1.length.toNat := by
      by_contra hzero
      rw [dmaCalls_zero x.1 (BitVec.eq_of_toNat_eq (by simpa using hzero))] at hissued
      cases hissued
      simp only [program, List.zip_cons_cons, Covers, dmaxfer_zero h] at hcover
      omega
    have hm : x.1.length.toNat ≤ 2 ^ 31 - 128 := by
      by_contra hlong
      by_cases hneg : x.1.length.toNat < 2 ^ 31
      · rw [dmaCalls_overflow x.1 (by omega) hneg] at hissued
        cases hissued
      · rw [dmaCalls_negative x.1 (by omega)] at hissued
        cases hissued
        simp only [program, List.zip_cons_cons, List.zip_nil_right, Covers] at hcover
        omega
    refine ⟨hpos, hm, ?_⟩
    by_contra! hnull
    obtain ⟨calls', hcalls, hp⟩ := dmaCalls_pieces x.1 hpos hm
    rw [hcalls] at hissued
    cases hissued
    obtain ⟨y, hy, hsome⟩ := pieces_receive hnull.1 hnull.2 hp h
    exact (hexact.receives y hy).mp hsome hnull.1
  · rw [if_pos hlock] at hissued
    rw [if_neg hlock]
    cases hissued
    exact BitVec.eq_of_toNat_eq (Eq.symm hcover)

/-- In a run of requests on freshly configured channels, every request is
programmed exactly as it asks if and only if every request is coverable. -/
theorem xfer_covers_iff (hspi : EfmSpi) (xs : List Request) :
    Along afterXfer ProgramsExactly (dmaConfiguration hspi) xs ↔ ∀ x ∈ xs, Coverable x := by
  rw [along_congr (I := Ready) (C := fun _ x ↦ Coverable x)
    (fun h x hready hx ↦ afterXfer_ready hready hx)
    (fun h x hready ↦ ⟨coverable_of_programsExactly hready, programsExactly_of_coverable hready⟩)
    (ready_configuration hspi)]
  exact along_const _ _

/-- Neither the empty message of `rt_spi_take` nor 129 bytes to send without
a receive buffer. -/
theorem take_and_long_send_not_covered :
    ¬ ProgramsExactly (dmaConfiguration ⟨0x4000C000, ⟨0, 0, 0⟩, ⟨0, 0, 0⟩⟩)
        (⟨0, 0, 0, true, false, by decide, by decide⟩, 0) ∧
      ¬ ProgramsExactly (dmaConfiguration ⟨0x4000C000, ⟨0, 0, 0⟩, ⟨0, 0, 0⟩⟩)
        (⟨0x20000000, 0, 129, true, true, by decide, by decide⟩, 0) := by
  constructor
  · intro h
    have hc := coverable_of_programsExactly (ready_configuration _) h
    revert hc
    simp [Coverable]
  · intro h
    have hc := coverable_of_programsExactly (ready_configuration _) h
    revert hc
    simp [Coverable]

end GiantGecko.Spi.Coverage
