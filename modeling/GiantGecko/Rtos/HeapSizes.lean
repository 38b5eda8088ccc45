import GiantGecko.Rtos.HeapUsers

namespace GiantGecko.Rtos.Memheap

open Foundation.Bytes

inductive Demand
  | malloc (size : ℕ)
  | realloc (rmem newsize : ℕ)
  | calloc (count size : ℕ)

def Demand.run (s : Heaps) : Demand → Option (Heaps × ℕ)
  | .malloc size => rtMalloc s size
  | .realloc rmem newsize => rtRealloc s rmem newsize
  | .calloc count size => rtCalloc s count size

def Demand.bytes : Demand → ℕ
  | .malloc size => size
  | .realloc _ newsize => newsize
  | .calloc count size => count * size

def Demand.Returns : Demand → Prop
  | .realloc rmem newsize => rmem ≠ 0 ∧ newsize = 0
  | _ => False

def Demand.Made (s : Heaps) (live : ℕ → List Allocation) : Demand → Prop
  | .malloc size => size < 2 ^ 32
  | .realloc rmem newsize =>
    (rmem = 0 ∨ ∃ k ∈ s.objectList, ∃ x ∈ live k, x.ptr = rmem) ∧ newsize < 2 ^ 32
  | .calloc count size => count < 2 ^ 32 ∧ size < 2 ^ 32

def Backed (s : Heaps) (p n : ℕ) : Prop :=
  ∃ live bodies frees, Held s live bodies frees ∧
    ∃ k ∈ s.objectList, ∃ b ∈ usedBlocks (bodies k), b.payload = p ∧ n ≤ b.size

/-- The address that is returned is of a block as large as was meant; when none is, nothing
has changed. -/
def Honoured (s : Heaps) (d : Demand) : Prop :=
  ∃ s' p, d.run s = some (s', p) ∧ (p ≠ 0 → Backed s' p d.bytes) ∧
    (p = 0 → ¬ d.Returns → s' = s)

/-- The bytes that are meant do not wrap on the way, or no heap has room for what they become.
A block can grow over a free one as long as `MINIALLOC` may be added to the size. -/
def Demand.Fits (s : Heaps) (bodies : ℕ → List Block) : Demand → Prop
  | .malloc size => size + rtAlignSize ≤ 2 ^ 32 ∨ Full s bodies size
  | .realloc rmem newsize =>
    if rmem = 0 then newsize + rtAlignSize ≤ 2 ^ 32 ∨ Full s bodies newsize
    else newsize + rtAlignSize + rtMemheapMinialloc ≤ 2 ^ 32 ∨ newsize + rtAlignSize ≤ 2 ^ 32 ∧
      isUsed s.memory (load s.memory (sub32 rmem rtMemheapSize) .next)
  | .calloc count size =>
    count * size + rtAlignSize ≤ 2 ^ 32 ∨ Full s bodies (count * size % 2 ^ 32)

section Sizes

variable {s s' : Heaps} {live : ℕ → List Allocation} {bodies : ℕ → List Block}
  {frees : ℕ → List ℕ} {k p n size newsize count rmem : ℕ} {x a : Allocation} {d : Demand}

theorem Held.backed (hs : Held s live bodies frees) (hk : k ∈ s.objectList) (ha : a ∈ live k) :
    Backed s a.ptr a.size := by
  obtain ⟨b, hb, hbu, hba, hsize⟩ := (hs.served k hk).exists_block ha
  exact ⟨live, bodies, frees, hs, k, hk, b, mem_usedBlocks.mpr ⟨hb, hbu⟩, hba, hsize⟩

theorem Backed.mono {m : ℕ} (h : Backed s p n) (hm : m ≤ n) : Backed s p m := by
  obtain ⟨live, bodies, frees, hs, k, hk, b, hb, hbp, hsize⟩ := h
  exact ⟨live, bodies, frees, hs, k, hk, b, hb, hbp, hm.trans hsize⟩

theorem Backed.lt (h : Backed s p n) : n + sizeofRtMemheap ≤ 2 ^ 32 := by
  obtain ⟨live, bodies, frees, hs, k, hk, b, hb, -, hsize⟩ := h
  have hl := (hs.served k hk).layout
  have hstop := hl.stop_le (mem_usedBlocks.mp hb).1
  have hpool := hl.placed.poolSize_le
  simp only [Block.stop] at hstop
  omega

theorem Granted.backed (hg : Granted s s' live p n) : Backed s' p n := by
  obtain ⟨l, hl, bodies, frees, hs⟩ := hg.held
  exact hs.backed (hg.places.objectList ▸ hl) mem_give

theorem Resized.backed (hr : Resized s s' live k x p n) : Backed s' p n := by
  obtain ⟨l, hl, bodies, frees, hs⟩ := hr.held
  exact hs.backed (hr.places.objectList ▸ hl) mem_give

theorem honoured_null (hrun : d.run s = some (s, 0)) : Honoured s d :=
  ⟨s, 0, hrun, fun h ↦ absurd rfl h, fun _ _ ↦ rfl⟩

theorem honoured_backed (hrun : d.run s = some (s', p)) (hb : Backed s' p d.bytes) (hp : p ≠ 0) :
    Honoured s d :=
  ⟨s', p, hrun, fun _ ↦ hb, fun h ↦ absurd h hp⟩

theorem not_honoured (hrun : d.run s = some (s', p)) (hp : p ≠ 0)
    (hbytes : 2 ^ 32 < d.bytes + sizeofRtMemheap) : ¬ Honoured s d := by
  rintro ⟨s₁, p₁, hrun₁, hbacked, -⟩
  rw [hrun] at hrun₁
  cases hrun₁
  exact (hbacked hp).lt.not_gt hbytes

theorem GivenBy.not_full {r : Option (Heaps × ℕ)}
    (hg : GivenBy s bodies size s.objectList r) : ¬ Full s bodies size := by
  obtain ⟨l, hl, hroom, -⟩ := hg
  exact fun hfull ↦ hfull l hl hroom

theorem Held.honoured_malloc (hs : Held s live bodies frees) (hrun : d.run s = rtMalloc s d.bytes) :
    Honoured s d ↔ d.bytes + rtAlignSize ≤ 2 ^ 32 ∨ Full s bodies d.bytes := by
  constructor
  · intro hd
    by_contra! hno
    obtain ⟨-, hfull⟩ | hg := hs.malloc d.bytes
    · exact hno.2 hfull
    · obtain ⟨s', p, hsome, hg⟩ := hg.granted hs (Nat.zero_le _)
      refine not_honoured (hrun.trans hsome) hg.ptr_ne ?_ hd
      simp only [rtAlignSize, sizeofRtMemheap] at hno ⊢
      omega
  · intro hfits
    obtain ⟨hnone, -⟩ | hg := hs.malloc d.bytes
    · exact honoured_null (hrun.trans hnone)
    · have hsize := hfits.resolve_right hg.not_full
      obtain ⟨s', p, hsome, hg⟩ := hg.granted hs (request_spec hsize).1
      exact honoured_backed (hrun.trans hsome) hg.backed hg.ptr_ne

theorem Held.honoured_calloc (hs : Held s live bodies frees) (count size : ℕ) :
    Honoured s (.calloc count size) ↔
      count * size + rtAlignSize ≤ 2 ^ 32 ∨ Full s bodies (count * size % 2 ^ 32) := by
  constructor
  · intro hd
    by_contra! hno
    obtain ⟨-, hfull⟩ | hg := hs.malloc (count * size % 2 ^ 32)
    · exact hno.2 hfull
    · obtain ⟨s', p, hsome, hg⟩ := hg.granted hs (Nat.zero_le _)
      refine not_honoured (d := .calloc count size) (rtCalloc_some hsome hg.ptr_ne) hg.ptr_ne ?_ hd
      simp only [Demand.bytes, rtAlignSize, sizeofRtMemheap] at hno ⊢
      omega
  · rintro (hsize | hfull)
    · have htotal : count * size % 2 ^ 32 = count * size := by
        refine Nat.mod_eq_of_lt ?_
        simp only [rtAlignSize] at hsize
        omega
      obtain ⟨hnone, -⟩ | ⟨s', p, hsome, hg, -⟩ := hs.calloc count size (htotal.symm ▸ hsize)
      · exact honoured_null (d := .calloc count size) hnone
      · refine honoured_backed (d := .calloc count size) hsome ?_ hg.ptr_ne
        exact hg.backed.mono htotal.ge
    · obtain ⟨hnone, -⟩ | hg := hs.malloc (count * size % 2 ^ 32)
      · exact honoured_null (d := .calloc count size) (rtCalloc_null hnone)
      · exact absurd hfull hg.not_full

theorem Layout.overgrow {h : RtMemheap} {body : List Block} {free : List ℕ} {b : Block}
    (hl : Layout h body free) (hlock : h.lock = 1) (hb : b ∈ body) (hpos : size ≠ 0)
    (hmin : rtMemheapMinialloc ≤ b.size) (hlt : b.size < request size)
    (hfree : ¬ isUsed h.memory (load h.memory b.addr .next))
    (hwrap : 2 ^ 32 ≤ request size + rtMemheapMinialloc) (hword : request size < 2 ^ 32) :
    ∃ h', rtMemheapRealloc h b.payload size = some (h', b.payload) := by
  rw [realloc_eq hpos (payload_ne_zero b) (hl.ptr_eq hb) (hl.memitemSize_eq hb) hlock, if_pos hlt,
    guard_bind (hl.addr_lt_next hb), if_pos]
  · exact ⟨_, rfl⟩
  refine ⟨hfree, ?_⟩
  obtain ⟨u, v, rfl⟩ := List.append_of_mem hb
  obtain ⟨n, v, rfl, -, hn⟩ := hl.next_free hfree
  rw [hn, hl.memitemSize_eq (by simp), add32_of_lt hl.pair_lt]
  simp only [add32, rtMemheapMinialloc] at hmin hwrap ⊢
  omega

theorem request_wrapped (hsize : size < 2 ^ 32) (hwrap : 2 ^ 32 < size + rtAlignSize) :
    request size = rtMemheapMinialloc := by
  rw [request_eq]
  simp only [rtAlignSize, rtMemheapMinialloc] at hwrap ⊢
  omega

/-- A block that is live is never given up for a size that wraps. -/
theorem Held.realloc_wrapped (hs : Held s live bodies frees) (hk : k ∈ s.objectList)
    (hx : x ∈ live k) (hsize : newsize < 2 ^ 32)
    (hlarge : 2 ^ 32 < newsize + rtAlignSize + rtMemheapMinialloc)
    (hfree : newsize + rtAlignSize ≤ 2 ^ 32 →
      ¬ isUsed s.memory (load s.memory (sub32 x.ptr rtMemheapSize) .next)) :
    ∃ s' p, rtRealloc s x.ptr newsize = some (s', p) ∧ p ≠ 0 := by
  have hsk := hs.served k hk
  have hx0 := hsk.ptr_ne_zero hx
  obtain ⟨b, hb, hbu, hbx, -⟩ := hsk.exists_block hx
  have hpool := hs.poolPtr_eq hk hb
  have hmin := hs.least k hk b (mem_usedBlocks.mpr ⟨hb, hbu⟩)
  simp only [rtAlignSize, rtMemheapMinialloc] at hlarge
  have hpos : newsize ≠ 0 := by omega
  rw [← hbx] at hx0 ⊢
  rw [← hbx, hsk.layout.ptr_eq hb] at hfree
  obtain hfits | hwrap := Nat.lt_or_ge (2 ^ 32) (newsize + rtAlignSize)
  · have hreq := request_wrapped hsize hfits
    obtain ⟨-, hlt, -⟩ | ⟨h', c, -, -, hsome, -⟩ := hs.realloc hk hb hbu hpos (.inr (by
        rw [hreq]
        decide))
    · rw [hreq] at hlt
      exact absurd hmin hlt.not_ge
    · rw [← hpool] at hsome
      exact ⟨_, _, rtRealloc_some hx0 hpos hsome (payload_ne_zero c), payload_ne_zero c⟩
  · have hstop := hsk.layout.stop_le hb
    have hroom := hsk.layout.placed.poolSize_le
    have hreq : newsize ≤ request newsize ∧ request newsize < 2 ^ 32 ∧
        2 ^ 32 ≤ request newsize + rtMemheapMinialloc := by
      rw [request_eq]
      simp only [rtAlignSize, rtMemheapMinialloc] at hwrap ⊢
      omega
    simp only [Block.stop, rtMemheapSize, sizeofRtMemheap] at hstop hroom
    obtain ⟨h', hsome⟩ := hsk.layout.overgrow hsk.lock hb hpos hmin (by omega) (hfree hwrap)
      hreq.2.2 hreq.2.1
    refine ⟨s.put h', b.payload, rtRealloc_some hx0 hpos ?_ hx0, hx0⟩
    rw [hpool, Heaps.realloc, guard_bind hk]
    exact bind_of_eq_some hsome _

theorem Held.honoured_realloc (hs : Held s live bodies frees) (hk : k ∈ s.objectList)
    (hx : x ∈ live k) (hsize : newsize < 2 ^ 32) :
    Honoured s (.realloc x.ptr newsize) ↔
      newsize + rtAlignSize + rtMemheapMinialloc ≤ 2 ^ 32 ∨ newsize + rtAlignSize ≤ 2 ^ 32 ∧
        isUsed s.memory (load s.memory (sub32 x.ptr rtMemheapSize) .next) := by
  constructor
  · intro hd
    by_contra! hno
    obtain ⟨s', p, hsome, hp⟩ := hs.realloc_wrapped hk hx hsize hno.1 hno.2
    refine not_honoured (d := .realloc x.ptr newsize) hsome hp ?_ hd
    simp only [Demand.bytes, rtAlignSize, rtMemheapMinialloc, sizeofRtMemheap] at hno ⊢
    omega
  · intro hfits
    obtain rfl | hpos := eq_or_ne newsize 0
    · obtain ⟨s', hfree, -⟩ := Held.returned (u := ⟨s, live⟩) hs (.inr ⟨k, hk, x, hx, rfl⟩)
      have hx0 := (hs.served k hk).ptr_ne_zero hx
      refine ⟨s', 0, ?_, fun h ↦ absurd rfl h, fun _ h ↦ absurd ⟨hx0, rfl⟩ h⟩
      rw [Demand.run, rtRealloc, if_neg hx0, if_pos rfl]
      exact bind_of_eq_some hfree _
    · have hle : newsize ≤ request newsize := by
        refine (request_spec ?_).1
        obtain hfits | ⟨hfits, -⟩ := hfits
        · omega
        · exact hfits
      have hfit := hfits.symm.imp And.right fun h ↦ (fits_of_le h).2
      obtain ⟨hnone, -⟩ | ⟨s', p, hsome, hr⟩ := hs.resize hk hx hpos hle hfit
      · exact honoured_null (d := .realloc x.ptr newsize) hnone
      · exact honoured_backed (d := .realloc x.ptr newsize) hsome hr.backed hr.ptr_ne

end Sizes

/-- An address is returned for a block as large as was meant, or nothing happens, as long as
aligning and adding `MINIALLOC` do not wrap; when they do, only if there is no room. -/
theorem honoured_iff {s : Heaps} {live : ℕ → List Allocation} {bodies : ℕ → List Block}
    {frees : ℕ → List ℕ} (hs : Held s live bodies frees) {d : Demand} (hd : d.Made s live) :
    Honoured s d ↔ d.Fits s bodies := by
  cases d with
  | malloc size => exact hs.honoured_malloc (d := .malloc size) rfl
  | calloc count size => exact hs.honoured_calloc count size
  | realloc rmem newsize =>
    obtain ⟨rfl | ⟨k, hk, x, hx, rfl⟩, hsize⟩ := hd
    · simp only [Demand.Fits, if_true]
      exact hs.honoured_malloc (d := .realloc 0 newsize) (rtRealloc_null s newsize)
    · have hx0 := (hs.served k hk).ptr_ne_zero hx
      simp only [Demand.Fits, hx0, if_false]
      exact hs.honoured_realloc hk hx hsize

theorem honoured_iff_board : Honoured (rtthreadStartup board) (.malloc 16) ↔
    Demand.Fits (rtthreadStartup board)
      (Function.update (fun _ ↦ [board.system.block]) board.extHeap [board.second.block])
      (.malloc 16) :=
  honoured_iff (held_startup board) (d := .malloc 16) (show 16 < 2 ^ 32 by norm_num)

/-- Almost all there is to address is asked for, and twelve bytes are given. -/
theorem malloc_wraps : ¬ ∀ s live bodies frees, Held s live bodies frees →
    ∀ d : Demand, d.Made s live → Honoured s d := by
  intro h
  have hs := held_startup board
  have hd := h _ _ _ _ hs (.malloc (2 ^ 32 - 1)) (show 2 ^ 32 - 1 < 2 ^ 32 by norm_num)
  obtain hsize | hfull := (hs.honoured_malloc (d := .malloc (2 ^ 32 - 1)) rfl).mp hd
  · exact absurd hsize (by decide)
  · exact not_full_startup board (by decide) hfull

end GiantGecko.Rtos.Memheap
