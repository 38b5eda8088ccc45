import GiantGecko.Rtos.MemheapBlocks

namespace GiantGecko.Rtos.Memheap

open Foundation.Bytes Foundation.Links

def RtMemheap.tail (h : RtMemheap) : Block :=
  ⟨h.startAddr + h.poolSize - rtMemheapSize, 0, true⟩

/-- Where the heap and its pool are: apart, and the pool has room for two items. -/
structure Placed (h : RtMemheap) : Prop where
  freeList : h.freeList = freeHeader h.address
  blockList : h.blockList = h.startAddr
  room : 2 * rtMemheapSize ≤ h.poolSize
  fits : h.startAddr + h.poolSize ≤ 2 ^ 32
  inside : h.address + sizeofRtMemheap ≤ 2 ^ 32
  clear : h.address + sizeofRtMemheap ≤ h.startAddr ∨ h.startAddr + h.poolSize ≤ h.address

def headers (freeList : ℕ) (bs : List Block) : Set ℕ :=
  {a | a = freeList ∨ a ∈ bs.map Block.addr}

def RtMemheap.Outside (h : RtMemheap) (i : ℕ) : Prop :=
  (i < h.startAddr ∨ h.startAddr + h.poolSize ≤ i) ∧
    (i < freeHeader h.address ∨ freeHeader h.address + rtMemheapSize ≤ i)

/-- What a heap keeps to between calls, in terms of the blocks before the tail and the
addresses in the free list. -/
structure Layout (h : RtMemheap) (body : List Block) (free : List ℕ) : Prop where
  placed : Placed h
  tiles : Tiles h.startAddr (body ++ [h.tail]) (h.startAddr + h.poolSize)
  threaded : Threaded (headers h.freeList (body ++ [h.tail])) h.address h.freeList h.memory
    (body ++ [h.tail]) free
  isolated : Isolated body
  listed : free.Perm ((freeBlocks body).map Block.addr)
  available : h.availableSize = freeBytes body
  peak : h.poolSize ≤ h.maxUsedSize + h.availableSize

def Intact (b : Block) (m m' : Memory) : Prop :=
  ∀ i, b.payload ≤ i → i < b.stop → m'.byte i = m.byte i

def WrittenIn (b : Block) (m m' : Memory) : Prop :=
  ∀ i, i < b.payload ∨ b.stop ≤ i → m'.byte i = m.byte i

section Reads

variable {T : Set ℕ} {address freeList : ℕ} {m : Memory} {bs u v : List Block} {b c : Block}
  {free : List ℕ} {h : RtMemheap}

theorem mark_and_used (used : Bool) : mark used &&& rtMemheapUsed ≠ 0 ↔ used := by
  cases used <;> decide

theorem mark_and_mask (used : Bool) : mark used &&& rtMemheapMask = rtMemheapMagic := by
  cases used <;> decide

theorem Threaded.isUsed_iff (h : Threaded T address freeList m bs free) (hb : b ∈ bs) :
    isUsed m b.addr ↔ b.used := by
  rw [isUsed, h.marked b hb, mark_and_used]

theorem Threaded.next_isUsed_iff (h : Threaded T address freeList m (u ++ b :: c :: v) free) :
    isUsed m (load m b.addr .next) ↔ c.used := by
  rw [h.neighbours.1, h.isUsed_iff (by simp)]

theorem memitemSize_eq (hn : load m b.addr .next = b.stop) (hb : b.stop < 2 ^ 32) :
    memitemSize m b.addr = b.size := by
  simp only [Block.stop, rtMemheapSize] at hn hb
  rw [memitemSize, hn, sub32_of_le (by omega) hb, sub32_of_le (by simp only [rtMemheapSize]; omega)
    (by omega)]
  simp only [rtMemheapSize]
  omega

theorem mem_headers_of_mem (hb : b ∈ bs) : b.addr ∈ headers freeList bs :=
  .inr (List.mem_map_of_mem hb)

theorem Placed.apart (hp : Placed h) {a n : ℕ} (ha : h.startAddr ≤ a)
    (hn : a + n ≤ h.startAddr + h.poolSize) :
    h.freeList + rtMemheapSize ≤ a ∨ a + n ≤ h.freeList := by
  have hi := hp.inside
  have hc := hp.clear
  rw [hp.freeList]
  simp only [freeHeader, sizeofRtMemheap, rtMemheapSize] at *
  omega

theorem Placed.poolSize_le (hp : Placed h) : h.poolSize + sizeofRtMemheap ≤ 2 ^ 32 := by
  have hf := hp.fits
  have hi := hp.inside
  have hc := hp.clear
  omega

theorem Placed.items (hp : Placed h) (ht : Tiles h.startAddr bs (h.startAddr + h.poolSize)) :
    Items (headers h.freeList bs) := by
  have hin : ∀ b ∈ bs, h.startAddr ≤ b.addr ∧
      b.addr + rtMemheapSize ≤ h.startAddr + h.poolSize := by
    intro b hb
    exact ⟨(ht.bounds hb).1, b.addr_lt_stop.trans (ht.bounds hb).2⟩
  refine ⟨?_, ?_⟩
  · intro p hpT q hqT hpq
    obtain rfl | hpT := hpT
    · obtain rfl | hqT := hqT
      · exact absurd rfl hpq
      · obtain ⟨c, hc, rfl⟩ := List.mem_map.mp hqT
        exact hp.apart (hin c hc).1 (hin c hc).2
    · obtain ⟨b, hb, rfl⟩ := List.mem_map.mp hpT
      obtain rfl | hqT := hqT
      · exact (hp.apart (hin b hb).1 (hin b hb).2).symm
      · obtain ⟨c, hc, rfl⟩ := List.mem_map.mp hqT
        obtain h | h := ht.apart hb hc fun hcb ↦ hpq (by rw [hcb])
        · exact .inr (c.addr_lt_stop.trans h)
        · exact .inl (b.addr_lt_stop.trans h)
  · intro p hpT
    have hfits := hp.fits
    have hi := hp.inside
    obtain rfl | hpT := hpT
    · rw [hp.freeList]
      simp only [freeHeader, sizeofRtMemheap] at hi ⊢
      omega
    · obtain ⟨b, hb, rfl⟩ := List.mem_map.mp hpT
      have hb := (hin b hb).2
      simp only [rtMemheapSize] at hb
      omega

theorem Placed.intact (hp : Placed h) (ht : Tiles h.startAddr bs (h.startAddr + h.poolSize))
    {m' : Memory} (hk : Kept (headers h.freeList bs) m m') (hb : b ∈ bs) : Intact b m m' := by
  intro i hi hi'
  refine hk i ?_
  have hin := ht.bounds hb
  rintro p (rfl | hpT)
  · have h := hp.apart (n := i + 1 - b.addr) hin.1
      (by simp only [Block.payload, rtMemheapSize] at hi; omega)
    simp only [Block.payload] at hi
    omega
  · obtain ⟨c, hc, rfl⟩ := List.mem_map.mp hpT
    have hs := c.addr_lt_stop
    simp only [Block.payload] at hi
    obtain rfl | hne := Classical.em (c = b)
    · exact .inr hi
    · obtain h | h := ht.apart hb hc hne
      · omega
      · omega

theorem Placed.outside (hp : Placed h) (ht : Tiles h.startAddr bs (h.startAddr + h.poolSize))
    {m' : Memory} (hk : Kept (headers h.freeList bs) m m') {i : ℕ} (hi : h.Outside i) :
    m'.byte i = m.byte i := by
  refine hk i ?_
  rintro p (rfl | hpT)
  · rw [hp.freeList]
    exact hi.2
  · obtain ⟨c, hc, rfl⟩ := List.mem_map.mp hpT
    have hin := ht.bounds hc
    exact hi.1.imp (fun hlt ↦ hlt.trans_le hin.1) (c.addr_lt_stop.trans hin.2).trans

end Reads

section Layouts

variable {h : RtMemheap} {body u v : List Block} {free : List ℕ} {b c : Block}

theorem Layout.mem_free (hl : Layout h body free) {a : ℕ} :
    a ∈ free ↔ ∃ b ∈ body, b.used = false ∧ b.addr = a := by
  rw [hl.listed.mem_iff]
  simp [and_assoc]

theorem Layout.stop_le (hl : Layout h body free) (hb : b ∈ body) :
    h.startAddr ≤ b.addr ∧ b.stop + rtMemheapSize ≤ h.startAddr + h.poolSize := by
  have ht := tiles_append.mp hl.tiles
  have hroom := hl.placed.room
  obtain ⟨hs, he⟩ := ht.1.bounds hb
  refine ⟨hs, ?_⟩
  simp only [RtMemheap.tail, rtMemheapSize] at he hroom ⊢
  omega

theorem Layout.apart (hl : Layout h body free) (hb : b ∈ body) (hc : c ∈ body) (hne : c ≠ b) :
    c.stop ≤ b.addr ∨ b.stop ≤ c.addr :=
  hl.tiles.apart (List.mem_append_left _ hb) (List.mem_append_left _ hc) hne

theorem Layout.not_outside (hl : Layout h body free) (hb : b ∈ body) {i : ℕ} (hi : b.addr ≤ i)
    (hi' : i < b.stop) : ¬ h.Outside i := by
  have hstop := hl.stop_le hb
  simp only [RtMemheap.Outside]
  omega

theorem Layout.exists_next (h : RtMemheap) (u : List Block) (b : Block) (v : List Block) :
    ∃ c w, v ++ [h.tail] = c :: w ∧ u ++ b :: v ++ [h.tail] = u ++ b :: c :: w := by
  cases v with
  | nil => exact ⟨h.tail, [], rfl, by simp⟩
  | cons c v => exact ⟨c, v ++ [h.tail], rfl, by simp⟩

theorem Layout.next_eq (hl : Layout h body free) (hb : b ∈ body) :
    load h.memory b.addr .next = b.stop := by
  obtain ⟨u, v, rfl⟩ := List.append_of_mem hb
  obtain ⟨c, w, -, hc⟩ := Layout.exists_next h u b v
  have ht := hl.tiles
  have hth := hl.threaded
  rw [hc] at ht hth
  rw [hth.neighbours.1, ht.next]

theorem Layout.addr_lt_next (hl : Layout h body free) (hb : b ∈ body) :
    b.addr < load h.memory b.addr .next := by
  have hnext := hl.next_eq hb
  have hs := b.addr_lt_stop
  simp only [rtMemheapSize] at hs
  omega

theorem Layout.memitemSize_eq (hl : Layout h body free) (hb : b ∈ body) :
    memitemSize h.memory b.addr = b.size := by
  refine Memheap.memitemSize_eq (hl.next_eq hb) ?_
  have hs := (hl.stop_le hb).2
  have hf := hl.placed.fits
  simp only [rtMemheapSize] at hs
  omega

theorem Layout.free_length (hl : Layout h body free) :
    rtMemheapSize * (free.length + 1) ≤ h.poolSize := by
  have hlen := hl.tiles.length_le
  have hfree : free.length ≤ body.length := by
    rw [hl.listed.length_eq, List.length_map]
    exact List.length_filter_le ..
  simp only [List.length_append, List.length_cons, List.length_nil, rtMemheapSize] at hlen ⊢
  omega

/-- The walk ends, at a block with room enough if there is one. -/
theorem findFree_spec {m : Memory} {freeList size p freeSize turns : ℕ} {l : List ℕ}
    (h : Path (load m · .nextFree) (load m · .prevFree) p l freeList) (hl : freeList ∉ l)
    (hsize : freeSize < size) (hturns : l.length + 2 ≤ turns) :
    ∃ x s, findFree m freeList size turns (load m p .nextFree) freeSize = some (x, s) ∧
      (x ∈ l ∧ s = memitemSize m x ∧ size ≤ s ∨
        s < size ∧ ∀ a ∈ l, memitemSize m a < size) := by
  induction l generalizing p freeSize turns with
  | nil =>
    obtain ⟨turns, rfl⟩ := Nat.exists_eq_add_of_le' hturns
    refine ⟨freeList, freeSize, ?_, .inr ⟨hsize, by simp⟩⟩
    simp only [findFree, h.1, ne_eq, not_true_eq_false, false_and, if_false]
  | cons a l ih =>
    rw [List.length_cons] at hturns
    obtain ⟨turns, rfl⟩ := Nat.exists_eq_add_of_le' (Nat.le_of_add_left_le hturns)
    have hn : load m p .nextFree = a := h.1.1
    have ha : a ≠ freeList := fun ha ↦ hl (ha ▸ List.mem_cons_self ..)
    have hl' : freeList ∉ l := fun hm ↦ hl (List.mem_cons_of_mem a hm)
    obtain hlt | hge := Nat.lt_or_ge (memitemSize m a) size
    · have hturns' : l.length + 2 ≤ turns + 1 := by omega
      obtain ⟨x, s, hx, hs⟩ := ih h.2 hl' hlt hturns'
      refine ⟨x, s, ?_, ?_⟩
      · rw [hn, findFree, if_pos ⟨ha, hsize⟩]
        simp only [hlt, if_true, hx]
      · refine hs.imp (fun hm ↦ ⟨List.mem_cons_of_mem a hm.1, hm.2⟩) fun hm ↦ ⟨hm.1, ?_⟩
        exact List.forall_mem_cons.mpr ⟨hlt, hm.2⟩
    · refine ⟨a, memitemSize m a, ?_, .inl ⟨List.mem_cons_self .., rfl, hge⟩⟩
      rw [hn, findFree, if_pos ⟨ha, hsize⟩]
      simp only [hge.not_gt, if_false, findFree, and_false]

end Layouts

end GiantGecko.Rtos.Memheap
