import GiantGecko.Rtos.MemheapLayout

namespace GiantGecko.Rtos.Memheap

open Foundation.Bytes Foundation.Links

/-- A call has taken some blocks out of use and others into use, and has left the bytes
of the rest as they were, and all that is not of the heap. -/
structure Turns (h h' : RtMemheap) (body body' gone come : List Block) : Prop where
  startAddr : h'.startAddr = h.startAddr
  poolSize : h'.poolSize = h.poolSize
  address : h'.address = h.address
  lock : h'.lock = h.lock
  peak : h.maxUsedSize ≤ h'.maxUsedSize
  outside : ∀ i, h.Outside i → h'.memory.byte i = h.memory.byte i
  rest : ∃ rest, (usedBlocks body).Perm (gone ++ rest) ∧ (usedBlocks body').Perm (come ++ rest) ∧
    ∀ c ∈ rest, Intact c h.memory h'.memory

theorem bind_of_eq_some {α β : Type} {o : Option α} {a : α} (h : o = some a)
    (f : α → Option β) : (o >>= f) = f a := by
  rw [h]
  rfl

theorem noteUsed_eq (h : RtMemheap) : h.noteUsed =
    { h with maxUsedSize := max h.maxUsedSize (sub32 h.poolSize h.availableSize) } := by
  rw [RtMemheap.noteUsed]
  split_ifs with hlt
  · rw [max_eq_right hlt.le]
  · rw [max_eq_left (not_lt.mp hlt)]

section Settle

variable {h : RtMemheap} {body body' u v : List Block} {free free' r s : List ℕ} {b c : Block}
  {m' : Memory} {availableSize maxUsedSize : ℕ}

/-- The heap after a call, from what the call has done. -/
theorem Layout.settle {h' : RtMemheap} {gone come : List Block} (hl : Layout h body free)
    (rest : List Block) (hh' : h' = { h with memory := m', availableSize, maxUsedSize })
    (ht : Tiles h.startAddr (body' ++ [h.tail]) (h.startAddr + h.poolSize))
    (hth : Threaded (headers h.freeList (body' ++ [h.tail])) h.address h.freeList m'
      (body' ++ [h.tail]) free')
    (hi : Isolated body') (hlisted : free'.Perm ((freeBlocks body').map Block.addr))
    (havail : availableSize = freeBytes body')
    (hpeak : h.poolSize ≤ maxUsedSize + availableSize) (hmax : h.maxUsedSize ≤ maxUsedSize)
    (hgone : (usedBlocks body).Perm (gone ++ rest))
    (hcome : (usedBlocks body').Perm (come ++ rest))
    (hrest : ∀ c ∈ rest, Intact c h.memory m')
    (hout : ∀ i, h.Outside i → m'.byte i = h.memory.byte i) :
    Layout h' body' free' ∧ Turns h h' body body' gone come := by
  subst hh'
  refine ⟨⟨?_, ht, hth, hi, hlisted, havail, hpeak⟩,
    rfl, rfl, rfl, rfl, hmax, hout, rest, hgone, hcome, hrest⟩
  have hp := hl.placed
  exact ⟨hp.freeList, hp.blockList, hp.room, hp.fits, hp.inside, hp.clear⟩

theorem Placed.rethread {T : Set ℕ} (hp : Placed h)
    (ht : Tiles h.startAddr (body ++ [h.tail]) (h.startAddr + h.poolSize))
    (hth : Threaded T h.address h.freeList m' (body ++ [h.tail]) free)
    (hlisted : free.Perm ((freeBlocks body).map Block.addr)) :
    Threaded (headers h.freeList (body ++ [h.tail])) h.address h.freeList m'
      (body ++ [h.tail]) free := by
  refine hth.change (hp.items ht) (fun c hc ↦ mem_headers_of_mem hc) ?_
  intro a ha
  obtain rfl | ha := List.mem_cons.mp ha
  · exact .inl rfl
  · obtain ⟨c, hc, rfl⟩ := List.mem_map.mp (hlisted.mem_iff.mp ha)
    exact mem_headers_of_mem (List.mem_append_left _ (mem_freeBlocks.mp hc).1)

theorem Layout.relock (hl : Layout h body free) (lock : ℕ) :
    Layout { h with lock } body free := by
  have hp := hl.placed
  exact ⟨⟨hp.freeList, hp.blockList, hp.room, hp.fits, hp.inside, hp.clear⟩, hl.tiles,
    hl.threaded, hl.isolated, hl.listed, hl.available, hl.peak⟩

theorem WrittenIn.put {m : Memory} {i : ℕ} (hi : b.payload ≤ i) (hi' : i < b.stop) (v : UInt8) :
    WrittenIn b m (m.put i v) := by
  intro j hj
  exact Memory.put_of_ne (by omega) v

theorem WrittenIn.moved {n : ℕ} (m : Memory) (src : ℕ) (hn : n ≤ b.size) :
    WrittenIn b m (m.moved b.payload src n) := by
  intro i hi
  refine Memory.moved_of_outside ?_
  simp only [Block.payload, Block.stop] at hi ⊢
  omega

theorem WrittenIn.filled {n : ℕ} (m : Memory) (v : UInt8) (hn : n ≤ b.size) :
    WrittenIn b m (m.filled b.payload v n) := by
  intro i hi
  refine Memory.filled_of_outside ?_
  simp only [Block.payload, Block.stop] at hi ⊢
  omega

theorem WrittenIn.intact (hm : WrittenIn b h.memory m') (hl : Layout h body free) (hb : b ∈ body)
    (hc : c ∈ body) (hne : c ≠ b) : Intact c h.memory m' := by
  intro i hi hi'
  refine hm i ?_
  have hapart := hl.apart hb hc hne
  simp only [Block.payload, Block.stop] at hi hi' hapart ⊢
  omega

theorem WrittenIn.outside {i : ℕ} (hm : WrittenIn b h.memory m') (hl : Layout h body free)
    (hb : b ∈ body) (hi : h.Outside i) : m'.byte i = h.memory.byte i := by
  refine hm i ?_
  by_contra! hin
  refine hl.not_outside hb ?_ hin.2 hi
  exact (Nat.le_add_right _ _).trans hin.1

theorem Layout.agree (hl : Layout h body free)
    (hm : ∀ p ∈ headers h.freeList (body ++ [h.tail]), ∀ i, p ≤ i → i < p + rtMemheapSize →
      m'.byte i = h.memory.byte i) : Layout { h with memory := m' } body free := by
  have hp := hl.placed
  exact ⟨⟨hp.freeList, hp.blockList, hp.room, hp.fits, hp.inside, hp.clear⟩, hl.tiles,
    hl.threaded.rewrite hm, hl.isolated, hl.listed, hl.available, hl.peak⟩

theorem Layout.rewrite (hl : Layout h body free) (hb : b ∈ body) (hm : WrittenIn b h.memory m') :
    Layout { h with memory := m' } body free := by
  have hp := hl.placed
  have hbt : b ∈ body ++ [h.tail] := List.mem_append_left _ hb
  have hin := hl.tiles.bounds hbt
  refine hl.agree ?_
  intro p hpT i hi hi'
  refine hm i ?_
  simp only [Block.payload]
  obtain rfl | hpT := hpT
  · have hap := hp.apart (n := b.stop - b.addr) hin.1 (by have := b.addr_lt_stop; omega)
    omega
  · obtain ⟨c, hc, rfl⟩ := List.mem_map.mp hpT
    obtain rfl | hne := Classical.em (c = b)
    · exact .inl hi'
    · have hs := c.addr_lt_stop
      obtain hap | hap := hl.tiles.apart hbt hc hne
      · omega
      · omega

theorem Layout.exists_listed (hl : Layout h (u ++ b :: v) free) (hb : b.used = false) :
    ∃ r s, free = r ++ b.addr :: s ∧ (r ++ s).Perm ((freeBlocks (u ++ v)).map Block.addr) := by
  obtain ⟨r, s, rfl⟩ := List.append_of_mem (hl.mem_free.mpr ⟨b, by simp, hb, rfl⟩)
  refine ⟨r, s, rfl, ?_⟩
  have hp := List.perm_middle.symm.trans hl.listed
  simp only [freeBlocks_append, freeBlocks_cons, hb, Bool.false_eq_true, if_false, List.map_append,
    List.map_cons] at hp ⊢
  exact (hp.trans List.perm_middle).cons_inv

theorem Placed.notMem_free (hp : Placed h)
    (ht : Tiles h.startAddr (u ++ b :: v) (h.startAddr + h.poolSize))
    (hsub : ∀ a ∈ free, a ∈ (u ++ v).map Block.addr) : b.addr ∉ h.freeList :: free := by
  have hin := ht.bounds (b := b) (by simp)
  have hap := hp.apart hin.1 (b.addr_lt_stop.trans hin.2)
  simp only [rtMemheapSize] at hap
  rw [List.mem_cons, not_or]
  refine ⟨by omega, ?_⟩
  exact fun hb ↦ ht.addr_notMem (hsub _ hb)

end Settle

theorem Placed.noted {h : RtMemheap} {body : List Block} (hp : Placed h)
    (ht : Tiles h.startAddr (body ++ [h.tail]) (h.startAddr + h.poolSize)) (x : ℕ) :
    h.poolSize ≤ max x (sub32 h.poolSize (freeBytes body)) + freeBytes body := by
  have hle := ht.freeBytes_le
  rw [freeBytes_append] at hle
  have hpool := hp.poolSize_le
  simp only [sizeofRtMemheap] at hpool
  rw [sub32_of_le (by omega) (by omega)]
  omega

section Pieces

variable {h : RtMemheap} {T : Set ℕ} {m : Memory} {u v : List Block} {b n : Block}
  {free : List ℕ} {size : ℕ}

theorem Threaded.cut (hp : Placed h)
    (ht : Tiles h.startAddr (u ++ b :: v) (h.startAddr + h.poolSize))
    (hth : Threaded T h.address h.freeList m (u ++ b :: v) free)
    (hsub : ∀ a ∈ free, a ∈ (u ++ b :: v).map Block.addr)
    (hn : n.addr = b.addr + rtMemheapSize + size) (hs : n.stop = b.stop)
    (hfree : n.used = false) :
    Threaded (headers h.freeList (u ++ { b with size } :: n :: v)) h.address h.freeList
        (Memheap.buildBlock m h.address b.addr n.addr) (u ++ { b with size } :: n :: v) free ∧
      Kept (headers h.freeList (u ++ { b with size } :: n :: v)) m
        (Memheap.buildBlock m h.address b.addr n.addr) := by
  have ht' := ht.split hn hs
  have haddr : ∀ a ∈ (u ++ b :: v).map Block.addr,
      a ∈ headers h.freeList (u ++ { b with size } :: n :: v) := by
    intro a ha
    refine .inr ?_
    simp only [List.map_append, List.map_cons, List.mem_append, List.mem_cons] at ha ⊢
    tauto
  have hnew : n.addr ∉ (u ++ b :: v).map Block.addr := by
    rw [List.append_cons] at ht'
    simpa using ht'.addr_notMem
  have hth' := hth.change (hp.items ht') (List.forall_mem_map.mp haddr) ?_
  · obtain ⟨hb, hk⟩ := hth'.buildBlock (mem_headers_of_mem (by simp)) hnew hfree
      (Nat.lt_of_lt_of_le (by simp [sizeofRtMemheap]) hp.inside)
    exact ⟨hb.resize size, hk⟩
  · intro a ha
    obtain rfl | ha := List.mem_cons.mp ha
    · exact .inl rfl
    · exact haddr a (hsub a ha)

end Pieces

section Alloc

variable {h : RtMemheap} {body u v : List Block} {b n : Block} {r s free : List ℕ} {size : ℕ}

theorem headers_congr {freeList : ℕ} {bs bs' : List Block}
    (h : bs.map Block.addr = bs'.map Block.addr) : headers freeList bs = headers freeList bs' := by
  simp only [headers, h]

theorem Layout.split_memory (hl : Layout h (u ++ b :: v) (r ++ b.addr :: s))
    (hperm : (r ++ s).Perm ((freeBlocks (u ++ v)).map Block.addr)) (hb : b.used = false)
    (hn : n.addr = b.addr + rtMemheapSize + size) (hs : n.stop = b.stop)
    (hfree : n.used = false)
    (hnew : add32 (add32 b.addr size) rtMemheapSize = n.addr) :
    Threaded (headers h.freeList (u ++ { b with size, used := true } :: n :: v ++ [h.tail]))
        h.address h.freeList (markUsed (allocSplit h b.addr size) b.addr).memory
        (u ++ { b with size, used := true } :: n :: v ++ [h.tail]) (n.addr :: (r ++ s)) ∧
      Kept (headers h.freeList (u ++ { b with size, used := true } :: n :: v ++ [h.tail]))
        h.memory (markUsed (allocSplit h b.addr size) b.addr).memory := by
  have hfull : u ++ b :: v ++ [h.tail] = u ++ b :: (v ++ [h.tail]) := by simp
  have hfull' : u ++ { b with size, used := true } :: n :: v ++ [h.tail] =
      u ++ { b with size, used := true } :: n :: (v ++ [h.tail]) := by simp
  have ht := hl.tiles
  have hth := hl.threaded
  rw [hfull] at ht hth
  have ht' := ht.split hn hs
  have hsub : ∀ a ∈ r ++ b.addr :: s, a ∈ (u ++ b :: (v ++ [h.tail])).map Block.addr := by
    intro a ha
    refine mem_map_of_listed hl.listed ?_ ha
    rw [← hfull]
    exact List.subset_append_left ..
  have hnot : n.addr ∉ h.freeList :: (r ++ s) := by
    refine hl.placed.notMem_free (u := u ++ [{ b with size }]) (by simpa using ht') ?_
    exact fun a ha ↦ mem_map_of_listed hperm (by grind) ha
  have hheaders : headers h.freeList (u ++ { b with size, used := true } :: n :: (v ++ [h.tail])) =
      headers h.freeList (u ++ { b with size } :: n :: (v ++ [h.tail])) := headers_congr (by simp)
  obtain ⟨h₁, k₁⟩ := hth.cut hl.placed ht hsub hn hs hfree
  obtain ⟨h₂, k₂⟩ := h₁.removeFree
  have hbT := h₂.blocks_mem { b with size } (by simp)
  obtain ⟨h₃, k₃⟩ := h₂.storeFree (w := 0) hbT h₁.notMem_removed (.inl rfl) (by norm_num)
  obtain ⟨h₄, k₄⟩ := h₃.storeFree (w := 0) hbT h₁.notMem_removed (.inr rfl) (by norm_num)
  obtain ⟨h₅, k₅⟩ := h₄.insertFree (h₄.blocks_mem n (by simp)) hnot
  obtain ⟨h₆, k₆⟩ := h₅.markUsed hb
  rw [hfull', hheaders]
  simp only [Memheap.markUsed, allocSplit, noteUsed_eq, hnew]
  exact ⟨h₆, ((((k₁.trans k₂).trans k₃).trans k₄).trans k₅).trans k₆⟩

theorem Layout.whole_memory (hl : Layout h (u ++ b :: v) (r ++ b.addr :: s))
    (hb : b.used = false) (freeSize : ℕ) :
    Threaded (headers h.freeList (u ++ { b with used := true } :: v ++ [h.tail]))
        h.address h.freeList (markUsed (allocWhole h b.addr freeSize) b.addr).memory
        (u ++ { b with used := true } :: v ++ [h.tail]) (r ++ s) ∧
      Kept (headers h.freeList (u ++ { b with used := true } :: v ++ [h.tail]))
        h.memory (markUsed (allocWhole h b.addr freeSize) b.addr).memory := by
  have hfull : u ++ b :: v ++ [h.tail] = u ++ b :: (v ++ [h.tail]) := by simp
  have hfull' : u ++ { b with used := true } :: v ++ [h.tail] =
      u ++ { b with used := true } :: (v ++ [h.tail]) := by simp
  have hheaders : headers h.freeList (u ++ { b with used := true } :: (v ++ [h.tail])) =
      headers h.freeList (u ++ b :: (v ++ [h.tail])) := headers_congr (by simp)
  have hth := hl.threaded
  rw [hfull] at hth
  obtain ⟨h₂, k₂⟩ := hth.removeFree
  have hbT := h₂.blocks_mem b (by simp)
  obtain ⟨h₃, k₃⟩ := h₂.storeFree (w := 0) hbT hth.notMem_removed (.inl rfl) (by norm_num)
  obtain ⟨h₄, k₄⟩ := h₃.storeFree (w := 0) hbT hth.notMem_removed (.inr rfl) (by norm_num)
  obtain ⟨h₆, k₆⟩ := h₄.markUsed hb
  rw [hfull', hheaders]
  simp only [Memheap.markUsed, allocWhole, noteUsed_eq]
  exact ⟨h₆, ((k₂.trans k₃).trans k₄).trans k₆⟩

theorem Layout.split (hl : Layout h (u ++ b :: v) free) (hb : b.used = false)
    (hsize : size + rtMemheapSize + rtMemheapMinialloc ≤ b.size) :
    ∃ body' free', Layout (markUsed (allocSplit h b.addr size) b.addr) body' free' ∧
      Turns h (markUsed (allocSplit h b.addr size) b.addr) (u ++ b :: v) body' []
        [{ b with size, used := true }] := by
  obtain ⟨r, s, rfl, hperm⟩ := hl.exists_listed hb
  have hstop := (hl.stop_le (b := b) (by simp)).2
  have hfits := hl.placed.fits
  have hpool := hl.placed.poolSize_le
  have hbytes := hl.tiles.freeBytes_le
  simp only [Block.stop, rtMemheapSize, rtMemheapMinialloc, sizeofRtMemheap] at hsize hstop hpool
  let n : Block := ⟨b.addr + rtMemheapSize + size, b.size - size - rtMemheapSize, false⟩
  have hna : n.addr = b.addr + rtMemheapSize + size := rfl
  have hn : add32 (add32 b.addr size) rtMemheapSize = n.addr := by
    simp only [rtMemheapSize, n]
    rw [add32_of_lt (a := b.addr) (by omega), add32_of_lt (by omega)]
    omega
  have hns : n.stop = b.stop := by
    simp only [n, Block.stop, rtMemheapSize]
    omega
  have ht : Tiles h.startAddr (u ++ { b with size, used := true } :: n :: v ++ [h.tail])
      (h.startAddr + h.poolSize) := by
    have ht := hl.tiles
    rw [List.append_assoc, List.cons_append] at ht
    simpa [tiles_append, Block.stop] using ht.split hna hns
  obtain ⟨hth, hk⟩ := hl.split_memory hperm hb hna hns rfl hn
  have havail : sub32 (sub32 h.availableSize size) rtMemheapSize =
      freeBytes (u ++ { b with size, used := true } :: n :: v) := by
    simp only [hl.available, freeBytes_append, freeBytes_cons, hb, n, Bool.false_eq_true,
      if_false, if_true, List.length_append, List.length_cons, List.length_nil, freeBytes_nil,
      rtMemheapSize] at hbytes ⊢
    rw [sub32_of_le (a := _ + _) (by omega) (by omega), sub32_of_le (by omega) (by omega)]
    omega
  have hiso : Isolated (u ++ { b with size, used := true } :: n :: v) := by
    have hiso := hl.isolated
    simp only [isolated_append, isolated_cons, List.head?_cons, Option.mem_def, Option.some.injEq,
      hb, n] at hiso ⊢
    grind
  have hlisted := perm_freeBlocks (b := n) (u := u ++ [{ b with size, used := true }]) (v := v)
    (by simpa using hperm) rfl
  have hrec : markUsed (allocSplit h b.addr size) b.addr =
      { h with
        memory := (markUsed (allocSplit h b.addr size) b.addr).memory
        availableSize := sub32 (sub32 h.availableSize size) rtMemheapSize
        maxUsedSize := max h.maxUsedSize
          (sub32 h.poolSize (sub32 (sub32 h.availableSize size) rtMemheapSize)) } := by
    simp only [markUsed, allocSplit, noteUsed_eq]
  refine ⟨u ++ { b with size, used := true } :: n :: v, n.addr :: (r ++ s), ?_⟩
  refine hl.settle (usedBlocks (u ++ v)) hrec ht hth hiso (by simpa using hlisted) havail ?_
    (le_max_left ..) ?_ ?_ ?_ fun i hi ↦ ?_
  · rw [havail]
    exact hl.placed.noted ht h.maxUsedSize
  · simp [hb]
  · exact (perm_usedBlocks rfl).trans (by simp [n])
  · intro c hc
    refine hl.placed.intact ht hk ?_
    obtain hc | hc := List.mem_append.mp (mem_usedBlocks.mp hc).1
    all_goals simp [hc]
  · exact hl.placed.outside ht hk hi

theorem Layout.whole (hl : Layout h (u ++ b :: v) free) (hb : b.used = false) :
    ∃ body' free', Layout (markUsed (allocWhole h b.addr b.size) b.addr) body' free' ∧
      Turns h (markUsed (allocWhole h b.addr b.size) b.addr) (u ++ b :: v) body' []
        [{ b with used := true }] := by
  obtain ⟨r, s, rfl, hperm⟩ := hl.exists_listed hb
  have hpool := hl.placed.poolSize_le
  have hbytes := hl.tiles.freeBytes_le
  have ht : Tiles h.startAddr (u ++ { b with used := true } :: v ++ [h.tail])
      (h.startAddr + h.poolSize) := by
    simpa [tiles_append, Block.stop] using hl.tiles
  obtain ⟨hth, hk⟩ := hl.whole_memory hb b.size
  have havail : sub32 h.availableSize b.size = freeBytes (u ++ { b with used := true } :: v) := by
    simp only [hl.available, freeBytes_append, freeBytes_cons, hb, Bool.false_eq_true,
      if_false, if_true, sizeofRtMemheap] at hbytes hpool ⊢
    rw [sub32_of_le (by omega) (by omega)]
    omega
  have hiso : Isolated (u ++ { b with used := true } :: v) := by
    have hiso := hl.isolated
    simp only [isolated_append, isolated_cons, List.head?_cons, Option.mem_def, Option.some.injEq,
      hb] at hiso ⊢
    grind
  refine ⟨u ++ { b with used := true } :: v, r ++ s, ?_⟩
  have hrec : markUsed (allocWhole h b.addr b.size) b.addr =
      { h with
        memory := (markUsed (allocWhole h b.addr b.size) b.addr).memory
        availableSize := sub32 h.availableSize b.size
        maxUsedSize := max h.maxUsedSize
          (sub32 h.poolSize (sub32 h.availableSize b.size)) } := by
    simp only [markUsed, allocWhole, noteUsed_eq]
  refine hl.settle (usedBlocks (u ++ v)) hrec ht hth hiso (by simpa using hperm) havail ?_
    (le_max_left ..) ?_ ?_ ?_ fun i hi ↦ ?_
  · rw [havail]
    exact hl.placed.noted ht h.maxUsedSize
  · simp [hb]
  · exact perm_usedBlocks rfl
  · intro c hc
    refine hl.placed.intact ht hk ?_
    obtain hc | hc := List.mem_append.mp (mem_usedBlocks.mp hc).1
    all_goals simp [hc]
  · exact hl.placed.outside ht hk hi

theorem rtAlign_eq (size : ℕ) : rtAlign size rtAlignSize = (size + 3) % 2 ^ 32 / 2 ^ 2 * 2 ^ 2 := by
  have hsum : sub32 (add32 size rtAlignSize) 1 = (size + 3) % 2 ^ 32 := by
    simp only [sub32, add32, rtAlignSize]
    omega
  rw [rtAlign, hsum]
  exact and_mask (k := 2) (Nat.mod_lt _ (by norm_num)) (by norm_num)

theorem request_eq (size : ℕ) :
    request size = max rtMemheapMinialloc ((size + 3) % 2 ^ 32 / 2 ^ 2 * 2 ^ 2) := by
  simp only [request, rtAlign_eq]
  split_ifs with hlt
  · exact (max_eq_left hlt.le).symm
  · exact (max_eq_right (not_lt.mp hlt)).symm

theorem le_request (size : ℕ) : rtMemheapMinialloc ≤ request size := by
  rw [request_eq]
  exact le_max_left ..

theorem request_request (size : ℕ) : request (request size) = request size := by
  simp only [request_eq, rtMemheapMinialloc]
  omega

theorem request_spec (h : size + rtAlignSize ≤ 2 ^ 32) :
    size ≤ request size ∧ request size ≤ size + rtMemheapMinialloc := by
  rw [request_eq]
  simp only [rtAlignSize, rtMemheapMinialloc] at h ⊢
  omega

theorem Turns.unlock {h' : RtMemheap} {body body' gone come : List Block}
    (ht : Turns { h with lock := h.lock - 1 } h' body body' gone come) (hlock : h.lock = 1) :
    Turns h h'.rtSemRelease body body' gone come := by
  have hl := ht.lock
  simp only [hlock] at hl
  refine ⟨ht.startAddr, ht.poolSize, ht.address, ?_, ht.peak, ht.outside, ht.rest⟩
  rw [hlock]
  norm_num [RtMemheap.rtSemRelease, hl]

theorem rtSemTake_eq (hlock : h.lock = 1) :
    h.rtSemTake = some { h with lock := h.lock - 1 } := by
  simp [RtMemheap.rtSemTake, hlock]

theorem rtSemRelease_eq (hlock : h.lock = 1) :
    RtMemheap.rtSemRelease { h with lock := h.lock - 1 } = h := by
  obtain ⟨⟩ := h
  simp_all [RtMemheap.rtSemRelease]

theorem rtSemRelease_memory (h : RtMemheap) : h.rtSemRelease.memory = h.memory := rfl

theorem Layout.release {h' : RtMemheap} (hl : Layout h' body free) :
    Layout h'.rtSemRelease body free := hl.relock _

theorem Layout.grant (hl : Layout h (u ++ b :: v) free) (hlock : h.lock = 1)
    (hb : b.used = false) (hsize : size ≤ b.size) :
    ∃ c body' free',
      Layout (markUsed (if add32 (add32 size rtMemheapSize) rtMemheapMinialloc ≤ b.size
        then allocSplit { h with lock := h.lock - 1 } b.addr size
        else allocWhole { h with lock := h.lock - 1 } b.addr b.size) b.addr).rtSemRelease
        body' free' ∧
      Turns h (markUsed (if add32 (add32 size rtMemheapSize) rtMemheapMinialloc ≤ b.size
        then allocSplit { h with lock := h.lock - 1 } b.addr size
        else allocWhole { h with lock := h.lock - 1 } b.addr b.size) b.addr).rtSemRelease
        (u ++ b :: v) body' [] [c] ∧
      c.payload = add32 b.addr rtMemheapSize ∧ size ≤ c.size := by
  have hstop := (hl.stop_le (b := b) (by simp)).2
  have hfits := hl.placed.fits
  simp only [Block.stop, rtMemheapSize] at hstop
  have hsizes : add32 (add32 size rtMemheapSize) rtMemheapMinialloc =
      size + rtMemheapSize + rtMemheapMinialloc := by
    have hsum : size + rtMemheapSize < 2 ^ 32 := by
      simp only [rtMemheapSize]
      omega
    rw [add32_of_lt hsum, add32_of_lt]
    simp only [rtMemheapSize, rtMemheapMinialloc]
    omega
  have hptr : add32 b.addr rtMemheapSize = b.addr + rtMemheapSize := by
    simp only [rtMemheapSize]
    exact add32_of_lt (by omega)
  rw [hptr, hsizes]
  split_ifs with hroom
  · obtain ⟨body', free', hl', ht⟩ := (hl.relock (h.lock - 1)).split hb hroom
    exact ⟨_, body', free', hl'.release, ht.unlock hlock, rfl, le_rfl⟩
  · obtain ⟨body', free', hl', ht⟩ := (hl.relock (h.lock - 1)).whole hb
    exact ⟨_, body', free', hl'.release, ht.unlock hlock, rfl, hsize⟩

theorem alloc_eq {x y : ℕ} (hlock : h.lock = 1) (hlt : request size < h.availableSize)
    (hfind : findFree h.memory h.freeList (request size) (h.poolSize + 1)
      (load h.memory h.freeList .nextFree) 0 = some (x, y)) :
    rtMemheapAlloc h size =
      if request size ≤ y then
        some ((markUsed (if add32 (add32 (request size) rtMemheapSize) rtMemheapMinialloc ≤ y
          then allocSplit { h with lock := h.lock - 1 } x (request size)
          else allocWhole { h with lock := h.lock - 1 } x y) x).rtSemRelease,
          add32 x rtMemheapSize)
      else some (RtMemheap.rtSemRelease { h with lock := h.lock - 1 }, 0) := by
  unfold rtMemheapAlloc
  rw [if_pos hlt]
  refine (bind_of_eq_some (rtSemTake_eq hlock) _).trans ?_
  exact bind_of_eq_some hfind _

def HasRoom (h : RtMemheap) (body : List Block) (size : ℕ) : Prop :=
  request size < h.availableSize ∧ ∃ b ∈ freeBlocks body, request size ≤ b.size

/-- A block comes into use that holds what was asked for if there is room, and else the heap
stays as it is. -/
theorem Layout.alloc (hl : Layout h body free) (hlock : h.lock = 1) (size : ℕ) :
    rtMemheapAlloc h size = some (h, 0) ∧ ¬ HasRoom h body size ∨
      HasRoom h body size ∧ ∃ h' c body' free', rtMemheapAlloc h size = some (h', c.payload) ∧
        Layout h' body' free' ∧ Turns h h' body body' [] [c] ∧ request size ≤ c.size := by
  have hpos : 0 < request size := Nat.lt_of_lt_of_le (by decide) (le_request size)
  have hturns : free.length + 2 ≤ h.poolSize + 1 := by
    have hlen := hl.free_length
    simp only [rtMemheapSize] at hlen
    omega
  obtain ⟨x, s, hfind, hs⟩ := findFree_spec hl.threaded.free_ring
    (List.nodup_cons.mp hl.threaded.free_nodup).1 hpos hturns
  by_cases hav : request size < h.availableSize
  · rw [alloc_eq hlock hav hfind]
    obtain ⟨hx, hs, hge⟩ | ⟨hs, hall⟩ := hs
    · obtain ⟨b, hb, hfree, rfl⟩ := hl.mem_free.mp hx
      rw [hl.memitemSize_eq hb] at hs
      subst hs
      have hroom : HasRoom h body size := ⟨hav, b, mem_freeBlocks.mpr ⟨hb, hfree⟩, hge⟩
      obtain ⟨u, v, rfl⟩ := List.append_of_mem hb
      obtain ⟨c, body', free', hl', ht, hc, hcs⟩ := hl.grant hlock hfree hge
      refine .inr ⟨hroom, _, c, body', free', ?_, hl', ht, hcs⟩
      rw [if_pos hge, hc]
    · rw [if_neg hs.not_ge, rtSemRelease_eq hlock]
      refine .inl ⟨rfl, ?_⟩
      rintro ⟨-, b, hb, hge⟩
      obtain ⟨hb, hfree⟩ := mem_freeBlocks.mp hb
      rw [← hl.memitemSize_eq hb] at hge
      exact hge.not_gt (hall b.addr (hl.mem_free.mpr ⟨b, hb, hfree, rfl⟩))
  · unfold rtMemheapAlloc
    rw [if_neg hav]
    exact .inl ⟨rfl, fun hroom ↦ hav hroom.1⟩

end Alloc

end GiantGecko.Rtos.Memheap
