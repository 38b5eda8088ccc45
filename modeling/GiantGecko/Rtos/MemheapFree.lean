import GiantGecko.Rtos.MemheapMoves

namespace GiantGecko.Rtos.Memheap

open Foundation.Bytes Foundation.Links

/-- While a block is being freed: it is marked free, and may lie beside other free blocks;
`insert` tells that it is not in the free list yet. -/
structure Freeing (T : Set ℕ) (h h' : RtMemheap) (u : List Block) (b : Block) (v : List Block)
    (free : List ℕ) (insert : Bool) : Prop where
  same : h' = { h with memory := h'.memory, availableSize := h'.availableSize }
  kept : Kept T h.memory h'.memory
  tiles : Tiles h.startAddr (u ++ b :: (v ++ [h.tail])) (h.startAddr + h.poolSize)
  threaded : Threaded T h.address h.freeList h'.memory (u ++ b :: (v ++ [h.tail])) free
  free_block : b.used = false
  before : Isolated u
  behind : Isolated v
  listed : (if insert then b.addr :: free else free).Perm
    ((freeBlocks (u ++ b :: v)).map Block.addr)
  available : h'.availableSize = freeBytes (u ++ b :: v)
  more : h.availableSize ≤ h'.availableSize

section Free

variable {T : Set ℕ} {h h' : RtMemheap} {u v : List Block} {b : Block} {free : List ℕ}
  {insert : Bool}

theorem Freeing.stop_lt (hp : Placed h) (hf : Freeing T h h' u b v free insert) :
    freeBytes (u ++ b :: v) + rtMemheapSize < 2 ^ 32 := by
  have ht := hf.tiles.freeBytes_le
  have hpool := hp.poolSize_le
  simp only [freeBytes_append, freeBytes_cons, hf.free_block, Bool.false_eq_true, if_false,
    rtMemheapSize, sizeofRtMemheap] at ht hpool ⊢
  omega

theorem Freeing.mergeLeft (hp : Placed h) (hf : Freeing T h h' u b v free true) :
    ∃ w c insert, Freeing T h (mergeLeft h' b.addr).1 w c v free insert ∧
      (mergeLeft h' b.addr).2 = (c.addr, insert) ∧ (∀ a ∈ w.getLast?, a.used) ∧
      usedBlocks w = usedBlocks u := by
  obtain rfl | ⟨w, c, rfl⟩ := List.eq_nil_or_concat' u
  · have hused : isUsed h'.memory (load h'.memory b.addr .prev) := by
      have hring := hf.threaded.ring
      have hprev : load h'.memory b.addr .prev = h.tail.addr := by
        simp only [List.nil_append, List.map_cons, List.map_append, List.map_nil] at hring
        exact hring.closed.2
      rw [hprev, hf.threaded.isUsed_iff (by simp)]
      rfl
    refine ⟨[], b, true, ?_, ?_, by simp, rfl⟩
    · rwa [Memheap.mergeLeft, if_pos hused]
    · rw [Memheap.mergeLeft, if_pos hused]
  have hth := hf.threaded
  have ht := hf.tiles
  rw [List.append_assoc, List.singleton_append] at hth ht
  have hb : b ∈ w ++ c :: b :: (v ++ [h.tail]) := by simp
  have hprev := hth.neighbours.2
  have hiff := hth.isUsed_iff (b := c) (by simp)
  have hbefore := hf.before
  rw [isolated_append] at hbefore
  by_cases hused : c.used = true
  · refine ⟨w ++ [c], b, true, ?_, ?_, by simpa using hused, rfl⟩
    · rwa [Memheap.mergeLeft, hprev, if_pos (hiff.mpr hused)]
    · rw [Memheap.mergeLeft, hprev, if_pos (hiff.mpr hused)]
  have hfree : c.used = false := by simpa using hused
  have hbc : b.addr ≠ c.addr := by
    have hne := hth.next_ne
    have hnodup := hth.nodup
    rw [List.map_append, List.map_cons, List.map_cons] at hnodup
    intro hbc
    exact (List.nodup_cons.mp (List.nodup_append.mp hnodup).2.1).1 (by simp [hbc])
  have hbT := hth.blocks_mem b hb
  have hnT := hth.next_mem hb
  have hcT := hth.prev_mem hb
  have hne : load h'.memory b.addr .prev ≠ b.addr := by
    rw [hprev]
    exact hbc.symm
  have hun := unlinks_store (x := b.addr) hth.items hcT hnT (by decide : Field.prev ≠ Field.next)
  have hunlink : mergeLeft h' b.addr =
      ({ h' with
        memory := store (store h'.memory (load h'.memory b.addr .prev) .next
            (load h'.memory b.addr .next)) (load h'.memory b.addr .next) .prev
            (load h'.memory b.addr .prev)
        availableSize := add32 h'.availableSize rtMemheapSize }, c.addr, false) := by
    rw [Memheap.mergeLeft, if_neg (by rwa [hprev, hiff])]
    simp only [load_store_of_ne hth.items hbT hcT hne.symm,
      load_store_of_ne hth.items hbT hnT hth.next_ne.symm]
    rw [hprev]
  refine ⟨w, { c with size := c.size + rtMemheapSize + b.size }, false, ?_, ?_, ?_, ?_⟩
  · rw [hunlink]
    have hadd := hf.stop_lt hp
    rw [List.append_cons] at hth
    have hth' := hth.unlinkBlock (hun.symm (by decide)) (by simp)
    rw [List.append_assoc] at hth'
    refine ⟨?_, hf.kept.trans hun.kept, ht.merge, hth'.resize _, hfree, hbefore.1, hf.behind, ?_,
      ?_, ?_⟩
    · simp only
      rw [hf.same]
    · have hl := hf.listed
      simp only [if_true, freeBlocks_append, freeBlocks_cons, hf.free_block, hfree,
        Bool.false_eq_true, if_false, List.map_append, List.map_cons, List.append_assoc,
        List.singleton_append] at hl ⊢
      refine (hl.trans ?_).cons_inv
      rw [List.append_cons]
      exact List.perm_middle.trans (by simp)
    · simp only
      rw [hf.available, add32_of_lt hadd]
      simp only [freeBytes_append, freeBytes_cons, hf.free_block, hfree, Bool.false_eq_true,
        if_false, freeBytes_nil, rtMemheapSize]
      omega
    · refine hf.more.trans ?_
      rw [← hf.available] at hadd
      simp only
      rw [add32_of_lt hadd]
      omega
  · rw [hunlink]
  · have h := hbefore.2.2
    simpa [hfree] using h
  · simp [hfree]

theorem Freeing.mergeRight (hp : Placed h) (hf : Freeing T h h' u b v free insert) :
    ∃ c w free', Freeing T h (mergeRight h' b.addr) u c w free' insert ∧ c.addr = b.addr ∧
      (∀ a ∈ w.head?, a.used) ∧ usedBlocks w = usedBlocks v := by
  have hth := hf.threaded
  have ht := hf.tiles
  cases v with
  | nil =>
    have hused : isUsed h'.memory (load h'.memory b.addr .next) := hth.next_isUsed_iff.mpr rfl
    refine ⟨b, [], free, ?_, rfl, by simp, rfl⟩
    rwa [Memheap.mergeRight, if_pos hused]
  | cons n v =>
    rw [List.cons_append] at hth ht
    have hnext := hth.neighbours.1
    have hiff := hth.isUsed_iff (b := n) (by simp)
    have hbehind := hf.behind
    rw [isolated_cons] at hbehind
    by_cases hused : n.used = true
    · refine ⟨b, n :: v, free, ?_, rfl, by simpa using hused, rfl⟩
      rwa [Memheap.mergeRight, hnext, if_pos (hiff.mpr hused)]
    have hfree : n.used = false := by simpa using hused
    have hmem : n.addr ∈ free := by
      have hn : n.addr ∈ if insert then b.addr :: free else free := by
        rw [hf.listed.mem_iff]
        exact List.mem_map_of_mem (mem_freeBlocks.mpr ⟨by simp, hfree⟩)
      have hne : n.addr ≠ b.addr := by
        rw [ht.next]
        have hs := b.addr_lt_stop
        simp only [rtMemheapSize] at hs
        omega
      cases insert
      · exact hn
      · exact (List.mem_cons.mp hn).resolve_left hne
    obtain ⟨r, s, rfl⟩ := List.append_of_mem hmem
    obtain ⟨hth', hk⟩ := hth.absorb
    have hmerge : Memheap.mergeRight h' b.addr =
        { h' with
          memory := removeFree (store (store h'.memory (load h'.memory n.addr .next) .prev b.addr)
            b.addr .next (load (store h'.memory (load h'.memory n.addr .next) .prev b.addr)
              n.addr .next)) n.addr
          availableSize := add32 h'.availableSize rtMemheapSize } := by
      rw [Memheap.mergeRight, hnext, if_neg (hiff.not.mpr hused)]
    have hadd := hf.stop_lt hp
    refine ⟨{ b with size := b.size + rtMemheapSize + n.size }, v, r ++ s, ?_, rfl, ?_, ?_⟩
    · rw [hmerge]
      refine ⟨?_, hf.kept.trans hk, ht.merge, hth'.resize _, hf.free_block, hf.before, hbehind.2,
        ?_, ?_, ?_⟩
      · simp only
        rw [hf.same]
      · have hl := hf.listed
        simp only [freeBlocks_append, freeBlocks_cons, hf.free_block, hfree, Bool.false_eq_true,
          if_false, List.map_append, List.map_cons] at hl ⊢
        have hl' : (n.addr :: if insert = true then b.addr :: (r ++ s) else r ++ s).Perm
            (n.addr :: ((freeBlocks u).map Block.addr ++ b.addr :: (freeBlocks v).map Block.addr)) := by
          refine List.Perm.trans ?_ (hl.trans ?_)
          · cases insert
            · exact List.perm_middle.symm
            · exact (List.Perm.swap ..).trans (List.perm_middle.symm.cons b.addr)
          · rw [List.append_cons]
            exact List.perm_middle.trans (by simp)
        exact hl'.cons_inv
      · simp only
        rw [hf.available, add32_of_lt hadd]
        simp only [freeBytes_append, freeBytes_cons, hf.free_block, hfree, Bool.false_eq_true,
          if_false, rtMemheapSize]
        omega
      · refine hf.more.trans ?_
        rw [← hf.available] at hadd
        simp only
        rw [add32_of_lt hadd]
        omega
    · simpa [hfree] using hbehind.1
    · simp [hfree]

theorem Layout.markFreed (hl : Layout h (u ++ b :: v) free) (hb : b.used = true) :
    Freeing (headers h.freeList (u ++ b :: v ++ [h.tail])) h (markFreed h b.addr) u
      { b with used := false } v free true := by
  have hth := hl.threaded
  have ht := hl.tiles
  have hi := hl.isolated
  rw [isolated_append, isolated_cons] at hi
  rw [List.append_assoc, List.cons_append] at hth ht ⊢
  obtain ⟨hth', hk⟩ := hth.markFreed hb
  have hsize : memitemSize (Memheap.markFreed h b.addr).memory b.addr = b.size := by
    obtain ⟨c, w, hw, -⟩ := Layout.exists_next h u b v
    have hstop := (hl.stop_le (b := b) (by simp)).2
    have hfits := hl.placed.fits
    simp only [rtMemheapSize] at hstop
    rw [hw] at hth' ht
    refine Memheap.memitemSize_eq ?_ (by omega)
    exact hth'.neighbours.1.trans ht.next
  have ht' : Tiles h.startAddr (u ++ { b with used := false } :: (v ++ [h.tail]))
      (h.startAddr + h.poolSize) := by
    simpa [tiles_append, Block.stop] using ht
  have hbytes := ht'.freeBytes_le
  have hpool := hl.placed.poolSize_le
  have havail := hl.available
  simp only [freeBytes_append, freeBytes_cons, hb, Bool.false_eq_true, if_false, if_true,
    sizeofRtMemheap] at hbytes hpool havail
  have hadd : (Memheap.markFreed h b.addr).availableSize = h.availableSize + b.size := by
    refine (congrArg (add32 h.availableSize) hsize).trans ?_
    rw [havail, add32_of_lt (by omega)]
  refine ⟨rfl, hk, ht', hth', rfl, hi.1, hi.2.1.2, ?_, ?_, ?_⟩
  · have hlisted := hl.listed
    rw [freeBlocks_append, freeBlocks_cons, if_pos hb, ← freeBlocks_append] at hlisted
    exact perm_freeBlocks (b := { b with used := false }) hlisted rfl
  · rw [hadd, havail]
    simp only [freeBytes_append, freeBytes_cons, Bool.false_eq_true, if_false]
    omega
  · rw [hadd]
    omega

theorem Freeing.finish {body : List Block} {free₀ : List ℕ} (hl : Layout h body free₀)
    (hf : Freeing (headers h.freeList (body ++ [h.tail])) h h' u b v free insert)
    (hu : ∀ a ∈ u.getLast?, a.used) (hv : ∀ a ∈ v.head?, a.used) {gone rest : List Block}
    (hgone : (usedBlocks body).Perm (gone ++ rest))
    (hcome : (usedBlocks (u ++ b :: v)).Perm rest) (hrest : ∀ c ∈ rest, c ∈ body) :
    ∃ free', Layout (if insert then
          { h' with memory := insertFree h'.memory h'.freeList b.addr } else h')
        (u ++ b :: v) free' ∧
      Turns h (if insert then { h' with memory := insertFree h'.memory h'.freeList b.addr } else h')
        body (u ++ b :: v) gone [] := by
  have hfl : h'.freeList = h.freeList := by rw [hf.same]
  have ht : Tiles h.startAddr (u ++ b :: v ++ [h.tail]) (h.startAddr + h.poolSize) := by
    simpa using hf.tiles
  have hiso : Isolated (u ++ b :: v) := by
    rw [isolated_append, isolated_cons]
    exact ⟨hf.before, ⟨.inr hv, hf.behind⟩, .inl hu⟩
  obtain ⟨m, free', hm, hth, hk, hlisted⟩ : ∃ m free',
      (if insert then { h' with memory := insertFree h'.memory h'.freeList b.addr } else h') =
        { h' with memory := m } ∧
      Threaded (headers h.freeList (body ++ [h.tail])) h.address h.freeList m
        (u ++ b :: (v ++ [h.tail])) free' ∧
      Kept (headers h.freeList (body ++ [h.tail])) h.memory m ∧
      free'.Perm ((freeBlocks (u ++ b :: v)).map Block.addr) := by
    have hlisted := hf.listed
    cases insert
    · exact ⟨h'.memory, free, rfl, hf.threaded, hf.kept, hlisted⟩
    · have hperm : free.Perm ((freeBlocks (u ++ v)).map Block.addr) := by
        simp only [if_true, freeBlocks_append, freeBlocks_cons, hf.free_block, Bool.false_eq_true,
          if_false, List.map_append, List.map_cons] at hlisted ⊢
        exact (hlisted.trans List.perm_middle).cons_inv
      have hnot : b.addr ∉ h.freeList :: free := by
        refine hl.placed.notMem_free hf.tiles ?_
        exact fun a ha ↦ mem_map_of_listed hperm (by grind) ha
      obtain ⟨hth, hk⟩ := hf.threaded.insertFree (hf.threaded.blocks_mem b (by simp)) hnot
      exact ⟨_, b.addr :: free, by rw [hfl]; rfl, hth, hf.kept.trans hk, hlisted⟩
  rw [hm]
  refine ⟨free', ?_⟩
  have hsame : { h' with memory := m } =
      { h with memory := m, availableSize := h'.availableSize, maxUsedSize := h.maxUsedSize } := by
    rw [hf.same]
  refine hl.settle rest hsame ht ?_ hiso hlisted hf.available ?_ le_rfl hgone hcome ?_ fun i hi ↦ ?_
  · exact hl.placed.rethread ht (by simpa using hth) hlisted
  · have hpeak := hl.peak
    have hmore := hf.more
    omega
  · intro c hc
    exact hl.placed.intact hl.tiles hk (List.mem_append_left _ (hrest c hc))
  · exact hl.placed.outside hl.tiles hk hi

theorem guard_bind {α : Type} {p : Prop} [Decidable p] (hp : p) (f : Unit → Option α) :
    ((guard p : Option Unit) >>= f) = f () := by
  rw [guard, if_pos hp]
  rfl

theorem free_eq {ptr x : ℕ} (hx : sub32 ptr rtMemheapSize = x) (hptr : ptr ≠ 0)
    (hmagic : load h.memory x .magic &&& rtMemheapMask = rtMemheapMagic)
    (hused : isUsed h.memory x)
    (hnext : load h.memory (load h.memory x .next) .magic &&& rtMemheapMask = rtMemheapMagic)
    (howned : load h.memory x .poolPtr = h.address) (hlock : h.lock = 1) :
    rtMemheapFree h ptr =
      some (mergeFreed (Memheap.markFreed { h with lock := h.lock - 1 } x) x).rtSemRelease := by
  subst hx
  unfold rtMemheapFree
  rw [if_neg hptr]
  exact (guard_bind hmagic _).trans ((guard_bind hused _).trans ((guard_bind hnext _).trans
    ((guard_bind howned _).trans (bind_of_eq_some (rtSemTake_eq hlock) _))))

theorem mergeFreed_eq {x y : ℕ} (hm : (mergeLeft h x).2 = (y, insert)) :
    mergeFreed h x =
      if insert then
        { mergeRight (mergeLeft h x).1 y with
          memory := insertFree (mergeRight (mergeLeft h x).1 y).memory
            (mergeRight (mergeLeft h x).1 y).freeList y }
      else mergeRight (mergeLeft h x).1 y := by
  rw [mergeFreed]
  generalize mergeLeft h x = q at hm ⊢
  obtain ⟨h', z, i⟩ := q
  cases hm
  rfl

theorem Layout.freed (hl : Layout h (u ++ b :: v) free) (hlock : h.lock = 1)
    (hb : b.used = true) :
    ∃ h' body' free', rtMemheapFree h b.payload = some h' ∧ Layout h' body' free' ∧
      Turns h h' (u ++ b :: v) body' [b] [] := by
  have hlk := hl.relock (h.lock - 1)
  obtain ⟨w, c, insert, hf, hm, hw, huw⟩ := (hlk.markFreed hb).mergeLeft hlk.placed
  obtain ⟨d, z, free', hf', hd, hz, hzv⟩ := hf.mergeRight hlk.placed
  have hrest : (usedBlocks (w ++ d :: z)).Perm (usedBlocks (u ++ v)) := by
    simp only [usedBlocks_append, usedBlocks_cons, hf'.free_block, Bool.false_eq_true, if_false,
      huw, hzv]
    exact List.Perm.refl _
  have hgone : (usedBlocks (u ++ b :: v)).Perm ([b] ++ usedBlocks (u ++ v)) := perm_usedBlocks hb
  have hsub : ∀ a ∈ usedBlocks (u ++ v), a ∈ u ++ b :: v := by
    intro a ha
    simp only [mem_usedBlocks, List.mem_append, List.mem_cons] at ha ⊢
    tauto
  obtain ⟨free'', hl', ht⟩ := hf'.finish hlk hw hz hgone hrest hsub
  refine ⟨_, w ++ d :: z, free'', ?_, hl'.release, ht.unlock hlock⟩
  have hth := hl.threaded
  have hbm : b ∈ u ++ b :: v ++ [h.tail] := by simp
  have hptr : sub32 b.payload rtMemheapSize = b.addr := by
    have hstop := (hl.stop_le (b := b) (by simp)).2
    have hfits := hl.placed.fits
    simp only [Block.stop, Block.payload, rtMemheapSize] at hstop ⊢
    rw [sub32_of_le (by omega) (by omega)]
    omega
  have hnext : load h.memory (load h.memory b.addr .next) .magic &&& rtMemheapMask =
      rtMemheapMagic := by
    obtain ⟨c, w, -, hc⟩ := Layout.exists_next h u b v
    rw [hc] at hth
    rw [hth.neighbours.1, hth.marked c (by simp), mark_and_mask]
  have hmagic : load h.memory b.addr .magic &&& rtMemheapMask = rtMemheapMagic := by
    rw [hth.marked b hbm, mark_and_mask]
  have hused : isUsed h.memory b.addr := (hth.isUsed_iff hbm).mpr hb
  have hne : b.payload ≠ 0 := by
    simp [Block.payload, rtMemheapSize]
  rw [free_eq hptr hne hmagic hused hnext (hth.owned b hbm) hlock, mergeFreed_eq hm, hd]

end Free

end GiantGecko.Rtos.Memheap
