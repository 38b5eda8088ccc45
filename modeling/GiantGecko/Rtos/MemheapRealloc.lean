import GiantGecko.Rtos.MemheapFree

namespace GiantGecko.Rtos.Memheap

open Foundation.Bytes Foundation.Links

section Resizing

variable {h : RtMemheap} {body u v : List Block} {b n : Block} {free r s : List ℕ} {size : ℕ}

theorem Placed.size_eq {T : Set ℕ} {m : Memory} {c : Block} (hp : Placed h)
    (ht : Tiles h.startAddr (u ++ b :: c :: v) (h.startAddr + h.poolSize))
    (hth : Threaded T h.address h.freeList m (u ++ b :: c :: v) free) :
    memitemSize m b.addr = b.size := by
  have hstop := (ht.bounds (b := c) (by simp)).2
  have hc := c.addr_lt_stop
  have hfits := hp.fits
  have hnext := ht.next
  simp only [rtMemheapSize] at hc
  refine memitemSize_eq (hth.neighbours.1.trans hnext) ?_
  omega

theorem Intact.trans {m₁ m₂ m₃ : Memory} (h : Intact b m₁ m₂) (h' : Intact b m₂ m₃) :
    Intact b m₁ m₃ := by
  intro i hi hi'
  rw [h' i hi hi', h i hi hi']

theorem Threaded.unlinkGrown {T : Set ℕ} {m : Memory} {address freeList : ℕ}
    (h : Threaded T address freeList m (u ++ b :: n :: v) free) :
    let m₁ := store m (load m n.addr .next) .prev (load m n.addr .prev)
    let m₂ := store m₁ (load m₁ n.addr .prev) .next (load m₁ n.addr .next)
    Threaded T address freeList m₂ (u ++ b :: v) free ∧ Kept T m m₂ := by
  have hn : n ∈ u ++ b :: n :: v := by simp
  have hun := unlinks_store (x := n.addr) h.items (h.next_mem hn) (h.prev_mem hn)
    (by decide : Field.next ≠ Field.prev)
  simp only [load_store_of_ne h.items (h.blocks_mem n hn) (h.next_mem hn) h.next_ne.symm]
  rw [List.append_cons] at h
  have h' := h.unlinkBlock hun (by simp)
  rw [List.append_assoc] at h'
  exact ⟨h', hun.kept⟩

theorem Layout.grow_memory (hl : Layout h (u ++ b :: n :: v) (r ++ n.addr :: s))
    (hperm : (r ++ s).Perm ((freeBlocks (u ++ b :: v)).map Block.addr)) {c : Block}
    (hc : c.addr = b.addr + rtMemheapSize + size) (hcs : c.stop = n.stop) (hfree : c.used = false)
    (hnew : add32 b.payload size = c.addr) (oldsize : ℕ) :
    Threaded (headers h.freeList (u ++ { b with size } :: c :: v ++ [h.tail])) h.address h.freeList
        (growInPlace h b.addr b.payload oldsize size).memory
        (u ++ { b with size } :: c :: v ++ [h.tail]) (c.addr :: (r ++ s)) ∧
      ∃ m, Kept (headers h.freeList (u ++ b :: n :: v ++ [h.tail])) h.memory m ∧
        Kept (headers h.freeList (u ++ { b with size } :: c :: v ++ [h.tail])) m
          (growInPlace h b.addr b.payload oldsize size).memory := by
  have hth := hl.threaded
  have ht := hl.tiles
  simp only [List.append_assoc, List.cons_append] at hth ht ⊢
  have hnext := hth.neighbours.1
  obtain ⟨h₁, k₁⟩ := hth.removeFree
  obtain ⟨h₂, k₂⟩ := h₁.unlinkGrown
  have ht₂ := ht.merge
  have hstop : c.stop = Block.stop { b with size := b.size + rtMemheapSize + n.size } := by
    have hnb := ht.next
    rw [hcs]
    simp only [Block.stop, rtMemheapSize] at hnb ⊢
    omega
  have hsub : ∀ a ∈ r ++ s, a ∈ (u ++ b :: (v ++ [h.tail])).map Block.addr := by
    exact fun a ha ↦ mem_map_of_listed hperm (by grind) ha
  obtain ⟨h₃, k₃⟩ := (h₂.resize (b.size + rtMemheapSize + n.size)).cut hl.placed ht₂
    (by simpa using hsub) hc hstop hfree
  have hnot : c.addr ∉ h.freeList :: (r ++ s) := by
    refine hl.placed.notMem_free (u := u ++ [{ b with size }])
      (by simpa using ht₂.split hc hstop) ?_
    intro a ha
    simpa using hsub a ha
  obtain ⟨h₄, k₄⟩ := h₃.insertFree (h₃.blocks_mem c (by simp)) hnot
  simp only [growInPlace, noteUsed_eq, hnew, hnext]
  exact ⟨h₄, _, k₁.trans k₂, k₃.trans k₄⟩

def SameBytes (b c : Block) (m m' : Memory) (n : ℕ) : Prop :=
  ∀ i < n, m'.byte (c.payload + i) = m.byte (b.payload + i)

theorem Intact.of_size {m m' : Memory} {size : ℕ} (h : Intact { b with size } m m')
    (hs : b.size ≤ size) : Intact b m m' := by
  intro i hi hi'
  refine h i hi ?_
  simp only [Block.stop] at hi' ⊢
  omega

theorem Intact.sameBytes {m m' : Memory} {c : Block} {k : ℕ} (h : Intact b m m')
    (hc : c.addr = b.addr) (hk : k ≤ b.size) : SameBytes b c m m' k := by
  intro i hi
  simp only [Block.payload, hc]
  refine h _ ?_ ?_
  · exact Nat.le_add_right _ _
  · simp only [Block.stop]
    omega

theorem Layout.grow (hl : Layout h (u ++ b :: n :: v) free) (hb : b.used = true)
    (hn : n.used = false) (hlt : b.size < size)
    (hroom : size + rtMemheapMinialloc < n.size + b.size) :
    ∃ body' free', Layout (growInPlace h b.addr b.payload b.size size) body' free' ∧
      Turns h (growInPlace h b.addr b.payload b.size size) (u ++ b :: n :: v) body' [b]
        [{ b with size }] ∧
      SameBytes b { b with size } h.memory
        (growInPlace h b.addr b.payload b.size size).memory b.size := by
  have hl₀ := hl
  rw [List.append_cons] at hl₀
  obtain ⟨r, s, rfl, hperm⟩ := hl₀.exists_listed hn
  rw [List.append_assoc, List.singleton_append] at hperm
  have hstop := (hl.stop_le (b := n) (by simp)).2
  have hfits := hl.placed.fits
  have hpool := hl.placed.poolSize_le
  have hnb := hl.tiles
  rw [List.append_assoc, List.cons_append, List.cons_append] at hnb
  have hnext := hnb.next
  simp only [rtMemheapMinialloc, sizeofRtMemheap] at hroom hpool
  simp only [Block.stop, rtMemheapSize] at hstop hnext
  let c : Block := ⟨b.addr + rtMemheapSize + size, b.size + n.size - size, false⟩
  have hca : c.addr = b.addr + rtMemheapSize + size := rfl
  have hcs : c.stop = n.stop := by
    simp only [c, Block.stop, rtMemheapSize]
    omega
  have hnew : add32 b.payload size = c.addr := by
    simp only [Block.payload, rtMemheapSize, c]
    rw [add32_of_lt (by omega)]
  obtain ⟨hth, m, hk, hk'⟩ := hl.grow_memory hperm hca hcs rfl hnew b.size
  have ht : Tiles h.startAddr (u ++ { b with size } :: c :: v ++ [h.tail])
      (h.startAddr + h.poolSize) := by
    have ht := hnb.merge.split (n := c) hca (by simp only [c, Block.stop, rtMemheapSize]; omega)
    simpa using ht
  have hbytes := hl.tiles.freeBytes_le
  have havail : sub32 h.availableSize (sub32 size b.size) =
      freeBytes (u ++ { b with size } :: c :: v) := by
    simp only [hl.available, freeBytes_append, freeBytes_cons, hb, hn, c, Bool.false_eq_true,
      if_false, if_true] at hbytes ⊢
    rw [sub32_of_le hlt.le (by omega), sub32_of_le (by omega) (by omega)]
    omega
  have hiso : Isolated (u ++ { b with size } :: c :: v) := by
    have hiso := hl.isolated
    simp only [isolated_append, isolated_cons, List.head?_cons, Option.mem_def, Option.some.injEq,
      hb, hn, c] at hiso ⊢
    grind
  have hlisted := perm_freeBlocks (b := c) (u := u ++ [{ b with size }]) (v := v)
    (by simpa [hb] using hperm) rfl
  have hrec : growInPlace h b.addr b.payload b.size size =
      { h with
        memory := (growInPlace h b.addr b.payload b.size size).memory
        availableSize := sub32 h.availableSize (sub32 size b.size)
        maxUsedSize := max h.maxUsedSize
          (sub32 h.poolSize (sub32 h.availableSize (sub32 size b.size))) } := by
    simp only [growInPlace, noteUsed_eq]
  have hintact : ∀ d ∈ u ++ v, Intact d h.memory
      (growInPlace h b.addr b.payload b.size size).memory := by
    intro d hd
    refine (hl.placed.intact hl.tiles hk ?_).trans (hl.placed.intact ht hk' ?_)
    all_goals
      obtain hd | hd := List.mem_append.mp hd
      all_goals simp [hd]
  have hpeak : h.poolSize ≤
      max h.maxUsedSize (sub32 h.poolSize (sub32 h.availableSize (sub32 size b.size))) +
        sub32 h.availableSize (sub32 size b.size) := by
    rw [havail]
    exact hl.placed.noted ht h.maxUsedSize
  have hgone : (usedBlocks (u ++ b :: n :: v)).Perm ([b] ++ usedBlocks (u ++ v)) :=
    (perm_usedBlocks hb).trans (by simp [hn])
  have hcome : (usedBlocks (u ++ { b with size } :: c :: v)).Perm
      ([{ b with size }] ++ usedBlocks (u ++ v)) :=
    (perm_usedBlocks (b := { b with size }) hb).trans (by simp [c])
  have hout : ∀ i, h.Outside i →
      (growInPlace h b.addr b.payload b.size size).memory.byte i = h.memory.byte i := by
    intro i hi
    exact (hl.placed.outside ht hk' hi).trans (hl.placed.outside hl.tiles hk hi)
  obtain ⟨hl', ht'⟩ := hl.settle (usedBlocks (u ++ v)) hrec ht hth hiso (by simpa using hlisted)
    havail hpeak (le_max_left ..) hgone hcome (fun d hd ↦ hintact d (mem_usedBlocks.mp hd).1) hout
  refine ⟨_, _, hl', ht', Intact.sameBytes ?_ rfl le_rfl⟩
  have hbig : Intact { b with size } m (growInPlace h b.addr b.payload b.size size).memory :=
    hl.placed.intact ht hk' (by simp)
  exact (hl.placed.intact hl.tiles hk (by simp)).trans (hbig.of_size hlt.le)

/-- A block was built that is in no list of free ones yet; what follows it is free or
not. -/
structure Built (T : Set ℕ) (h h' : RtMemheap) (u : List Block) (b : Block) (v : List Block)
    (free : List ℕ) : Prop where
  same : h' = { h with memory := h'.memory, availableSize := h'.availableSize }
  kept : Kept T h.memory h'.memory
  tiles : Tiles h.startAddr (u ++ b :: (v ++ [h.tail])) (h.startAddr + h.poolSize)
  threaded : Threaded T h.address h.freeList h'.memory (u ++ b :: (v ++ [h.tail])) free
  free_block : b.used = false
  behind : Isolated v
  listed : free.Perm ((freeBlocks (u ++ v)).map Block.addr)
  available : h'.availableSize = freeBytes (u ++ v)

theorem Built.takeIn {T : Set ℕ} {h' : RtMemheap} (hp : Placed h)
    (hb : Built T h h' u b v free) :
    ∃ c w free', Built T h (takeIn h' b.addr) u c w free' ∧ c.addr = b.addr ∧
      (∀ a ∈ w.head?, a.used) ∧ usedBlocks w = usedBlocks v ∧
      freeBytes v ≤ c.size + freeBytes w := by
  have hth := hb.threaded
  have ht := hb.tiles
  cases v with
  | nil =>
    have hused : isUsed h'.memory (load h'.memory b.addr .next) := hth.next_isUsed_iff.mpr rfl
    refine ⟨b, [], free, ?_, rfl, by simp, rfl, by simp⟩
    rwa [Memheap.takeIn, if_pos hused]
  | cons n v =>
    rw [List.cons_append] at hth ht
    have hnext := hth.neighbours.1
    have hiff := hth.isUsed_iff (b := n) (by simp)
    have hbehind := hb.behind
    rw [isolated_cons] at hbehind
    by_cases hused : n.used = true
    · refine ⟨b, n :: v, free, ?_, rfl, by simpa using hused, rfl, Nat.le_add_left ..⟩
      rwa [Memheap.takeIn, hnext, if_pos (hiff.mpr hused)]
    have hfree : n.used = false := by simpa using hused
    have hmem : n.addr ∈ free := by
      rw [hb.listed.mem_iff]
      exact List.mem_map_of_mem (mem_freeBlocks.mpr ⟨by simp, hfree⟩)
    obtain ⟨r, s, rfl⟩ := List.append_of_mem hmem
    obtain ⟨hth', hk⟩ := hth.absorb
    have hsize : memitemSize h'.memory n.addr = n.size := by
      obtain ⟨c, w, hw⟩ := List.exists_cons_of_ne_nil (List.append_ne_nil_of_right_ne_nil v
        (List.cons_ne_nil h.tail []))
      rw [hw, List.append_cons] at hth ht
      exact hp.size_eq ht hth
    have htake : Memheap.takeIn h' b.addr =
        { h' with
          memory := removeFree (store (store h'.memory (load h'.memory n.addr .next) .prev b.addr)
            b.addr .next (load (store h'.memory (load h'.memory n.addr .next) .prev b.addr)
              n.addr .next)) n.addr
          availableSize := sub32 h'.availableSize (memitemSize h'.memory n.addr) } := by
      rw [Memheap.takeIn, hnext, if_neg (hiff.not.mpr hused)]
    rw [hsize] at htake
    refine ⟨{ b with size := b.size + rtMemheapSize + n.size }, v, r ++ s, ?_, rfl, ?_, ?_, ?_⟩
    · rw [htake]
      refine ⟨?_, hb.kept.trans hk, ht.merge, hth'.resize _, hb.free_block, hbehind.2, ?_, ?_⟩
      · simp only
        rw [hb.same]
      · have hl := List.perm_middle.symm.trans hb.listed
        simp only [freeBlocks_append, freeBlocks_cons, hfree, Bool.false_eq_true, if_false,
          List.map_append, List.map_cons] at hl ⊢
        exact (hl.trans List.perm_middle).cons_inv
      · have hbytes := ht.freeBytes_le
        have hpool := hp.poolSize_le
        have havail := hb.available
        simp only [freeBytes_append, freeBytes_cons, hfree, hb.free_block, Bool.false_eq_true,
          if_false, sizeofRtMemheap] at hbytes hpool havail ⊢
        rw [havail, sub32_of_le (by omega) (by omega)]
        omega
    · simpa [hfree] using hbehind.1
    · simp [hfree]
    · simp only [freeBytes_cons, hfree, Bool.false_eq_true, if_false]
      omega

theorem Built.putIn {T : Set ℕ} {h' : RtMemheap} (hp : Placed h) (hb : Built T h h' u b v free) :
    Threaded T h.address h.freeList (insertFree h'.memory h.freeList b.addr)
        (u ++ b :: (v ++ [h.tail])) (b.addr :: free) ∧
      Kept T h.memory (insertFree h'.memory h.freeList b.addr) ∧
      memitemSize (insertFree h'.memory h.freeList b.addr) b.addr = b.size := by
  have hnot : b.addr ∉ h.freeList :: free := by
    refine hp.notMem_free hb.tiles ?_
    exact fun a ha ↦ mem_map_of_listed hb.listed (by grind) ha
  obtain ⟨hth, hk⟩ := hb.threaded.insertFree (hb.threaded.blocks_mem b (by simp)) hnot
  refine ⟨hth, hb.kept.trans hk, ?_⟩
  obtain ⟨c, w, hw⟩ := List.exists_cons_of_ne_nil (List.append_ne_nil_of_right_ne_nil v
    (List.cons_ne_nil h.tail []))
  have ht := hb.tiles
  rw [hw] at hth ht
  exact hp.size_eq ht hth

theorem Layout.cutEnd (hl : Layout h (u ++ b :: v) free) (hb : b.used = true)
    (hn : n.addr = b.addr + rtMemheapSize + size) (hs : n.stop = b.stop)
    (hfree : n.used = false) :
    Built (headers h.freeList (u ++ { b with size } :: n :: (v ++ [h.tail]))) h
      { h with memory := buildBlock h.memory h.address b.addr n.addr } (u ++ [{ b with size }]) n v
      free := by
  have hth := hl.threaded
  have ht := hl.tiles
  have hiso := hl.isolated
  have hlisted := hl.listed
  rw [List.append_assoc, List.cons_append] at hth ht
  rw [isolated_append, isolated_cons] at hiso
  have hsub : ∀ a ∈ free, a ∈ (u ++ b :: (v ++ [h.tail])).map Block.addr :=
    fun a ha ↦ mem_map_of_listed hlisted (by grind) ha
  obtain ⟨hth', hk⟩ := hth.cut hl.placed ht hsub hn hs hfree
  refine ⟨rfl, hk, by simpa using ht.split hn hs, by simpa using hth', hfree, hiso.2.1.2, ?_, ?_⟩
  · simpa [hb] using hlisted
  · simp [hl.available, hb]

theorem Layout.shrink (hl : Layout h (u ++ b :: v) free) (hb : b.used = true)
    (hroom : size + rtMemheapSize + rtMemheapMinialloc < b.size) :
    ∃ body' free', Layout (shrink h b.addr size) body' free' ∧
      Turns h (shrink h b.addr size) (u ++ b :: v) body' [b] [{ b with size }] ∧
      SameBytes b { b with size } h.memory (shrink h b.addr size).memory size := by
  have hstop := (hl.stop_le (b := b) (by simp)).2
  have hfits := hl.placed.fits
  have hpool := hl.placed.poolSize_le
  simp only [rtMemheapMinialloc, rtMemheapSize, sizeofRtMemheap, Block.stop] at hroom hpool hstop
  let c : Block := ⟨b.addr + rtMemheapSize + size, b.size - size - rtMemheapSize, false⟩
  have hca : c.addr = b.addr + rtMemheapSize + size := rfl
  have hcs : c.stop = b.stop := by
    simp only [c, Block.stop, rtMemheapSize]
    omega
  have hnew : add32 (add32 b.addr size) rtMemheapSize = c.addr := by
    simp only [rtMemheapSize, c]
    rw [add32_of_lt (a := b.addr) (by omega), add32_of_lt (by omega)]
    omega
  have ht := hl.tiles
  rw [List.append_assoc, List.cons_append] at ht
  obtain ⟨d, w, free', hd, hdc, hw, hwv, hle⟩ := (hl.cutEnd hb hca hcs rfl).takeIn hl.placed
  generalize hh₂ : takeIn { h with memory := buildBlock h.memory h.address b.addr c.addr } c.addr =
    h₂ at hd
  obtain ⟨m, availableSize, rfl⟩ : ∃ m availableSize, h₂ = { h with memory := m, availableSize } :=
    ⟨_, _, hd.same⟩
  obtain ⟨h₃, hkept, hsize⟩ := hd.putIn hl.placed
  have hrec : Memheap.shrink h b.addr size =
      { h with
        memory := insertFree m h.freeList d.addr
        availableSize := add32 availableSize d.size
        maxUsedSize := h.maxUsedSize } := by
    rw [← hsize, hdc]
    simp only [Memheap.shrink, hnew, hh₂]
  have ht' : Tiles h.startAddr (u ++ { b with size } :: d :: w ++ [h.tail])
      (h.startAddr + h.poolSize) := by
    simpa using hd.tiles
  have hbytes := ht'.freeBytes_le
  have havail : add32 availableSize d.size = freeBytes (u ++ { b with size } :: d :: w) := by
    have havail := hd.available
    simp only [freeBytes_append, freeBytes_cons, hd.free_block, hb, freeBytes_nil,
      Bool.false_eq_true, if_false, if_true] at havail hbytes ⊢
    rw [havail, add32_of_lt (by omega)]
    omega
  have hlisted : (d.addr :: free').Perm
      ((freeBlocks (u ++ { b with size } :: d :: w)).map Block.addr) := by
    simpa using perm_freeBlocks hd.listed hd.free_block
  have hiso : Isolated (u ++ { b with size } :: d :: w) := by
    have hiso := hl.isolated
    rw [isolated_append, isolated_cons] at hiso
    simp only [isolated_append, isolated_cons, List.head?_cons, Option.mem_def, Option.some.injEq,
      hb]
    exact ⟨hiso.1, ⟨.inl trivial, .inr hw, hd.behind⟩, .inr (by simp)⟩
  have hmore : h.availableSize ≤ add32 availableSize d.size := by
    rw [havail, hl.available]
    simp only [freeBytes_append, freeBytes_cons, hd.free_block, hb, Bool.false_eq_true, if_false,
      if_true]
    omega
  have hpeak : h.poolSize ≤ h.maxUsedSize + add32 availableSize d.size :=
    hl.peak.trans (Nat.add_le_add_left hmore _)
  have hgone : (usedBlocks (u ++ b :: v)).Perm ([b] ++ usedBlocks (u ++ v)) := perm_usedBlocks hb
  have hcome : (usedBlocks (u ++ { b with size } :: d :: w)).Perm
      ([{ b with size }] ++ usedBlocks (u ++ v)) :=
    (perm_usedBlocks (b := { b with size }) hb).trans (by simp [hd.free_block, hwv])
  have hintact : ∀ e ∈ u ++ { b with size } :: v,
      Intact e h.memory (insertFree m h.freeList d.addr) := by
    intro e he
    refine hl.placed.intact (ht.split hca hcs) hkept ?_
    obtain he | he := List.mem_append.mp he
    · simp [he]
    · obtain rfl | he := List.mem_cons.mp he
      · simp
      · simp [he]
  have hrest : ∀ e ∈ usedBlocks (u ++ v),
      Intact e h.memory (insertFree m h.freeList d.addr) := by
    intro e he
    refine hintact e ?_
    obtain he | he := List.mem_append.mp (mem_usedBlocks.mp he).1
    all_goals simp [he]
  obtain ⟨hl', ht''⟩ := hl.settle (usedBlocks (u ++ v)) hrec ht'
    (hl.placed.rethread ht' (by simpa using h₃) hlisted) hiso hlisted havail hpeak le_rfl hgone
    hcome hrest fun i hi ↦ hl.placed.outside (ht.split hca hcs) hkept hi
  refine ⟨_, _, hl', ht'', ?_⟩
  rw [hrec]
  exact Intact.sameBytes (b := { b with size }) (hintact _ (by simp)) rfl le_rfl

theorem rtMemcpy_eq {m : Memory} {dst src count : ℕ}
    (h : src + count ≤ dst ∨ dst + count ≤ src) : rtMemcpy m dst src count = m.moved dst src count := by
  unfold rtMemcpy
  split_ifs with hcount
  · have hsum : 4 * (count / 4) + count % 4 = count := Nat.div_add_mod count 4
    have hwords : src + 4 * (count / 4) ≤ dst ∨ dst + 4 * (count / 4) ≤ src := by omega
    have hbytes : src + 4 * (count / 4) + count % 4 ≤ dst + 4 * (count / 4) ∨
        dst + 4 * (count / 4) + count % 4 ≤ src + 4 * (count / 4) := by omega
    dsimp only
    rw [Memory.copyWords_eq hwords, Memory.copyBytes_eq hbytes, Memory.moved_moved (by omega), hsum]
  · exact Memory.copyBytes_eq h

theorem Layout.used_nodup (hl : Layout h body free) : (usedBlocks body).Nodup := by
  have hnodup := hl.tiles.nodup
  rw [List.map_append] at hnodup
  exact ((List.nodup_append.mp hnodup).1.of_map Block.addr).filter _

theorem Turns.mem {h' : RtMemheap} {body' gone come : List Block}
    (ht : Turns h h' body body' gone come) (hc : n ∈ come) : n ∈ body' ∧ n.used = true := by
  obtain ⟨rest, -, hcome, -⟩ := ht.rest
  exact mem_usedBlocks.mp (hcome.mem_iff.mpr (List.mem_append_left _ hc))

/-- A block comes into use, another is copied to it, and that goes out of use. -/
theorem Turns.exchange {h₁ h₂ : RtMemheap} {m : Memory} {c : Block} {body₁ body₂ : List Block}
    {free₁ : List ℕ} (hl₁ : Layout h₁ body₁ free₁) (hb : b ∈ body) (hbu : b.used = true)
    (h₁t : Turns h h₁ body body₁ [] [c])
    (hcopy : m = h₁.memory.moved c.payload b.payload b.size) (hsize : b.size ≤ c.size)
    (h₂t : Turns { h₁ with memory := m } h₂ body₁ body₂ [b] []) :
    Turns h h₂ body body₂ [b] [c] ∧ SameBytes b c h.memory h₂.memory b.size := by
  obtain ⟨rest₁, hgone₁, hcome₁, hrest₁⟩ := h₁t.rest
  obtain ⟨rest₂, hgone₂, hcome₂, hrest₂⟩ := h₂t.rest
  simp only [List.nil_append, List.singleton_append] at hgone₁ hcome₁ hgone₂ hcome₂
  have hb₁ : b ∈ rest₁ := hgone₁.mem_iff.mp (mem_usedBlocks.mpr ⟨hb, hbu⟩)
  have hnodup : (c :: rest₁).Nodup := hcome₁.nodup_iff.mp hl₁.used_nodup
  obtain ⟨rest, hrest⟩ : ∃ rest, rest₁.Perm (b :: rest) := by
    obtain ⟨l, k, rfl⟩ := List.append_of_mem hb₁
    exact ⟨l ++ k, List.perm_middle⟩
  have hrest' : rest₂.Perm (c :: rest) := by
    have hp := (hgone₂.symm.trans hcome₁).trans ((hrest.cons c).trans (List.Perm.swap ..))
    exact hp.cons_inv
  have hused : ∀ e ∈ rest₁, e ∈ body₁ ∧ e ≠ c := by
    intro e he
    refine ⟨(mem_usedBlocks.mp (hcome₁.mem_iff.mpr (List.mem_cons_of_mem c he))).1, ?_⟩
    rintro rfl
    exact (List.nodup_cons.mp hnodup).1 he
  have hc₁ : c ∈ body₁ := (h₁t.mem (by simp)).1
  have hm : WrittenIn c h₁.memory m := hcopy ▸ WrittenIn.moved h₁.memory b.payload hsize
  have hcopied : ∀ e ∈ rest₁, Intact e h₁.memory m := by
    intro e he
    exact hm.intact hl₁ hc₁ (hused e he).1 (hused e he).2
  refine ⟨⟨h₂t.startAddr.trans h₁t.startAddr, h₂t.poolSize.trans h₁t.poolSize,
    h₂t.address.trans h₁t.address, h₂t.lock.trans h₁t.lock, h₁t.peak.trans h₂t.peak, ?_, rest, ?_,
    ?_, ?_⟩, ?_⟩
  · intro i hi
    have hi₁ : h₁.Outside i := by
      simpa only [RtMemheap.Outside, h₁t.startAddr, h₁t.poolSize, h₁t.address] using hi
    rw [h₂t.outside i hi₁, hm.outside hl₁ hc₁ hi₁, h₁t.outside i hi]
  · exact hgone₁.trans hrest
  · exact hcome₂.trans hrest'
  · intro e he
    have he₁ : e ∈ rest₁ := hrest.mem_iff.mpr (List.mem_cons_of_mem b he)
    have he₂ : e ∈ rest₂ := hrest'.mem_iff.mpr (List.mem_cons_of_mem c he)
    exact ((hrest₁ e he₁).trans (hcopied e he₁)).trans (hrest₂ e he₂)
  · intro i hi
    have hc₂ : c ∈ rest₂ := hrest'.mem_iff.mpr (by simp)
    rw [hrest₂ c hc₂ _ (by omega) (by simp only [Block.payload, Block.stop]; omega)]
    simp only [hcopy]
    rw [Memory.moved_of_inside (by omega) (by omega), Nat.add_sub_cancel_left]
    exact hrest₁ b hb₁ _ (by omega) (by simp only [Block.payload, Block.stop]; omega)

theorem move_eq {h₁ h₂ : RtMemheap} {p ptr oldsize : ℕ}
    (halloc : rtMemheapAlloc h size = some (h₁, p)) (hp : p ≠ 0) (hlt : oldsize < size)
    (hfree : rtMemheapFree { h₁ with memory := rtMemcpy h₁.memory p ptr oldsize } ptr = some h₂) :
    reallocMove h ptr oldsize size = some (h₂, p) := by
  unfold reallocMove
  refine (bind_of_eq_some halloc _).trans ?_
  dsimp only
  rw [if_pos hp, if_pos hlt]
  exact bind_of_eq_some hfree _

theorem Layout.move (hl : Layout h body free) (hlock : h.lock = 1) (hb : b ∈ body)
    (hbu : b.used = true) (hlt : b.size < size) (hle : size ≤ request size) :
    reallocMove h b.payload b.size size = some (h, 0) ∧ rtMemheapAlloc h size = some (h, 0) ∨
      ∃ h' c body' free', reallocMove h b.payload b.size size = some (h', c.payload) ∧
        Layout h' body' free' ∧ Turns h h' body body' [b] [c] ∧ size ≤ c.size ∧
        SameBytes b c h.memory h'.memory b.size := by
  obtain ⟨halloc, -⟩ | ⟨-, h₁, c, body₁, free₁, halloc, hl₁, ht₁, hcs⟩ := hl.alloc hlock size
  · refine .inl ⟨?_, halloc⟩
    unfold reallocMove
    exact bind_of_eq_some halloc _
  · replace hcs := hle.trans hcs
    have hc := ht₁.mem (n := c) (by simp)
    obtain ⟨rest, hgone, hcome, -⟩ := ht₁.rest
    have hbr : b ∈ rest := hgone.mem_iff.mp (mem_usedBlocks.mpr ⟨hb, hbu⟩)
    have hb₁ := mem_usedBlocks.mp (hcome.mem_iff.mpr (List.mem_cons_of_mem c hbr))
    have hbc : b ≠ c := by
      rintro rfl
      exact (List.nodup_cons.mp (hcome.nodup_iff.mp hl₁.used_nodup)).1 hbr
    have hap := hl₁.apart hc.1 hb₁.1 hbc
    have hcopy : rtMemcpy h₁.memory c.payload b.payload b.size =
        h₁.memory.moved c.payload b.payload b.size := by
      refine rtMemcpy_eq ?_
      simp only [Block.payload, Block.stop] at hap ⊢
      omega
    have hm : WrittenIn c h₁.memory (rtMemcpy h₁.memory c.payload b.payload b.size) :=
      hcopy ▸ WrittenIn.moved h₁.memory b.payload (hlt.le.trans hcs)
    have hl₁' := hl₁.rewrite hc.1 hm
    obtain ⟨u, v, rfl⟩ := List.append_of_mem hb₁.1
    obtain ⟨h₂, body₂, free₂, hfree, hl₂, ht₂⟩ := hl₁'.freed (ht₁.lock.trans hlock) hbu
    obtain ⟨ht, hsame⟩ := Turns.exchange hl₁ hb hbu ht₁ hcopy (hlt.le.trans hcs) ht₂
    have hp : c.payload ≠ 0 := by simp [Block.payload, rtMemheapSize]
    exact .inr ⟨h₂, c, body₂, free₂, move_eq halloc hp hlt hfree, hl₂, ht, hcs, hsame⟩

theorem realloc_eq {ptr x oldsize : ℕ} (hsize : size ≠ 0) (hptr : ptr ≠ 0)
    (hx : sub32 ptr rtMemheapSize = x) (hold : memitemSize h.memory x = oldsize)
    (hlock : h.lock = 1) :
    rtMemheapRealloc h ptr size =
      if oldsize < request size then
        guard (x < load h.memory x .next) >>= fun _ ↦
        if ¬ isUsed h.memory (load h.memory x .next) ∧ add32 (request size) rtMemheapMinialloc <
            add32 (memitemSize h.memory (load h.memory x .next)) oldsize then
          some ((growInPlace { h with lock := h.lock - 1 } x ptr oldsize (request size)).rtSemRelease,
            ptr)
        else reallocMove (RtMemheap.rtSemRelease { h with lock := h.lock - 1 }) ptr oldsize
          (request size)
      else if oldsize ≤ add32 (add32 (request size) rtMemheapSize) rtMemheapMinialloc then
        some (h, ptr)
      else some ((shrink { h with lock := h.lock - 1 } x (request size)).rtSemRelease, ptr) := by
  subst hx hold
  unfold rtMemheapRealloc
  rw [if_neg hsize, if_neg hptr]
  exact if_congr Iff.rfl (bind_of_eq_some (rtSemTake_eq hlock) _)
    (if_congr Iff.rfl rfl (bind_of_eq_some (rtSemTake_eq hlock) _))

theorem Layout.ptr_eq (hl : Layout h body free) (hb : b ∈ body) :
    sub32 b.payload rtMemheapSize = b.addr := by
  have hstop := (hl.stop_le hb).2
  have hfits := hl.placed.fits
  simp only [Block.stop, Block.payload, rtMemheapSize] at hstop ⊢
  rw [sub32_of_le (by omega) (by omega)]
  omega

theorem SameBytes.of_le {m m' : Memory} {c : Block} {k l : ℕ} (h : SameBytes b c m m' k)
    (hl : l ≤ k) : SameBytes b c m m' l := fun i hi ↦ h i (by omega)

theorem Turns.refl (h : RtMemheap) (hb : b ∈ body) (hbu : b.used = true) :
    Turns h h body body [b] [b] := by
  obtain ⟨u, v, rfl⟩ := List.append_of_mem hb
  exact ⟨rfl, rfl, rfl, rfl, le_rfl, fun _ _ ↦ rfl, usedBlocks (u ++ v), perm_usedBlocks hbu,
    perm_usedBlocks hbu, fun c _ i _ _ ↦ rfl⟩

theorem some_payload_resize (h : RtMemheap) (b : Block) (size : ℕ) :
    some (h, b.payload) = some (h, Block.payload { b with size }) := rfl

theorem size_resize (b : Block) (size : ℕ) : Block.size { b with size } = size := rfl

theorem alloc_request (h : RtMemheap) (size : ℕ) :
    rtMemheapAlloc h (request size) = rtMemheapAlloc h size := by
  simp only [rtMemheapAlloc, request_request]

theorem Layout.next_free (hl : Layout h (u ++ b :: v) free)
    (hfree : ¬ isUsed h.memory (load h.memory b.addr .next)) :
    ∃ n w, v = n :: w ∧ n.used = false ∧ load h.memory b.addr .next = n.addr := by
  have hth := hl.threaded
  rw [List.append_assoc, List.cons_append] at hth
  cases v with
  | nil =>
    rw [List.nil_append] at hth
    exact absurd (hth.next_isUsed_iff.mpr rfl) hfree
  | cons n w =>
    rw [List.cons_append] at hth
    rw [hth.next_isUsed_iff, Bool.not_eq_true] at hfree
    exact ⟨n, w, rfl, hfree, hth.neighbours.1⟩

theorem Layout.pair_lt (hl : Layout h (u ++ b :: n :: v) free) : n.size + b.size < 2 ^ 32 := by
  have ht := hl.tiles
  rw [List.append_assoc, List.cons_append, List.cons_append] at ht
  have hnext := ht.next
  have hstop := (hl.stop_le (b := n) (by simp)).2
  have hfits := hl.placed.fits
  simp only [Block.stop, rtMemheapSize] at hnext hstop
  omega

/-- The block that is too small grows, or another is found; else nothing happens. -/
theorem Layout.enlarge (hl : Layout h body free) (hlock : h.lock = 1) (hb : b ∈ body)
    (hbu : b.used = true) (hpos : size ≠ 0) (hlt : b.size < request size)
    (hfit : isUsed h.memory (load h.memory b.addr .next) ∨
      request size + rtMemheapMinialloc < 2 ^ 32) :
    rtMemheapRealloc h b.payload size = some (h, 0) ∧ rtMemheapAlloc h size = some (h, 0) ∨
      ∃ h' c body' free', rtMemheapRealloc h b.payload size = some (h', c.payload) ∧
        Layout h' body' free' ∧ Turns h h' body body' [b] [c] ∧ request size ≤ c.size ∧
        SameBytes b c h.memory h'.memory b.size := by
  have hp : b.payload ≠ 0 := by simp [Block.payload, rtMemheapSize]
  rw [realloc_eq hpos hp (hl.ptr_eq hb) (hl.memitemSize_eq hb) hlock, if_pos hlt,
    guard_bind (hl.addr_lt_next hb)]
  by_cases hgrow : ¬ isUsed h.memory (load h.memory b.addr .next) ∧
      add32 (request size) rtMemheapMinialloc <
        add32 (memitemSize h.memory (load h.memory b.addr .next)) b.size
  · rw [if_pos hgrow]
    obtain ⟨hfree, hroom⟩ := hgrow
    have hwrap := hfit.resolve_left hfree
    obtain ⟨u, v, rfl⟩ := List.append_of_mem hb
    obtain ⟨n, v, rfl, hn, hnext⟩ := hl.next_free hfree
    rw [hnext, hl.memitemSize_eq (by simp), add32_of_lt hwrap, add32_of_lt hl.pair_lt] at hroom
    obtain ⟨body', free', hl', ht', hsame⟩ := (hl.relock (h.lock - 1)).grow hbu hn hlt hroom
    refine .inr ⟨_, { b with size := request size }, body', free', ?_, hl'.release,
      ht'.unlock hlock, (size_resize b _).ge, ?_⟩
    · exact some_payload_resize _ b (request size)
    · rw [rtSemRelease_memory]
      exact hsame
  · rw [if_neg hgrow, rtSemRelease_eq hlock]
    rw [← alloc_request]
    exact hl.move hlock hb hbu hlt (request_request size).ge

theorem Layout.keep (hl : Layout h body free) (hlock : h.lock = 1) (hb : b ∈ body)
    (hbu : b.used = true) (hpos : size ≠ 0) (hge : request size ≤ b.size) :
    ∃ h' c body' free', rtMemheapRealloc h b.payload size = some (h', c.payload) ∧
      Layout h' body' free' ∧ Turns h h' body body' [b] [c] ∧ request size ≤ c.size ∧
      SameBytes b c h.memory h'.memory (request size) := by
  have hp : b.payload ≠ 0 := by simp [Block.payload, rtMemheapSize]
  have hpool := hl.placed.poolSize_le
  have hadd : add32 (add32 (request size) rtMemheapSize) rtMemheapMinialloc =
      request size + rtMemheapSize + rtMemheapMinialloc := by
    have hstop := (hl.stop_le hb).2
    have hfits := hl.placed.fits
    simp only [rtMemheapMinialloc, rtMemheapSize, sizeofRtMemheap, Block.stop] at hstop hpool ⊢
    have hsum : request size + 24 < 2 ^ 32 := by omega
    rw [add32_of_lt hsum, add32_of_lt (by omega)]
  rw [realloc_eq hpos hp (hl.ptr_eq hb) (hl.memitemSize_eq hb) hlock, if_neg hge.not_gt, hadd]
  split_ifs with hroom
  · exact ⟨h, b, body, free, rfl, hl, Turns.refl h hb hbu, hge, fun i _ ↦ rfl⟩
  · obtain ⟨u, v, rfl⟩ := List.append_of_mem hb
    obtain ⟨body', free', hl', ht', hsame⟩ :=
      (hl.relock (h.lock - 1)).shrink hbu (not_le.mp hroom)
    refine ⟨_, { b with size := request size }, body', free', ?_, hl'.release,
      ht'.unlock hlock, (size_resize b _).ge, ?_⟩
    · exact some_payload_resize _ b (request size)
    · rw [rtSemRelease_memory]
      exact hsame

end Resizing

end GiantGecko.Rtos.Memheap
