import GiantGecko.Rtos.MemheapRealloc

namespace GiantGecko.Rtos.Memheap

open Foundation.Bytes Foundation.Links

/-- What `rt_memheap_init` is given: a heap structure, and a region apart from it that has
room for two items. -/
structure Region where
  memory : Memory
  address : ℕ
  startAddr : ℕ
  size : ℕ
  room : 2 * rtMemheapSize ≤ rtAlignDown size rtAlignSize
  fits : startAddr + size ≤ 2 ^ 32
  inside : address + sizeofRtMemheap ≤ 2 ^ 32
  clear : address + sizeofRtMemheap ≤ startAddr ∨ startAddr + size ≤ address

def Region.init (r : Region) : RtMemheap :=
  rtMemheapInit r.memory r.address r.startAddr r.size

theorem Region.poolSize_le (r : Region) :
    rtAlignDown r.size rtAlignSize ≤ r.size ∧ r.size + sizeofRtMemheap ≤ 2 ^ 32 := by
  have hf := r.fits
  have hi := r.inside
  have hc := r.clear
  have hsize : r.size + sizeofRtMemheap ≤ 2 ^ 32 := by omega
  refine ⟨?_, hsize⟩
  exact Nat.and_le_left

theorem Region.placed (r : Region) : Placed r.init := by
  have hf := r.fits
  have hc := r.clear
  have hp := r.poolSize_le.1
  refine ⟨rfl, rfl, r.room, ?_, r.inside, ?_⟩
  · exact (Nat.add_le_add_left hp _).trans hf
  · exact hc.imp_right (Nat.add_le_add_left hp _).trans

section Init

variable {T : Set ℕ} {address freeList : ℕ} {m : Memory} {bs : List Block} {free : List ℕ}
  {x w : ℕ} {f g : Field}

theorem Threaded.storeOther (h : Threaded T address freeList m bs free) (hx : x ∈ T)
    (hb : ∀ b ∈ bs, b.addr ≠ x) (hf : ∀ a ∈ freeList :: free, a ≠ x) :
    Threaded T address freeList (store m x f w) bs free := by
  have hload : ∀ a ∈ bs.map Block.addr, ∀ g, load (store m x f w) a g = load m a g := by
    intro a ha g
    obtain ⟨b, hbm, rfl⟩ := List.mem_map.mp ha
    exact load_store_of_ne h.items (h.blocks_mem b hbm) hx (hb b hbm)
  have hfree : ∀ a ∈ freeList :: free, ∀ g, load (store m x f w) a g = load m a g :=
    fun a ha g ↦ load_store_of_ne h.items (h.free_mem a ha) hx (hf a ha)
  refine ⟨h.items, h.blocks_mem, h.free_mem, h.nodup, h.free_nodup,
    h.ring.congr (fun a ha ↦ hload a ha .next) (fun a ha ↦ hload a ha .prev),
    h.free_ring.congr (fun a ha ↦ hfree a ha .nextFree) (fun a ha ↦ hfree a ha .prevFree), ?_, ?_⟩
  · intro b hbm
    rw [hload _ (List.mem_map_of_mem hbm), h.marked b hbm]
  · intro b hbm
    rw [hload _ (List.mem_map_of_mem hbm), h.owned b hbm]

theorem load_initItem (hT : Items T) (hx : x ∈ T) (haddress : address < 2 ^ 32) :
    load (initItem m address x) x g =
      match g with
      | .magic => rtMemheapMagic
      | .poolPtr => address
      | .next | .prev => 0
      | .nextFree | .prevFree => x := by
  have hmagic : rtMemheapMagic < 2 ^ 32 := by decide
  simp only [initItem]
  rw [load_store hT hx hx (hT.lt x hx), load_store hT hx hx (hT.lt x hx),
    load_store hT hx hx (by norm_num), load_store hT hx hx (by norm_num),
    load_store hT hx hx haddress, load_store hT hx hx hmagic]
  cases g <;> simp

theorem Threaded.initOther (h : Threaded T address freeList m bs free) (hx : x ∈ T)
    (hb : ∀ b ∈ bs, b.addr ≠ x) (hf : ∀ a ∈ freeList :: free, a ≠ x) :
    Threaded T address freeList (initItem m address x) bs free :=
  (((((h.storeOther hx hb hf).storeOther hx hb hf).storeOther hx hb hf).storeOther hx hb
    hf).storeOther hx hb hf).storeOther hx hb hf

theorem kept_initItem (hx : x ∈ T) : Kept T m (initItem m address x) :=
  (((((kept_store hx).trans (kept_store hx)).trans (kept_store hx)).trans (kept_store hx)).trans
    (kept_store hx)).trans (kept_store hx)

theorem mark_lt (used : Bool) : mark used < 2 ^ 32 := by cases used <;> decide

theorem threaded_start {start tail : ℕ} (hT : Items T) (hf : freeList ∈ T) (hs : start ∈ T)
    (ht : tail ∈ T) (hsf : start ≠ freeList) (haddress : address < 2 ^ 32) :
    let m₁ := initItem (initItem m address freeList) address start
    let m₂ := insertFree (store (store m₁ start .next tail) start .prev tail) freeList start
    Threaded T address freeList m₂ [] [start] ∧ Kept T m m₂ ∧
      ∀ f, load m₂ start f =
        match f with
        | .magic => mark false
        | .poolPtr => address
        | .next | .prev => tail
        | .nextFree | .prevFree => freeList := by
  intro m₁ m₂
  have hring : Threaded T address freeList (initItem m address freeList) [] [] := by
    refine ⟨hT, by simp, by simpa using hf, by simp, by simp, trivial, ?_, by simp, by simp⟩
    exact ⟨load_initItem hT hf haddress, load_initItem hT hf haddress⟩
  have hother : ∀ a ∈ freeList :: ([] : List ℕ), a ≠ start := by simpa using hsf.symm
  have h₁ : Threaded T address freeList (store (store m₁ start .next tail) start .prev tail)
      [] [] :=
    ((hring.initOther hs (by simp) hother).storeOther hs (by simp) hother).storeOther hs
      (by simp) hother
  obtain ⟨h₂, k₂⟩ := h₁.insertFree hs (by simpa using hsf)
  have k₁ : Kept T m (store (store m₁ start .next tail) start .prev tail) :=
    (((kept_initItem hf).trans (kept_initItem hs)).trans (kept_store hs)).trans (kept_store hs)
  refine ⟨h₂, k₁.trans k₂, ?_⟩
  have hself : load (store (store m₁ start .next tail) start .prev tail) freeList .nextFree =
      freeList := h₁.free_ring.1
  have hlink : load (store (store m₁ start .next tail) start .prev tail) freeList .nextFree ∈ T := by
    rw [hself]
    exact hf
  obtain ⟨hin, hrest⟩ := inserts_insertFree hT hs hf hlink hsf
  intro f
  cases f with
  | magic =>
    rw [hrest start hs .magic (by decide) (by decide), load_store hT hs hs (hT.lt _ ht),
      load_store hT hs hs (hT.lt _ ht), load_initItem hT hs haddress]
    simp [mark]
  | poolPtr =>
    rw [hrest start hs .poolPtr (by decide) (by decide), load_store hT hs hs (hT.lt _ ht),
      load_store hT hs hs (hT.lt _ ht), load_initItem hT hs haddress]
    simp
  | next =>
    rw [hrest start hs .next (by decide) (by decide), load_store hT hs hs (hT.lt _ ht),
      load_store hT hs hs (hT.lt _ ht)]
    simp
  | prev =>
    rw [hrest start hs .prev (by decide) (by decide), load_store hT hs hs (hT.lt _ ht)]
    simp
  | nextFree =>
    rw [hin.forward start hs, if_neg hsf, if_pos rfl]
    exact hself
  | prevFree =>
    have hne : start ≠ load (store (store m₁ start .next tail) start .prev tail) freeList
        .nextFree := by
      rw [hself]
      exact hsf
    rw [hin.backward start hs, if_neg hne, if_pos rfl]

theorem Threaded.tail {start tail : ℕ} (size : ℕ) (h : Threaded T address freeList m [] [start])
    (hstart : ∀ f, load m start f =
      match f with
      | .magic => mark false
      | .poolPtr => address
      | .next | .prev => tail
      | .nextFree | .prevFree => freeList)
    (ht : tail ∈ T) (hts : tail ≠ start) (htf : tail ≠ freeList) (haddress : address < 2 ^ 32) :
    let m₁ := store m tail .magic (rtMemheapMagic ||| rtMemheapUsed)
    let m₂ := store (store (store m₁ tail .poolPtr address) tail .next start) tail .prev start
    Threaded T address freeList (store (store m₂ tail .prevFree 0) tail .nextFree 0)
        [⟨start, size, false⟩, ⟨tail, 0, true⟩] [start] ∧
      Kept T m (store (store m₂ tail .prevFree 0) tail .nextFree 0) := by
  intro m₁ m₂
  have hT := h.items
  have hs : start ∈ T := h.free_mem start (by simp)
  have hother : ∀ a ∈ [freeList, start], a ≠ tail := by simpa using ⟨htf.symm, hts.symm⟩
  have h' : Threaded T address freeList (store (store m₂ tail .prevFree 0) tail .nextFree 0)
      [] [start] :=
    (((((h.storeOther ht (by simp) hother).storeOther ht (by simp) hother).storeOther ht
      (by simp) hother).storeOther ht (by simp) hother).storeOther ht (by simp)
      hother).storeOther ht (by simp) hother
  have hstart' : ∀ f, load (store (store m₂ tail .prevFree 0) tail .nextFree 0) start f =
      load m start f := by
    intro f
    rw [load_store_of_ne hT hs ht hts.symm, load_store_of_ne hT hs ht hts.symm,
      load_store_of_ne hT hs ht hts.symm, load_store_of_ne hT hs ht hts.symm,
      load_store_of_ne hT hs ht hts.symm, load_store_of_ne hT hs ht hts.symm]
  have htail : ∀ f, load (store (store m₂ tail .prevFree 0) tail .nextFree 0) tail f =
      match f with
      | .magic => mark true
      | .poolPtr => address
      | .next | .prev => start
      | .nextFree | .prevFree => 0 := by
    have hlt := hT.lt start hs
    have hmark : rtMemheapMagic ||| rtMemheapUsed < 2 ^ 32 := mark_lt true
    intro f
    rw [load_store hT ht ht (by norm_num), load_store hT ht ht (by norm_num),
      load_store hT ht ht hlt, load_store hT ht ht hlt, load_store hT ht ht haddress,
      load_store hT ht ht hmark]
    cases f <;> simp [mark]
  have hkept : Kept T m (store (store m₂ tail .prevFree 0) tail .nextFree 0) :=
    (((((kept_store ht).trans (kept_store ht)).trans (kept_store ht)).trans (kept_store ht)).trans
      (kept_store ht)).trans (kept_store ht)
  refine ⟨⟨hT, ?_, h'.free_mem, ?_, h'.free_nodup, ?_, h'.free_ring, ?_, ?_⟩, hkept⟩
  · simpa using ⟨hs, ht⟩
  · simpa using hts.symm
  · simp only [List.map_cons, List.map_nil, ring_cons, path_cons, path_nil, hstart', hstart, htail,
      and_self]
  · simp only [List.forall_mem_cons, hstart', hstart, htail, List.not_mem_nil, false_implies,
      implies_true, and_self]
  · simp only [List.forall_mem_cons, hstart', hstart, htail, List.not_mem_nil, false_implies,
      implies_true, and_self]

end Init

theorem Region.memory_eq (r : Region) {tail : ℕ}
    (htail : add32 (add32 r.startAddr (sub32 (rtAlignDown r.size rtAlignSize) (2 * rtMemheapSize)))
      rtMemheapSize = tail)
    {m : Memory}
    (hm : insertFree (store (store (initItem (initItem r.memory r.address (freeHeader r.address))
      r.address r.startAddr) r.startAddr .next tail) r.startAddr .prev tail) (freeHeader r.address)
      r.startAddr = m)
    (hload : load m r.startAddr .next = tail)
    (hnext : ∀ m', load (store m' r.startAddr .next tail) r.startAddr .next = tail) :
    r.init.memory = store (store (store (store (store (store m tail .magic
      (rtMemheapMagic ||| rtMemheapUsed)) tail .poolPtr r.address) tail .next r.startAddr) tail
      .prev r.startAddr) tail .prevFree 0) tail .nextFree 0 := by
  simp only [Region.init, rtMemheapInit, htail, hnext, hm, hload]

def Region.block (r : Region) : Block :=
  ⟨r.startAddr, r.init.poolSize - 2 * rtMemheapSize, false⟩

theorem Region.available_eq (r : Region) : r.init.availableSize = r.block.size := by
  have hroom := r.placed.room
  have hpool := r.placed.poolSize_le
  simp only [sizeofRtMemheap] at hpool
  have hlt : r.init.poolSize < 2 ^ 32 := by omega
  exact sub32_of_le hroom hlt

theorem Region.block_stop (r : Region) : r.block.stop = r.init.tail.addr := by
  have hroom := r.placed.room
  have hstart : r.init.startAddr = r.startAddr := rfl
  simp only [Region.block, Block.stop, RtMemheap.tail, rtMemheapSize, hstart] at hroom ⊢
  omega

theorem Region.tiles (r : Region) :
    Tiles r.init.startAddr [r.block, r.init.tail] (r.init.startAddr + r.init.poolSize) := by
  have hroom := r.placed.room
  refine ⟨rfl, r.block_stop.symm, ?_⟩
  simp only [tiles_nil, Block.stop, RtMemheap.tail, rtMemheapSize] at hroom ⊢
  omega

theorem Region.tail_eq (r : Region) :
    add32 (add32 r.startAddr (sub32 (rtAlignDown r.size rtAlignSize) (2 * rtMemheapSize)))
      rtMemheapSize = r.init.tail.addr := by
  have havail := r.available_eq
  have hbounds := (r.tiles.bounds (b := r.init.tail) (by simp)).2
  have hfits := r.placed.fits
  have hstop := r.block_stop
  have hblock : r.block.addr = r.startAddr := rfl
  have hinit : sub32 (rtAlignDown r.size rtAlignSize) (2 * rtMemheapSize) =
      r.init.availableSize := rfl
  have hs := r.init.tail.addr_lt_stop
  simp only [Block.stop, rtMemheapSize, hblock] at hstop hs hbounds
  have hsum : r.startAddr + r.block.size < 2 ^ 32 := by omega
  rw [hinit, havail, add32_of_lt hsum, add32_of_lt]
  · simp only [rtMemheapSize]
    omega
  · simp only [rtMemheapSize]
    omega

theorem Region.threaded (r : Region) :
    Threaded (headers r.init.freeList [r.block, r.init.tail]) r.address r.init.freeList
        r.init.memory [r.block, r.init.tail] [r.startAddr] ∧
      Kept (headers r.init.freeList [r.block, r.init.tail]) r.memory r.init.memory := by
  have hp := r.placed
  have hT := hp.items r.tiles
  have hstart : r.startAddr ∈ headers r.init.freeList [r.block, r.init.tail] :=
    mem_headers_of_mem (b := r.block) (by simp)
  have htail : r.init.tail.addr ∈ headers r.init.freeList [r.block, r.init.tail] :=
    mem_headers_of_mem (by simp)
  have hlist : r.init.freeList ∈ headers r.init.freeList [r.block, r.init.tail] := .inl rfl
  have hne : ∀ b ∈ [r.block, r.init.tail], b.addr ≠ r.init.freeList := by
    intro b hb hbl
    have hbounds := r.tiles.bounds hb
    have hapart := hp.apart hbounds.1 (b.addr_lt_stop.trans hbounds.2)
    simp only [rtMemheapSize] at hapart
    omega
  have hts : r.init.tail.addr ≠ r.startAddr := by
    have hs := r.block.addr_lt_stop
    have hblock : r.block.addr = r.startAddr := rfl
    rw [r.block_stop, hblock] at hs
    simp only [rtMemheapSize] at hs
    omega
  have haddress : r.address < 2 ^ 32 := by
    have hi := r.inside
    simp only [sizeofRtMemheap] at hi
    omega
  obtain ⟨hth, hkept, hload⟩ := threaded_start (m := r.memory) hT hlist hstart
    htail (hne r.block (by simp)) haddress
  obtain ⟨hth', hkept'⟩ :=
    hth.tail r.block.size hload htail hts (hne r.init.tail (by simp)) haddress
  have hmem := r.memory_eq r.tail_eq rfl (hload .next) fun m' ↦ by
    rw [load_store hT hstart hstart (hT.lt _ htail), if_pos ⟨rfl, rfl⟩]
  rw [hmem]
  exact ⟨hth', hkept.trans hkept'⟩

/-- A fresh heap is one free block. -/
theorem Region.layout (r : Region) : Layout r.init [r.block] [r.startAddr] := by
  have hp := r.placed
  refine ⟨hp, r.tiles, ?_, ?_, ?_, ?_, ?_⟩
  · exact r.threaded.1
  · simp [Isolated]
  · simp [Region.block]
  · rw [r.available_eq]
    simp [Region.block]
  · have hle : r.init.availableSize ≤ r.init.poolSize := by
      rw [r.available_eq]
      exact Nat.sub_le _ _
    have hpool := hp.poolSize_le
    simp only [sizeofRtMemheap] at hpool
    have hmax : r.init.maxUsedSize = sub32 r.init.poolSize r.init.availableSize := rfl
    rw [hmax, sub32_of_le hle (by omega)]
    omega

theorem Region.outside (r : Region) {i : ℕ} (hi : r.init.Outside i) :
    r.init.memory.byte i = r.memory.byte i :=
  r.placed.outside r.tiles r.threaded.2 hi

end GiantGecko.Rtos.Memheap
