import GiantGecko.Rtos.HeapsSound

namespace GiantGecko.Rtos.Memheap

open Foundation.Bytes

structure SamePlaces (s s' : Heaps) : Prop where
  objectList : s'.objectList = s.objectList
  systemHeap : s'.systemHeap = s.systemHeap
  startAddr : ∀ k, (s'.heap k).startAddr = (s.heap k).startAddr
  poolSize : ∀ k, (s'.heap k).poolSize = (s.heap k).poolSize

theorem SamePlaces.refl (s : Heaps) : SamePlaces s s := ⟨rfl, rfl, fun _ ↦ rfl, fun _ ↦ rfl⟩

theorem SamePlaces.trans {s₁ s₂ s₃ : Heaps} (h : SamePlaces s₁ s₂) (h' : SamePlaces s₂ s₃) :
    SamePlaces s₁ s₃ :=
  ⟨h'.objectList.trans h.objectList, h'.systemHeap.trans h.systemHeap,
    fun k ↦ (h'.startAddr k).trans (h.startAddr k), fun k ↦ (h'.poolSize k).trans (h.poolSize k)⟩

def give (live : ℕ → List Allocation) (k : ℕ) (a : Allocation) : ℕ → List Allocation :=
  Function.update live k (a :: live k)

def drop (live : ℕ → List Allocation) (k ptr : ℕ) : ℕ → List Allocation :=
  Function.update live k ((live k).filter fun a ↦ a.ptr ≠ ptr)

section Holding

variable {s : Heaps} {live : ℕ → List Allocation} {bodies : ℕ → List Block} {frees : ℕ → List ℕ}
  {h' : RtMemheap} {j k l p ptr size : ℕ} {body' gone come : List Block}
  {free' : List ℕ} {a x y : Allocation} {b c : Block} {m' : Memory}

theorem Turns.samePlaces (ht : Turns (s.heap k) h' (bodies k) body' gone come) :
    SamePlaces s (s.put h') := by
  have haddress : h'.address = k := ht.address
  refine ⟨rfl, rfl, fun l ↦ ?_, fun l ↦ ?_⟩
  all_goals
    obtain rfl | hne := eq_or_ne l k
    · rw [heap_put_self haddress]
      first
        | exact ht.startAddr
        | exact ht.poolSize
    · rw [heap_put_of_ne (haddress ▸ hne)]

/-- The header of a block in use tells the heap that the block is of. -/
theorem Held.poolPtr_eq (hs : Held s live bodies frees) (hk : k ∈ s.objectList)
    (hb : b ∈ bodies k) : poolPtr s.memory b.payload = k := by
  have hl := (hs.served k hk).layout
  rw [poolPtr, hl.ptr_eq hb]
  exact hl.threaded.owned b (List.mem_append_left _ hb)

theorem Held.free (hs : Held s live bodies frees) (hk : k ∈ s.objectList) (hb : b ∈ bodies k)
    (hbu : b.used = true) :
    ∃ h' body' free', rtFree s b.payload = some (s.put h') ∧ Layout h' body' free' ∧
      Turns (s.heap k) h' (bodies k) body' [b] [] := by
  have hpool := hs.poolPtr_eq hk hb
  obtain ⟨u, v, hbody⟩ := List.append_of_mem hb
  have hsk := hs.served k hk
  rw [hbody] at hsk ⊢
  obtain ⟨h', body', free', hfree, hl, ht⟩ := hsk.layout.freed hsk.lock hbu
  refine ⟨h', body', free', ?_, hl, ht⟩
  rw [rtFree, Heaps.free, if_neg (payload_ne_zero b), hpool, guard_bind hk]
  exact bind_of_eq_some hfree _

theorem Held.blocks_apart (hs : Held s live bodies frees) (hk : k ∈ s.objectList)
    (hl : l ∈ s.objectList) (hkl : k ≠ l) (hb : b ∈ bodies k) (hc : c ∈ bodies l) {m n : ℕ}
    (hbm : m ≤ b.size) (hcn : n ≤ c.size) (hm : 0 < m) (hn : 0 < n) :
    b.payload + m ≤ c.payload ∨ c.payload + n ≤ b.payload := by
  by_contra! hover
  have hapart := hs.apart k hk l hl hkl (max b.payload c.payload)
  obtain hout | hout := hapart
  · refine (hs.served k hk).layout.not_outside hb ?_ ?_ hout
    all_goals
      simp only [Block.payload, Block.stop] at hover ⊢
      omega
  · refine (hs.served l hl).layout.not_outside hc ?_ ?_ hout
    all_goals
      simp only [Block.payload, Block.stop] at hover ⊢
      omega

theorem Held.rewrite_unmoved (hs : Held s live bodies frees) (hk : k ∈ s.objectList)
    (hb : b ∈ bodies k) (hm : WrittenIn b s.memory m') (hj : j ∈ s.objectList) (hy : y ∈ live j)
    (hne : j = k → y.ptr ≠ b.payload) : Unmoved y s.memory m' := by
  obtain rfl | hjk := eq_or_ne j k
  · exact (hs.served j hj).rewrite_unmoved hb hm hy (hne rfl)
  · intro i hi
    have hout := (hs.apart j hj k hk hjk (y.ptr + i)).resolve_left
      ((hs.served j hj).not_outside hy hi)
    exact WrittenIn.outside (h := s.heap k) hm (hs.served k hk).layout hb hout

theorem Held.intact_elsewhere (hs : Held s live bodies frees) (hk : k ∈ s.objectList)
    (hl : l ∈ s.objectList) (hne : l ≠ k) (hb : b ∈ bodies k)
    (ht : Turns (s.heap l) h' (bodies l) body' gone come) : Intact b s.memory h'.memory := by
  intro i hi hi'
  refine ht.outside i ((hs.apart l hl k hk hne i).resolve_right ?_)
  exact (hs.served k hk).layout.not_outside hb ((Nat.le_add_right _ _).trans hi) hi'

theorem Held.realloc (hs : Held s live bodies frees) (hk : k ∈ s.objectList) (hb : b ∈ bodies k)
    (hbu : b.used = true) (hpos : size ≠ 0)
    (hfit : isUsed s.memory (load s.memory b.addr .next) ∨
      request size + rtMemheapMinialloc < 2 ^ 32) :
    s.realloc k b.payload size = some (s, 0) ∧ b.size < request size ∧
        ¬ HasRoom (s.heap k) (bodies k) size ∨
      ∃ h' c body' free', s.realloc k b.payload size = some (s.put h', c.payload) ∧
        Layout h' body' free' ∧ Turns (s.heap k) h' (bodies k) body' [b] [c] ∧
        request size ≤ c.size ∧
        SameBytes b c s.memory h'.memory (min b.size (request size)) := by
  have hsk := hs.served k hk
  rw [Heaps.realloc, guard_bind hk]
  obtain hlt | hge := Nat.lt_or_ge b.size (request size)
  · obtain ⟨hnone, halloc⟩ | ⟨h', c, body', free', hsome, hl, ht, hc, hsame⟩ :=
      hsk.layout.enlarge hsk.lock hb hbu hpos hlt hfit
    · refine .inl ⟨?_, hlt, ?_⟩
      · refine (bind_of_eq_some hnone _).trans ?_
        simp only [put_heap]
      · obtain ⟨-, hfull⟩ | ⟨-, h', c, body', free', hsome, -⟩ := hsk.layout.alloc hsk.lock size
        · exact hfull
        · rw [halloc] at hsome
          exact absurd (Prod.mk.inj (Option.some.inj hsome)).2.symm (payload_ne_zero c)
    · refine .inr ⟨h', c, body', free', bind_of_eq_some hsome _, hl, ht, hc, ?_⟩
      exact hsame.of_le (Nat.min_le_left ..)
  · obtain ⟨h', c, body', free', hsome, hl, ht, hc, hsame⟩ :=
      hsk.layout.keep hsk.lock hb hbu hpos hge
    refine .inr ⟨h', c, body', free', bind_of_eq_some hsome _, hl, ht, hc, ?_⟩
    exact hsame.of_le (Nat.min_le_right ..)

theorem Unmoved.trans {m₁ m₂ m₃ : Memory} (h : Unmoved a m₁ m₂) (h' : Unmoved a m₂ m₃) :
    Unmoved a m₁ m₃ := fun i hi ↦ (h' i hi).trans (h i hi)

theorem Held.block_size (hs : Held s live bodies frees) (hk : k ∈ s.objectList)
    (hb : b ∈ bodies k) : memitemSize s.memory (sub32 b.payload rtMemheapSize) = b.size := by
  have hl := (hs.served k hk).layout
  rw [hl.ptr_eq hb]
  exact hl.memitemSize_eq hb

theorem Held.size_le (hs : Held s live bodies frees) (hk : k ∈ s.objectList) (ha : a ∈ live k) :
    a.size ≤ memitemSize s.memory (sub32 a.ptr rtMemheapSize) := by
  obtain ⟨b, hb, -, hba, hsize⟩ := (hs.served k hk).exists_block ha
  rwa [← hba, hs.block_size hk hb]

theorem mem_give : a ∈ give live k a k := by
  simp [give]

/-- There is a new allocation at `p`, in one of the heaps, and nobody else is affected. -/
structure Granted (s s' : Heaps) (live : ℕ → List Allocation) (p size : ℕ) : Prop where
  ptr_ne : p ≠ 0
  held : ∃ l ∈ s.objectList, ∃ bodies frees, Held s' (give live l ⟨p, size⟩) bodies frees
  others : ∀ j ∈ s.objectList, ∀ y ∈ live j, Unmoved y s.memory s'.memory
  places : SamePlaces s s'

theorem Held.given {n : ℕ} (hs : Held s live bodies frees) (hk : k ∈ s.objectList)
    (hl : Layout h' body' free') (ht : Turns (s.heap k) h' (bodies k) body' [] [c])
    (hn : n ≤ c.size) (hmin : rtMemheapMinialloc ≤ c.size) :
    Held (s.put h') (give live k ⟨c.payload, n⟩) (Function.update bodies k body')
      (Function.update frees k free') := by
  have hturn := hs.turn hk [⟨c.payload, n⟩] hl ht (.cons ⟨rfl, hn⟩ .nil) (by simpa using hmin)
  simpa [give] using hturn

theorem GivenBy.granted {n : ℕ} {r : Option (Heaps × ℕ)} (hs : Held s live bodies frees)
    (hg : GivenBy s bodies size s.objectList r) (hn : n ≤ request size) :
    ∃ s' p, r = some (s', p) ∧ Granted s s' live p n := by
  obtain ⟨l, hl, -, h', c, body', free', rfl, hl', ht, hc⟩ := hg
  have hturn := hs.given hl hl' ht (hn.trans hc) ((le_request size).trans hc)
  refine ⟨_, _, rfl, payload_ne_zero c, ⟨l, hl, _, _, hturn⟩, ?_, ht.samePlaces⟩
  intro j hj y hy
  exact hs.unmoved hl ht hj hy (by simp)

theorem rtMemset_eq {m : Memory} {dst count : ℕ} {v : UInt8} :
    rtMemset m dst v count = m.filled dst v count := by
  unfold rtMemset
  split_ifs
  · dsimp only
    rw [Memory.fillWords_eq, Memory.fillBytes_eq, Memory.filled_filled, Nat.div_add_mod]
  · exact Memory.fillBytes_eq

theorem mem_give_of_mem (hy : y ∈ live j) : y ∈ give live k a j := by
  obtain rfl | hjk := eq_or_ne j k
  · simp [give, hy]
  · rwa [give, Function.update_of_ne hjk]

theorem Held.ptr_ne (hs : Held s (give live k a) bodies frees) (hk : k ∈ s.objectList)
    (hy : y ∈ live k) : y.ptr ≠ a.ptr := by
  have hnodup := (hs.served k hk).ptr_nodup
  rw [give, Function.update_self, List.map_cons, List.nodup_cons] at hnodup
  intro hya
  exact hnodup.1 (hya ▸ List.mem_map_of_mem hy)

theorem rtCalloc_null {count : ℕ} (hnone : rtMalloc s (count * size % 2 ^ 32) = some (s, 0)) :
    rtCalloc s count size = some (s, 0) := by
  rw [rtCalloc, bind_of_eq_some hnone]
  rfl

theorem rtCalloc_some {s' : Heaps} {count : ℕ}
    (hsome : rtMalloc s (count * size % 2 ^ 32) = some (s', p)) (hp : p ≠ 0) :
    rtCalloc s count size =
      some ({ s' with memory := rtMemset s'.memory p 0 (count * size % 2 ^ 32) }, p) := by
  rw [rtCalloc, bind_of_eq_some hsome]
  exact if_pos hp

theorem Held.calloc (hs : Held s live bodies frees) (count size : ℕ)
    (htotal : count * size % 2 ^ 32 + rtAlignSize ≤ 2 ^ 32) :
    rtCalloc s count size = some (s, 0) ∧ Full s bodies (count * size % 2 ^ 32) ∨
      ∃ s' p, rtCalloc s count size = some (s', p) ∧
        Granted s s' live p (count * size % 2 ^ 32) ∧
        ∀ i < count * size % 2 ^ 32, s'.memory.byte (p + i) = 0 := by
  obtain ⟨hnone, hfull⟩ | hg := hs.malloc (count * size % 2 ^ 32)
  · exact .inl ⟨rtCalloc_null hnone, hfull⟩
  · obtain ⟨s', p, hsome, hp, ⟨l, hl, bodies', frees', hs'⟩, hothers, hplaces⟩ :=
      hg.granted hs (request_spec htotal).1
    refine .inr ⟨_, p, rtCalloc_some hsome hp, ?_, ?_⟩
    · have hl' : l ∈ s'.objectList := hplaces.objectList ▸ hl
      obtain ⟨b, hb, -, hbp, hsize⟩ := (hs'.served l hl').exists_block mem_give
      have hm : WrittenIn b s'.memory (rtMemset s'.memory p 0 (count * size % 2 ^ 32)) := by
        rw [rtMemset_eq, show p = b.payload from hbp.symm]
        exact .filled s'.memory 0 hsize
      refine ⟨hp, ⟨l, hl, _, _, hs'.rewrite hl' hb hm⟩, ?_, hplaces.objectList,
        hplaces.systemHeap, hplaces.startAddr, hplaces.poolSize⟩
      intro j hj y hy
      have hj' : j ∈ s'.objectList := hplaces.objectList ▸ hj
      refine (hothers j hj y hy).trans
        (hs'.rewrite_unmoved hl' hb hm hj' (mem_give_of_mem hy) ?_)
      rintro rfl
      rw [hbp]
      exact hs'.ptr_ne hj' hy
    · intro i hi
      simp only [rtMemset_eq]
      exact Memory.filled_of_inside (by omega) (by omega)

/-- An allocation has become one of another size at `p`, in one of the heaps: its heap has it
no more, its first bytes are there, and nobody else is affected. -/
structure Resized (s s' : Heaps) (live : ℕ → List Allocation) (k : ℕ) (x : Allocation)
    (p size : ℕ) : Prop where
  ptr_ne : p ≠ 0
  room : size ≤ memitemSize s'.memory (sub32 p rtMemheapSize)
  held : ∃ l ∈ s.objectList, ∃ bodies frees, Held s' (give (drop live k x.ptr) l ⟨p, size⟩) bodies
    frees
  bytes : ∀ i < min (memitemSize s.memory (sub32 x.ptr rtMemheapSize)) size,
    s'.memory.byte (p + i) = s.memory.byte (x.ptr + i)
  others : ∀ j ∈ s.objectList, ∀ y ∈ live j, (j = k → y.ptr ≠ x.ptr) →
    Unmoved y s.memory s'.memory
  places : SamePlaces s s'

theorem Held.resized_inside (hs : Held s live bodies frees) (hk : k ∈ s.objectList)
    (hb : b ∈ bodies k) (hbx : b.payload = x.ptr) (hl : Layout h' body' free')
    (ht : Turns (s.heap k) h' (bodies k) body' [b] [c]) (hsize : size ≤ request size)
    (hc : request size ≤ c.size)
    (hsame : SameBytes b c s.memory h'.memory (min b.size (request size))) :
    Resized s (s.put h') live k x c.payload size := by
  have hturn := hs.turn hk [⟨c.payload, size⟩] hl ht (.cons ⟨rfl, hsize.trans hc⟩ .nil)
    (by simpa using (le_request size).trans hc)
  have hlive : give (drop live k x.ptr) k ⟨c.payload, size⟩ = Function.update live k
      ([⟨c.payload, size⟩] ++ (live k).filter fun a ↦ a.ptr ∉ [b].map Block.payload) := by
    simp [give, drop, hbx]
  rw [← hlive] at hturn
  refine ⟨payload_ne_zero c, hturn.size_le hk mem_give, ⟨k, hk, _, _, hturn⟩, ?_, ?_,
    ht.samePlaces⟩
  · rw [← hbx, hs.block_size hk hb]
    intro i hi
    exact hsame i (by omega)
  · intro j hj y hy hne
    refine hs.unmoved hk ht hj hy fun hjk ↦ ?_
    simpa [hbx] using hne hjk

theorem Held.resized_across {h₁ : RtMemheap} {body₁ : List Block} {free₁ : List ℕ}
    (hs : Held s live bodies frees) (hk : k ∈ s.objectList) (hl : l ∈ s.objectList) (hne : l ≠ k)
    (hb : b ∈ bodies k) (hbu : b.used = true) (hbx : b.payload = x.ptr)
    (hl₁ : Layout h₁ body₁ free₁) (ht₁ : Turns (s.heap l) h₁ (bodies l) body₁ [] [c])
    (hsize : size ≤ c.size) (hmin : rtMemheapMinialloc ≤ c.size) (hpos : 0 < size) :
    let oldsize := memitemSize h₁.memory (sub32 x.ptr rtMemheapSize)
    let count := if oldsize < size then oldsize else size
    ∃ s', rtFree { s.put h₁ with memory := rtMemcpy h₁.memory c.payload x.ptr count } x.ptr =
        some s' ∧
      Resized s s' live k x c.payload size := by
  intro oldsize count
  obtain ⟨hc, hcu⟩ := ht₁.mem (n := c) (by simp)
  have hs₁ := hs.given hl hl₁ ht₁ hsize hmin
  have hb₁ : b ∈ Function.update bodies l body₁ k := by
    rwa [Function.update_of_ne hne.symm]
  have hc₁ : c ∈ Function.update bodies l body₁ l := by
    rwa [Function.update_self]
  have hold : oldsize = b.size := by
    have hold := hs₁.block_size hk hb₁
    rwa [hbx] at hold
  have hleast := hs.least k hk b (mem_usedBlocks.mpr ⟨hb, hbu⟩)
  have hcount : count = min b.size size := by
    rw [← hold]
    exact (min_def_lt ..).symm
  have hcb : count ≤ b.size := hcount ▸ Nat.min_le_left ..
  have hcs : count ≤ size := hcount ▸ Nat.min_le_right ..
  have hcpos : 0 < count := hcount ▸ lt_min (Nat.lt_of_lt_of_le (by decide) hleast) hpos
  clear_value count
  have hapart := hs₁.blocks_apart hk hl hne.symm hb₁ hc₁ (m := count) (n := count) hcb
    (hcs.trans hsize) hcpos hcpos
  rw [← hbx, rtMemcpy_eq hapart]
  have hm : WrittenIn c h₁.memory (h₁.memory.moved c.payload b.payload count) :=
    .moved h₁.memory b.payload (hcs.trans hsize)
  have hs₂ := hs₁.rewrite hl hc₁ hm
  obtain ⟨h₃, body₃, free₃, hfree, hl₃, ht₃⟩ := hs₂.free hk hb₁ hbu
  have hs₃ := hs₂.turn hk [] hl₃ ht₃ .nil (by simp)
  have hlive : give (drop live k x.ptr) l ⟨c.payload, size⟩ =
      Function.update (give live l ⟨c.payload, size⟩) k
        ([] ++ (give live l ⟨c.payload, size⟩ k).filter fun a ↦ a.ptr ∉ [b].map Block.payload) := by
    simp [give, drop, Function.update_of_ne hne, Function.update_of_ne hne.symm,
      Function.update_comm hne, hbx]
  rw [← hlive] at hs₃
  refine ⟨_, hfree, payload_ne_zero c, hs₃.size_le hl mem_give, ⟨l, hl, _, _, hs₃⟩, ?_, ?_, ?_⟩
  · rw [← hbx, hs.block_size hk hb, ← hcount]
    intro i hi
    have hmoved := hs₂.unmoved hk ht₃ hl mem_give (fun hlk ↦ absurd hlk hne) i (hi.trans_le hcs)
    have hcopy : (h₁.memory.moved c.payload b.payload count).byte (c.payload + i) =
        h₁.memory.byte (b.payload + i) := by
      rw [Memory.moved_of_inside (by omega) (by omega), Nat.add_sub_cancel_left]
    have hthere : h₁.memory.byte (b.payload + i) = s.memory.byte (b.payload + i) := by
      refine hs.intact_elsewhere hk hl hne hb ht₁ _ (Nat.le_add_right ..) ?_
      simp only [Block.payload, Block.stop]
      omega
    exact hmoved.trans (hcopy.trans hthere)
  · intro j hj y hy hyx
    have hy₁ : y ∈ give live l ⟨c.payload, size⟩ j := mem_give_of_mem hy
    have hyc : j = l → y.ptr ≠ c.payload := by
      rintro rfl
      exact hs₁.ptr_ne hj hy
    have h₁ := hs.unmoved hl ht₁ hj hy (by simp)
    have h₂ := hs₁.rewrite_unmoved hl hc₁ hm hj hy₁ hyc
    have h₃ := hs₂.unmoved hk ht₃ hj hy₁ fun hjk ↦ by simpa [hbx] using hyx hjk
    exact (h₁.trans h₂).trans h₃
  · have hplaces : SamePlaces (s.put h₁)
        { s.put h₁ with memory := h₁.memory.moved c.payload b.payload count } :=
      ⟨rfl, rfl, fun _ ↦ rfl, fun _ ↦ rfl⟩
    exact (ht₁.samePlaces.trans hplaces).trans ht₃.samePlaces

theorem rtRealloc_null (s : Heaps) (size : ℕ) : rtRealloc s 0 size = rtMalloc s size := by
  rw [rtRealloc, if_pos rfl]

theorem rtRealloc_some {s' : Heaps} (hptr : ptr ≠ 0) (hpos : size ≠ 0)
    (hsome : s.realloc (poolPtr s.memory ptr) ptr size = some (s', p)) (hp : p ≠ 0) :
    rtRealloc s ptr size = some (s', p) := by
  rw [rtRealloc, if_neg hptr, if_neg hpos]
  dsimp only
  rw [bind_of_eq_some hsome]
  exact if_neg hp

/-- `rt_realloc` gives the block of another size, in its heap or in another, or no heap has
room and nothing happens. -/
theorem Held.resize (hs : Held s live bodies frees) (hk : k ∈ s.objectList) (hx : x ∈ live k)
    (hpos : size ≠ 0) (hsize : size ≤ request size)
    (hfit : isUsed s.memory (load s.memory (sub32 x.ptr rtMemheapSize) .next) ∨
      request size + rtMemheapMinialloc < 2 ^ 32) :
    rtRealloc s x.ptr size = some (s, 0) ∧ Full s bodies size ∨
      ∃ s' p, rtRealloc s x.ptr size = some (s', p) ∧ Resized s s' live k x p size := by
  have hx0 : x.ptr ≠ 0 := (hs.served k hk).ptr_ne_zero hx
  obtain ⟨b, hb, hbu, hbx, -⟩ := (hs.served k hk).exists_block hx
  rw [← hbx, (hs.served k hk).layout.ptr_eq hb] at hfit
  have hpool := hs.poolPtr_eq hk hb
  obtain ⟨hnone, hlt, hroom⟩ | ⟨h', c, body', free', hsome, hl, ht, hc, hsame⟩ :=
    hs.realloc hk hb hbu hpos hfit
  · rw [rtRealloc, if_neg hx0, if_neg hpos]
    rw [← hpool, hbx] at hnone
    dsimp only
    rw [bind_of_eq_some hnone]
    simp only [if_true]
    obtain ⟨hnone, hfull⟩ | ⟨l, hl, hroom', h₁, c, body₁, free₁, hsome, hl₁, ht₁, hc⟩ :=
      hs.malloc size
    · refine .inl ⟨?_, hfull⟩
      rw [bind_of_eq_some hnone]
      rfl
    · have hlk : l ≠ k := by
        rintro rfl
        exact hroom hroom'
      obtain ⟨s', hfree, hresized⟩ := hs.resized_across hk hl hlk hb hbu hbx hl₁ ht₁
        (hsize.trans hc) ((le_request size).trans hc) (Nat.pos_of_ne_zero hpos)
      refine .inr ⟨s', c.payload, ?_, hresized⟩
      rw [bind_of_eq_some hsome]
      simp only [ne_eq, payload_ne_zero, not_false_eq_true, if_true, put_memory]
      exact bind_of_eq_some hfree _
  · refine .inr ⟨s.put h', c.payload, ?_, hs.resized_inside hk hb hbx hl ht hsize hc hsame⟩
    rw [← hpool, hbx] at hsome
    exact rtRealloc_some hx0 hpos hsome (payload_ne_zero c)

end Holding

end GiantGecko.Rtos.Memheap
