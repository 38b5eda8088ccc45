import GiantGecko.Rtos.HeapsRealloc

namespace GiantGecko.Rtos.Memheap

open Foundation.Bytes

def sramBase : ℕ := 0x20000000
def efm32SramEnd : ℕ := sramBase + 0x20000
def efm32ExtHeapBegin : ℕ := 0x84000000
def efm32ExtHeapEnd : ℕ := efm32ExtHeapBegin + 384 * 1024

def rtSystemHeapInit (m : Memory) (heap beginAddr endAddr : ℕ) : RtMemheap :=
  rtMemheapInit m heap beginAddr (sub32 endAddr beginAddr)

/-- What the linker settles: the places of `_heap` and `ext_heap` in the SRAM, and of
`__bss_end__` behind them, where there is room for a heap. -/
structure Linked where
  memory : Memory
  heap : ℕ
  extHeap : ℕ
  bssEnd : ℕ
  sram : sramBase ≤ heap ∧ sramBase ≤ extHeap
  bss : heap + sizeofRtMemheap ≤ bssEnd ∧ extHeap + sizeofRtMemheap ≤ bssEnd
  apart : heap + sizeofRtMemheap ≤ extHeap ∨ extHeap + sizeofRtMemheap ≤ heap
  room : bssEnd + 64 + 2 * rtMemheapSize ≤ efm32SramEnd

/-- The heaps that `rtthread_startup` sets up: the system heap in the external SRAM, and
another one in what is left of the internal SRAM. -/
def rtthreadStartup (b : Linked) : Heaps :=
  let h := rtSystemHeapInit b.memory b.heap efm32ExtHeapBegin efm32ExtHeapEnd
  let g := rtMemheapInit h.memory b.extHeap b.bssEnd (sub32 (sub32 efm32SramEnd b.bssEnd) 64)
  { memory := g.memory
    control := Function.update (fun _ ↦ h.control) b.extHeap g.control
    systemHeap := b.heap
    objectList := [b.extHeap, b.heap] }

section Startup

theorem rtAlignDown_eq {size : ℕ} (h : size < 2 ^ 32) :
    rtAlignDown size rtAlignSize = size / 2 ^ 2 * 2 ^ 2 :=
  and_mask (k := 2) h (by norm_num)

theorem Linked.sizes (b : Linked) :
    sub32 efm32ExtHeapEnd efm32ExtHeapBegin = 384 * 1024 ∧
      sub32 (sub32 efm32SramEnd b.bssEnd) 64 = efm32SramEnd - b.bssEnd - 64 := by
  have hroom := b.room
  have hend : efm32SramEnd < 2 ^ 32 := by decide
  refine ⟨by decide, ?_⟩
  rw [sub32_of_le (by omega) hend, sub32_of_le (by omega) (by omega)]

theorem system_room :
    2 * rtMemheapSize ≤ rtAlignDown (sub32 efm32ExtHeapEnd efm32ExtHeapBegin) rtAlignSize ∧
      efm32ExtHeapBegin + sub32 efm32ExtHeapEnd efm32ExtHeapBegin ≤ 2 ^ 32 := by
  decide

theorem Linked.system_clear (b : Linked) :
    b.heap + sizeofRtMemheap ≤ 2 ^ 32 ∧ b.heap + sizeofRtMemheap ≤ efm32ExtHeapBegin := by
  have hbss := b.bss.1
  have hroom := b.room
  have hend : efm32SramEnd ≤ efm32ExtHeapBegin ∧ efm32ExtHeapBegin ≤ 2 ^ 32 := by decide
  omega

theorem Linked.second_room (b : Linked) :
    2 * rtMemheapSize ≤ rtAlignDown (sub32 (sub32 efm32SramEnd b.bssEnd) 64) rtAlignSize ∧
      b.bssEnd + sub32 (sub32 efm32SramEnd b.bssEnd) 64 ≤ 2 ^ 32 := by
  have hroom := b.room
  have hend : efm32SramEnd < 2 ^ 32 := by decide
  rw [b.sizes.2, rtAlignDown_eq (by omega)]
  simp only [rtMemheapSize] at hroom ⊢
  omega

theorem Linked.second_clear (b : Linked) :
    b.extHeap + sizeofRtMemheap ≤ 2 ^ 32 ∧ b.extHeap + sizeofRtMemheap ≤ b.bssEnd := by
  have hroom := b.room
  have hend : efm32SramEnd < 2 ^ 32 := by decide
  exact ⟨by have hbss := b.bss.2; omega, b.bss.2⟩

def Linked.system (b : Linked) : Region where
  memory := b.memory
  address := b.heap
  startAddr := efm32ExtHeapBegin
  size := sub32 efm32ExtHeapEnd efm32ExtHeapBegin
  room := system_room.1
  fits := system_room.2
  inside := b.system_clear.1
  clear := .inl b.system_clear.2

def Linked.second (b : Linked) : Region where
  memory := b.system.init.memory
  address := b.extHeap
  startAddr := b.bssEnd
  size := sub32 (sub32 efm32SramEnd b.bssEnd) 64
  room := b.second_room.1
  fits := b.second_room.2
  inside := b.second_clear.1
  clear := .inl b.second_clear.2

variable (b : Linked)

theorem Linked.second_memory : b.second.memory = b.system.init.memory := by
  simp only [Linked.second]

theorem Linked.heap_ne : b.heap ≠ b.extHeap := by
  have hapart := b.apart
  simp only [sizeofRtMemheap] at hapart
  omega

theorem rtthreadStartup_eq : rtthreadStartup b =
    { memory := b.second.init.memory
      control := Function.update (fun _ ↦ b.system.init.control) b.extHeap b.second.init.control
      systemHeap := b.heap
      objectList := [b.extHeap, b.heap] } := by
  simp only [rtthreadStartup, rtSystemHeapInit, Region.init, Linked.second, Linked.system]

theorem heap_extHeap : (rtthreadStartup b).heap b.extHeap = b.second.init := by
  rw [rtthreadStartup_eq]
  refine heap_eq rfl ?_ rfl
  simp only [Function.update_self]

theorem heap_heap :
    (rtthreadStartup b).heap b.heap = { b.system.init with memory := b.second.init.memory } := by
  rw [rtthreadStartup_eq]
  refine heap_eq rfl ?_ rfl
  simp only [Function.update_of_ne b.heap_ne, RtMemheap.control]

theorem Linked.pools : b.system.init.poolSize ≤ 384 * 1024 ∧
    b.second.init.poolSize ≤ efm32SramEnd - b.bssEnd - 64 :=
  ⟨b.sizes.1 ▸ b.system.poolSize_le.1, b.sizes.2 ▸ b.second.poolSize_le.1⟩

theorem Linked.outside (i : ℕ) : b.system.init.Outside i ∨ b.second.init.Outside i := by
  have hsram := b.sram
  have hbss := b.bss
  have hapart := b.apart
  have hroom := b.room
  have hpools := b.pools
  have hend : efm32SramEnd ≤ efm32ExtHeapBegin := by decide
  change (_ < efm32ExtHeapBegin ∨ efm32ExtHeapBegin + _ ≤ _) ∧
    (_ < b.heap + 44 ∨ b.heap + 44 + 24 ≤ _) ∨
    (_ < b.bssEnd ∨ b.bssEnd + _ ≤ _) ∧ (_ < b.extHeap + 44 ∨ b.extHeap + 44 + 24 ≤ _)
  simp only [sizeofRtMemheap] at hbss hapart
  omega

theorem outside_rewrite (h : RtMemheap) (m : Memory) (i : ℕ) :
    RtMemheap.Outside { h with memory := m } i ↔ h.Outside i := Iff.rfl

theorem held_startup : Held (rtthreadStartup b) (fun _ ↦ [])
    (Function.update (fun _ ↦ [b.system.block]) b.extHeap [b.second.block])
    (Function.update (fun _ ↦ [efm32ExtHeapBegin]) b.extHeap [b.bssEnd]) := by
  have hsystem := heap_heap b
  have hsecond := heap_extHeap b
  have hmem : ∀ k ∈ (rtthreadStartup b).objectList, k = b.extHeap ∨ k = b.heap := by
    simp [rtthreadStartup]
  refine ⟨by simp [rtthreadStartup], ?_, ?_, ?_⟩
  · intro k hk
    obtain rfl | rfl := hmem k hk
    · rw [hsecond, Function.update_self, Function.update_self]
      exact b.second.served
    · rw [hsystem, Function.update_of_ne b.heap_ne, Function.update_of_ne b.heap_ne]
      refine b.system.served.elsewhere ?_
      intro i hi
      have hkept := b.second.outside ((b.outside i).resolve_left hi)
      rwa [b.second_memory] at hkept
  · intro k hk l hl hne i
    have hout := b.outside i
    obtain rfl | rfl := hmem k hk
    · obtain rfl | rfl := hmem l hl
      · exact absurd rfl hne
      · rw [hsystem, hsecond, outside_rewrite b.system.init]
        exact hout.symm
    · obtain rfl | rfl := hmem l hl
      · rw [hsystem, hsecond, outside_rewrite b.system.init]
        exact hout
      · exact absurd rfl hne
  · intro k hk c hc
    obtain rfl | rfl := hmem k hk
    · simp [Region.block] at hc
    · simp [Function.update_of_ne b.heap_ne, Region.block] at hc

theorem not_full_startup {size : ℕ} (hsize : request size < 384 * 1024 - 2 * rtMemheapSize) :
    ¬ Full (rtthreadStartup b)
      (Function.update (fun _ ↦ [b.system.block]) b.extHeap [b.second.block]) size := by
  intro hfull
  have hblock : b.system.block.size = 384 * 1024 - 2 * rtMemheapSize := by
    change rtAlignDown (sub32 efm32ExtHeapEnd efm32ExtHeapBegin) rtAlignSize - 2 * rtMemheapSize = _
    decide
  rw [← hblock] at hsize
  have hroom : request size < b.system.init.availableSize := by
    rwa [b.system.available_eq]
  refine hfull b.heap (by simp [rtthreadStartup]) ?_
  rw [heap_heap, Function.update_of_ne b.heap_ne]
  exact ⟨hroom, b.system.block, by simp [Region.block], hsize.le⟩

end Startup

structure Users where
  heaps : Heaps
  live : ℕ → List Allocation

inductive UserCall
  | malloc (size : ℕ)
  | calloc (count size : ℕ)
  | realloc (rmem newsize : ℕ)
  | free (rmem : ℕ)
  | write (rmem i : ℕ) (v : UInt8)

def Users.without (u : Users) (rmem : ℕ) : ℕ → List Allocation :=
  if rmem = 0 then u.live else drop u.live (poolPtr u.heaps.memory rmem) rmem

def given (live : ℕ → List Allocation) (s : Heaps) (p size : ℕ) : ℕ → List Allocation :=
  if p = 0 then live else give live (poolPtr s.memory p) ⟨p, size⟩

/-- The users after a call, and the address it returns. Of a block they have no more than
was reserved, which is less than was asked for when aligning wraps. -/
def Users.step (u : Users) : UserCall → Option (Users × ℕ)
  | .malloc size => do
    let (s, p) ← rtMalloc u.heaps size
    some (⟨s, given u.live s p (min size (request size))⟩, p)
  | .calloc count size => do
    let (s, p) ← rtCalloc u.heaps count size
    some (⟨s, given u.live s p (count * size % 2 ^ 32)⟩, p)
  | .realloc rmem newsize => do
    let (s, p) ← rtRealloc u.heaps rmem newsize
    let live :=
      if p = 0 ∧ newsize ≠ 0 then u.live else given (u.without rmem) s p newsize
    some (⟨s, live⟩, p)
  | .free rmem => do
    let s ← rtFree u.heaps rmem
    some (⟨s, u.without rmem⟩, 0)
  | .write rmem i v =>
    some ({ u with heaps := { u.heaps with memory := u.heaps.memory.put (rmem + i) v } }, 0)

def Users.Has (u : Users) (rmem : ℕ) : Prop :=
  ∃ k ∈ u.heaps.objectList, ∃ a ∈ u.live k, a.ptr = rmem

/-- What users keep to: addresses that they were given, and no size that wraps where a block
is filled or grows. -/
def Users.Legal (u : Users) : UserCall → Prop
  | .malloc _ => True
  | .calloc count size => count * size % 2 ^ 32 + rtAlignSize ≤ 2 ^ 32
  | .realloc rmem newsize =>
    (rmem = 0 ∨ u.Has rmem) ∧ newsize + rtAlignSize + rtMemheapMinialloc ≤ 2 ^ 32
  | .free rmem => rmem = 0 ∨ u.Has rmem
  | .write rmem i _ =>
    ∃ k ∈ u.heaps.objectList, ∃ a ∈ u.live k, a.ptr = rmem ∧ i < a.size

inductive Reached (b : Linked) : Users → Prop
  | init : Reached b ⟨rtthreadStartup b, fun _ ↦ []⟩
  | step {u u' : Users} {c : UserCall} {p : ℕ} :
      Reached b u → u.Legal c → u.step c = some (u', p) → Reached b u'

section Steps

variable {u : Users} {bodies : ℕ → List Block} {frees : ℕ → List ℕ} {s' : Heaps} {c : UserCall}
  {k p rmem size : ℕ} {a x : Allocation} {live : ℕ → List Allocation}

theorem fits_of_le (h : size + rtAlignSize + rtMemheapMinialloc ≤ 2 ^ 32) :
    size ≤ request size ∧ request size + rtMemheapMinialloc < 2 ^ 32 := by
  simp only [rtAlignSize, rtMemheapMinialloc] at h
  rw [request_eq]
  simp only [rtMemheapMinialloc]
  omega

/-- The heap that a block is of is the one its header tells. -/
theorem Held.owner (hs : Held s' live bodies frees) (hk : k ∈ s'.objectList) (ha : a ∈ live k) :
    poolPtr s'.memory a.ptr = k := by
  obtain ⟨b, hb, -, hba, -⟩ := (hs.served k hk).exists_block ha
  rw [← hba]
  exact hs.poolPtr_eq hk hb

theorem Granted.held_given {s : Heaps} (hg : Granted s s' live p size) :
    ∃ bodies frees, Held s' (given live s' p size) bodies frees := by
  obtain ⟨l, hl, bodies, frees, hs⟩ := hg.held
  have howner := hs.owner (hg.places.objectList ▸ hl) mem_give
  refine ⟨bodies, frees, ?_⟩
  rw [given, if_neg hg.ptr_ne, howner]
  exact hs

theorem Resized.held_given {s : Heaps} (hr : Resized s s' live k x p size) :
    ∃ bodies frees, Held s' (given (drop live k x.ptr) s' p size) bodies frees := by
  obtain ⟨l, hl, bodies, frees, hs⟩ := hr.held
  have howner := hs.owner (hr.places.objectList ▸ hl) mem_give
  refine ⟨bodies, frees, ?_⟩
  rw [given, if_neg hr.ptr_ne, howner]
  exact hs

theorem Held.without_eq (hs : Held u.heaps u.live bodies frees) (hk : k ∈ u.heaps.objectList)
    (ha : a ∈ u.live k) : u.without a.ptr = drop u.live k a.ptr := by
  rw [Users.without, if_neg ((hs.served k hk).ptr_ne_zero ha), hs.owner hk ha]

theorem rtFree_null (s : Heaps) : rtFree s 0 = some s := by
  rw [rtFree, Heaps.free, if_pos rfl]

theorem Held.returned (hs : Held u.heaps u.live bodies frees) (hptr : rmem = 0 ∨ u.Has rmem) :
    ∃ s', rtFree u.heaps rmem = some s' ∧ SamePlaces u.heaps s' ∧
      ∃ bodies frees, Held s' (u.without rmem) bodies frees := by
  obtain rfl | ⟨k, hk, a, ha, rfl⟩ := hptr
  · exact ⟨u.heaps, rtFree_null _, .refl _, bodies, frees, by rwa [Users.without, if_pos rfl]⟩
  · obtain ⟨b, hb, hbu, hba, -⟩ := (hs.served k hk).exists_block ha
    obtain ⟨h', body', free', hfree, hl, ht⟩ := hs.free hk hb hbu
    rw [hba] at hfree
    have hturn := hs.turn hk [] hl ht .nil (by simp)
    have hlive : u.without a.ptr = Function.update u.live k
        ([] ++ (u.live k).filter fun a ↦ a.ptr ∉ [b].map Block.payload) := by
      rw [hs.without_eq hk ha]
      simp [drop, hba]
    rw [← hlive] at hturn
    exact ⟨_, hfree, ht.samePlaces, _, _, hturn⟩

theorem given_null (live : ℕ → List Allocation) (s : Heaps) (size : ℕ) :
    given live s 0 size = live := if_pos rfl

theorem step_realloc_none (hnone : rtRealloc u.heaps rmem size = some (u.heaps, 0))
    (hlive : size = 0 → u.without rmem = u.live) : u.step (.realloc rmem size) = some (u, 0) := by
  refine (bind_of_eq_some hnone _).trans ?_
  simp only [given_null, true_and]
  split_ifs with hpos
  · rfl
  · rw [hlive (not_not.mp hpos)]

theorem step_realloc_some (hsome : rtRealloc u.heaps rmem size = some (s', p)) (hp : p ≠ 0) :
    u.step (.realloc rmem size) = some (⟨s', given (u.without rmem) s' p size⟩, p) := by
  refine (bind_of_eq_some hsome _).trans ?_
  simp only [hp, false_and, if_false]

theorem Held.step_realloc (hs : Held u.heaps u.live bodies frees)
    (hc : u.Legal (.realloc rmem size)) :
    ∃ u' p, u.step (.realloc rmem size) = some (u', p) ∧ SamePlaces u.heaps u'.heaps ∧
      ∃ bodies frees, Held u'.heaps u'.live bodies frees := by
  obtain ⟨hptr, hsize⟩ := hc
  obtain ⟨hle, hfit⟩ := fits_of_le hsize
  obtain rfl | hptr := hptr
  · have hnull := rtRealloc_null u.heaps size
    have hwithout : u.without 0 = u.live := if_pos rfl
    obtain ⟨hnone, -⟩ | hg := hs.malloc size
    · exact ⟨u, 0, step_realloc_none (hnull.trans hnone) fun _ ↦ hwithout, .refl _, bodies, frees,
        hs⟩
    · obtain ⟨s', p, hsome, hg⟩ := hg.granted hs hle
      refine ⟨_, p, step_realloc_some (hnull.trans hsome) hg.ptr_ne, hg.places, ?_⟩
      rw [hwithout]
      exact hg.held_given
  obtain rfl | hpos := eq_or_ne size 0
  · obtain ⟨s', hfree, hplaces, hs'⟩ := hs.returned (.inr hptr)
    refine ⟨⟨s', u.without rmem⟩, 0, ?_, hplaces, hs'⟩
    obtain ⟨k, hk, a, ha, rfl⟩ := hptr
    have hzero : rtRealloc u.heaps a.ptr 0 = some (s', 0) := by
      rw [rtRealloc, if_neg ((hs.served k hk).ptr_ne_zero ha), if_pos rfl]
      exact bind_of_eq_some hfree _
    refine (bind_of_eq_some hzero _).trans ?_
    simp only [ne_eq, not_true_eq_false, and_false, if_false, given_null]
  · obtain ⟨k, hk, a, ha, rfl⟩ := hptr
    obtain ⟨hnone, -⟩ | ⟨s', p, hsome, hr⟩ := hs.resize hk ha hpos hle (.inr hfit)
    · exact ⟨u, 0, step_realloc_none hnone fun hzero ↦ absurd hzero hpos, .refl _, bodies, frees,
        hs⟩
    · refine ⟨_, p, step_realloc_some hsome hr.ptr_ne, hr.places, ?_⟩
      rw [hs.without_eq hk ha]
      exact hr.held_given

theorem Held.step (hs : Held u.heaps u.live bodies frees) (hc : u.Legal c) :
    ∃ u' p, u.step c = some (u', p) ∧ SamePlaces u.heaps u'.heaps ∧
      ∃ bodies frees, Held u'.heaps u'.live bodies frees := by
  cases c with
  | malloc size =>
    obtain ⟨hnone, -⟩ | hg := hs.malloc size
    · exact ⟨u, 0, bind_of_eq_some hnone _, .refl _, bodies, frees, hs⟩
    · obtain ⟨s', p, hsome, hg⟩ := hg.granted hs (Nat.min_le_right size _)
      exact ⟨_, p, bind_of_eq_some hsome _, hg.places, hg.held_given⟩
  | calloc count size =>
    obtain ⟨hnone, -⟩ | ⟨s', p, hsome, hg, -⟩ := hs.calloc count size hc
    · exact ⟨u, 0, bind_of_eq_some hnone _, .refl _, bodies, frees, hs⟩
    · exact ⟨_, p, bind_of_eq_some hsome _, hg.places, hg.held_given⟩
  | realloc rmem newsize => exact hs.step_realloc hc
  | free rmem =>
    obtain ⟨s', hfree, hplaces, hs'⟩ := hs.returned hc
    exact ⟨_, 0, bind_of_eq_some hfree _, hplaces, hs'⟩
  | write rmem i v =>
    obtain ⟨k, hk, a, ha, rfl, hi⟩ := hc
    obtain ⟨b, hb, -, hba, hab⟩ := (hs.served k hk).exists_block ha
    refine ⟨_, 0, rfl, ⟨rfl, rfl, fun _ ↦ rfl, fun _ ↦ rfl⟩, bodies, frees, hs.rewrite hk hb (.put ?_ ?_ v)⟩
    all_goals
      simp only [Block.payload, Block.stop] at hba ⊢
      omega

end Steps

theorem Reached.held {b : Linked} {u : Users} (h : Reached b u) :
    SamePlaces (rtthreadStartup b) u.heaps ∧ ∃ bodies frees, Held u.heaps u.live bodies frees := by
  induction h with
  | init => exact ⟨.refl _, _, _, held_startup b⟩
  | step _ hc hstep ih =>
    obtain ⟨hplaces, bodies, frees, hs⟩ := ih
    obtain ⟨u', p, hstep', hplaces', hs'⟩ := hs.step hc
    rw [hstep] at hstep'
    cases hstep'
    exact ⟨hplaces.trans hplaces', hs'⟩

theorem Linked.max_poolSize_le (b : Linked) :
    max ((rtthreadStartup b).heap b.heap).poolSize
      ((rtthreadStartup b).heap b.extHeap).poolSize ≤ 384 * 1024 := by
  have hpools := b.pools
  have hsram := b.sram.1
  have hbss := b.bss.1
  have hend : efm32SramEnd = sramBase + 0x20000 := rfl
  rw [heap_heap, heap_extHeap]
  simp only [max_le_iff]
  omega

/-- A block that is given another size stays as it is, or its bytes are found in a block that
has the size, in its heap or in the other, and it is live no more where it was. -/
theorem realloc_keeps_bytes {b : Linked} {u : Users} (h : Reached b u) {k : ℕ}
    (hk : k ∈ u.heaps.objectList) {x : Allocation} (hx : x ∈ u.live k) {newsize : ℕ}
    (hpos : 1 ≤ newsize)
    (hsize : newsize ≤ max (u.heaps.heap b.heap).poolSize (u.heaps.heap b.extHeap).poolSize) :
    SamePlaces (rtthreadStartup b) u.heaps ∧
    (∃ bodies frees, Held u.heaps u.live bodies frees) ∧
    ∃ s' p, rtRealloc u.heaps x.ptr newsize = some (s', p) ∧
      (p = 0 ∧ s' = u.heaps ∨ Resized u.heaps s' u.live k x p newsize) := by
  obtain ⟨hplaces, bodies, frees, hs⟩ := h.held
  rw [hplaces.poolSize, hplaces.poolSize] at hsize
  have hle := hsize.trans b.max_poolSize_le
  have hword : newsize + rtAlignSize + rtMemheapMinialloc ≤ 2 ^ 32 := by
    simp only [rtAlignSize, rtMemheapMinialloc]
    omega
  obtain ⟨hsmall, hfit⟩ := fits_of_le hword
  refine ⟨hplaces, ⟨bodies, frees, hs⟩, ?_⟩
  obtain ⟨hnone, -⟩ | ⟨s', p, hsome, hr⟩ :=
    hs.resize hk hx (Nat.ne_of_gt hpos) hsmall (.inr hfit)
  · exact ⟨u.heaps, 0, hnone, .inl ⟨rfl, rfl⟩⟩
  · exact ⟨s', p, hsome, .inr hr⟩

def board : Linked where
  memory := ⟨fun _ ↦ 0⟩
  heap := 0x20001000
  extHeap := 0x20001100
  bssEnd := 0x20002000
  sram := by decide
  bss := by decide
  apart := by decide
  room := by decide

theorem exists_live : ∃ u, Reached board u ∧
    (u.heaps.heap board.heap).poolSize = 384 * 1024 ∧
    ∃ k ∈ u.heaps.objectList, ∃ x ∈ u.live k, x.size = 16 := by
  have hs := held_startup board
  obtain ⟨-, hfull⟩ | hg := hs.malloc 16
  · exact absurd hfull (not_full_startup board (by decide))
  · obtain ⟨s', p, hsome, hg⟩ := hg.granted hs (Nat.min_le_right 16 (request 16))
    obtain ⟨l, hl, bodies, frees, hs'⟩ := hg.held
    have howner := hs'.owner (hg.places.objectList ▸ hl) mem_give
    have hmin : min 16 (request 16) = 16 := by decide
    refine ⟨_, .step (c := .malloc 16) .init trivial (bind_of_eq_some hsome _), ?_, l,
      hg.places.objectList ▸ hl, ⟨p, min 16 (request 16)⟩, ?_, hmin⟩
    · simp only [hg.places.poolSize]
      rw [heap_heap]
      change rtAlignDown (sub32 efm32ExtHeapEnd efm32ExtHeapBegin) rtAlignSize = _
      decide
    · simp only [given, hg.ptr_ne, if_false, howner]
      exact mem_give

theorem realloc_keeps_bytes_board : ∃ u k x, Reached board u ∧ x ∈ u.live k ∧ x.size = 16 ∧
    ∃ s' p, rtRealloc u.heaps x.ptr 64 = some (s', p) ∧
      (p = 0 ∧ s' = u.heaps ∨ Resized u.heaps s' u.live k x p 64) := by
  obtain ⟨u, hu, hpool, k, hk, x, hx, hsize⟩ := exists_live
  refine ⟨u, k, x, hu, hx, hsize, (realloc_keeps_bytes hu hk hx (by norm_num) ?_).2.2⟩
  rw [hpool]
  exact le_max_of_le_left (by norm_num)

end GiantGecko.Rtos.Memheap
