import GiantGecko.Rtos.MemheapInit

namespace GiantGecko.Rtos.Memheap

open Foundation.Bytes

structure Allocation where
  ptr : ℕ
  size : ℕ

structure Clients where
  heap : RtMemheap
  live : List Allocation

inductive Call
  | alloc (size : ℕ)
  | realloc (ptr newsize : ℕ)
  | free (ptr : ℕ)
  | write (ptr i : ℕ) (v : UInt8)

def Call.target : Call → ℕ
  | .alloc _ => 0
  | .realloc ptr _ | .free ptr | .write ptr _ _ => ptr

def Clients.without (s : Clients) (ptr : ℕ) : List Allocation := s.live.filter fun a ↦ a.ptr ≠ ptr

def Clients.step (s : Clients) : Call → Option (Clients × ℕ)
  | .alloc size => do
    let (h, p) ← rtMemheapAlloc s.heap size
    some (⟨h, if p = 0 then s.live else ⟨p, size⟩ :: s.live⟩, p)
  | .realloc ptr newsize => do
    let (h, p) ← rtMemheapRealloc s.heap ptr newsize
    let live :=
      if newsize = 0 then s.without ptr
      else if p = 0 then s.live
      else ⟨p, newsize⟩ :: s.without ptr
    some (⟨h, live⟩, p)
  | .free ptr => do
    let h ← rtMemheapFree s.heap ptr
    some (⟨h, s.without ptr⟩, 0)
  | .write ptr i v =>
    some ({ s with heap := { s.heap with memory := s.heap.memory.put (ptr + i) v } }, 0)

def Clients.Live (s : Clients) (ptr : ℕ) : Prop := ∃ a ∈ s.live, a.ptr = ptr

/-- What callers keep to: sizes that are at most the pool size, and addresses that they
were given. -/
def Legal (s : Clients) : Call → Prop
  | .alloc size => size ≤ s.heap.poolSize
  | .realloc ptr newsize => (ptr = 0 ∨ s.Live ptr) ∧ newsize ≤ s.heap.poolSize
  | .free ptr => ptr = 0 ∨ s.Live ptr
  | .write ptr i _ => ∃ a ∈ s.live, a.ptr = ptr ∧ i < a.size

inductive Reachable (r : Region) : Clients → Prop
  | init : Reachable r ⟨r.init, []⟩
  | step {s s' : Clients} {c : Call} {p : ℕ} :
      Reachable r s → Legal s c → s.step c = some (s', p) → Reachable r s'

/-- The blocks in use are those that callers have, and as large as they asked for. -/
structure Served (h : RtMemheap) (live : List Allocation) (body : List Block) (free : List ℕ) :
    Prop where
  layout : Layout h body free
  lock : h.lock = 1
  handed : ((usedBlocks body).map Block.payload).Perm (live.map Allocation.ptr)
  enough : ∀ a ∈ live, ∀ b ∈ usedBlocks body, b.payload = a.ptr → a.size ≤ b.size

section Clients

variable {h h' : RtMemheap} {live : List Allocation} {body body' : List Block}
  {free free' : List ℕ} {a : Allocation} {b c : Block} {ptr size : ℕ} {s : Clients}

theorem Layout.payload_nodup (hl : Layout h body free) :
    ((usedBlocks body).map Block.payload).Nodup := by
  have hnodup := hl.tiles.nodup
  rw [List.map_append] at hnodup
  have haddr : ((usedBlocks body).map Block.addr).Nodup :=
    (List.nodup_append.mp hnodup).1.sublist (List.filter_sublist.map _)
  have hpay : (usedBlocks body).map Block.payload =
      ((usedBlocks body).map Block.addr).map (· + rtMemheapSize) := by
    rw [List.map_map]
    rfl
  rw [hpay]
  exact haddr.map (add_left_injective rtMemheapSize)

theorem Layout.payload_inj (hl : Layout h body free) (hb : b ∈ usedBlocks body)
    (hc : c ∈ usedBlocks body) (hbc : b.payload = c.payload) : b = c :=
  List.inj_on_of_nodup_map hl.payload_nodup hb hc hbc

theorem Served.exists_block (hs : Served h live body free) (ha : a ∈ live) :
    ∃ b ∈ body, b.used = true ∧ b.payload = a.ptr ∧ a.size ≤ b.size := by
  obtain ⟨b, hb, hba⟩ := List.mem_map.mp (hs.handed.mem_iff.mpr (List.mem_map_of_mem ha))
  have hm := mem_usedBlocks.mp hb
  exact ⟨b, hm.1, hm.2, hba, hs.enough a ha b hb hba⟩

theorem Served.ptr_ne_zero (hs : Served h live body free) (ha : a ∈ live) : a.ptr ≠ 0 := by
  obtain ⟨b, -, -, hb, -⟩ := hs.exists_block ha
  rw [← hb]
  simp [Block.payload, rtMemheapSize]

theorem Served.ptr_nodup (hs : Served h live body free) : (live.map Allocation.ptr).Nodup :=
  hs.handed.nodup_iff.mp hs.layout.payload_nodup

theorem Served.turn {gone come : List Block} (new : List Allocation)
    (hs : Served h live body free) (hl : Layout h' body' free')
    (ht : Turns h h' body body' gone come)
    (hnew : List.Forall₂ (fun a c ↦ c.payload = a.ptr ∧ a.size ≤ c.size) new come) :
    Served h' (new ++ live.filter fun a ↦ a.ptr ∉ gone.map Block.payload) body' free' := by
  obtain ⟨rest, hgone, hcome, -⟩ := ht.rest
  have hkeep : (live.filter fun a ↦ a.ptr ∉ gone.map Block.payload).map Allocation.ptr =
      (live.map Allocation.ptr).filter fun p ↦ p ∉ gone.map Block.payload := by
    rw [List.filter_map]
    rfl
  have hrest : (rest.map Block.payload).Perm
      ((live.filter fun a ↦ a.ptr ∉ gone.map Block.payload).map Allocation.ptr) := by
    have hnodup := (hgone.map Block.payload).nodup_iff.mp hs.layout.payload_nodup
    rw [List.map_append] at hnodup
    have hfilter := (((hgone.map Block.payload).symm.trans hs.handed).filter
      fun p ↦ p ∉ gone.map Block.payload)
    rw [List.map_append, List.filter_append] at hfilter
    rw [hkeep]
    refine List.Perm.trans (List.Perm.of_eq ?_) hfilter
    rw [List.filter_eq_nil_iff.mpr (by simp), List.nil_append, List.filter_eq_self.mpr]
    intro p hp
    simpa using fun d hd hdp ↦
      (List.nodup_append.mp hnodup).2.2 d.payload (List.mem_map_of_mem hd) p hp hdp
  have hnew' : come.map Block.payload = new.map Allocation.ptr ∧
      ∀ a ∈ new, ∃ c ∈ come, c.payload = a.ptr ∧ a.size ≤ c.size := by
    clear hkeep ht hs hgone hcome
    induction hnew with
    | nil => simp
    | cons h _ ih =>
      rw [List.map_cons, List.map_cons, h.1, ih.1]
      refine ⟨rfl, List.forall_mem_cons.mpr ⟨⟨_, List.mem_cons_self .., h⟩, ?_⟩⟩
      intro a ha
      obtain ⟨c, hc, hca⟩ := ih.2 a ha
      exact ⟨c, List.mem_cons_of_mem _ hc, hca⟩
  have hperm : ((usedBlocks body').map Block.payload).Perm
      ((new ++ live.filter fun a ↦ a.ptr ∉ gone.map Block.payload).map Allocation.ptr) := by
    rw [List.map_append, ← hnew'.1]
    refine (hcome.map _).trans ?_
    rw [List.map_append]
    exact hrest.append_left _
  refine ⟨hl, ht.lock.trans hs.lock, hperm, ?_⟩
  intro a ha b hb hba
  obtain ha | ha := List.mem_append.mp ha
  · obtain ⟨c, hc, hca, hsize⟩ := hnew'.2 a ha
    have hcu := hcome.mem_iff.mpr (List.mem_append_left _ hc)
    rw [hl.payload_inj hb hcu (hba.trans hca.symm)]
    exact hsize
  · obtain ⟨c, hc, hca⟩ := List.mem_map.mp (hrest.mem_iff.mpr (List.mem_map_of_mem ha))
    have hcu := hcome.mem_iff.mpr (List.mem_append_right _ hc)
    rw [hl.payload_inj hb hcu (hba.trans hca.symm)]
    exact hs.enough a (List.mem_filter.mp ha).1 c
      (hgone.mem_iff.mpr (List.mem_append_right _ hc)) hca

def Unmoved (a : Allocation) (m m' : Memory) : Prop :=
  ∀ i < a.size, m'.byte (a.ptr + i) = m.byte (a.ptr + i)

theorem Served.unmoved {gone come : List Block} (hs : Served h live body free)
    (ht : Turns h h' body body' gone come) (ha : a ∈ live)
    (hgone : a.ptr ∉ gone.map Block.payload) : Unmoved a h.memory h'.memory := by
  obtain ⟨rest, hbody, -, hrest⟩ := ht.rest
  obtain ⟨b, hb, hbu, hba, hsize⟩ := hs.exists_block ha
  have hbr : b ∈ rest := by
    have hm := hbody.mem_iff.mp (mem_usedBlocks.mpr ⟨hb, hbu⟩)
    refine (List.mem_append.mp hm).resolve_left fun hbg ↦ hgone ?_
    rw [← hba]
    exact List.mem_map_of_mem hbg
  intro i hi
  refine hrest b hbr _ ?_ ?_
  · rw [hba]
    exact Nat.le_add_right _ _
  · rw [← hba]
    simp only [Block.payload, Block.stop]
    omega

theorem Served.rewrite_unmoved {m' : Memory} (hs : Served h live body free) (hb : b ∈ body)
    (hm : WrittenIn b h.memory m') (ha : a ∈ live) (hne : a.ptr ≠ b.payload) :
    Unmoved a h.memory m' := by
  obtain ⟨c, hc, -, hca, hsize⟩ := hs.exists_block ha
  have hcb : c ≠ b := by
    rintro rfl
    exact hne hca.symm
  intro i hi
  refine hm.intact hs.layout hb hc hcb _ ?_ ?_
  all_goals
    simp only [Block.payload, Block.stop] at hca ⊢
    omega

theorem Served.without_eq (hs : Served s.heap s.live body free) (hptr : ptr = 0) :
    s.without ptr = s.live := by
  rw [Clients.without, List.filter_eq_self]
  intro a ha
  simpa [hptr] using hs.ptr_ne_zero ha

/-- What a call does to those who do not make it, and what one who has an allocation
resized finds in it. -/
structure Effect (s : Clients) (c : Call) (s' : Clients) (p : ℕ) : Prop where
  startAddr : s'.heap.startAddr = s.heap.startAddr
  poolSize : s'.heap.poolSize = s.heap.poolSize
  peak : s.heap.maxUsedSize ≤ s'.heap.maxUsedSize
  others : ∀ a ∈ s.live, a.ptr ≠ c.target →
    a ∈ s'.live ∧ Unmoved a s.heap.memory s'.heap.memory
  resized : ∀ a ∈ s.live, ∀ size, c = .realloc a.ptr size → size ≠ 0 →
    p = 0 ∧ a ∈ s'.live ∧ Unmoved a s.heap.memory s'.heap.memory ∨
    ⟨p, size⟩ ∈ s'.live ∧
      ∀ i < min a.size size, s'.heap.memory.byte (p + i) = s.heap.memory.byte (a.ptr + i)

theorem Effect.refl (s : Clients) (c : Call) : Effect s c s 0 :=
  ⟨rfl, rfl, le_rfl, fun _ ha _ ↦ ⟨ha, fun _ _ ↦ rfl⟩,
    fun _ ha _ _ _ ↦ .inl ⟨rfl, ha, fun _ _ ↦ rfl⟩⟩

theorem payload_ne_zero (b : Block) : b.payload ≠ 0 := by
  simp [Block.payload, rtMemheapSize]

theorem Served.alloc {n : ℕ} (hs : Served s.heap s.live body free) (hsize : size ≤ request n) :
    rtMemheapAlloc s.heap n = some (s.heap, 0) ∨
      ∃ h' p body' free', rtMemheapAlloc s.heap n = some (h', p) ∧ p ≠ 0 ∧
        Served h' (⟨p, size⟩ :: s.live) body' free' ∧
        ∀ c, c.target = 0 → Effect s c ⟨h', ⟨p, size⟩ :: s.live⟩ p := by
  obtain ⟨halloc, -⟩ | ⟨-, h', c, body', free', halloc, hl', ht, hcs⟩ :=
    hs.layout.alloc hs.lock n
  · exact .inl halloc
  · refine .inr ⟨h', c.payload, body', free', halloc, payload_ne_zero c, ?_, ?_⟩
    · have hturn := hs.turn [⟨c.payload, size⟩] hl' ht
        (.cons ⟨rfl, hsize.trans hcs⟩ .nil)
      simpa using hturn
    · intro d hd
      refine ⟨ht.startAddr, ht.poolSize, ht.peak, ?_, ?_⟩
      · intro a ha _
        exact ⟨List.mem_cons_of_mem _ ha, hs.unmoved ht ha (by simp)⟩
      · rintro a ha size rfl
        exact absurd hd (hs.ptr_ne_zero ha)

theorem Served.le_request (hs : Served h live body free) (hsize : size ≤ h.poolSize) :
    size ≤ request size := by
  have hpool := hs.layout.placed.poolSize_le
  refine (request_spec ?_).1
  simp only [sizeofRtMemheap, rtAlignSize] at hpool ⊢
  omega

theorem Served.step_alloc (hs : Served s.heap s.live body free) (hsize : size ≤ s.heap.poolSize) :
    ∃ s' p body' free', s.step (.alloc size) = some (s', p) ∧
      Served s'.heap s'.live body' free' ∧ Effect s (.alloc size) s' p := by
  obtain halloc | ⟨h', p, body', free', halloc, hp, hs', he⟩ :=
    hs.alloc (hs.le_request hsize)
  · exact ⟨s, 0, body, free, bind_of_eq_some halloc _, hs, Effect.refl s _⟩
  · refine ⟨_, p, body', free', (bind_of_eq_some halloc _).trans ?_, hs', he _ rfl⟩
    simp only [hp, if_false]

theorem Served.returned (hs : Served s.heap s.live body free) (hptr : ptr = 0 ∨ s.Live ptr) :
    ∃ h' body' free', rtMemheapFree s.heap ptr = some h' ∧
      Served h' (s.without ptr) body' free' ∧
      ∀ c, c.target = ptr → (∀ size, c = .realloc ptr size → size = 0) →
        Effect s c ⟨h', s.without ptr⟩ 0 := by
  obtain rfl | ⟨a, ha, rfl⟩ := hptr
  · rw [hs.without_eq rfl]
    refine ⟨s.heap, body, free, ?_, hs, fun c _ _ ↦ Effect.refl s c⟩
    unfold rtMemheapFree
    rw [if_pos rfl]
  · obtain ⟨b, hb, hbu, hba, -⟩ := hs.exists_block ha
    obtain ⟨u, v, rfl⟩ := List.append_of_mem hb
    obtain ⟨h', body', free', hfree, hl', ht⟩ := hs.layout.freed hs.lock hbu
    rw [hba] at hfree
    refine ⟨h', body', free', hfree, ?_, ?_⟩
    · have hturn := hs.turn [] hl' ht .nil
      simpa [Clients.without, hba] using hturn
    · intro c hc hzero
      refine ⟨ht.startAddr, ht.poolSize, ht.peak, ?_, ?_⟩
      · intro d hd hne
        rw [hc] at hne
        exact ⟨List.mem_filter.mpr ⟨hd, by simpa using hne⟩, hs.unmoved ht hd (by simpa [hba])⟩
      · rintro d hd size rfl hsize
        exact absurd (hzero size (by rw [← hc]; rfl)) hsize

theorem Served.step_free (hs : Served s.heap s.live body free) (hptr : ptr = 0 ∨ s.Live ptr) :
    ∃ s' p body' free', s.step (.free ptr) = some (s', p) ∧
      Served s'.heap s'.live body' free' ∧ Effect s (.free ptr) s' p := by
  obtain ⟨h', body', free', hfree, hs', he⟩ := hs.returned hptr
  refine ⟨_, 0, body', free', bind_of_eq_some hfree _, hs', he _ rfl ?_⟩
  intro size hc
  cases hc

theorem Served.realloc (hs : Served s.heap s.live body free) (ha : a ∈ s.live) (hpos : size ≠ 0)
    (hsize : size ≤ s.heap.poolSize) :
    rtMemheapRealloc s.heap a.ptr size = some (s.heap, 0) ∨
      ∃ b ∈ body, b.payload = a.ptr ∧ ∃ h' c body' free',
        rtMemheapRealloc s.heap a.ptr size = some (h', c.payload) ∧ Layout h' body' free' ∧
        Turns s.heap h' body body' [b] [c] ∧ size ≤ c.size ∧
        ∀ i < min a.size size, h'.memory.byte (c.payload + i) = s.heap.memory.byte (a.ptr + i) := by
  have hpool := hs.layout.placed.poolSize_le
  have hle := hs.le_request hsize
  obtain ⟨b, hb, hbu, hba, hab⟩ := hs.exists_block ha
  rw [← hba]
  obtain hlt | hge := Nat.lt_or_ge b.size (request size)
  · have hwrap : request size + rtMemheapMinialloc < 2 ^ 32 := by
      have hword : size + rtAlignSize ≤ 2 ^ 32 := by
        simp only [sizeofRtMemheap, rtAlignSize] at hpool ⊢
        omega
      have hreq := (request_spec hword).2
      simp only [sizeofRtMemheap, rtMemheapMinialloc] at hpool hreq ⊢
      omega
    obtain ⟨h, -⟩ | ⟨h', c, body', free', h, hl', ht, hcs, hsame⟩ :=
      hs.layout.enlarge hs.lock hb hbu hpos hlt (.inr hwrap)
    · exact .inl h
    · refine .inr ⟨b, hb, rfl, h', c, body', free', h, hl', ht, hle.trans hcs, ?_⟩
      exact fun i hi ↦ hsame i (by omega)
  · obtain ⟨h', c, body', free', h, hl', ht, hcs, hsame⟩ :=
      hs.layout.keep hs.lock hb hbu hpos hge
    refine .inr ⟨b, hb, rfl, h', c, body', free', h, hl', ht, hle.trans hcs, ?_⟩
    exact fun i hi ↦ hsame i (by omega)

theorem realloc_zero {h' : RtMemheap} (hfree : rtMemheapFree h ptr = some h') :
    rtMemheapRealloc h ptr 0 = some (h', 0) := by
  unfold rtMemheapRealloc
  rw [if_pos rfl]
  exact bind_of_eq_some hfree _

theorem realloc_null (hpos : size ≠ 0) :
    rtMemheapRealloc h 0 size = rtMemheapAlloc h (request size) := by
  unfold rtMemheapRealloc
  rw [if_neg hpos]
  exact if_pos rfl

theorem step_realloc_eq {p : ℕ} (h : rtMemheapRealloc s.heap ptr size = some (h', p)) :
    s.step (.realloc ptr size) = some (⟨h',
      if size = 0 then s.without ptr
      else if p = 0 then s.live else ⟨p, size⟩ :: s.without ptr⟩, p) :=
  bind_of_eq_some h _

theorem Served.step_realloc (hs : Served s.heap s.live body free) (hptr : ptr = 0 ∨ s.Live ptr)
    (hsize : size ≤ s.heap.poolSize) :
    ∃ s' p body' free', s.step (.realloc ptr size) = some (s', p) ∧
      Served s'.heap s'.live body' free' ∧ Effect s (.realloc ptr size) s' p := by
  obtain rfl | hpos := eq_or_ne size 0
  · obtain ⟨h', body', free', hfree, hs', he⟩ := hs.returned hptr
    refine ⟨_, 0, body', free', step_realloc_eq (realloc_zero hfree), ?_, ?_⟩
    · rw [if_pos rfl]
      exact hs'
    · rw [if_pos rfl]
      refine he _ rfl ?_
      rintro size ⟨⟩
      rfl
  obtain rfl | ⟨a, ha, rfl⟩ := hptr
  · have hle : size ≤ request (request size) := by
      rw [request_request]
      exact hs.le_request hsize
    obtain halloc | ⟨h', p, body', free', halloc, hp, hs', he⟩ := hs.alloc hle
    · refine ⟨s, 0, body, free, ?_, hs, Effect.refl s _⟩
      rw [step_realloc_eq ((realloc_null hpos).trans halloc), if_neg hpos, if_pos rfl]
    · refine ⟨_, p, body', free', ?_, hs', he _ rfl⟩
      rw [step_realloc_eq ((realloc_null hpos).trans halloc), if_neg hpos, if_neg hp,
        hs.without_eq rfl]
  · obtain h | ⟨b, hb, hba, h', c, body', free', h, hl', ht, hcs, hsame⟩ :=
      hs.realloc ha hpos hsize
    · refine ⟨s, 0, body, free, ?_, hs, Effect.refl s _⟩
      rw [step_realloc_eq h, if_neg hpos, if_pos rfl]
    · have hturn := hs.turn [⟨c.payload, size⟩] hl' ht (.cons ⟨rfl, hcs⟩ .nil)
      refine ⟨⟨h', ⟨c.payload, size⟩ :: s.without a.ptr⟩, c.payload, body', free', ?_, ?_, ?_⟩
      · rw [step_realloc_eq h, if_neg hpos, if_neg (payload_ne_zero c)]
      · simpa [Clients.without, hba] using hturn
      · refine ⟨ht.startAddr, ht.poolSize, ht.peak, ?_, ?_⟩
        · intro d hd hne
          change d.ptr ≠ a.ptr at hne
          refine ⟨List.mem_cons_of_mem _ (List.mem_filter.mpr ⟨hd, by simpa using hne⟩), ?_⟩
          exact hs.unmoved ht hd (by simpa [hba] using hne)
        · intro d hd n hn _
          obtain ⟨hda, rfl⟩ := Call.realloc.inj hn
          have hda := List.inj_on_of_nodup_map hs.ptr_nodup ha hd hda
          subst hda
          exact .inr ⟨List.mem_cons_self .., hsame⟩

theorem Served.step_write {i : ℕ} {v : UInt8} (hs : Served s.heap s.live body free)
    (hptr : ∃ a ∈ s.live, a.ptr = ptr ∧ i < a.size) :
    ∃ s' p body' free', s.step (.write ptr i v) = some (s', p) ∧
      Served s'.heap s'.live body' free' ∧ Effect s (.write ptr i v) s' p := by
  obtain ⟨a, ha, rfl, hi⟩ := hptr
  obtain ⟨b, hb, hbu, hba, hab⟩ := hs.exists_block ha
  have hm : WrittenIn b s.heap.memory (s.heap.memory.put (a.ptr + i) v) := by
    refine .put ?_ ?_ v
    all_goals
      simp only [Block.payload, Block.stop] at hba ⊢
      omega
  refine ⟨_, 0, body, free, rfl, ⟨hs.layout.rewrite hb hm, hs.lock, hs.handed, hs.enough⟩,
    rfl, rfl, le_rfl, ?_, ?_⟩
  · intro d hd hne
    exact ⟨hd, hs.rewrite_unmoved hb hm hd (hba ▸ hne)⟩
  · intro d hd size hc
    cases hc

theorem Served.step {c : Call} (hs : Served s.heap s.live body free) (hc : Legal s c) :
    ∃ s' p body' free', s.step c = some (s', p) ∧ Served s'.heap s'.live body' free' ∧
      Effect s c s' p := by
  cases c with
  | alloc size => exact hs.step_alloc hc
  | realloc ptr size => exact hs.step_realloc hc.1 hc.2
  | free ptr => exact hs.step_free hc
  | write ptr i v => exact hs.step_write hc

end Clients

theorem Region.served (r : Region) : Served r.init [] [r.block] [r.startAddr] := by
  refine ⟨r.layout, rfl, ?_, by simp⟩
  simp [Region.block]

theorem Reachable.served {r : Region} {s : Clients} (h : Reachable r s) :
    s.heap.startAddr = r.startAddr ∧ s.heap.poolSize = rtAlignDown r.size rtAlignSize ∧
      ∃ body free, Served s.heap s.live body free := by
  induction h with
  | init => exact ⟨rfl, rfl, _, _, r.served⟩
  | step _ hc hstep ih =>
    obtain ⟨hstart, hpool, body, free, hs⟩ := ih
    obtain ⟨s', p, body', free', hstep', hs', he⟩ := hs.step hc
    rw [hstep] at hstep'
    cases hstep'
    exact ⟨he.startAddr.trans hstart, he.poolSize.trans hpool, body', free', hs'⟩

def Disjoint (a b : Allocation) : Prop := a.ptr + a.size ≤ b.ptr ∨ b.ptr + b.size ≤ a.ptr

theorem Served.disjoint {h : RtMemheap} {live : List Allocation} {body : List Block}
    {free : List ℕ} (hs : Served h live body free) : live.Pairwise Disjoint := by
  have hnodup := List.pairwise_map.mp hs.ptr_nodup
  refine List.Pairwise.imp_of_mem ?_ hnodup
  intro a d ha hd hne
  obtain ⟨b, hb, -, hba, hab⟩ := hs.exists_block ha
  obtain ⟨e, he, -, hed, hde⟩ := hs.exists_block hd
  have hbe : e ≠ b := by
    rintro rfl
    exact hne (hba.symm.trans hed)
  have hapart := hs.layout.apart hb he hbe
  simp only [Disjoint, Block.payload, Block.stop] at hba hed hapart ⊢
  omega

/-- From the first call on the blocks tile the pool up to its tail, the free ones are in
the free list and not side by side, and the counters agree with them; callers have bytes of
their own, and no call fails or changes what another caller has. -/
theorem memheap_sound {r : Region} {s : Clients} (h : Reachable r s) :
    (s.heap.startAddr = r.startAddr ∧ s.heap.poolSize = rtAlignDown r.size rtAlignSize) ∧
    (∃ body free, Served s.heap s.live body free) ∧
    s.live.Pairwise Disjoint ∧
    (∀ a ∈ s.live, s.heap.startAddr ≤ a.ptr ∧
      a.ptr + a.size ≤ s.heap.startAddr + s.heap.poolSize) ∧
    ∀ c, Legal s c → ∃ s' p, s.step c = some (s', p) ∧ Effect s c s' p := by
  obtain ⟨hstart, hpool, body, free, hs⟩ := h.served
  refine ⟨⟨hstart, hpool⟩, ⟨body, free, hs⟩, hs.disjoint, ?_, ?_⟩
  · intro a ha
    obtain ⟨b, hb, -, hba, hab⟩ := hs.exists_block ha
    have hstop := hs.layout.stop_le hb
    simp only [Block.payload, Block.stop] at hba hstop
    omega
  · intro c hc
    obtain ⟨s', p, _, _, hstep, -, he⟩ := hs.step hc
    exact ⟨s', p, hstep, he⟩

def kibibyte : Region where
  memory := ⟨fun _ ↦ 0⟩
  address := 0x20000000
  startAddr := 0x20001000
  size := 1024
  room := by decide
  fits := by norm_num
  inside := by norm_num [sizeofRtMemheap]
  clear := by norm_num [sizeofRtMemheap]

instance {s : Clients} : (c : Call) → Decidable (Legal s c)
  | .alloc size => inferInstanceAs (Decidable (size ≤ s.heap.poolSize))
  | .realloc ptr newsize => inferInstanceAs
    (Decidable ((ptr = 0 ∨ ∃ a ∈ s.live, a.ptr = ptr) ∧ newsize ≤ s.heap.poolSize))
  | .free ptr => inferInstanceAs (Decidable (ptr = 0 ∨ ∃ a ∈ s.live, a.ptr = ptr))
  | .write ptr i _ => inferInstanceAs (Decidable (∃ a ∈ s.live, a.ptr = ptr ∧ i < a.size))

def Clients.run (s : Clients) : List Call → Option Clients
  | [] => some s
  | c :: cs => if Legal s c then (s.step c).bind fun r ↦ r.1.run cs else none

theorem reachable_run {r : Region} {s s' : Clients} {cs : List Call} (h : Reachable r s)
    (hrun : s.run cs = some s') : Reachable r s' := by
  induction cs generalizing s with
  | nil =>
    obtain rfl := Option.some.inj hrun
    exact h
  | cons c cs ih =>
    rw [Clients.run] at hrun
    split at hrun
    · rename_i hlegal
      obtain ⟨⟨s₁, p⟩, hstep, hrest⟩ := Option.bind_eq_some_iff.mp hrun
      exact ih (h.step hlegal hstep) hrest
    · cases hrun

/-- Two blocks of it are handed out, and the first is returned. -/
def halfReturned : Clients :=
  (Clients.run ⟨kibibyte.init, []⟩ [.alloc 16, .alloc 32, .free 0x20001018]).get
    (by decide +kernel)

theorem reachable_halfReturned : Reachable kibibyte halfReturned :=
  reachable_run .init (Option.some_get _).symm

theorem memheap_sound_halfReturned : ∃ s' p,
    halfReturned.step (.realloc 0x20001040 64) = some (s', p) ∧
      Effect halfReturned (.realloc 0x20001040 64) s' p :=
  (memheap_sound reachable_halfReturned).2.2.2.2 (.realloc 0x20001040 64) (by decide +kernel)

end GiantGecko.Rtos.Memheap
