import GiantGecko.Rtos.Allocations
import GiantGecko.Rtos.Heaps

namespace GiantGecko.Rtos.Memheap

open Foundation.Bytes

/-- Each heap serves those who have blocks of it, and no two heaps have an address in
common. -/
structure Held (s : Heaps) (live : ℕ → List Allocation) (bodies : ℕ → List Block)
    (frees : ℕ → List ℕ) : Prop where
  system : s.systemHeap ∈ s.objectList
  served : ∀ k ∈ s.objectList, Served (s.heap k) (live k) (bodies k) (frees k)
  apart : ∀ k ∈ s.objectList, ∀ l ∈ s.objectList, k ≠ l →
    ∀ i, (s.heap k).Outside i ∨ (s.heap l).Outside i
  least : ∀ k ∈ s.objectList, ∀ b ∈ usedBlocks (bodies k), rtMemheapMinialloc ≤ b.size

section Places

variable {s : Heaps} {h h' : RtMemheap} {k l i : ℕ} {m' : Memory} {live : List Allocation}
  {body : List Block} {free : List ℕ} {a : Allocation} {b : Block}

@[simp] theorem put_heap (s : Heaps) (k : ℕ) : s.put (s.heap k) = s := by
  have hcontrol : (s.heap k).control = s.control k := rfl
  simp only [Heaps.put, hcontrol]
  rw [show (s.heap k).address = k from rfl, Function.update_eq_self]
  rfl

@[simp] theorem put_memory : (s.put h).memory = h.memory := rfl

@[simp] theorem put_objectList : (s.put h).objectList = s.objectList := rfl

@[simp] theorem put_systemHeap : (s.put h).systemHeap = s.systemHeap := rfl

theorem heap_eq (hm : s.memory = h.memory) (hc : s.control k = h.control) (hk : h.address = k) :
    s.heap k = h := by
  subst hk
  obtain ⟨⟩ := h
  simp only [Heaps.heap, hm, hc, RtMemheap.control]

theorem heap_put_self (hh : h.address = k) : (s.put h).heap k = h := by
  refine heap_eq rfl ?_ hh
  subst hh
  exact Function.update_self ..

theorem heap_put_of_ne (hne : k ≠ h.address) :
    (s.put h).heap k = { s.heap k with memory := h.memory } := by
  simp [Heaps.heap, Heaps.put, Function.update_of_ne hne]

theorem put_rewrite : s.put { s.heap k with memory := m' } = { s with memory := m' } := by
  have hcontrol : RtMemheap.control { s.heap k with memory := m' } = s.control k := rfl
  simp only [Heaps.put, hcontrol]
  rw [show (s.heap k).address = k from rfl, Function.update_eq_self]

theorem Served.not_outside (hs : Served h live body free) (ha : a ∈ live) (hi : i < a.size) :
    ¬ h.Outside (a.ptr + i) := by
  obtain ⟨b, hb, -, hba, hab⟩ := hs.exists_block ha
  refine hs.layout.not_outside hb ?_ ?_
  all_goals
    simp only [Block.payload, Block.stop] at hba ⊢
    omega

/-- What is written outside of a heap does not matter to it. -/
theorem Layout.elsewhere (hl : Layout h body free)
    (hm : ∀ i, ¬ h.Outside i → m'.byte i = h.memory.byte i) :
    Layout { h with memory := m' } body free := by
  have hp := hl.placed
  refine hl.agree ?_
  intro p hpT i hi hi'
  refine hm i ?_
  obtain rfl | hpT := hpT
  · rw [hp.freeList] at hi hi'
    simp only [RtMemheap.Outside]
    omega
  · obtain ⟨c, hc, rfl⟩ := List.mem_map.mp hpT
    have hin := hl.tiles.bounds hc
    have hs := c.addr_lt_stop
    simp only [RtMemheap.Outside]
    omega

theorem Served.elsewhere (hs : Served h live body free)
    (hm : ∀ i, ¬ h.Outside i → m'.byte i = h.memory.byte i) :
    Served { h with memory := m' } live body free :=
  ⟨hs.layout.elsewhere hm, hs.lock, hs.handed, hs.enough⟩

end Places

section Holding

variable {s : Heaps} {live : ℕ → List Allocation} {bodies : ℕ → List Block} {frees : ℕ → List ℕ}
  {h' : RtMemheap} {k l size : ℕ} {live' : List Allocation} {body' gone come : List Block}
  {free' : List ℕ} {a : Allocation} {b c : Block} {m' : Memory}

theorem Held.put (hs : Held s live bodies frees) (hk : k ∈ s.objectList)
    (hs' : Served h' live' body' free') (haddress : h'.address = k)
    (hstart : h'.startAddr = (s.heap k).startAddr) (hpool : h'.poolSize = (s.heap k).poolSize)
    (hout : ∀ i, (s.heap k).Outside i → h'.memory.byte i = s.memory.byte i)
    (hleast : ∀ b ∈ usedBlocks body', rtMemheapMinialloc ≤ b.size) :
    Held (s.put h') (Function.update live k live') (Function.update bodies k body')
      (Function.update frees k free') := by
  have houtside : ∀ l i, ((s.put h').heap l).Outside i ↔ (s.heap l).Outside i := by
    intro l i
    obtain rfl | hne := eq_or_ne l k
    · rw [heap_put_self haddress]
      simp only [RtMemheap.Outside, hstart, hpool, haddress]
      rfl
    · rw [heap_put_of_ne (haddress ▸ hne)]
      rfl
  refine ⟨hs.system, ?_, ?_, ?_⟩
  · intro l hl
    obtain rfl | hne := eq_or_ne l k
    · rw [heap_put_self haddress, Function.update_self, Function.update_self,
        Function.update_self]
      exact hs'
    · rw [heap_put_of_ne (haddress ▸ hne), Function.update_of_ne hne, Function.update_of_ne hne,
        Function.update_of_ne hne]
      refine (hs.served l hl).elsewhere ?_
      intro i hi
      exact hout i ((hs.apart k hk l hl hne.symm i).resolve_right hi)
  · intro l hl j hj hne i
    rw [houtside, houtside]
    exact hs.apart l hl j hj hne i
  · intro l hl
    obtain rfl | hne := eq_or_ne l k
    · rwa [Function.update_self]
    · rw [Function.update_of_ne hne]
      exact hs.least l hl

/-- One of the heaps has taken some blocks out of use and others into use. -/
theorem Held.turn (hs : Held s live bodies frees) (hk : k ∈ s.objectList) (new : List Allocation)
    (hl : Layout h' body' free') (ht : Turns (s.heap k) h' (bodies k) body' gone come)
    (hnew : List.Forall₂ (fun a c ↦ c.payload = a.ptr ∧ a.size ≤ c.size) new come)
    (hcome : ∀ c ∈ come, rtMemheapMinialloc ≤ c.size) :
    Held (s.put h')
      (Function.update live k (new ++ (live k).filter fun a ↦ a.ptr ∉ gone.map Block.payload))
      (Function.update bodies k body') (Function.update frees k free') := by
  refine hs.put hk ((hs.served k hk).turn new hl ht hnew) ht.address ht.startAddr ht.poolSize
    ht.outside ?_
  obtain ⟨rest, hbody, hbody', -⟩ := ht.rest
  intro b hb
  obtain hb | hb := List.mem_append.mp (hbody'.mem_iff.mp hb)
  · exact hcome b hb
  · exact hs.least k hk b (hbody.mem_iff.mpr (List.mem_append_right _ hb))

theorem Held.unmoved (hs : Held s live bodies frees) (hk : k ∈ s.objectList)
    (ht : Turns (s.heap k) h' (bodies k) body' gone come) (hl : l ∈ s.objectList)
    (ha : a ∈ live l) (hgone : l = k → a.ptr ∉ gone.map Block.payload) :
    Unmoved a s.memory h'.memory := by
  obtain rfl | hne := eq_or_ne l k
  · exact (hs.served l hl).unmoved ht ha (hgone rfl)
  · intro i hi
    refine ht.outside _ ((hs.apart k hk l hl hne.symm _).resolve_right ?_)
    exact (hs.served l hl).not_outside ha hi

theorem Held.rewrite (hs : Held s live bodies frees) (hk : k ∈ s.objectList) (hb : b ∈ bodies k)
    (hm : WrittenIn b s.memory m') : Held { s with memory := m' } live bodies frees := by
  have hsk := hs.served k hk
  have hsk' : Served { s.heap k with memory := m' } (live k) (bodies k) (frees k) :=
    ⟨hsk.layout.rewrite hb hm, hsk.lock, hsk.handed, hsk.enough⟩
  have hout : ∀ i, (s.heap k).Outside i → m'.byte i = s.memory.byte i :=
    fun i hi ↦ WrittenIn.outside (h := s.heap k) hm hsk.layout hb hi
  have hput := hs.put hk hsk' rfl rfl rfl hout (hs.least k hk)
  simpa only [put_rewrite, Function.update_eq_self] using hput

theorem Held.alloc (hs : Held s live bodies frees) (hk : k ∈ s.objectList) (size : ℕ) :
    s.alloc k size = some (s, 0) ∧ ¬ HasRoom (s.heap k) (bodies k) size ∨
      HasRoom (s.heap k) (bodies k) size ∧ ∃ h' c body' free',
        s.alloc k size = some (s.put h', c.payload) ∧ Layout h' body' free' ∧
        Turns (s.heap k) h' (bodies k) body' [] [c] ∧ request size ≤ c.size := by
  obtain ⟨halloc, hfull⟩ | ⟨hroom, h', c, body', free', halloc, hl, ht, hc⟩ :=
    (hs.served k hk).layout.alloc (hs.served k hk).lock size
  · refine .inl ⟨?_, hfull⟩
    refine (bind_of_eq_some halloc _).trans ?_
    simp only [put_heap]
  · exact .inr ⟨hroom, h', c, body', free', bind_of_eq_some halloc _, hl, ht, hc⟩

def Full (s : Heaps) (bodies : ℕ → List Block) (size : ℕ) : Prop :=
  ∀ k ∈ s.objectList, ¬ HasRoom (s.heap k) (bodies k) size

/-- One of some heaps that has room gives a block. -/
def GivenBy (s : Heaps) (bodies : ℕ → List Block) (size : ℕ) (heaps : List ℕ)
    (r : Option (Heaps × ℕ)) : Prop :=
  ∃ k ∈ heaps, HasRoom (s.heap k) (bodies k) size ∧ ∃ h' c body' free',
    r = some (s.put h', c.payload) ∧ Layout h' body' free' ∧
    Turns (s.heap k) h' (bodies k) body' [] [c] ∧ request size ≤ c.size

theorem GivenBy.mono {heaps heaps' : List ℕ} {r : Option (Heaps × ℕ)}
    (hg : GivenBy s bodies size heaps r) (hsub : ∀ k ∈ heaps, k ∈ heaps') :
    GivenBy s bodies size heaps' r := by
  obtain ⟨k, hk, hg⟩ := hg
  exact ⟨k, hsub k hk, hg⟩

theorem Held.allocOther (hs : Held s live bodies frees) (size : ℕ) {heaps : List ℕ}
    (hsub : ∀ k ∈ heaps, k ∈ s.objectList) :
    s.allocOther size heaps = some (s, 0) ∧
        (∀ k ∈ heaps, k ≠ s.systemHeap → ¬ HasRoom (s.heap k) (bodies k) size) ∨
      GivenBy s bodies size heaps (s.allocOther size heaps) := by
  induction heaps with
  | nil => exact .inl ⟨rfl, by simp⟩
  | cons k heaps ih =>
    have ih := ih fun l hl ↦ hsub l (List.mem_cons_of_mem k hl)
    rw [Heaps.allocOther]
    split_ifs with hsystem
    · obtain ⟨hnone, hfull⟩ | hg := ih
      · refine .inl ⟨hnone, List.forall_mem_cons.mpr ⟨?_, hfull⟩⟩
        exact fun hne ↦ absurd hsystem hne
      · exact .inr (hg.mono fun l hl ↦ List.mem_cons_of_mem k hl)
    · obtain ⟨hnone, hroom⟩ | ⟨hroom, h', c, body', free', hsome, hl, ht, hc⟩ :=
        hs.alloc (hsub k (List.mem_cons_self ..)) size
      · rw [bind_of_eq_some hnone]
        simp only [ne_eq, not_true_eq_false, if_false]
        obtain ⟨hnone, hfull⟩ | hg := ih
        · exact .inl ⟨hnone, List.forall_mem_cons.mpr ⟨fun _ ↦ hroom, hfull⟩⟩
        · exact .inr (hg.mono fun l hl ↦ List.mem_cons_of_mem k hl)
      · rw [bind_of_eq_some hsome]
        refine .inr ⟨k, List.mem_cons_self .., hroom, h', c, body', free', ?_, hl, ht, hc⟩
        exact if_pos (payload_ne_zero c)

theorem Held.malloc (hs : Held s live bodies frees) (size : ℕ) :
    rtMalloc s size = some (s, 0) ∧ Full s bodies size ∨
      GivenBy s bodies size s.objectList (rtMalloc s size) := by
  rw [rtMalloc]
  obtain ⟨hnone, hroom⟩ | ⟨hroom, h', c, body', free', hsome, hl, ht, hc⟩ :=
    hs.alloc hs.system size
  · rw [bind_of_eq_some hnone]
    simp only [if_true]
    obtain ⟨hnone, hfull⟩ | hg := hs.allocOther size fun _ hk ↦ hk
    · refine .inl ⟨hnone, fun k hk ↦ ?_⟩
      obtain rfl | hne := eq_or_ne k s.systemHeap
      · exact hroom
      · exact hfull k hk hne
    · exact .inr hg
  · rw [bind_of_eq_some hsome]
    refine .inr ⟨s.systemHeap, hs.system, hroom, h', c, body', free', ?_, hl, ht, hc⟩
    exact if_neg (payload_ne_zero c)

end Holding

end GiantGecko.Rtos.Memheap
