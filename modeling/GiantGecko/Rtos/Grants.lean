import GiantGecko.Rtos.Allocations

namespace GiantGecko.Rtos.Memheap

def RtMemheap.Holds (h : RtMemheap) (size : ℕ) : Prop :=
  ∃ body free, Layout h body free ∧ ∃ b ∈ freeBlocks body, size ≤ b.size

def RtMemheap.Grants (h : RtMemheap) (size : ℕ) : Prop :=
  ∃ h' p, rtMemheapAlloc h size = some (h', p) ∧ p ≠ 0

def RtMemheap.OneLeft (h : RtMemheap) (size : ℕ) : Prop :=
  h.availableSize = size ∧ ∃ body free, Layout h body free ∧ ∃ b ∈ freeBlocks body, b.size = size

section Granting

variable {h : RtMemheap} {body : List Block} {free : List ℕ} {b : Block} {size : ℕ}

theorem size_le_freeBytes (hb : b ∈ freeBlocks body) : b.size ≤ freeBytes body := by
  obtain ⟨hb, hfree⟩ := mem_freeBlocks.mp hb
  obtain ⟨u, v, rfl⟩ := List.append_of_mem hb
  simp only [freeBytes_append, freeBytes_cons, hfree, Bool.false_eq_true, if_false]
  omega

/-- The test against all that is free comes before the walk, and it is strict. -/
theorem Layout.grants_iff (hl : Layout h body free) (hlock : h.lock = 1) :
    h.Grants size ↔ HasRoom h body size := by
  obtain ⟨hnone, hfull⟩ | ⟨hroom, h', c, -, -, hsome, -⟩ := hl.alloc hlock size
  · refine iff_of_false ?_ hfull
    rintro ⟨h', p, halloc, hp⟩
    rw [halloc] at hnone
    cases hnone
    exact hp rfl
  · exact iff_of_true ⟨h', c.payload, hsome, payload_ne_zero c⟩ hroom

theorem Layout.not_grants_of_oneLeft (hl : Layout h body free) (hlock : h.lock = 1)
    (hone : h.OneLeft (request size)) : ¬ h.Grants size := by
  rw [hl.grants_iff hlock]
  exact fun hroom ↦ hroom.1.ne' hone.1

end Granting

/-- A request that a free block holds is granted, but for the one that would leave nothing
free. -/
theorem grants_of_holds_iff {r : Region} {s : Clients} (h : Reachable r s) (size : ℕ) :
    (s.heap.Holds (request size) → s.heap.Grants size) ↔ ¬ s.heap.OneLeft (request size) := by
  obtain ⟨-, -, body, free, hs⟩ := h.served
  constructor
  · intro hgrants hone
    refine hs.layout.not_grants_of_oneLeft hs.lock hone (hgrants ?_)
    obtain ⟨-, body', free', hl, b, hb, hsize⟩ := hone
    exact ⟨body', free', hl, b, hb, hsize.ge⟩
  · rintro hone ⟨body', free', hl, b, hb, hle⟩
    rw [hl.grants_iff hs.lock]
    refine ⟨?_, b, hb, hle⟩
    have hbytes := size_le_freeBytes hb
    rw [← hl.available] at hbytes
    refine (hle.trans hbytes).lt_of_ne fun heq ↦ hone ⟨heq.symm, body', free', hl, b, hb, ?_⟩
    omega

theorem grants_of_holds_iff_halfReturned :
    (halfReturned.heap.Holds (request 16) → halfReturned.heap.Grants 16) ↔
      ¬ halfReturned.heap.OneLeft (request 16) :=
  grants_of_holds_iff reachable_halfReturned 16

/-- All of a fresh heap is free, and yet it cannot be had as one block. -/
theorem whole_pool_refused : ¬ ∀ r s, Reachable r s → ∀ size, 1 ≤ size → size ≤ s.heap.poolSize →
    s.heap.Holds (request size) → s.heap.Grants size := by
  intro h
  have hl := kibibyte.layout
  have hsize : kibibyte.block.size = request 976 := by decide
  have hone : kibibyte.init.OneLeft (request 976) :=
    ⟨kibibyte.available_eq.trans hsize, _, _, hl, kibibyte.block, by simp [Region.block], hsize⟩
  refine hl.not_grants_of_oneLeft rfl hone ?_
  refine h kibibyte _ .init 976 (by decide) (by decide) ?_
  exact ⟨_, _, hl, kibibyte.block, by simp [Region.block], hsize.ge⟩

end GiantGecko.Rtos.Memheap
