import GiantGecko.Rtos.Memheap

namespace GiantGecko.Rtos.Memheap

open Foundation.Bytes

/-- What `struct rt_memheap` has besides its `free_header`, which is in the memory. -/
structure Control where
  startAddr : ℕ
  poolSize : ℕ
  availableSize : ℕ
  maxUsedSize : ℕ
  blockList : ℕ
  freeList : ℕ
  lock : ℕ

def RtMemheap.control (h : RtMemheap) : Control where
  startAddr := h.startAddr
  poolSize := h.poolSize
  availableSize := h.availableSize
  maxUsedSize := h.maxUsedSize
  blockList := h.blockList
  freeList := h.freeList
  lock := h.lock

/-- The memory, the heap structures by their addresses, the address of `_heap`, and the
addresses of the heaps that are registered, the last one first. -/
structure Heaps where
  memory : Memory
  control : ℕ → Control
  systemHeap : ℕ
  objectList : List ℕ

def Heaps.heap (s : Heaps) (address : ℕ) : RtMemheap where
  memory := s.memory
  address
  startAddr := (s.control address).startAddr
  poolSize := (s.control address).poolSize
  availableSize := (s.control address).availableSize
  maxUsedSize := (s.control address).maxUsedSize
  blockList := (s.control address).blockList
  freeList := (s.control address).freeList
  lock := (s.control address).lock

def Heaps.put (s : Heaps) (h : RtMemheap) : Heaps :=
  { s with memory := h.memory, control := Function.update s.control h.address h.control }

def Heaps.alloc (s : Heaps) (heap size : ℕ) : Option (Heaps × ℕ) := do
  let (h, ptr) ← rtMemheapAlloc (s.heap heap) size
  some (s.put h, ptr)

def poolPtr (m : Memory) (ptr : ℕ) : ℕ := load m (sub32 ptr rtMemheapSize) .poolPtr

def Heaps.free (s : Heaps) (ptr : ℕ) : Option Heaps :=
  if ptr = 0 then some s
  else do
    guard (poolPtr s.memory ptr ∈ s.objectList)
    let h ← rtMemheapFree (s.heap (poolPtr s.memory ptr)) ptr
    some (s.put h)

def Heaps.realloc (s : Heaps) (heap ptr newsize : ℕ) : Option (Heaps × ℕ) := do
  guard (heap ∈ s.objectList)
  let (h, newPtr) ← rtMemheapRealloc (s.heap heap) ptr newsize
  some (s.put h, newPtr)

/-- The loop of `rt_malloc` over the registered heaps, which passes over `_heap`. -/
def Heaps.allocOther (s : Heaps) (size : ℕ) : List ℕ → Option (Heaps × ℕ)
  | [] => some (s, 0)
  | heap :: rest =>
    if heap = s.systemHeap then s.allocOther size rest
    else do
      let (s, ptr) ← s.alloc heap size
      if ptr ≠ 0 then some (s, ptr) else s.allocOther size rest

def rtMalloc (s : Heaps) (size : ℕ) : Option (Heaps × ℕ) := do
  let (s, ptr) ← s.alloc s.systemHeap size
  if ptr = 0 then s.allocOther size s.objectList else some (s, ptr)

def rtFree (s : Heaps) (rmem : ℕ) : Option Heaps := s.free rmem

/-- The block goes to another heap when its own has no room. -/
def rtRealloc (s : Heaps) (rmem newsize : ℕ) : Option (Heaps × ℕ) :=
  if rmem = 0 then rtMalloc s newsize
  else if newsize = 0 then do
    let s ← rtFree s rmem
    some (s, 0)
  else do
    let headerPtr := sub32 rmem rtMemheapSize
    let (s, newPtr) ← s.realloc (poolPtr s.memory rmem) rmem newsize
    if newPtr = 0 then do
      let (s, newPtr) ← rtMalloc s newsize
      if newPtr ≠ 0 then do
        let oldsize := memitemSize s.memory headerPtr
        let count := if oldsize < newsize then oldsize else newsize
        let s ← rtFree { s with memory := rtMemcpy s.memory newPtr rmem count } rmem
        some (s, newPtr)
      else some (s, newPtr)
    else some (s, newPtr)

def rtMemset (m : Memory) (s : ℕ) (c : UInt8) (count : ℕ) : Memory :=
  if 4 ≤ count ∧ s % 4 = 0 then
    let words := count / 4
    (m.fillWords s (0x01010101 * c.toNat) words).fillBytes (s + 4 * words) c (count % 4)
  else m.fillBytes s c count

def rtCalloc (s : Heaps) (count size : ℕ) : Option (Heaps × ℕ) := do
  let totalSize := count * size % 2 ^ 32
  let (s, ptr) ← rtMalloc s totalSize
  if ptr ≠ 0 then some ({ s with memory := rtMemset s.memory ptr 0 totalSize }, ptr)
  else some (s, ptr)

end GiantGecko.Rtos.Memheap
