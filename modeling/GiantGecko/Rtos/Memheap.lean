import GiantGecko.Foundation.Bytes

namespace GiantGecko.Rtos.Memheap

open Foundation.Bytes

inductive Field
  | magic
  | poolPtr
  | next
  | prev
  | nextFree
  | prevFree
  deriving DecidableEq

def Field.offset : Field → ℕ
  | magic => 0
  | poolPtr => 4
  | next => 8
  | prev => 12
  | nextFree => 16
  | prevFree => 20

def rtMemheapMagic : ℕ := 0x1ea01ea0
def rtMemheapMask : ℕ := 0xfffffffe
def rtMemheapUsed : ℕ := 0x01
def rtMemheapMinialloc : ℕ := 12
def rtAlignSize : ℕ := 4

/-- `RT_ALIGN` of the size of an item, which is six words. -/
def rtMemheapSize : ℕ := 24

def rtAlign (size align : ℕ) : ℕ := sub32 (add32 size align) 1 &&& (2 ^ 32 - align)

def rtAlignDown (size align : ℕ) : ℕ := size &&& (2 ^ 32 - align)

def load (m : Memory) (item : ℕ) (f : Field) : ℕ := m.word (item + f.offset)

def store (m : Memory) (item : ℕ) (f : Field) (v : ℕ) : Memory := m.putWord (item + f.offset) v

def isUsed (m : Memory) (item : ℕ) : Prop := load m item .magic &&& rtMemheapUsed ≠ 0

instance (m : Memory) (item : ℕ) : Decidable (isUsed m item) :=
  inferInstanceAs (Decidable (_ ≠ _))

def memitemSize (m : Memory) (item : ℕ) : ℕ :=
  sub32 (sub32 (load m item .next) item) rtMemheapSize

def removeFree (m : Memory) (item : ℕ) : Memory :=
  let m := store m (load m item .nextFree) .prevFree (load m item .prevFree)
  store m (load m item .prevFree) .nextFree (load m item .nextFree)

def insertFree (m : Memory) (freeList item : ℕ) : Memory :=
  let m := store m item .nextFree (load m freeList .nextFree)
  let m := store m item .prevFree freeList
  let m := store m (load m freeList .nextFree) .prevFree item
  store m freeList .nextFree item

/-- A free block of the heap at `address` is built at `newPtr`, and follows `headerPtr`
in the block list. -/
def buildBlock (m : Memory) (address headerPtr newPtr : ℕ) : Memory :=
  let m := store m newPtr .magic rtMemheapMagic
  let m := store m newPtr .poolPtr address
  let m := store m newPtr .prev headerPtr
  let m := store m newPtr .next (load m headerPtr .next)
  let m := store m (load m headerPtr .next) .prev newPtr
  store m headerPtr .next newPtr

def initItem (m : Memory) (address item : ℕ) : Memory :=
  let m := store m item .magic rtMemheapMagic
  let m := store m item .poolPtr address
  let m := store m item .next 0
  let m := store m item .prev 0
  let m := store m item .nextFree item
  store m item .prevFree item

/-- Copies word by word where it may: both places are aligned and sixteen bytes or more
are to go. -/
def rtMemcpy (m : Memory) (dst src count : ℕ) : Memory :=
  if 16 ≤ count ∧ src % 4 = 0 ∧ dst % 4 = 0 then
    let words := count / 4
    (m.copyWords dst src words).copyBytes (dst + 4 * words) (src + 4 * words) (count % 4)
  else m.copyBytes dst src count

/-- `struct rt_memheap`, which lies at `address`, and the memory around it. Its
`free_header` is in the memory, as the items of the pool are; `lock` is the value of
the semaphore. -/
structure RtMemheap where
  memory : Memory
  address : ℕ
  startAddr : ℕ
  poolSize : ℕ
  availableSize : ℕ
  maxUsedSize : ℕ
  blockList : ℕ
  freeList : ℕ
  lock : ℕ

def sizeofRtMemheap : ℕ := 100

def freeHeader (address : ℕ) : ℕ := address + 44

/-- A thread that finds the lock taken waits for it. -/
def RtMemheap.rtSemTake (h : RtMemheap) : Option RtMemheap :=
  if 0 < h.lock then some { h with lock := h.lock - 1 } else none

def RtMemheap.rtSemRelease (h : RtMemheap) : RtMemheap :=
  { h with lock := (h.lock + 1) % 2 ^ 16 }

def RtMemheap.noteUsed (h : RtMemheap) : RtMemheap :=
  if h.maxUsedSize < sub32 h.poolSize h.availableSize then
    { h with maxUsedSize := sub32 h.poolSize h.availableSize }
  else h

def rtMemheapInit (m : Memory) (address startAddr size : ℕ) : RtMemheap :=
  let poolSize := rtAlignDown size rtAlignSize
  let availableSize := sub32 poolSize (2 * rtMemheapSize)
  let m := initItem m address (freeHeader address)
  let item := startAddr
  let m := initItem m address item
  let m := store m item .next (add32 (add32 item availableSize) rtMemheapSize)
  let m := store m item .prev (load m item .next)
  let m := insertFree m (freeHeader address) item
  -- the tail is a used block, which no block is merged with
  let item := load m item .next
  let m := store m item .magic (rtMemheapMagic ||| rtMemheapUsed)
  let m := store m item .poolPtr address
  let m := store m item .next startAddr
  let m := store m item .prev startAddr
  let m := store m item .prevFree 0
  let m := store m item .nextFree 0
  { memory := m
    address, startAddr, poolSize, availableSize
    maxUsedSize := sub32 poolSize availableSize
    blockList := startAddr
    freeList := freeHeader address
    lock := 1 }

def request (size : ℕ) : ℕ :=
  let size := rtAlign size rtAlignSize
  if size < rtMemheapMinialloc then rtMemheapMinialloc else size

def findFree (m : Memory) (freeList size : ℕ) : ℕ → ℕ → ℕ → Option (ℕ × ℕ)
  | 0, _, _ => none
  | turns + 1, headerPtr, freeSize =>
    if headerPtr ≠ freeList ∧ freeSize < size then
      let freeSize := memitemSize m headerPtr
      if freeSize < size then findFree m freeList size turns (load m headerPtr .nextFree) freeSize
      else findFree m freeList size turns headerPtr freeSize
    else some (headerPtr, freeSize)

def allocSplit (h : RtMemheap) (headerPtr size : ℕ) : RtMemheap :=
  let newPtr := add32 (add32 headerPtr size) rtMemheapSize
  let m := buildBlock h.memory h.address headerPtr newPtr
  let m := removeFree m headerPtr
  let m := store m headerPtr .nextFree 0
  let m := store m headerPtr .prevFree 0
  let m := insertFree m h.freeList newPtr
  { h with
    memory := m
    availableSize := sub32 (sub32 h.availableSize size) rtMemheapSize }.noteUsed

def allocWhole (h : RtMemheap) (headerPtr freeSize : ℕ) : RtMemheap :=
  let m := removeFree h.memory headerPtr
  let m := store m headerPtr .nextFree 0
  let m := store m headerPtr .prevFree 0
  { h with memory := m, availableSize := sub32 h.availableSize freeSize }.noteUsed

def markUsed (h : RtMemheap) (headerPtr : ℕ) : RtMemheap :=
  { h with
    memory := store h.memory headerPtr .magic (load h.memory headerPtr .magic ||| rtMemheapUsed) }

def rtMemheapAlloc (h : RtMemheap) (size : ℕ) : Option (RtMemheap × ℕ) :=
  let size := request size
  if size < h.availableSize then do
    let h ← h.rtSemTake
    let (headerPtr, freeSize) ←
      findFree h.memory h.freeList size (h.poolSize + 1) (load h.memory h.freeList .nextFree) 0
    if size ≤ freeSize then
      let h :=
        if add32 (add32 size rtMemheapSize) rtMemheapMinialloc ≤ freeSize then
          allocSplit h headerPtr size
        else allocWhole h headerPtr freeSize
      some ((markUsed h headerPtr).rtSemRelease, add32 headerPtr rtMemheapSize)
    else some (h.rtSemRelease, 0)
  else some (h, 0)

def markFreed (h : RtMemheap) (headerPtr : ℕ) : RtMemheap :=
  let m := store h.memory headerPtr .magic
    (load h.memory headerPtr .magic &&& (2 ^ 32 - 1 - rtMemheapUsed))
  { h with
    memory := m
    availableSize := add32 h.availableSize (memitemSize m headerPtr) }

/-- The block becomes part of the one before it, if that is free: the block it is then
in, and whether that still has to go into the free list. -/
def mergeLeft (h : RtMemheap) (headerPtr : ℕ) : RtMemheap × ℕ × Bool :=
  let m := h.memory
  if isUsed m (load m headerPtr .prev) then (h, headerPtr, true)
  else
    let m := store m (load m headerPtr .prev) .next (load m headerPtr .next)
    let m := store m (load m headerPtr .next) .prev (load m headerPtr .prev)
    ({ h with memory := m, availableSize := add32 h.availableSize rtMemheapSize },
      load m headerPtr .prev, false)

def mergeRight (h : RtMemheap) (headerPtr : ℕ) : RtMemheap :=
  let m := h.memory
  if isUsed m (load m headerPtr .next) then h
  else
    let newPtr := load m headerPtr .next
    let m := store m (load m newPtr .next) .prev headerPtr
    let m := store m headerPtr .next (load m newPtr .next)
    let m := removeFree m newPtr
    { h with memory := m, availableSize := add32 h.availableSize rtMemheapSize }

def mergeFreed (h : RtMemheap) (headerPtr : ℕ) : RtMemheap :=
  let (h, headerPtr, insertHeader) := mergeLeft h headerPtr
  let h := mergeRight h headerPtr
  if insertHeader then { h with memory := insertFree h.memory h.freeList headerPtr } else h

/-- An assertion that fails stops the call. -/
def rtMemheapFree (h : RtMemheap) (ptr : ℕ) : Option RtMemheap :=
  if ptr = 0 then some h
  else do
    let headerPtr := sub32 ptr rtMemheapSize
    let m := h.memory
    guard (load m headerPtr .magic &&& rtMemheapMask = rtMemheapMagic)
    guard (isUsed m headerPtr)
    guard (load m (load m headerPtr .next) .magic &&& rtMemheapMask = rtMemheapMagic)
    guard (load m headerPtr .poolPtr = h.address)
    let h ← h.rtSemTake
    some (mergeFreed (markFreed h headerPtr) headerPtr).rtSemRelease

/-- The free block behind gives room: it goes, and one is built where the larger block
ends. -/
def growInPlace (h : RtMemheap) (headerPtr ptr oldsize newsize : ℕ) : RtMemheap :=
  let m := h.memory
  let nextPtr := load m headerPtr .next
  let m := removeFree m nextPtr
  let m := store m (load m nextPtr .next) .prev (load m nextPtr .prev)
  let m := store m (load m nextPtr .prev) .next (load m nextPtr .next)
  let nextPtr := add32 ptr newsize
  let m := buildBlock m h.address headerPtr nextPtr
  let m := insertFree m h.freeList nextPtr
  { h with
    memory := m
    availableSize := sub32 h.availableSize (sub32 newsize oldsize) }.noteUsed

def reallocMove (h : RtMemheap) (ptr oldsize newsize : ℕ) : Option (RtMemheap × ℕ) := do
  let (h, newPtr) ← rtMemheapAlloc h newsize
  if newPtr ≠ 0 then
    let count := if oldsize < newsize then oldsize else newsize
    let h ← rtMemheapFree { h with memory := rtMemcpy h.memory newPtr ptr count } ptr
    some (h, newPtr)
  else some (h, newPtr)

def takeIn (h : RtMemheap) (newPtr : ℕ) : RtMemheap :=
  let m := h.memory
  if isUsed m (load m newPtr .next) then h
  else
    let freePtr := load m newPtr .next
    let availableSize := sub32 h.availableSize (memitemSize m freePtr)
    let m := store m (load m freePtr .next) .prev newPtr
    let m := store m newPtr .next (load m freePtr .next)
    let m := removeFree m freePtr
    { h with memory := m, availableSize }

def shrink (h : RtMemheap) (headerPtr newsize : ℕ) : RtMemheap :=
  let newPtr := add32 (add32 headerPtr newsize) rtMemheapSize
  let h := { h with memory := buildBlock h.memory h.address headerPtr newPtr }
  let h := takeIn h newPtr
  let m := insertFree h.memory h.freeList newPtr
  { h with memory := m, availableSize := add32 h.availableSize (memitemSize m newPtr) }

def rtMemheapRealloc (h : RtMemheap) (ptr newsize : ℕ) : Option (RtMemheap × ℕ) :=
  if newsize = 0 then do
    let h ← rtMemheapFree h ptr
    some (h, 0)
  else
    let newsize := request newsize
    if ptr = 0 then rtMemheapAlloc h newsize
    else
      let headerPtr := sub32 ptr rtMemheapSize
      let oldsize := memitemSize h.memory headerPtr
      if oldsize < newsize then do
        let h ← h.rtSemTake
        let nextPtr := load h.memory headerPtr .next
        guard (headerPtr < nextPtr)
        if ¬ isUsed h.memory nextPtr ∧
            add32 newsize rtMemheapMinialloc < add32 (memitemSize h.memory nextPtr) oldsize then
          some ((growInPlace h headerPtr ptr oldsize newsize).rtSemRelease, ptr)
        else reallocMove h.rtSemRelease ptr oldsize newsize
      else if oldsize ≤ add32 (add32 newsize rtMemheapSize) rtMemheapMinialloc then some (h, ptr)
      else do
        let h ← h.rtSemTake
        some ((shrink h headerPtr newsize).rtSemRelease, ptr)

end GiantGecko.Rtos.Memheap
