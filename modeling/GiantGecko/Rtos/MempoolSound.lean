import GiantGecko.Foundation.Chain
import GiantGecko.Rtos.Mempool
import Mathlib.Data.List.Perm.Basic

namespace GiantGecko.Rtos.MempoolSound

open Mempool Foundation.Transition Foundation.Chain

variable {Thread : Type} {s : System Thread} {t : Thread}

def poolBlocks (mp : RtMempool Thread) : List ℕ :=
  (List.range mp.blockTotalCount).map fun i ↦ mp.startAddress + i * stride mp.blockSize

/-- The count is that of the free list, which shares the blocks of the pool
with what is allocated, and the other count that of the list of waiters, all
of which wait. -/
structure Sound (s : System Thread) : Prop where
  free : ∃ l, IsChain s.mem 0 s.mp.blockList l ∧ s.mp.blockFreeCount = l.length ∧
    (l ++ s.allocated).Nodup ∧ ∀ b, b ∈ l ++ s.allocated ↔ b ∈ poolBlocks s.mp
  waiters : s.mp.suspendThreadCount = s.mp.suspendThread.length
  distinct : s.mp.suspendThread.Nodup
  waiting : ∀ t ∈ s.mp.suspendThread,
    (s.threads t).suspended = true ∧ (s.threads t).call.isSome = true
  resumed : s.stray = false

structure Blocks (mp : RtMempool Thread) (mem : ℕ → ℕ) (allocated : List ℕ) : Prop where
  free : ∃ l, IsChain mem 0 mp.blockList l ∧ mp.blockFreeCount = l.length ∧
    (l ++ allocated).Perm (poolBlocks mp)
  nodup : (poolBlocks mp).Nodup
  nonnull : ∀ b ∈ poolBlocks mp, b ≠ 0
  headers : ∀ b ∈ allocated, mem b = mp.self

structure Waiters (queue : List Thread) (count : ℕ) (threads : Thread → RtThread) : Prop where
  count : count = queue.length
  distinct : queue.Nodup
  waiting : ∀ t, (threads t).suspended = true ↔ t ∈ queue
  calls : ∀ t ∈ queue, (threads t).call.isSome = true
  timers : ∀ t, (threads t).timer = true → t ∈ queue

structure Inv (s : System Thread) : Prop where
  blocks : Blocks s.mp s.mem s.allocated
  waiters : Waiters s.mp.suspendThread s.mp.suspendThreadCount s.threads
  resumed : s.stray = false

theorem Inv.sound (h : Inv s) : Sound s where
  free := by
    obtain ⟨l, hchain, hcount, hperm⟩ := h.blocks.free
    exact ⟨l, hchain, hcount, hperm.nodup_iff.mpr h.blocks.nodup, fun _ ↦ hperm.mem_iff⟩
  waiters := h.waiters.count
  distinct := h.waiters.distinct
  waiting := fun t ht ↦ ⟨(h.waiters.waiting t).mpr ht, h.waiters.calls t ht⟩
  resumed := h.resumed

theorem Inv.take (h : Inv s) (hfree : s.mp.blockFreeCount ≠ 0) : Inv (takeBlock s) := by
  obtain ⟨⟨l, hchain, hcount, hperm⟩, hnodup, hnonnull, hheaders⟩ := h.blocks
  cases l with
  | nil => exact absurd hcount hfree
  | cons b l =>
    obtain ⟨⟨hb, hne⟩, htail⟩ := hchain
    have hall := hperm.nodup_iff.mpr hnodup
    rw [List.cons_append, List.nodup_cons] at hall
    obtain ⟨hout, -⟩ := hall
    rw [List.mem_append, not_or] at hout
    rw [takeBlock, hb]
    simp only [if_neg hne]
    refine ⟨⟨⟨l, htail.update hout.1 _, ?_, ?_⟩, hnodup, hnonnull, ?_⟩, h.waiters, h.resumed⟩
    · rw [hcount, List.length_cons, Nat.add_sub_cancel]
    · exact List.perm_middle.trans hperm
    · intro b' hb'
      by_cases heq : b' = b
      · rw [heq]
        exact Function.update_self b s.mp.self s.mem
      · exact (Function.update_of_ne heq _ _).trans
          (hheaders b' ((List.mem_cons.mp hb').resolve_left heq))

theorem Inv.give (h : Inv s) {block : ℕ} (hblock : block ∈ s.allocated) :
    Inv (giveBlock block s) := by
  obtain ⟨⟨l, hchain, hcount, hperm⟩, hnodup, hnonnull, hheaders⟩ := h.blocks
  have hall := List.nodup_append.mp (hperm.nodup_iff.mpr hnodup)
  have hout : block ∉ l := fun hl ↦ hall.2.2 block hl block hblock rfl
  have hmem : block ∈ poolBlocks s.mp := hperm.mem_iff.mp (List.mem_append_right l hblock)
  have hperm' : (block :: l ++ s.allocated.erase block).Perm (poolBlocks s.mp) :=
    (List.perm_middle.symm.trans
      (List.Perm.append_left l (List.perm_cons_erase hblock).symm)).trans hperm
  refine ⟨⟨⟨block :: l, hchain.push hout (hnonnull block hmem), ?_, hperm'⟩, hnodup, hnonnull, ?_⟩,
    h.waiters, h.resumed⟩
  · exact congrArg (· + 1) hcount
  · intro b hb
    have hne := (hall.2.1.mem_erase_iff.mp hb).1
    exact (Function.update_of_ne hne _ _).trans (hheaders b (List.mem_of_mem_erase hb))

section Init

variable {start st total : ℕ} {mem : ℕ → ℕ}

theorem word_of_lt {n : ℕ} (h : n < 2 ^ 32) : word n = n := Nat.mod_eq_of_lt h

theorem address_ne {i j : ℕ} (hst : 0 < st) (h : i ≠ j) : start + i * st ≠ start + j * st := by
  intro heq
  exact h (Nat.eq_of_mul_eq_mul_right hst (Nat.add_left_cancel heq))

theorem linked_range (hst : 0 < st) {i : ℕ} (hi : i < total) :
    (List.range total).foldl (linkBlock start st) mem (start + i * st) =
      start + (i + 1) * st := by
  induction total with
  | zero => omega
  | succ total ih =>
    rw [List.range_succ, List.foldl_append, List.foldl_cons, List.foldl_nil, linkBlock]
    by_cases heq : i = total
    · rw [heq, Function.update_self]
    · rw [Function.update_of_ne (address_ne hst heq)]
      exact ih (by omega)

variable (mem) in
theorem chain_linkBlocks (hst : 0 < st) (htotal : 0 < total) (hstart : 0 < start)
    (hfits : start + total * st ≤ 2 ^ 32) :
    IsChain (linkBlocks start st total mem) 0 start
      ((List.range total).map fun i ↦ start + i * st) := by
  have hle : total ≤ total * st := Nat.le_mul_of_pos_right total hst
  have hback : (total - 1) * st + st = total * st := by
    rw [← Nat.succ_mul, Nat.succ_eq_add_one, Nat.sub_add_cancel htotal]
  have hlast : word (total + (2 ^ 32 - 1)) = total - 1 := by
    rw [word]
    omega
  have hend : word (start + word (total + (2 ^ 32 - 1)) * st) = start + (total - 1) * st := by
    rw [hlast]
    exact word_of_lt (by omega)
  have hchain := chain_map_range (linkBlocks start st total mem) 0
    (f := fun i ↦ start + i * st) htotal ?_ ?_ ?_
  · simpa using hchain
  · intro i hi
    rw [linkBlocks, hend, Function.update_of_ne (address_ne hst (by omega))]
    exact linked_range hst (by omega)
  · rw [linkBlocks, hend]
    exact Function.update_self _ _ _
  · intro i _
    have : 0 < start + i * st := Nat.add_pos_left hstart _
    omega

theorem nodup_poolBlocks (hst : 0 < st) :
    ((List.range total).map fun i ↦ start + i * st).Nodup := by
  refine List.Nodup.map ?_ List.nodup_range
  intro i j hij
  by_contra hne
  exact address_ne hst hne hij

end Init

theorem inv_init {self : ℕ} {area : Area} {blockSize : ℕ} {mem : ℕ → ℕ}
    (hpos : 0 < (rtMpInit self area blockSize mem : System Thread).mp.blockTotalCount) :
    Inv (rtMpInit self area blockSize mem : System Thread) := by
  have hst : 0 < stride (rtAlign blockSize) := by
    by_contra hzero
    have hnone : stride (rtAlign blockSize) = 0 := by omega
    simp only [rtMpInit, hnone, Nat.div_zero] at hpos
    omega
  have hfits : area.start + rtAlignDown area.size / stride (rtAlign blockSize) *
      stride (rtAlign blockSize) ≤ 2 ^ 32 := by
    have hmul := Nat.div_mul_le_self (rtAlignDown area.size) (stride (rtAlign blockSize))
    have hdown : rtAlignDown area.size ≤ area.size := Nat.div_mul_le_self _ _
    have := area.fits
    omega
  have hchain := chain_linkBlocks mem hst hpos area.pos hfits
  refine ⟨⟨⟨_, hchain, ?_, ?_⟩, nodup_poolBlocks hst, ?_, ?_⟩, ⟨rfl, List.nodup_nil, ?_, ?_, ?_⟩,
    rfl⟩
  · rw [List.length_map, List.length_range]
    rfl
  · rw [show (rtMpInit self area blockSize mem : System Thread).allocated = [] from rfl,
      List.append_nil]
    exact List.Perm.refl _
  · intro b hb
    obtain ⟨i, -, rfl⟩ := List.mem_map.mp hb
    have : 0 < area.start + i * stride (rtAlign blockSize) := Nat.add_pos_left area.pos _
    exact Nat.ne_of_gt this
  · exact fun b hb ↦ absurd hb List.not_mem_nil
  · exact fun t ↦ ⟨fun h ↦ absurd h Bool.false_ne_true, fun h ↦ absurd h List.not_mem_nil⟩
  · exact fun t ht ↦ absurd ht List.not_mem_nil
  · exact fun t ht ↦ absurd ht Bool.false_ne_true

/-- A pool without a block has a list that leads somewhere all the same. -/
theorem sound_init_iff (self : ℕ) (area : Area) (blockSize : ℕ) (mem : ℕ → ℕ) :
    Sound (rtMpInit self area blockSize mem : System Thread) ↔
      0 < (rtMpInit self area blockSize mem : System Thread).mp.blockTotalCount := by
  constructor
  · intro hsound
    obtain ⟨l, hchain, hcount, -⟩ := hsound.free
    obtain ⟨l', rfl, -⟩ := hchain.exists_cons (Nat.ne_of_gt area.pos)
    have hsucc : (rtMpInit self area blockSize mem : System Thread).mp.blockTotalCount =
        l'.length + 1 := hcount
    rw [hsucc]
    exact Nat.succ_pos _
  · exact fun hpos ↦ (inv_init hpos).sound

theorem Blocks.waiters {mp mp' : RtMempool Thread} {mem : ℕ → ℕ} {allocated : List ℕ}
    (h : Blocks mp mem allocated) (queue : List Thread) (count : ℕ)
    (hmp : mp' = { mp with suspendThread := queue, suspendThreadCount := count }) :
    Blocks mp' mem allocated := by
  subst hmp
  exact ⟨h.free, h.nodup, h.nonnull, h.headers⟩

variable [DecidableEq Thread]

theorem Waiters.enter {queue : List Thread} {count : ℕ} {threads : Thread → RtThread}
    (h : Waiters queue count threads) (ht : t ∉ queue) (timer : Bool) (time : BitVec 32) :
    Waiters (t :: queue) (count + 1)
      (Function.update threads t ⟨.eok, true, timer, some time⟩) where
  count := congrArg (· + 1) h.count
  distinct := List.nodup_cons.mpr ⟨ht, h.distinct⟩
  waiting := by
    intro t'
    by_cases heq : t' = t
    · simp [heq]
    · simp [heq, h.waiting t']
  calls := by
    intro t' ht'
    by_cases heq : t' = t
    · simp [heq]
    · rw [Function.update_of_ne heq]
      exact h.calls t' ((List.mem_cons.mp ht').resolve_left heq)
  timers := by
    intro t' htimer
    by_cases heq : t' = t
    · simp [heq]
    · rw [Function.update_of_ne heq] at htimer
      exact List.mem_cons_of_mem t (h.timers t' htimer)

theorem Waiters.other {queue : List Thread} {count : ℕ} {threads : Thread → RtThread}
    (h : Waiters queue count threads) (ht : t ∉ queue) {th : RtThread}
    (hsuspended : th.suspended = false) (htimer : th.timer = false) :
    Waiters queue count (Function.update threads t th) where
  count := h.count
  distinct := h.distinct
  waiting := by
    intro t'
    by_cases heq : t' = t
    · simp [heq, hsuspended, ht]
    · simp [heq, h.waiting t']
  calls := by
    intro t' ht'
    have hne : t' ≠ t := fun heq ↦ ht (heq ▸ ht')
    rw [Function.update_of_ne hne]
    exact h.calls t' ht'
  timers := by
    intro t' htimer'
    by_cases heq : t' = t
    · simp [heq, htimer] at htimer'
    · rw [Function.update_of_ne heq] at htimer'
      exact h.timers t' htimer'

theorem Waiters.leave {rest : List Thread} {count : ℕ} {threads : Thread → RtThread}
    (h : Waiters (t :: rest) count threads) {th : RtThread} (hsuspended : th.suspended = false)
    (htimer : th.timer = false) :
    Waiters rest (count - 1) (Function.update threads t th) where
  count := by rw [h.count, List.length_cons, Nat.add_sub_cancel]
  distinct := (List.nodup_cons.mp h.distinct).2
  waiting := by
    intro t'
    by_cases heq : t' = t
    · simp [heq, hsuspended, (List.nodup_cons.mp h.distinct).1]
    · simp [heq, h.waiting t']
  calls := by
    intro t' ht'
    have hne : t' ≠ t := fun heq ↦ (List.nodup_cons.mp h.distinct).1 (heq ▸ ht')
    rw [Function.update_of_ne hne]
    exact h.calls t' (List.mem_cons_of_mem t ht')
  timers := by
    intro t' htimer'
    by_cases heq : t' = t
    · simp [heq, htimer] at htimer'
    · rw [Function.update_of_ne heq] at htimer'
      exact (List.mem_cons.mp (h.timers t' htimer')).resolve_left heq

theorem Inv.alloc (h : Inv s) (time : BitVec 32) (ht : time ≠ 0 → t ∉ s.mp.suspendThread) :
    Inv (rtMpAlloc t time s) := by
  rw [rtMpAlloc]
  split_ifs with hempty hzero
  · exact h
  · exact ⟨h.blocks.waiters _ _ rfl, h.waiters.enter (ht hzero) _ time, h.resumed⟩
  · exact h.take hempty

theorem Inv.goOn (h : Inv s) (t : Thread) (elapsed : BitVec 32) :
    Inv (afterSchedule t elapsed s) := by
  rw [afterSchedule]
  split
  · exact h
  · rename_i time hcall
    by_cases hsuspended : (s.threads t).suspended = true
    · rw [if_pos hsuspended]
      exact h
    · have hready : (s.threads t).suspended = false := by simpa using hsuspended
      have hout : t ∉ s.mp.suspendThread := mt (h.waiters.waiting t).mpr hsuspended
      have htimer : (s.threads t).timer = false := by
        by_contra hon
        exact hout (h.waiters.timers t (by simpa using hon))
      have hleft : Inv (setThread t { s.threads t with call := none } s) :=
        ⟨h.blocks, h.waiters.other hout hready htimer, h.resumed⟩
      rw [if_neg hsuspended]
      split_ifs
      · exact hleft
      · exact hleft.alloc _ fun _ ↦ hout

theorem Inv.resume (h : Inv s) : Inv (resumeWaiter s) := by
  rw [resumeWaiter]
  split_ifs with hcount
  · cases hqueue : s.mp.suspendThread with
    | nil =>
      have hzero := h.waiters.count
      rw [hqueue, List.length_nil] at hzero
      omega
    | cons t rest =>
      have hw := h.waiters
      rw [hqueue] at hw
      have hsuspended : (s.threads t).suspended = true :=
        (hw.waiting t).mpr List.mem_cons_self
      have hresume : rtThreadResume t (setThread t { s.threads t with error := .eok } s) =
          { setThread t { s.threads t with error := .eok, suspended := false, timer := false } s with
            mp := { s.mp with suspendThread := rest } } := by
        simp only [rtThreadResume, setThread, Function.update_self, hsuspended, if_true,
          Function.update_idem, hqueue, List.erase_cons_head]
      simp only [hresume]
      exact ⟨h.blocks.waiters _ _ rfl, hw.leave rfl rfl, h.resumed⟩
  · exact h

theorem Inv.free (h : Inv s) {block : ℕ} (hblock : block ∈ s.allocated) :
    Inv (rtMpFree block s) := by
  rw [rtMpFree, if_neg (not_not.mpr (h.blocks.headers block hblock))]
  exact (h.give hblock).resume

def Untimed (s : System Thread) : Event Thread → Prop
  | .timeout t => s.halted = true ∨ (s.threads t).timer = false
  | _ => True

theorem inv_step (s : System Thread) (e : Event Thread) (h : Inv s) (htime : Untimed s e) :
    Inv (step s e) := by
  rw [step]
  split_ifs with hhalted
  · exact h
  · cases e with
    | alloc t time =>
      rw [turn]
      split_ifs with hcall
      · refine h.alloc time fun hne ht ↦ ?_
        have hsome := h.waiters.calls t ht
        rw [hcall.resolve_right hne] at hsome
        exact absurd hsome Bool.false_ne_true
      · exact h
    | goOn t elapsed => exact h.goOn t elapsed
    | free block =>
      rw [turn]
      split_ifs with hblock
      · exact h.free hblock
      · exact h
    | timeout t =>
      rw [turn, htime.resolve_left hhalted]
      exact h

/-- Any timeout breaks the count of waiters. -/
theorem not_sound_timeout (h : Inv s) (htime : ¬ Untimed s (.timeout t)) :
    ¬ Sound (step s (.timeout t)) := by
  intro hsound
  obtain ⟨hhalted, htimer⟩ := not_or.mp htime
  have hon : (s.threads t).timer = true := by simpa using htimer
  have ht := h.waiters.timers t hon
  have hcount := hsound.waiters
  have hlength := List.length_erase_of_mem ht
  have hpos := List.length_pos_of_mem ht
  simp only [step, if_neg hhalted, turn, hon, if_true, rtThreadTimeout,
    (h.waiters.waiting t).mpr ht, h.waiters.count] at hcount
  omega

theorem sound_step_iff (h : Inv s) (e : Event Thread) : Sound (step s e) ↔ Untimed s e := by
  constructor
  · intro hsound
    by_contra htime
    cases e with
    | timeout t => exact not_sound_timeout h htime hsound
    | alloc t time => exact htime trivial
    | goOn t elapsed => exact htime trivial
    | free block => exact htime trivial
  · exact fun htime ↦ (inv_step s e h htime).sound

/-- The pool is sound in every state of a run exactly if it has a block and no
thread waits for one until its timer ends. -/
theorem pool_sound_run_iff (self : ℕ) (area : Area) (blockSize : ℕ) (mem : ℕ → ℕ)
    (es : List (Event Thread)) :
    let s : System Thread := rtMpInit self area blockSize mem
    Sound s ∧ Along step (fun s e ↦ Sound (step s e)) s es ↔
      0 < s.mp.blockTotalCount ∧ Along step Untimed s es := by
  intro s
  rw [sound_init_iff]
  refine and_congr_right fun hpos ↦ ?_
  exact along_congr inv_step (fun _ e h ↦ sound_step_iff h e) (inv_init hpos) es

def oneBlock : Area := ⟨4, 8, by decide, by decide⟩

/-- The second thread waits for the only block until its timer ends. The block
is freed after that. -/
def lateFree : List (Event ℕ) := [.alloc 0 0, .alloc 1 10, .timeout 1, .free 4]

theorem pool_not_sound :
    ¬ Sound ((lateFree.take 3).foldl step (rtMpInit 0x100 oneBlock 4 fun _ ↦ 0)) ∧
      ¬ Sound (lateFree.foldl step (rtMpInit 0x100 oneBlock 4 fun _ ↦ 0)) ∧
      ¬ Sound (rtMpInit 0x100 oneBlock 8 fun _ ↦ 0 : System ℕ) := by
  refine ⟨?_, ?_, ?_⟩
  · intro h
    exact absurd h.waiters (by decide)
  · intro h
    exact absurd h.resumed (by decide)
  · intro h
    exact absurd ((sound_init_iff _ _ _ _).mp h) (by decide)

end GiantGecko.Rtos.MempoolSound
