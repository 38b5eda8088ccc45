import GiantGecko.Foundation.Links
import GiantGecko.Rtos.Memheap
import Mathlib.Data.Set.Pairwise.Basic

namespace GiantGecko.Rtos.Memheap

open Foundation.Bytes Foundation.Links

def Apart (a b : ℕ) : Prop := a + rtMemheapSize ≤ b ∨ b + rtMemheapSize ≤ a

/-- Addresses at which items lie that do not overlap. -/
structure Items (T : Set ℕ) : Prop where
  apart : T.Pairwise Apart
  lt : ∀ a ∈ T, a < 2 ^ 32

def Kept (T : Set ℕ) (m m' : Memory) : Prop :=
  ∀ i, (∀ p ∈ T, i < p ∨ p + rtMemheapSize ≤ i) → m'.byte i = m.byte i

theorem Kept.refl (T : Set ℕ) (m : Memory) : Kept T m m := fun _ _ ↦ rfl

theorem Kept.trans {T : Set ℕ} {m₁ m₂ m₃ : Memory} (h : Kept T m₁ m₂) (h' : Kept T m₂ m₃) :
    Kept T m₁ m₃ := by
  intro i hi
  rw [h' i hi, h i hi]

theorem Field.offset_le (f : Field) : f.offset + 4 ≤ rtMemheapSize := by
  cases f <;> decide

theorem Field.offset_apart {f g : Field} (h : g ≠ f) :
    f.offset + 4 ≤ g.offset ∨ g.offset + 4 ≤ f.offset := by
  revert h
  cases f <;> cases g <;> decide

theorem load_lt (m : Memory) (a : ℕ) (f : Field) : load m a f < 2 ^ 32 := m.word_lt _

section Stores

variable {T : Set ℕ} {m : Memory} {a p x v hd : ℕ} {f g : Field}

theorem kept_store (hp : p ∈ T) : Kept T m (store m p f v) := by
  intro i hi
  have h := hi p hp
  have hf := f.offset_le
  exact Memory.putWord_of_outside (by omega)

theorem load_store (hT : Items T) (ha : a ∈ T) (hp : p ∈ T) (hv : v < 2 ^ 32) :
    load (store m p f v) a g = if a = p ∧ g = f then v else load m a g := by
  have hf := f.offset_le
  have hg := g.offset_le
  obtain rfl | hap := eq_or_ne a p
  · obtain rfl | hgf := eq_or_ne g f
    · rw [if_pos ⟨rfl, rfl⟩]
      exact Memory.word_putWord hv
    · have h := Field.offset_apart hgf
      rw [if_neg (by simp [hgf])]
      exact Memory.word_putWord_of_apart (by omega)
  · have h := hT.apart ha hp hap
    rw [if_neg (by simp [hap])]
    simp only [Apart] at h
    exact Memory.word_putWord_of_apart (by omega)

theorem load_store_of_ne (hT : Items T) (ha : a ∈ T) (hp : p ∈ T) (hap : a ≠ p) :
    load (store m p f v) a g = load m a g := by
  have hf := f.offset_le
  have hg := g.offset_le
  have h := hT.apart ha hp hap
  simp only [Apart] at h
  exact Memory.word_putWord_of_apart (by omega)

/-- What taking a node out of a list changes. -/
structure Unlinks (T : Set ℕ) (fwd bwd : Field) (x : ℕ) (m m' : Memory) : Prop where
  links : ∀ a ∈ T, ∀ g, load m' a g =
    if g = fwd ∧ a = load m x bwd then load m x fwd
    else if g = bwd ∧ a = load m x fwd then load m x bwd
    else load m a g
  kept : Kept T m m'

structure Inserts (T : Set ℕ) (fwd bwd : Field) (p x : ℕ) (m m' : Memory) : Prop where
  forward : ∀ a ∈ T, load m' a fwd =
    if a = p then x else if a = x then load m p fwd else load m a fwd
  backward : ∀ a ∈ T, load m' a bwd =
    if a = load m p fwd then x else if a = x then p else load m a bwd
  kept : Kept T m m'

theorem unlinks_store {fwd bwd : Field} (hT : Items T) (hn : load m x fwd ∈ T)
    (hp : load m x bwd ∈ T) (hfb : fwd ≠ bwd) :
    Unlinks T fwd bwd x m
      (store (store m (load m x fwd) bwd (load m x bwd)) (load m x bwd) fwd (load m x fwd)) := by
  refine ⟨?_, (kept_store hn).trans (kept_store hp)⟩
  intro a ha g
  rw [load_store hT ha hp (load_lt m x fwd), load_store hT ha hn (load_lt m x bwd)]
  grind

theorem Unlinks.symm {fwd bwd : Field} {m' : Memory} (h : Unlinks T fwd bwd x m m')
    (hfb : fwd ≠ bwd) : Unlinks T bwd fwd x m m' := by
  refine ⟨?_, h.kept⟩
  intro a ha g
  rw [h.links a ha]
  grind

theorem unlinks_removeFree (hT : Items T) (hx : x ∈ T) (hn : load m x .nextFree ∈ T)
    (hp : load m x .prevFree ∈ T) (hne : load m x .nextFree ≠ x) :
    Unlinks T .nextFree .prevFree x m (removeFree m x) := by
  simp only [removeFree, load_store_of_ne hT hx hn hne.symm]
  exact unlinks_store hT hn hp (by decide)

theorem inserts_insertFree (hT : Items T) (hx : x ∈ T) (hd' : hd ∈ T)
    (hn : load m hd .nextFree ∈ T) (hne : x ≠ hd) :
    Inserts T .nextFree .prevFree hd x m (insertFree m hd x) ∧
      ∀ a ∈ T, ∀ g, g ≠ .nextFree → g ≠ .prevFree →
        load (insertFree m hd x) a g = load m a g := by
  have hlt := hT.lt
  have h (a : ℕ) (ha : a ∈ T) (g : Field) :
      load (insertFree m hd x) a g =
        if a = hd ∧ g = .nextFree then x
        else if a = load m hd .nextFree ∧ g = .prevFree then x
        else if a = x ∧ g = .prevFree then hd
        else if a = x ∧ g = .nextFree then load m hd .nextFree
        else load m a g := by
    simp only [insertFree]
    rw [load_store hT ha hd' (hlt x hx)]
    simp only [load_store hT hd' hx (hlt hd hd'), load_store hT hd' hx (load_lt m hd .nextFree),
      hne.symm, false_and, if_false]
    rw [load_store hT ha hn (hlt x hx), load_store hT ha hx (hlt hd hd'),
      load_store hT ha hx (load_lt m hd .nextFree)]
  refine ⟨⟨?_, ?_, ?_⟩, ?_⟩
  · intro a ha
    simp only [h a ha, reduceCtorEq, and_true, and_false, if_false]
  · intro a ha
    simp only [h a ha, reduceCtorEq, and_true, and_false, if_false]
  · simp only [insertFree, load_store hT hd' hx (hlt hd hd'),
      load_store hT hd' hx (load_lt m hd .nextFree), hne.symm, false_and, if_false]
    exact (((kept_store hx).trans (kept_store hx)).trans (kept_store hn)).trans (kept_store hd')
  · intro a ha g hn hp
    simp only [h a ha, hn, hp, and_false, if_false]

theorem inserts_buildBlock {address : ℕ} (hT : Items T) (hx : x ∈ T) (hp : p ∈ T)
    (hn : load m p .next ∈ T) (hpx : p ≠ x) (haddress : address < 2 ^ 32) :
    Inserts T .next .prev p x m (buildBlock m address p x) ∧
      (∀ a ∈ T, load (buildBlock m address p x) a .magic =
        if a = x then rtMemheapMagic else load m a .magic) ∧
      (∀ a ∈ T, load (buildBlock m address p x) a .poolPtr =
        if a = x then address else load m a .poolPtr) ∧
      ∀ a ∈ T, ∀ g, g = .nextFree ∨ g = .prevFree →
        load (buildBlock m address p x) a g = load m a g := by
  have hlt := hT.lt
  have hmagic : rtMemheapMagic < 2 ^ 32 := by decide
  let m₄ := store (store (store (store m x .magic rtMemheapMagic) x .poolPtr address) x .prev p) x
    .next (load m p .next)
  have hbuild : buildBlock m address p x =
      store (store m₄ (load m p .next) .prev x) p .next x := by
    simp only [m₄, buildBlock, load_store hT hp hx hmagic, load_store hT hp hx haddress,
      load_store hT hp hx (hlt p hp), load_store hT hp hx (load_lt m p .next), hpx, false_and,
      if_false]
  have h (a : ℕ) (ha : a ∈ T) (g : Field) :
      load (buildBlock m address p x) a g =
        if a = p ∧ g = .next then x
        else if a = load m p .next ∧ g = .prev then x
        else if a = x ∧ g = .next then load m p .next
        else if a = x ∧ g = .prev then p
        else if a = x ∧ g = .poolPtr then address
        else if a = x ∧ g = .magic then rtMemheapMagic
        else load m a g := by
    rw [hbuild, load_store hT ha hp (hlt x hx), load_store hT ha hn (hlt x hx),
      load_store hT ha hx (load_lt m p .next), load_store hT ha hx (hlt p hp),
      load_store hT ha hx haddress, load_store hT ha hx hmagic]
  refine ⟨⟨?_, ?_, ?_⟩, ?_, ?_, ?_⟩
  · intro a ha
    simp only [h a ha, reduceCtorEq, and_true, and_false, if_false]
  · intro a ha
    simp only [h a ha, reduceCtorEq, and_true, and_false, if_false]
  · have hkept : Kept T m m₄ :=
      (((kept_store hx).trans (kept_store hx)).trans (kept_store hx)).trans (kept_store hx)
    rw [hbuild]
    exact (hkept.trans (kept_store hn)).trans (kept_store hp)
  · intro a ha
    simp only [h a ha, reduceCtorEq, and_true, and_false, if_false]
  · intro a ha
    simp only [h a ha, reduceCtorEq, and_true, and_false, if_false]
  · intro a ha g hg
    obtain rfl | rfl := hg
    all_goals simp only [h a ha, reduceCtorEq, and_false, if_false]

end Stores

/-- A block of the pool: where its item lies, and how many bytes follow that. -/
structure Block where
  addr : ℕ
  size : ℕ
  used : Bool

def mark (used : Bool) : ℕ :=
  if used then rtMemheapMagic ||| rtMemheapUsed else rtMemheapMagic

/-- The blocks form the block list and the addresses the free list, and the items are
filled in. -/
structure Threaded (T : Set ℕ) (address freeList : ℕ) (m : Memory) (bs : List Block)
    (free : List ℕ) : Prop where
  items : Items T
  blocks_mem : ∀ b ∈ bs, b.addr ∈ T
  free_mem : ∀ a ∈ freeList :: free, a ∈ T
  nodup : (bs.map Block.addr).Nodup
  free_nodup : (freeList :: free).Nodup
  ring : Ring (load m · .next) (load m · .prev) (bs.map Block.addr)
  free_ring : Ring (load m · .nextFree) (load m · .prevFree) (freeList :: free)
  marked : ∀ b ∈ bs, load m b.addr .magic = mark b.used
  owned : ∀ b ∈ bs, load m b.addr .poolPtr = address

section Moves

variable {T : Set ℕ} {address freeList : ℕ} {m m' : Memory} {bs u v : List Block} {b : Block}
  {free r s : List ℕ} {x : ℕ}

theorem Unlinks.load_eq {fwd bwd g : Field} {a : ℕ} (h : Unlinks T fwd bwd x m m') (ha : a ∈ T)
    (hf : g ≠ fwd) (hb : g ≠ bwd) : load m' a g = load m a g := by
  simp only [h.links a ha, hf, hb, false_and, if_false]

theorem Unlinks.ring {fwd bwd : Field} {l k : List ℕ} (h : Unlinks T fwd bwd x m m')
    (hfb : fwd ≠ bwd) (hring : Ring (load m · fwd) (load m · bwd) (l ++ x :: k)) (hl : l ≠ [])
    (hnodup : (l ++ x :: k).Nodup) (hmem : ∀ a ∈ l ++ x :: k, a ∈ T) :
    Ring (load m' · fwd) (load m' · bwd) (l ++ k) := by
  have hx : x ∈ l ++ x :: k := by simp
  have hsub : ∀ a ∈ l ++ k, a ∈ T := by
    intro a ha
    refine hmem a ?_
    simp only [List.mem_append, List.mem_cons] at ha ⊢
    tauto
  refine hring.unlink hl hnodup ?_ ?_ ?_ ?_
  · simp only [h.links _ (hmem _ (hring.prev_mem hx)), true_and, if_true]
  · simp only [h.links _ (hmem _ (hring.next_mem hx)), hfb.symm, false_and, if_false, true_and,
      if_true]
  · intro a ha hne
    simp only [h.links a (hsub a ha), hfb, hne, and_false, false_and, if_false]
  · intro a ha hne
    simp only [h.links a (hsub a ha), hfb.symm, hne, and_false, false_and, if_false]

theorem Inserts.ring {fwd bwd : Field} {p : ℕ} {l k : List ℕ} (h : Inserts T fwd bwd p x m m')
    (hring : Ring (load m · fwd) (load m · bwd) (l ++ p :: k)) (hnodup : (l ++ p :: k).Nodup)
    (hmem : ∀ a ∈ l ++ p :: k, a ∈ T) (hx : x ∈ T) (hxl : x ∉ l ++ p :: k) :
    Ring (load m' · fwd) (load m' · bwd) (l ++ p :: x :: k) := by
  have hp : p ∈ l ++ p :: k := by simp
  have hn := hring.next_mem hp
  have hxp : x ≠ p := fun h ↦ hxl (h ▸ hp)
  refine hring.insert hnodup ?_ ?_ ?_ ?_ ?_ ?_
  · simp only [h.forward p (hmem p hp), if_true]
  · have hxn : x ≠ load m p fwd := fun h ↦ hxl (h ▸ hn)
    simp only [h.backward x hx, hxn, if_false, if_true]
  · simp only [h.forward x hx, hxp, if_false, if_true]
  · simp only [h.backward _ (hmem _ hn), if_true]
  · intro a ha
    have hal : a ∈ l ++ p :: k := by
      simp only [List.mem_append, List.mem_cons] at ha ⊢
      tauto
    have hap : a ≠ p := by
      rintro rfl
      obtain ha | ha := List.mem_append.mp ha
      · exact (List.nodup_append.mp hnodup).2.2 a ha a (by simp) rfl
      · exact (List.nodup_cons.mp (List.nodup_append.mp hnodup).2.1).1 ha
    have hax : a ≠ x := fun h ↦ hxl (h ▸ hal)
    simp only [h.forward a (hmem a hal), hap, hax, if_false]
  · intro a ha hne
    have hax : a ≠ x := fun h ↦ hxl (h ▸ ha)
    simp only [h.backward a (hmem a ha), hne, hax, if_false]

theorem Threaded.resize (h : Threaded T address freeList m (u ++ b :: v) free) (size : ℕ) :
    Threaded T address freeList m (u ++ { b with size } :: v) free := by
  have haddr : (u ++ { b with size } :: v).map Block.addr = (u ++ b :: v).map Block.addr := by
    simp
  have hcases : ∀ c ∈ u ++ { b with size } :: v, ∃ d ∈ u ++ b :: v,
      c.addr = d.addr ∧ c.used = d.used := by
    intro c hc
    obtain hc | hc := List.mem_append.mp hc
    · exact ⟨c, List.mem_append_left _ hc, rfl, rfl⟩
    · obtain rfl | hc := List.mem_cons.mp hc
      · exact ⟨b, by simp, rfl, rfl⟩
      · exact ⟨c, List.mem_append_right _ (List.mem_cons_of_mem b hc), rfl, rfl⟩
  refine ⟨h.items, ?_, h.free_mem, haddr ▸ h.nodup, h.free_nodup, haddr ▸ h.ring, h.free_ring,
    ?_, ?_⟩
  all_goals
    intro c hc
    obtain ⟨d, hd, hcd, hu⟩ := hcases c hc
    rw [hcd]
  · exact h.blocks_mem d hd
  · rw [hu, h.marked d hd]
  · exact h.owned d hd

theorem Threaded.change {T' : Set ℕ} (h : Threaded T address freeList m bs free)
    (hT : Items T') (hb : ∀ b ∈ bs, b.addr ∈ T') (hf : ∀ a ∈ freeList :: free, a ∈ T') :
    Threaded T' address freeList m bs free :=
  { h with items := hT, blocks_mem := hb, free_mem := hf }

theorem Threaded.next_mem (h : Threaded T address freeList m bs free) (hb : b ∈ bs) :
    load m b.addr .next ∈ T :=
  List.forall_mem_map.mpr h.blocks_mem _ (h.ring.next_mem (List.mem_map_of_mem hb))

theorem Threaded.prev_mem (h : Threaded T address freeList m bs free) (hb : b ∈ bs) :
    load m b.addr .prev ∈ T :=
  List.forall_mem_map.mpr h.blocks_mem _ (h.ring.prev_mem (List.mem_map_of_mem hb))

theorem Threaded.neighbours {c : Block}
    (h : Threaded T address freeList m (u ++ b :: c :: v) free) :
    load m b.addr .next = c.addr ∧ load m c.addr .prev = b.addr := by
  have hring := h.ring
  simp only [List.map_append, List.map_cons] at hring
  exact hring.neighbours

theorem Threaded.next_ne {c : Block} (h : Threaded T address freeList m (u ++ b :: c :: v) free) :
    load m c.addr .next ≠ c.addr := by
  have hring := h.ring
  have hnodup := h.nodup
  rw [List.append_cons, List.map_append, List.map_cons] at hring hnodup
  exact hring.next_ne (by simp) hnodup

theorem Threaded.rewrite (h : Threaded T address freeList m bs free)
    (hm : ∀ p ∈ T, ∀ i, p ≤ i → i < p + rtMemheapSize → m'.byte i = m.byte i) :
    Threaded T address freeList m' bs free := by
  have hload : ∀ p ∈ T, ∀ f, load m' p f = load m p f := by
    intro p hp f
    have hf := f.offset_le
    refine Memory.word_congr ?_
    intro i hi hi'
    exact hm p hp i (by omega) (by omega)
  have hblocks : ∀ a ∈ bs.map Block.addr, a ∈ T := List.forall_mem_map.mpr h.blocks_mem
  refine ⟨h.items, h.blocks_mem, h.free_mem, h.nodup, h.free_nodup, ?_, ?_, ?_, ?_⟩
  · exact h.ring.congr (fun a ha ↦ hload a (hblocks a ha) .next)
      (fun a ha ↦ hload a (hblocks a ha) .prev)
  · exact h.free_ring.congr (fun a ha ↦ hload a (h.free_mem a ha) .nextFree)
      (fun a ha ↦ hload a (h.free_mem a ha) .prevFree)
  · intro b hb
    rw [hload _ (h.blocks_mem b hb), h.marked b hb]
  · intro b hb
    rw [hload _ (h.blocks_mem b hb), h.owned b hb]

theorem Threaded.relist (h : Threaded T address freeList m bs r)
    (hload : ∀ a ∈ T, ∀ g, g ≠ .nextFree → g ≠ .prevFree → load m' a g = load m a g)
    (hmem : ∀ a ∈ freeList :: free, a ∈ T) (hnodup : (freeList :: free).Nodup)
    (hring : Ring (load m' · .nextFree) (load m' · .prevFree) (freeList :: free)) :
    Threaded T address freeList m' bs free := by
  refine ⟨h.items, h.blocks_mem, hmem, h.nodup, hnodup, h.ring.congr ?_ ?_, hring, ?_, ?_⟩
  · intro a ha
    obtain ⟨b, hb, rfl⟩ := List.mem_map.mp ha
    exact hload _ (h.blocks_mem b hb) .next (by decide) (by decide)
  · intro a ha
    obtain ⟨b, hb, rfl⟩ := List.mem_map.mp ha
    exact hload _ (h.blocks_mem b hb) .prev (by decide) (by decide)
  · intro b hb
    rw [hload _ (h.blocks_mem b hb) .magic (by decide) (by decide), h.marked b hb]
  · intro b hb
    rw [hload _ (h.blocks_mem b hb) .poolPtr (by decide) (by decide), h.owned b hb]

theorem Threaded.nextFree_mem (h : Threaded T address freeList m bs free)
    (hx : x ∈ freeList :: free) : load m x .nextFree ∈ T :=
  h.free_mem _ (h.free_ring.next_mem hx)

theorem Threaded.prevFree_mem (h : Threaded T address freeList m bs free)
    (hx : x ∈ freeList :: free) : load m x .prevFree ∈ T :=
  h.free_mem _ (h.free_ring.prev_mem hx)

theorem Threaded.removeFree (h : Threaded T address freeList m bs (r ++ x :: s)) :
    Threaded T address freeList (removeFree m x) bs (r ++ s) ∧ Kept T m (removeFree m x) := by
  have hx : x ∈ freeList :: (r ++ x :: s) := by simp
  have hring : Ring (load m · .nextFree) (load m · .prevFree) ((freeList :: r) ++ x :: s) :=
    h.free_ring
  have hun : Unlinks T .nextFree .prevFree x m (Memheap.removeFree m x) :=
    unlinks_removeFree h.items (h.free_mem x hx) (h.nextFree_mem hx) (h.prevFree_mem hx)
      (hring.next_ne (by simp) h.free_nodup)
  refine ⟨h.relist ?_ ?_ ?_ ?_, hun.kept⟩
  · intro a ha g
    exact hun.load_eq ha
  · intro a ha
    refine h.free_mem a ?_
    simp only [List.mem_cons, List.mem_append] at ha ⊢
    tauto
  · refine h.free_nodup.sublist ?_
    exact ((List.sublist_cons_self x s).append_left r).cons_cons freeList
  · exact hun.ring (by decide) hring (by simp) h.free_nodup h.free_mem

theorem Threaded.notMem_removed (h : Threaded T address freeList m bs (r ++ x :: s)) :
    x ∉ freeList :: (r ++ s) := by
  obtain ⟨hd, hrs⟩ := List.nodup_cons.mp h.free_nodup
  obtain ⟨-, hs, hd'⟩ := List.nodup_append.mp hrs
  simp only [List.mem_cons, List.mem_append, not_or] at hd ⊢
  refine ⟨Ne.symm hd.2.1, ?_, (List.nodup_cons.mp hs).1⟩
  exact fun hr ↦ hd' x hr x (by simp) rfl

theorem Threaded.insertFree (h : Threaded T address freeList m bs free) (hx : x ∈ T)
    (hfree : x ∉ freeList :: free) :
    Threaded T address freeList (insertFree m freeList x) bs (x :: free) ∧
      Kept T m (insertFree m freeList x) := by
  have hd : freeList ∈ freeList :: free := by simp
  have hne : x ≠ freeList := fun hx ↦ hfree (by simp [hx])
  obtain ⟨hin, hload⟩ := inserts_insertFree h.items hx (h.free_mem freeList hd)
    (h.nextFree_mem hd) hne
  refine ⟨h.relist hload ?_ ?_ ?_, hin.kept⟩
  · intro a ha
    simp only [List.mem_cons] at ha
    obtain rfl | rfl | ha := ha
    · exact h.free_mem a hd
    · exact hx
    · exact h.free_mem a (List.mem_cons_of_mem freeList ha)
  · have hnodup := h.free_nodup
    simp only [List.nodup_cons, List.mem_cons, not_or] at hnodup hfree ⊢
    exact ⟨⟨hne.symm, hnodup.1⟩, hfree.2, hnodup.2⟩
  · exact hin.ring (l := []) h.free_ring h.free_nodup h.free_mem hx hfree

theorem Threaded.storeFree {f : Field} {w : ℕ} (h : Threaded T address freeList m bs free)
    (hx : x ∈ T) (hfree : x ∉ freeList :: free) (hf : f = .nextFree ∨ f = .prevFree)
    (hw : w < 2 ^ 32) :
    Threaded T address freeList (store m x f w) bs free ∧ Kept T m (store m x f w) := by
  have hne : ∀ a ∈ freeList :: free, a ≠ x := fun a ha hax ↦ hfree (hax ▸ ha)
  refine ⟨h.relist ?_ h.free_mem h.free_nodup (h.free_ring.congr ?_ ?_), kept_store hx⟩
  · intro a ha g hn hp
    rw [load_store h.items ha hx hw, if_neg]
    rintro ⟨-, rfl⟩
    exact hf.elim hn hp
  all_goals
    intro a ha
    simp only [load_store h.items (h.free_mem a ha) hx hw, hne a ha, false_and, if_false]

theorem Threaded.unlinkBlock (h : Threaded T address freeList m (u ++ b :: v) free)
    (hun : Unlinks T .next .prev b.addr m m') (hu : u ≠ []) :
    Threaded T address freeList m' (u ++ v) free := by
  have hsub : ∀ c ∈ u ++ v, c ∈ u ++ b :: v := by
    intro c hc
    simp only [List.mem_append, List.mem_cons] at hc ⊢
    tauto
  have hring := h.ring
  have hnodup := h.nodup
  have hmem : ∀ a ∈ (u ++ b :: v).map Block.addr, a ∈ T := List.forall_mem_map.mpr h.blocks_mem
  rw [List.map_append, List.map_cons] at hring hnodup hmem
  refine ⟨h.items, fun c hc ↦ h.blocks_mem c (hsub c hc), h.free_mem, ?_, h.free_nodup, ?_,
    h.free_ring.congr ?_ ?_, ?_, ?_⟩
  · rw [List.map_append]
    exact hnodup.sublist ((List.sublist_cons_self _ _).append_left _)
  · rw [List.map_append]
    exact hun.ring (by decide) hring (by simpa using hu) hnodup hmem
  · intro a ha
    exact hun.load_eq (h.free_mem a ha) (by decide) (by decide)
  · intro a ha
    exact hun.load_eq (h.free_mem a ha) (by decide) (by decide)
  · intro c hc
    rw [hun.load_eq (h.blocks_mem c (hsub c hc)) (by decide) (by decide), h.marked c (hsub c hc)]
  · intro c hc
    rw [hun.load_eq (h.blocks_mem c (hsub c hc)) (by decide) (by decide), h.owned c (hsub c hc)]

theorem Threaded.addr_ne (h : Threaded T address freeList m (u ++ b :: v) free) :
    ∀ c ∈ u ++ v, c.addr ≠ b.addr := by
  have hnodup := h.nodup
  rw [List.map_append, List.map_cons] at hnodup
  obtain ⟨-, hv, hd⟩ := List.nodup_append.mp hnodup
  intro c hc hcb
  obtain hc | hc := List.mem_append.mp hc
  · exact hd _ (List.mem_map_of_mem hc) b.addr (by simp) hcb
  · exact (List.nodup_cons.mp hv).1 (hcb ▸ List.mem_map_of_mem hc)

theorem Threaded.setMark (h : Threaded T address freeList m (u ++ b :: v) free) (used : Bool) :
    Threaded T address freeList (store m b.addr .magic (mark used))
        (u ++ { b with used } :: v) free ∧
      Kept T m (store m b.addr .magic (mark used)) := by
  have hb : b.addr ∈ T := h.blocks_mem b (by simp)
  have hmark : mark used < 2 ^ 32 := by cases used <;> decide
  have haddr : (u ++ { b with used } :: v).map Block.addr = (u ++ b :: v).map Block.addr := by
    simp
  have hload : ∀ a ∈ T, ∀ g, g ≠ .magic →
      load (store m b.addr .magic (mark used)) a g = load m a g := by
    intro a ha g hg
    simp only [load_store h.items ha hb hmark, hg, and_false, if_false]
  have hsub : ∀ c ∈ u ++ v, c ∈ u ++ b :: v := by
    intro c hc
    simp only [List.mem_append, List.mem_cons] at hc ⊢
    tauto
  have hcases : ∀ c ∈ u ++ { b with used } :: v, c = { b with used } ∨ c ∈ u ++ v := by
    intro c hc
    simp only [List.mem_append, List.mem_cons] at hc ⊢
    tauto
  refine ⟨⟨h.items, ?_, h.free_mem, haddr ▸ h.nodup, h.free_nodup, ?_,
    h.free_ring.congr ?_ ?_, ?_, ?_⟩, kept_store hb⟩
  · intro c hc
    obtain rfl | hc := hcases c hc
    · exact hb
    · exact h.blocks_mem c (hsub c hc)
  · rw [haddr]
    have hmem : ∀ a ∈ (u ++ b :: v).map Block.addr, a ∈ T := List.forall_mem_map.mpr h.blocks_mem
    exact h.ring.congr (fun a ha ↦ hload a (hmem a ha) .next (by decide))
      (fun a ha ↦ hload a (hmem a ha) .prev (by decide))
  · exact fun a ha ↦ hload a (h.free_mem a ha) .nextFree (by decide)
  · exact fun a ha ↦ hload a (h.free_mem a ha) .prevFree (by decide)
  · intro c hc
    obtain rfl | hc := hcases c hc
    · simp only [load_store h.items hb hb hmark, and_self, if_true]
    · simp only [load_store h.items (h.blocks_mem c (hsub c hc)) hb hmark, h.addr_ne c hc,
        false_and, if_false, h.marked c (hsub c hc)]
  · intro c hc
    obtain rfl | hc := hcases c hc
    · rw [hload _ hb .poolPtr (by decide)]
      exact h.owned b (by simp)
    · rw [hload _ (h.blocks_mem c (hsub c hc)) .poolPtr (by decide), h.owned c (hsub c hc)]

theorem Threaded.markUsed (h : Threaded T address freeList m (u ++ b :: v) free)
    (hb : b.used = false) :
    Threaded T address freeList
        (store m b.addr .magic (load m b.addr .magic ||| rtMemheapUsed))
        (u ++ { b with used := true } :: v) free ∧
      Kept T m (store m b.addr .magic (load m b.addr .magic ||| rtMemheapUsed)) := by
  have hmark : load m b.addr .magic ||| rtMemheapUsed = mark true := by
    rw [h.marked b (by simp), hb]
    decide
  rw [hmark]
  exact h.setMark true

theorem Threaded.markFreed (h : Threaded T address freeList m (u ++ b :: v) free)
    (hb : b.used = true) :
    Threaded T address freeList
        (store m b.addr .magic (load m b.addr .magic &&& (2 ^ 32 - 1 - rtMemheapUsed)))
        (u ++ { b with used := false } :: v) free ∧
      Kept T m (store m b.addr .magic
        (load m b.addr .magic &&& (2 ^ 32 - 1 - rtMemheapUsed))) := by
  have hmark : load m b.addr .magic &&& (2 ^ 32 - 1 - rtMemheapUsed) = mark false := by
    rw [h.marked b (by simp), hb]
    decide
  rw [hmark]
  exact h.setMark false

theorem Threaded.buildBlock {n : Block} (h : Threaded T address freeList m (u ++ b :: v) free)
    (hn : n.addr ∈ T) (hnew : n.addr ∉ (u ++ b :: v).map Block.addr) (hfree : n.used = false)
    (haddress : address < 2 ^ 32) :
    Threaded T address freeList (buildBlock m address b.addr n.addr) (u ++ b :: n :: v) free ∧
      Kept T m (buildBlock m address b.addr n.addr) := by
  have hb : b.addr ∈ T := h.blocks_mem b (by simp)
  have hmem : ∀ a ∈ (u ++ b :: v).map Block.addr, a ∈ T := List.forall_mem_map.mpr h.blocks_mem
  have hnx := hmem _ (h.ring.next_mem (p := b.addr) (by simp))
  have hbn : b.addr ≠ n.addr := fun hbn ↦ hnew (by simp [← hbn])
  obtain ⟨hin, hmagic, howned, hload⟩ :=
    inserts_buildBlock h.items hn hb hnx hbn haddress
  have hcases : ∀ c ∈ u ++ b :: n :: v, c = n ∨ c ∈ u ++ b :: v ∧ c.addr ≠ n.addr := by
    intro c hc
    have hc' : c = n ∨ c ∈ u ++ b :: v := by
      simp only [List.mem_append, List.mem_cons] at hc ⊢
      tauto
    refine hc'.imp_right fun hc ↦ ⟨hc, ?_⟩
    exact fun hcn ↦ hnew (hcn ▸ List.mem_map_of_mem hc)
  have hring := h.ring
  have hnodup := h.nodup
  rw [List.map_append, List.map_cons] at hring hnodup hmem hnew
  refine ⟨⟨h.items, ?_, h.free_mem, ?_, h.free_nodup, ?_, h.free_ring.congr ?_ ?_, ?_, ?_⟩,
    hin.kept⟩
  · intro c hc
    obtain rfl | ⟨hc, -⟩ := hcases c hc
    · exact hn
    · exact h.blocks_mem c hc
  · rw [List.map_append, List.map_cons, List.map_cons]
    have hp : (u.map Block.addr ++ b.addr :: n.addr :: v.map Block.addr).Perm
        (n.addr :: (u.map Block.addr ++ b.addr :: v.map Block.addr)) := by
      rw [← List.singleton_append, ← List.append_assoc]
      refine List.perm_middle.trans ?_
      simp
    exact hp.nodup_iff.mpr (List.nodup_cons.mpr ⟨hnew, hnodup⟩)
  · rw [List.map_append, List.map_cons, List.map_cons]
    exact hin.ring hring hnodup hmem hn hnew
  · exact fun a ha ↦ hload a (h.free_mem a ha) .nextFree (.inl rfl)
  · exact fun a ha ↦ hload a (h.free_mem a ha) .prevFree (.inr rfl)
  · intro c hc
    obtain rfl | ⟨hc, hcn⟩ := hcases c hc
    · rw [hmagic _ hn, if_pos rfl, hfree]
      rfl
    · rw [hmagic _ (h.blocks_mem c hc), if_neg hcn, h.marked c hc]
  · intro c hc
    obtain rfl | ⟨hc, hcn⟩ := hcases c hc
    · rw [howned _ hn, if_pos rfl]
    · rw [howned _ (h.blocks_mem c hc), if_neg hcn, h.owned c hc]

theorem Threaded.absorb {n : Block}
    (h : Threaded T address freeList m (u ++ b :: n :: v) (r ++ n.addr :: s)) :
    let m₁ := store m (load m n.addr .next) .prev b.addr
    let m₂ := store m₁ b.addr .next (load m₁ n.addr .next)
    Threaded T address freeList (Memheap.removeFree m₂ n.addr) (u ++ b :: v) (r ++ s) ∧
      Kept T m (Memheap.removeFree m₂ n.addr) := by
  have hn : n ∈ u ++ b :: n :: v := by simp
  have hprev := h.neighbours.2
  have hun := unlinks_store (x := n.addr) h.items (h.next_mem hn) (h.prev_mem hn)
    (by decide : Field.next ≠ Field.prev)
  simp only [load_store_of_ne h.items (h.blocks_mem n hn) (h.next_mem hn) h.next_ne.symm]
  rw [hprev] at hun
  rw [List.append_cons] at h
  obtain ⟨h', hk⟩ := (h.unlinkBlock hun (by simp)).removeFree
  rw [List.append_assoc] at h'
  exact ⟨h', hun.kept.trans hk⟩

end Moves

end GiantGecko.Rtos.Memheap
