import GiantGecko.Rtos.TimerPass
import Mathlib.Data.List.Nodup

namespace GiantGecko.Rtos.TimerFlag

open TimerPass Foundation.Transition
open Timer (halfTickMax rowInsert Control)

variable {s : TimerSystem} {C C' : ℕ → Prop} {t u : ℕ}

def timerList (s : TimerSystem) (t : ℕ) : List ℕ :=
  if (s.timer t).soft then s.rtSoftTimerList else s.rtTimerList

def Linked (s : TimerSystem) (t : ℕ) : Prop := t ∈ timerList s t

def Calling (s : TimerSystem) (t : ℕ) : Prop :=
  s.hard = some (.calls t) ∨ ∃ n, s.soft = some (.calls t n)

/-- Linked timers are active, and the active ones linked but for some. -/
structure Lists (s : TimerSystem) (C : ℕ → Prop) : Prop where
  hardNodup : s.rtTimerList.Nodup
  softNodup : s.rtSoftTimerList.Nodup
  hardKind : ∀ t ∈ s.rtTimerList, (s.timer t).soft = false
  softKind : ∀ t ∈ s.rtSoftTimerList, (s.timer t).soft = true
  active : ∀ t, Linked s t → (s.timer t).activated = true
  linked : ∀ t, ¬ C t → (s.timer t).activated = true → Linked s t

theorem rowInsert_perm (timeout : ℕ → BitVec 32) (t : ℕ) (l : List ℕ) :
    (rowInsert timeout t l).Perm (t :: l) := by
  induction l with
  | nil => exact .refl _
  | cons p l ih =>
    have hswap := (ih.cons p).trans (List.Perm.swap t p l)
    rw [rowInsert]
    split_ifs
    · exact hswap
    · exact .refl _
    · exact hswap

theorem Lists.mono (h : Lists s C) (hC : ∀ t, C t → C' t) : Lists s C' :=
  ⟨h.hardNodup, h.softNodup, h.hardKind, h.softKind, h.active, fun t ht ↦ h.linked t (mt (hC t) ht)⟩

theorem set_timer_self (x : RtTimer) : (s.set t x).timer t = x := Function.update_self _ _ _

theorem set_timer_of_ne (x : RtTimer) (hu : u ≠ t) : (s.set t x).timer u = s.timer u :=
  Function.update_of_ne hu _ _

theorem Lists.set (h : Lists s C) {x : RtTimer} (hsoft : x.soft = (s.timer t).soft)
    (hactive : x.activated = (s.timer t).activated) : Lists (s.set t x) C := by
  have hkind (u : ℕ) : ((s.set t x).timer u).soft = (s.timer u).soft ∧
      ((s.set t x).timer u).activated = (s.timer u).activated := by
    by_cases hu : u = t
    · rw [hu, set_timer_self]
      exact ⟨hsoft, hactive⟩
    · rw [set_timer_of_ne _ hu]
      exact ⟨rfl, rfl⟩
  have hlinked (u : ℕ) : Linked (s.set t x) u ↔ Linked s u := by
    simp only [Linked, timerList, (hkind u).1]
    exact Iff.rfl
  refine ⟨h.hardNodup, h.softNodup, ?_, ?_, ?_, ?_⟩
  · exact fun u hu ↦ (hkind u).1.trans (h.hardKind u hu)
  · exact fun u hu ↦ (hkind u).1.trans (h.softKind u hu)
  · exact fun u hu ↦ (hkind u).2.trans (h.active u ((hlinked u).mp hu))
  · exact fun u hC hu ↦ (hlinked u).mpr (h.linked u hC ((hkind u).2.symm.trans hu))

theorem linked_soft (hsoft : (s.timer t).soft = true) :
    Linked s t ↔ t ∈ s.rtSoftTimerList := by
  rw [Linked, timerList, if_pos hsoft]

theorem linked_hard (hsoft : (s.timer t).soft = false) : Linked s t ↔ t ∈ s.rtTimerList := by
  rw [Linked, timerList, hsoft, if_neg Bool.false_ne_true]

theorem linked_remove (h : Lists s C) : Linked (rtTimerRemove t s) u ↔ u ≠ t ∧ Linked s u := by
  obtain hsoft | hsoft := Bool.eq_false_or_eq_true (s.timer u).soft
  · rw [linked_soft (s := rtTimerRemove t s) hsoft, linked_soft hsoft]
    exact h.softNodup.mem_erase_iff
  · rw [linked_hard (s := rtTimerRemove t s) hsoft, linked_hard hsoft]
    exact h.hardNodup.mem_erase_iff

theorem Lists.remove (h : Lists s C) : Lists (rtTimerRemove t s) (fun u ↦ C u ∨ u = t) where
  hardNodup := h.hardNodup.erase t
  softNodup := h.softNodup.erase t
  hardKind u hu := h.hardKind u (List.mem_of_mem_erase hu)
  softKind u hu := h.softKind u (List.mem_of_mem_erase hu)
  active u hu := h.active u ((linked_remove h).mp hu).2
  linked u hC hu := (linked_remove h).mpr ⟨fun heq ↦ hC (.inr heq), h.linked u (fun hc ↦ hC (.inl hc)) hu⟩

theorem soft_deactivate (t u : ℕ) (s : TimerSystem) :
    ((deactivate t s).timer u).soft = (s.timer u).soft := by
  by_cases hu : u = t
  · rw [deactivate, hu, set_timer_self]
  · rw [deactivate, set_timer_of_ne _ hu]

theorem linked_deactivate : Linked (deactivate t s) u ↔ Linked s u := by
  simp only [Linked, timerList, soft_deactivate]
  exact Iff.rfl

theorem Lists.deactivate (h : Lists s C) (hout : ¬ Linked s t) :
    Lists (deactivate t s) (fun u ↦ C u ∧ u ≠ t) := by
  have hself : ((TimerPass.deactivate t s).timer t).activated = false := by
    rw [TimerPass.deactivate, set_timer_self]
  have hother (u : ℕ) (hu : u ≠ t) : (TimerPass.deactivate t s).timer u = s.timer u := by
    rw [TimerPass.deactivate, set_timer_of_ne _ hu]
  refine ⟨h.hardNodup, h.softNodup, ?_, ?_, ?_, ?_⟩
  · exact fun u hu ↦ (soft_deactivate t u s).trans (h.hardKind u hu)
  · exact fun u hu ↦ (soft_deactivate t u s).trans (h.softKind u hu)
  · intro u hu
    have hin := linked_deactivate.mp hu
    have hne : u ≠ t := fun heq ↦ hout (heq ▸ hin)
    rw [hother u hne]
    exact h.active u hin
  · intro u hC hu
    by_cases heq : u = t
    · rw [heq, hself] at hu
      exact absurd hu Bool.false_ne_true
    · rw [hother u heq] at hu
      exact linked_deactivate.mpr (h.linked u (fun hc ↦ hC ⟨hc, heq⟩) hu)

theorem Lists.removed (h : Lists s C) :
    Lists (TimerPass.deactivate t (rtTimerRemove t s)) (fun u ↦ C u ∧ u ≠ t) := by
  have hout : ¬ Linked (rtTimerRemove t s) t := fun hl ↦ ((linked_remove h).mp hl).1 rfl
  refine (h.remove.deactivate hout).mono ?_
  rintro u ⟨hc | heq, hne⟩
  · exact ⟨hc, hne⟩
  · exact absurd heq hne

theorem timer_insert (t : ℕ) (s : TimerSystem) : (TimerPass.insert t s).timer = s.timer := by
  rw [TimerPass.insert]
  split_ifs <;> rfl

theorem insert_soft (hsoft : (s.timer t).soft = true) : TimerPass.insert t s = { s with
    rtSoftTimerList := rowInsert (fun p ↦ (s.timer p).timeoutTick) t s.rtSoftTimerList } := by
  rw [TimerPass.insert, if_pos hsoft]

theorem insert_hard (hsoft : (s.timer t).soft = false) : TimerPass.insert t s = { s with
    rtTimerList := rowInsert (fun p ↦ (s.timer p).timeoutTick) t s.rtTimerList } := by
  rw [TimerPass.insert, hsoft, if_neg Bool.false_ne_true]

theorem linked_insert : Linked (TimerPass.insert t s) u ↔ u = t ∨ Linked s u := by
  have hkind : ((TimerPass.insert t s).timer u).soft = (s.timer u).soft := by rw [timer_insert]
  obtain ht | ht := Bool.eq_false_or_eq_true (s.timer t).soft <;>
    obtain hu | hu := Bool.eq_false_or_eq_true (s.timer u).soft
  · rw [linked_soft (hkind.trans hu), linked_soft hu, insert_soft ht,
      (rowInsert_perm _ t _).mem_iff, List.mem_cons]
  · have hne : u ≠ t := fun heq ↦ by simp [heq, ht] at hu
    rw [linked_hard (hkind.trans hu), linked_hard hu, insert_soft ht, or_iff_right hne]
  · have hne : u ≠ t := fun heq ↦ by simp [heq, ht] at hu
    rw [linked_soft (hkind.trans hu), linked_soft hu, insert_hard ht, or_iff_right hne]
  · rw [linked_hard (hkind.trans hu), linked_hard hu, insert_hard ht,
      (rowInsert_perm _ t _).mem_iff, List.mem_cons]

theorem Lists.insert (h : Lists s C) (hhard : t ∉ s.rtTimerList)
    (hsoft : t ∉ s.rtSoftTimerList) :
    Lists ((TimerPass.insert t s).set t { (TimerPass.insert t s).timer t with activated := true })
      C := by
  generalize hs' : (TimerPass.insert t s).set t
    { (TimerPass.insert t s).timer t with activated := true } = s'
  have hself : s'.timer t = { s.timer t with activated := true } := by
    rw [← hs', set_timer_self, timer_insert]
  have hother (u : ℕ) (hu : u ≠ t) : s'.timer u = s.timer u := by
    rw [← hs', set_timer_of_ne _ hu, timer_insert]
  have hkind (u : ℕ) : (s'.timer u).soft = (s.timer u).soft := by
    by_cases hu : u = t
    · rw [hu, hself]
    · rw [hother u hu]
  have hlinked (u : ℕ) : Linked s' u ↔ u = t ∨ Linked s u := by
    rw [← linked_insert, Linked, Linked, timerList, timerList, hkind u, timer_insert, ← hs']
    exact Iff.rfl
  have hlists : s'.rtTimerList = (TimerPass.insert t s).rtTimerList ∧
      s'.rtSoftTimerList = (TimerPass.insert t s).rtSoftTimerList := by
    rw [← hs']
    exact ⟨rfl, rfl⟩
  have hactive : ∀ u, Linked s' u → (s'.timer u).activated = true := by
    intro u hu
    by_cases heq : u = t
    · rw [heq, hself]
    · rw [hother u heq]
      exact h.active u (((hlinked u).mp hu).resolve_left heq)
  have hback : ∀ u, ¬ C u → (s'.timer u).activated = true → Linked s' u := by
    intro u hC hu
    by_cases heq : u = t
    · exact (hlinked u).mpr (.inl heq)
    · rw [hother u heq] at hu
      exact (hlinked u).mpr (.inr (h.linked u hC hu))
  obtain ht | ht := Bool.eq_false_or_eq_true (s.timer t).soft
  · have hperm := rowInsert_perm (fun p ↦ (s.timer p).timeoutTick) t s.rtSoftTimerList
    rw [insert_soft ht] at hlists
    obtain ⟨hh, hs⟩ := hlists
    refine ⟨?_, ?_, ?_, ?_, hactive, hback⟩
    · rw [hh]
      exact h.hardNodup
    · rw [hs]
      exact hperm.nodup_iff.mpr (List.nodup_cons.mpr ⟨hsoft, h.softNodup⟩)
    · intro u hu
      rw [hh] at hu
      exact (hkind u).trans (h.hardKind u hu)
    · intro u hu
      rw [hs] at hu
      obtain rfl | hin := List.mem_cons.mp (hperm.mem_iff.mp hu)
      · exact (hkind u).trans ht
      · exact (hkind u).trans (h.softKind u hin)
  · have hperm := rowInsert_perm (fun p ↦ (s.timer p).timeoutTick) t s.rtTimerList
    rw [insert_hard ht] at hlists
    obtain ⟨hh, hs⟩ := hlists
    refine ⟨?_, ?_, ?_, ?_, hactive, hback⟩
    · rw [hh]
      exact hperm.nodup_iff.mpr (List.nodup_cons.mpr ⟨hhard, h.hardNodup⟩)
    · rw [hs]
      exact h.softNodup
    · intro u hu
      rw [hh] at hu
      obtain rfl | hin := List.mem_cons.mp (hperm.mem_iff.mp hu)
      · exact (hkind u).trans ht
      · exact (hkind u).trans (h.hardKind u hin)
    · intro u hu
      rw [hs] at hu
      exact (hkind u).trans (h.softKind u hu)

theorem Lists.start (h : Lists s C) (t : ℕ) :
    Lists (rtTimerStart t s) (fun u ↦ C u ∧ u ≠ t) := by
  have hremoved := h.removed (t := t)
  rw [rtTimerStart]
  generalize hs' : TimerPass.deactivate t (rtTimerRemove t s) = s' at hremoved
  have hhard : t ∉ s'.rtTimerList := by
    rw [← hs']
    exact fun hin ↦ (h.hardNodup.mem_erase_iff.mp hin).1 rfl
  have hsoft : t ∉ s'.rtSoftTimerList := by
    rw [← hs']
    exact fun hin ↦ (h.softNodup.mem_erase_iff.mp hin).1 rfl
  simp only
  split_ifs
  · have hset := hremoved.set (t := t)
      (x := { s'.timer t with timeoutTick := s'.tick + (s'.timer t).initTick }) rfl rfl
    exact hset.insert hhard hsoft
  · exact ⟨hremoved.hardNodup, hremoved.softNodup, hremoved.hardKind, hremoved.softKind,
      hremoved.active, hremoved.linked⟩

theorem Lists.stop (h : Lists s C) (t : ℕ) : Lists (rtTimerStop t s).2 C := by
  rw [rtTimerStop]
  split_ifs
  · exact h.removed.mono fun u hu ↦ hu.1
  · exact h

theorem Lists.control (h : Lists s C) (t : ℕ) (cmd : Control) : Lists (rtTimerControl t cmd s) C := by
  cases cmd with
  | getTime => exact h
  | setTime time => exact h.set rfl rfl
  | setOneshot => exact h.set rfl rfl
  | setPeriodic => exact h.set rfl rfl

theorem start_deactivate (t : ℕ) (s : TimerSystem) :
    rtTimerStart t (TimerPass.deactivate t s) = rtTimerStart t s := by
  have hsame : TimerPass.deactivate t (rtTimerRemove t (TimerPass.deactivate t s)) =
      TimerPass.deactivate t (rtTimerRemove t s) := by
    simp only [TimerPass.deactivate, rtTimerRemove, TimerSystem.set, Function.update_self,
      Function.update_idem]
  rw [rtTimerStart, hsame, ← rtTimerStart]

/-- The flag is right again after a function unless the function has started
its own one-shot timer. -/
theorem Lists.restart (h : Lists s C) (hown : Linked s t → (s.timer t).periodic = true) :
    Lists (restart t s) (fun u ↦ C u ∧ u ≠ t) := by
  rw [TimerPass.restart]
  split_ifs with hagain
  · rw [start_deactivate]
    exact h.start t
  · exact h.deactivate fun hl ↦ hagain ⟨hown hl, h.active t hl⟩

structure SamePass (s s' : TimerSystem) : Prop where
  hard : s'.hard = s.hard
  soft : s'.soft = s.soft
  fired : s'.fired = s.fired

theorem samePass_start (t : ℕ) (s : TimerSystem) : SamePass s (rtTimerStart t s) := by
  simp only [rtTimerStart, TimerPass.insert]
  split_ifs <;> exact ⟨rfl, rfl, rfl⟩

theorem samePass_restart (t : ℕ) (s : TimerSystem) : SamePass s (restart t s) := by
  rw [TimerPass.restart]
  split_ifs
  · rw [start_deactivate]
    exact samePass_start t s
  · exact ⟨rfl, rfl, rfl⟩

theorem samePass_call (s : TimerSystem) (e : Event) : SamePass s (call s e) := by
  cases e with
  | start t => exact samePass_start t s
  | stop t =>
    simp only [call, rtTimerStop]
    split_ifs <;> exact ⟨rfl, rfl, rfl⟩
  | control t cmd => cases cmd <;> exact ⟨rfl, rfl, rfl⟩
  | _ => exact ⟨rfl, rfl, rfl⟩

def Inv (s : TimerSystem) : Prop := Lists s (Calling s)

theorem Inv.call (h : Inv s) (e : Event) : Inv (call s e) := by
  have hlists : Lists (TimerPass.call s e) (Calling s) := by
    cases e with
    | start t => exact (Lists.start h t).mono fun _ hu ↦ hu.1
    | stop t => exact Lists.stop h t
    | control t cmd => exact Lists.control h t cmd
    | _ => exact h
  refine hlists.mono fun u hu ↦ ?_
  have hsame := samePass_call s e
  rw [Calling, hsame.hard, hsame.soft]
  exact hu

/-- No function starts its own one-shot timer for longer than until it returns,
and the soft walk does not come to a timer that has been stopped since it ran
out. -/
def Orderly (s : TimerSystem) : Event → Prop
  | .hardReturn => ∀ t, s.hard = some (.calls t) → Linked s t → (s.timer t).periodic = true
  | .softReturn => s.hard = none → ∀ t n, s.soft = some (.calls t n) → Linked s t →
    (s.timer t).periodic = true
  | .softTurn => s.hard = none → ∀ t currentTick, s.soft = some (.look (some t) currentTick) →
    due currentTick (s.timer t) → Linked s t
  | _ => True

theorem Lists.pass (h : Lists s C) (tick : BitVec 32) (hard : Option HardPass)
    (soft : Option SoftPass) (fired : List ℕ) :
    Lists { s with tick := tick, hard := hard, soft := soft, fired := fired } C :=
  ⟨h.hardNodup, h.softNodup, h.hardKind, h.softKind, h.active, h.linked⟩

theorem Inv.hardTurn (h : Inv s) (hhard : s.hard = some .look) : Inv (hardTurn s) := by
  have hquit : Inv { s with hard := none } := by
    refine (Lists.pass h s.tick none s.soft s.fired).mono fun u hu ↦ ?_
    obtain hcalls | hcalls := hu
    · rw [hhard] at hcalls
      cases hcalls
    · exact .inr hcalls
  rw [TimerPass.hardTurn]
  split
  · exact hquit
  · rename_i t rest hlist
    split_ifs
    · refine ((Lists.remove h).pass s.tick (some (.calls t)) s.soft (s.fired ++ [t])).mono ?_
      rintro u ((hcalls | hcalls) | rfl)
      · rw [hhard] at hcalls
        cases hcalls
      · exact .inr hcalls
      · exact .inl rfl
    · exact hquit

theorem Inv.softTurn (h : Inv s) {n : Option ℕ} {currentTick : BitVec 32}
    (hsoft : s.soft = some (.look n currentTick)) : Inv (softTurn n currentTick s) := by
  have hquit : Inv { s with soft := none } := by
    refine (Lists.pass h s.tick s.hard none s.fired).mono fun u hu ↦ ?_
    obtain hcalls | ⟨m, hcalls⟩ := hu
    · exact .inl hcalls
    · rw [hsoft] at hcalls
      cases hcalls
  cases n with
  | none => exact hquit
  | some t =>
    simp only [TimerPass.softTurn]
    split_ifs
    · refine ((Lists.remove h).pass s.tick s.hard
        (some (.calls t (nextNode t s.rtSoftTimerList))) (s.fired ++ [t])).mono ?_
      rintro u ((hcalls | ⟨m, hcalls⟩) | rfl)
      · exact .inl hcalls
      · rw [hsoft] at hcalls
        cases hcalls
      · exact .inr ⟨_, rfl⟩
    · exact hquit

theorem Inv.outside (h : Inv s) (hhard : s.hard = none) {e : Event} (hord : Orderly s e) :
    Inv (outside s e) := by
  cases e with
  | start t => exact h.call (.start t)
  | stop t => exact h.call (.stop t)
  | control t cmd => exact h.call (.control t cmd)
  | tickIncrease => exact Lists.pass h _ s.hard s.soft s.fired
  | hardCheck =>
    refine (Lists.pass h s.tick (some .look) s.soft s.fired).mono ?_
    rintro u (hcalls | hcalls)
    · rw [hhard] at hcalls
      cases hcalls
    · exact .inr hcalls
  | hardTurn => exact h
  | hardReturn => exact h
  | softCheck =>
    rw [TimerPass.outside]
    split
    · rename_i hsoft
      refine (Lists.pass h s.tick s.hard _ s.fired).mono ?_
      rintro u (hcalls | ⟨n, hcalls⟩)
      · exact .inl hcalls
      · rw [hsoft] at hcalls
        cases hcalls
    · exact h
  | softTurn =>
    rw [TimerPass.outside]
    split
    · rename_i n currentTick hsoft
      exact h.softTurn hsoft
    · exact h
  | softReturn =>
    rw [TimerPass.outside]
    split
    · rename_i t n hsoft
      have hsame := samePass_restart t s
      refine ((Lists.restart h (hord hhard t n hsoft)).pass (TimerPass.restart t s).tick
        (TimerPass.restart t s).hard (some (.look n s.tick)) (TimerPass.restart t s).fired).mono ?_
      rintro u ⟨hcalls | ⟨m, hcalls⟩, hne⟩
      · rw [hhard] at hcalls
        cases hcalls
      · rw [hsoft] at hcalls
        cases hcalls
        exact absurd rfl hne
    · exact h

theorem Inv.inHard (h : Inv s) (hhard : s.hard = some (.calls t)) {e : Event}
    (hord : Orderly s e) : Inv (inHard t s e) := by
  cases e with
  | hardReturn =>
    have hsame := samePass_restart t s
    refine ((Lists.restart h (hord t hhard)).pass (TimerPass.restart t s).tick (some .look)
      (TimerPass.restart t s).soft (TimerPass.restart t s).fired).mono ?_
    rintro u ⟨hcalls | hcalls, hne⟩
    · rw [hhard] at hcalls
      cases hcalls
      exact absurd rfl hne
    · right
      rw [← hsame.soft] at hcalls
      exact hcalls
  | start u => exact h.call (.start u)
  | stop u => exact h.call (.stop u)
  | control u cmd => exact h.call (.control u cmd)
  | _ => exact h

theorem inv_step (s : TimerSystem) (e : Event) (h : Inv s) (hord : Orderly s e) :
    Inv (step s e) := by
  rw [step]
  split_ifs
  · exact h
  · cases hhard : s.hard with
    | none =>
      simp only [turn, hhard]
      exact h.outside hhard hord
    | some pass =>
      cases pass with
      | calls t =>
        simp only [turn, hhard]
        exact h.inHard hhard hord
      | look =>
        simp only [turn, hhard]
        cases e with
        | hardTurn => exact h.hardTurn hhard
        | _ => exact h

theorem inv_init (initTick : ℕ → BitVec 32) (periodic soft : ℕ → Bool) :
    Inv (rtTimerInit initTick periodic soft) := by
  have hnone (t : ℕ) : ¬ Linked (rtTimerInit initTick periodic soft) t := by
    rw [Linked, timerList]
    split_ifs <;> exact List.not_mem_nil
  refine ⟨List.nodup_nil, List.nodup_nil, ?_, ?_, fun t hl ↦ absurd hl (hnone t), ?_⟩
  · exact fun t ht ↦ absurd ht List.not_mem_nil
  · exact fun t ht ↦ absurd ht List.not_mem_nil
  · exact fun t _ ht ↦ absurd ht Bool.false_ne_true

structure Stopped (s : TimerSystem) (t : ℕ) : Prop where
  inactive : (s.timer t).activated = false
  notHard : t ∉ s.rtTimerList
  notSoft : t ∉ s.rtSoftTimerList

theorem Stopped.not_linked (h : Stopped s t) : ¬ Linked s t := by
  rw [Linked, timerList]
  split_ifs
  · exact h.notSoft
  · exact h.notHard

theorem Stopped.remove (h : Stopped s t) (u : ℕ) : Stopped (rtTimerRemove u s) t :=
  ⟨h.inactive, fun hin ↦ h.notHard (List.mem_of_mem_erase hin),
    fun hin ↦ h.notSoft (List.mem_of_mem_erase hin)⟩

theorem Stopped.set (h : Stopped s t) {x : RtTimer} (hx : u = t → x.activated = false) :
    Stopped (s.set u x) t := by
  refine ⟨?_, h.notHard, h.notSoft⟩
  by_cases hu : t = u
  · rw [hu, set_timer_self]
    exact hx hu.symm
  · rw [set_timer_of_ne _ hu]
    exact h.inactive

theorem Stopped.insert (h : Stopped s t) (hu : t ≠ u) : Stopped (TimerPass.insert u s) t := by
  have hout (timeout : ℕ → BitVec 32) {l : List ℕ} (hl : t ∉ l) : t ∉ rowInsert timeout u l := by
    rw [(rowInsert_perm timeout u l).mem_iff]
    exact List.not_mem_cons_of_ne_of_not_mem hu hl
  rw [TimerPass.insert]
  split_ifs
  · exact ⟨h.inactive, h.notHard, hout _ h.notSoft⟩
  · exact ⟨h.inactive, hout _ h.notHard, h.notSoft⟩

theorem Stopped.start (h : Stopped s t) (hu : t ≠ u) : Stopped (rtTimerStart u s) t := by
  have hne : u = t → (true : Bool) = false := fun heq ↦ absurd heq.symm hu
  have hremoved : Stopped (TimerPass.deactivate u (rtTimerRemove u s)) t :=
    (h.remove u).set fun _ ↦ rfl
  rw [rtTimerStart]
  simp only
  split_ifs
  · exact ((hremoved.set fun heq ↦ absurd heq.symm hu).insert hu).set hne
  · exact ⟨hremoved.inactive, hremoved.notHard, hremoved.notSoft⟩

theorem Stopped.restart (h : Stopped s t) (u : ℕ) : Stopped (restart u s) t := by
  rw [TimerPass.restart]
  split_ifs with hagain
  · rw [start_deactivate]
    refine h.start fun heq ↦ ?_
    rw [← heq, h.inactive] at hagain
    exact Bool.false_ne_true hagain.2
  · exact h.set fun _ ↦ rfl

theorem Stopped.call (h : Stopped s t) {e : Event} (he : e ≠ .start t) : Stopped (call s e) t := by
  cases e with
  | start u => exact h.start fun heq ↦ he (by rw [heq])
  | stop u =>
    simp only [TimerPass.call, rtTimerStop]
    split_ifs
    · exact (h.remove u).set fun _ ↦ rfl
    · exact h
  | control u cmd =>
    cases cmd with
    | getTime => exact h
    | setTime time => exact h.set fun heq ↦ heq ▸ h.inactive
    | setOneshot => exact h.set fun heq ↦ heq ▸ h.inactive
    | setPeriodic => exact h.set fun heq ↦ heq ▸ h.inactive
  | _ => exact h

theorem Stopped.pass (h : Stopped s t) (tick : BitVec 32) (hard : Option HardPass)
    (soft : Option SoftPass) (fired : List ℕ) :
    Stopped { s with tick := tick, hard := hard, soft := soft, fired := fired } t :=
  ⟨h.inactive, h.notHard, h.notSoft⟩

structure Rests (t : ℕ) (s s' : TimerSystem) : Prop where
  stopped : Stopped s' t
  silent : s'.fired.count t = s.fired.count t

theorem rests_call (h : Stopped s t) {e : Event} (he : e ≠ .start t) :
    Rests t s (TimerPass.call s e) :=
  ⟨h.call he, congrArg (List.count t) (samePass_call s e).fired⟩

theorem rests_restart (h : Stopped s t) (u : ℕ) (tick : BitVec 32) (hard : Option HardPass)
    (soft : Option SoftPass) :
    Rests t s { restart u s with tick := tick, hard := hard, soft := soft } :=
  ⟨(h.restart u).pass tick hard soft _, congrArg (List.count t) (samePass_restart u s).fired⟩

theorem count_fired (hu : u ≠ t) (fired : List ℕ) : (fired ++ [u]).count t = fired.count t := by
  have hout : t ∉ [u] := fun hin ↦ hu (List.mem_singleton.mp hin).symm
  rw [List.count_append, List.count_eq_zero_of_not_mem hout, Nat.add_zero]

theorem rests_hardTurn (h : Stopped s t) : Rests t s (hardTurn s) := by
  have hquit : Rests t s { s with hard := none } := ⟨h.pass s.tick none s.soft s.fired, rfl⟩
  rw [TimerPass.hardTurn]
  split
  · exact hquit
  · rename_i u rest hlist
    split_ifs
    · have hne : u ≠ t := by
        rintro rfl
        exact h.notHard (by rw [hlist]; exact List.mem_cons_self)
      exact ⟨(h.remove u).pass s.tick _ s.soft _, count_fired hne s.fired⟩
    · exact hquit

theorem rests_softTurn (h : Stopped s t) {n : Option ℕ} {currentTick : BitVec 32}
    (hord : ∀ u, n = some u → due currentTick (s.timer u) → Linked s u) :
    Rests t s (softTurn n currentTick s) := by
  have hquit : Rests t s { s with soft := none } := ⟨h.pass s.tick s.hard none s.fired, rfl⟩
  cases n with
  | none => exact hquit
  | some u =>
    simp only [TimerPass.softTurn]
    split_ifs with hdue
    · have hne : u ≠ t := fun heq ↦ h.not_linked (heq ▸ hord u rfl hdue)
      exact ⟨(h.remove u).pass s.tick s.hard _ _, count_fired hne s.fired⟩
    · exact hquit

theorem rests_outside (h : Stopped s t) (hhard : s.hard = none) {e : Event}
    (hord : Orderly s e) (he : e ≠ .start t) : Rests t s (outside s e) := by
  cases e with
  | start u => exact rests_call h he
  | stop u => exact rests_call h he
  | control u cmd => exact rests_call h he
  | tickIncrease => exact ⟨h.pass _ s.hard s.soft s.fired, rfl⟩
  | hardCheck => exact ⟨h.pass s.tick _ s.soft s.fired, rfl⟩
  | hardTurn => exact ⟨h, rfl⟩
  | hardReturn => exact ⟨h, rfl⟩
  | softCheck =>
    rw [TimerPass.outside]
    split
    · exact ⟨h.pass s.tick s.hard _ s.fired, rfl⟩
    · exact ⟨h, rfl⟩
  | softTurn =>
    rw [TimerPass.outside]
    split
    · rename_i n currentTick hsoft
      exact rests_softTurn h fun u hn hdue ↦ hord hhard u currentTick (hn ▸ hsoft) hdue
    · exact ⟨h, rfl⟩
  | softReturn =>
    rw [TimerPass.outside]
    split
    · rename_i u n hsoft
      exact rests_restart h u (TimerPass.restart u s).tick (TimerPass.restart u s).hard _
    · exact ⟨h, rfl⟩

theorem rests_inHard (h : Stopped s t) {e : Event} (he : e ≠ .start t) :
    Rests t s (inHard u s e) := by
  cases e with
  | hardReturn => exact rests_restart h u (TimerPass.restart u s).tick _ (TimerPass.restart u s).soft
  | start v => exact rests_call h he
  | stop v => exact rests_call h he
  | control v cmd => exact rests_call h he
  | _ => exact ⟨h, rfl⟩

theorem rests_step (h : Stopped s t) {e : Event} (hord : Orderly s e) (he : e ≠ .start t) :
    Rests t s (step s e) := by
  rw [step]
  split_ifs
  · exact ⟨h, rfl⟩
  · cases hhard : s.hard with
    | none =>
      simp only [turn, hhard]
      exact rests_outside h hhard hord he
    | some pass =>
      cases pass with
      | calls u =>
        simp only [turn, hhard]
        exact rests_inHard h he
      | look =>
        simp only [turn, hhard]
        cases e with
        | hardTurn => exact rests_hardTurn h
        | _ => exact ⟨h, rfl⟩

theorem rests_run (h : Stopped s t) {es : List Event} (hord : Along step Orderly s es)
    (hes : ∀ e ∈ es, e ≠ .start t) : Rests t s (es.foldl step s) := by
  induction es generalizing s with
  | nil => exact ⟨h, rfl⟩
  | cons e es ih =>
    have hstep := rests_step h hord.1 (hes e List.mem_cons_self)
    have hrun := ih hstep.stopped hord.2 fun e' he' ↦ hes e' (List.mem_cons_of_mem e he')
    exact ⟨hrun.stopped, hrun.silent.trans hstep.silent⟩

theorem Inv.stop (h : Inv s) (hl : Linked s t) :
    (rtTimerStop t s).1 = .eok ∧ Stopped (rtTimerStop t s).2 t := by
  rw [rtTimerStop, if_pos (Lists.active h t hl)]
  refine ⟨rfl, ?_, ?_, ?_⟩
  · rw [TimerPass.deactivate, set_timer_self]
  · exact fun hin ↦ (h.hardNodup.mem_erase_iff.mp hin).1 rfl
  · exact fun hin ↦ (h.softNodup.mem_erase_iff.mp hin).1 rfl

/-- The flag says whether a timer is linked, but for timers whose function is
being called, and a linked timer can be stopped. -/
structure Truthful (s : TimerSystem) : Prop where
  flag : ∀ t, ¬ Calling s t → ((s.timer t).activated = true ↔ Linked s t)
  stop : ∀ t, Linked s t → (rtTimerStop t s).1 = .eok ∧ ¬ Linked (rtTimerStop t s).2 t

theorem Inv.truthful (h : Inv s) : Truthful s where
  flag t hC := ⟨Lists.linked h t hC, Lists.active h t⟩
  stop _ hl := ⟨(h.stop hl).1, (h.stop hl).2.not_linked⟩

/-- A linked timer that is stopped is not called any more before it is
started. -/
def Silent (s : TimerSystem) (es : List Event) : Prop :=
  ∀ pre t post, es = pre ++ .stop t :: post → Linked (pre.foldl step s) t →
    (pre.foldl step s).hard ≠ some .look → (∀ e ∈ post, e ≠ .start t) →
    (es.foldl step s).fired.count t = (pre.foldl step s).fired.count t

theorem step_stop (hhard : s.hard ≠ some .look) (hrun : s.halted = false) (t : ℕ) :
    step s (.stop t) = (rtTimerStop t s).2 := by
  rw [step, hrun, if_neg Bool.false_ne_true]
  cases hpass : s.hard with
  | none => simp only [turn, hpass, outside, call]
  | some pass =>
    cases pass with
    | calls u => simp only [turn, hpass, inHard, call]
    | look => exact absurd hpass hhard

theorem step_halted (hhalted : s.halted = true) (es : List Event) : es.foldl step s = s := by
  induction es with
  | nil => rfl
  | cons e es ih => rw [List.foldl_cons, step, if_pos hhalted, ih]

theorem Inv.silent (h : Inv s) {es : List Event} (hord : Along step Orderly s es) :
    Silent s es := by
  rintro pre t post rfl hl hhard hpost
  obtain ⟨hpre, hrest⟩ := (along_append s pre _).mp hord
  have hinv : Inv (pre.foldl step s) := run_invariant inv_step h hpre
  rw [List.foldl_append]
  generalize pre.foldl step s = s' at hl hhard hrest hinv ⊢
  obtain hhalted | hrun := Bool.eq_false_or_eq_true s'.halted
  · rw [step_halted hhalted]
  · obtain ⟨-, htail⟩ := hrest
    rw [List.foldl_cons, step_stop hhard hrun] at *
    rw [(rests_run (hinv.stop hl).2 htail hpost).silent]
    exact congrArg (List.count t) (samePass_call s' (.stop t)).fired

theorem truthful_run {initTick : ℕ → BitVec 32} {periodic soft : ℕ → Bool} {es : List Event}
    (hord : Along step Orderly (rtTimerInit initTick periodic soft) es) :
    Truthful (es.foldl step (rtTimerInit initTick periodic soft)) ∧
      Silent (rtTimerInit initTick periodic soft) es := by
  have hinit := inv_init initTick periodic soft
  exact ⟨(run_invariant inv_step hinit hord).truthful, hinit.silent hord⟩

instance (s : TimerSystem) (t : ℕ) : Decidable (Linked s t) :=
  inferInstanceAs (Decidable (t ∈ timerList s t))

def orderlyRun : List Event :=
  [.start 0, .start 1, .tickIncrease, .hardCheck, .hardTurn, .start 2, .hardReturn, .hardTurn,
    .tickIncrease, .softCheck, .softTurn, .stop 0, .softReturn, .softTurn]

theorem truthful_orderlyRun :
    Truthful (orderlyRun.foldl step (rtTimerInit (fun t ↦ BitVec.ofNat 32 (t + 1))
      (fun _ ↦ true) (· = 1))) := by
  refine (truthful_run ?_).1
  simp only [orderlyRun, along_cons, along_nil, Orderly, and_true, true_and]
  refine ⟨?_, ?_, ?_, ?_⟩
  · intro t ht _
    cases ht
    decide
  · intro _ t currentTick ht _
    cases ht
    decide
  · intro _ t n ht _
    cases ht
    decide
  · intro _ t currentTick ht
    cases ht

def restarted : List Event :=
  [.start 0, .tickIncrease, .hardCheck, .hardTurn, .start 0, .hardReturn, .hardTurn]

def stoppedLate : List Event :=
  [.start 0, .start 1, .tickIncrease, .softCheck, .softTurn, .stop 1, .softReturn, .softTurn]

theorem not_truthful :
    ¬ Truthful (restarted.foldl step (rtTimerInit (fun _ ↦ 1) (fun _ ↦ false) fun _ ↦ false)) ∧
      ¬ Silent (rtTimerInit (fun _ ↦ 1) (fun _ ↦ false) fun _ ↦ true) stoppedLate := by
  refine ⟨?_, ?_⟩
  · intro h
    have hidle : ¬ Calling (restarted.foldl step
        (rtTimerInit (fun _ ↦ 1) (fun _ ↦ false) fun _ ↦ false)) 0 := by
      rintro (hhard | ⟨n, hsoft⟩)
      · exact absurd hhard (by decide)
      · cases hsoft
    exact absurd ((h.flag 0 hidle).mpr (by decide)) (by decide)
  · intro h
    have hcount := h (stoppedLate.take 5) 1 [.softReturn, .softTurn] rfl (by decide) (by decide)
      (by simp)
    exact absurd hcount (by decide)

end GiantGecko.Rtos.TimerFlag
