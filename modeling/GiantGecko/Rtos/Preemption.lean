import GiantGecko.Foundation.Transition
import GiantGecko.Rtos.MutexMoves

namespace GiantGecko.Rtos.Preemption

open Foundation.Transition Scheduler Ipc Interleaving Outcome MutexMoves

def Returns (k : Kernel) (e : Input) : Prop :=
  ((∃ c, e = .call c) ∨ e = .go) ∧ (step k e).pc (rtThreadSelf k) = .user

/-- Whenever a call returns to its thread, no READY thread is more urgent than the one
that runs. -/
def Preempts (k : Kernel) (e : Input) : Prop := Returns k e → MostUrgent (step k e).sched

/-- Whoever gives back a mutex that nobody waits for, and so gets its old priority back,
is still as urgent as every READY thread. -/
def KeepsUp (k : Kernel) (e : Input) : Prop :=
  ∀ m, move k e = some (.release m) → k.sched.queue (.mutex m) = [] →
    ∀ t, k.sched.stat t = .ready → (k.mutex m).originalPriority ≤ k.sched.currentPriority t

/-- Either `rt_schedule` comes next or no READY thread is more urgent than the one that
runs. -/
structure Calm (k : Kernel) : Prop where
  inv : Inv k
  urgent : (∃ c, k.pc (rtThreadSelf k) = .schedule c) ∨ MostUrgent k.sched

variable {k k' : Kernel} {e : Input} {m : ℕ}

theorem mostUrgent_iff_of_release (h : Makes k k' (some (.release m))) (hrun : Running k)
    (hq : k.sched.queue (.mutex m) = []) :
    MostUrgent k'.sched ↔
      ∀ t, k.sched.stat t = .ready → (k.mutex m).originalPriority ≤ k.sched.currentPriority t := by
  have hends := h.ends ⟨m, rfl, hq⟩
  have hstat : k'.sched.stat = k.sched.stat := h.kept.schedules.resolve_left (by simp [hends])
  have hpriority : k'.sched.currentPriority =
      Function.update k.sched.currentPriority (rtThreadSelf k) (k.mutex m).originalPriority := by
    have hview := congrArg View.priority h.view
    simp only [actOption, Option.elim_some, act, view, hq] at hview
    exact hview
  have hne (t : ℕ) (ht : k.sched.stat t = .ready) : t ≠ rtThreadSelf k := by
    rintro rfl
    simp [hrun.running] at ht
  have hself : k'.sched.currentThread = rtThreadSelf k := h.kept.self
  simp only [MostUrgent, hstat, hpriority, hself, Function.update_self]
  refine forall_congr' fun t ↦ ?_
  constructor
  · intro hle ht
    simpa only [Function.update_of_ne (hne t ht)] using hle ht
  · intro hle ht
    simpa only [Function.update_of_ne (hne t ht)] using hle ht

theorem calm_step (hk : Calm k) (hC : KeepsUp k e) : Calm (step k e) := by
  refine ⟨inv_step hk.inv e, ?_⟩
  obtain ⟨hact, h⟩ | h | ⟨hs, -, hp, -⟩ := step_cases hk.inv e
  · rw [h.kept.self]
    obtain hnext | hsame | ⟨m, hm, hq⟩ := h.steady
    · exact .inl hnext
    · refine h.kept.schedules.imp_right fun hstat ↦ ?_
      have hurgent := hk.urgent.resolve_left fun ⟨c, hc⟩ ↦ hact.pc c hc
      have hself : (step k e).sched.currentThread = k.sched.currentThread := h.kept.self
      simpa only [MostUrgent, hstat, hsame, hself] using hurgent
    · exact .inr ((mostUrgent_iff_of_release (hm ▸ h) hact.toRunning hq).mpr (hC m hm hq))
  · exact .inr h.settled.mostUrgent
  · simpa only [rtThreadSelf, hs, hp] using hk.urgent

theorem self_or_mostUrgent (hk : Inv k) (e : Input) :
    rtThreadSelf (step k e) = rtThreadSelf k ∨ MostUrgent (step k e).sched := by
  obtain ⟨-, h⟩ | h | ⟨hs, -, -, -⟩ := step_cases hk e
  · exact .inl h.kept.self
  · exact .inr h.settled.mostUrgent
  · exact .inl (congrArg Sched.currentThread hs)

theorem preempts_iff_keepsUp (hk : Calm k) (e : Input) : Preempts k e ↔ KeepsUp k e := by
  constructor
  · intro h m hm hq
    obtain ⟨hact, hmakes, rfl⟩ := makes_of_release hk.inv hm
    refine (mostUrgent_iff_of_release hmakes hact.toRunning hq).mp (h ⟨.inl ⟨_, rfl⟩, ?_⟩)
    exact hmakes.ends ⟨m, rfl, hq⟩
  · intro hC hreturns
    obtain hself | hurgent := self_or_mostUrgent hk.inv e
    · refine (calm_step hk hC).urgent.resolve_left ?_
      rintro ⟨c, hc⟩
      rw [hself, hreturns.2] at hc
      cases hc
    · exact hurgent

theorem calm_boot (c : Setup) : Calm (boot c) := by
  refine ⟨inv_boot c, .inr ?_⟩
  intro t ht
  simp only [boot] at ht ⊢
  split_ifs at ht with hidle
  rw [hidle, c.priority_idle]
  exact Nat.le_pred_of_lt (c.priority_lt mainThread)

/-- In every run the most urgent thread runs whenever a call returns, if and only if
nobody gives back a mutex that nobody waits for and gets a priority less urgent than
that of a READY thread. -/
theorem preempts_iff (c : Setup) (es : List Input) :
    Along step Preempts (boot c) es ↔ Along step KeepsUp (boot c) es :=
  along_congr (fun _ _ hk hC ↦ calm_step hk hC) (fun _ e hk ↦ preempts_iff_keepsUp hk e)
    (calm_boot c) es

def waitedInVain : List Input :=
  [.call (.mutexTake 0 0xFFFFFFFF), .call (.startup 2), .go, .call (.mutexTake 0 5), .go, .go,
    .call (.startup 3), .go, .go, .timeout 2, .go, .call .sleep, .go]

theorem not_preempts :
    ¬Along step Preempts (boot threeThreads) (waitedInVain ++ [.call (.mutexRelease 0)]) := by
  intro h
  rw [along_append] at h
  have hurgent := h.2.1 ⟨.inl ⟨_, rfl⟩, by decide +kernel⟩ 3 (by decide +kernel)
  revert hurgent
  decide +kernel

end GiantGecko.Rtos.Preemption
