import GiantGecko.Foundation.Transition
import GiantGecko.Rtos.Ipc
import GiantGecko.Rtos.Waiting

namespace GiantGecko.Rtos.EventGroups

open Foundation.Transition Waiting
open Scheduler (Err IpcFlag)
open Ipc (EventGroup EventOption)

structure Grant where
  set : BitVec 32
  wanted : BitVec 32
  option : EventOption

def Grant.bits (g : Grant) : BitVec 32 := g.set &&& g.wanted

/-- The arguments of a receive that waits. How it has been granted is not in the source. -/
structure Recv where
  wanted : BitVec 32
  option : EventOption
  grant : Option Grant

structure Return where
  wanted : BitVec 32
  option : EventOption
  result : Err
  recved : Option (BitVec 32)
  grant : Option Grant

inductive Entry
  | sent (set : BitVec 32)
  | granted (g : Grant)

/-- An event group with the threads. The journal of what has been sent and granted, last
to first, is not in the source, nor is the list of what receives have returned. -/
structure System where
  event : EventGroup
  threads : Threads Unit Recv
  eventSet : ℕ → BitVec 32
  eventInfo : ℕ → EventOption
  journal : List Entry
  returned : List Return

def record (g : Grant) (s : System) : System := { s with journal := .granted g :: s.journal }

def credit (t : ℕ) (g : Grant) (x : Threads Unit Recv) : Threads Unit Recv :=
  match (x.thread t).call with
  | some c => setCall t (some { c with grant := some g }) x
  | none => x

def grantTo (t : ℕ) (g : Grant) (s : System) : System :=
  record g
    { s with
      event :=
        if (s.eventInfo t).clear then { s.event with set := s.event.set &&& ~~~s.eventSet t }
        else s.event
      threads := credit t g (rtThreadResume t s.threads) }

/-- One turn of the walk along the waiters. -/
def visit (s : System) (t : ℕ) : System :=
  let g : Grant := ⟨s.event.set, s.eventSet t, s.eventInfo t⟩
  if (s.eventInfo t).conj then
    if s.eventSet t &&& s.event.set = s.eventSet t then grantTo t g s else s
  else if (s.eventInfo t).disj then
    if s.eventSet t &&& s.event.set ≠ 0 then
      grantTo t g
        { s with eventSet := Function.update s.eventSet t (s.eventSet t &&& s.event.set) }
    else s
  else s

def rtEventSend (set : BitVec 32) (s : System) : System :=
  if set = 0 then s
  else
    let s := { s with event := { s.event with set := s.event.set ||| set }
                      journal := .sent set :: s.journal }
    (s.threads.queue ()).foldl visit s

def answer (r : Return) (s : System) : System := { s with returned := r :: s.returned }

def rtEventRecv (t : ℕ) (set : BitVec 32) (option : EventOption) (timeout : BitVec 32)
    (priority : ℕ → ℕ) (s : System) : System :=
  if set = 0 then answer ⟨set, option, .error, none, none⟩ s
  else if option.conj ∨ option.disj then
    let s := { s with threads := setError t .eok s.threads }
    let g : Grant := ⟨s.event.set, set, option⟩
    if option.met s.event.set set then
      answer ⟨set, option, (s.threads.thread t).error, some (s.event.set &&& set), some g⟩
        (record g
          { s with
            event :=
              if option.clear then { s.event with set := s.event.set &&& ~~~set } else s.event })
    else if timeout = 0 then
      let s := { s with threads := setError t .etimeout s.threads }
      answer ⟨set, option, (s.threads.thread t).error, none, none⟩ s
    else
      { s with
        eventSet := Function.update s.eventSet t set
        eventInfo := Function.update s.eventInfo t option
        threads := waitOn () s.event.flag priority t timeout ⟨set, option, none⟩ s.threads }
  else s

def goOn (t : ℕ) (s : System) : System :=
  match (s.threads.thread t).call with
  | some c =>
    let err := (s.threads.thread t).error
    let s := { s with threads := setCall t none s.threads }
    if err ≠ .eok then answer ⟨c.wanted, c.option, err, none, c.grant⟩ s
    else answer ⟨c.wanted, c.option, err, some (s.eventSet t), c.grant⟩ s
  | none => s

inductive Event
  | send (set : BitVec 32)
  | recv (t : ℕ) (set : BitVec 32) (option : EventOption) (timeout : BitVec 32) (priority : ℕ → ℕ)
  | goOn (t : ℕ)
  | timeout (t : ℕ)

def step (s : System) : Event → System
  | .send set => rtEventSend set s
  | .recv t set option timeout priority =>
    if callable (some t) s.threads then rtEventRecv t set option timeout priority s else s
  | .goOn t => if (s.threads.thread t).suspended then s else goOn t s
  | .timeout t => { s with threads := timerEnds t s.threads }

def init (flag : IpcFlag) : System where
  event := ⟨0, flag⟩
  threads := noneWaits
  eventSet _ := 0
  eventInfo _ := ⟨false, false, false⟩
  journal := []
  returned := []

def Unspent (i : ℕ) : List Entry → Prop
  | [] => False
  | .sent set :: j => set.getLsbD i = true ∨ Unspent i j
  | .granted g :: j => Unspent i j ∧ ¬(g.option.clear = true ∧ g.bits.getLsbD i = true)

/-- The condition of the receive is satisfied, by bits that nobody has consumed. -/
structure Fair (g : Grant) (j : List Entry) : Prop where
  met : g.option.met g.set g.wanted = true
  unspent : ∀ i, g.bits.getLsbD i = true → Unspent i j

/-- A receive has been granted, and reports the bits of its grant. -/
structure Reported (r : Return) (g : Grant) (j : List Entry) : Prop where
  grant : r.grant = some g
  journal : .granted g ∈ j
  wanted : g.wanted = r.wanted
  option : g.option = r.option
  recved : r.recved = some g.bits

/-- No waiter is kept waiting, every grant is fair, and what returns well has been
granted. -/
structure Sound (s : System) : Prop where
  unmet : ∀ t c, (s.threads.thread t).suspended = true → (s.threads.thread t).call = some c →
    c.option.met s.event.set c.wanted = false
  fair : ∀ g j, .granted g :: j <:+ s.journal → Fair g j
  returned : ∀ r ∈ s.returned, r.result = .eok → ∃ g, Reported r g s.journal

section Bits

variable {option : EventOption} {set set' wanted m : BitVec 32}

theorem met_of_subset (hsub : set' &&& set = set') (h : option.met set' wanted = true) :
    option.met set wanted = true := by
  rw [EventOption.met] at h ⊢
  split_ifs at h ⊢
  · rw [beq_iff_eq] at h ⊢
    have hwanted : set &&& (set' &&& wanted) = set' &&& wanted := by
      rw [← BitVec.and_assoc, BitVec.and_comm set, hsub]
    rwa [h] at hwanted
  · rw [bne_iff_ne] at h ⊢
    intro hzero
    apply h
    rw [← hsub, BitVec.and_assoc, hzero]
    exact BitVec.and_zero

theorem clear_subset : (set &&& ~~~m) &&& set = set &&& ~~~m := by
  rw [BitVec.and_comm, ← BitVec.and_assoc, BitVec.and_self]

theorem getLsbD_clear {i : ℕ} :
    (set &&& ~~~m).getLsbD i = true ↔ set.getLsbD i = true ∧ ¬(set &&& m).getLsbD i = true := by
  simp only [BitVec.getLsbD_and, BitVec.getLsbD_not, Bool.and_eq_true, Bool.not_eq_true',
    decide_eq_true_eq]
  constructor
  · rintro ⟨hset, -, hm⟩
    refine ⟨hset, ?_⟩
    rintro ⟨-, hm'⟩
    rw [hm'] at hm
    cases hm
  · rintro ⟨hset, hm⟩
    exact ⟨hset, BitVec.lt_of_getLsbD hset, by simpa [hset] using hm⟩

end Bits

def Current (set : BitVec 32) (j : List Entry) : Prop :=
  ∀ i, set.getLsbD i = true ↔ Unspent i j

/-- The threads with the fields that the walk looks at: those of the call while it waits,
then what it is to report. -/
structure Filed (s : System) : Prop where
  waiting : ∀ t c, (s.threads.thread t).suspended = true → (s.threads.thread t).call = some c →
    s.eventSet t = c.wanted ∧ s.eventInfo t = c.option ∧
      (c.option.conj = true ∨ c.option.disj = true)
  granted : ∀ t c, (s.threads.thread t).call = some c → (s.threads.thread t).suspended = false →
    (s.threads.thread t).error = .eok → ∃ g, c.grant = some g ∧ .granted g ∈ s.journal ∧
      g.wanted = c.wanted ∧ g.option = c.option ∧ s.eventSet t = g.bits

structure Books (s : System) : Prop where
  parked : Parked (fun _ ↦ some ()) s.threads
  filed : Filed s
  current : Current s.event.set s.journal
  fair : ∀ g j, .granted g :: j <:+ s.journal → Fair g j
  returned : ∀ r ∈ s.returned, r.result = .eok → ∃ g, Reported r g s.journal

def Unmet (rest : List ℕ) (s : System) : Prop :=
  ∀ t c, t ∉ rest → (s.threads.thread t).suspended = true → (s.threads.thread t).call = some c →
    c.option.met s.event.set c.wanted = false

structure Inv (s : System) : Prop extends Books s where
  unmet : Unmet [] s

variable {s : System} {t : ℕ} {set : BitVec 32} {j : List Entry} {g : Grant}

theorem Inv.sound (h : Inv s) : Sound s where
  unmet t c := h.unmet t c List.not_mem_nil
  fair := h.fair
  returned := h.returned

theorem Current.sent (h : Current set j) (sent : BitVec 32) :
    Current (set ||| sent) (.sent sent :: j) := by
  intro i
  rw [BitVec.getLsbD_or, Bool.or_eq_true, h i, Unspent, or_comm]

theorem Current.granted (h : Current set j) {m : BitVec 32}
    (hm : set &&& m = g.bits) :
    Current (if g.option.clear then set &&& ~~~m else set) (.granted g :: j) := by
  intro i
  rw [Unspent]
  split_ifs with hclear
  · rw [getLsbD_clear, hm, h i]
    simp [hclear]
  · simp [hclear, h i]

theorem Current.fair (h : Current set j) (hg : g.set = set) (hmet : g.option.met set g.wanted = true) :
    Fair g j where
  met := by rwa [hg]
  unspent i hi := by
    rw [Grant.bits, BitVec.getLsbD_and, Bool.and_eq_true, hg] at hi
    exact (h i).mp hi.1

theorem fair_cons {e : Entry} (h : ∀ g j', .granted g :: j' <:+ j → Fair g j')
    (he : ∀ g, e = .granted g → Fair g j) :
    ∀ g j', .granted g :: j' <:+ e :: j → Fair g j' := by
  intro g j' hsuffix
  obtain heq | hsuffix := List.suffix_cons_iff.mp hsuffix
  · obtain ⟨rfl, rfl⟩ := List.cons.inj heq
    exact he g rfl
  · exact h g j' hsuffix

theorem Reported.cons {r : Return} (h : Reported r g j) (e : Entry) : Reported r g (e :: j) :=
  ⟨h.grant, List.mem_cons_of_mem e h.journal, h.wanted, h.option, h.recved⟩

theorem returned_cons {l : List Return} (h : ∀ r ∈ l, r.result = .eok → ∃ g, Reported r g j)
    (e : Entry) : ∀ r ∈ l, r.result = .eok → ∃ g, Reported r g (e :: j) := by
  intro r hr hresult
  obtain ⟨g, hg⟩ := h r hr hresult
  exact ⟨g, hg.cons e⟩

theorem Books.send (h : Books s) (set : BitVec 32) :
    Books { s with event := { s.event with set := s.event.set ||| set }
                   journal := .sent set :: s.journal } where
  parked := h.parked
  filed := by
    refine ⟨h.filed.waiting, ?_⟩
    intro t c hc hs he
    obtain ⟨g, hg, hmem, hrest⟩ := h.filed.granted t c hc hs he
    exact ⟨g, hg, List.mem_cons_of_mem _ hmem, hrest⟩
  current := h.current.sent set
  fair := fair_cons h.fair fun _ hg ↦ by cases hg
  returned := returned_cons h.returned _

theorem credit_resume {x : Threads Unit Recv} {c : Recv} (ht : (x.thread t).suspended = true)
    (hc : (x.thread t).call = some c) :
    credit t g (rtThreadResume t x) =
      ⟨Foundation.Intrusive.unlink t x.queue,
        Function.update x.thread t
          ⟨(x.thread t).error, false, false, some { c with grant := some g }⟩⟩ := by
  rw [resume_of_suspended ht]
  simp [credit, hc, setCall, Threads.set]

theorem Books.grant (h : Books s) {c : Recv} (ht : t ∈ s.threads.queue ())
    (hc : (s.threads.thread t).call = some c) (hset : g.set = s.event.set)
    (hwanted : g.wanted = c.wanted) (hoption : g.option = c.option)
    (hmet : c.option.met s.event.set c.wanted = true) :
    Books (grantTo t g { s with eventSet := Function.update s.eventSet t g.bits }) := by
  obtain ⟨hsuspended, herror, -⟩ := h.parked.waiting () t ht
  obtain ⟨-, hinfo, -⟩ := h.filed.waiting t c hsuspended hc
  have hbits : s.event.set &&& g.bits = g.bits := by
    rw [Grant.bits, hset, ← BitVec.and_assoc, BitVec.and_self]
  have hthreads := credit_resume (g := g) hsuspended hc
  have hcurrent := h.current.granted (g := g) hbits
  refine ⟨?_, ⟨?_, ?_⟩, ?_, ?_, ?_⟩
  · simp only [grantTo, record, hthreads]
    exact h.parked.leave rfl rfl
  · intro u d
    simp only [grantTo, record, hthreads]
    obtain rfl | hne := eq_or_ne u t
    · simp
    · simpa [hne] using h.filed.waiting u d
  · intro u d
    simp only [grantTo, record, hthreads]
    obtain rfl | hne := eq_or_ne u t
    · simp only [Function.update_self, Option.some.injEq]
      rintro rfl - -
      exact ⟨g, rfl, List.mem_cons_self, hwanted, hoption, rfl⟩
    · simp only [Function.update_of_ne hne]
      intro hd hs he
      obtain ⟨g', hg', hmem, hrest⟩ := h.filed.granted u d hd hs he
      exact ⟨g', hg', List.mem_cons_of_mem _ hmem, hrest⟩
  · simp only [grantTo, record, hinfo, Function.update_self]
    rw [hoption] at hcurrent
    split_ifs with hclear
    · simpa [hclear] using hcurrent
    · simpa [hclear] using hcurrent
  · refine fair_cons h.fair ?_
    intro g' hg'
    cases hg'
    exact h.current.fair hset (by rw [hoption, hwanted]; exact hmet)
  · exact returned_cons h.returned _

theorem grantTo_subset {s : System} :
    (grantTo t g s).event.set &&& s.event.set = (grantTo t g s).event.set := by
  simp only [grantTo, record]
  split_ifs
  · exact clear_subset
  · exact BitVec.and_self

/-- The walk has come to some waiters, and all others have to wait on. -/
structure Walking (rest : List ℕ) (s : System) : Prop where
  books : Books s
  nodup : rest.Nodup
  waits : ∀ t ∈ rest, t ∈ s.threads.queue ()
  unmet : Unmet rest s

theorem Walking.skip {rest : List ℕ} (h : Walking (t :: rest) s) {c : Recv}
    (hc : (s.threads.thread t).call = some c) (hmet : c.option.met s.event.set c.wanted = false) :
    Walking rest s where
  books := h.books
  nodup := (List.nodup_cons.mp h.nodup).2
  waits u hu := h.waits u (List.mem_cons_of_mem t hu)
  unmet := by
    intro u d hu hs hd
    obtain rfl | hne := eq_or_ne u t
    · cases hc.symm.trans hd
      exact hmet
    · exact h.unmet u d (by simp [hne, hu]) hs hd

theorem Walking.grant {rest : List ℕ} (h : Walking (t :: rest) s) {c : Recv}
    (hc : (s.threads.thread t).call = some c) (hset : g.set = s.event.set)
    (hwanted : g.wanted = c.wanted) (hoption : g.option = c.option)
    (hmet : c.option.met s.event.set c.wanted = true) :
    Walking rest (grantTo t g { s with eventSet := Function.update s.eventSet t g.bits }) := by
  have ht := h.waits t List.mem_cons_self
  obtain ⟨hout, hnodup⟩ := List.nodup_cons.mp h.nodup
  have hthreads := credit_resume (g := g) (h.books.parked.waiting () t ht).1 hc
  refine ⟨h.books.grant ht hc hset hwanted hoption hmet, hnodup, ?_, ?_⟩
  · intro u hu
    simp only [grantTo, record, hthreads]
    exact Foundation.Intrusive.mem_unlink.mpr
      ⟨h.waits u (List.mem_cons_of_mem t hu), fun heq ↦ hout (heq ▸ hu)⟩
  · intro u d hu
    have hsubset := grantTo_subset (t := t) (g := g)
      (s := { s with eventSet := Function.update s.eventSet t g.bits })
    have hthread : (grantTo t g { s with eventSet := Function.update s.eventSet t g.bits }).threads =
        _ := hthreads
    rw [hthread]
    obtain rfl | hne := eq_or_ne u t
    · simp
    · simp only [Function.update_of_ne hne]
      intro hs hd
      have hbefore := h.unmet u d (by simp [hne, hu]) hs hd
      by_contra hafter
      rw [met_of_subset hsubset (by simpa using hafter)] at hbefore
      cases hbefore

theorem Walking.visit {rest : List ℕ} (h : Walking (t :: rest) s) : Walking rest (visit s t) := by
  obtain ⟨hsuspended, -, c, hc, -⟩ := h.books.parked.waiting () t (h.waits t List.mem_cons_self)
  obtain ⟨hset, hinfo, hkind⟩ := h.books.filed.waiting t c hsuspended hc
  rw [EventGroups.visit, hset, hinfo]
  by_cases hconj : c.option.conj = true
  · rw [if_pos hconj]
    by_cases hall : c.wanted &&& s.event.set = c.wanted
    · rw [if_pos hall]
      have hmet : c.option.met s.event.set c.wanted = true := by
        rw [EventOption.met, if_pos hconj, beq_iff_eq, BitVec.and_comm, hall]
      have hgrant := h.grant (g := ⟨s.event.set, c.wanted, c.option⟩) hc rfl rfl rfl hmet
      have hbits : Grant.bits ⟨s.event.set, c.wanted, c.option⟩ = s.eventSet t := by
        rw [Grant.bits, BitVec.and_comm, hall, hset]
      rwa [hbits, Function.update_eq_self] at hgrant
    · rw [if_neg hall]
      refine h.skip hc ?_
      rw [EventOption.met, if_pos hconj, beq_eq_false_iff_ne, BitVec.and_comm]
      exact hall
  · have hdisj := hkind.resolve_left hconj
    rw [if_neg hconj, if_pos hdisj]
    by_cases hany : c.wanted &&& s.event.set ≠ 0
    · rw [if_pos hany]
      have hmet : c.option.met s.event.set c.wanted = true := by
        rw [EventOption.met, if_neg hconj, bne_iff_ne, BitVec.and_comm]
        exact hany
      have hgrant := h.grant (g := ⟨s.event.set, c.wanted, c.option⟩) hc rfl rfl rfl hmet
      rwa [Grant.bits, BitVec.and_comm] at hgrant
    · rw [if_neg hany]
      refine h.skip hc ?_
      rw [EventOption.met, if_neg hconj, bne_eq_false_iff_eq, BitVec.and_comm]
      exact not_not.mp hany

theorem Walking.walk {rest : List ℕ} (h : Walking rest s) : Inv (rest.foldl EventGroups.visit s) := by
  induction rest generalizing s with
  | nil => exact ⟨h.books, h.unmet⟩
  | cons t rest ih => exact ih h.visit

theorem inv_send (h : Inv s) (set : BitVec 32) : Inv (rtEventSend set s) := by
  rw [rtEventSend]
  split_ifs
  · exact h
  · have hbooks := h.toBooks.send set
    refine Walking.walk ⟨hbooks, h.parked.linked.nodup (), fun t ht ↦ ht, ?_⟩
    intro t c ht hs
    obtain ⟨-, -, hon⟩ := h.parked.suspended t hs
    exact absurd (hon () rfl) ht

theorem Filed.other (h : Filed s) (w : Waiter Recv) (hcall : w.call = none) :
    Filed { s with threads := s.threads.set t w } := by
  refine ⟨?_, ?_⟩
  · intro u c
    obtain rfl | hne := eq_or_ne u t
    · simp [hcall]
    · simpa [hne] using h.waiting u c
  · intro u c
    obtain rfl | hne := eq_or_ne u t
    · simp [hcall]
    · simpa [hne] using h.granted u c

theorem inv_other (h : Inv s) (ht : (s.threads.thread t).suspended = false) {w : Waiter Recv}
    (hcall : w.call = none) (hsuspended : w.suspended = false) (htimer : w.timer = false) :
    Inv { s with threads := s.threads.set t w } where
  parked := h.parked.set ht hsuspended htimer
  filed := h.filed.other w hcall
  current := h.current
  fair := h.fair
  returned := h.returned
  unmet := by
    intro u c
    obtain rfl | hne := eq_or_ne u t
    · simp [hcall]
    · simpa [hne] using h.unmet u c

theorem inv_setError (h : Inv s) (ht : (s.threads.thread t).call = none) (e : Err) :
    Inv { s with threads := setError t e s.threads } :=
  inv_other h (h.parked.idle ht) ht (h.parked.idle ht) (h.parked.timer_eq (h.parked.idle ht))

theorem inv_answer (h : Inv s) {r : Return}
    (hr : r.result = .eok → ∃ g, Reported r g s.journal) : Inv (answer r s) where
  parked := h.parked
  filed := ⟨h.filed.waiting, h.filed.granted⟩
  current := h.current
  fair := h.fair
  returned := List.forall_mem_cons.mpr ⟨hr, h.returned⟩
  unmet := h.unmet

theorem inv_record (h : Inv s) (hset : g.set = s.event.set)
    (hmet : g.option.met s.event.set g.wanted = true) :
    Inv (record g
      { s with
        event :=
          if g.option.clear then { s.event with set := s.event.set &&& ~~~g.wanted }
          else s.event }) := by
  have hbits : s.event.set &&& g.wanted = g.bits := by rw [Grant.bits, hset]
  have hcurrent := h.current.granted (g := g) hbits
  refine ⟨⟨h.parked, ⟨h.filed.waiting, ?_⟩, ?_, ?_, returned_cons h.returned _⟩, ?_⟩
  · intro t c hc hs he
    obtain ⟨g', hg', hmem, hrest⟩ := h.filed.granted t c hc hs he
    exact ⟨g', hg', List.mem_cons_of_mem _ hmem, hrest⟩
  · simp only [record]
    split_ifs with hclear
    · simpa [hclear] using hcurrent
    · simpa [hclear] using hcurrent
  · refine fair_cons h.fair ?_
    intro g' hg'
    cases hg'
    exact h.current.fair hset hmet
  · intro t c ht hs hc
    have hbefore := h.unmet t c ht hs hc
    simp only [record]
    split_ifs
    · by_contra hafter
      rw [met_of_subset clear_subset (by simpa using hafter)] at hbefore
      cases hbefore
    · exact hbefore

theorem inv_wait (h : Inv s) (ht : (s.threads.thread t).call = none)
    (herror : (s.threads.thread t).error = .eok) {option : EventOption} {timeout : BitVec 32}
    {priority : ℕ → ℕ} (hkind : option.conj = true ∨ option.disj = true)
    (hmet : option.met s.event.set set = false) :
    Inv
      { s with
        eventSet := Function.update s.eventSet t set
        eventInfo := Function.update s.eventInfo t option
        threads := waitOn () s.event.flag priority t timeout ⟨set, option, none⟩ s.threads } := by
  have hidle := h.parked.idle ht
  refine ⟨⟨h.parked.wait hidle herror rfl, ?_, h.current, h.fair, h.returned⟩, ?_⟩
  · rw [waitOn_eq hidle]
    refine ⟨?_, ?_⟩
    · intro u c
      obtain rfl | hne := eq_or_ne u t
      · simp only [Function.update_self, Option.some.injEq]
        rintro - rfl
        exact ⟨rfl, rfl, hkind⟩
      · simpa [hne] using h.filed.waiting u c
    · intro u c
      obtain rfl | hne := eq_or_ne u t
      · simp
      · simpa [hne] using h.filed.granted u c
  · rw [waitOn_eq hidle]
    intro u c
    obtain rfl | hne := eq_or_ne u t
    · simp only [Function.update_self, Option.some.injEq]
      rintro - - rfl
      exact hmet
    · simpa [hne] using h.unmet u c

theorem inv_recv (h : Inv s) (ht : (s.threads.thread t).call = none) {option : EventOption}
    {timeout : BitVec 32} {priority : ℕ → ℕ} : Inv (rtEventRecv t set option timeout priority s) := by
  have hs := inv_setError h ht .eok
  rw [rtEventRecv]
  by_cases hset : set = 0
  · rw [if_pos hset]
    exact inv_answer h fun hr ↦ by cases hr
  rw [if_neg hset]
  by_cases hkind : option.conj = true ∨ option.disj = true
  · rw [if_pos hkind]
    by_cases hmet : option.met s.event.set set = true
    · simp only [hmet, if_true]
      refine inv_answer (inv_record hs (g := ⟨s.event.set, set, option⟩) rfl hmet) ?_
      intro _
      exact ⟨_, rfl, List.mem_cons_self, rfl, rfl, rfl⟩
    · simp only [hmet, if_false, Bool.false_eq_true]
      by_cases htimeout : timeout = 0
      · rw [if_pos htimeout]
        refine inv_answer (inv_setError hs (by simpa [setError] using ht) .etimeout) ?_
        intro hr
        simp [setError] at hr
      · rw [if_neg htimeout]
        refine inv_wait hs (by simpa [setError] using ht) (by simp [setError]) hkind ?_
        simpa using hmet
  · rw [if_neg hkind]
    exact h

theorem inv_goOn (h : Inv s) (ht : (s.threads.thread t).suspended = false) : Inv (goOn t s) := by
  rw [goOn]
  split
  · rename_i c hc
    have hback : Inv { s with threads := setCall t none s.threads } :=
      inv_other h ht rfl ht (h.parked.timer_eq ht)
    by_cases herror : (s.threads.thread t).error = .eok
    · simp only [herror, ne_eq, not_true_eq_false, if_false]
      refine inv_answer hback ?_
      intro _
      obtain ⟨g, hg, hmem, hwanted, hoption, hbits⟩ := h.filed.granted t c hc ht herror
      exact ⟨g, hg, hmem, hwanted, hoption, congrArg some hbits⟩
    · simp only [ne_eq, herror, not_false_eq_true, if_true]
      exact inv_answer hback fun hr ↦ absurd hr herror
  · exact h

theorem inv_timeout (h : Inv s) (t : ℕ) : Inv { s with threads := timerEnds t s.threads } := by
  refine ⟨⟨h.parked.timerEnds t, ?_, h.current, h.fair, h.returned⟩, ?_⟩
  · rw [timerEnds]
    split_ifs
    · refine ⟨?_, ?_⟩
      · intro u c
        obtain rfl | hne := eq_or_ne u t
        · simp [rtThreadTimeout]
        · simpa [rtThreadTimeout, hne] using h.filed.waiting u c
      · intro u c
        obtain rfl | hne := eq_or_ne u t
        · simp [rtThreadTimeout]
        · simpa [rtThreadTimeout, hne] using h.filed.granted u c
    · exact h.filed
  · rw [timerEnds]
    split_ifs
    · intro u c
      obtain rfl | hne := eq_or_ne u t
      · simp [rtThreadTimeout]
      · simpa [rtThreadTimeout, hne] using h.unmet u c
    · exact h.unmet

theorem inv_step (s : System) (e : Event) (h : Inv s) : Inv (step s e) := by
  cases e with
  | send set => exact inv_send h set
  | recv t set option timeout priority =>
    rw [step]
    split_ifs with hcall
    · exact inv_recv h (Option.isNone_iff_eq_none.mp hcall)
    · exact h
  | goOn t =>
    rw [step]
    split_ifs with hsuspended
    · exact h
    · exact inv_goOn h (by simpa using hsuspended)
  | timeout t => exact inv_timeout h t

theorem inv_init (flag : IpcFlag) : Inv (init flag) where
  parked := parked_noneWaits
  filed := ⟨fun _ _ ht ↦ absurd ht Bool.false_ne_true, fun _ _ hc ↦ by cases hc⟩
  current i := by simp [init, Unspent]
  fair g j hj := by simp [init] at hj
  returned r hr := absurd hr List.not_mem_nil
  unmet _ _ _ ht := absurd ht Bool.false_ne_true

/-- Whatever is sent and received, in every state no waiter is kept waiting and all that
has been granted is fair. -/
theorem sound_run (flag : IpcFlag) (es : List Event) : Sound (es.foldl step (init flag)) :=
  (reachable_invariant inv_step (inv_init flag) es).sound

end GiantGecko.Rtos.EventGroups
