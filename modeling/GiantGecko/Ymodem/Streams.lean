import GiantGecko.Foundation.Transition
import GiantGecko.Ymodem.Update

namespace GiantGecko.Ymodem.Streams

open Foundation.Transition Receiver
open Update (atol fileStr rtTickPerSecond)

/-- The C library, any of whose calls may fail: `opendir` and `fopen` tell whether they
have opened, `fwrite` how many bytes it has written to a stream. -/
structure Stdio (σ : Type) where
  opendir : List UInt8 → σ → Bool × σ
  mkdir : List UInt8 → σ → σ
  closedir : Bool → σ → σ
  fopen : List UInt8 → σ → Bool × σ
  fwrite : ℕ → List UInt8 → σ → ℕ × σ
  fclose : ℕ → σ → σ

/-- The variables of `update.c`, with the state of the C library. The streams that have
been opened and not closed, and how many have been opened, are not in the source. -/
structure Ota (σ : Type) where
  recvPath : List UInt8
  updateFileTotalSize : UInt32
  updateFileCurSize : UInt32
  curF : Option ℕ
  lib : σ
  streams : List ℕ
  opened : ℕ

variable {σ : Type} (c : Stdio σ)

def ymodemOnBegin : RymCallback (Ota σ) := fun u buf ↦
  let fileName := buf.takeWhile (· ≠ 0)
  let fileSize := buf.drop (fileName.length + 1)
  let d := c.opendir u.recvPath u.lib
  let lib := c.closedir d.1 (if d.1 then d.2 else c.mkdir u.recvPath d.2)
  let f := c.fopen (fileStr u.recvPath fileName) lib
  let u := { u with
    updateFileTotalSize := UInt32.ofInt (atol fileSize)
    updateFileCurSize := 0
    lib := f.2 }
  if f.1 then
    (.ack, { u with
      curF := some u.opened, streams := u.opened :: u.streams, opened := u.opened + 1 })
  else (.can, { u with curF := none })

def fwrite (u : Ota σ) (buf : List UInt8) : ℕ × Ota σ :=
  match u.curF with
  | none => (0, u)
  | some f =>
    let r := c.fwrite f buf u.lib
    (r.1, { u with lib := r.2 })

def ymodemOnData : RymCallback (Ota σ) := fun u buf ↦
  let r := fwrite c u buf
  if r.1 ≠ buf.length then (.can, r.2) else (.ack, r.2)

def fclose (u : Ota σ) : Ota σ :=
  match u.curF with
  | none => u
  | some f => { u with curF := none, lib := c.fclose f u.lib, streams := u.streams.erase f }

def ymodemOnEnd : RymCallback (Ota σ) := fun u buf ↦
  let r := fwrite c u buf
  if r.1 ≠ buf.length then (.can, r.2) else (.ack, fclose c r.2)

def callbacks : Callbacks (Ota σ) :=
  ⟨some (ymodemOnBegin c), some (ymodemOnData c), some (ymodemOnEnd c)⟩

def Writes (u : Ota σ) (buf : List UInt8) : Prop := (fwrite c u buf).1 = buf.length

def Delivers (dataSz i : ℕ) (ctx : RymCtx (Ota σ)) : Prop :=
  i = 2 + dataSz + 2 ∧ (ctx.buf 1).toNat + (ctx.buf 2).toNat = 0xFF ∧
    (ctx.stage = .established ∧ ctx.buf 1 = 0 ∨
      ctx.recvCrc (2 + dataSz + 2 - 1) = crc16 (ctx.slice 3 dataSz) ∧
        Writes c ctx.user (ctx.slice 3 dataSz))

/-- What comes in while a file is transferred goes on with it, or is the end of a file to
which the last bytes are written. -/
def Carries (m : Machine (Ota σ)) (e : Input) : Prop :=
  match m.wait, e with
  | .code .trans, .byte _ b => b = 0x01 ∨ b = 0x02 ∨ b = 0x04 ∧ Writes c m.ctx.user (m.ctx.slice 3 128)
  | .code .trans, .gap _ => False
  | .data (.trans dataSz) len readlen, .byte _ b =>
    len ≤ readlen + 1 → Delivers c dataSz (readlen + 1) (m.ctx.put (1 + readlen) b)
  | .data (.trans dataSz) _ readlen, .gap _ => Delivers c dataSz readlen m.ctx
  | _, _ => True

def Transfers : Wait → Prop
  | .code .trans => True
  | .data (.trans _) _ _ => True
  | _ => False

section Files

variable {c} {u : Ota σ} {buf : List UInt8}

variable (buf) in
theorem fwrite_files :
    (fwrite c u buf).2.curF = u.curF ∧ (fwrite c u buf).2.streams = u.streams ∧
      (fwrite c u buf).2.opened = u.opened := by
  unfold fwrite
  cases h : u.curF with
  | none => exact ⟨h, rfl, rfl⟩
  | some f => exact ⟨rfl, rfl, rfl⟩

theorem Writes.curF (h : Writes c u buf) (hne : buf ≠ []) : ∃ f, u.curF = some f := by
  cases hf : u.curF with
  | some f => exact ⟨f, rfl⟩
  | none =>
    have hlen : 0 = buf.length := by
      rw [← h, fwrite, hf]
    exact absurd (List.length_eq_zero_iff.mp hlen.symm) hne

theorem Writes.onEnd (h : Writes c u buf) : ymodemOnEnd c u buf = (.ack, fclose c (fwrite c u buf).2) :=
  if_neg (not_not.mpr h)

theorem onEnd_of_short (h : ¬Writes c u buf) : ymodemOnEnd c u buf = (.can, (fwrite c u buf).2) :=
  if_pos h

theorem Writes.onData (h : Writes c u buf) : ymodemOnData c u buf = (.ack, (fwrite c u buf).2) :=
  if_neg (not_not.mpr h)

theorem onData_of_short (h : ¬Writes c u buf) : ymodemOnData c u buf = (.can, (fwrite c u buf).2) :=
  if_pos h

theorem onBegin_files (c : Stdio σ) (u : Ota σ) (buf : List UInt8) :
    (ymodemOnBegin c u buf).1 = .ack ∧ (ymodemOnBegin c u buf).2.curF = some u.opened ∧
        (ymodemOnBegin c u buf).2.streams = u.opened :: u.streams ∧
        (ymodemOnBegin c u buf).2.opened = u.opened + 1 ∨
      (ymodemOnBegin c u buf).1 = .can ∧ (ymodemOnBegin c u buf).2.streams = u.streams ∧
        (ymodemOnBegin c u buf).2.opened = u.opened := by
  simp only [ymodemOnBegin]
  split_ifs
  · exact .inl ⟨rfl, rfl, rfl, rfl⟩
  · exact .inr ⟨rfl, rfl, rfl⟩
  · exact .inl ⟨rfl, rfl, rfl, rfl⟩
  · exact .inr ⟨rfl, rfl, rfl⟩

end Files

inductive Turn (c : Stdio σ) (m : Machine (Ota σ)) (e : Input) (m' : Machine (Ota σ)) : Prop
  | outside : ¬Transfers m.wait → ¬Transfers m'.wait →
      m'.ctx.user.streams = m.ctx.user.streams → m'.ctx.user.opened = m.ctx.user.opened →
      Turn c m e m'
  | begins : ¬Transfers m.wait → Transfers m'.wait →
      m'.ctx.user.curF = some m.ctx.user.opened →
      m'.ctx.user.streams = m.ctx.user.opened :: m.ctx.user.streams →
      m'.ctx.user.opened = m.ctx.user.opened + 1 → Turn c m e m'
  | carries : Transfers m.wait → Carries c m e → Transfers m'.wait →
      m'.ctx.user.curF = m.ctx.user.curF → m'.ctx.user.streams = m.ctx.user.streams →
      m'.ctx.user.opened = m.ctx.user.opened → Turn c m e m'
  | ends (f : ℕ) : Transfers m.wait → Carries c m e → ¬Transfers m'.wait →
      m.ctx.user.curF = some f → m'.ctx.user.streams = m.ctx.user.streams.erase f →
      m'.ctx.user.opened = m.ctx.user.opened → Turn c m e m'
  | breaks : Transfers m.wait → ¬Carries c m e → ¬Transfers m'.wait →
      m'.ctx.user.streams = m.ctx.user.streams → m'.ctx.user.opened = m.ctx.user.opened →
      Turn c m e m'

variable {c} {m : Machine (Ota σ)} {ctx : RymCtx (Ota σ)}

inductive Leads (c : Stdio σ) (u : Ota σ) (m' : Machine (Ota σ)) : Prop
  | waits : ¬Transfers m'.wait → m'.ctx.user = u → Leads c u m'
  | begins (len : ℕ) (ctx : RymCtx (Ota σ)) : ctx.user = u → m' = beginTrans (callbacks c) len ctx →
      Leads c u m'

theorem leads_handshakeCheck (dataSz i : ℕ) :
    Leads c ctx.user (handshakeCheck (callbacks c) dataSz i ctx) := by
  rw [handshakeCheck]
  split_ifs
  · exact .waits (fun h ↦ h) rfl
  · exact .waits (fun h ↦ h) rfl
  · exact .waits (fun h ↦ h) rfl
  · exact .begins _ ctx rfl rfl

theorem leads_handshakeReceive (dataSz i : ℕ) (limit : UInt32) :
    Leads c ctx.user (handshakeReceive (callbacks c) dataSz i limit ctx) := by
  rw [handshakeReceive]
  split_ifs
  · exact .waits (fun h ↦ h) rfl
  · exact leads_handshakeCheck dataSz i

theorem leads_handshakeTurn (tmSec i : ℕ) : Leads c ctx.user (handshakeTurn tmSec i ctx) := by
  rw [handshakeTurn]
  split_ifs
  · exact .waits (fun h ↦ h) rfl
  · exact .waits (fun h ↦ h) rfl

theorem leads_finCheck (dataSz i : ℕ) :
    Leads c ctx.user (finCheck (callbacks c) dataSz i ctx) := by
  rw [finCheck]
  split_ifs
  · exact .waits (fun h ↦ h) rfl
  · exact .waits (fun h ↦ h) rfl
  · exact .waits (fun h ↦ h) rfl
  · exact .begins _ ctx rfl rfl
  · exact .waits (fun h ↦ h) rfl

theorem leads_afterCode (tmSec : ℕ) {k : CodeWait} (hk : k ≠ .trans) (code : RymCode) :
    Leads c ctx.user (afterCode (callbacks c) tmSec ctx k code) := by
  cases k with
  | trans => exact absurd rfl hk
  | handshake i =>
    cases code with
    | soh => exact leads_handshakeReceive _ _ _
    | stx => exact leads_handshakeReceive _ _ _
    | _ => exact leads_handshakeTurn _ _
  | finEot =>
    cases code with
    | eot => exact .waits (fun h ↦ h) rfl
    | _ => exact .waits (fun h ↦ h) rfl
  | finHeader =>
    cases code with
    | soh => exact .waits (fun h ↦ h) rfl
    | stx => exact .waits (fun h ↦ h) rfl
    | _ => exact .waits (fun h ↦ h) rfl

theorem leads_afterData (i : ℕ) {k : DataWait} (hk : ∀ dataSz, k ≠ .trans dataSz) :
    Leads c ctx.user (afterData (callbacks c) i ctx k) := by
  cases k with
  | trans dataSz => exact absurd rfl (hk dataSz)
  | handshake dataSz i₀ limit => exact (leads_handshakeReceive _ _ _ : Leads c (ctx.elapse 5).user _)
  | fin dataSz => exact leads_finCheck _ _

theorem leads_step (tmSec : ℕ) (hm : ¬Transfers m.wait) (e : Input) :
    Leads c m.ctx.user (step (callbacks c) tmSec m e) := by
  obtain ⟨ctx, wait⟩ := m
  cases wait with
  | returned err =>
    cases e with
    | byte elapsed b => exact .waits (fun h ↦ h) rfl
    | gap elapsed => exact .waits (fun h ↦ h) rfl
  | code k =>
    have hk : k ≠ .trans := by
      rintro rfl
      exact hm trivial
    cases e with
    | byte elapsed b => exact (leads_afterCode tmSec hk _ : Leads c ((ctx.elapse elapsed).put 0 b).user _)
    | gap elapsed => exact (leads_afterCode tmSec hk _ : Leads c (ctx.elapse elapsed).user _)
  | data k len readlen =>
    have hk : ∀ dataSz, k ≠ .trans dataSz := by
      rintro dataSz rfl
      exact hm trivial
    cases e with
    | byte elapsed b =>
      by_cases hlen : len ≤ readlen + 1
      · simp only [step, if_pos hlen]
        exact (leads_afterData _ hk : Leads c ((ctx.elapse elapsed).put (1 + readlen) b).user _)
      · simp only [step, if_neg hlen]
        refine .waits ?_ rfl
        cases k with
        | trans dataSz => exact absurd rfl (hk dataSz)
        | handshake dataSz i limit => exact fun h ↦ h
        | fin dataSz => exact fun h ↦ h
    | gap elapsed => exact (leads_afterData _ hk : Leads c (ctx.elapse elapsed).user _)

theorem Leads.turn {e : Input} {m' : Machine (Ota σ)} (hm : ¬Transfers m.wait)
    (h : Leads c m.ctx.user m') : Turn c m e m' := by
  cases h with
  | waits hm' huser => exact .outside hm hm' (by rw [huser]) (by rw [huser])
  | begins len ctx huser hm' =>
    have hbegin := onBegin_files c ctx.user (ctx.slice 3 len)
    obtain ⟨hack, hcurF, hstreams, hopened⟩ | ⟨hcan, hstreams, hopened⟩ := hbegin
    · have heq : m' = rymDoTrans { ctx with user := (ymodemOnBegin c ctx.user (ctx.slice 3 len)).2 } := by
        simp [hm', beginTrans, rymOnBegin, callbacks, hack]
      subst heq
      exact .begins hm trivial (hcurF.trans (by rw [huser])) (hstreams.trans (by rw [huser]))
        (hopened.trans (by rw [huser]))
    · have heq : m' = ⟨{ ctx with user := (ymodemOnBegin c ctx.user (ctx.slice 3 len)).2 },
          .returned .can⟩ := by
        simp [hm', beginTrans, rymOnBegin, callbacks, hcan]
      subst heq
      exact .outside hm (fun h ↦ h) (hstreams.trans (by rw [huser])) (hopened.trans (by rw [huser]))

theorem ofByte_cases (b : UInt8) :
    b = 0x01 ∨ b = 0x02 ∨ b = 0x04 ∨
      b ≠ 0x01 ∧ b ≠ 0x02 ∧ b ≠ 0x04 ∧ ∀ (cb : Callbacks (Ota σ)) (tmSec : ℕ) (ctx : RymCtx (Ota σ)),
        afterCode cb tmSec ctx .trans (.ofByte b) = ⟨ctx, .returned .code⟩ := by
  by_cases hsoh : b = 0x01
  · exact .inl hsoh
  by_cases hstx : b = 0x02
  · exact .inr (.inl hstx)
  by_cases heot : b = 0x04
  · exact .inr (.inr (.inl heot))
  refine .inr (.inr (.inr ⟨hsoh, hstx, heot, ?_⟩))
  intro cb tmSec ctx
  unfold RymCode.ofByte
  split
  · rfl
  · exact absurd rfl hsoh
  · exact absurd rfl hstx
  · exact absurd rfl heot
  all_goals rfl

theorem turn_eot (tmSec : ℕ) {elapsed : UInt32} :
    Turn c ⟨ctx, .code .trans⟩ (.byte elapsed 0x04)
      (step (callbacks c) tmSec ⟨ctx, .code .trans⟩ (.byte elapsed 0x04)) := by
  have hslice : ((ctx.elapse elapsed).put 0 0x04).slice 3 128 = ctx.slice 3 128 := by
    refine List.map_congr_left fun i _ ↦ ?_
    exact Function.update_of_ne (by omega) _ _
  have hlen : (ctx.slice 3 128).length = 128 := by simp [RymCtx.slice]
  obtain ⟨hcurF, hstreams, hopened⟩ := fwrite_files (c := c) (u := ctx.user) (ctx.slice 3 128)
  have hstep : (step (callbacks c) tmSec ⟨ctx, .code .trans⟩ (.byte elapsed 0x04)).wait =
      .code .finEot := rfl
  have huser : (step (callbacks c) tmSec ⟨ctx, .code .trans⟩ (.byte elapsed 0x04)).ctx.user =
      (ymodemOnEnd c ctx.user (ctx.slice 3 128)).2 := by
    rw [← hslice]
    rfl
  by_cases hwrites : Writes c ctx.user (ctx.slice 3 128)
  · have hend := congrArg Prod.snd hwrites.onEnd
    obtain ⟨f, hf⟩ := hwrites.curF (by simp [← List.length_pos_iff, hlen])
    have hf' : (fwrite c ctx.user (ctx.slice 3 128)).2.curF = some f := hcurF.trans hf
    refine .ends f trivial (.inr (.inr ⟨rfl, hwrites⟩)) (by rw [hstep]; exact fun h ↦ h) hf ?_ ?_
    · rw [huser, hend, fclose, hf', ← hstreams]
    · rw [huser, hend, fclose, hf', ← hopened]
  · have hend := congrArg Prod.snd (onEnd_of_short hwrites)
    have hcarries : ¬Carries c ⟨ctx, .code .trans⟩ (.byte elapsed 0x04) := by
      rintro (h | h | ⟨-, h⟩)
      · exact absurd h (by decide)
      · exact absurd h (by decide)
      · exact hwrites h
    exact .breaks trivial hcarries (by rw [hstep]; exact fun h ↦ h) (by rw [huser, hend, hstreams])
      (by rw [huser, hend, hopened])

theorem turn_code (tmSec : ℕ) (e : Input) :
    Turn c ⟨ctx, .code .trans⟩ e (step (callbacks c) tmSec ⟨ctx, .code .trans⟩ e) := by
  cases e with
  | gap elapsed => exact .breaks trivial (fun h ↦ h) (fun h ↦ h) rfl rfl
  | byte elapsed b =>
    obtain rfl | rfl | rfl | ⟨hsoh, hstx, heot, hcode⟩ := ofByte_cases (σ := σ) b
    · exact .carries trivial (.inl rfl) trivial rfl rfl rfl
    · exact .carries trivial (.inr (.inl rfl)) trivial rfl rfl rfl
    · exact turn_eot tmSec
    · have hcarries : ¬Carries c ⟨ctx, .code .trans⟩ (.byte elapsed b) := by
        rintro (h | h | ⟨h, -⟩)
        · exact hsoh h
        · exact hstx h
        · exact heot h
      have hstep : step (callbacks c) tmSec ⟨ctx, .code .trans⟩ (.byte elapsed b) =
          ⟨(ctx.elapse elapsed).put 0 b, .returned .code⟩ := hcode _ _ _
      rw [hstep]
      exact .breaks trivial hcarries (fun h ↦ h) rfl rfl

theorem afterData_files (dataSz i : ℕ) :
    (Transfers (afterData (callbacks c) i ctx (.trans dataSz)).wait ↔ Delivers c dataSz i ctx) ∧
      (afterData (callbacks c) i ctx (.trans dataSz)).ctx.user.curF = ctx.user.curF ∧
      (afterData (callbacks c) i ctx (.trans dataSz)).ctx.user.streams = ctx.user.streams ∧
      (afterData (callbacks c) i ctx (.trans dataSz)).ctx.user.opened = ctx.user.opened := by
  simp only [afterData, rymTransData]
  by_cases hsize : i = 2 + dataSz + 2
  · by_cases hsum : (ctx.buf 1).toNat + (ctx.buf 2).toNat = 0xFF
    · rw [if_neg (not_not.mpr hsize), if_neg (not_not.mpr hsum)]
      by_cases hagain : ctx.stage = .established ∧ ctx.buf 1 = 0
      · rw [if_pos hagain]
        exact ⟨iff_of_true trivial ⟨hsize, hsum, .inl hagain⟩, rfl, rfl, rfl⟩
      · rw [if_neg hagain]
        by_cases hcrc : ({ ctx with stage := .transmitting } : RymCtx (Ota σ)).recvCrc
            (2 + dataSz + 2 - 1) =
            crc16 (({ ctx with stage := .transmitting } : RymCtx (Ota σ)).slice 3 dataSz)
        · rw [if_neg (not_not.mpr hcrc)]
          have hfiles := fwrite_files (c := c) (u := ctx.user)
            (({ ctx with stage := .transmitting } : RymCtx (Ota σ)).slice 3 dataSz)
          by_cases hwrites : Writes c ctx.user
              (({ ctx with stage := .transmitting } : RymCtx (Ota σ)).slice 3 dataSz)
          · simp only [callbacks, hwrites.onData, transReply]
            exact ⟨iff_of_true trivial ⟨hsize, hsum, .inr ⟨hcrc, hwrites⟩⟩, hfiles⟩
          · simp only [callbacks, onData_of_short hwrites, transReply]
            exact ⟨iff_of_false (fun h ↦ h) fun h ↦ h.2.2.elim hagain fun h ↦ hwrites h.2, hfiles⟩
        · rw [if_pos hcrc]
          exact ⟨iff_of_false (fun h ↦ h) fun h ↦ h.2.2.elim hagain fun h ↦ hcrc h.1, rfl, rfl, rfl⟩
    · rw [if_neg (not_not.mpr hsize), if_pos hsum]
      exact ⟨iff_of_false (fun h ↦ h) fun h ↦ hsum h.2.1, rfl, rfl, rfl⟩
  · rw [if_pos hsize]
    exact ⟨iff_of_false (fun h ↦ h) fun h ↦ hsize h.1, rfl, rfl, rfl⟩

theorem turn_afterData {dataSz i : ℕ} {e : Input} (hm : Transfers m.wait)
    (hcarries : Carries c m e ↔ Delivers c dataSz i ctx) (huser : m.ctx.user = ctx.user) :
    Turn c m e (afterData (callbacks c) i ctx (.trans dataSz)) := by
  obtain ⟨hwait, hcurF, hstreams, hopened⟩ := afterData_files (c := c) dataSz i
  rw [← huser] at hcurF hstreams hopened
  by_cases hdelivers : Delivers c dataSz i ctx
  · exact .carries hm (hcarries.mpr hdelivers) (hwait.mpr hdelivers) hcurF hstreams hopened
  · exact .breaks hm (fun h ↦ hdelivers (hcarries.mp h)) (fun h ↦ hdelivers (hwait.mp h)) hstreams
      hopened

theorem turn_data (tmSec dataSz len readlen : ℕ) (e : Input) :
    Turn c ⟨ctx, .data (.trans dataSz) len readlen⟩ e
      (step (callbacks c) tmSec ⟨ctx, .data (.trans dataSz) len readlen⟩ e) := by
  cases e with
  | gap elapsed => exact turn_afterData trivial Iff.rfl rfl
  | byte elapsed b =>
    by_cases hlen : len ≤ readlen + 1
    · simp only [step, if_pos hlen]
      refine turn_afterData trivial ?_ rfl
      exact ⟨fun h ↦ h hlen, fun h _ ↦ h⟩
    · simp only [step, if_neg hlen]
      exact .carries trivial (fun h ↦ absurd h hlen) trivial rfl rfl rfl

theorem turn_step (tmSec : ℕ) (m : Machine (Ota σ)) (e : Input) :
    Turn c m e (step (callbacks c) tmSec m e) := by
  by_cases hm : Transfers m.wait
  · obtain ⟨ctx, wait⟩ := m
    cases wait with
    | returned err => exact hm.elim
    | code k =>
      cases k with
      | trans => exact turn_code tmSec e
      | handshake i => exact hm.elim
      | finEot => exact hm.elim
      | finHeader => exact hm.elim
    | data k len readlen =>
      cases k with
      | trans dataSz => exact turn_data tmSec dataSz len readlen e
      | handshake dataSz i limit => exact hm.elim
      | fin dataSz => exact hm.elim
  · exact (leads_step tmSec hm e).turn hm

/-- The one stream that is open is that of the file being transferred, if there is one. -/
structure Tidy (m : Machine (Ota σ)) : Prop where
  older : ∀ f ∈ m.ctx.user.streams, f < m.ctx.user.opened
  transfers : Transfers m.wait → ∃ f, m.ctx.user.curF = some f ∧ m.ctx.user.streams = [f]
  outside : ¬Transfers m.wait → m.ctx.user.streams = []

/-- A stream is open that no call can close any more. -/
structure Leaky (m : Machine (Ota σ)) : Prop where
  older : ∀ f ∈ m.ctx.user.streams, f < m.ctx.user.opened
  lost : ∃ f ∈ m.ctx.user.streams, Transfers m.wait → m.ctx.user.curF ≠ some f

variable {e : Input} {m' : Machine (Ota σ)}

theorem carries_outside (c : Stdio σ) (hm : ¬Transfers m.wait) (e : Input) : Carries c m e := by
  obtain ⟨ctx, wait⟩ := m
  cases wait with
  | returned err => trivial
  | code k =>
    cases k with
    | trans => exact absurd trivial hm
    | _ => trivial
  | data k len readlen =>
    cases k with
    | trans dataSz => exact absurd trivial hm
    | _ => trivial

theorem Tidy.turn (h : Tidy m) (ht : Turn c m e m') :
    Carries c m e ∧ Tidy m' ∨ ¬Carries c m e ∧ Leaky m' := by
  cases ht with
  | outside hm hm' hstreams hopened =>
    refine .inl ⟨carries_outside c hm e, ?_, fun hm ↦ absurd hm hm', fun _ ↦ ?_⟩
    · rw [hstreams, hopened]
      exact h.older
    · rw [hstreams]
      exact h.outside hm
  | begins hm hm' hcurF hstreams hopened =>
    rw [h.outside hm] at hstreams
    refine .inl ⟨carries_outside c hm e, ?_, fun _ ↦ ⟨_, hcurF, hstreams⟩, fun hout ↦ absurd hm' hout⟩
    intro f hf
    rw [hstreams, List.mem_singleton] at hf
    omega
  | carries hm hcarries hm' hcurF hstreams hopened =>
    refine .inl ⟨hcarries, ?_, fun _ ↦ ?_, fun hout ↦ absurd hm' hout⟩
    · rw [hstreams, hopened]
      exact h.older
    · rw [hcurF, hstreams]
      exact h.transfers hm
  | ends f hm hcarries hm' hcurF hstreams hopened =>
    obtain ⟨g, hg, hone⟩ := h.transfers hm
    obtain rfl : g = f := Option.some.inj (hg.symm.trans hcurF)
    rw [hone, List.erase_cons_head] at hstreams
    refine .inl ⟨hcarries, ?_, fun hm ↦ absurd hm hm', fun _ ↦ hstreams⟩
    rw [hstreams]
    exact fun f hf ↦ absurd hf List.not_mem_nil
  | breaks hm hcarries hm' hstreams hopened =>
    obtain ⟨f, -, hone⟩ := h.transfers hm
    refine .inr ⟨hcarries, ?_, f, ?_, fun hm ↦ absurd hm hm'⟩
    · rw [hstreams, hopened]
      exact h.older
    · rw [hstreams, hone]
      exact List.mem_singleton_self f

theorem Leaky.turn (h : Leaky m) (ht : Turn c m e m') : Leaky m' := by
  obtain ⟨f, hf, hlost⟩ := h.lost
  have holder := h.older
  cases ht with
  | outside hm hm' hstreams hopened =>
    refine ⟨by rwa [hstreams, hopened], f, by rwa [hstreams], fun hm ↦ absurd hm hm'⟩
  | begins hm hm' hcurF hstreams hopened =>
    refine ⟨?_, f, by rw [hstreams]; exact List.mem_cons_of_mem _ hf, fun _ heq ↦ ?_⟩
    · intro g hg
      rw [hstreams] at hg
      obtain rfl | hg := List.mem_cons.mp hg
      · omega
      · have := holder g hg
        omega
    · have hlt := holder f hf
      have := Option.some.inj (hcurF.symm.trans heq)
      omega
  | carries hm hcarries hm' hcurF hstreams hopened =>
    refine ⟨by rwa [hstreams, hopened], f, by rwa [hstreams], fun _ ↦ ?_⟩
    rw [hcurF]
    exact hlost hm
  | ends g hm hcarries hm' hcurF hstreams hopened =>
    have hne : f ≠ g := fun heq ↦ hlost hm (heq ▸ hcurF)
    refine ⟨?_, f, ?_, fun hm ↦ absurd hm hm'⟩
    · intro k hk
      rw [hstreams] at hk
      rw [hopened]
      exact holder k (List.mem_of_mem_erase hk)
    · rw [hstreams]
      exact (List.mem_erase_of_ne hne).mpr hf
  | breaks hm hcarries hm' hstreams hopened =>
    exact ⟨by rwa [hstreams, hopened], f, by rwa [hstreams], fun hm ↦ absurd hm hm'⟩

theorem Leaky.run (h : Leaky m) (tmSec : ℕ) (es : List Input) :
    Leaky (es.foldl (step (callbacks c) tmSec) m) :=
  reachable_invariant (fun m e h ↦ h.turn (turn_step tmSec m e)) h es

/-- Either every input goes on with the files, or a stream stays open for ever. -/
theorem Tidy.run (h : Tidy m) (tmSec : ℕ) (es : List Input) :
    Along (step (callbacks c) tmSec) (Carries c) m es ∧
        Tidy (es.foldl (step (callbacks c) tmSec) m) ∨
      ¬Along (step (callbacks c) tmSec) (Carries c) m es ∧
        Leaky (es.foldl (step (callbacks c) tmSec) m) := by
  induction es generalizing m with
  | nil => exact .inl ⟨trivial, h⟩
  | cons e es ih =>
    obtain ⟨hcarries, hm'⟩ | ⟨hcarries, hm'⟩ := h.turn (turn_step tmSec m e)
    · obtain ⟨halong, hend⟩ | ⟨halong, hend⟩ := ih hm'
      · exact .inl ⟨⟨hcarries, halong⟩, hend⟩
      · exact .inr ⟨fun h ↦ halong h.2, hend⟩
    · exact .inr ⟨fun h ↦ hcarries h.1, hm'.run tmSec es⟩

/-- When the receiver has returned, all streams are closed just if every input went on
with the files. -/
theorem Tidy.closed_iff (h : Tidy m) (tmSec : ℕ) (es : List Input)
    (hend : ¬Transfers (es.foldl (step (callbacks c) tmSec) m).wait) :
    (es.foldl (step (callbacks c) tmSec) m).ctx.user.streams = [] ↔
      Along (step (callbacks c) tmSec) (Carries c) m es := by
  obtain ⟨halong, htidy⟩ | ⟨halong, hleaky⟩ := h.run tmSec es
  · exact iff_of_true (htidy.outside hend) halong
  · obtain ⟨f, hf, -⟩ := hleaky.lost
    exact iff_of_false (List.ne_nil_of_mem hf) halong

theorem tidy_rymDoRecv (tmSec : ℕ) (mem : Option (ℕ → UInt8)) {u : Ota σ} (hu : u.streams = [])
    (tick : UInt32) : Tidy (rymDoRecv tmSec mem u tick) := by
  have huser : (rymDoRecv tmSec mem u tick).ctx.user = u ∧
      ¬Transfers (rymDoRecv tmSec mem u tick).wait := by
    cases mem with
    | none => exact ⟨rfl, fun h ↦ h⟩
    | some buf =>
      simp only [rymDoRecv, rymDoHandshake, handshakeTurn]
      split_ifs
      · exact ⟨rfl, fun h ↦ h⟩
      · exact ⟨rfl, fun h ↦ h⟩
  refine ⟨?_, fun hm ↦ absurd hm huser.2, fun _ ↦ ?_⟩
  · rw [huser.1, hu]
    exact fun f hf ↦ absurd hf List.not_mem_nil
  · rw [huser.1, hu]

end GiantGecko.Ymodem.Streams
