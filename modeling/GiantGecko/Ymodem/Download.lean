import GiantGecko.Ymodem.Prompt
import GiantGecko.Ymodem.Update

namespace GiantGecko.Ymodem.Download

open Receiver Sender Session Progress Prompt Update

/-- A file as it is sent: cut into packets in some way, the last one padded. -/
structure OutFile where
  name : List UInt8
  content : List UInt8
  packets : List Payload
  padding : ℕ
  name_ne : name ≠ []
  name_nul : (0 : UInt8) ∉ name
  packed : packets.flatMap Payload.bytes = content ++ List.replicate padding 0x1A
  tight : ∀ p ∈ packets.getLast?, padding < p.bytes.length

def decimal (n : ℕ) : List UInt8 := (Nat.toDigits 10 n).map fun c ↦ UInt8.ofNat c.toNat

def OutFile.headerBytes (f : OutFile) : List UInt8 :=
  (f.name ++ 0 :: (decimal f.content.length ++ List.replicate 128 0)).take 128

theorem OutFile.length_headerBytes (f : OutFile) : f.headerBytes.length = 128 := by
  simp only [headerBytes, List.length_take, List.length_append, List.length_cons,
    List.length_replicate]
  omega

def OutFile.header (f : OutFile) : Payload := ⟨.soh, f.headerBytes, f.length_headerBytes⟩

def OutFile.send (f : OutFile) : FileSend := ⟨f.header, f.packets⟩

def Fits (recvPath : List UInt8) (f : OutFile) : Prop :=
  (fileStr recvPath f.name).length + 1 ≤ fileStrSize

def Lossless : Event → Prop
  | .deliver _ => True
  | .timeout _ => True
  | .hear => True
  | _ => False

def latest (batch : List OutFile) (name : List UInt8) : Option (List UInt8) :=
  (batch.reverse.find? fun f ↦ f.name = name).map OutFile.content

def batchItems (batch : List OutFile) : List Item := script (batch.map OutFile.send)

def otaStart (recvPath : List UInt8) (store : Store) (mem : Option (ℕ → UInt8)) (tick : UInt32) :
    System Ota :=
  start rtTickPerSecond mem ⟨recvPath, 0, 0, none, store, false⟩ tick

/-- Whenever the download reports success, the files are stored as they were sent. -/
def Faithful (recvPath : List UInt8) (batch : List OutFile) : Prop :=
  ∀ (store : Store) (mem : Option (ℕ → UInt8)) (tick : UInt32) (events : List Event),
    (∀ e ∈ events, Lossless e) →
    let s := events.foldl (Session.step callbacks rtTickPerSecond (batchItems batch))
      (otaStart recvPath store mem tick)
    s.Succeeded → ∀ f ∈ batch,
      s.rx.ctx.user.store.content (fileStr recvPath f.name) = latest batch f.name

theorem OutFile.later (f : OutFile) : f.send.Later := by
  refine ⟨rfl, ?_⟩
  obtain ⟨b, bs, hname⟩ := List.exists_cons_of_ne_nil f.name_ne
  have hb : b ≠ 0 := by
    rintro rfl
    exact f.name_nul (hname ▸ List.mem_cons_self)
  change f.headerBytes.head? ≠ some 0
  rw [OutFile.headerBytes, hname, List.cons_append, List.take_succ_cons, List.head?_cons]
  exact fun h ↦ hb (Option.some.inj h)

theorem header_name {recvPath : List UInt8} {f : OutFile} (h : Fits recvPath f) :
    f.headerBytes.takeWhile (· ≠ 0) = f.name := by
  have hlen : f.name.length + 1 ≤ 128 := by
    simp only [Fits, fileStr, fileStrSize, List.length_append, List.length_cons] at h
    omega
  have hname : ∀ b ∈ f.name, decide (b ≠ 0) = true := by
    intro b hb
    rw [decide_eq_true_iff]
    rintro rfl
    exact f.name_nul hb
  obtain ⟨n, hn⟩ := Nat.exists_eq_add_of_le' hlen
  rw [OutFile.headerBytes, List.take_append, List.take_of_length_le (by omega),
    show 128 - f.name.length = (n + 1) by omega, List.take_succ_cons,
    List.takeWhile_append_of_pos hname]
  simp

theorem linked_batch {batch : List OutFile} (hne : batch ≠ []) : Linked (batchItems batch) := by
  obtain ⟨f, fs, rfl⟩ := List.exists_cons_of_ne_nil hne
  have hlater : ∀ g ∈ fs.map OutFile.send, g.Later := by
    intro g hg
    obtain ⟨f', -, rfl⟩ := List.mem_map.mp hg
    exact f'.later
  exact Batch.linked ⟨f.send, fs.map OutFile.send, hlater⟩

def Reaches (items : List Item) (s s' : System Ota) : Prop :=
  ∃ events : List Event, (∀ e ∈ events, Lossless e) ∧
    events.foldl (Session.step callbacks rtTickPerSecond items) s = s'

variable {items : List Item} {s s' s'' : System Ota}

theorem Reaches.trans (h : Reaches items s s') (h' : Reaches items s' s'') :
    Reaches items s s'' := by
  obtain ⟨es, hes, rfl⟩ := h
  obtain ⟨fs, hfs, rfl⟩ := h'
  refine ⟨es ++ fs, fun e he ↦ ?_, List.foldl_append⟩
  obtain he | he := List.mem_append.mp he
  · exact hes e he
  · exact hfs e he

theorem reaches_promptly (s : System Ota) (a : Item) :
    Reaches items s ((promptly a).foldl (Session.step callbacks rtTickPerSecond items) s) := by
  refine ⟨promptly a, fun e he ↦ ?_, rfl⟩
  obtain rfl | he := List.mem_cons.mp he
  · trivial
  · rw [List.eq_of_mem_replicate he]
    trivial

theorem drop_cons {k : ℕ} {a : Item} {rest : List Item} (h : items.drop k = a :: rest) :
    items[k]? = some a ∧ items.drop (k + 1) = rest := by
  constructor
  · rw [← List.head?_drop, h, List.head?_cons]
  · rw [← List.tail_drop, h, List.tail_cons]

theorem callbacks_onData : callbacks.onData = some ymodemOnData := rfl

variable {recvPath path content : List UInt8} {k : ℕ}

theorem reaches_data (hl : Linked items) {rest : List Item} (ps : List Payload) :
    ∀ (n : ℕ) (content : List UInt8) (k : ℕ) (s : System Ota), k ≠ 0 →
      items.drop k = dataItems n ps ++ .eot :: rest → Sent items k s →
      Ready recvPath s.rx.ctx.user → Writing s.rx.ctx.user path content →
      ∃ k' s', Reaches items s s' ∧ k' ≠ 0 ∧ items.drop k' = .eot :: rest ∧ Sent items k' s' ∧
        Ready recvPath s'.rx.ctx.user ∧
        Writing s'.rx.ctx.user path (content ++ ps.flatMap Payload.bytes) := by
  induction ps with
  | nil =>
    intro n content k s hk hdrop hsent hr hw
    rw [List.flatMap_nil, List.append_nil]
    exact ⟨k, s, ⟨[], by simp, rfl⟩, hk, hdrop, hsent, hr, hw⟩
  | cons p ps ih =>
    intro n content k s hk hdrop hsent hr hw
    obtain ⟨ha, hdrop'⟩ := drop_cons hdrop
    obtain ⟨b, hb, -⟩ := hl.next ha (by simp)
    obtain ⟨hack, hr', hw'⟩ := ymodemOnData_spec hr hw p.bytes
    have hwelcome : Welcome callbacks s.rx.ctx.user (.data n p) := by
      intro onData h
      obtain rfl := Option.some.inj h
      exact hack
    obtain ⟨hsent', huser, -, -⟩ := prompt_next rtTickPerSecond hl callbacks_onData hsent ha hb
      (fun h ↦ absurd h hk) hwelcome
    obtain ⟨k', s', hreach, hrest⟩ := ih (n + 1) (content ++ p.bytes) (k + 1) _ (by omega) hdrop'
      hsent' (by rw [huser]; exact hr') (by rw [huser]; exact hw')
    rw [List.append_assoc, ← List.flatMap_cons] at hrest
    exact ⟨k', s', (reaches_promptly s _).trans hreach, hrest⟩

/-- A file is stored with the padding of its last packet, and with 128 bytes more. -/
def StoredLong (recvPath : List UInt8) (f : OutFile) (u : Ota) : Prop :=
  ∃ left : List UInt8, left.length = 128 ∧ u.store.content (fileStr recvPath f.name) =
    some (f.packets.flatMap Payload.bytes ++ left)

theorem reaches_file (hl : Linked items) {rest : List Item} {f : OutFile} (hf : Fits recvPath f)
    (hdrop : items.drop k = f.send.items ++ rest) (hsent : Sent items k s)
    (htick : k = 0 → s.rx.ctx.tick ≤ s.rx.ctx.tick + 100) (hr : Ready recvPath s.rx.ctx.user) :
    ∃ k' s', Reaches items s s' ∧ k' ≠ 0 ∧ items.drop k' = rest ∧ Sent items k' s' ∧
      Ready recvPath s'.rx.ctx.user ∧ StoredLong recvPath f s'.rx.ctx.user := by
  -- the header opens the file
  rw [FileSend.items, List.cons_append, List.append_assoc] at hdrop
  obtain ⟨ha, hdrop₁⟩ := drop_cons hdrop
  obtain ⟨b, hb, -⟩ := hl.next ha (by simp)
  obtain ⟨hack, hr₁, hw₁⟩ := ymodemOnBegin_spec hr f.headerBytes
  rw [header_name hf] at hw₁
  have hwelcome : Welcome callbacks s.rx.ctx.user (.header f.send.header) := by
    intro onBegin h
    obtain rfl := Option.some.inj h
    exact hack
  obtain ⟨hsent₁, huser₁, -, -⟩ := prompt_next rtTickPerSecond hl callbacks_onData hsent ha hb
    htick hwelcome
  -- the data blocks are appended
  obtain ⟨k₂, s₂, hreach₂, hk₂, hdrop₂, hsent₂, hr₂, hw₂⟩ := reaches_data hl f.packets 1 []
    (k + 1) _ (by omega) hdrop₁ hsent₁ (by rw [huser₁]; exact hr₁) (by rw [huser₁]; exact hw₁)
  -- the first EOT appends what is left over in the buffer, and closes the file
  obtain ⟨ha₂, hdrop₃⟩ := drop_cons hdrop₂
  obtain ⟨ha₃, hdrop₄⟩ := drop_cons hdrop₃
  obtain ⟨hsent₃, ⟨left, hleft, huser₃⟩, -, -⟩ := prompt_next rtTickPerSecond hl callbacks_onData
    hsent₂ ha₂ ha₃ (fun h ↦ absurd h hk₂) trivial
  obtain ⟨hr₃, hstored⟩ := ymodemOnEnd_spec hr₂ hw₂ left
  -- the second EOT changes nothing
  obtain ⟨b', hb', -⟩ := hl.next ha₃ (by simp)
  obtain ⟨hsent₄, huser₄, -, -⟩ := prompt_next rtTickPerSecond hl callbacks_onData hsent₃ ha₃ hb'
    (fun h ↦ absurd h (by omega)) trivial
  have hreach := (reaches_promptly s _).trans (hreach₂.trans
    ((reaches_promptly s₂ .eot).trans (reaches_promptly _ .eotAgain)))
  rw [Leaves, huser₃] at huser₄
  refine ⟨_, _, hreach, by omega, hdrop₄, hsent₄, ?_, left, hleft, ?_⟩
  · rw [huser₄]
    exact hr₃
  · rw [huser₄]
    exact hstored

theorem reaches_end (hl : Linked items) (batch : List OutFile) (f : OutFile) :
    ∀ (k : ℕ) (s : System Ota), (∀ g ∈ batch ++ [f], Fits recvPath g) →
      items.drop k = batchItems (batch ++ [f]) → Sent items k s →
      (k = 0 → s.rx.ctx.tick ≤ s.rx.ctx.tick + 100) → Ready recvPath s.rx.ctx.user →
      ∃ s', Reaches items s s' ∧ s'.Succeeded ∧ StoredLong recvPath f s'.rx.ctx.user := by
  induction batch with
  | nil =>
    intro k s hfits hdrop hsent htick hr
    have hdrop' : items.drop k = f.send.items ++ [.close] := by
      rw [hdrop, List.nil_append, batchItems, List.map_singleton, script, List.flatMap_singleton]
    obtain ⟨k', s', hreach, hk', hrest, hsent', -, hstored⟩ :=
      reaches_file hl (hfits f (by simp)) hdrop' hsent htick hr
    obtain ⟨ha, -⟩ := drop_cons hrest
    obtain ⟨hsucc, huser, -⟩ := prompt_last rtTickPerSecond hl callbacks_onData hsent' ha
      fun h ↦ absurd h hk'
    refine ⟨_, hreach.trans (reaches_promptly s' .close), hsucc, ?_⟩
    rwa [huser]
  | cons g batch ih =>
    intro k s hfits hdrop hsent htick hr
    have hdrop' : items.drop k = g.send.items ++ batchItems (batch ++ [f]) := by
      rw [hdrop, batchItems, List.cons_append, List.map_cons, script, List.flatMap_cons,
        List.append_assoc]
      rfl
    obtain ⟨k', s', hreach, hk', hrest, hsent', hr', -⟩ :=
      reaches_file hl (hfits g (by simp)) hdrop' hsent htick hr
    obtain ⟨s'', hreach', hs''⟩ := ih k' s' (fun g' hg' ↦ hfits g' (List.mem_cons_of_mem _ hg'))
      hrest hsent' (fun h ↦ absurd h hk') hr'
    exact ⟨s'', hreach.trans hreach', hs''⟩

theorem StoredLong.ne {f : OutFile} {u : Ota} (h : StoredLong recvPath f u) :
    u.store.content (fileStr recvPath f.name) ≠ some f.content := by
  obtain ⟨left, hleft, hstored⟩ := h
  rw [hstored, f.packed]
  intro heq
  have hlen := congrArg List.length (Option.some.inj heq)
  simp only [List.length_append, hleft] at hlen
  omega

theorem latest_last (batch : List OutFile) (f : OutFile) :
    latest (batch ++ [f]) f.name = some f.content := by
  rw [latest, List.reverse_append, List.reverse_singleton, List.singleton_append,
    List.find?_cons_of_pos (by simp), Option.map_some]

theorem not_faithful (recvPath : List UInt8) (batch : List OutFile) (f : OutFile)
    (hfits : ∀ g ∈ batch ++ [f], Fits recvPath g) : ¬Faithful recvPath (batch ++ [f]) := by
  intro hall
  have hl : Linked (batchItems (batch ++ [f])) := linked_batch (by simp)
  obtain ⟨p, hfirst⟩ : ∃ p, (batchItems (batch ++ [f]))[0]? = some (.header p) := by
    cases batch with
    | nil => exact ⟨_, rfl⟩
    | cons g batch => exact ⟨_, rfl⟩
  obtain ⟨s, hstep, hsent, huser, htick, -, -⟩ := sent_first rtTickPerSecond callbacks (by decide)
    hfirst (fun _ ↦ 0) ⟨recvPath, 0, 0, none, ⟨fun _ ↦ none, fun _ ↦ false⟩, false⟩ 0
  have hready : Ready recvPath s.rx.ctx.user := by
    rw [huser]
    exact ⟨rfl, fun _ ↦ rfl⟩
  have htick' : s.rx.ctx.tick ≤ s.rx.ctx.tick + 100 := by
    rw [htick]
    decide
  obtain ⟨s', ⟨events, hlossless, rfl⟩, hsucc, hstored⟩ :=
    reaches_end hl batch f 0 s hfits rfl hsent (fun _ ↦ htick') hready
  rw [← hstep] at hsucc hstored
  have hlossless' : ∀ e ∈ Event.hear :: events, Lossless e := by
    rw [List.forall_mem_cons]
    exact ⟨trivial, hlossless⟩
  have hf := hall ⟨fun _ ↦ none, fun _ ↦ false⟩ (some fun _ ↦ 0) 0 (.hear :: events) hlossless'
    hsucc f (by simp)
  rw [latest_last] at hf
  exact hstored.ne hf

/-- No batch of files arrives as it was sent. -/
theorem download_faithful_iff (recvPath : List UInt8) (batch : List OutFile)
    (hfits : ∀ f ∈ batch, Fits recvPath f) : Faithful recvPath batch ↔ batch = [] := by
  constructor
  · intro hall
    by_contra hne
    rw [← List.dropLast_append_getLast hne] at hall hfits
    exact not_faithful recvPath _ _ hfits hall
  · rintro rfl
    intro store mem tick events _ _ _ f hf
    cases hf

def greeting : OutFile where
  name := [0x61]
  content := [0x68, 0x69]
  packets := [⟨.soh, [0x68, 0x69] ++ List.replicate 126 0x1A, by simp [Framing.size]⟩]
  padding := 126
  name_ne := by decide
  name_nul := by decide
  packed := by simp
  tight := by
    intro p hp
    obtain rfl := Option.some.inj hp
    simp

theorem greeting_fits : ∀ f ∈ [greeting], Fits [0x2F, 0x64] f := by
  simp [Fits, fileStr, fileStrSize, greeting]

theorem download_faithful_greeting : Faithful [0x2F, 0x64] [greeting] ↔ [greeting] = [] :=
  download_faithful_iff [0x2F, 0x64] [greeting] greeting_fits

theorem greeting_stored_too_long : ¬Faithful [0x2F, 0x64] [greeting] :=
  not_faithful [0x2F, 0x64] [] greeting greeting_fits

end GiantGecko.Ymodem.Download
