import GiantGecko.Finsh.Meaning

namespace GiantGecko.Finsh.Compiler

open Vm Foundation.Machine

section Widths

variable (w w' : Width) (x y old a : Word) (mem : Memory)

theorem mask_eq : w.mask = BitVec.ofNat 32 (2 ^ Width.bits w - 1) := by cases w <;> rfl

@[simp] theorem low_dword : Width.dword.low x = x := by
  rw [Width.low, show Width.dword.mask = BitVec.allOnes 32 from rfl, BitVec.and_allOnes]

theorem mask_and {w w' : Width} (h : Width.bits w ≤ Width.bits w') : w'.mask &&& w.mask = w.mask := by
  cases w <;> cases w' <;> first | decide | exact absurd h (by decide)

theorem low_low {w w' : Width} (h : Width.bits w ≤ Width.bits w') : w.low (w'.low x) = w.low x := by
  rw [Width.low, Width.low, Width.low, BitVec.and_assoc, mask_and h]

theorem low_put : w.low (w.put x old) = w.low x := by
  rw [Width.low, Width.put, Width.low]
  ext i hi
  simp only [BitVec.getElem_and, BitVec.getElem_or, BitVec.getElem_not]
  cases w.mask[i] <;> simp

theorem toNat_low : (w.low x).toNat = x.toNat % 2 ^ Width.bits w := by
  rw [Width.low, BitVec.toNat_and, mask_eq, BitVec.toNat_ofNat]
  have hsmall : 2 ^ Width.bits w - 1 < 2 ^ 32 := by cases w <;> decide
  rw [Nat.mod_eq_of_lt hsmall, Nat.and_two_pow_sub_one_eq_mod]

theorem read_congr {x y : Word} (h : w.low x = w.low y) : w.read x = w.read y := by
  have hnat := congrArg BitVec.toNat h
  rw [toNat_low, toNat_low] at hnat
  cases w with
  | byte => exact h
  | word =>
    have hshort : x.setWidth 16 = y.setWidth 16 := by
      refine BitVec.eq_of_toNat_eq ?_
      rw [BitVec.toNat_setWidth, BitVec.toNat_setWidth]
      exact hnat
    rw [Width.read, Width.read, hshort]
  | dword => rwa [low_dword, low_dword] at h

theorem toNat_append_eq {m n : ℕ} (x : BitVec m) (y : BitVec n) :
    (x ++ y).toNat = x.toNat * 2 ^ n + y.toNat := by
  rw [BitVec.toNat_append, ← Nat.shiftLeft_add_eq_or_of_lt y.isLt, Nat.shiftLeft_eq]

theorem low_load_of_eq : w.low (load w mem a) = load w mem a := by
  refine BitVec.eq_of_toNat_eq ?_
  rw [toNat_low, Nat.mod_eq_of_lt]
  cases w with
  | byte =>
    have hlt := (mem a).isLt
    rw [load, BitVec.toNat_setWidth, Nat.mod_eq_of_lt (by omega)]
    exact hlt
  | word =>
    have hlt := (mem (a + 1) ++ mem a).isLt
    rw [load, BitVec.toNat_setWidth, Nat.mod_eq_of_lt (by omega)]
    exact hlt
  | dword => exact (load .dword mem a).isLt

theorem low_load : w.low (load .dword mem a) = load w mem a := by
  refine BitVec.eq_of_toNat_eq ?_
  rw [toNat_low]
  have h0 := (mem a).isLt
  have h1 := (mem (a + 1)).isLt
  cases w with
  | byte =>
    simp only [load, toNat_append_eq, BitVec.toNat_setWidth, Width.bits]
    omega
  | word =>
    simp only [load, toNat_append_eq, BitVec.toNat_setWidth, Width.bits]
    omega
  | dword => exact Nat.mod_eq_of_lt (load .dword mem a).isLt

theorem byteOf_congr {i n : ℕ} (hi : 8 * i + 8 ≤ n) {x y : Word}
    (h : x.toNat % 2 ^ n = y.toNat % 2 ^ n) : byteOf i x = byteOf i y := by
  have hpart (x : Word) : x.toNat >>> (8 * i) % 2 ^ 8 =
      x.toNat % 2 ^ n % (2 ^ (8 * i) * 2 ^ 8) / 2 ^ (8 * i) := by
    rw [← Nat.pow_add, Nat.mod_mod_of_dvd _ (Nat.pow_dvd_pow 2 hi), Nat.pow_add,
      Nat.mod_mul_right_div_self, Nat.shiftRight_eq_div_pow]
  refine BitVec.eq_of_toNat_eq ?_
  rw [byteOf, byteOf, BitVec.extractLsb'_toNat, BitVec.extractLsb'_toNat, hpart, hpart, h]

theorem store_congr {x y : Word} (h : w.low x = w.low y) : store w mem a x = store w mem a y := by
  have hnat := congrArg BitVec.toNat h
  rw [toNat_low, toNat_low] at hnat
  have hbyte {i : ℕ} (hi : 8 * i + 8 ≤ Width.bits w) : byteOf i x = byteOf i y :=
    byteOf_congr hi hnat
  cases w with
  | byte => rw [store, store, hbyte (by decide)]
  | word => rw [store, store, hbyte (by decide), hbyte (by decide)]
  | dword =>
    rw [store, store, hbyte (by decide), hbyte (by decide), hbyte (by decide), hbyte (by decide)]

theorem codeOf_eq (pc : List Byte) :
    ∃ y, immediate w (codeOf w x ++ pc) = some (y, pc) ∧ w.low y = w.low x := by
  have h0 := BitVec.extractLsb'_toNat 0 8 x
  have h1 := BitVec.extractLsb'_toNat 8 8 x
  have h2 := BitVec.extractLsb'_toNat 16 8 x
  have h3 := BitVec.extractLsb'_toNat 24 8 x
  have hx := x.isLt
  simp only [Nat.shiftRight_eq_div_pow] at h0 h1 h2 h3
  cases w with
  | byte =>
    refine ⟨_, rfl, BitVec.eq_of_toNat_eq ?_⟩
    rw [toNat_low, toNat_low, BitVec.toNat_setWidth, byteOf, h0, Width.bits]
    omega
  | word =>
    refine ⟨_, rfl, BitVec.eq_of_toNat_eq ?_⟩
    rw [toNat_low, toNat_low, BitVec.toNat_setWidth, toNat_append_eq, byteOf, byteOf, h0, h1,
      Width.bits]
    omega
  | dword =>
    refine ⟨_, rfl, BitVec.eq_of_toNat_eq ?_⟩
    rw [toNat_low, toNat_low, toNat_append_eq, toNat_append_eq, toNat_append_eq, byteOf, byteOf,
      byteOf, byteOf, h0, h1, h2, h3, Width.bits]
    omega

end Widths

section Rules

variable {call : Word → List Word → Memory → Option (Word × Memory)} {op : Op} {w : Width}
  {rest : List Byte} {stack : ℕ → Word} {sp : ℕ} {mem : Memory} {x y a : Word}

theorem opTable_code (op : Op) : opTable[(code op).toNat]? = some op := by
  cases op with
  | noop => rfl
  | bin o w => cases o <;> cases w <;> rfl
  | bw w => cases w <;> rfl
  | ld w => cases w <;> rfl
  | ldValue w => cases w <;> rfl
  | st w => cases w <;> rfl
  | pop => rfl
  | call => rfl
  | ldValueStack w => cases w <;> rfl

theorem step_code : step call ⟨code op :: rest, stack, sp, mem⟩ =
    exec call op ⟨rest, stack, sp, mem⟩ := by
  change opTable[(code op).toNat]?.bind _ = _
  rw [opTable_code]
  rfl

/-- What the code has done when it has put one more value on the stack. -/
def Pushes (call : Word → List Word → Memory → Option (Word × Memory)) (s : Machine)
    (rest : List Byte) (sp : ℕ) (w : Width) (v : Word) (mem : Memory) : Prop :=
  ∃ stack, Reaches (step call) s ⟨rest, stack, sp + 1, mem⟩ ∧ w.low (stack sp) = v ∧
    ∀ i < sp, stack i = s.stack i

theorem pushes_of_step {s : Machine} {slot : Word} (hslot : w.low slot = x)
    (hstep : step call s = some ⟨rest, Function.update s.stack sp slot, sp + 1, mem⟩) :
    Pushes call s rest sp w x mem := by
  refine ⟨_, .single hstep, ?_, fun i hi ↦ Function.update_of_ne (Nat.ne_of_lt hi) _ _⟩
  rw [Function.update_self, hslot]

theorem pushes_ld (hroom : sp < stackMax) :
    Pushes call ⟨codeLd w x ++ rest, stack, sp, mem⟩ rest sp w (w.low x) mem := by
  obtain ⟨y, himmediate, hy⟩ := codeOf_eq w x rest
  refine pushes_of_step ((low_put w y (stack sp)).trans hy) ?_
  rw [codeLd, List.cons_append, step_code, exec, himmediate]
  exact if_pos hroom

theorem pushes_ldValue (hroom : sp < stackMax) :
    Pushes call ⟨codeLdValue w a ++ rest, stack, sp, mem⟩ rest sp w (load w mem a) mem := by
  obtain ⟨y, himmediate, hy⟩ := codeOf_eq .dword a rest
  rw [low_dword, low_dword] at hy
  refine pushes_of_step ((low_put w (load w mem a) (stack sp)).trans (low_load_of_eq w a mem)) ?_
  rw [codeLdValue, List.cons_append, step_code, exec, himmediate, hy]
  exact if_pos hroom

theorem pushes_bin {o : BinOp} (h : o.apply (w.read (stack sp)) (w.read (stack (sp + 1))) = some x) :
    Pushes call ⟨code (.bin o w) :: rest, stack, sp + 2, mem⟩ rest sp w (w.low x) mem := by
  refine pushes_of_step (low_put w x (stack sp)) ?_
  rw [step_code, exec, if_pos (Nat.le_add_left 2 sp)]
  change (o.apply (w.read (stack sp)) (w.read (stack (sp + 1)))).map _ = _
  rw [h]
  rfl

theorem pushes_bw : Pushes call ⟨code (.bw w) :: rest, stack, sp + 1, mem⟩ rest sp w
    (w.low (~~~w.read (stack sp))) mem := by
  refine pushes_of_step (low_put w _ (stack sp)) ?_
  rw [step_code, exec, if_pos (Nat.le_add_left 1 sp)]
  rfl

theorem pushes_ldValueStack : Pushes call ⟨code (.ldValueStack w) :: rest, stack, sp + 1, mem⟩
    rest sp w (load w mem (stack sp)) mem := by
  refine pushes_of_step
    ((low_put w (load w mem (stack sp)) (stack sp)).trans (low_load_of_eq w _ mem)) ?_
  rw [step_code, exec, if_pos (Nat.le_add_left 1 sp)]
  rfl

theorem step_st : step call ⟨code (.st w) :: rest, stack, sp + 2, mem⟩ =
    some ⟨rest, stack, sp + 1, store w mem (stack sp) (stack (sp + 1))⟩ := by
  rw [step_code, exec, if_pos (Nat.le_add_left 2 sp)]
  rfl

theorem step_pop : step call ⟨code .pop :: rest, stack, sp + 1, mem⟩ =
    some ⟨rest, stack, sp, mem⟩ := by
  rw [step_code, exec, if_pos (Nat.le_add_left 1 sp)]
  rfl

theorem Pushes.of_reaches {s t : Machine} (h : Reaches (step call) s t)
    (hbelow : ∀ i < sp, t.stack i = s.stack i) (hpush : Pushes call t rest sp w x mem) :
    Pushes call s rest sp w x mem := by
  obtain ⟨stack, hreach, hvalue, hsame⟩ := hpush
  exact ⟨stack, h.trans hreach, hvalue, fun i hi ↦ (hsame i hi).trans (hbelow i hi)⟩

end Rules

section Expressions

variable {call : Word → List Word → Memory → Option (Word × Memory)} {e a b p f : Expr}
  {args : List Expr} {o : BinOp} {symbol : Symbol}

attribute [local simp] Expr.node nodes Expr.eval evalArgs

def Emits (e : Expr) (out : List Byte) : Prop :=
  ∃ node, typeCheck false e.node = some node ∧ node.dataType = e.type ∧ compile node = some out

def Runs (call : Word → List Word → Memory → Option (Word × Memory)) (e : Expr)
    (out : List Byte) : Prop :=
  ∀ rest stack sp mem v mem', sp + e.depth ≤ stackMax → e.eval call mem = some (v, mem') →
    Pushes call ⟨out ++ rest, stack, sp, mem⟩ rest sp e.extent v mem'

def Compiles (call : Word → List Word → Memory → Option (Word × Memory)) (e : Expr) : Prop :=
  ∃ out, Emits e out ∧ Runs call e out

@[simp] theorem dataType_mk (type : NodeType) (address : Bool) (dataType : DataType)
    (child : List Node) : (Node.mk type address dataType child).dataType = dataType := rfl

theorem compiles_char (c : Byte) : Compiles call (.char c) := by
  refine ⟨[code (.ld .byte), c], ⟨.mk (.valueChar c) false (some .byte) [], rfl, rfl, rfl⟩, ?_⟩
  intro rest stack sp mem v mem' hroom heval
  obtain ⟨rfl, rfl⟩ := Prod.mk.inj (Option.some.inj heval)
  have hcode : [code (.ld .byte), c] = codeLd .byte (c.setWidth 32) := by
    have hbyte : byteOf 0 (c.setWidth 32) = c := by
      refine BitVec.eq_of_toNat_eq ?_
      have hlt := c.isLt
      rw [byteOf, BitVec.extractLsb'_toNat, BitVec.toNat_setWidth, Nat.shiftRight_zero]
      omega
    rw [codeLd, codeOf, hbyte]
  have hlow : Width.byte.low (c.setWidth 32) = c.setWidth 32 := by
    refine BitVec.eq_of_toNat_eq ?_
    have hlt := c.isLt
    rw [toNat_low, BitVec.toNat_setWidth, Width.bits]
    omega
  have hpush : Pushes call ⟨codeLd .byte (c.setWidth 32) ++ rest, stack, sp, mem⟩ rest sp .byte _
    mem := pushes_ld hroom
  rw [hlow, ← hcode] at hpush
  exact hpush

theorem compiles_const (k : Constant) (v : Word) : Compiles call (.const k v) := by
  refine ⟨codeLd .dword v, ⟨.mk (k.nodeType v) false (some .dword) [], ?_, rfl, ?_⟩, ?_⟩
  · cases k <;> rfl
  · cases k <;> rfl
  intro rest stack sp mem v' mem' hroom heval
  obtain ⟨rfl, rfl⟩ := Prod.mk.inj (Option.some.inj heval)
  have hpush : Pushes call ⟨codeLd .dword v ++ rest, stack, sp, mem⟩ rest sp .dword _ mem :=
    pushes_ld hroom
  rw [low_dword] at hpush
  exact hpush

theorem dataType_of_load {type : FinshType} {w : Width} (h : type.load = some w) :
    type.dataType = some (some w) := by
  cases type <;> first | (cases h; rfl) | cases h

theorem variable_emits {w : Width} (h : symbol.width = some w) (isAddr : Bool) :
    typeCheck isAddr (.new (.id symbol) []) = some (.mk (.id symbol) isAddr (some w) []) ∧
      codeId isAddr symbol =
        if isAddr then codeLd .dword symbol.address else codeLdValue w symbol.address := by
  cases symbol with
  | var pointer type =>
    have hload : type.load = some w := h
    have htype := dataType_of_load hload
    refine ⟨?_, ?_⟩
    · rw [Node.new, typeCheck, typeCheckList]
      simp only [leafType, htype, isSyscall, Bool.false_or]
      rfl
    · rw [codeId, hload]
      rfl
  | sysvar pointer type value =>
    have hload : type.load = some w := h
    have htype := dataType_of_load hload
    refine ⟨?_, ?_⟩
    · rw [Node.new, typeCheck, typeCheckList]
      simp only [leafType, htype, isSyscall, Bool.false_or]
      rfl
    · rw [codeId, hload]
      rfl
  | syscall pointer func => cases h

theorem compiles_id (h : (Expr.id symbol).WellTyped) : Compiles call (.id symbol) := by
  obtain hsyscall | ⟨w, hw⟩ := h
  · cases symbol with
    | var pointer type => cases hsyscall
    | sysvar pointer type value => cases hsyscall
    | syscall pointer func =>
      refine ⟨codeLd .dword func, ⟨.mk (.id (.syscall pointer func)) false none [], rfl, rfl, rfl⟩, ?_⟩
      intro rest stack sp mem v mem' hroom heval
      obtain ⟨rfl, rfl⟩ := Prod.mk.inj (Option.some.inj heval)
      have hpush : Pushes call ⟨codeLd .dword func ++ rest, stack, sp, mem⟩ rest sp .dword _ mem :=
        pushes_ld hroom
      rw [low_dword] at hpush
      exact hpush
  · obtain ⟨hcheck, hcode⟩ := variable_emits hw false
    refine ⟨codeLdValue w symbol.address, ⟨_, hcheck, hw.symm, ?_⟩, ?_⟩
    · rw [compile, compileList, codeNode, hcode]
      rfl
    intro rest stack sp mem v mem' hroom heval
    rw [Expr.eval, hw] at heval
    obtain ⟨rfl, rfl⟩ := Prod.mk.inj (Option.some.inj heval)
    have hextent : (Expr.id symbol).extent = w := by
      rw [Expr.extent, hw]
      rfl
    rw [hextent]
    exact pushes_ldValue hroom

theorem compiles_bin (ha : Compiles call a) (hb : Compiles call b)
    (hleft : Within a.type a.extent) (hright : Within a.type b.extent) :
    Compiles call (.bin o a b) := by
  obtain ⟨out, ⟨node, hcheck, htype, hout⟩, hruns⟩ := ha
  obtain ⟨out', ⟨node', hcheck', -, hout'⟩, hruns'⟩ := hb
  obtain ⟨w, hw, hle⟩ := hleft
  obtain ⟨w', hw', hle'⟩ := hright
  obtain rfl : w = w' := Option.some.inj (hw.symm.trans hw')
  refine ⟨out ++ (out' ++ [code (.bin o w)]),
    ⟨.mk (.sysBin o) false (some w) [node, node'], ?_, hw.symm, ?_⟩, ?_⟩
  · simp [Node.new, typeCheck, typeCheckList, childAddress, hcheck, hcheck', isSyscall, htype, hw]
  · simp [compile, compileList, hout, hout', codeNode]
  intro rest stack sp mem v mem' hroom heval
  simp only [Expr.eval, Option.bind_eq_bind, Option.bind_eq_some_iff, Prod.exists, hw,
    Option.some.injEq, exists_eq_left', Prod.mk.injEq] at heval
  obtain ⟨x, mem₁, hx, y, mem₂, hy, r, hr, rfl, rfl⟩ := heval
  rw [Expr.depth] at hroom
  have hextent : (Expr.bin o a b).extent = w := by
    rw [Expr.extent, hw]
    rfl
  obtain ⟨stack₁, hreach₁, hvalue₁, hsame₁⟩ :=
    hruns (out' ++ ([code (.bin o w)] ++ rest)) stack sp mem x mem₁ (by omega) hx
  obtain ⟨stack₂, hreach₂, hvalue₂, hsame₂⟩ :=
    hruns' ([code (.bin o w)] ++ rest) stack₁ (sp + 1) mem₁ y mem₂ (by omega) hy
  have hreadx : w.read (stack₂ sp) = w.read x := by
    refine read_congr w ?_
    rw [hsame₂ sp (Nat.lt_succ_self sp), ← hvalue₁, low_low _ hle]
  have hready : w.read (stack₂ (sp + 1)) = w.read y := by
    refine read_congr w ?_
    rw [← hvalue₂, low_low _ hle']
  rw [hextent]
  simp only [List.append_assoc]
  refine Pushes.of_reaches (hreach₁.trans hreach₂) (fun i hi ↦ ?_) (pushes_bin ?_)
  · exact (hsame₂ i (Nat.lt_succ_of_lt hi)).trans (hsame₁ i hi)
  · rw [hreadx, hready, hr]

theorem compiles_bitwise (ha : Compiles call a) (htype : Within a.type a.extent) :
    Compiles call (.bitwise a) := by
  obtain ⟨out, ⟨node, hcheck, hnode, hout⟩, hruns⟩ := ha
  obtain ⟨w, hw, hle⟩ := htype
  refine ⟨out ++ [code (.bw w)], ⟨.mk .sysBitwise false (some w) [node], ?_, hw.symm, ?_⟩, ?_⟩
  · simp [Node.new, typeCheck, typeCheckList, childAddress, hcheck, isSyscall, hnode, hw]
  · simp [compile, compileList, hout, codeNode]
  intro rest stack sp mem v mem' hroom heval
  simp only [Expr.eval, Option.bind_eq_bind, Option.bind_eq_some_iff, Prod.exists, hw,
    Option.some.injEq, exists_eq_left', Prod.mk.injEq] at heval
  obtain ⟨x, mem₁, hx, rfl, rfl⟩ := heval
  have hextent : (Expr.bitwise a).extent = w := by
    rw [Expr.extent, hw]
    rfl
  obtain ⟨stack₁, hreach₁, hvalue₁, hsame₁⟩ :=
    hruns ([code (.bw w)] ++ rest) stack sp mem x mem₁ hroom hx
  have hread : w.read x = w.read (stack₁ sp) := by
    refine read_congr w ?_
    rw [← hvalue₁, low_low _ hle]
  rw [hextent, hread, List.append_assoc]
  exact Pushes.of_reaches hreach₁ hsame₁ pushes_bw

theorem compiles_valueAt (hp : Compiles call p) (hextent : p.extent = .dword) {w : Width}
    (hw : p.type = some w) : Compiles call (.valueAt p) := by
  obtain ⟨out, ⟨node, hcheck, hnode, hout⟩, hruns⟩ := hp
  refine ⟨out ++ [code (.ldValueStack w)],
    ⟨.mk .sysGetvalue false (some w) [node], ?_, hw.symm, ?_⟩, ?_⟩
  · simp [Node.new, typeCheck, typeCheckList, childAddress, hcheck, isSyscall, hnode, hw]
  · simp [compile, compileList, hout, codeNode]
  intro rest stack sp mem v mem' hroom heval
  simp only [Expr.eval, Option.bind_eq_bind, Option.bind_eq_some_iff, Prod.exists, hw,
    Option.some.injEq, exists_eq_left', Prod.mk.injEq] at heval
  obtain ⟨x, mem₁, hx, rfl, rfl⟩ := heval
  have hwidth : (Expr.valueAt p).extent = w := by
    rw [Expr.extent, hw]
    rfl
  obtain ⟨stack₁, hreach₁, hvalue₁, hsame₁⟩ :=
    hruns ([code (.ldValueStack w)] ++ rest) stack sp mem x mem₁ hroom hx
  rw [hextent, low_dword] at hvalue₁
  rw [hwidth, ← hvalue₁, List.append_assoc]
  exact Pushes.of_reaches hreach₁ hsame₁ pushes_ldValueStack

theorem compiles_address {w : Width} (hw : symbol.width = some w) :
    Compiles call (.address symbol) := by
  obtain ⟨hcheck, hcode⟩ := variable_emits hw true
  refine ⟨codeLd .dword symbol.address,
    ⟨.mk .sysGetaddr false (some w) [.mk (.id symbol) true (some w) []], ?_, hw.symm, ?_⟩, ?_⟩
  · rw [Expr.node, Node.new, typeCheck, typeCheckList, childAddress, hcheck]
    rfl
  · simp [compile, compileList, codeNode, hcode]
  intro rest stack sp mem v mem' hroom heval
  obtain ⟨rfl, rfl⟩ := Prod.mk.inj (Option.some.inj heval)
  have hpush : Pushes call ⟨codeLd .dword symbol.address ++ rest, stack, sp, mem⟩ rest sp .dword _
    mem := pushes_ld hroom
  rw [low_dword] at hpush
  exact hpush

theorem compiles_addressAt (hp : Compiles call p) (hextent : p.extent = .dword) :
    Compiles call (.addressAt p) := by
  obtain ⟨out, ⟨node, hcheck, hnode, hout⟩, hruns⟩ := hp
  refine ⟨out, ⟨.mk .sysGetaddr false p.type [.mk .sysGetvalue true p.type [node]], ?_, rfl, ?_⟩, ?_⟩
  · simp [Node.new, typeCheck, typeCheckList, childAddress, hcheck, isSyscall, hnode]
  · simp [compile, compileList, hout, codeNode]
  intro rest stack sp mem v mem' hroom heval
  have hpush := hruns rest stack sp mem v mem' hroom heval
  rw [hextent] at hpush
  exact hpush

theorem pushes_assign {w : Width} {rest : List Byte} {stack : ℕ → Word} {sp : ℕ} {mem : Memory}
    {x : Word} (hx : w.low (stack (sp + 1)) = w.low x) :
    Pushes call ⟨code (.st w) :: code (.ldValueStack w) :: rest, stack, sp + 2, mem⟩ rest sp w
      (load w (store w mem (stack sp) x) (stack sp)) (store w mem (stack sp) x) := by
  refine Pushes.of_reaches (.single step_st) (fun _ _ ↦ rfl) ?_
  rw [store_congr w (stack sp) mem hx]
  exact pushes_ldValueStack

theorem compiles_assign (he : Compiles call e) (hwithin : Within symbol.width e.extent) :
    Compiles call (.assign symbol e) := by
  obtain ⟨out, ⟨node, hcheck, -, hout⟩, hruns⟩ := he
  obtain ⟨w, hw, hle⟩ := hwithin
  obtain ⟨hid, hcode⟩ := variable_emits hw true
  refine ⟨codeLd .dword symbol.address ++ (out ++ [code (.st w), code (.ldValueStack w)]),
    ⟨.mk .sysAssign false (some w) [.mk (.id symbol) true (some w) [], node], ?_, hw.symm, ?_⟩, ?_⟩
  · rw [Expr.node, Node.new, typeCheck, typeCheckList, childAddress, hid, typeCheckList, hcheck]
    rfl
  · simp [compile, compileList, codeNode, hcode, hout]
  intro rest stack sp mem v mem' hroom heval
  simp only [Expr.eval, Option.bind_eq_bind, Option.bind_eq_some_iff, Prod.exists, hw,
    Option.some.injEq, exists_eq_left', Prod.mk.injEq] at heval
  obtain ⟨x, mem₁, hx, rfl, rfl⟩ := heval
  rw [Expr.depth] at hroom
  have hextent : (Expr.assign symbol e).extent = w := by
    rw [Expr.extent, hw]
    rfl
  have haddress : Pushes call ⟨codeLd .dword symbol.address ++
      (out ++ ([code (.st w), code (.ldValueStack w)] ++ rest)), stack, sp, mem⟩ _ sp .dword _ mem :=
    pushes_ld (by omega)
  obtain ⟨stack₁, hreach₁, hvalue₁, hsame₁⟩ := haddress
  obtain ⟨stack₂, hreach₂, hvalue₂, hsame₂⟩ :=
    hruns ([code (.st w), code (.ldValueStack w)] ++ rest) stack₁ (sp + 1) mem x mem₁ (by omega) hx
  rw [low_dword, low_dword] at hvalue₁
  have hplace : stack₂ sp = symbol.address := (hsame₂ sp (Nat.lt_succ_self sp)).trans hvalue₁
  have hassign : Pushes call ⟨code (.st w) :: code (.ldValueStack w) :: rest, stack₂, sp + 2, mem₁⟩
      rest sp w (load w (store w mem₁ symbol.address x) symbol.address)
      (store w mem₁ symbol.address x) := by
    rw [← hplace]
    exact pushes_assign (by rw [← hvalue₂, low_low _ hle])
  rw [hextent]
  simp only [List.append_assoc]
  refine Pushes.of_reaches (hreach₁.trans hreach₂) (fun i hi ↦ ?_) hassign
  exact (hsame₂ i (Nat.lt_succ_of_lt hi)).trans (hsame₁ i hi)

theorem compiles_assignAt (hp : Compiles call p) (he : Compiles call e)
    (hextent : p.extent = .dword) (hwithin : Within p.type e.extent) :
    Compiles call (.assignAt p e) := by
  obtain ⟨out, ⟨node, hcheck, hnode, hout⟩, hruns⟩ := hp
  obtain ⟨out', ⟨node', hcheck', -, hout'⟩, hruns'⟩ := he
  obtain ⟨w, hw, hle⟩ := hwithin
  refine ⟨out ++ (out' ++ [code (.st w), code (.ldValueStack w)]),
    ⟨.mk .sysAssign false (some w) [.mk .sysGetvalue true (some w) [node], node'], ?_, hw.symm, ?_⟩,
      ?_⟩
  · simp [Node.new, typeCheck, typeCheckList, childAddress, hcheck, hcheck', isSyscall, hnode, hw]
  · simp [compile, compileList, codeNode, hout, hout']
  intro rest stack sp mem v mem' hroom heval
  simp only [Expr.eval, Option.bind_eq_bind, Option.bind_eq_some_iff, Prod.exists, hw,
    Option.some.injEq, exists_eq_left', Prod.mk.injEq] at heval
  obtain ⟨y, mem₁, hy, x, mem₂, hx, rfl, rfl⟩ := heval
  rw [Expr.depth] at hroom
  have hwidth : (Expr.assignAt p e).extent = w := by
    rw [Expr.extent, hw]
    rfl
  obtain ⟨stack₁, hreach₁, hvalue₁, hsame₁⟩ :=
    hruns (out' ++ ([code (.st w), code (.ldValueStack w)] ++ rest)) stack sp mem y mem₁ (by omega) hy
  obtain ⟨stack₂, hreach₂, hvalue₂, hsame₂⟩ :=
    hruns' ([code (.st w), code (.ldValueStack w)] ++ rest) stack₁ (sp + 1) mem₁ x mem₂ (by omega) hx
  rw [hextent, low_dword] at hvalue₁
  have hplace : stack₂ sp = y := (hsame₂ sp (Nat.lt_succ_self sp)).trans hvalue₁
  rw [hwidth, ← hplace]
  simp only [List.append_assoc]
  refine Pushes.of_reaches (hreach₁.trans hreach₂) (fun i hi ↦ ?_) (pushes_assign ?_)
  · exact (hsame₂ i (Nat.lt_succ_of_lt hi)).trans (hsame₁ i hi)
  · rw [← hvalue₂, low_low _ hle]

theorem reaches_step {w : Width} {rest : List Byte} {stack : ℕ → Word} {sp : ℕ} {mem : Memory}
    {r : Word} (hroom : sp + 3 ≤ stackMax)
    (hr : o.apply (w.read (load w mem (stack sp))) 1 = some r) :
    ∃ stack', Reaches (step call)
      ⟨codeLdValue w (stack sp) ++ codeLd w 1 ++ code (.bin o w) :: code (.st w) :: rest,
        stack, sp + 1, mem⟩ ⟨rest, stack', sp + 1, store w mem (stack sp) r⟩ ∧
      ∀ i < sp + 1, stack' i = stack i := by
  have hvalue : Pushes call ⟨codeLdValue w (stack sp) ++ (codeLd w 1 ++
      (code (.bin o w) :: code (.st w) :: rest)), stack, sp + 1, mem⟩ _ (sp + 1) w _ mem :=
    pushes_ldValue (by omega)
  obtain ⟨stack₁, hreach₁, hvalue₁, hsame₁⟩ := hvalue
  have hone : Pushes call ⟨codeLd w 1 ++ (code (.bin o w) :: code (.st w) :: rest),
      stack₁, sp + 2, mem⟩ _ (sp + 2) w _ mem := pushes_ld (by omega)
  obtain ⟨stack₂, hreach₂, hvalue₂, hsame₂⟩ := hone
  have hreadx : w.read (stack₂ (sp + 1)) = w.read (load w mem (stack sp)) := by
    refine read_congr w ?_
    rw [hsame₂ (sp + 1) (Nat.lt_succ_self _), hvalue₁, low_load_of_eq]
  have hreadone : w.read (stack₂ (sp + 2)) = 1 := by
    rw [read_congr w hvalue₂]
    cases w <;> rfl
  have hbin : Pushes call ⟨code (.bin o w) :: code (.st w) :: rest, stack₂, sp + 3, mem⟩ _ (sp + 1)
      w (w.low r) mem := pushes_bin (by rw [hreadx, hreadone, hr])
  obtain ⟨stack₃, hreach₃, hvalue₃, hsame₃⟩ := hbin
  have hbelow {i : ℕ} (hi : i < sp + 1) : stack₃ i = stack i :=
    ((hsame₃ i hi).trans (hsame₂ i (Nat.lt_succ_of_lt hi))).trans (hsame₁ i hi)
  refine ⟨stack₃, ?_, fun i hi ↦ hbelow hi⟩
  rw [List.append_assoc]
  refine ((hreach₁.trans hreach₂).trans hreach₃).trans (.single ?_)
  rw [step_st, store_congr w _ mem hvalue₃, hbelow (Nat.lt_succ_self sp)]

theorem compiles_pre (ho : o = .add ∨ o = .sub) {pointer : Word} {type : FinshType} {w : Width}
    (hw : type.load = some w) : Compiles call (.pre o (.var pointer type)) := by
  have hwidth : (Symbol.var pointer type).width = some w := hw
  obtain ⟨hid, hcode⟩ := variable_emits hwidth true
  have haddress : valueAddress (Symbol.var pointer type).pointer = (Symbol.var pointer type).address :=
    rfl
  set a := (Symbol.var pointer type).address
  refine ⟨codeLd .dword a ++ codePre o w a,
    ⟨.mk (preType o) false (some w) [.mk (.id (.var pointer type)) true (some w) []], ?_, hwidth.symm,
      ?_⟩, ?_⟩
  · obtain rfl | rfl := ho
    · change typeCheck false (.mk .sysPreinc false none [.new (.id (.var pointer type)) []]) = _
      rw [typeCheck, typeCheckList, childAddress, hid]
      rfl
    · change typeCheck false (.mk .sysPredec false none [.new (.id (.var pointer type)) []]) = _
      rw [typeCheck, typeCheckList, childAddress, hid]
      rfl
  · obtain rfl | rfl := ho
    all_goals
      simp only [compile, compileList, preType, codeNode, hcode, codeStep, haddress]
      simp
  intro rest stack sp mem v mem' hroom heval
  simp only [Expr.eval, hwidth, Option.bind_eq_bind, Option.bind_eq_some_iff, Option.some.injEq,
    exists_eq_left', Prod.mk.injEq] at heval
  obtain ⟨r, hr, rfl, rfl⟩ := heval
  change o.apply (w.read (load w mem a)) 1 = some r at hr
  rw [Expr.depth] at hroom
  have hextent : (Expr.pre o (.var pointer type)).extent = w := by
    rw [Expr.extent, hwidth]
    rfl
  have hplace : Pushes call ⟨codeLd .dword a ++ (codeLdValue w a ++ codeLd w 1 ++
      (code (.bin o w) :: code (.st w) :: code (.ldValueStack .dword) :: rest)), stack, sp, mem⟩ _ sp
      .dword _ mem := pushes_ld (by omega)
  obtain ⟨stack₁, hreach₁, hvalue₁, hsame₁⟩ := hplace
  rw [low_dword, low_dword] at hvalue₁
  obtain ⟨stack₂, hreach₂, hsame₂⟩ : ∃ stack₂, Reaches (step call)
      ⟨codeLdValue w a ++ codeLd w 1 ++
        (code (.bin o w) :: code (.st w) :: code (.ldValueStack .dword) :: rest), stack₁, sp + 1, mem⟩
      ⟨code (.ldValueStack .dword) :: rest, stack₂, sp + 1, store w mem a r⟩ ∧
      ∀ i < sp + 1, stack₂ i = stack₁ i := by
    rw [← hvalue₁] at hr ⊢
    exact reaches_step (by omega) hr
  have hagain : Pushes call ⟨code (.ldValueStack .dword) :: rest, stack₂, sp + 1, store w mem a r⟩
      rest sp .dword _ (store w mem a r) := pushes_ldValueStack
  obtain ⟨stack₃, hreach₃, hvalue₃, hsame₃⟩ := hagain
  rw [low_dword, hsame₂ sp (Nat.lt_succ_self sp), hvalue₁] at hvalue₃
  rw [hextent]
  refine ⟨stack₃, ?_, ?_, fun i hi ↦ ?_⟩
  · have hcode : codeLd .dword a ++ codePre o w a ++ rest = codeLd .dword a ++ (codeLdValue w a ++
        codeLd w 1 ++ (code (.bin o w) :: code (.st w) :: code (.ldValueStack .dword) :: rest)) := by
      simp [codePre]
    rw [hcode]
    exact (hreach₁.trans hreach₂).trans hreach₃
  · rw [hvalue₃, low_load]
  · exact ((hsame₃ i hi).trans (hsame₂ i (Nat.lt_succ_of_lt hi))).trans (hsame₁ i hi)

theorem compiles_post (ho : o = .add ∨ o = .sub) {pointer : Word} {type : FinshType} {w : Width}
    (hw : type.load = some w) : Compiles call (.post o (.var pointer type)) := by
  have hwidth : (Symbol.var pointer type).width = some w := hw
  obtain ⟨hid, hcode⟩ := variable_emits hwidth false
  have haddress : valueAddress (Symbol.var pointer type).pointer = (Symbol.var pointer type).address :=
    rfl
  set a := (Symbol.var pointer type).address
  refine ⟨codeLdValue w a ++ codePost o w a,
    ⟨.mk (postType o) false (some w) [.mk (.id (.var pointer type)) false (some w) []], ?_,
      hwidth.symm, ?_⟩, ?_⟩
  · obtain rfl | rfl := ho
    · change typeCheck false (.mk .sysInc false none [.new (.id (.var pointer type)) []]) = _
      rw [typeCheck, typeCheckList, show childAddress .sysInc false = false from rfl, hid]
      rfl
    · change typeCheck false (.mk .sysDec false none [.new (.id (.var pointer type)) []]) = _
      rw [typeCheck, typeCheckList, show childAddress .sysDec false = false from rfl, hid]
      rfl
  · obtain rfl | rfl := ho
    all_goals
      simp only [compile, compileList, postType, codeNode, hcode, codeStep, haddress]
      simp
  intro rest stack sp mem v mem' hroom heval
  simp only [Expr.eval, hwidth, Option.bind_eq_bind, Option.bind_eq_some_iff, Option.some.injEq,
    exists_eq_left', Prod.mk.injEq] at heval
  obtain ⟨r, hr, rfl, rfl⟩ := heval
  change o.apply (w.read (load w mem a)) 1 = some r at hr
  rw [Expr.depth] at hroom
  have hextent : (Expr.post o (.var pointer type)).extent = w := by
    rw [Expr.extent, hwidth]
    rfl
  have hold : Pushes call ⟨codeLdValue w a ++ (codeLd .dword a ++ (codeLdValue w a ++ codeLd w 1 ++
      (code (.bin o w) :: code (.st w) :: code .pop :: rest))), stack, sp, mem⟩ _ sp w _ mem :=
    pushes_ldValue (by omega)
  obtain ⟨stack₁, hreach₁, hvalue₁, hsame₁⟩ := hold
  have hplace : Pushes call ⟨codeLd .dword a ++ (codeLdValue w a ++ codeLd w 1 ++
      (code (.bin o w) :: code (.st w) :: code .pop :: rest)), stack₁, sp + 1, mem⟩ _ (sp + 1)
      .dword _ mem := pushes_ld (by omega)
  obtain ⟨stack₂, hreach₂, hvalue₂, hsame₂⟩ := hplace
  rw [low_dword, low_dword] at hvalue₂
  obtain ⟨stack₃, hreach₃, hsame₃⟩ : ∃ stack₃, Reaches (step call)
      ⟨codeLdValue w a ++ codeLd w 1 ++ (code (.bin o w) :: code (.st w) :: code .pop :: rest),
        stack₂, sp + 2, mem⟩ ⟨code .pop :: rest, stack₃, sp + 2, store w mem a r⟩ ∧
      ∀ i < sp + 2, stack₃ i = stack₂ i := by
    rw [← hvalue₂] at hr ⊢
    exact reaches_step (by omega) hr
  rw [hextent]
  refine ⟨stack₃, ?_, ?_, fun i hi ↦ ?_⟩
  · have hcode : codeLdValue w a ++ codePost o w a ++ rest = codeLdValue w a ++ (codeLd .dword a ++
        (codeLdValue w a ++ codeLd w 1 ++
          (code (.bin o w) :: code (.st w) :: code .pop :: rest))) := by
      simp [codePost]
    rw [hcode]
    exact (hreach₁.trans hreach₂).trans (hreach₃.tail step_pop)
  · rw [hsame₃ sp (by omega), hsame₂ sp (Nat.lt_succ_self sp), hvalue₁]
  · exact (hsame₃ i (by omega)).trans ((hsame₂ i (by omega)).trans (hsame₁ i hi))

def CompilesAll (call : Word → List Word → Memory → Option (Word × Memory)) (args : List Expr) :
    Prop :=
  ∃ out checked, typeCheckList false (nodes args) = some checked ∧ checked.length = args.length ∧
    compileList checked = some out ∧
    ∀ rest stack sp mem xs mem', sp + argsDepth args ≤ stackMax →
      evalArgs call args mem = some (xs, mem') → ∃ stack',
        Reaches (step call) ⟨out ++ rest, stack, sp, mem⟩ ⟨rest, stack', sp + args.length, mem'⟩ ∧
        xs = (List.range args.length).map (fun i ↦ stack' (sp + i)) ∧ ∀ i < sp, stack' i = stack i

theorem compilesAll_nil : CompilesAll call [] := by
  refine ⟨[], [], rfl, rfl, rfl, fun rest stack sp mem xs mem' _ heval ↦ ?_⟩
  obtain ⟨rfl, rfl⟩ := Prod.mk.inj (Option.some.inj heval)
  exact ⟨stack, .refl _, rfl, fun i _ ↦ rfl⟩

theorem compilesAll_cons (he : Compiles call e) (hextent : e.extent = .dword)
    (hargs : CompilesAll call args) : CompilesAll call (e :: args) := by
  obtain ⟨out, ⟨node, hcheck, -, hout⟩, hruns⟩ := he
  obtain ⟨outs, checked, hchecks, hlength, houts, hall⟩ := hargs
  refine ⟨out ++ outs, node :: checked, ?_, ?_, ?_, ?_⟩
  · simp [typeCheckList, hcheck, hchecks]
  · rw [List.length_cons, List.length_cons, hlength]
  · simp [compileList, hout, houts]
  intro rest stack sp mem xs mem' hroom heval
  simp only [evalArgs, Option.bind_eq_bind, Option.bind_eq_some_iff, Prod.exists,
    Option.some.injEq, Prod.mk.injEq] at heval
  obtain ⟨x, mem₁, hx, ys, mem₂, hys, rfl, rfl⟩ := heval
  rw [argsDepth] at hroom
  obtain ⟨stack₁, hreach₁, hvalue₁, hsame₁⟩ :=
    hruns (outs ++ rest) stack sp mem x mem₁ (by omega) hx
  obtain ⟨stack₂, hreach₂, hvalues, hsame₂⟩ :=
    hall rest stack₁ (sp + 1) mem₁ ys mem₂ (by omega) hys
  rw [hextent, low_dword] at hvalue₁
  have hplace (i : ℕ) : sp + 1 + i = sp + (i + 1) := by omega
  have hfirst : stack₂ sp = x := (hsame₂ sp (Nat.lt_succ_self sp)).trans hvalue₁
  refine ⟨stack₂, ?_, ?_, fun i hi ↦ ?_⟩
  · rw [List.append_assoc, List.length_cons, ← hplace]
    exact hreach₁.trans hreach₂
  · rw [List.length_cons, List.range_succ_eq_map, List.map_cons, List.map_map, hvalues,
      show stack₂ (sp + 0) = x from hfirst]
    simp only [hplace, Function.comp_def, Nat.succ_eq_add_one]
  · exact (hsame₂ i (Nat.lt_succ_of_lt hi)).trans (hsame₁ i hi)

theorem compiles_call (hf : Compiles call f) (hextent : f.extent = .dword)
    (hargs : CompilesAll call args) (hcount : args.length ≤ 16) : Compiles call (.call f args) := by
  obtain ⟨out, ⟨node, hcheck, hnode, hout⟩, hruns⟩ := hf
  obtain ⟨outs, checked, hchecks, hlength, houts, hall⟩ := hargs
  refine ⟨out ++ outs ++ [code .call, BitVec.ofNat 8 args.length],
    ⟨.mk .sysFunc false f.type (node :: checked), ?_, rfl, ?_⟩, ?_⟩
  · simp [Node.new, typeCheck, typeCheckList, childAddress, hcheck, hchecks, isSyscall, hnode]
  · simp [compile, compileList, codeNode, hout, houts, hlength]
  intro rest stack sp mem v mem' hroom heval
  simp only [Expr.eval, Option.bind_eq_bind, Option.bind_eq_some_iff, Prod.exists] at heval
  obtain ⟨g, mem₁, hg, xs, mem₂, hxs, hcall⟩ := heval
  rw [Expr.depth] at hroom
  obtain ⟨stack₁, hreach₁, hvalue₁, hsame₁⟩ := hruns
    (outs ++ ([code .call, BitVec.ofNat 8 args.length] ++ rest)) stack sp mem g mem₁ (by omega) hg
  obtain ⟨stack₂, hreach₂, hvalues, hsame₂⟩ := hall
    ([code .call, BitVec.ofNat 8 args.length] ++ rest) stack₁ (sp + 1) mem₁ xs mem₂ (by omega) hxs
  rw [hextent, low_dword] at hvalue₁
  have hfunction : stack₂ sp = g := (hsame₂ sp (Nat.lt_succ_self sp)).trans hvalue₁
  have hnumber : (BitVec.ofNat 8 args.length).toNat = args.length := by
    rw [BitVec.toNat_ofNat]
    omega
  have hnone : xs = [] ↔ args.length = 0 := by
    rw [hvalues, List.map_eq_nil_iff, List.range_eq_nil]
  have hslot : sp + 1 + args.length - args.length - 1 = sp := by omega
  have hfirst : sp + 1 + args.length - args.length = sp + 1 := by omega
  have hvalue : call (stack₂ sp) (if args.length = 0 then [0] else xs) mem₂ = some (v, mem') := by
    rw [hfunction]
    simpa only [hnone] using hcall
  have hstep : step call ⟨code .call :: BitVec.ofNat 8 args.length :: rest, stack₂,
      sp + 1 + args.length, mem₂⟩ =
        some ⟨rest, Function.update stack₂ sp (Width.dword.put v (stack₂ sp)), sp + 1, mem'⟩ := by
    rw [step_code, exec]
    simp only [hnumber]
    rw [if_pos ⟨hcount, by omega⟩, hslot, hfirst, ← hvalues, hvalue]
    rfl
  refine Pushes.of_reaches (t := ⟨code .call :: BitVec.ofNat 8 args.length :: rest, stack₂,
    sp + 1 + args.length, mem₂⟩) ?_ (fun i hi ↦ ?_)
    (pushes_of_step ((low_put .dword v (stack₂ sp)).trans (low_dword v)) hstep)
  · simp only [List.append_assoc]
    exact hreach₁.trans hreach₂
  · exact (hsame₂ i (Nat.lt_succ_of_lt hi)).trans (hsame₁ i hi)

mutual

theorem compiles : (e : Expr) → e.WellTyped → Compiles call e
  | .char c, _ => compiles_char c
  | .const k v, _ => compiles_const k v
  | .id _, h => compiles_id h
  | .bin _ a b, ⟨ha, hb, hleft, hright⟩ => compiles_bin (compiles a ha) (compiles b hb) hleft hright
  | .bitwise a, ⟨ha, htype⟩ => compiles_bitwise (compiles a ha) htype
  | .assign _ e, ⟨he, hwithin⟩ => compiles_assign (compiles e he) hwithin
  | .assignAt p e, ⟨hp, he, hextent, hwithin⟩ =>
    compiles_assignAt (compiles p hp) (compiles e he) hextent hwithin
  | .pre _ _, ⟨ho, _, _, _, hsymbol, hw⟩ => by
    subst hsymbol
    exact compiles_pre ho hw
  | .post _ _, ⟨ho, _, _, _, hsymbol, hw⟩ => by
    subst hsymbol
    exact compiles_post ho hw
  | .valueAt p, ⟨hp, hextent, _, hw⟩ => compiles_valueAt (compiles p hp) hextent hw
  | .address _, ⟨_, hw⟩ => compiles_address hw
  | .addressAt p, ⟨hp, hextent⟩ => compiles_addressAt (compiles p hp) hextent
  | .call f args, ⟨hf, hextent, hcount, hargs⟩ =>
    compiles_call (compiles f hf) hextent (compilesAll args hargs) hcount

theorem compilesAll : (args : List Expr) → AllWellTyped args → CompilesAll call args
  | [], _ => compilesAll_nil
  | e :: es, ⟨⟨he, hextent⟩, hes⟩ => compilesAll_cons (compiles e he) hextent (compilesAll es hes)

end

end Expressions

end GiantGecko.Finsh.Compiler
