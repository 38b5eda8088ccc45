import GiantGecko.Finsh.CompilerSound

namespace GiantGecko.Finsh.Compiler

open Vm Foundation.Machine

variable {call : Word → List Word → Memory → Option (Word × Memory)} {e : Expr} {es : List Expr}

section Depth

theorem count_pos (node : Node) : 1 ≤ node.count := by
  cases node
  exact Nat.le_add_left 1 _

mutual

/-- The parser has few nodes, and so the stack has room for what it makes of them. -/
theorem depth_le : (e : Expr) → e.depth ≤ e.node.count + 2
  | .char _ => by simp [Expr.depth]
  | .const _ _ => by simp [Expr.depth]
  | .id _ => by simp [Expr.depth]
  | .bin _ a b => by
    have ha := depth_le a
    have hb := depth_le b
    simp only [Expr.depth, Expr.node, Node.new, Node.count, countAll]
    omega
  | .bitwise a => by
    have ha := depth_le a
    simp only [Expr.depth, Expr.node, Node.new, Node.count, countAll]
    omega
  | .assign _ e => by
    have he := depth_le e
    simp only [Expr.depth, Expr.node, Node.new, Node.count, countAll]
    omega
  | .assignAt p e => by
    have hp := depth_le p
    have he := depth_le e
    simp only [Expr.depth, Expr.node, Node.new, Node.count, countAll]
    omega
  | .pre _ _ => by simp [Expr.depth, Expr.node, Node.new, Node.count, countAll]
  | .post _ _ => by simp [Expr.depth, Expr.node, Node.new, Node.count, countAll]
  | .valueAt p => by
    have hp := depth_le p
    simp only [Expr.depth, Expr.node, Node.new, Node.count, countAll]
    omega
  | .address _ => by simp [Expr.depth]
  | .addressAt p => by
    have hp := depth_le p
    simp only [Expr.depth, Expr.node, Node.new, Node.count, countAll]
    omega
  | .call f args => by
    have hf := depth_le f
    have hargs := argsDepth_le args
    simp only [Expr.depth, Expr.node, Node.new, Node.count, countAll]
    omega

theorem argsDepth_le : (args : List Expr) → argsDepth args ≤ countAll (nodes args) + 2
  | [] => Nat.zero_le _
  | e :: es => by
    have he := depth_le e
    have hes := argsDepth_le es
    have hpos := count_pos e.node
    simp only [argsDepth, nodes, countAll]
    omega

end

end Depth

section Statements

end Statements

section Size

mutual

theorem typeCheck_count : (node : Node) → (isAddr : Bool) → {checked : Node} →
    typeCheck isAddr node = some checked → checked.count = node.count
  | .mk type address dataType child, isAddr, checked, h => by
    rw [typeCheck, Option.bind_eq_bind, Option.bind_eq_some_iff] at h
    obtain ⟨child', hchild, h⟩ := h
    have hcount := typeCheckList_count child (childAddress type isAddr) hchild
    cases child' with
    | nil =>
      obtain ⟨dataType', -, rfl⟩ := Option.map_eq_some_iff.mp h
      rw [Node.count, Node.count, hcount]
    | cons first rest =>
      obtain rfl := Option.some.inj h
      rw [Node.count, Node.count, hcount]

theorem typeCheckList_count : (nodes : List Node) → (isAddr : Bool) → {checked : List Node} →
    typeCheckList isAddr nodes = some checked → countAll checked = countAll nodes
  | [], _, _, h => by
    obtain rfl := Option.some.inj h
    rfl
  | node :: sibling, isAddr, checked, h => by
    simp only [typeCheckList, Option.bind_eq_bind, Option.bind_eq_some_iff, Option.some.injEq] at h
    obtain ⟨node', hnode, sibling', hsibling, rfl⟩ := h
    rw [countAll, countAll, typeCheck_count node isAddr hnode,
      typeCheckList_count sibling false hsibling]

end

@[simp] theorem codeOf_length_le (w : Width) (x : Word) : (codeOf w x).length ≤ 4 := by
  cases w <;> simp [codeOf]

theorem codeLd_length_le (w : Width) (x : Word) : (codeLd w x).length ≤ 5 :=
  Nat.succ_le_succ (codeOf_length_le w x)

theorem codeLdValue_length (w : Width) (a : Word) : (codeLdValue w a).length = 5 := rfl

theorem codeId_length_le (address : Bool) (symbol : Symbol) : (codeId address symbol).length ≤ 5 := by
  cases symbol with
  | syscall pointer func => exact codeLd_length_le _ _
  | sysvar pointer type value =>
    rw [codeId]
    cases type.load with
    | none => exact Nat.zero_le _
    | some w => cases address <;> exact codeLd_length_le _ _
  | var pointer type =>
    rw [codeId]
    cases type.load with
    | none => exact Nat.zero_le _
    | some w => cases address <;> exact codeLd_length_le _ _

def startsWithId : List Node → Bool
  | .mk (.id _) _ _ _ :: _ => true
  | _ => false

theorem codeStep_length_le {f : Width → Word → List Byte} (hf : ∀ w a, (f w a).length ≤ 18)
    (dataType : DataType) (child : List Node) : (codeStep f dataType child).length ≤ 5 ∨
      startsWithId child = true ∧ (codeStep f dataType child).length ≤ 18 := by
  fun_cases codeStep f dataType child with
  | case1 symbol _ _ _ _ w => exact .inr ⟨rfl, hf w _⟩
  | case2 => exact .inl (Nat.zero_le _)

theorem codePre_length_le (o : BinOp) (w : Width) (a : Word) : (codePre o w a).length ≤ 18 := by
  have hone := codeLd_length_le w 1
  simp only [codePre, List.length_append, codeLdValue_length, List.length_cons, List.length_nil]
  omega

theorem codePost_length_le (o : BinOp) (w : Width) (a : Word) : (codePost o w a).length ≤ 18 := by
  have hone := codeLd_length_le w 1
  have hplace := codeLd_length_le .dword a
  simp only [codePost, List.length_append, codeLdValue_length, List.length_cons, List.length_nil]
  omega

theorem width_list_length_le (dataType : DataType) (f : Width → Byte) :
    (dataType.toList.map f).length ≤ 5 := by
  cases dataType <;> simp

/-- Only the four operators on a variable need more room than a load. -/
theorem codeNode_length {type : NodeType} {address : Bool} {dataType : DataType} {child : List Node}
    {own : List Byte} (h : codeNode type address dataType child = some own) :
    own.length ≤ 5 ∨
      (startsWithId [.mk type address dataType child] = false ∧ startsWithId child = true) ∧
        own.length ≤ 18 := by
  have hstep {f : Width → Word → List Byte} (hf : ∀ w a, (f w a).length ≤ 18)
      (hid : startsWithId [.mk type address dataType child] = false)
      (h : some (codeStep f dataType child) = some own) : own.length ≤ 5 ∨
        (startsWithId [.mk type address dataType child] = false ∧ startsWithId child = true) ∧
          own.length ≤ 18 := by
    obtain rfl := Option.some.inj h
    exact (codeStep_length_le hf dataType child).imp_right fun h ↦ ⟨⟨hid, h.1⟩, h.2⟩
  cases type with
  | id symbol =>
    obtain rfl := Option.some.inj h
    exact .inl (codeId_length_le _ _)
  | valueChar c =>
    obtain rfl := Option.some.inj h
    exact .inl (by simp)
  | valueInt v | valueLong v | valueString v | valueNull v =>
    obtain rfl := Option.some.inj h
    exact .inl (codeLd_length_le _ _)
  | sysBin o =>
    obtain rfl := Option.some.inj h
    exact .inl (width_list_length_le _ _)
  | sysBitwise =>
    obtain rfl := Option.some.inj h
    exact .inl (width_list_length_le _ _)
  | sysFunc =>
    left
    cases child <;> (obtain rfl := Option.some.inj h; simp)
  | sysAssign =>
    left
    rw [codeNode.eq_def] at h
    simp only at h
    split at h
    · obtain ⟨w, -, rfl⟩ := Option.map_eq_some_iff.mp h
      simp
    · obtain ⟨w, -, rfl⟩ := Option.map_eq_some_iff.mp h
      simp
    · obtain rfl := Option.some.inj h
      exact Nat.zero_le _
  | sysPreinc => exact hstep (codePre_length_le .add) rfl h
  | sysPredec => exact hstep (codePre_length_le .sub) rfl h
  | sysInc => exact hstep (codePost_length_le .add) rfl h
  | sysDec => exact hstep (codePost_length_le .sub) rfl h
  | sysNull =>
    obtain rfl := Option.some.inj h
    exact .inl ((codeOf_length_le _ _).trans (Nat.le_succ _))
  | sysGetvalue =>
    obtain rfl := Option.some.inj h
    cases address
    · exact .inl (width_list_length_le _ _)
    · exact .inl (Nat.zero_le _)
  | sysGetaddr =>
    obtain rfl := Option.some.inj h
    exact .inl (Nat.zero_le _)
  | sysCast => cases h

mutual

theorem compile_length : (node : Node) → {out : List Byte} → compile node = some out →
    out.length + 1 ≤ 12 * node.count ∧
      (startsWithId [node] = true → out.length + 7 ≤ 12 * node.count)
  | .mk type address dataType child, out, h => by
    simp only [compile, Option.bind_eq_bind, Option.bind_eq_some_iff, Option.some.injEq] at h
    obtain ⟨children, hchildren, own, hown, rfl⟩ := h
    obtain ⟨hall, hid⟩ := compileList_length child hchildren
    rw [List.length_append, Node.count]
    obtain hshort | ⟨⟨hnode, hchild⟩, hlong⟩ := codeNode_length hown
    · exact ⟨by omega, fun _ ↦ by omega⟩
    · have hfirst := hid hchild
      exact ⟨by omega, fun h ↦ absurd (hnode.symm.trans h) Bool.false_ne_true⟩

theorem compileList_length : (nodes : List Node) → {out : List Byte} →
    compileList nodes = some out → out.length ≤ 12 * countAll nodes ∧
      (startsWithId nodes = true → out.length + 7 ≤ 12 * countAll nodes)
  | [], out, h => by
    obtain rfl := Option.some.inj h
    exact ⟨Nat.zero_le _, fun h ↦ absurd h Bool.false_ne_true⟩
  | node :: sibling, out, h => by
    simp only [compileList, Option.bind_eq_bind, Option.bind_eq_some_iff, Option.some.injEq] at h
    obtain ⟨first, hfirst, rest, hrest, rfl⟩ := h
    obtain ⟨hone, hid⟩ := compile_length node hfirst
    obtain ⟨hall, -⟩ := compileList_length sibling hrest
    rw [List.length_append, countAll]
    refine ⟨by omega, fun h ↦ ?_⟩
    have hnode : startsWithId [node] = true := by
      obtain ⟨type, address, dataType, child⟩ := node
      cases type <;> first | rfl | cases h
    have hshort := hid hnode
    omega

end

theorem joinStatements_length {checked : List Node} {texts : List (List Byte)}
    (h : checked.mapM compile = some texts) :
    (joinStatements texts).length ≤ 12 * countAll checked - 1 := by
  induction checked generalizing texts with
  | nil =>
    obtain rfl := Option.some.inj h
    exact Nat.zero_le _
  | cons node checked ih =>
    simp only [List.mapM_cons, Option.bind_eq_bind, Option.bind_eq_some_iff] at h
    obtain ⟨out, hout, texts, htexts, hcons⟩ := h
    obtain rfl := Option.some.inj hcons
    have hfirst := (compile_length node hout).1
    have hrest := ih htexts
    rw [countAll]
    cases texts with
    | nil =>
      rw [joinStatements]
      omega
    | cons next others =>
      have hpos : 1 ≤ countAll checked := by
        cases checked with
        | nil => cases htexts
        | cons node' rest => exact (count_pos node').trans (Nat.le_add_right _ _)
      rw [joinStatements, List.length_append, List.length_cons]
      · omega
      · simp

theorem finshCompilerRun_length_le {root : List Node} {text : List Byte}
    (h : finshCompilerRun root = some text) : text.length ≤ 12 * countAll root - 1 := by
  simp only [finshCompilerRun, Option.bind_eq_bind, Option.bind_eq_some_iff,
    Option.some.injEq] at h
  obtain ⟨checked, hchecked, texts, htexts, rfl⟩ := h
  rw [← typeCheckList_count root false hchecked]
  exact joinStatements_length htexts

theorem typeCheckList_replicate {node checked : Node} (h : typeCheck false node = some checked)
    (n : ℕ) : typeCheckList false (List.replicate n node) = some (List.replicate n checked) := by
  induction n with
  | zero => rfl
  | succ n ih =>
    rw [List.replicate_succ, typeCheckList, h, ih]
    rfl

theorem mapM_replicate {node : Node} {out : List Byte} (h : compile node = some out) (n : ℕ) :
    (List.replicate n node).mapM compile = some (List.replicate n out) := by
  induction n with
  | zero => rfl
  | succ n ih =>
    rw [List.replicate_succ, List.mapM_cons, h, ih]
    rfl

theorem joinStatements_replicate (out : List Byte) (n : ℕ) :
    (joinStatements (List.replicate (n + 1) out)).length + 1 = (n + 1) * (out.length + 1) := by
  induction n with
  | zero => simp [joinStatements]
  | succ n ih =>
    rw [Nat.succ_mul, ← ih, List.replicate_succ, joinStatements, List.length_append, List.length_cons]
    · omega
    · simp

theorem countAll_replicate (node : Node) (n : ℕ) :
    countAll (List.replicate n node) = n * node.count := by
  induction n with
  | zero => simp [countAll]
  | succ n ih => rw [List.replicate_succ, countAll, ih, Nat.succ_mul, Nat.add_comm]

/-- Twelve bytes for a node are always enough, and as many are needed for `i++; i++; …`: ten
nodes fit into the text segment, but not the twelve nodes of six such statements, though the
parser has sixteen. -/
theorem finshCompilerRun_length : (∀ root text, finshCompilerRun root = some text →
      text.length ≤ 12 * countAll root - 1) ∧
    ∀ pointer type n, type.load = some .dword → ∃ text,
      finshCompilerRun (List.replicate n (Expr.post .add (.var pointer type)).node) = some text ∧
        text.length =
          12 * countAll (List.replicate n (Expr.post .add (.var pointer type)).node) - 1 := by
  refine ⟨fun root text ↦ finshCompilerRun_length_le, fun pointer type n htype ↦ ?_⟩
  have hwidth : (Symbol.var pointer type).width = some .dword := htype
  obtain ⟨hid, hcode⟩ := variable_emits hwidth false
  set a := (Symbol.var pointer type).address
  have hcheck : typeCheck false (Expr.post .add (.var pointer type)).node = some (.mk .sysInc false
      (some .dword) [.mk (.id (.var pointer type)) false (some .dword) []]) := by
    change typeCheck false (.mk .sysInc false none [.new (.id (.var pointer type)) []]) = _
    rw [typeCheck, typeCheckList, show childAddress .sysInc false = false from rfl, hid]
    rfl
  have hcompile : compile (.mk .sysInc false (some .dword)
      [.mk (.id (.var pointer type)) false (some .dword) []]) =
        some (codeLdValue .dword a ++ codePost .add .dword a) := by
    simp only [compile, compileList, codeNode, hcode, codeStep]
    rfl
  refine ⟨joinStatements (List.replicate n (codeLdValue .dword a ++ codePost .add .dword a)), ?_, ?_⟩
  · rw [finshCompilerRun, typeCheckList_replicate hcheck, Option.bind_eq_bind, Option.bind_some,
      mapM_replicate hcompile]
    rfl
  · cases n with
    | zero => rfl
    | succ n =>
      have hlength := joinStatements_replicate (codeLdValue .dword a ++ codePost .add .dword a) n
      have hone : (codeLdValue .dword a ++ codePost .add .dword a).length = 23 := rfl
      have htwo : (Expr.post .add (.var pointer type)).node.count = 2 := rfl
      rw [countAll_replicate, htwo]
      rw [hone] at hlength
      omega

theorem finshCompilerRun_length_six : ∃ text,
    finshCompilerRun (List.replicate 6 (Expr.post .add (.var 0x20000000 .int)).node) = some text ∧
      textMax < text.length ∧
      countAll (List.replicate 6 (Expr.post .add (.var 0x20000000 .int)).node) ≤ nodeMax := by
  obtain ⟨text, htext, hlength⟩ := finshCompilerRun_length.2 0x20000000 .int 6 rfl
  refine ⟨text, htext, ?_, by decide⟩
  rw [hlength]
  decide

end Size

end GiantGecko.Finsh.Compiler
