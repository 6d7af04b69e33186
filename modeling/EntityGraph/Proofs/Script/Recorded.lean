import EntityGraph.Proofs.Script.Called

/-!
# Scripts that are recorded

A script that does no more with proxies than what is recorded comes to an expression with certainty.
Which expression it is follows the structure of the script: a member that is read is a member of the
expression for its target, a comparison compares the expressions of its sides, and a call of a
member is a call of a method or an operation on a sequence, with the functions it is given as
lambdas.
-/

namespace EntityGraph

namespace Script

/-- Whether a script comes to a proxy of an expression, and nothing is assigned on the way. -/
def Records (w : World) (base : Trail) (call : Calling) (env : Env) (a : Trail) (t : Script Value)
    (e : Expr Value) : Prop :=
  ∃ r b, runOn (t.run w call env) a = (.ok r, b) ∧ a.Since b ∧ Proxied base.supply r e

variable {w : World} {base a : Trail} (settled : base.IsSettled) (since : base.Since a)
  {call : Calling} {env : Env} {f t : Script Value} {e : Expr Value} {name : String} {d : Nat}

theorem records_var {r : Value} (here : env.lookup name = some r)
    (proxied : Proxied base.supply r e) : Records w base call env a (.var name) e := by
  refine ⟨r, a, ?_, Trail.since_refl a, proxied⟩
  rw [Script.run, here]
  rfl

include since in
theorem records_const (v : Value) : Records w base call env a (.const v) (.lit v) := by
  refine ⟨_, _, runOn_makeProxy _ a, Trail.since_next a, _, _, rfl, ?_⟩
  exact Nat.lt_succ_of_le since.later

/-- A proxy that was made since. -/
theorem proxied_made {b : Trail} (since : base.Since a) (later : a.Since b) (e : Expr Value) :
    Proxied base.supply (.proxy (.expr e ⟨b.supply + 1, []⟩) (b.supply + 1)) e :=
  ⟨_, _, rfl, Nat.lt_succ_of_le (since.trans later).later⟩

include settled since

/-- Reading a member is recorded. -/
theorem records_attr (h : Records w base call env a t e) (named : isMemberName name = true)
    (isName : name.isEmpty = false) :
    Records w base call env a (.attr t name) (.member e name) := by
  obtain ⟨r, b, run, later, pos, mark, rfl, late⟩ := h
  have written : Written base.supply (.expr e pos) e := ⟨pos, rfl, .inr late⟩
  have read : Value.getAttr (w.after b) (.proxy (.expr e pos) mark) name
      = .ok (.ofRecorded (.member e name)) := by
    rw [getAttr_of_isMemberName named, Value.recordMember, isProtocol_of_isMemberName named,
      Node.member, written.treeAt settled (since.trans later)]
    simp only [Bool.false_eq_true, if_false, isName]
    rfl
  refine ⟨_, _, ?_, later.trans (Trail.since_next b), proxied_made since later _⟩
  rw [Script.run, runOn_bind_ok run,
    runOn_now_bind, read]
  rfl

/-- Comparing with a constant is recorded. -/
theorem records_bin (h : Records w base call env a t e) (op : ScriptOp) {v : Value}
    (here : env.lookup name = some v) (plain : v.isConstant = true) :
    Records w base call env a (.bin op t (.var name)) (.binary op.recorded e (.lit v)) := by
  obtain ⟨r, b, run, later, pos, mark, rfl, late⟩ := h
  have operated : Value.operate (w.after b) op (.proxy (.expr e pos) mark) v
      = .ok (.ofRecorded (.binary op.recorded e (.lit v))) :=
    recordBinary_written settled (since.trans later) ⟨pos, rfl, .inr late⟩
      (written_recorded _ plain) op.recorded
  refine ⟨_, _, ?_, later.trans (Trail.since_next b), proxied_made since later _⟩
  rw [Script.run, runOn_bind_ok run, Script.run, here]
  rw [runOn_bind_ok (show runOn (pure v : Making Value) b = (.ok v, b) from rfl),
    runOn_now_bind, operated]
  rfl

/-- What is captured of a function with one parameter is a lambda over the parameter. -/
theorem captureLambda_records {number : Nat} {x : String} {p : Param}
    (body : Records w base (Value.callWithin w d)
      ((x, .proxy (.expr (.param p) ⟨a.supply + 1, []⟩) (a.supply + 1)) :: env) a.next t e) :
    ∃ b, a.Since b ∧ runOn (captureLambda w (Value.callWithin w (d + 1))
      (.function number [x] none t env) [p]) a = (.ok (.lambda [p] e), b) := by
  obtain ⟨r, b, run, later, proxied⟩ := body
  have later := (Trail.since_next a).trans later
  have entered : runOn (Value.callWithin w (d + 1) (.function number [x] none t env)
      [.proxy (.expr (.param p) ⟨a.supply + 1, []⟩) (a.supply + 1)]) a.next = (.ok r, b) := run
  have arity : (Value.function number [x] none t env).arity (w.after a) = .ok 1 := rfl
  have declared : runOn ([Value.ofTree (.param p)].mapM Value.makeProxy) a
      = (.ok [.proxy (.expr (.param p) ⟨a.supply + 1, []⟩) (a.supply + 1)], a.next) := rfl
  refine ⟨b, later, ?_⟩
  have made : Node.lambda (w.after b) (.tuple ([p].map (Value.ofTree ∘ Expr.param))) r.recorded
      = .ok (.lambda [p] e) := by
    unfold Node.lambda
    rw [proxied.written.treeAt settled (since.trans later)]
    rfl
  unfold captureLambda
  rw [runOn_now_bind, arity,
    liftM_ok_bind]
  show runOn ([Value.ofTree (.param p)].mapM Value.makeProxy >>= _) a = _
  rw [runOn_bind_ok declared, runOn_bind_ok entered,
    runOn_now_bind, made]
  rfl

omit settled in
/-- Calling a proxy comes to a proxy of what is recorded. -/
theorem records_call {u : Value} {mark : Nat} {ts : List (Script Value)} {vs : List Value}
    {b c c' : Trail}
    (run : runOn (f.run w (Value.callWithin w (d + 1)) env) a = (.ok (.proxy u mark), b))
    (args : runOn (Script.runList w (Value.callWithin w (d + 1)) ts env) b = (.ok vs, c))
    (recorded : runOn (recordCall w (Value.callWithin w d) u vs) c = (.ok e, c'))
    (later : a.Since c') : Records w base (Value.callWithin w (d + 1)) env a (.call f ts) e := by
  refine ⟨_, _, ?_, later.trans (Trail.since_next c'), proxied_made since later _⟩
  rw [Script.run, runOn_bind_ok run, runOn_bind_ok args]
  show runOn (Making.now w >>= fun _ => recordCall w (Value.callWithin w d) u vs
    >>= fun e => Value.makeProxy (.ofTree e)) c = _
  rw [runOn_now_bind,
    runOn_bind_ok recorded]
  rfl

/-- Calling a member that is named like no operation is recorded as calling a method. -/
theorem records_method (h : Records w base (Value.callWithin w (d + 1)) env a f (.member e name))
    (isName : name.isEmpty = false) (noSequence : SeqOp.ofSymbol? name = none)
    (noMembership : membership? name = none) :
    Records w base (Value.callWithin w (d + 1)) env a (.call f []) (.method e name []) := by
  obtain ⟨r, b, run, later, pos, mark, rfl, late⟩ := h
  have written : Written base.supply (.expr (.member e name) pos) (.member e name) :=
    ⟨pos, rfl, .inr late⟩
  have made : Node.method (w.after b) (.ofTree e) (.str name) (.tuple [])
      = .ok (.method e name []) := by
    unfold Node.method
    rw [(written_ofTree base.supply e).treeAt settled (since.trans later)]
    show (if name.isEmpty then _ else _) = _
    rw [isName]
    rfl
  have args : runOn (Script.runList w (Value.callWithin w (d + 1)) [] env) b = (.ok [], b) := rfl
  have recorded : runOn (recordCall w (Value.callWithin w d) (.expr (.member e name) pos) []) b
      = (.ok (.method e name []), b) := by
    unfold recordCall
    rw [runOn_now_bind]
    simp only [written.tree? settled (since.trans later), noSequence, noMembership]
    show runOn (liftM (Node.method (w.after b) (.ofTree e) (.str name) (.tuple [])) : Making _) b
      = _
    rw [made]
    rfl
  exact records_call since run args recorded later

/-- What is captured for the elements of a sequence is a lambda over a new parameter. -/
theorem captureElement_records (number : Nat) {x : String} {body : Param → Expr Value}
    (each : ∀ p r b, a.Since b → Proxied base.supply r (.param p) →
      Records w base (Value.callWithin w d) ((x, r) :: env) b t (body p)) :
    ∃ p b, a.Since b ∧ runOn (captureElement w (Value.callWithin w (d + 1))
      (.function number [x] none t env)) a = (.ok (.lambda [p] (body p)), b) := by
  let p : Param := ⟨a.supply + 1, elementName⟩
  have next := Trail.since_next a
  have proxied := proxied_made since next (.param p)
  obtain ⟨b, later, captured⟩ := captureLambda_records settled (since.trans next)
    (each p _ a.next.next (next.trans (Trail.since_next a.next)) proxied)
  refine ⟨p, b, next.trans later, ?_⟩
  unfold captureElement
  rw [runOn_now_bind]
  show runOn (newParam elementName >>= fun p => captureLambda w (Value.callWithin w (d + 1))
    (.function number [x] none t env) [p]) a = _
  rw [runOn_bind_ok (show runOn (newParam elementName) a = (.ok p, a.next) from rfl), captured]

/-- Calling a member that is named like an operation with a function is recorded as the operation
with a lambda. -/
theorem records_seq (h : Records w base (Value.callWithin w (d + 2)) env a f (.member e name))
    {op : SeqOp} (sequence : SeqOp.ofSymbol? name = some op) (takes : op.takesFunction = true)
    {x : String} {body : Param → Expr Value}
    (each : ∀ p r b, a.Since b → Proxied base.supply r (.param p) →
      Records w base (Value.callWithin w d) ((x, r) :: env) b t (body p)) :
    ∃ p, Records w base (Value.callWithin w (d + 2)) env a (.call f [.fn [x] none t])
      (.seq op e [.lambda [p] (body p)]) := by
  obtain ⟨r, b, run, later, pos, mark, rfl, late⟩ := h
  have written : Written base.supply (.expr (.member e name) pos) (.member e name) :=
    ⟨pos, rfl, .inr late⟩
  have next := later.trans (Trail.since_next b)
  have args : runOn (Script.runList w (Value.callWithin w (d + 2)) [.fn [x] none t] env) b
      = (.ok [.function (b.supply + 1) [x] none t env], b.next) := rfl
  obtain ⟨p, c, after, element⟩ := captureElement_records settled (since.trans next) _
    fun p r b' h => each p r b' (next.trans h)
  have made : Node.seqOf (w.after b.next) op (.ofTree e) (.tuple [.ofTree (.lambda [p] (body p))])
      = .ok (.seq op e [.lambda [p] (body p)]) := by
    have built : Expr.makeSeq op e [.lambda [p] (body p)]
        = .ok (.seq op e [.lambda [p] (body p)]) := by
      cases op <;> rfl
    unfold Node.seqOf
    rw [(written_ofTree base.supply e).treeAt settled (since.trans next),
      written_trees settled (since.trans next) (.cons (written_ofTree base.supply _) .nil)]
    show ofTree (Expr.makeSeq op e [.lambda [p] (body p)]) = _
    rw [built]
    rfl
  refine ⟨p, records_call since run args ?_ (next.trans after)⟩
  unfold recordCall
  rw [runOn_now_bind]
  simp only [written.tree? settled (since.trans next), sequence, takes]
  have functions : runOn ([Value.function (b.supply + 1) [x] none t env].mapM
      (captureElement w (Value.callWithin w (d + 1)))) b.next
        = (.ok [.lambda [p] (body p)], c) := by
    rw [List.mapM_cons, runOn_bind_ok element]
    rfl
  show runOn ([Value.function (b.supply + 1) [x] none t env].mapM
    (captureElement w (Value.callWithin w (d + 1))) >>= _) b.next = _
  rw [runOn_bind_ok functions]
  show runOn (liftM (Node.seqOf (w.after b.next) op (.ofTree e)
    (.tuple [.ofTree (.lambda [p] (body p))])) : Making _) c = _
  rw [made]
  rfl

end Script

end EntityGraph
