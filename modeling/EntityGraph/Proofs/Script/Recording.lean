import EntityGraph.Proofs.Script.Kind
import Mathlib.Data.List.Forall2

/-!
# What recording leaves behind

Recording makes expressions and proxies of them, and assigns to nothing. An expression that it made is
therefore still the same when it is put into the next one, as long as nothing was assigned to
expressions before they were made.
-/

namespace EntityGraph

/-- Whether nothing was assigned to expressions that are not made yet. -/
def Trail.IsSettled (t : Trail) : Prop :=
  ∀ p o, (Ref.expression p, o) ∈ t.memory → p.root ≤ t.supply

/-- Whether one trail comes after another one, and nothing was assigned in between. -/
structure Trail.Since (base t : Trail) : Prop where
  memory : t.memory = base.memory
  later : base.supply ≤ t.supply

theorem Trail.since_refl (t : Trail) : t.Since t := ⟨rfl, Nat.le_refl _⟩

theorem Trail.Since.trans {a b c : Trail} (h : a.Since b) (h' : b.Since c) : a.Since c :=
  ⟨h'.memory.trans h.memory, Nat.le_trans h.later h'.later⟩

/-- A trail after one number more was used. -/
def Trail.next (t : Trail) : Trail := { t with supply := t.supply + 1 }

theorem Trail.since_next (t : Trail) : t.Since t.next := ⟨rfl, Nat.le_succ _⟩

/-- Whether a value is an expression that was made after those with a number up to `made`, or one
that is no object of its own. -/
def Written (made : Nat) (u : Value) (e : Expr Value) : Prop :=
  ∃ pos, u = .expr e pos ∧ (pos.root = 0 ∨ made < pos.root)

/-- Whether a value is a proxy of such an expression. -/
def Proxied (made : Nat) (r : Value) (e : Expr Value) : Prop :=
  ∃ pos mark, r = .proxy (.expr e pos) mark ∧ made < pos.root

theorem written_ofTree (made : Nat) (e : Expr Value) : Written made (.ofTree e) e :=
  ⟨.loose, rfl, .inl rfl⟩

theorem Proxied.written {made : Nat} {r : Value} {e : Expr Value} (h : Proxied made r e) :
    Written made r.recorded e := by
  obtain ⟨pos, mark, rfl, late⟩ := h
  exact ⟨pos, rfl, .inr late⟩

theorem written_recorded (made : Nat) {v : Value} (plain : v.isConstant = true) :
    Written made v.recorded (.lit v) := by
  have same : v.recorded = .ofTree (.lit v) := by
    cases v <;> first | rfl | cases plain
  rw [same]
  exact written_ofTree made _

/-- An expression to which nothing was assigned is as it was made. -/
theorem Expr.current_of_late {w : World} {pos : Position}
    (late : ∀ p o, (Ref.expression p, o) ∈ w.memory → p.root < pos.root) (e : Expr Value) :
    e.current w pos = e := by
  unfold current
  split
  · rfl
  · refine List.foldlRecOn (motive := fun e' => e' = e) w.memory _ rfl fun e' is entry among => ?_
    obtain ⟨r, o⟩ := entry
    cases r with
    | expression q =>
      have before := late q o among
      have other : (q.root == pos.root) = false := by simp; omega
      simp only [other, Bool.false_and]
      exact is
    | _ => exact is

section

variable {w : World} {base t : Trail} (settled : base.IsSettled) (since : base.Since t)

include settled since

/-- An expression that was made since is as it was made. -/
theorem Written.tree? {u : Value} {e : Expr Value} (h : Written base.supply u e) :
    u.tree? (w.after t) = some e := by
  obtain ⟨pos, rfl, unmade | late⟩ := h
  · refine congrArg some ?_
    unfold Expr.current
    rw [unmade]
    rfl
  · refine congrArg some (Expr.current_of_late (fun p o among => ?_) e)
    rw [show (w.after t).memory = base.memory from since.memory] at among
    exact Nat.lt_of_le_of_lt (settled p o among) late

theorem Written.treeAt {u : Value} {e : Expr Value} (h : Written base.supply u e) (place : Place) :
    u.treeAt (w.after t) place = .ok e := by
  unfold Value.treeAt
  rw [h.tree? settled since]
  rfl

theorem Written.treeIn {u : Value} {e : Expr Value} (h : Written base.supply u e) (group : Group) :
    u.treeIn (w.after t) group = .ok e := by
  unfold Value.treeIn
  rw [h.tree? settled since]
  rfl

theorem written_trees {us : List Value} {es : List (Expr Value)}
    (h : List.Forall₂ (Written base.supply) us es) (group : Group) :
    (Value.tuple us).trees (w.after t) group = .ok es := by
  show us.mapM (Value.treeIn (w.after t) group) = .ok es
  induction h with
  | nil => rfl
  | cons first _ ih =>
    rw [List.mapM_cons, first.treeIn settled since, ih]
    rfl

/-! ## Nodes of what was recorded -/

theorem node_binaryOf {l r : Value} {e f : Expr Value} (hl : Written base.supply l e)
    (hr : Written base.supply r f) (op : BinaryOp) :
    Node.binaryOf (w.after t) op l r = .ok (.binary op e f) := by
  unfold Node.binaryOf
  rw [hl.treeIn settled since, hr.treeIn settled since]
  rfl

theorem node_item {u k : Value} {e f : Expr Value} (hu : Written base.supply u e)
    (hk : Written base.supply k f) : Node.item (w.after t) u k = .ok (.item e f) := by
  unfold Node.item
  rw [hu.treeIn settled since, hk.treeIn settled since]
  rfl

end

/-! ## Making proxies -/

theorem runOn_own_recorded (e : Expr Value) (t : Trail) :
    runOn (Value.own (.ok (Value.ofRecorded e))) t
      = (.ok (.proxy (.expr e ⟨t.supply + 1, []⟩) (t.supply + 1)), t.next) := rfl

theorem runOn_makeProxy (e : Expr Value) (t : Trail) :
    runOn (Value.makeProxy (.ofTree e)) t
      = (.ok (.proxy (.expr e ⟨t.supply + 1, []⟩) (t.supply + 1)), t.next) := rfl

/-! ## Making lambdas -/

/-- A lambda that declares parameters as they are given. -/
theorem node_lambda {w : World} {ps : List Param} {body : Value} {e : Expr Value}
    (h : Node.lambda w (.tuple (ps.map (Value.ofTree ∘ .param))) body = .ok e) :
    Expr.areDistinct ps = true ∧ ∃ b, body.treeAt w .body = .ok b ∧ e = .lambda ps b := by
  obtain ⟨ps', declared, h⟩ := outcome_bind_ok (show (_ >>= _) = _ from h)
  rw [outcome_mapM_map ps (by exact fun p => rfl)] at declared
  cases declared
  obtain ⟨_, distinct, h⟩ := outcome_bind_ok h
  obtain ⟨b, written, h⟩ := outcome_bind_ok h
  cases h
  refine ⟨?_, b, written, rfl⟩
  unfold Expr.makeLambda at distinct
  split at distinct
  · next yes => exact yes
  · cases distinct

section

variable {w : World} {call : Calling} {f : Value} {ps : List Param} {t u : Trail} {e : Expr Value}

/-- A function is captured by calling it with proxies of as many parameters as it takes. -/
theorem captureLambda_steps (h : runOn (captureLambda w call f ps) t = (.ok e, u)) :
    f.arity (w.after t) = .ok ps.length ∧ Expr.areDistinct ps = true ∧ ∃ args t' v b,
      runOn ((ps.map (Value.ofTree ∘ .param)).mapM Value.makeProxy) t = (.ok args, t')
        ∧ runOn (call f args) t' = (.ok v, u) ∧ v.recorded.treeAt (w.after u) .body = .ok b
        ∧ e = .lambda ps b := by
  unfold captureLambda at h
  obtain ⟨_, _, here, h⟩ := bind_eq_ok h
  cases here
  obtain ⟨arity, _, here, h⟩ := bind_eq_ok h
  obtain ⟨asked, rfl⟩ := outcome_of_run here
  split at h
  · cases h
  next fits =>
    obtain ⟨args, t', proxied, h⟩ := bind_eq_ok h
    obtain ⟨v, _, called, h⟩ := bind_eq_ok h
    obtain ⟨_, _, here, h⟩ := bind_eq_ok h
    cases here
    obtain ⟨made, rfl⟩ := outcome_of_run h
    obtain ⟨distinct, b, written, same⟩ := node_lambda made
    have full : arity = ps.length := by simpa using fits
    exact ⟨full ▸ asked, distinct, args, t', v, b, proxied, called, written, same⟩

/-- What a function is captured as, over these parameters, is a lambda over them. -/
theorem captureLambda_ok (h : runOn (captureLambda w call f ps) t = (.ok e, u)) :
    ∃ body, e = .lambda ps body := by
  obtain ⟨_, _, _, _, _, b, _, _, _, same⟩ := captureLambda_steps h
  exact ⟨b, same⟩

end

end EntityGraph
