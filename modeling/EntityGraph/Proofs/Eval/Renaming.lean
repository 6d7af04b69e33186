import EntityGraph.Proofs.Eval.Alike
import EntityGraph.Script.Run

/-!
# Evaluating renamed expressions

An expression and its renaming evaluate alike, in scopes that give each parameter and its renaming
one value. The values of lambdas inside the expression keep bodies that are renamed in the same way,
and whoever calls them later evaluates these in turn. So the theorem is proved along the structure of
the expression for every host whose calls are alike to themselves, and then it holds of the calls of
this host by induction on how deep they may be nested.
-/

set_option linter.unusedSectionVars false

namespace EntityGraph

/-! ## Building and capturing -/

theorem Node.alike_make (w : World) (kind : NodeKind) (parts : List Value) :
    Alike (Node.make w kind parts) (Node.make w kind parts) := by
  unfold Node.make
  split
  · unfold Node.param
    split
    · exact alike_bind (alike_newParam _) fun _ => alike_pure _
    · exact alike_outcome rfl
  · exact alike_outcome rfl

mutual

theorem Draft.alike_value (w : World) (d : Draft Value) : Alike (d.value w) (d.value w) := by
  cases d with
  | param p => exact alike_pure _
  | newParam n =>
    refine alike_bind ?_ fun _ => alike_pure _
    exact Node.alike_make w .param [n]
  | lit v => exact alike_pure _
  | null => exact alike_pure _
  | litTree d =>
    refine alike_bind (Draft.alike_value w d) fun v => ?_
    exact alike_bind (alike_outcome rfl) fun _ => alike_pure _
  | plain v => exact alike_pure _
  | member t n =>
    refine alike_bind (Draft.alike_value w t) fun t => ?_
    exact alike_bind (alike_outcome rfl) fun _ => alike_pure _
  | item t k =>
    refine alike_bind (Draft.alike_value w t) fun t => ?_
    refine alike_bind (Draft.alike_value w k) fun k => ?_
    exact alike_bind (alike_outcome rfl) fun _ => alike_pure _
  | method t n as =>
    refine alike_bind (Draft.alike_value w t) fun t => ?_
    refine alike_bind (Drafts.alike_value w as) fun as => ?_
    exact alike_bind (alike_outcome rfl) fun _ => alike_pure _
  | func f as =>
    refine alike_bind (Draft.alike_value w f) fun f => ?_
    refine alike_bind (Drafts.alike_value w as) fun as => ?_
    exact alike_bind (alike_outcome rfl) fun _ => alike_pure _
  | unary op e =>
    refine alike_bind (Draft.alike_value w e) fun e => ?_
    exact alike_bind (alike_outcome rfl) fun _ => alike_pure _
  | binary op l r =>
    refine alike_bind (Draft.alike_value w l) fun l => ?_
    refine alike_bind (Draft.alike_value w r) fun r => ?_
    exact alike_bind (alike_outcome rfl) fun _ => alike_pure _
  | cond p y n =>
    refine alike_bind (Draft.alike_value w p) fun p => ?_
    refine alike_bind (Draft.alike_value w y) fun y => ?_
    refine alike_bind (Draft.alike_value w n) fun n => ?_
    exact alike_bind (alike_outcome rfl) fun _ => alike_pure _
  | lambda ps b =>
    refine alike_bind (Drafts.alike_value w ps) fun ps => ?_
    refine alike_bind (Draft.alike_value w b) fun b => ?_
    exact alike_bind (alike_outcome rfl) fun _ => alike_pure _
  | invoke f as =>
    refine alike_bind (Draft.alike_value w f) fun f => ?_
    refine alike_bind (Drafts.alike_value w as) fun as => ?_
    exact alike_bind (alike_outcome rfl) fun _ => alike_pure _
  | seq op s as =>
    refine alike_bind (Draft.alike_value w s) fun s => ?_
    refine alike_bind (Drafts.alike_value w as) fun as => ?_
    exact alike_bind (alike_outcome rfl) fun _ => alike_pure _
  | record t fs =>
    refine alike_bind (DraftFields.alike_value w fs) fun fs => ?_
    exact alike_bind (alike_outcome rfl) fun _ => alike_pure _

theorem Drafts.alike_value (w : World) (ds : Drafts Value) : Alike (ds.value w) (ds.value w) := by
  cases ds with
  | plain v => exact alike_pure _
  | nil => exact alike_pure _
  | cons d ds =>
    refine alike_bind (Draft.alike_value w d) fun u => ?_
    refine alike_bind (Drafts.alike_value w ds) fun us => ?_
    split <;> exact alike_pure _

theorem DraftFields.alike_value (w : World) (fs : DraftFields Value) :
    Alike (fs.value w) (fs.value w) := by
  cases fs with
  | plain v => exact alike_pure _
  | nil => exact alike_pure _
  | cons n d fs =>
    refine alike_bind (Draft.alike_value w d) fun u => ?_
    refine alike_bind (DraftFields.alike_value w fs) fun us => ?_
    split <;> exact alike_pure _

end

section

variable (w : World) {call : Calling} (even : ∀ f as, Alike (call f as) (call f as))

include even

theorem alike_captureLambda (function : Value) (ps : List Param) :
    Alike (captureLambda w call function ps) (captureLambda w call function ps) := by
  refine alike_bind (alike_now w) fun now => ?_
  refine alike_bind (alike_outcome rfl) fun arity => ?_
  refine alike_ite (fun _ => alike_throw rfl) fun _ => ?_
  refine alike_bind (alike_mapM _ fun v _ => Value.alike_makeProxy v) fun proxies => ?_
  refine alike_bind (even function proxies) fun body => ?_
  exact alike_bind (alike_now w) fun now => alike_outcome rfl

theorem alike_captureElement (function : Value) :
    Alike (captureElement w call function) (captureElement w call function) := by
  refine alike_bind (alike_now w) fun now => ?_
  split
  · exact alike_pure _
  · exact alike_bind (alike_newParam _) fun p => alike_captureLambda w even _ _

theorem alike_recordCall (u : Value) (args : List Value) :
    Alike (recordCall w call u args) (recordCall w call u args) := by
  refine alike_bind (alike_now w) fun now => ?_
  simp only []
  split
  · split
    · refine alike_ite (fun _ => ?_) fun _ => alike_outcome rfl
      refine alike_bind (alike_mapM _ fun v _ => alike_captureElement w even v) fun functions => ?_
      exact alike_outcome rfl
    · split
      · exact alike_outcome rfl
      · exact alike_throw rfl
      · exact alike_outcome rfl
  · exact alike_outcome rfl

/-! ## Scripts -/

mutual

theorem Script.alike_run (e : Script Value) (env : Env) :
    Alike (e.run w call env) (e.run w call env) := by
  cases e with
  | var n =>
    unfold Script.run
    split
    · exact alike_pure _
    · exact alike_throw rfl
  | lit v => exact alike_pure _
  | const v => exact Value.alike_makeProxy _
  | attr t n =>
    refine alike_bind (Script.alike_run t env) fun v => ?_
    exact alike_bind (alike_now w) fun now => Value.alike_own _
  | item t k =>
    refine alike_bind (Script.alike_run t env) fun t => ?_
    refine alike_bind (Script.alike_run k env) fun k => ?_
    exact alike_bind (alike_now w) fun now => Value.alike_own _
  | call f as =>
    refine alike_bind (Script.alike_run f env) fun f => ?_
    exact alike_bind (Script.alike_runList as env) fun as => even f as
  | bin op l r =>
    refine alike_bind (Script.alike_run l env) fun u => ?_
    refine alike_bind (Script.alike_run r env) fun v => ?_
    exact alike_bind (alike_now w) fun now => Value.alike_own _
  | inv e =>
    refine alike_bind (Script.alike_run e env) fun v => ?_
    exact alike_bind (alike_now w) fun now => Value.alike_own _
  | neg e =>
    refine alike_bind (Script.alike_run e env) fun v => ?_
    exact alike_bind (alike_now w) fun now => Value.alike_own _
  | fn ps star body => exact alike_bind alike_newNumber fun _ => alike_pure _
  | tree d =>
    refine alike_bind (alike_now w) fun now => ?_
    exact alike_bind (Draft.alike_value now d) fun v => Value.alike_owned v
  | list es => exact alike_bind (Script.alike_runList es env) fun _ => alike_pure _
  | and l r =>
    refine alike_bind (Script.alike_run l env) fun v => ?_
    refine alike_bind (alike_now w) fun now => ?_
    refine alike_bind (alike_outcome rfl) fun holds => ?_
    exact alike_ite (fun _ => Script.alike_run r env) fun _ => alike_pure _
  | not e =>
    refine alike_bind (Script.alike_run e env) fun v => ?_
    refine alike_bind (alike_now w) fun now => ?_
    exact alike_bind (alike_outcome rfl) fun _ => alike_pure _
  | iter e =>
    refine alike_bind (Script.alike_run e env) fun v => ?_
    refine alike_bind (alike_now w) fun now => ?_
    exact alike_bind (alike_outcome rfl) fun _ => alike_pure _
  | len e =>
    refine alike_bind (Script.alike_run e env) fun v => ?_
    refine alike_bind (alike_now w) fun now => ?_
    exact alike_bind (alike_outcome rfl) fun _ => alike_pure _
  | isIn e c =>
    refine alike_bind (Script.alike_run e env) fun v => ?_
    refine alike_bind (Script.alike_run c env) fun c => ?_
    refine alike_bind (alike_now w) fun now => ?_
    exact alike_bind (alike_outcome rfl) fun _ => alike_pure _
  | setAttr t n v =>
    refine alike_bind (Script.alike_run t env) fun target => ?_
    exact alike_bind (Value.alike_assign w target n v) fun _ => alike_pure _
  | expression e =>
    exact alike_bind (Script.alike_run e env) fun v => Value.alike_owned _
  | shown e =>
    refine alike_bind (Script.alike_run e env) fun v => ?_
    refine alike_bind (alike_now w) fun now => ?_
    exact alike_bind (alike_outcome rfl) fun _ => alike_pure _

theorem Script.alike_runList (es : List (Script Value)) (env : Env) :
    Alike (Script.runList w call es env) (Script.runList w call es env) := by
  cases es with
  | nil => exact alike_pure _
  | cons e es =>
    refine alike_bind (Script.alike_run e env) fun v => ?_
    exact alike_bind (Script.alike_runList es env) fun vs => alike_pure _

end

end

/-! ## Evaluating -/

namespace Scope

variable {V : Type}

theorem lookup?_bindList_of_notMem {p : Param} {ps : List Param} (h : p ∉ ps) (s : Scope V)
    (vs : List V) : (s.bindList ps vs).lookup? p = s.lookup? p := by
  induction ps generalizing s vs with
  | nil => rfl
  | cons q ps ih =>
    cases vs with
    | nil => rfl
    | cons v vs =>
      rw [bindList, ih (fun hp => h (by simp [hp])), lookup?]
      have other : ¬p = q := fun same => h (by simp [same])
      simp [other]

/-- A parameter that is bound has the same value whatever was bound before. -/
theorem lookup?_bindList_of_mem {p : Param} {ps : List Param} (h : p ∈ ps) (s s' : Scope V)
    {vs : List V} (len : ps.length = vs.length) :
    (s.bindList ps vs).lookup? p = (s'.bindList ps vs).lookup? p := by
  induction ps generalizing s s' vs with
  | nil => cases h
  | cons q ps ih =>
    cases vs with
    | nil => cases len
    | cons v vs =>
      simp only [List.length_cons, Nat.add_right_cancel_iff] at len
      rw [bindList, bindList]
      by_cases later : p ∈ ps
      · exact ih later _ _ len
      · rw [lookup?_bindList_of_notMem later, lookup?_bindList_of_notMem later, lookup?, lookup?]
        obtain rfl : p = q := by simpa [later] using h
        simp

end Scope

/-- Binding the parameters of a lambda leaves its body a renaming. -/
theorem Renames.bindList {ρ : Param → Param} {ps : List Param} {b : Expr Value}
    {s s' : Scope Value} (h : Renames ρ (Expr.lambda ps b).nodes s s') {vs : List Value}
    (len : ps.length = vs.length) :
    Renames ρ b.nodes (s.bindList ps vs) (s'.bindList ps vs) where
  values p hp := by
    have inLambda : Expr.lambda ps b ∈ (Expr.lambda ps b).nodes := by simp [Expr.nodes]
    by_cases bound : p ∈ ps
    · rw [h.own ps b inLambda p hp bound]
      exact Scope.lookup?_bindList_of_mem bound s' s len
    · rw [Scope.lookup?_bindList_of_notMem bound,
        Scope.lookup?_bindList_of_notMem (h.uncaught ps b inLambda p hp bound)]
      exact h.values p (by simp [Expr.nodes, hp])
  own qs c hc := h.own qs c (by simp [Expr.nodes, hc])
  uncaught qs c hc := h.uncaught qs c (by simp [Expr.nodes, hc])

theorem Renames.alike_bindAll {ρ : Param → Param} {ps : List Param} {b : Expr Value}
    {s s' : Scope Value} (h : Renames ρ (Expr.lambda ps b).nodes s s') (vs : List Value)
    {f g : Scope Value → Making Value}
    (rest : ∀ u u', Renames ρ b.nodes u u' → Alike (f u) (g u')) :
    Alike ((liftM (s.bindAll ps vs) : Making _) >>= f)
      ((liftM (s'.bindAll ps vs) : Making _) >>= g) := by
  unfold Scope.bindAll Scope.bindAll?
  by_cases len : ps.length = vs.length
  · simp only [len, beq_self_eq_true, if_true]
    exact rest _ _ (h.bindList len)
  · simp only [beq_iff_eq, len, if_false]
    exact fun t t' ht => ⟨rfl, ht⟩

namespace Eval

theorem alike_keep (w : World) {f g : Value → Making Value} (h : ∀ v, Alike (f v) (g v))
    (vs : List Value) : Alike (keep w f vs) (keep w g vs) := by
  induction vs with
  | nil => exact alike_pure _
  | cons v vs ih =>
    refine alike_bind (h v) fun u => ?_
    refine alike_bind (alike_now w) fun now => ?_
    refine alike_bind (alike_outcome rfl) fun holds => ?_
    exact alike_ite (fun _ => alike_bind ih fun _ => alike_pure _) fun _ => ih

theorem alike_sorted (w : World) {f g : Value → Making Value} (h : ∀ v, Alike (f v) (g v))
    (down : Bool) (vs : List Value) : Alike (sorted w f down vs) (sorted w g down vs) := by
  refine alike_bind (alike_mapM _ fun v _ => alike_bind (h v) fun _ => alike_pure _) fun keyed => ?_
  refine alike_bind (alike_now w) fun now => ?_
  exact alike_ite (fun _ => alike_bind (alike_outcome rfl) fun _ => alike_pure _)
    fun _ => alike_bind (alike_outcome rfl) fun _ => alike_pure _

/-- What is concluded from the elements depends on the expression in a fault only. -/
theorem told_conclude (op : SeqOp) (e e' : Expr Value) (vs : List Value) :
    told (conclude op e vs) = told (conclude op e' vs) := by
  cases op <;> try rfl
  cases vs <;> rfl

theorem alike_applyFunction (w : World) (op : SeqOp) (e e' : Expr Value)
    {f g : Option (Value → Making Value)}
    (h : (f = none ∧ g = none)
      ∨ ∃ f' g', f = some f' ∧ g = some g' ∧ ∀ v, Alike (f' v) (g' v))
    (vs : List Value) : Alike (applyFunction w op e f vs) (applyFunction w op e' g vs) := by
  have concluded := fun vs => alike_outcome (told_conclude op e e' vs)
  rcases h with ⟨rfl, rfl⟩ | ⟨f, g, rfl, rfl, h⟩
  · cases op <;> exact concluded vs
  · cases op with
    | select => exact alike_bind (alike_mapM _ fun v _ => h v) fun _ => alike_pure _
    | orderBy => exact alike_sorted w h false vs
    | orderByDescending => exact alike_sorted w h true vs
    | _ => exact alike_bind (alike_keep w h vs) fun vs => concluded vs

end Eval

section

variable {h : Host} (even : ∀ f as, Alike (h.call f as) (h.call f as)) {ρ : Param → Param}

include even

namespace Expr

omit even in
/-- Operators evaluate alike if their sides do. -/
theorem alike_binary (op : BinaryOp) {a a' b b' : Expr Value} {s s' : Scope Value}
    (left : Alike (a.eval h s) (a'.eval h s')) (right : Alike (b.eval h s) (b'.eval h s')) :
    Alike ((Expr.binary op a b).eval h s) ((Expr.binary op a' b').eval h s') := by
  refine alike_bind left fun v => ?_
  cases op with
  | and =>
    refine alike_bind (alike_now _) fun now => ?_
    refine alike_bind (alike_outcome rfl) fun holds => ?_
    refine alike_ite (fun _ => ?_) fun _ => alike_pure _
    refine alike_bind right fun u => ?_
    exact alike_bind (alike_now _) fun now => alike_outcome rfl
  | or =>
    refine alike_bind (alike_now _) fun now => ?_
    refine alike_bind (alike_outcome rfl) fun holds => ?_
    refine alike_ite (fun _ => alike_pure _) fun _ => ?_
    refine alike_bind right fun u => ?_
    exact alike_bind (alike_now _) fun now => alike_outcome rfl
  | _ =>
    refine alike_bind right fun u => ?_
    exact alike_bind (alike_now _) fun now => Value.alike_own _

mutual

/-- Renamed expressions evaluate alike. -/
theorem alike_eval (e : Expr Value) {s s' : Scope Value} (names : Renames ρ e.nodes s s') :
    Alike (e.eval h s) ((e.rename ρ).eval h s') := by
  cases e with
  | param p =>
    have same := names.values p (by simp [nodes])
    refine alike_outcome ?_
    rw [Scope.lookup, Scope.lookup, same]
    cases s.lookup? p <;> rfl
  | lit v => exact alike_pure _
  | null => exact alike_pure _
  | member t n =>
    refine alike_bind (alike_eval t (names.mono (by simp [nodes]))) fun v => ?_
    refine alike_ite (fun _ => alike_pure _) fun _ => ?_
    exact alike_bind (alike_now _) fun now => Value.alike_own _
  | item t k =>
    refine alike_bind (alike_eval t (names.mono (by simp [nodes]))) fun v => ?_
    refine alike_ite (fun _ => alike_pure _) fun _ => ?_
    refine alike_bind (alike_eval k (names.mono (by simp [nodes]))) fun k => ?_
    exact alike_bind (alike_now _) fun now => Value.alike_own _
  | method t n as =>
    refine alike_bind (alike_eval t (names.mono (by simp [nodes]))) fun v => ?_
    refine alike_ite (fun _ => alike_pure _) fun _ => ?_
    refine alike_bind (alike_evalList as (names.mono (by simp [nodes]))) fun vs => ?_
    refine alike_bind (alike_now _) fun now => ?_
    exact alike_bind (Value.alike_own _) fun f => even f vs
  | func f as =>
    refine alike_bind (alike_eval f (names.mono (by simp [nodes]))) fun f => ?_
    refine alike_bind (alike_evalList as (names.mono (by simp [nodes]))) fun vs => ?_
    exact even f vs
  | unary op e =>
    refine alike_bind (alike_eval e (names.mono (by simp [nodes]))) fun v => ?_
    exact alike_bind (alike_now _) fun now => Value.alike_own _
  | binary op l r =>
    exact alike_binary op (alike_eval l (names.mono (by simp [nodes])))
      (alike_eval r (names.mono (by simp [nodes])))
  | cond p y n =>
    refine alike_bind (alike_eval p (names.mono (by simp [nodes]))) fun v => ?_
    refine alike_bind (alike_now _) fun now => ?_
    refine alike_bind (alike_outcome rfl) fun holds => ?_
    exact alike_ite (fun _ => alike_eval y (names.mono (by simp [nodes])))
      fun _ => alike_eval n (names.mono fun e he => by simp [nodes, he])
  | lambda ps b => exact alike_newClosure ⟨ρ, rfl, rfl, names⟩
  | invoke f as =>
    refine alike_bind (alike_evalList as (names.mono (by simp [nodes]))) fun vs => ?_
    exact alike_applyTo f vs (names.mono (by simp [nodes]))
  | seq op src as =>
    have args : Renames ρ (nodesList as) s s' := names.mono (by simp [nodes])
    refine alike_bind (alike_eval src (names.mono (by simp [nodes]))) fun v => ?_
    refine alike_ite (fun _ => ?_) fun _ => ?_
    · exact alike_ite (fun _ => alike_pure _) fun _ => alike_throw rfl
    · refine alike_bind (alike_now _) fun now => ?_
      refine alike_bind (alike_outcome rfl) fun vs => ?_
      refine alike_ite (fun _ => ?_) fun _ => ?_
      · have found := find?_renameList ρ (f := fun e => !e.isLambdaOf 1)
          (fun e => by rw [isLambdaOf_rename]) as
        unfold renameList at found
        rw [found]
        cases as.find? fun e => !e.isLambdaOf 1 with
        | some bad => exact alike_throw rfl
        | none =>
          refine Eval.alike_applyFunction _ op _ _ ?_ vs
          cases as with
          | nil => exact .inl ⟨rfl, rfl⟩
          | cons a as =>
            exact .inr ⟨_, _, rfl, rfl, fun x => alike_applyFirst (a :: as) x args⟩
      · refine alike_bind (alike_evalFirst as args) fun count => ?_
        exact alike_bind (alike_now _) fun now => alike_outcome rfl
  | record t fs =>
    refine alike_bind (alike_evalFields fs (names.mono (by simp [nodes]))) fun vs => ?_
    exact even t [.list vs]

theorem alike_evalList (es : List (Expr Value)) {s s' : Scope Value}
    (names : Renames ρ (nodesList es) s s') :
    Alike (evalList h es s) (evalList h (renameList ρ es) s') := by
  cases es with
  | nil => exact alike_pure _
  | cons e es =>
    refine alike_bind (alike_eval e (names.mono (by simp [nodesList]))) fun v => ?_
    refine alike_bind (alike_evalList es (names.mono (by simp [nodesList]))) fun vs => ?_
    exact alike_pure _

theorem alike_evalFields (fs : List (Value × Expr Value)) {s s' : Scope Value}
    (names : Renames ρ (nodesFields fs) s s') :
    Alike (evalFields h fs s) (evalFields h (renameFields ρ fs) s') := by
  cases fs with
  | nil => exact alike_pure _
  | cons f fs =>
    obtain ⟨n, e⟩ := f
    refine alike_bind (alike_eval e (names.mono (by simp [nodesFields]))) fun v => ?_
    refine alike_bind (alike_evalFields fs (names.mono (by simp [nodesFields]))) fun vs => ?_
    exact alike_pure _

theorem alike_evalFirst (es : List (Expr Value)) {s s' : Scope Value}
    (names : Renames ρ (nodesList es) s s') :
    Alike (evalFirst h es s) (evalFirst h (renameList ρ es) s') := by
  cases es with
  | nil => exact alike_pure _
  | cons e es => exact alike_eval e (names.mono (by simp [nodesList]))

theorem alike_applyTo (f : Expr Value) (vs : List Value) {s s' : Scope Value}
    (names : Renames ρ f.nodes s s') :
    Alike (applyTo h f vs s) (applyTo h (f.rename ρ) vs s') := by
  cases f with
  | lambda ps b => exact names.alike_bindAll vs fun u u' inner => alike_eval b inner
  | _ => exact alike_throw rfl

theorem alike_applyFirst (es : List (Expr Value)) (v : Value) {s s' : Scope Value}
    (names : Renames ρ (nodesList es) s s') :
    Alike (applyFirst h es v s) (applyFirst h (renameList ρ es) v s') := by
  cases es with
  | nil => exact alike_pure _
  | cons e es => exact alike_applyTo e [v] (names.mono (by simp [nodesList]))

end

end Expr

end

/-! ## Calls -/

namespace Value

theorem alike_instantiate (w : World) (t : HostType) (args : List Value) :
    Alike (instantiate w t args) (instantiate w t args) := by
  unfold instantiate
  split
  · exact alike_makeProxy _
  · exact alike_throw rfl
  · split
    · exact alike_bind (Node.alike_make w _ _) fun e => alike_owned _
    · exact alike_throw rfl
  · exact alike_construct w t args

/-- Calls are alike to themselves, however deep they are nested. -/
theorem alike_callWithin (w : World) (depth : Nat) (f : Value) (args : List Value) :
    Alike (callWithin w depth f args) (callWithin w depth f args) := by
  induction depth generalizing f args with
  | zero => exact alike_throw rfl
  | succ depth even =>
    cases f with
    | function i ps star body env =>
      refine alike_bind (alike_now w) fun now => ?_
      exact alike_bind (alike_outcome rfl) fun env => Script.alike_run w even body env
    | supplied g => exact alike_bind (alike_now w) fun now => even g args
    | closure n =>
      refine alike_bind (alike_now w) fun now => ?_
      intro t t' ht
      -- What is called is kept in the trail, so the two trails are compared here and not before.
      rw [runOn_bind_ok (runOn_get t), runOn_bind_ok (runOn_get t')]
      obtain ⟨absent, absent'⟩ | ⟨c, c', kept, kept', ρ, params, body, names⟩ := ht.lookup n
      · rw [absent, absent']
        exact ⟨rfl, ht⟩
      · rw [kept, kept']
        simp only [params, body]
        exact names.alike_bindAll args (fun u u' inner => c.body.alike_eval even inner) t t' ht
    | proxy u m =>
      refine alike_bind (alike_now w) fun now => ?_
      exact alike_bind (alike_recordCall w even u args) fun e => alike_makeProxy _
    | method self name =>
      refine alike_bind (alike_now w) fun now => ?_
      cases self with
      | proxy u m =>
        refine alike_ite (fun _ => ?_) fun _ => alike_own _
        exact alike_bind (alike_recordCall w even u args) fun e => alike_makeProxy _
      | _ => exact alike_own _
    | type t => exact alike_bind (alike_now w) fun now => alike_instantiate now t args
    | generic t ps => exact alike_bind (alike_now w) fun now => alike_instantiate now t args
    | primitive p => exact alike_bind (alike_now w) fun now => p.alike_apply now args
    | _ => exact alike_bind (alike_now w) fun now => alike_throw rfl

theorem alike_call (w : World) (f : Value) (args : List Value) :
    Alike (call w f args) (call w f args) := alike_callWithin w callDepth f args

end Value

end EntityGraph
