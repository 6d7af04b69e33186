import EntityGraph.Proofs.Eval.Renaming
import EntityGraph.Proofs.Eval.Sorting
import EntityGraph.Proofs.Realm.Making

/-!
# What evaluations and calls uphold

Whatever evaluating, calling and running scripts leave behind comes about in four ways: a number is
used up, an object is put into the memory, a lambda is kept for its value, and what was kept is
called. A property of trails that lasts through the first three, with lambdas whose scopes fit their
open parameters, is upheld by every evaluation in a scope that fits what the expression leaves open.
Which faults are raised on the way, and what sort of values is given, is said along with it.

A scope fits a parameter if it binds it, or if the want of a binding is a fault that may be raised.
So the walk below serves several ends. In the realm of all values it says something of faults and of
what is left behind; in a realm without proxies it shows that none comes up.
-/

set_option linter.unusedSectionVars false

namespace EntityGraph

variable {α β : Type}

/-! ## Scopes that fit -/

namespace Scope

variable {R : Realm} {s : Scope Value}

theorem Fits.mono {ps qs : List Param} (h : s.Fits R ps) (sub : qs ⊆ ps) : s.Fits R qs :=
  ⟨fun p hp => h.calm p (sub hp), h.brings⟩

theorem exists_lookup?_bindList {p : Param} {ps : List Param} (bound : p ∈ ps) (s : Scope Value)
    {vs : List Value} (len : ps.length = vs.length) :
    ∃ v ∈ vs, (s.bindList ps vs).lookup? p = some v := by
  induction ps generalizing s vs with
  | nil => cases bound
  | cons q ps ih =>
    cases vs with
    | nil => cases len
    | cons v vs =>
      simp only [List.length_cons, Nat.add_right_cancel_iff] at len
      rw [bindList]
      by_cases later : p ∈ ps
      · obtain ⟨u, hu, found⟩ := ih later (s.bind q v) len
        exact ⟨u, List.mem_cons_of_mem v hu, found⟩
      · obtain rfl : p = q := by simpa [later] using bound
        exact ⟨v, by simp, by rw [lookup?_bindList_of_notMem later, lookup?]; simp⟩

/-- What fits a lambda fits its body, once its parameters are bound. -/
theorem Fits.bindList {ps : List Param} {b : Expr Value}
    (h : s.Fits R (Expr.lambda ps b).openParams) {vs : List Value} (hvs : ∀ v ∈ vs, R.Holds v)
    (len : ps.length = vs.length) : (s.bindList ps vs).Fits R b.openParams := by
  have around {p : Param} (free : p ∉ ps) : (s.bindList ps vs).lookup p = s.lookup p := by
    rw [lookup, lookup?_bindList_of_notMem free, lookup]
  constructor
  · intro p hp
    by_cases bound : p ∈ ps
    · obtain ⟨v, -, found⟩ := exists_lookup?_bindList bound s len
      rw [lookup, found]
      exact calm_ok v
    · rw [around bound]
      exact h.calm p (Expr.mem_openParams_lambda.2 ⟨hp, bound⟩)
  · intro p
    by_cases bound : p ∈ ps
    · obtain ⟨v, hv, found⟩ := exists_lookup?_bindList bound s len
      rw [lookup, found]
      exact (brings_ok v).2 (hvs v hv)
    · rw [around bound]
      exact h.brings p

end Scope

namespace Upheld

variable {w : World} {R : Realm} {I : Trail → Prop} (up : Upheld w R I)

include up

/-- No name is hidden. -/
theorem shows (name : String) : name ∉ R.hidden := by
  rw [up.closed.shown]
  exact List.not_mem_nil

/-! ## Building and capturing -/

section

variable (all : ∀ v, R.Holds v)

include all

theorem makeProxy (v : Value) : R.Yields I R.Holds (Value.makeProxy v) := up.owned (all _)

theorem makeNode {now : World} (h : R.Covers now) (kind : NodeKind) (parts : List Value) :
    R.Yields I (fun _ => True) (Node.make now kind parts) := by
  unfold Node.make
  split
  · unfold Node.param
    split
    · exact (up.newParam _).bind fun _ _ => yields_pure trivial
    · exact yields_calm (calm_refuse _)
  · exact yields_calm (Node.calm_ofParts h all _ _)

mutual

theorem draft {now : World} (h : R.Covers now) (d : Draft Value) :
    R.Yields I (fun _ => True) (d.value now) := by
  cases d with
  | param p => exact yields_pure trivial
  | newParam n => exact (up.makeNode all h .param [n]).bind fun _ _ => yields_pure trivial
  | lit v => exact yields_pure trivial
  | null => exact yields_pure trivial
  | litTree d =>
    refine (draft h d).bind fun v _ => ?_
    exact (yields_calm (Node.calm_literal now v)).bind fun _ _ => yields_pure trivial
  | plain v => exact yields_pure trivial
  | member t n =>
    refine (draft h t).bind fun t _ => ?_
    exact (yields_calm (Node.calm_member now t n)).bind fun _ _ => yields_pure trivial
  | item t k =>
    refine (draft h t).bind fun t _ => ?_
    refine (draft h k).bind fun k _ => ?_
    exact (yields_calm (Node.calm_item now t k)).bind fun _ _ => yields_pure trivial
  | method t n as =>
    refine (draft h t).bind fun t _ => ?_
    refine (drafts h as).bind fun as _ => ?_
    exact (yields_calm (Node.calm_method now t n as)).bind fun _ _ => yields_pure trivial
  | func f as =>
    refine (draft h f).bind fun f _ => ?_
    refine (drafts h as).bind fun as _ => ?_
    exact (yields_calm (Node.calm_func now f as)).bind fun _ _ => yields_pure trivial
  | unary op e =>
    refine (draft h e).bind fun e _ => ?_
    exact (yields_calm (Node.calm_unary now op e)).bind fun _ _ => yields_pure trivial
  | binary op l r =>
    refine (draft h l).bind fun l _ => ?_
    refine (draft h r).bind fun r _ => ?_
    exact (yields_calm (Node.calm_binary now op l r)).bind fun _ _ => yields_pure trivial
  | cond p y n =>
    refine (draft h p).bind fun p _ => ?_
    refine (draft h y).bind fun y _ => ?_
    refine (draft h n).bind fun n _ => ?_
    exact (yields_calm (Node.calm_cond now p y n)).bind fun _ _ => yields_pure trivial
  | lambda ps b =>
    refine (drafts h ps).bind fun ps _ => ?_
    refine (draft h b).bind fun b _ => ?_
    exact (yields_calm (Node.calm_lambda now ps b)).bind fun _ _ => yields_pure trivial
  | invoke f as =>
    refine (draft h f).bind fun f _ => ?_
    refine (drafts h as).bind fun as _ => ?_
    exact (yields_calm (Node.calm_invoke now f as)).bind fun _ _ => yields_pure trivial
  | seq op s as =>
    refine (draft h s).bind fun s _ => ?_
    refine (drafts h as).bind fun as _ => ?_
    exact (yields_calm (Node.calm_seq now op s as)).bind fun _ _ => yields_pure trivial
  | record t fs =>
    refine (draftFields h fs).bind fun fs _ => ?_
    exact (yields_calm (Node.calm_record h all t fs)).bind fun _ _ => yields_pure trivial

theorem drafts {now : World} (h : R.Covers now) (ds : Drafts Value) :
    R.Yields I (fun _ => True) (ds.value now) := by
  cases ds with
  | plain v => exact yields_pure trivial
  | nil => exact yields_pure trivial
  | cons d ds =>
    refine (draft h d).bind fun u _ => ?_
    refine (drafts h ds).bind fun us _ => ?_
    split <;> exact yields_pure trivial

theorem draftFields {now : World} (h : R.Covers now) (fs : DraftFields Value) :
    R.Yields I (fun _ => True) (fs.value now) := by
  cases fs with
  | plain v => exact yields_pure trivial
  | nil => exact yields_pure trivial
  | cons n d fs =>
    refine (draft h d).bind fun u _ => ?_
    refine (draftFields h fs).bind fun us _ => ?_
    split <;> exact yields_pure trivial

end

end

/-! ## Calls that are known to yield -/

section

variable {call : Calling} (calls : ∀ f as, R.Holds f → (∀ a ∈ as, R.Holds a) →
  R.Yields I R.Holds (call f as))

include calls

section

variable (all : ∀ v, R.Holds v)

include all

theorem captureLambda (function : Value) (ps : List Param) :
    R.Yields I (fun _ => True) (EntityGraph.captureLambda w call function ps) := by
  refine yields_now fun t _ => ?_
  refine (yields_calm (Value.calm_arity (all function))).bind fun arity _ => ?_
  refine yields_ite (fun _ => yields_throw (R.ordinary (.told rfl))) fun _ => ?_
  refine (yields_mapM fun v _ => up.makeProxy all v).bind fun proxies _ => ?_
  refine (calls function proxies (all _) fun _ _ => all _).bind fun body _ => ?_
  exact yields_now fun t _ => yields_calm (Node.calm_lambda _ _ _)

theorem captureElement (function : Value) :
    R.Yields I (fun _ => True) (EntityGraph.captureElement w call function) := by
  refine yields_now fun t _ => ?_
  split
  · exact yields_pure trivial
  · exact (up.newParam _).bind fun p _ => captureLambda up calls all _ _

theorem recordCall (u : Value) (args : List Value) :
    R.Yields I (fun _ => True) (EntityGraph.recordCall w call u args) := by
  refine yields_now fun t _ => ?_
  dsimp only
  split
  · split
    · refine yields_ite (fun _ => ?_) fun _ => yields_calm (Node.calm_seqOf _ _ _ _)
      refine (yields_mapM fun v _ => captureElement up calls all v).bind fun fs _ => ?_
      exact yields_calm (Node.calm_seqOf _ _ _ _)
    · split
      · exact yields_calm (Node.calm_binaryOf _ _ _ _)
      · exact yields_throw (R.ordinary (.told rfl))
      · exact yields_calm (Node.calm_method _ _ _ _)
  · exact yields_calm (Node.calm_func _ _ _)

end

/-! ## Scripts -/

mutual

/-- Running a script that stays in the realm yields values of it. -/
theorem script (e : Script Value) (env : Env) (stays : e.StaysIn R) (around : ∀ b ∈ env, R.Holds b.2) :
    R.Yields I R.Holds (e.run w call env) := by
  cases e with
  | var n =>
    unfold Script.run
    split
    · next v found => exact yields_pure (Value.holds_lookup around found)
    · exact yields_throw (R.ordinary (.told rfl))
  | lit v => exact yields_pure stays.lit
  | const v => exact up.makeProxy stays.all_of_const _
  | attr t n =>
    refine (script t env stays.attr around).bind fun v hv => ?_
    refine yields_now fun u before => up.own (Value.calm_getAttr _ v n) ?_
    exact Value.brings_getAttr (up.covers u before) hv (up.shows n)
  | item t k =>
    refine (script t env stays.item.1 around).bind fun t ht => ?_
    refine (script k env stays.item.2 around).bind fun k hk => ?_
    refine yields_now fun u before => ?_
    have h := up.covers u before
    exact up.own (Value.calm_readItem h ht hk) (Value.brings_readItem h ht hk)
  | call f as =>
    refine (script f env stays.call.1 around).bind fun f hf => ?_
    exact (scripts as env stays.call.2 around).bind fun as has => calls f as hf has
  | bin op l r =>
    refine (script l env stays.bin.1 around).bind fun u hu => ?_
    refine (script r env stays.bin.2 around).bind fun v hv => ?_
    refine yields_now fun t before => ?_
    have h := up.covers t before
    exact up.own (Value.calm_operate h op hu hv) (Value.brings_operate h op hu hv)
  | inv e =>
    refine (script e env stays.inv around).bind fun v hv => ?_
    refine yields_now fun t before => up.own (Value.calm_invert _ v) ?_
    exact Value.brings_invert (up.covers t before) hv
  | neg e =>
    refine (script e env stays.neg around).bind fun v hv => ?_
    refine yields_now fun t before => up.own (Value.calm_negate _ v) ?_
    exact Value.brings_negate (up.covers t before) hv
  | fn ps star body =>
    exact up.newNumber.bind fun _ _ => yields_pure (up.closed.function.2 ⟨stays.fn, around⟩)
  | tree d =>
    refine yields_now fun t before => ?_
    exact (up.draft stays.all_of_tree (up.covers t before) d).bind
      fun v _ => up.owned (stays.all_of_tree v)
  | list es =>
    exact (scripts es env stays.list around).bind fun vs hvs => yields_pure (R.list.2 hvs)
  | and l r =>
    refine (script l env stays.and.1 around).bind fun v hv => ?_
    refine yields_now fun t before => ?_
    refine (yields_calm (Value.calm_truth hv)).bind fun holds _ => ?_
    exact yields_ite (fun _ => script r env stays.and.2 around) fun _ => yields_pure hv
  | not e =>
    refine (script e env stays.not around).bind fun v hv => ?_
    refine yields_now fun t before => ?_
    exact (yields_calm (Value.calm_truth hv)).bind fun _ _ => yields_pure (R.holds_bool _)
  | iter e =>
    refine (script e env stays.iter around).bind fun v hv => ?_
    refine yields_now fun t before => ?_
    exact (yields_outcome (Value.calm_elements hv)
      (Value.brings_elements (up.covers t before) hv)).bind fun vs hvs => yields_pure (R.list.2 hvs)
  | len e =>
    refine (script e env stays.len around).bind fun v hv => ?_
    refine yields_now fun t before => ?_
    exact (yields_calm (Value.calm_length _ v)).bind fun n _ => yields_pure (R.holds_int n)
  | isIn e c =>
    refine (script e env stays.isIn.1 around).bind fun v hv => ?_
    refine (script c env stays.isIn.2 around).bind fun c hc => ?_
    refine yields_now fun t before => ?_
    exact (yields_calm (Value.calm_contains (up.covers t before) hc hv)).bind
      fun b _ => yields_pure (R.holds_bool b)
  | setAttr t n v =>
    refine (script t env stays.setAttr.1 around).bind fun target ht => ?_
    exact (up.assign ht n stays.setAttr.2).bind fun _ _ => yields_pure R.holds_none
  | expression e =>
    have all := stays.all_of_expression
    exact (script e env (.inr all) around).bind fun v _ => up.owned (all _)
  | shown e =>
    refine (script e env stays.shown around).bind fun v hv => ?_
    refine yields_now fun t before => ?_
    exact (yields_calm (Value.calm_tellShown _ v)).bind fun s _ => yields_pure (R.holds_str s)

theorem scripts (es : List (Script Value)) (env : Env) (stays : ∀ e ∈ es, e.StaysIn R)
    (around : ∀ b ∈ env, R.Holds b.2) :
    R.Yields I (fun vs => ∀ v ∈ vs, R.Holds v) (Script.runList w call es env) := by
  cases es with
  | nil => exact yields_pure nofun
  | cons e es =>
    rw [List.forall_mem_cons] at stays
    refine (script e env stays.1 around).bind fun v hv => ?_
    refine (scripts es env stays.2 around).bind fun vs hvs => ?_
    exact yields_pure (List.forall_mem_cons.2 ⟨hv, hvs⟩)

end

end

/-! ## Sequences -/

section

variable {vs : List Value} (hvs : ∀ v ∈ vs, R.Holds v)

include hvs

theorem keptElements {test : Value → Making Value}
    (tests : ∀ v, R.Holds v → R.Yields I R.Holds (test v)) :
    R.Yields I (fun us => ∀ u ∈ us, R.Holds u) (Eval.keep w test vs) := by
  induction vs with
  | nil => exact yields_pure nofun
  | cons v vs ih =>
    rw [List.forall_mem_cons] at hvs
    refine (tests v hvs.1).bind fun u hu => ?_
    refine yields_now fun t before => ?_
    refine (yields_calm (Value.calm_truth hu)).bind fun holds _ => ?_
    refine yields_ite (fun _ => ?_) fun _ => ih hvs.2
    exact (ih hvs.2).bind fun us hus => yields_pure (List.forall_mem_cons.2 ⟨hvs.1, hus⟩)

theorem sorted {key : Value → Making Value}
    (keys : ∀ v, R.Holds v → R.Yields I R.Holds (key v)) (down : Bool) :
    R.Yields I R.Holds (Eval.sorted w key down vs) := by
  have keyed : R.Yields I (fun ks : List Sorting.Keyed => ∀ k ∈ ks, R.Holds k.1 ∧ R.Holds k.2)
      (vs.mapM fun v => do return (← key v, v)) :=
    yields_mapM fun v hv => (keys v (hvs v hv)).bind fun k hk => yields_pure ⟨hk, hvs v hv⟩
  refine keyed.bind fun ks hks => ?_
  refine yields_now fun t before => ?_
  have h := up.covers t before
  have permuted {done : List Sorting.Keyed} (perm : done.Perm ks) : R.Holds (.list (done.map (·.2))) := by
    rw [R.holds_list, List.forall_mem_map]
    exact fun k hk => (hks k (perm.subset hk)).2
  have fits : ∀ k ∈ ks, R.Holds k.1 := fun k hk => (hks k hk).1
  refine yields_ite (fun _ => ?_) fun _ => ?_
  · exact (yields_outcome (Sorting.calm_descending h fits) fun _ is => Sorting.descending_perm is).bind
      fun done perm => yields_pure (permuted perm)
  · exact (yields_outcome (Sorting.calm_ascending h fits) fun _ is => Sorting.ascending_perm is).bind
      fun done perm => yields_pure (permuted perm)

omit up in
theorem conclude (op : SeqOp) (self : Expr Value) :
    R.Yields I R.Holds (liftM (Eval.conclude op self vs)) := by
  refine yields_outcome ?_ ?_
  · unfold Eval.conclude
    grind
  · unfold Eval.conclude
    split
    · exact (brings_ok _).2 (R.holds_int _)
    · exact (brings_ok _).2 (R.holds_bool _)
    · cases vs with
      | nil => exact (brings_ok _).2 R.holds_none
      | cons v vs => exact (brings_ok _).2 (hvs v (by simp))
    · split
      · exact (brings_ok _).2 (hvs _ (by simp))
      · exact brings_error _
    · exact (brings_ok _).2 (R.list.2 hvs)

theorem applyFunction (op : SeqOp) (self : Expr Value) {function : Option (Value → Making Value)}
    (each : ∀ f, function = some f → ∀ v, R.Holds v → R.Yields I R.Holds (f v)) :
    R.Yields I R.Holds (Eval.applyFunction w op self function vs) := by
  cases function with
  | none => cases op <;> exact conclude hvs _ self
  | some f =>
    have each := each f rfl
    cases op with
    | select =>
      exact (yields_mapM fun v hv => each v (hvs v hv)).bind fun us hus => yields_pure (R.list.2 hus)
    | orderBy => exact up.sorted hvs each false
    | orderByDescending => exact up.sorted hvs each true
    | _ => exact (up.keptElements hvs each).bind fun us hus => conclude hus _ self

omit up in
theorem slice {now : World} (h : R.Covers now) (op : SeqOp) {count : Value} (hc : R.Holds count) :
    R.Yields I R.Holds (liftM (Eval.slice now op vs count)) := by
  refine yields_outcome ?_ ?_
  · have compared := Value.calm_operate h .gt (R.holds_int 0) hc
    have told (u : Value) (is : Value.operate now .gt (.int 0) count = .ok u) :
        R.Calm (u.truth now) :=
      Value.calm_truth (Value.brings_operate h .gt (R.holds_int 0) hc u is)
    unfold Eval.slice Eval.countOf
    grind
  · unfold Eval.slice
    split
    · exact (brings_ok _).2 (R.list.2 hvs)
    · refine (brings_bind _ _).2 fun n _ => (brings_ok _).2 (R.list.2 fun v hv => hvs v ?_)
      split at hv
      · exact List.mem_of_mem_take hv
      · exact List.mem_of_mem_drop hv

end

/-! ## Evaluating -/

section

variable {call : Calling} (calls : ∀ f as, R.Holds f → (∀ a ∈ as, R.Holds a) →
  R.Yields I R.Holds (call f as))

include calls

theorem bindAll {ps : List Param} {b : Expr Value} {s : Scope Value}
    (fits : s.Fits R (Expr.lambda ps b).openParams) {vs : List Value} (hvs : ∀ v ∈ vs, R.Holds v)
    {f : Scope Value → Making Value}
    (rest : ∀ u, u.Fits R b.openParams → R.Yields I R.Holds (f u)) :
    R.Yields I R.Holds ((liftM (s.bindAll ps vs) : Making _) >>= f) := by
  unfold Scope.bindAll Scope.bindAll?
  by_cases len : ps.length = vs.length
  · simp only [len, beq_self_eq_true, if_true]
    exact rest _ (fits.bindList hvs len)
  · simp only [beq_iff_eq, len, if_false]
    exact yields_throw (R.ordinary (.told rfl))

omit calls in
/-- An operator yields a value of the realm if its sides do. -/
theorem operator (op : BinaryOp) {a b : Expr Value} {s : Scope Value}
    (left : R.Yields I R.Holds (a.eval ⟨w, call⟩ s))
    (right : R.Yields I R.Holds (b.eval ⟨w, call⟩ s)) :
    R.Yields I R.Holds ((Expr.binary op a b).eval ⟨w, call⟩ s) := by
  refine left.bind fun v hv => ?_
  cases op with
  | and =>
    refine yields_now fun t before => ?_
    refine (yields_calm (Value.calm_truth hv)).bind fun holds _ => ?_
    refine yields_ite (fun _ => ?_) fun _ => yields_pure (R.holds_bool false)
    refine right.bind fun u hu => yields_now fun t before => ?_
    have h := up.covers t before
    exact yields_outcome (BinaryOp.calm_apply h _ hv hu) (BinaryOp.brings_apply h _ hv hu)
  | or =>
    refine yields_now fun t before => ?_
    refine (yields_calm (Value.calm_truth hv)).bind fun holds _ => ?_
    refine yields_ite (fun _ => yields_pure (R.holds_bool true)) fun _ => ?_
    refine right.bind fun u hu => yields_now fun t before => ?_
    have h := up.covers t before
    exact yields_outcome (BinaryOp.calm_apply h _ hv hu) (BinaryOp.brings_apply h _ hv hu)
  | _ =>
    refine right.bind fun u hu => yields_now fun t before => ?_
    have h := up.covers t before
    exact up.own (BinaryOp.calm_apply h _ hv hu) (BinaryOp.brings_apply h _ hv hu)

mutual

/-- Evaluating what holds values of the realm, in scopes that fit what it leaves open. -/
theorem eval (e : Expr Value) {s : Scope Value} (fits : s.Fits R e.openParams)
    (only : e.HoldsOnly R.Holds) : R.Yields I R.Holds (e.eval ⟨w, call⟩ s) := by
  cases e with
  | param p => exact yields_outcome (fits.calm p (by simp [Expr.openParams])) (fits.brings p)
  | lit v => exact yields_pure (Expr.holdsOnly_lit.1 only)
  | null => exact yields_pure R.holds_none
  | member t n =>
    have target := eval t (fits.mono (by simp [Expr.openParams])) (Expr.holdsOnly_member.1 only)
    refine target.bind fun v hv => ?_
    refine yields_ite (fun _ => yields_pure R.holds_none) fun _ => ?_
    refine yields_now fun u before => up.own (Value.calm_getAttr _ v n) ?_
    exact Value.brings_getAttr (up.covers u before) hv (up.shows n)
  | item t k =>
    obtain ⟨ot, ok⟩ := Expr.holdsOnly_item.1 only
    refine (eval t (fits.mono (by simp [Expr.openParams])) ot).bind fun v hv => ?_
    refine yields_ite (fun _ => yields_pure R.holds_none) fun _ => ?_
    refine (eval k (fits.mono (by simp [Expr.openParams])) ok).bind fun k hk => ?_
    refine yields_now fun u before => ?_
    have h := up.covers u before
    exact up.own (Value.calm_readItem h hv hk) (Value.brings_readItem h hv hk)
  | method t n as =>
    obtain ⟨ot, oas⟩ := Expr.holdsOnly_method.1 only
    refine (eval t (fits.mono (by simp [Expr.openParams])) ot).bind fun v hv => ?_
    refine yields_ite (fun _ => yields_pure R.holds_none) fun _ => ?_
    refine (evalList as (fits.mono (by simp [Expr.openParams])) oas).bind fun vs hvs => ?_
    refine yields_now fun u before => ?_
    refine (up.own (Value.calm_getAttr _ v n) ?_).bind fun f hf => calls f vs hf hvs
    exact Value.brings_getAttr (up.covers u before) hv (up.shows n)
  | func f as =>
    obtain ⟨of, oas⟩ := Expr.holdsOnly_func.1 only
    refine (eval f (fits.mono (by simp [Expr.openParams])) of).bind fun f hf => ?_
    refine (evalList as (fits.mono (by simp [Expr.openParams])) oas).bind fun vs hvs => ?_
    exact calls f vs hf hvs
  | unary op e =>
    have inner := eval e (fits.mono (by simp [Expr.openParams])) (Expr.holdsOnly_unary.1 only)
    refine inner.bind fun v hv => ?_
    refine yields_now fun u before => ?_
    exact up.own (UnaryOp.calm_apply op hv) (UnaryOp.brings_apply (up.covers u before) op hv)
  | binary op l r =>
    obtain ⟨ol, or⟩ := Expr.holdsOnly_binary.1 only
    exact up.operator op (eval l (fits.mono (by simp [Expr.openParams])) ol)
      (eval r (fits.mono (by simp [Expr.openParams])) or)
  | cond p y n =>
    obtain ⟨op, oy, on⟩ := Expr.holdsOnly_cond.1 only
    refine (eval p (fits.mono (by simp [Expr.openParams])) op).bind fun v hv => ?_
    refine yields_now fun t before => ?_
    refine (yields_calm (Value.calm_truth hv)).bind fun holds _ => ?_
    exact yields_ite (fun _ => eval y (fits.mono (by simp [Expr.openParams])) oy)
      fun _ => eval n (fits.mono fun p hp => by simp [Expr.openParams, hp]) on
  | lambda ps b => exact up.newClosure ⟨fits, Expr.holdsOnly_lambda.1 only⟩
  | invoke f as =>
    obtain ⟨of, oas⟩ := Expr.holdsOnly_invoke.1 only
    refine (evalList as (fits.mono (by simp [Expr.openParams])) oas).bind fun vs hvs => ?_
    exact applyTo f hvs (fits.mono (by simp [Expr.openParams])) of
  | seq op src as =>
    obtain ⟨osrc, oas⟩ := Expr.holdsOnly_seq.1 only
    have args : s.Fits R (Expr.openParamsList as) := fits.mono (by simp [Expr.openParams])
    refine (eval src (fits.mono (by simp [Expr.openParams])) osrc).bind fun v hv => ?_
    refine yields_ite (fun _ => ?_) fun _ => ?_
    · exact yields_ite (fun _ => yields_pure R.holds_none)
        fun _ => yields_throw (R.ordinary (.told rfl))
    · refine yields_now fun t before => ?_
      refine (yields_outcome (Value.calm_elements hv)
        (Value.brings_elements (up.covers t before) hv)).bind fun vs hvs => ?_
      refine yields_ite (fun _ => ?_) fun _ => ?_
      · split
        · exact yields_throw (R.ordinary (.told rfl))
        · refine up.applyFunction hvs op _ fun f hf x hx => ?_
          split at hf
          · cases hf
          · cases hf
            exact applyFirst as hx args oas
      · refine (evalFirst as args oas).bind fun count hc => ?_
        exact yields_now fun t before => slice hvs (up.covers t before) op hc
  | record t fs =>
    obtain ⟨ot, ofs⟩ := Expr.holdsOnly_record.1 only
    refine (evalFields fs (fits.mono (by simp [Expr.openParams])) ofs).bind fun vs hvs => ?_
    exact calls t [.list vs] ot (List.forall_mem_singleton.2 (R.list.2 hvs))

theorem evalList (es : List (Expr Value)) {s : Scope Value}
    (fits : s.Fits R (Expr.openParamsList es)) (only : ∀ e ∈ es, e.HoldsOnly R.Holds) :
    R.Yields I (fun vs => ∀ v ∈ vs, R.Holds v) (Expr.evalList ⟨w, call⟩ es s) := by
  cases es with
  | nil => exact yields_pure nofun
  | cons e es =>
    rw [List.forall_mem_cons] at only
    refine (eval e (fits.mono (by simp [Expr.openParamsList])) only.1).bind fun v hv => ?_
    refine (evalList es (fits.mono (by simp [Expr.openParamsList])) only.2).bind fun vs hvs => ?_
    exact yields_pure (List.forall_mem_cons.2 ⟨hv, hvs⟩)

theorem evalFields (fs : List (Value × Expr Value)) {s : Scope Value}
    (fits : s.Fits R (Expr.openParamsFields fs))
    (only : ∀ f ∈ fs, R.Holds f.1 ∧ f.2.HoldsOnly R.Holds) :
    R.Yields I (fun vs => ∀ v ∈ vs, R.Holds v) (Expr.evalFields ⟨w, call⟩ fs s) := by
  cases fs with
  | nil => exact yields_pure nofun
  | cons f fs =>
    obtain ⟨n, e⟩ := f
    rw [List.forall_mem_cons] at only
    obtain ⟨⟨hn, oe⟩, ofs⟩ := only
    refine (eval e (fits.mono (by simp [Expr.openParamsFields])) oe).bind fun v hv => ?_
    refine (evalFields fs (fits.mono (by simp [Expr.openParamsFields])) ofs).bind fun vs hvs => ?_
    have pair : R.Holds (.tuple [n, v]) :=
      R.tuple.2 (List.forall_mem_cons.2 ⟨hn, List.forall_mem_singleton.2 hv⟩)
    exact yields_pure (List.forall_mem_cons.2 ⟨pair, hvs⟩)

theorem evalFirst (es : List (Expr Value)) {s : Scope Value}
    (fits : s.Fits R (Expr.openParamsList es)) (only : ∀ e ∈ es, e.HoldsOnly R.Holds) :
    R.Yields I R.Holds (Expr.evalFirst ⟨w, call⟩ es s) := by
  cases es with
  | nil => exact yields_pure R.holds_none
  | cons e es => exact eval e (fits.mono (by simp [Expr.openParamsList])) (only e (by simp))

theorem applyTo (f : Expr Value) {vs : List Value} (hvs : ∀ v ∈ vs, R.Holds v) {s : Scope Value}
    (fits : s.Fits R f.openParams) (only : f.HoldsOnly R.Holds) :
    R.Yields I R.Holds (Expr.applyTo ⟨w, call⟩ f vs s) := by
  cases f with
  | lambda ps b =>
    exact up.bindAll calls fits hvs fun u inner => eval b inner (Expr.holdsOnly_lambda.1 only)
  | _ => exact yields_throw (R.ordinary (.told rfl))

theorem applyFirst (es : List (Expr Value)) {v : Value} (hv : R.Holds v) {s : Scope Value}
    (fits : s.Fits R (Expr.openParamsList es)) (only : ∀ e ∈ es, e.HoldsOnly R.Holds) :
    R.Yields I R.Holds (Expr.applyFirst ⟨w, call⟩ es v s) := by
  cases es with
  | nil => exact yields_pure R.holds_none
  | cons e es =>
    exact applyTo e (List.forall_mem_singleton.2 hv) (fits.mono (by simp [Expr.openParamsList]))
      (only e (by simp))

end

end

/-! ## Calls -/

theorem instantiate {now : World} (h : R.Covers now) {t : HostType} (ht : R.Holds (.type t))
    {args : List Value} (hargs : ∀ a ∈ args, R.Holds a) :
    R.Yields I R.Holds (Value.instantiate now t args) := by
  unfold Value.instantiate
  split
  · exact up.makeProxy (up.closed.proxyType ht) _
  · exact yields_throw (by simp)
  · have all := up.closed.nodeType ht
    split
    · exact (up.makeNode all h _ _).bind fun e _ => up.owned (all _)
    · exact yields_throw (R.ordinary (.told rfl))
  · exact up.construct h hargs _

/-- The variables inside a function that is called. -/
theorem argumentEnv {params : List String} {star : Option String} {args : List Value} {env : Env}
    (hargs : ∀ a ∈ args, R.Holds a) (around : ∀ b ∈ env, R.Holds b.2) :
    R.Yields I (fun inner => ∀ b ∈ inner, R.Holds b.2)
      (liftM (EntityGraph.argumentEnv params star args env)) := by
  refine yields_outcome ?_ ?_
  · unfold EntityGraph.argumentEnv
    grind
  · unfold EntityGraph.argumentEnv
    dsimp only
    split
    · exact brings_error _
    · refine (brings_ok _).2 fun b hb => ?_
      rcases List.mem_append.1 hb with front | outer
      · rcases List.mem_append.1 front with further | named
        · cases star with
          | none => cases further
          | some name =>
            cases List.mem_singleton.1 further
            exact R.tuple.2 fun v hv => hargs v (List.mem_of_mem_drop hv)
        · exact hargs _ (List.of_mem_zip (List.mem_reverse.1 named)).2
      · exact around b outer

/-- Calls of what is in the realm yield what is in it, however deep they are nested. -/
theorem callWithin (depth : Nat) (f : Value) (args : List Value) (hf : R.Holds f)
    (hargs : ∀ a ∈ args, R.Holds a) : R.Yields I R.Holds (Value.callWithin w depth f args) := by
  induction depth generalizing f args with
  | zero => exact yields_throw (R.ordinary (.told rfl))
  | succ depth calls =>
    cases f with
    | function i ps star body env =>
      obtain ⟨stays, around⟩ := up.closed.function.1 hf
      refine yields_now fun t before => ?_
      exact (up.argumentEnv hargs around).bind fun inner held => up.script calls body inner stays held
    | supplied g => exact yields_now fun t before => calls g args (up.closed.supplied hf) hargs
    | closure n =>
      refine yields_now fun _ _ t before => ?_
      rw [runOn_bind_ok (runOn_get t)]
      -- What is called is kept in the trail, and the property of the trail says that it fits.
      cases kept : t.closures.lookup n with
      | none => exact yields_throw (by simp) t before
      | some c =>
        have fits := up.kept t n c before kept
        exact up.bindAll calls fits.scope hargs
          (fun u inner => up.eval calls c.body inner fits.body) t before
    | proxy u m =>
      have all := up.closed.proxy hf
      refine yields_now fun t before => ?_
      exact (up.recordCall calls all u args).bind fun e _ => up.makeProxy all _
    | method self name =>
      have hself := (R.method.1 hf).1
      refine yields_now fun t before => ?_
      have h := up.covers t before
      cases self with
      | proxy u m =>
        have all := up.closed.proxy hself
        refine yields_ite (fun _ => ?_) fun _ => ?_
        · exact (up.recordCall calls all u args).bind fun e _ => up.makeProxy all _
        · exact up.own (Value.calm_callProxyMethod h hself hargs name) fun v _ => all v
      | _ =>
        exact up.own (Value.calm_callMethod h hargs hself name)
          (Value.brings_callMethod h hargs hself (up.shows name))
    | type t => exact yields_now fun u before => up.instantiate (up.covers u before) hf hargs
    | generic t ps =>
      exact yields_now fun u before =>
        up.instantiate (up.covers u before) (R.generic.1 hf).1 hargs
    | primitive p => exact yields_now fun t before => up.primitive (up.covers t before) hargs p
    | _ => exact yields_now fun _ _ => yields_throw (by simp)

theorem call (f : Value) (args : List Value) (hf : R.Holds f) (hargs : ∀ a ∈ args, R.Holds a) :
    R.Yields I R.Holds (w.host.call f args) :=
  up.callWithin Value.callDepth f args hf hargs

end Upheld

/-- What adds a parameter from around it to the argument of a lambda, for examples. -/
def Expr.adding : Expr Value :=
  invoke (lambda [.x] (binary .add (param .x) (param .y))) [lit (.int 1)]

end EntityGraph
