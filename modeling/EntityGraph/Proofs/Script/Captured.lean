import EntityGraph.Proofs.Script.Meaning
import EntityGraph.Proofs.Script.Recording

/-!
# Captured parts of scripts

What was captured of a part of a script, in an environment of proxies, is related to what the part
means, in every scope that binds the parameters of the proxies: the evaluation of a recorded
expression follows the meaning, a constant is the meaning, and a nested function stands for it. This
is shown for each construct on its own, given that it holds of its parts and of calls.
-/

set_option linter.unusedSectionVars false

namespace EntityGraph

/-- Whether an expression reads a member. -/
def Expr.isMember : Expr Value → Bool
  | member .. => true
  | _ => false

/-- Whether the value of a computation is the meaning that another one comes to. -/
def Yields (x : Making Meaning) (y : Making Value) : Prop :=
  ∀ c m d, runOn x c = (.ok m, d) → ∃ v, m = .value v ∧ runOn y c = (.ok v, d)

theorem Yields.settled {x : Making Meaning} {y : Making Value} (h : Yields x y) :
    Follows (x >>= Meaning.settle) y := by
  intro c v d run
  obtain ⟨m, b, first, rest⟩ := bind_eq_ok run
  obtain ⟨u, rfl, evaluated⟩ := h c m b first
  cases rest
  exact evaluated

theorem yields_value {x y : Making Value} (h : Follows x y) :
    Yields (do return .value (← x)) y := by
  intro c m d run
  obtain ⟨v, b, first, rest⟩ := bind_eq_ok run
  cases rest
  exact ⟨v, rfl, h c v d first⟩

/-- A parameter has a number up to `top`. -/
def Below (top : Nat) (p : Param) (_ : Value) : Prop := p.id ≤ top

/-- A parameter has a number up to `top`, and a value in a scope. -/
def Binds (s : Scope Value) (top : Nat) (p : Param) (v : Value) : Prop :=
  p.id ≤ top ∧ s.lookup? p = some v

/-- Whether what was captured belongs to what is meant: to the computations that `X` assigns to each
scope. -/
inductive Captures (w : World) (made top : Nat) :
    Kind → Value → (Scope Value → Making Meaning → Prop) → Prop
  | recorded {reads : Bool} {r : Value} {X : Scope Value → Making Meaning → Prop} {e : Expr Value}
      (proxied : Proxied made r e) (shape : e.isMember = reads)
      (yields : ∀ s x, X s x → Yields x (e.eval w.host s)) :
      Captures w made top (.recorded reads) r X
  | constant {v : Value} {X : Scope Value → Making Meaning → Prop} (plain : v.isConstant = true)
      (yields : ∀ s x, X s x → Yields x (pure v)) : Captures w made top (.constant v) v X
  | function {ps : List String} {star : Option String} {body : Script Value} {kinds : Kinds}
      {r : Value} {X : Scope Value → Making Meaning → Prop}
      (known : ∃ m, StandsFor made (Below top) (.function ps star body kinds) r m)
      (stands : ∀ s x, X s x → ∀ c m d, runOn x c = (.ok m, d) →
        d = c ∧ StandsFor made (Binds s top) (.function ps star body kinds) r m) :
      Captures w made top (.function ps star body kinds) r X

variable {w : World} {made top : Nat} {k : Kind} {r : Value}

/-- What stands for its meaning in every scope is captured. -/
theorem captures_of_stands {X : Scope Value → Making Meaning → Prop}
    (known : ∃ u, StandsFor made (Below top) k r u)
    (stands : ∀ s x, X s x → ∃ u, x = pure u ∧ StandsFor made (Binds s top) k r u) :
    Captures w made top k r X := by
  obtain ⟨_, known⟩ := known
  cases known with
  | param _ late =>
    refine .recorded ⟨_, _, rfl, late⟩ rfl fun s x h => ?_
    obtain ⟨u, rfl, here⟩ := stands s x h
    cases here with
    | param here =>
      intro c m d run
      cases run
      refine ⟨_, rfl, ?_⟩
      show runOn (do return ← s.lookup _) _ = _
      rw [show s.lookup _ = .ok _ by unfold Scope.lookup; rw [here.2]]
      rfl
  | literal late =>
    refine .recorded ⟨_, _, rfl, late⟩ rfl fun s x h => ?_
    obtain ⟨u, rfl, here⟩ := stands s x h
    cases here with
    | literal =>
      intro c m d run
      cases run
      exact ⟨_, rfl, rfl⟩
  | constant plain =>
    refine .constant plain fun s x h => ?_
    obtain ⟨u, rfl, here⟩ := stands s x h
    cases here with
    | constant =>
      intro c m d run
      cases run
      exact ⟨_, rfl, rfl⟩
  | function around =>
    refine .function ⟨_, .function around⟩ fun s x h c u d run => ?_
    obtain ⟨u', rfl, here⟩ := stands s x h
    cases run
    exact ⟨rfl, here⟩

/-- What was captured of one thing was captured of everything that runs like it. -/
theorem Captures.mono {X Y : Scope Value → Making Meaning → Prop} (h : Captures w made top k r X)
    (sub : ∀ s y c m d, Y s y → runOn y c = (.ok m, d) → ∃ x, X s x ∧ runOn x c = (.ok m, d)) :
    Captures w made top k r Y := by
  cases h with
  | recorded proxied shape yields =>
    refine .recorded proxied shape fun s y h c m d run => ?_
    obtain ⟨x, hx, run⟩ := sub s y c m d h run
    exact yields s x hx c m d run
  | constant plain yields =>
    refine .constant plain fun s y h c m d run => ?_
    obtain ⟨x, hx, run⟩ := sub s y c m d h run
    exact yields s x hx c m d run
  | function known stands =>
    refine .function known fun s y h c m d run => ?_
    obtain ⟨x, hx, run⟩ := sub s y c m d h run
    exact stands s x hx c m d run

theorem Captures.operand {X : Scope Value → Making Meaning → Prop} (h : Captures w made top k r X)
    (operand : k.isOperand = true) :
    ∃ e, Written made r.recorded e ∧ ∀ s x, X s x → Yields x (e.eval w.host s) := by
  cases h with
  | recorded proxied _ yields => exact ⟨_, proxied.written, yields⟩
  | constant plain yields => exact ⟨_, written_recorded made plain, yields⟩
  | function => cases operand

/-- Whether capturing a script, with this bound on calls, belongs to what it means, with these bounds
on kinds and on meanings. -/
def Script.Faithful (w : World) (base : Trail) (d n m : Nat) (t : Script Value) : Prop :=
  ∀ top kinds k env a r b, base.Since a → top ≤ a.supply →
    (∃ means, StandAll base.supply (Below top) kinds env means) →
    t.kind (Kind.applyWithin n) kinds = some k →
    runOn (t.run w (Value.callWithin w d) env) a = (.ok r, b) →
    a.Since b ∧ Captures w base.supply top k r fun s x =>
      ∃ means, StandAll base.supply (Binds s top) kinds env means
        ∧ x = t.meaning w (Meaning.applyWithin w m) means

/-- Whether a computation is what a script means in a scope, where the variables stand for what was
captured of them. -/
def Script.Meant (w : World) (made m top : Nat) (kinds : Kinds) (env : Env) (t : Script Value)
    (s : Scope Value) (x : Making Meaning) : Prop :=
  ∃ means, StandAll made (Binds s top) kinds env means
    ∧ x = t.meaning w (Meaning.applyWithin w m) means

theorem ne_proxy_of_isConstant {v : Value} (plain : v.isConstant = true) (u : Value) (mark : Nat) :
    v ≠ .proxy u mark := by
  rintro rfl
  cases plain

namespace Script

/-- A script with an operator in front of it. -/
def unary : UnaryOp → Script Value → Script Value
  | .not, t => inv t
  | .neg, t => neg t

variable {w : World} {base : Trail} {d n m : Nat}

/-! ## Names -/

/-- A name stands for its meaning if the variables stand for theirs, whatever that demands of
parameters. -/
theorem stands_name {call : Calling} {shown : Kind → List Kind → Option Kind} (apply : Applying)
    {t : Script Value} (name : t.isName = true) {kinds : Kinds} {k : Kind} {env : Env}
    {a b : Trail} {r : Value} (since : base.Since a) (kind : t.kind shown kinds = some k)
    (run : runOn (t.run w call env) a = (.ok r, b)) :
    a.Since b ∧ ∀ R means, StandAll base.supply R kinds env means →
      ∃ u, t.meaning w apply means = pure u ∧ StandsFor base.supply R k r u := by
  cases t with
  | var x =>
    rw [Script.kind] at kind
    rw [Script.run] at run
    split at run
    · next v here =>
      cases run
      refine ⟨Trail.since_refl _, fun R means stand => ?_⟩
      obtain ⟨v', u, here', found, stands⟩ := stand.lookup kind
      cases here.symm.trans here'
      refine ⟨u, ?_, stands⟩
      rw [Script.meaning, found]
    · cases run
  | lit v =>
    rw [Script.kind] at kind
    rw [Script.run] at run
    cases run
    split at kind
    · next plain =>
      cases kind
      exact ⟨Trail.since_refl _, fun R means stand => ⟨_, rfl, .constant plain⟩⟩
    · cases kind
  | const v =>
    rw [Script.kind] at kind
    rw [Script.run, runOn_makeProxy] at run
    cases kind
    cases run
    refine ⟨Trail.since_next _, fun R means stand => ⟨_, rfl, .literal ?_⟩⟩
    exact Nat.lt_succ_of_le since.later
  | fn ps star body =>
    rw [Script.kind] at kind
    rw [Script.run] at run
    obtain ⟨id, a', numbered, run⟩ := bind_eq_ok run
    cases kind
    cases numbered
    cases run
    exact ⟨Trail.since_next _, fun R means stand => ⟨_, rfl, .function stand⟩⟩
  | _ => cases name

theorem faithful_name {t : Script Value} (name : t.isName = true) : Faithful w base d n m t := by
  intro top kinds k env a r b since low shape kind run
  obtain ⟨since', stands⟩ := stands_name (Meaning.applyWithin w m) name since kind run
  obtain ⟨means, shape⟩ := shape
  refine ⟨since', captures_of_stands ?_ ?_⟩
  · obtain ⟨u, _, known⟩ := stands (Below top) means shape
    exact ⟨u, known⟩
  · rintro s x ⟨means, stand, rfl⟩
    exact stands (Binds s top) means stand

/-! ## Reading and operators -/

/-- What is recorded of operands becomes a proxy of its own. -/
theorem proxied_of_own {e : Expr Value} {a b : Trail} {r : Value} (since : base.Since a)
    (run : runOn (Value.own (.ok (Value.ofRecorded e))) a = (.ok r, b)) :
    a.Since b ∧ Proxied base.supply r e := by
  rw [runOn_own_recorded] at run
  cases run
  exact ⟨Trail.since_next _, _, _, rfl, Nat.lt_succ_of_le since.later⟩

theorem proxyOwn?_of_isMemberName {name : String} (h : isMemberName name = true) (u : Value)
    (mark : Nat) : Value.proxyOwn? u mark name = none := by
  have own : ((Value.proxyMethods.map (·.1)) ++ Value.silentProxyMethods).all (!isMemberName ·)
      = true := by decide +kernel
  rw [List.all_eq_true] at own
  unfold Value.proxyOwn?
  split
  case h_7 =>
    rw [if_neg]
    intro has
    rw [Bool.or_eq_true, List.any_eq_true] at has
    have among : name ∈ (Value.proxyMethods.map (·.1)) ++ Value.silentProxyMethods := by
      rw [List.mem_append, List.mem_map]
      rcases has with ⟨e, among, same⟩ | has
      · exact .inl ⟨e, among, by simpa using same⟩
      · exact .inr (by simpa using has)
    have other := own name among
    rw [h] at other
    cases other
  all_goals exact absurd h (by decide +kernel)

/-- What is recorded of a script is captured if its expression yields what the script means. -/
theorem captured_own {top : Nat} {kinds : Kinds} {env : Env} {t : Script Value} {e : Expr Value}
    {a b : Trail} {r : Value} (since : base.Since a)
    (run : runOn (Value.own (.ok (Value.ofRecorded e))) a = (.ok r, b))
    (yields : ∀ s means, StandAll base.supply (Binds s top) kinds env means →
      Yields (t.meaning w (Meaning.applyWithin w m) means) (e.eval w.host s)) :
    a.Since b
      ∧ Captures w base.supply top (.recorded e.isMember) r
        (t.Meant w base.supply m top kinds env) := by
  obtain ⟨since', made⟩ := proxied_of_own since run
  refine ⟨since', .recorded made rfl ?_⟩
  rintro s x ⟨means, stand, rfl⟩
  exact yields s means stand

theorem own_ok {x : Outcome Value} {a b : Trail} {r : Value}
    (run : runOn (Value.own x) a = (.ok r, b)) : ∃ v, x = .ok v := by
  cases x with
  | error e => cases run
  | ok v => exact ⟨v, rfl⟩

section

variable {call : Calling} {env : Env} {l t : Script Value} {a b : Trail} {r : Value}

theorem run_item (run : runOn ((item l t).run w call env) a = (.ok r, b)) :
    ∃ u a₁ v a₂, runOn (l.run w call env) a = (.ok u, a₁)
      ∧ runOn (t.run w call env) a₁ = (.ok v, a₂)
      ∧ runOn (Value.own (Value.readItem (w.after a₂) u v)) a₂ = (.ok r, b) := by
  rw [Script.run] at run
  obtain ⟨u, a₁, first, run⟩ := bind_eq_ok run
  obtain ⟨v, a₂, next, run⟩ := bind_eq_ok run
  exact ⟨u, a₁, v, a₂, first, next, run⟩

theorem run_bin {op : ScriptOp} (run : runOn ((bin op l t).run w call env) a = (.ok r, b)) :
    ∃ u a₁ v a₂, runOn (l.run w call env) a = (.ok u, a₁)
      ∧ runOn (t.run w call env) a₁ = (.ok v, a₂)
      ∧ runOn (Value.own (Value.operate (w.after a₂) op u v)) a₂ = (.ok r, b) := by
  rw [Script.run] at run
  obtain ⟨u, a₁, first, run⟩ := bind_eq_ok run
  obtain ⟨v, a₂, next, run⟩ := bind_eq_ok run
  exact ⟨u, a₁, v, a₂, first, next, run⟩

theorem run_call {ts : List (Script Value)}
    (run : runOn ((Script.call t ts).run w call env) a = (.ok r, b)) :
    ∃ u a₁ vs a₂, runOn (t.run w call env) a = (.ok u, a₁)
      ∧ runOn (runList w call ts env) a₁ = (.ok vs, a₂) ∧ runOn (call u vs) a₂ = (.ok r, b) := by
  rw [Script.run] at run
  obtain ⟨u, a₁, first, run⟩ := bind_eq_ok run
  obtain ⟨vs, a₂, next, run⟩ := bind_eq_ok run
  exact ⟨u, a₁, vs, a₂, first, next, run⟩

end

/-- Parts that run one after the other are both captured. -/
theorem Faithful.both {l t : Script Value} (ih : Faithful w base d n m l)
    (ih' : Faithful w base d n m t) {top : Nat} {kinds : Kinds} {k k' : Kind} {env : Env}
    {a a₁ a₂ : Trail} {u v : Value} (since : base.Since a) (low : top ≤ a.supply)
    (shape : ∃ means, StandAll base.supply (Below top) kinds env means)
    (left : l.kind (Kind.applyWithin n) kinds = some k)
    (right : t.kind (Kind.applyWithin n) kinds = some k')
    (first : runOn (l.run w (Value.callWithin w d) env) a = (.ok u, a₁))
    (next : runOn (t.run w (Value.callWithin w d) env) a₁ = (.ok v, a₂)) :
    a.Since a₂
      ∧ Captures w base.supply top k u (l.Meant w base.supply m top kinds env)
      ∧ Captures w base.supply top k' v (t.Meant w base.supply m top kinds env) := by
  obtain ⟨since₁, captured⟩ := ih top kinds k env a u a₁ since low shape left first
  obtain ⟨since₂, captured'⟩ := ih' top kinds k' env a₁ v a₂ (since.trans since₁)
    (Nat.le_trans low since₁.later) shape right next
  exact ⟨since₁.trans since₂, captured, captured'⟩

section

variable (w : World) (apply : Applying) (means : Meanings)

theorem meaning_attr (t : Script Value) (name : String) :
    (attr t name).meaning w apply means
      = (t.meaning w apply means >>= Meaning.settle >>= fun v => readMember w v name)
        >>= fun v => pure (.value v) := by
  rw [Script.meaning]
  simp only [bind_assoc]

theorem meaning_item (t key : Script Value) :
    (item t key).meaning w apply means
      = (t.meaning w apply means >>= Meaning.settle >>= fun v =>
          readKey w v (key.meaning w apply means >>= Meaning.settle))
        >>= fun v => pure (.value v) := by
  rw [Script.meaning]
  simp only [bind_assoc]

theorem meaning_bin (op : ScriptOp) (l t : Script Value) :
    (bin op l t).meaning w apply means
      = (l.meaning w apply means >>= Meaning.settle >>= fun v =>
          combine w op.recorded v (t.meaning w apply means >>= Meaning.settle))
        >>= fun v => pure (.value v) := by
  rw [Script.meaning]
  simp only [bind_assoc]

end

theorem isProtocol_of_isMemberName {name : String} (named : isMemberName name = true) :
    Value.isProtocol name = false := by
  unfold isMemberName at named
  simp only [Bool.and_eq_true, Bool.not_eq_true'] at named
  exact named.1

/-- A member that a proxy does not have itself is recorded. -/
theorem getAttr_of_isMemberName {name : String} (named : isMemberName name = true) (now : World)
    (u : Value) (mark : Nat) :
    Value.getAttr now (.proxy u mark) name = Value.recordMember now u name := by
  show (Value.proxyOwn? u mark name).elim _ _ = _
  rw [proxyOwn?_of_isMemberName named]
  rfl

variable (settled : base.IsSettled)

include settled

theorem getAttr_proxy {a : Trail} (since : base.Since a) {u v : Value} {e : Expr Value}
    (written : Written base.supply u e) {name : String} (named : isMemberName name = true)
    {mark : Nat} (h : Value.getAttr (w.after a) (.proxy u mark) name = .ok v) :
    v = .ofRecorded (.member e name) := by
  rw [getAttr_of_isMemberName named, Value.recordMember, isProtocol_of_isMemberName named] at h
  obtain ⟨node, made, h⟩ := outcome_bind_ok h
  cases h
  unfold Node.member at made
  rw [written.treeAt settled since] at made
  obtain ⟨_, same, made⟩ := outcome_bind_ok made
  cases same
  simp only [] at made
  split at made
  · cases made
  · cases made
    rfl

theorem readItem_proxy {a : Trail} (since : base.Since a) {u k : Value} {e f : Expr Value}
    (target : Written base.supply u e) (key : Written base.supply k.recorded f) (mark : Nat) :
    Value.readItem (w.after a) (.proxy u mark) k = .ok (.ofRecorded (.item e f)) := by
  show (Node.item (w.after a) u k.recorded >>= _) = _
  rw [node_item settled since target key]
  rfl

/-- Reading a member of what was captured is recorded as such. -/
theorem captured_attr {top : Nat} {reads : Bool} {u : Value}
    {X : Scope Value → Making Meaning → Prop}
    (captured : Captures w base.supply top (.recorded reads) u X) {name : String}
    (named : isMemberName name = true) {a b : Trail} {r : Value} (since : base.Since a)
    (run : runOn (do Value.own (Value.getAttr (← Making.now w) u name)) a = (.ok r, b)) :
    a.Since b ∧ ∃ e, Proxied base.supply r (.member e name)
      ∧ ∀ s x, X s x → Yields x (e.eval w.host s) := by
  cases captured with
  | @recorded _ _ _ e proxied _ yields =>
    obtain ⟨pos, mark, rfl, late⟩ := proxied
    have written : Written base.supply (.expr e pos) e := ⟨pos, rfl, .inr late⟩
    obtain ⟨now, _, here, run⟩ := bind_eq_ok run
    cases here
    obtain ⟨v, read⟩ := own_ok run
    rw [read, getAttr_proxy settled since written named read] at run
    obtain ⟨since', made⟩ := proxied_of_own since run
    exact ⟨since', e, made, yields⟩

theorem faithful_attr {t : Script Value} (ih : Faithful w base d n m t) (name : String) :
    Faithful w base d n m (.attr t name) := by
  intro top kinds k env a r b since low shape kind run
  rw [Script.kind] at kind
  split at kind
  case h_2 => cases kind
  case h_1 reads target =>
    split at kind
    case isFalse => cases kind
    case isTrue named =>
      cases kind
      rw [Script.run] at run
      obtain ⟨u, a₁, first, run⟩ := bind_eq_ok run
      obtain ⟨since₁, captured⟩ := ih top kinds _ env a u a₁ since low shape target first
      obtain ⟨since₂, e, made, yields⟩ :=
        captured_attr settled captured named (since.trans since₁) run
      refine ⟨since₁.trans since₂, .recorded made rfl ?_⟩
      rintro s x ⟨means, stand, rfl⟩
      rw [meaning_attr]
      exact yields_value (follows_bind (yields s _ ⟨means, stand, rfl⟩).settled
        fun v => follows_refl _)

theorem faithful_item {t key : Script Value} (ih : Faithful w base d n m t)
    (ih' : Faithful w base d n m key) : Faithful w base d n m (.item t key) := by
  intro top kinds k env a r b since low shape kind run
  rw [Script.kind] at kind
  split at kind
  case h_2 => cases kind
  case h_1 reads k' target second =>
    split at kind
    case isFalse => cases kind
    case isTrue operand =>
      cases kind
      obtain ⟨u, a₁, v, a₂, first, next, run⟩ := run_item run
      obtain ⟨since', captured, captured'⟩ :=
        ih.both ih' since low shape target second first next
      have all := since.trans since'
      obtain ⟨f, written', yields'⟩ := captured'.operand operand
      cases captured with
      | @recorded _ _ _ e proxied _ yields =>
        obtain ⟨pos, mark, rfl, late⟩ := proxied
        have written : Written base.supply (.expr e pos) e := ⟨pos, rfl, .inr late⟩
        rw [readItem_proxy settled all written written'] at run
        have follows : ∀ s means, StandAll base.supply (Binds s top) kinds env means →
            Yields ((item t key).meaning w (Meaning.applyWithin w m) means)
              ((Expr.item e f).eval w.host s) := by
          intro s means stand
          rw [meaning_item]
          refine yields_value (follows_bind (yields s _ ⟨means, stand, rfl⟩).settled fun v => ?_)
          exact follows_readKey w v (yields' s _ ⟨means, stand, rfl⟩).settled
        obtain ⟨since₃, made⟩ := captured_own all run follows
        exact ⟨since'.trans since₃, made⟩

/-! ### Operators -/

theorem recordUnary_written {a : Trail} (since : base.Since a) {u : Value} {e : Expr Value}
    (written : Written base.supply u e) (op : UnaryOp) :
    Value.recordUnary (w.after a) op u = .ok (.ofRecorded (.unary op e)) := by
  unfold Value.recordUnary
  rw [written.treeAt settled since]
  rfl

theorem recordBinary_written {a : Trail} (since : base.Since a) {u v : Value} {e f : Expr Value}
    (left : Written base.supply u e) (right : Written base.supply v f) (op : BinaryOp) :
    Value.recordBinary (w.after a) op u v = .ok (.ofRecorded (.binary op e f)) := by
  unfold Value.recordBinary
  rw [node_binaryOf settled since left right]
  rfl

omit settled in
theorem kind_unary (op : UnaryOp) (apply : Kind → List Kind → Option Kind) (t : Script Value)
    (kinds : Kinds) :
    (t.unary op).kind apply kinds = match t.kind apply kinds with
      | some (.recorded _) => some (.recorded false)
      | _ => none := by
  cases op <;> exact Script.kind.eq_def ..

omit settled in
theorem run_unary (op : UnaryOp) {call : Calling} {t : Script Value} {env : Env} {a b : Trail}
    {r : Value} (run : runOn ((t.unary op).run w call env) a = (.ok r, b)) :
    ∃ u a', runOn (t.run w call env) a = (.ok u, a') ∧ ∀ v mark, u = .proxy v mark →
      runOn (Value.own (Value.recordUnary (w.after a') op v)) a' = (.ok r, b) := by
  cases op with
  | _ =>
    obtain ⟨u, a', first, run⟩ := bind_eq_ok run
    refine ⟨u, a', first, ?_⟩
    rintro v mark rfl
    exact run

omit settled in
theorem meaning_unary (op : UnaryOp) (apply : Applying) (t : Script Value) (means : Meanings) :
    (t.unary op).meaning w apply means
      = (t.meaning w apply means >>= Meaning.settle >>= fun v => do
          Value.own (op.apply (← Making.now w) v)) >>= fun v => pure (.value v) := by
  simp only [bind_assoc]
  cases op <;> exact Script.meaning.eq_def ..

theorem faithful_unary (op : UnaryOp) {t : Script Value} (ih : Faithful w base d n m t) :
    Faithful w base d n m (t.unary op) := by
  intro top kinds k env a r b since low shape kind run
  rw [kind_unary] at kind
  split at kind
  case h_2 => cases kind
  case h_1 reads target =>
    cases kind
    obtain ⟨u, a₁, first, run⟩ := run_unary op run
    obtain ⟨since₁, captured⟩ := ih top kinds _ env a u a₁ since low shape target first
    cases captured with
    | recorded proxied _ yields =>
      obtain ⟨pos, mark, rfl, late⟩ := proxied
      replace run := run _ _ rfl
      rw [recordUnary_written settled (since.trans since₁) ⟨pos, rfl, .inr late⟩] at run
      obtain ⟨since₂, made⟩ := proxied_of_own (since.trans since₁) run
      refine ⟨since₁.trans since₂, .recorded made rfl ?_⟩
      rintro s x ⟨means, stand, rfl⟩
      rw [meaning_unary]
      exact yields_value (follows_bind (yields s _ ⟨means, stand, rfl⟩).settled
        fun v => follows_refl _)

omit settled in
theorem eval_binary (h : Host) (op : BinaryOp) (l r : Expr Value) (s : Scope Value) :
    (Expr.binary op l r).eval h s
      = l.eval h s >>= fun v => combine h.world op v (r.eval h s) := by
  cases op <;> exact Expr.eval.eq_def ..

omit settled in
/-- A comparison computes its right side first. -/
theorem combine_of_exchanged {op other : ScriptOp} (exchanged : op.exchanged? = some other)
    (v : Value) (right : Making Value) :
    combine w op.recorded v right
      = right >>= fun u => (do Value.own (op.recorded.apply (← Making.now w) v u)) := by
  cases op <;> cases exchanged <;> rfl

omit settled in
theorem exchanged_exchanged {op other : ScriptOp} (exchanged : op.exchanged? = some other) :
    other.exchanged? = some op := by
  cases op <;> cases exchanged <;> rfl

omit settled in
/-- A comparison of a constant follows from the other side. -/
theorem follows_exchanged {op other : ScriptOp} (exchanged : op.exchanged? = some other)
    {v : Value} (data : v.isData = true) {x y : Making Value} (h : Follows x y) :
    Follows (combine w op.recorded v x)
      (y >>= fun u => combine w other.recorded u (pure v)) := by
  rw [combine_of_exchanged exchanged]
  refine follows_bind h fun u => ?_
  rw [combine_of_exchanged (exchanged_exchanged exchanged)]
  intro c r d run
  obtain ⟨now, _, here, run⟩ := bind_eq_ok run
  cases here
  obtain ⟨r', computed⟩ := own_ok run
  show runOn (Value.own (other.recorded.apply (w.after c) u v)) c = _
  rw [BinaryOp.apply_exchanged _ exchanged data computed]
  rw [computed] at run
  exact run

omit settled in
theorem answersFirst_of_records {op : ScriptOp} {v : Value} (plain : v.isConstant = true)
    (records : op.records v = true) (now : World) (u : Value) :
    Value.answersFirst now op v u = none := by
  unfold Value.answersFirst
  split
  · cases records
  · cases records
  · cases plain
  · cases plain
  · rfl

omit settled in
theorem isData_of_records {op other : ScriptOp} (exchanged : op.exchanged? = some other)
    {v : Value} (records : op.records v = true) : v.isData = true := by
  cases op <;> cases exchanged <;> exact records

section

variable {top : Nat} {kinds : Kinds} {env : Env} {l t : Script Value} {a b : Trail} {u v r : Value}
  {reads : Bool}

/-- An operator is recorded if its left side is a proxy. -/
theorem captured_bin (op : ScriptOp) {k : Kind} (since : base.Since a)
    (left : Captures w base.supply top (.recorded reads) u (l.Meant w base.supply m top kinds env))
    (right : Captures w base.supply top k v (t.Meant w base.supply m top kinds env))
    (operand : k.isOperand = true)
    (run : runOn (Value.own (Value.operate (w.after a) op u v)) a = (.ok r, b)) :
    a.Since b ∧ Captures w base.supply top (.recorded false) r
      ((bin op l t).Meant w base.supply m top kinds env) := by
  obtain ⟨f, second, yields'⟩ := right.operand operand
  cases left with
  | @recorded _ _ _ e proxied _ yields =>
    obtain ⟨pos, mark, rfl, late⟩ := proxied
    have operated : Value.operate (w.after a) op (.proxy (.expr e pos) mark) v
        = .ok (.ofRecorded (.binary op.recorded e f)) :=
      recordBinary_written settled since ⟨pos, rfl, .inr late⟩ second op.recorded
    rw [operated] at run
    refine captured_own since run fun s means stand => ?_
    rw [meaning_bin, eval_binary]
    refine yields_value (follows_bind (yields s _ ⟨means, stand, rfl⟩).settled fun v => ?_)
    exact follows_combine w op.recorded v (yields' s _ ⟨means, stand, rfl⟩).settled

/-- An operator is recorded if its right side is a proxy and its left side a constant. A comparison
is recorded from the side of the proxy. -/
theorem captured_bin_constant (op : ScriptOp) {c : Value} (since : base.Since a)
    (left : Captures w base.supply top (.constant c) u (l.Meant w base.supply m top kinds env))
    (right : Captures w base.supply top (.recorded reads) v
      (t.Meant w base.supply m top kinds env))
    (records : op.records c = true)
    (run : runOn (Value.own (Value.operate (w.after a) op u v)) a = (.ok r, b)) :
    a.Since b ∧ Captures w base.supply top (.recorded false) r
      ((bin op l t).Meant w base.supply m top kinds env) := by
  cases left with
  | constant plain yields =>
    cases right with
    | @recorded _ _ _ f proxied _ yields' =>
      obtain ⟨pos, mark, rfl, late⟩ := proxied
      have written : Written base.supply (.expr f pos) f := ⟨pos, rfl, .inr late⟩
      rw [Value.operate_proxy (w.after a) (ne_proxy_of_isConstant plain)
        (answersFirst_of_records plain records _ _)] at run
      cases exchanged : op.exchanged? with
      | none =>
        simp only [exchanged] at run
        rw [recordBinary_written settled since (written_recorded _ plain) written] at run
        refine captured_own since run fun s means stand => ?_
        rw [meaning_bin, eval_binary]
        refine yields_value (follows_bind (yields s _ ⟨means, stand, rfl⟩).settled fun v => ?_)
        exact follows_combine w op.recorded v (yields' s _ ⟨means, stand, rfl⟩).settled
      | some other =>
        have data := isData_of_records exchanged records
        simp only [exchanged] at run
        rw [recordBinary_written settled since written (written_recorded _ plain)] at run
        refine captured_own since run fun s means stand => ?_
        rw [meaning_bin, eval_binary]
        refine yields_value (follows_trans (follows_bind
          (yields s _ ⟨means, stand, rfl⟩).settled fun v => follows_refl _) ?_)
        rw [pure_bind]
        exact follows_exchanged exchanged data (yields' s _ ⟨means, stand, rfl⟩).settled

end

theorem faithful_bin (op : ScriptOp) {l t : Script Value} (ih : Faithful w base d n m l)
    (ih' : Faithful w base d n m t) : Faithful w base d n m (.bin op l t) := by
  intro top kinds k env a r b since low shape kind run
  obtain ⟨u, a₁, v, a₂, first, next, run⟩ := run_bin run
  rw [Script.kind] at kind
  split at kind
  case h_3 => cases kind
  case h_1 reads k' left right =>
    split at kind
    case isFalse => cases kind
    case isTrue operand =>
      cases kind
      obtain ⟨since', captured, captured'⟩ := ih.both ih' since low shape left right first next
      obtain ⟨since₃, made⟩ :=
        captured_bin settled op (since.trans since') captured captured' operand run
      exact ⟨since'.trans since₃, made⟩
  case h_2 c reads left right =>
    split at kind
    case isFalse => cases kind
    case isTrue records =>
      cases kind
      obtain ⟨since', captured, captured'⟩ := ih.both ih' since low shape left right first next
      obtain ⟨since₃, made⟩ :=
        captured_bin_constant settled op (since.trans since') captured captured' records run
      exact ⟨since'.trans since₃, made⟩

end Script

end EntityGraph
