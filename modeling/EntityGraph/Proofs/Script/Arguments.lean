import EntityGraph.Proofs.Script.Captured

/-!
# Captured arguments

The arguments of a captured call are operands of what is recorded, or functions of one element that
are captured in turn, each with a new parameter. This module follows them from what they are captured
as to their values.
-/

namespace EntityGraph

/-- Whether the values of a computation are the meanings that another one comes to. -/
def YieldsAll (x : Making (List Meaning)) (y : Making (List Value)) : Prop :=
  ∀ c ms d, runOn x c = (.ok ms, d) → ∃ vs : List Value, ms = vs.map .value ∧ runOn y c = (.ok vs, d)

/-- Whether what was captured of several scripts belongs to what they mean, one after the other. -/
inductive CapturesAll (w : World) (made top : Nat) :
    List Kind → List Value → (Scope Value → Making (List Meaning) → Prop) → Prop
  | nil {X : Scope Value → Making (List Meaning) → Prop} (empty : ∀ s x, X s x → x = pure []) :
      CapturesAll w made top [] [] X
  | cons {k : Kind} {r : Value} {X : Scope Value → Making Meaning → Prop} {ks : List Kind}
      {rs : List Value} {Y Z : Scope Value → Making (List Meaning) → Prop}
      (first : Captures w made top k r X) (rest : CapturesAll w made top ks rs Y)
      (both : ∀ s z, Z s z → ∃ x y, X s x ∧ Y s y ∧ z = do return (← x) :: (← y)) :
      CapturesAll w made top (k :: ks) (r :: rs) Z

section

variable {w : World} {made top : Nat}

theorem CapturesAll.operands {ks : List Kind} {rs : List Value}
    {X : Scope Value → Making (List Meaning) → Prop} (h : CapturesAll w made top ks rs X)
    (operands : ks.all Kind.isOperand = true) :
    ∃ es, List.Forall₂ (Written made) (rs.map Value.recorded) es
      ∧ ∀ s x, X s x → YieldsAll x (Expr.evalList w.host es s) := by
  induction h with
  | nil empty =>
    refine ⟨[], .nil, fun s x h c ms d run => ?_⟩
    rw [empty s x h] at run
    cases run
    exact ⟨[], rfl, rfl⟩
  | cons first _ both ih =>
    rw [List.all_cons, Bool.and_eq_true] at operands
    obtain ⟨e, written, yields⟩ := first.operand operands.1
    obtain ⟨es, writtens, yieldsAll⟩ := ih operands.2
    refine ⟨e :: es, .cons written writtens, fun s z h c ms d run => ?_⟩
    obtain ⟨x, y, hx, hy, rfl⟩ := both s z h
    obtain ⟨m, a, one, run⟩ := bind_eq_ok run
    obtain ⟨ms', b, next, run⟩ := bind_eq_ok run
    cases run
    obtain ⟨v, rfl, evaluated⟩ := yields s x hx c m a one
    obtain ⟨vs, rfl, evaluatedAll⟩ := yieldsAll s y hy a ms' d next
    refine ⟨v :: vs, rfl, ?_⟩
    rw [Expr.evalList, runOn_bind_ok evaluated, runOn_bind_ok evaluatedAll]
    rfl

/-- Constants and nested functions are the same each time, and nothing happens. -/
theorem CapturesAll.stand {ks : List Kind} {rs : List Value}
    {X : Scope Value → Making (List Meaning) → Prop} (h : CapturesAll w made top ks rs X)
    (fixed : ∀ k ∈ ks, ∀ reads, k ≠ .recorded reads) :
    (∃ ms, StandEach made (Below top) ks rs ms) ∧
      ∀ s x, X s x → ∀ c ms d, runOn x c = (.ok ms, d) →
        d = c ∧ StandEach made (Binds s top) ks rs ms := by
  induction h with
  | nil empty =>
    refine ⟨⟨[], .nil⟩, fun s x h c ms d run => ?_⟩
    rw [empty s x h] at run
    cases run
    exact ⟨rfl, .nil⟩
  | @cons k r X ks rs Y Z first _ both ih =>
    obtain ⟨⟨ms, known⟩, stands⟩ := ih fun k among => fixed k (List.mem_cons_of_mem _ among)
    have here : (∃ m, StandsFor made (Below top) k r m) ∧ ∀ s x, X s x → ∀ c m d,
        runOn x c = (.ok m, d) → d = c ∧ StandsFor made (Binds s top) k r m := by
      cases first with
      | recorded => exact absurd rfl (fixed _ (List.mem_cons_self ..) _)
      | constant plain yields =>
        refine ⟨⟨_, .constant plain⟩, fun s x h c m d run => ?_⟩
        obtain ⟨v, rfl, evaluated⟩ := yields s x h c m d run
        cases evaluated
        exact ⟨rfl, .constant plain⟩
      | function known stands => exact ⟨known, stands⟩
    obtain ⟨⟨m, found⟩, stands'⟩ := here
    refine ⟨⟨m :: ms, .cons found known⟩, fun s z h c ms' d run => ?_⟩
    obtain ⟨x, y, hx, hy, rfl⟩ := both s z h
    obtain ⟨m', a, first, run⟩ := bind_eq_ok run
    obtain ⟨ms'', b, next, run⟩ := bind_eq_ok run
    cases run
    obtain ⟨rfl, one⟩ := stands' s x hx c m' a first
    obtain ⟨rfl, others⟩ := stands s y hy _ ms'' d next
    exact ⟨rfl, .cons one others⟩

end

namespace Script

variable {w : World} {base : Trail} {d n m : Nat}

theorem captured_list {as : List (Script Value)} (each : ∀ t ∈ as, Faithful w base d n m t)
    {top : Nat} {kinds : Kinds} {ks : List Kind} {env : Env} {a b : Trail} {rs : List Value}
    (since : base.Since a) (low : top ≤ a.supply)
    (shape : ∃ means, StandAll base.supply (Below top) kinds env means)
    (kind : kindList (Kind.applyWithin n) as kinds = some ks)
    (run : runOn (runList w (Value.callWithin w d) as env) a = (.ok rs, b)) :
    a.Since b ∧ CapturesAll w base.supply top ks rs fun s x =>
      ∃ means, StandAll base.supply (Binds s top) kinds env means
        ∧ x = meaningList w (Meaning.applyWithin w m) as means := by
  induction as generalizing ks a b rs with
  | nil =>
    cases kind
    cases run
    refine ⟨Trail.since_refl _, .nil ?_⟩
    rintro s x ⟨means, _, rfl⟩
    rfl
  | cons t as ih =>
    obtain ⟨k, ks, rfl, first, rest⟩ := kindList_cons kind
    obtain ⟨r, a₁, here, run⟩ := bind_eq_ok run
    obtain ⟨rs, a₂, next, run⟩ := bind_eq_ok run
    cases run
    obtain ⟨since₁, captured⟩ :=
      each t (List.mem_cons_self ..) top kinds k env a r a₁ since low shape first here
    obtain ⟨since₂, captures⟩ := ih (fun t among => each t (List.mem_cons_of_mem _ among))
      (since.trans since₁) (Nat.le_trans low since₁.later) rest next
    refine ⟨since₁.trans since₂, .cons captured captures ?_⟩
    rintro s z ⟨means, stand, rfl⟩
    exact ⟨_, _, ⟨means, stand, rfl⟩, ⟨means, stand, rfl⟩, rfl⟩

/-- Names stand for their meanings, as the variables do. -/
theorem stands_names {call : Calling} {shown : Kind → List Kind → Option Kind} (apply : Applying)
    {as : List (Script Value)} (names : as.all isName = true) {kinds : Kinds} {ks : List Kind}
    {env : Env} {a b : Trail} {rs : List Value} (since : base.Since a)
    (kind : kindList shown as kinds = some ks)
    (run : runOn (runList w call as env) a = (.ok rs, b)) :
    a.Since b ∧ ∀ R means, StandAll base.supply R kinds env means →
      ∃ ms, meaningList w apply as means = pure ms ∧ StandEach base.supply R ks rs ms := by
  induction as generalizing ks a b rs with
  | nil =>
    cases kind
    cases run
    exact ⟨Trail.since_refl _, fun R means stand => ⟨[], rfl, .nil⟩⟩
  | cons t as ih =>
    rw [List.all_cons, Bool.and_eq_true] at names
    obtain ⟨k, ks, rfl, first, rest⟩ := kindList_cons kind
    obtain ⟨r, a₁, here, run⟩ := bind_eq_ok run
    obtain ⟨rs, a₂, next, run⟩ := bind_eq_ok run
    cases run
    obtain ⟨since₁, one⟩ := stands_name apply names.1 since first here
    obtain ⟨since₂, others⟩ := ih names.2 (since.trans since₁) rest next
    refine ⟨since₁.trans since₂, fun R means stand => ?_⟩
    obtain ⟨u, meant, stands⟩ := one R means stand
    obtain ⟨us, meants, standsAll⟩ := others R means stand
    refine ⟨u :: us, ?_, .cons stands standsAll⟩
    rw [meaningList, meant, meants]
    rfl

end Script

end EntityGraph

/-!
## Nested functions of captured scripts

A nested function that is called while a script is captured is gone through with what was captured of
its arguments; one that is given to an operation on a sequence becomes a lambda with a new parameter.
Both belong to what calling the function means, as long as its body does with fewer calls left.
-/

namespace EntityGraph

/-- Whether what a nested function captures when it is called belongs to what calling it means, with
these bounds on calls, on kinds and on meanings. -/
def CallsFaithful (w : World) (base : Trail) (d n m : Nat) : Prop :=
  ∀ top k ks k' r rs r' a b, base.Since a → top ≤ a.supply →
    (∃ u, StandsFor base.supply (Below top) k r u) →
    (∃ us, StandEach base.supply (Below top) ks rs us) →
    Kind.applyWithin n k ks = some k' →
    runOn (Value.callWithin w d r rs) a = (.ok r', b) →
    a.Since b ∧ Captures w base.supply top k' r' fun s x =>
      ∃ u us, StandsFor base.supply (Binds s top) k r u ∧ StandEach base.supply (Binds s top) ks rs us
        ∧ x = Meaning.applyWithin w m u us

theorem callsFaithful_zero (w : World) (base : Trail) (n m : Nat) : CallsFaithful w base 0 n m := by
  intro top k ks k' r rs r' a b _ _ _ _ _ run
  cases run

/-- Only nested functions have a kind when they are called, with as many arguments as parameters. -/
theorem applyWithin_function {n : Nat} {k : Kind} {ks : List Kind} {k' : Kind}
    (h : Kind.applyWithin n k ks = some k') :
    ∃ n' ps star body kinds, n = n' + 1 ∧ k = .function ps star body kinds ∧ ks.length = ps.length
      ∧ body.kind (Kind.applyWithin n') (Kind.argumentKinds ps star ks kinds) = some k' := by
  cases n with
  | zero => cases h
  | succ n' =>
    cases k with
    | function ps star body kinds =>
      rw [Kind.applyWithin] at h
      split at h
      · next full => exact ⟨n', ps, star, body, kinds, rfl, rfl, by simpa using full, h⟩
      · cases h
    | _ => cases h

section

variable {w : World} {base : Trail} {d n m : Nat}

/-- Calling a nested function goes through its body. -/
theorem callsFaithful_succ (bodies : ∀ n m t, Script.Faithful w base d n m t) (n m : Nat) :
    CallsFaithful w base (d + 1) n m := by
  intro top k ks k' r rs r' a b since low known args kind run
  obtain ⟨n, ps, star, body, kinds, rfl, rfl, full, kind⟩ := applyWithin_function kind
  obtain ⟨_, known⟩ := known
  obtain ⟨_, args⟩ := args
  cases known with
  | @function id _ _ _ _ env means around =>
    obtain ⟨env', means', entered, _, inside⟩ := args.enter around full
    obtain ⟨now, _, here, run⟩ := bind_eq_ok run
    cases here
    obtain ⟨env'', _, opened, run⟩ := bind_eq_ok run
    rw [entered] at opened
    cases opened
    cases m with
    | zero =>
      -- without a bound on meanings nothing is called, so there is nothing to follow
      obtain ⟨since', captured⟩ := bodies n 0 body top _ k' env' a r' b since low ⟨_, inside⟩ kind run
      refine ⟨since', captured.mono ?_⟩
      rintro s x c v d ⟨_, us, stands, _, rfl⟩ run
      cases stands
      cases run
    | succ m =>
      obtain ⟨since', captured⟩ := bodies n m body top _ k' env' a r' b since low ⟨_, inside⟩ kind run
      refine ⟨since', captured.mono ?_⟩
      rintro s x c v d ⟨_, us, stands, args, rfl⟩ run
      cases stands with
      | function around =>
        obtain ⟨_, means, opened, given, inside⟩ := args.enter around full
        rw [entered] at opened
        cases opened
        refine ⟨_, ⟨means, inside, rfl⟩, ?_⟩
        rw [Meaning.applyWithin, given, pure_bind] at run
        exact run

/-! ## Lambdas -/

/-- The parameters of a lambda are bound to proxies, each of its own. -/
theorem proxied_params {made : Nat} (ps : List Param) {a b : Trail} {rs : List Value}
    (late : made ≤ a.supply)
    (run : runOn ((ps.map (Value.ofTree ∘ Expr.param)).mapM Value.makeProxy) a = (.ok rs, b)) :
    a.Since b ∧ ∀ (R : Param → Value → Prop) (vs : List Value), List.Forall₂ R ps vs →
      StandEach made R (ps.map fun _ => .recorded false) rs (vs.map .value) := by
  induction ps generalizing a rs with
  | nil =>
    cases run
    refine ⟨Trail.since_refl _, ?_⟩
    rintro R _ ⟨⟩
    exact .nil
  | cons p ps ih =>
    rw [List.map_cons, List.mapM_cons] at run
    obtain ⟨r, a₁, here, run⟩ := bind_eq_ok run
    obtain ⟨rs, a₂, next, run⟩ := bind_eq_ok run
    cases run
    rw [Function.comp, runOn_makeProxy] at here
    cases here
    obtain ⟨since, others⟩ := ih (Nat.le_succ_of_le late) next
    refine ⟨(Trail.since_next a).trans since, ?_⟩
    rintro R _ (_ | ⟨first, rest⟩)
    exact .cons (.param first (Nat.lt_succ_of_le late)) (others R _ rest)

/-- A nested function that is captured over parameters is a lambda over them, and its body gives what
calling the function means. -/
theorem captured_lambda (settled : base.IsSettled) (calls : CallsFaithful w base d n m) {top : Nat}
    {k : Kind} {r : Value} {ps : List Param} {a b : Trail} {f : Expr Value} (since : base.Since a)
    (low : top ≤ a.supply) (given : ∀ p ∈ ps, p.id ≤ top)
    (known : ∃ u, StandsFor base.supply (Below top) k r u)
    (kind : (Kind.applyWithin n k (ps.map fun _ => .recorded false)).any Kind.isOperand = true)
    (run : runOn (captureLambda w (Value.callWithin w d) r ps) a = (.ok f, b)) :
    a.Since b ∧ ∃ e, f = .lambda ps e ∧ Expr.areDistinct ps = true ∧
      ∀ s u (vs : List Value), StandsFor base.supply (Binds s top) k r u →
        List.Forall₂ (Binds s top) ps vs →
        Yields (Meaning.applyWithin w m u (vs.map .value)) (e.eval w.host s) := by
  obtain ⟨_, distinct, proxies, a₂, body, e, proxied, called, written, rfl⟩ :=
    captureLambda_steps run
  obtain ⟨since₁, params⟩ := proxied_params ps since.later proxied
  obtain ⟨k', applied, operand⟩ := (Option.any_eq_true _ _).1 kind
  have below : List.Forall₂ (Below top) ps (ps.map fun _ => .none) := by
    rw [List.forall₂_map_right_iff, List.forall₂_same]
    exact given
  obtain ⟨since₂, captured⟩ := calls top k _ k' r proxies body a₂ b (since.trans since₁)
    (Nat.le_trans low since₁.later) known ⟨_, params (Below top) _ below⟩ applied called
  obtain ⟨e', recorded, yields⟩ := captured.operand operand
  rw [recorded.treeAt settled ((since.trans since₁).trans since₂)] at written
  cases written
  refine ⟨since₁.trans since₂, e, rfl, distinct, fun s u vs stands bound => ?_⟩
  exact yields s _ ⟨u, _, stands, params (Binds s top) vs bound, rfl⟩

/-! ## Functions of one element -/

/-- Whether calling a part of a script with one element gives what a lambda gives for it, in a
scope. -/
def IsElementOf (w : World) (m : Nat) (s : Scope Value) (u : Meaning) (f : Expr Value) : Prop :=
  ∃ p e, f = .lambda [p] e ∧ ∀ v, Follows (do (← Meaning.applyWithin w m u [.value v]).settle)
    (e.eval w.host (s.bind p v))

/-- What is bound in a scope is still bound when a newer parameter is. -/
theorem binds_bind {s : Scope Value} {top : Nat} {p : Param} (new : top < p.id) (v : Value)
    {q : Param} {u : Value} (h : Binds s top q u) : Binds (s.bind p v) p.id q u := by
  have other : (q == p) = false := by
    rw [beq_eq_false_iff_ne]
    rintro rfl
    exact absurd h.1 (Nat.not_le.2 new)
  refine ⟨Nat.le_trans h.1 (Nat.le_of_lt new), ?_⟩
  rw [Scope.lookup?, other]
  exact h.2

theorem binds_new (s : Scope Value) (p : Param) (v : Value) : Binds (s.bind p v) p.id p v := by
  refine ⟨Nat.le_refl _, ?_⟩
  rw [Scope.lookup?, beq_self_eq_true]
  rfl

theorem captured_element (settled : base.IsSettled) (calls : CallsFaithful w base d n m) {top : Nat}
    {k : Kind} {r : Value} {a b : Trail} {f : Expr Value} (since : base.Since a)
    (low : top ≤ a.supply) (known : ∃ u, StandsFor base.supply (Below top) k r u)
    (kind : (Kind.applyWithin n k [.recorded false]).any Kind.isOperand = true)
    (run : runOn (captureElement w (Value.callWithin w d) r) a = (.ok f, b)) :
    a.Since b ∧ ∀ s u, StandsFor base.supply (Binds s top) k r u → IsElementOf w m s u f := by
  obtain ⟨_, applied, _⟩ := (Option.any_eq_true _ _).1 kind
  obtain ⟨_, ps, star, body, kinds, _, rfl, _, _⟩ := applyWithin_function applied
  obtain ⟨u₀, known⟩ := known
  have function : ∃ id env, r = .function id ps star body env := by
    cases known
    exact ⟨_, _, rfl⟩
  obtain ⟨id, env, rfl⟩ := function
  obtain ⟨_, _, here, run⟩ := bind_eq_ok run
  cases here
  obtain ⟨p, a₁, numbered, run⟩ := bind_eq_ok run
  have new : p = ⟨a.supply + 1, elementName⟩ ∧ a₁ = a.next := by
    cases numbered
    exact ⟨rfl, rfl⟩
  obtain ⟨rfl, rfl⟩ := new
  have later := Trail.since_next a
  have given : ∀ q ∈ [Param.mk (a.supply + 1) elementName], q.id ≤ a.supply + 1 := by simp
  have known' : StandsFor base.supply (Below (a.supply + 1)) _ (.function id ps star body env) u₀ :=
    known.mono fun q v below => Nat.le_succ_of_le (Nat.le_trans below low)
  obtain ⟨since', e, rfl, _, yields⟩ := captured_lambda settled calls (since.trans later)
    (Nat.le_refl (a.supply + 1)) given ⟨u₀, known'⟩ kind run
  refine ⟨later.trans since', fun s u stands => ⟨_, e, rfl, fun v => ?_⟩⟩
  have inside : StandsFor base.supply (Binds (s.bind ⟨a.supply + 1, elementName⟩ v) (a.supply + 1)) _
      (.function id ps star body env) u :=
    stands.mono fun q v' bound => binds_bind (Nat.lt_succ_of_le low) v bound
  exact (yields _ u [v] inside (.cons (binds_new s _ v) .nil)).settled

/-- Whether something of a kind is an argument of an operation that takes a function of one element:
such a function, or the missing value. -/
def Kind.fitsElements (n : Nat) (k : Kind) : Bool :=
  k.isMissing || (applyWithin n k [.recorded false]).any isOperand

theorem ne_recorded_of_fits {k : Kind} (fits : k.fitsElements n = true) (reads : Bool) :
    k ≠ .recorded reads := by
  rintro rfl
  cases n <;> cases fits

/-- A function or a missing value is missing where what it stands for is. -/
theorem isMissing_of_stands {R : Param → Value → Prop} {k : Kind} {r : Value} {u : Meaning}
    (fits : k.fitsElements n = true) (stands : StandsFor base.supply R k r u) :
    u.isMissing = r.isNone := by
  cases stands with
  | param => exact absurd rfl (ne_recorded_of_fits fits _)
  | literal => exact absurd rfl (ne_recorded_of_fits fits _)
  | constant => rfl
  | function => rfl

theorem applied_of_fits {R : Param → Value → Prop} {k : Kind} {r : Value} {u : Meaning}
    (fits : k.fitsElements n = true) (stands : StandsFor base.supply R k r u)
    (present : r.isNone = false) :
    (Kind.applyWithin n k [.recorded false]).any Kind.isOperand = true := by
  unfold Kind.fitsElements at fits
  cases stands with
  | constant =>
    rw [Kind.isMissing, present] at fits
    exact fits
  | _ => exact fits

/-- The functions of one element among the arguments are captured one after the other; what is
missing is left out. -/
theorem captured_elements (settled : base.IsSettled) (calls : CallsFaithful w base d n m) {top : Nat}
    {ks : List Kind} {rs : List Value} {a b : Trail} {fs : List (Expr Value)} (since : base.Since a)
    (low : top ≤ a.supply) (known : ∃ us, StandEach base.supply (Below top) ks rs us)
    (fits : ks.all (Kind.fitsElements n) = true)
    (run : runOn ((rs.filter (!·.isNone)).mapM (captureElement w (Value.callWithin w d))) a
      = (.ok fs, b)) :
    a.Since b ∧ ∀ s us, StandEach base.supply (Binds s top) ks rs us →
      List.Forall₂ (IsElementOf w m s) (us.filter (!·.isMissing)) fs := by
  obtain ⟨us₀, known⟩ := known
  induction known generalizing a fs with
  | nil =>
    cases run
    refine ⟨Trail.since_refl _, fun s us stand => ?_⟩
    cases stand
    exact .nil
  | @cons k r u₀ ks rs us₀ first rest ih =>
    rw [List.all_cons, Bool.and_eq_true] at fits
    cases missing : r.isNone with
    | true =>
      rw [List.filter_cons_of_neg (by simp [missing])] at run
      obtain ⟨since', others⟩ := ih since low fits.2 run
      refine ⟨since', fun s us stand => ?_⟩
      cases stand with
      | @cons _ _ u _ _ us first rest =>
        have left : u.isMissing = true := (isMissing_of_stands fits.1 first).trans missing
        rw [List.filter_cons_of_neg (by simp [left])]
        exact others s us rest
    | false =>
      rw [List.filter_cons_of_pos (by simp [missing]), List.mapM_cons] at run
      obtain ⟨f, a₁, one, run⟩ := bind_eq_ok run
      obtain ⟨fs', a₂, more, run⟩ := bind_eq_ok run
      cases run
      have applied := applied_of_fits fits.1 first missing
      obtain ⟨since₁, element⟩ := captured_element settled calls since low ⟨u₀, first⟩ applied one
      obtain ⟨since₂, others⟩ := ih (since.trans since₁) (Nat.le_trans low since₁.later) fits.2 more
      refine ⟨since₁.trans since₂, fun s us stand => ?_⟩
      cases stand with
      | @cons _ _ u _ _ us first rest =>
        have kept : u.isMissing = false := (isMissing_of_stands fits.1 first).trans missing
        rw [List.filter_cons_of_pos (by simp [kept])]
        exact .cons (element s u first) (others s us rest)

end

end EntityGraph
