import EntityGraph.Proofs.Script.Arguments

/-!
# Recorded calls

A call of what was captured is recorded: the call of a member as an operation on a sequence, as a
membership test or as a method call, depending on its name, and every other call as one of a function.
The evaluation of each follows what the call means.
-/

namespace EntityGraph

open Script

section

variable {w : World} {base : Trail} {s : Scope Value} {x : Making Value} {e : Expr Value}
  {args : Making (List Meaning)} {es : List (Expr Value)}

/-! ## How recorded calls are evaluated -/

theorem settle_values (vs : List Value) : (vs.map Meaning.value).mapM Meaning.settle = pure vs := by
  induction vs with
  | nil => rfl
  | cons v vs ih =>
    rw [List.map_cons, List.mapM_cons, ih]
    rfl

/-- What is done with the values of arguments follows what is done with their meanings. -/
theorem YieldsAll.follows {α : Type} {y : Making (List Value)} (h : YieldsAll args y)
    {f : List Meaning → Making α} {g : List Value → Making α}
    (rest : ∀ vs, Follows (f (vs.map .value)) (g vs)) : Follows (args >>= f) (y >>= g) := by
  intro c b d run
  obtain ⟨ms, a, given, run⟩ := bind_eq_ok run
  obtain ⟨vs, rfl, evaluated⟩ := h c ms a given
  rw [runOn_bind_ok evaluated]
  exact rest vs a b d run

theorem YieldsAll.single {f : Expr Value} (h : YieldsAll args (Expr.evalList w.host [f] s))
    {c d : Trail} {ms : List Meaning} (run : runOn args c = (.ok ms, d)) :
    ∃ v, ms = [.value v] ∧ runOn (f.eval w.host s) c = (.ok v, d) := by
  obtain ⟨vs, rfl, evaluated⟩ := h c ms d run
  obtain ⟨v, a, one, evaluated⟩ := bind_eq_ok evaluated
  cases evaluated
  exact ⟨v, rfl, one⟩

theorem yields_func {m : Nat} {y : Making Meaning} (callee : Yields y (e.eval w.host s))
    (given : YieldsAll args (Expr.evalList w.host es s)) :
    Yields (do let f ← y; Meaning.applyWithin w m f (← args)) ((Expr.func e es).eval w.host s) := by
  intro c u d run
  obtain ⟨f, a, first, run⟩ := bind_eq_ok run
  obtain ⟨ms, b, next, run⟩ := bind_eq_ok run
  obtain ⟨g, rfl, evaluated⟩ := callee c f a first
  obtain ⟨vs, rfl, evaluatedAll⟩ := given a ms b next
  rw [Meaning.applyWithin, settle_values, pure_bind] at run
  obtain ⟨v, _, called, run⟩ := bind_eq_ok run
  cases run
  refine ⟨v, rfl, ?_⟩
  rw [Expr.eval, runOn_bind_ok evaluated, runOn_bind_ok evaluatedAll]
  exact called

theorem follows_method (callee : Follows x (e.eval w.host s))
    (given : YieldsAll args (Expr.evalList w.host es s)) (name : String) :
    Follows (x >>= fun v =>
      if v.isNone then pure .none
      else do
        let vs ← (← args).mapM Meaning.settle
        Value.call w (← Value.own (Value.getAttr (← Making.now w) v name)) vs)
      ((Expr.method e name es).eval w.host s) := by
  rw [Expr.eval]
  refine follows_bind callee fun v => follows_ite (fun _ => follows_refl _) fun _ => ?_
  refine given.follows fun vs => ?_
  rw [settle_values, pure_bind]
  exact follows_refl _

theorem follows_membership {f : Expr Value} (callee : Follows x (e.eval w.host s))
    (given : YieldsAll args (Expr.evalList w.host [f] s)) (op : BinaryOp) (other : Fault) :
    Follows (x >>= fun v => combine w op v do
        match ← args with
        | [m] => m.settle
        | _ => throw other)
      ((Expr.binary op e f).eval w.host s) := by
  rw [eval_binary]
  refine follows_bind callee fun v => follows_combine w op v ?_
  intro c u d run
  obtain ⟨ms, a, first, run⟩ := bind_eq_ok run
  obtain ⟨v, rfl, evaluated⟩ := given.single first
  cases run
  exact evaluated

/-- Taking and skipping elements follows from the value of the count. -/
theorem follows_counted {f : Expr Value} {apply : Applying} {op : SeqOp}
    (callee : Follows x (e.eval w.host s)) (given : YieldsAll args (Expr.evalList w.host [f] s))
    (counts : op.takesFunction = false) :
    Follows (x >>= fun v => overSequence w apply op v args) ((Expr.seq op e [f]).eval w.host s) := by
  rw [Expr.eval]
  refine follows_bind callee fun v => ?_
  unfold overSequence
  refine follows_ite (fun _ => follows_ite (fun _ => follows_refl _) fun _ => follows_of_throw _)
    fun _ => ?_
  refine follows_bind (follows_refl _) fun now => follows_bind (follows_refl _) fun vs => ?_
  simp only [counts, Bool.false_eq_true, if_false]
  intro c u d run
  obtain ⟨ms, a, first, run⟩ := bind_eq_ok run
  obtain ⟨v, rfl, evaluated⟩ := given.single first
  rw [Expr.evalFirst, runOn_bind_ok evaluated]
  exact run

/-- An operation with functions of one element follows from what they give for each. -/
theorem follows_elements {m : Nat} {op : SeqOp} {fs : List (Expr Value)}
    (callee : Follows x (e.eval w.host s))
    (given : ∀ c ms d, runOn args c = (.ok ms, d) →
      d = c ∧ List.Forall₂ (IsElementOf w m s) (ms.filter (!·.isMissing)) fs)
    (few : fs.length ≤ 1) (takes : op.takesFunction = true) :
    Follows (x >>= fun v => overSequence w (Meaning.applyWithin w m) op v args)
      ((Expr.seq op e fs).eval w.host s) := by
  rw [Expr.eval]
  refine follows_bind callee fun v => ?_
  unfold overSequence
  refine follows_ite (fun _ => follows_ite (fun _ => follows_refl _) fun _ => follows_of_throw _)
    fun _ => ?_
  refine follows_bind (follows_refl _) fun now => follows_bind (follows_refl _) fun vs => ?_
  simp only [takes, if_true]
  intro c v d run
  obtain ⟨ms, a, first, applied⟩ := bind_eq_ok run
  obtain ⟨rfl, functions⟩ := given c ms a first
  generalize ms.filter (!·.isMissing) = us at functions applied
  cases functions with
  | nil => exact Eval.follows_applyFunction op .null _ .none vs _ v d applied
  | cons function others =>
    cases others with
    | nil =>
      obtain ⟨p, e', rfl, same⟩ := function
      exact Eval.follows_applyFunction op .null _ (.some fun x => same x) vs _ v d applied
    | cons => exact absurd few (by simp)

end

/-! ## How calls are recorded -/

theorem makeSeq_ok {op : SeqOp} {e f : Expr Value} {es : List (Expr Value)}
    (h : Expr.makeSeq op e es = .ok f) : op.minArgs ≤ es.length ∧ es.length ≤ 1 ∧ f = .seq op e es := by
  unfold Expr.makeSeq at h
  split at h
  · cases h
  · next enough =>
    split at h
    · cases h
    · cases h
      rw [Bool.or_eq_true, decide_eq_true_eq, decide_eq_true_eq] at enough
      exact ⟨by omega, by omega, rfl⟩

section

variable {w : World} {base a b : Trail} (settled : base.IsSettled) (since : base.Since a)
  {call : Calling} {u : Value} {e f : Expr Value} {rs : List Value} {es : List (Expr Value)}

include settled since

theorem node_seqOf {op : SeqOp} {us : List Value} (args : List.Forall₂ (Written base.supply) us es)
    (h : Node.seqOf (w.after a) op (.ofTree e) (.tuple us) = .ok f) :
    op.minArgs ≤ es.length ∧ es.length ≤ 1 ∧ f = .seq op e es := by
  unfold Node.seqOf at h
  rw [(written_ofTree base.supply e).treeAt settled since] at h
  obtain ⟨_, same, h⟩ := outcome_bind_ok h
  cases same
  rw [written_trees settled since args] at h
  obtain ⟨_, same, h⟩ := outcome_bind_ok h
  cases same
  cases made : Expr.makeSeq op e es with
  | error fault =>
    rw [made] at h
    cases h
  | ok g =>
    rw [made] at h
    cases h
    exact makeSeq_ok made

theorem recordCall_func (written : Written base.supply u e) (plain : e.isMember = false)
    (args : List.Forall₂ (Written base.supply) (rs.map Value.recorded) es)
    (run : runOn (recordCall w call u rs) a = (.ok f, b)) : f = .func e es ∧ b = a := by
  obtain ⟨_, _, here, run⟩ := bind_eq_ok run
  cases here
  simp only [written.tree? settled since] at run
  cases e with
  | member => cases plain
  | _ =>
    obtain ⟨made, rfl⟩ := outcome_of_run run
    refine ⟨?_, rfl⟩
    unfold Node.func at made
    rw [written.treeAt settled since, written_trees settled since args] at made
    cases made
    rfl

variable {name : String} (written : Written base.supply u (.member e name))

include written

theorem recordCall_method (args : List.Forall₂ (Written base.supply) (rs.map Value.recorded) es)
    (noSequence : SeqOp.ofSymbol? name = none) (noMembership : membership? name = none)
    (run : runOn (recordCall w call u rs) a = (.ok f, b)) : f = .method e name es ∧ b = a := by
  obtain ⟨_, _, here, run⟩ := bind_eq_ok run
  cases here
  simp only [written.tree? settled since, noSequence, noMembership] at run
  obtain ⟨made, rfl⟩ := outcome_of_run run
  refine ⟨?_, rfl⟩
  unfold Node.method at made
  rw [(written_ofTree base.supply e).treeAt settled since, written_trees settled since args] at made
  obtain ⟨_, same, made⟩ := outcome_bind_ok made
  cases same
  simp only [] at made
  split at made
  · cases made
  · cases made
    rfl

theorem recordCall_membership {op : BinaryOp}
    (args : List.Forall₂ (Written base.supply) (rs.map Value.recorded) es)
    (noSequence : SeqOp.ofSymbol? name = none) (membership : membership? name = some op)
    (run : runOn (recordCall w call u rs) a = (.ok f, b)) :
    ∃ g, es = [g] ∧ f = .binary op e g ∧ b = a := by
  obtain ⟨_, _, here, recorded⟩ := bind_eq_ok run
  cases here
  simp only [written.tree? settled since, noSequence, membership] at recorded
  split at recorded
  · next _ given =>
    cases given
    cases args with
    | cons arg none =>
      cases none
      obtain ⟨made, rfl⟩ := outcome_of_run recorded
      rw [node_binaryOf settled since (written_ofTree base.supply e) arg] at made
      cases made
      exact ⟨_, rfl, rfl, rfl⟩
  · cases recorded
  · next absent => cases absent

theorem recordCall_counted {op : SeqOp}
    (args : List.Forall₂ (Written base.supply) (rs.map Value.recorded) es)
    (sequence : SeqOp.ofSymbol? name = some op) (counts : op.takesFunction = false)
    (run : runOn (recordCall w call u rs) a = (.ok f, b)) :
    ∃ g, es = [g] ∧ f = .seq op e [g] ∧ b = a := by
  obtain ⟨_, _, here, run⟩ := bind_eq_ok run
  cases here
  simp only [written.tree? settled since, sequence, counts] at run
  obtain ⟨made, rfl⟩ := outcome_of_run run
  obtain ⟨fewest, most, rfl⟩ := node_seqOf settled since args made
  have one : op.minArgs = 1 := by
    cases op <;> first | rfl | cases counts
  rw [one] at fewest
  obtain ⟨g, rfl⟩ := List.length_eq_one_iff.1 (Nat.le_antisymm most fewest)
  exact ⟨g, rfl, rfl, rfl⟩

theorem recordCall_elements {op : SeqOp} (sequence : SeqOp.ofSymbol? name = some op)
    (takes : op.takesFunction = true) (run : runOn (recordCall w call u rs) a = (.ok f, b)) :
    ∃ fs, runOn ((rs.filter (!·.isNone)).mapM (captureElement w call)) a = (.ok fs, b)
      ∧ fs.length ≤ 1 ∧ f = .seq op e fs := by
  obtain ⟨_, _, here, run⟩ := bind_eq_ok run
  cases here
  simp only [written.tree? settled since, sequence, takes] at run
  obtain ⟨fs, b', captured, run⟩ := bind_eq_ok run
  obtain ⟨made, rfl⟩ := outcome_of_run run
  have args : List.Forall₂ (Written base.supply) (fs.map Value.ofTree) fs := by
    rw [List.forall₂_map_left_iff, List.forall₂_same]
    exact fun f _ => written_ofTree base.supply f
  obtain ⟨_, few, rfl⟩ := node_seqOf settled since args made
  exact ⟨fs, captured, few, rfl⟩

end

/-! ## What calls capture -/

section

variable {w : World} {base : Trail} {d n m : Nat} (settled : base.IsSettled)

include settled

/-- The call of a member is recorded so that its evaluation follows what it means. -/
theorem captured_member_call (calls : CallsFaithful w base d n m) {top : Nat} {ks : List Kind}
    {rs : List Value} {Y : Scope Value → Making (List Meaning) → Prop} {name : String} {u : Value}
    {e f : Expr Value} {a b : Trail} (since : base.Since a) (low : top ≤ a.supply)
    (written : Written base.supply u (.member e name))
    (captures : CapturesAll w base.supply top ks rs Y)
    (fits : argumentsFit (Kind.applyWithin n) name ks = true)
    (run : runOn (recordCall w (Value.callWithin w d) u rs) a = (.ok f, b)) :
    a.Since b ∧ f.isMember = false ∧ ∀ s x args, Follows x (e.eval w.host s) → Y s args →
      Follows (x >>= fun v => callMember w (Meaning.applyWithin w m) v name args)
        (f.eval w.host s) := by
  unfold argumentsFit at fits
  unfold callMember
  cases sequence : SeqOp.ofSymbol? name with
  | some op =>
    simp only [sequence, Option.any_some] at fits ⊢
    cases takes : op.takesFunction with
    | true =>
      -- The functions are captured for a new element, so they have to stand for what they mean.
      rw [if_pos takes] at fits
      obtain ⟨known, stands⟩ := captures.stand fun k among reads =>
        ne_recorded_of_fits (List.all_eq_true.1 fits k among) reads
      obtain ⟨fs, captured, few, rfl⟩ :=
        recordCall_elements settled since written sequence takes run
      obtain ⟨since', elements⟩ := captured_elements settled calls since low known fits captured
      refine ⟨since', rfl, fun s x args callee given => follows_elements callee ?_ few takes⟩
      intro c ms d run
      obtain ⟨rfl, stand⟩ := stands s args given c ms d run
      exact ⟨rfl, elements s ms stand⟩
    | false =>
      rw [if_neg (by simp [takes])] at fits
      obtain ⟨es, args, yields⟩ := captures.operands fits
      obtain ⟨g, rfl, rfl, rfl⟩ := recordCall_counted settled since written args sequence takes run
      exact ⟨Trail.since_refl _, rfl, fun s x args callee given =>
        follows_counted callee (yields s args given) takes⟩
  | none =>
    simp only [sequence, Option.any_none, Bool.false_eq_true, if_false] at fits ⊢
    obtain ⟨es, args, yields⟩ := captures.operands fits
    cases membership : membership? name with
    | some op =>
      obtain ⟨g, rfl, rfl, rfl⟩ :=
        recordCall_membership settled since written args sequence membership run
      exact ⟨Trail.since_refl _, rfl, fun s x args callee given =>
        follows_membership callee (yields s args given) op _⟩
    | none =>
      obtain ⟨rfl, rfl⟩ := recordCall_method settled since written args sequence membership run
      exact ⟨Trail.since_refl _, rfl, fun s x args callee given =>
        follows_method callee (yields s args given) name⟩

omit settled in
/-- Calling a proxy records the call, with one call less left for what it captures. -/
theorem call_proxy {u : Value} {mark : Nat} {rs : List Value} {a b : Trail} {r : Value}
    (run : runOn (Value.callWithin w d (.proxy u mark) rs) a = (.ok r, b)) :
    ∃ d' f a', d = d' + 1 ∧ runOn (recordCall w (Value.callWithin w d') u rs) a = (.ok f, a')
      ∧ runOn (Value.makeProxy (.ofTree f)) a' = (.ok r, b) := by
  cases d with
  | zero => cases run
  | succ d' =>
    obtain ⟨_, _, here, run⟩ := bind_eq_ok run
    cases here
    obtain ⟨f, a', recorded, run⟩ := bind_eq_ok run
    exact ⟨d', f, a', rfl, recorded, run⟩

omit settled in
theorem proxied_of_makeProxy {f : Expr Value} {a b : Trail} {r : Value} (since : base.Since a)
    (run : runOn (Value.makeProxy (.ofTree f)) a = (.ok r, b)) :
    a.Since b ∧ Proxied base.supply r f :=
  proxied_of_own since run

namespace Script

omit settled in
theorem kind_call_member {apply : Kind → List Kind → Option Kind} {t : Script Value} {name : String}
    {as : List (Script Value)} {kinds : Kinds} {k : Kind}
    (h : (call (attr t name) as).kind apply kinds = some k) :
    ∃ reads ks, t.kind apply kinds = some (.recorded reads) ∧ isMemberName name = true
      ∧ kindList apply as kinds = some ks ∧ argumentsFit apply name ks = true
      ∧ k = .recorded false := by
  rw [Script.kind] at h
  split at h
  · next reads ks callee args =>
    rw [Script.kind] at callee
    split at callee
    · next target =>
      split at callee
      · next named =>
        simp only [readName?] at h
        split at h
        · next fits =>
          cases h
          exact ⟨_, ks, target, named, args, fits, rfl⟩
        · cases h
      · cases callee
    · cases callee
  · next callee args =>
    rw [Script.kind] at callee
    split at callee
    · split at callee <;> cases callee
    · cases callee
  · cases h

omit settled in
theorem meaning_call_member (apply : Applying) (means : Meanings) (t : Script Value) (name : String)
    (as : List (Script Value)) :
    (call (attr t name) as).meaning w apply means
      = (t.meaning w apply means >>= Meaning.settle >>= fun v =>
          callMember w apply v name (meaningList w apply as means))
        >>= fun v => pure (.value v) := by
  rw [Script.meaning]
  simp only [bind_assoc]

theorem faithful_call_member (calls : ∀ d' < d, CallsFaithful w base d' n m) {t : Script Value}
    {as : List (Script Value)} (ih : Faithful w base d n m t)
    (each : ∀ t ∈ as, Faithful w base d n m t) (name : String) :
    Faithful w base d n m (.call (.attr t name) as) := by
  intro top kinds k env a r b since low shape kind run
  obtain ⟨reads, ks, target, named, args, fits, rfl⟩ := kind_call_member kind
  rw [Script.run, Script.run] at run
  obtain ⟨v, a₂, read, run⟩ := bind_eq_ok run
  obtain ⟨u, a₁, first, read⟩ := bind_eq_ok read
  obtain ⟨since₁, captured⟩ := ih top kinds _ env a u a₁ since low shape target first
  obtain ⟨since₂, e, ⟨pos, mark, rfl, late⟩, yields⟩ :=
    captured_attr settled captured named (since.trans since₁) read
  have to₂ := since₁.trans since₂
  obtain ⟨rs, a₃, given, run⟩ := bind_eq_ok run
  obtain ⟨since₃, captures⟩ := captured_list each (since.trans to₂) (Nat.le_trans low to₂.later)
    shape args given
  have to₃ := to₂.trans since₃
  obtain ⟨d', f, a₄, rfl, recorded, run⟩ := call_proxy run
  obtain ⟨since₄, shape', follows⟩ := captured_member_call settled (calls d' (Nat.lt_succ_self d'))
    (since.trans to₃) (Nat.le_trans low to₃.later) ⟨pos, rfl, .inr late⟩ captures fits recorded
  have to₄ := to₃.trans since₄
  obtain ⟨since₅, made⟩ := proxied_of_makeProxy (since.trans to₄) run
  refine ⟨to₄.trans since₅, .recorded made shape' ?_⟩
  rintro s x ⟨means, stand, rfl⟩
  rw [meaning_call_member]
  exact yields_value (follows s _ _ (yields s _ ⟨means, stand, rfl⟩).settled ⟨means, stand, rfl⟩)

omit settled in
theorem meaning_call {f : Script Value} (plain : f.readName? = none) (apply : Applying)
    (means : Meanings) (as : List (Script Value)) :
    (call f as).meaning w apply means
      = f.meaning w apply means >>= fun u => meaningList w apply as means >>= apply u := by
  cases f with
  | attr => cases plain
  | _ => exact Script.meaning.eq_def ..

theorem faithful_call (calls : ∀ d' ≤ d, CallsFaithful w base d' n m) {f : Script Value}
    {as : List (Script Value)} (plain : f.readName? = none) (ih : Faithful w base d n m f)
    (each : ∀ t ∈ as, Faithful w base d n m t) : Faithful w base d n m (.call f as) := by
  intro top kinds k env a r b since low shape kind run
  obtain ⟨u, a₁, rs, a₂, first, given, run⟩ := run_call run
  rw [Script.kind] at kind
  split at kind
  case h_3 => cases kind
  case h_1 reads ks callee args =>
    -- A proxy is called, which records the call.
    simp only [plain] at kind
    split at kind
    case isFalse => cases kind
    case isTrue fits =>
      cases kind
      rw [Bool.and_eq_true, Bool.not_eq_true'] at fits
      obtain ⟨rfl, operands⟩ := fits
      obtain ⟨since₁, captured⟩ := ih top kinds _ env a u a₁ since low shape callee first
      obtain ⟨since₂, captures⟩ := captured_list each (since.trans since₁)
        (Nat.le_trans low since₁.later) shape args given
      have to₂ := since₁.trans since₂
      obtain ⟨es, writtens, yieldsAll⟩ := captures.operands operands
      cases captured with
      | @recorded _ _ _ e proxied shape' yields =>
        obtain ⟨pos, mark, rfl, late⟩ := proxied
        obtain ⟨d', f', a₃, rfl, recorded, last⟩ := call_proxy run
        obtain ⟨rfl, rfl⟩ := recordCall_func settled (since.trans to₂) ⟨pos, rfl, .inr late⟩ shape'
          writtens recorded
        obtain ⟨since₃, made⟩ := proxied_of_makeProxy (since.trans to₂) last
        refine ⟨to₂.trans since₃, .recorded made rfl ?_⟩
        rintro s x ⟨means, stand, rfl⟩
        rw [meaning_call plain]
        exact yields_func (yields s _ ⟨means, stand, rfl⟩) (yieldsAll s _ ⟨means, stand, rfl⟩)
  case h_2 ps star body around ks callee args =>
    -- A nested function is called, which goes through its body with one call less to spare.
    split at kind
    case isFalse => cases kind
    case isTrue names =>
      obtain ⟨since₁, captured⟩ := ih top kinds _ env a u a₁ since low shape callee first
      obtain ⟨since₂, standsAll⟩ := stands_names (Meaning.applyWithin w m) names
        (since.trans since₁) args given
      have to₂ := since₁.trans since₂
      cases captured with
      | function known stands =>
        obtain ⟨means, shape⟩ := shape
        obtain ⟨us, _, below⟩ := standsAll (Below top) means shape
        obtain ⟨since₃, captured⟩ := calls d (Nat.le_refl d) top _ ks k u rs r a₂ b
          (since.trans to₂) (Nat.le_trans low to₂.later) known ⟨us, below⟩ kind run
        refine ⟨to₂.trans since₃, captured.mono ?_⟩
        rintro s x c v d ⟨means, stand, rfl⟩ meant
        rw [meaning_call plain] at meant
        obtain ⟨us, all, arguments⟩ := standsAll (Binds s top) means stand
        obtain ⟨f', c', one, applied⟩ := bind_eq_ok meant
        obtain ⟨rfl, here⟩ := stands s _ ⟨means, stand, rfl⟩ c f' c' one
        rw [all, pure_bind] at applied
        exact ⟨_, ⟨f', us, here, arguments, rfl⟩, applied⟩

end Script

end

end EntityGraph
