import EntityGraph.Proofs.Eval.Clear
import EntityGraph.Proofs.Script.Called

/-!
# Scripts that keep proxies apart

What a proxy has recorded becomes part of an expression only if the proxy itself gets there. What
turns values into expressions looks at the outermost value and no further, so a proxy inside a list
ends up in a literal. This module tells from a script whether that can happen: each part of the script
is a proxy, or holds none, or is a nested function, and nothing but parts that hold none is put into
lists, into the further arguments of a function, or into a literal.

The judgement follows the structure of scripts, except where a nested function is called or captured:
there its body is judged with what stands for its parameters. So a derivation has one for each body
that is gone through, and whoever walks over it needs no bound on calls.
-/

namespace EntityGraph

/-- Whether the values that an expression holds are clear. -/
def Expr.IsClear (e : Expr Value) : Prop := ∀ v ∈ e.constants, v.Clear

namespace Expr

variable {e f : Expr Value} {es : List (Expr Value)}

@[simp] theorem isClear_param (p : Param) : (param p : Expr Value).IsClear := holdsOnly_param p

@[simp] theorem isClear_lit {v : Value} : (lit v).IsClear ↔ v.Clear := holdsOnly_lit

@[simp] theorem isClear_member {name : String} : (member e name).IsClear ↔ e.IsClear :=
  holdsOnly_member

@[simp] theorem isClear_item : (item e f).IsClear ↔ e.IsClear ∧ f.IsClear := holdsOnly_item

@[simp] theorem isClear_unary {op : UnaryOp} : (unary op e).IsClear ↔ e.IsClear := holdsOnly_unary

@[simp] theorem isClear_binary {op : BinaryOp} :
    (binary op e f).IsClear ↔ e.IsClear ∧ f.IsClear := holdsOnly_binary

@[simp] theorem isClear_lambda {ps : List Param} : (lambda ps e).IsClear ↔ e.IsClear :=
  holdsOnly_lambda

@[simp] theorem isClear_method {name : String} :
    (method e name es).IsClear ↔ e.IsClear ∧ ∀ a ∈ es, a.IsClear := holdsOnly_method

@[simp] theorem isClear_func : (func e es).IsClear ↔ e.IsClear ∧ ∀ a ∈ es, a.IsClear :=
  holdsOnly_func

@[simp] theorem isClear_seq {op : SeqOp} :
    (seq op e es).IsClear ↔ e.IsClear ∧ ∀ a ∈ es, a.IsClear := holdsOnly_seq

end Expr

/-! ## The judgement -/

/-- How far a part of a script is tainted by proxies. -/
inductive Taint where
  /-- It is clear. -/
  | clear
  /-- It is a proxy, possibly of the reading of a member. -/
  | proxy (reads : Bool)
  /-- It is a nested function, with what the variables around it are. -/
  | function (params : List String) (star : Option String) (body : Script Value)
      (env : List (String × Taint))

/-- What variables are. -/
abbrev Taints := List (String × Taint)

/-- Whether something is part of an expression when it is recorded. -/
def Taint.isOperand : Taint → Bool
  | clear | proxy _ => true
  | function .. => false

/-- What the variables inside a function are. -/
def Taints.entered (params : List String) (star : Option String) (args : List Taint) (Γ : Taints) :
    Taints :=
  star.toList.map (fun name => (name, .clear)) ++ (params.zip args).reverse ++ Γ

namespace Script

mutual

/-- Whether a part of a script keeps proxies apart, and is tainted so. -/
inductive Apart : Taints → Script Value → Taint → Prop
  | var {Γ : Taints} {name : String} {τ : Taint} (known : Γ.lookup name = some τ) :
      Apart Γ (.var name) τ
  | lit {Γ : Taints} {v : Value} (clear : v.Clear) : Apart Γ (.lit v) .clear
  | const {Γ : Taints} {v : Value} (clear : v.Clear) : Apart Γ (.const v) (.proxy false)
  | list {Γ : Taints} {es : List (Script Value)} {τs : List Taint} (elements : ApartAll Γ es τs)
      (clear : ∀ τ ∈ τs, τ = .clear) : Apart Γ (.list es) .clear
  | attr {Γ : Taints} {t : Script Value} {reads : Bool} (target : Apart Γ t (.proxy reads))
      {name : String} (named : isMemberName name = true) : Apart Γ (.attr t name) (.proxy true)
  | item {Γ : Taints} {t k : Script Value} {reads : Bool} {τ : Taint}
      (target : Apart Γ t (.proxy reads)) (key : Apart Γ k τ) (operand : τ.isOperand = true) :
      Apart Γ (.item t k) (.proxy false)
  | left {Γ : Taints} (op : ScriptOp) {l r : Script Value} {reads : Bool} {τ : Taint}
      (first : Apart Γ l (.proxy reads)) (second : Apart Γ r τ) (operand : τ.isOperand = true) :
      Apart Γ (.bin op l r) (.proxy false)
  /-- The remainder is left out: a text on the left would be filled in. -/
  | right {Γ : Taints} {op : ScriptOp} {l r : Script Value} {reads : Bool} (first : Apart Γ l .clear)
      (second : Apart Γ r (.proxy reads)) (other : op ≠ .mod) : Apart Γ (.bin op l r) (.proxy false)
  | inv {Γ : Taints} {e : Script Value} {reads : Bool} (inner : Apart Γ e (.proxy reads)) :
      Apart Γ (.inv e) (.proxy false)
  | neg {Γ : Taints} {e : Script Value} {reads : Bool} (inner : Apart Γ e (.proxy reads)) :
      Apart Γ (.neg e) (.proxy false)
  | fn {Γ : Taints} (params : List String) (star : Option String) (body : Script Value) :
      Apart Γ (.fn params star body) (.function params star body Γ)
  /-- A call of a member that takes operands. -/
  | member {Γ : Taints} {t : Script Value} {reads : Bool} {name : String}
      {as : List (Script Value)} {τs : List Taint} (target : Apart Γ t (.proxy reads))
      (named : isMemberName name = true)
      (values : (SeqOp.ofSymbol? name).any SeqOp.takesFunction = false) (args : ApartAll Γ as τs)
      (operands : ∀ τ ∈ τs, τ.isOperand = true) : Apart Γ (.call (.attr t name) as) (.proxy false)
  /-- An operation that takes a function of one element. -/
  | elements {Γ : Taints} {t : Script Value} {reads : Bool} {name : String}
      {as : List (Script Value)} (target : Apart Γ t (.proxy reads))
      (named : isMemberName name = true)
      (functions : (SeqOp.ofSymbol? name).any SeqOp.takesFunction = true)
      (args : ApartFunctions Γ as) : Apart Γ (.call (.attr t name) as) (.proxy false)
  | func {Γ : Taints} {f : Script Value} {as : List (Script Value)} {τs : List Taint}
      (callee : Apart Γ f (.proxy false)) (args : ApartAll Γ as τs)
      (operands : ∀ τ ∈ τs, τ.isOperand = true) : Apart Γ (.call f as) (.proxy false)
  /-- A nested function that is called. What is left of its arguments becomes a tuple. -/
  | call {Γ Δ : Taints} {f body : Script Value} {params : List String} {star : Option String}
      {as : List (Script Value)} {τs : List Taint} {τ : Taint}
      (callee : Apart Γ f (.function params star body Δ)) (args : ApartAll Γ as τs)
      (further : star.isSome = true → ∀ τ ∈ τs.drop params.length, τ = .clear)
      (result : Apart (Taints.entered params star τs Δ) body τ) : Apart Γ (.call f as) τ

/-- Whether several parts of a script keep proxies apart. -/
inductive ApartAll : Taints → List (Script Value) → List Taint → Prop
  | nil {Γ : Taints} : ApartAll Γ [] []
  | cons {Γ : Taints} {e : Script Value} {es : List (Script Value)} {τ : Taint} {τs : List Taint}
      (first : Apart Γ e τ) (rest : ApartAll Γ es τs) : ApartAll Γ (e :: es) (τ :: τs)

/-- Whether parts of a script are missing, or functions of one element that keep proxies apart. -/
inductive ApartFunctions : Taints → List (Script Value) → Prop
  | nil {Γ : Taints} : ApartFunctions Γ []
  | missing {Γ : Taints} {es : List (Script Value)} (rest : ApartFunctions Γ es) :
      ApartFunctions Γ (.lit .none :: es)
  | cons {Γ Δ : Taints} {e body : Script Value} {es : List (Script Value)} {params : List String}
      {star : Option String} {τ : Taint} (function : Apart Γ e (.function params star body Δ))
      (result : Apart (Taints.entered params star [.proxy false] Δ) body τ)
      (operand : τ.isOperand = true) (rest : ApartFunctions Γ es) : ApartFunctions Γ (e :: es)

end

end Script

/-! ## Values -/

theorem Value.Clear.isConstant {v : Value} (h : v.Clear) : v.isConstant = true := by
  cases v with
  | proxy => exact absurd h Value.not_clear_proxy
  | expr => exact absurd h Value.not_clear_expr
  | _ => rfl

/-- Whether a value is as a part of a script is tainted. Proxies are of expressions that were made
after all those with a number up to `made`, and that hold clear values. -/
inductive Fits (made : Nat) : Taint → Value → Prop
  | clear {v : Value} (h : v.Clear) : Fits made .clear v
  | proxy {reads : Bool} {r : Value} {e : Expr Value} (proxied : Proxied made r e)
      (shape : e.isMember = reads) (clear : e.IsClear) : Fits made (.proxy reads) r
  | function {id : Nat} {params : List String} {star : Option String} {body : Script Value}
      {Γ : Taints} {env : Env} (around : ∀ name τ v, Γ.lookup name = some τ →
        env.lookup name = some v → Fits made τ v) :
      Fits made (.function params star body Γ) (.function id params star body env)

/-- Whether variables are as they are said to be. -/
def FitsAll (made : Nat) (Γ : Taints) (env : Env) : Prop :=
  ∀ name τ v, Γ.lookup name = some τ → env.lookup name = some v → Fits made τ v

/-- What an operand becomes in an expression. -/
theorem Fits.operand {made : Nat} {τ : Taint} {r : Value} (h : Fits made τ r)
    (operand : τ.isOperand = true) : ∃ e, Written made r.recorded e ∧ e.IsClear := by
  cases h with
  | clear h => exact ⟨_, written_recorded made h.isConstant, Expr.isClear_lit.2 h⟩
  | proxy proxied _ clear => exact ⟨_, proxied.written, clear⟩
  | function => cases operand

theorem Fits.operands {made : Nat} {τs : List Taint} {rs : List Value}
    (h : List.Forall₂ (Fits made) τs rs) (operands : ∀ τ ∈ τs, τ.isOperand = true) :
    ∃ es, List.Forall₂ (Written made) (rs.map Value.recorded) es ∧ ∀ e ∈ es, e.IsClear := by
  induction h with
  | nil => exact ⟨[], .nil, nofun⟩
  | cons first _ ih =>
    rw [List.forall_mem_cons] at operands
    obtain ⟨e, written, clear⟩ := first.operand operands.1
    obtain ⟨es, writtens, clears⟩ := ih operands.2
    exact ⟨e :: es, .cons written writtens, List.forall_mem_cons.2 ⟨clear, clears⟩⟩

theorem Fits.clears {made : Nat} {τs : List Taint} {rs : List Value}
    (h : List.Forall₂ (Fits made) τs rs) (clear : ∀ τ ∈ τs, τ = .clear) : ∀ r ∈ rs, r.Clear := by
  induction h with
  | nil => simp
  | cons first _ ih =>
    rw [List.forall_mem_cons] at clear
    refine List.forall_mem_cons.2 ⟨?_, ih clear.2⟩
    obtain rfl := clear.1
    cases first with
    | clear h => exact h

/-! ### Inside functions -/

/-- Variables in front of others hide them on both sides. -/
theorem FitsAll.append {made : Nat} {Γ Δ : Taints} {env env' : Env}
    (front : List.Forall₂ (fun x y => x.1 = y.1 ∧ Fits made x.2 y.2) Γ env)
    (around : FitsAll made Δ env') : FitsAll made (Γ ++ Δ) (env ++ env') := by
  induction front with
  | nil => exact around
  | @cons x y _ _ first _ ih =>
    obtain ⟨n, τ⟩ := x
    obtain ⟨m, v⟩ := y
    obtain ⟨rfl, fits⟩ : n = m ∧ Fits made τ v := first
    intro name τ' v' known found
    rw [List.cons_append, List.lookup_cons] at known found
    cases here : name == n with
    | true =>
      rw [here] at known found
      cases known
      cases found
      exact fits
    | false =>
      rw [here] at known found
      exact ih name τ' v' known found

theorem forall₂_zip {made : Nat} {τs : List Taint} {rs : List Value}
    (h : List.Forall₂ (Fits made) τs rs) (names : List String) :
    List.Forall₂ (fun x y => x.1 = y.1 ∧ Fits made x.2 y.2) (names.zip τs) (names.zip rs) := by
  induction h generalizing names with
  | nil =>
    simp only [List.zip_nil_right]
    exact .nil
  | cons first _ ih =>
    cases names with
    | nil => exact .nil
    | cons name names => exact .cons ⟨rfl, first⟩ (ih names)

/-- The variables inside a function that is called with what fits. -/
theorem FitsAll.entered {made : Nat} {params : List String} {star : Option String} {τs : List Taint}
    {rs : List Value} {Γ : Taints} {env inner : Env} (around : FitsAll made Γ env)
    (args : List.Forall₂ (Fits made) τs rs)
    (further : star.isSome = true → ∀ τ ∈ τs.drop params.length, τ = .clear)
    (entered : argumentEnv params star rs env = .ok inner) :
    FitsAll made (Taints.entered params star τs Γ) inner := by
  have named := List.rel_reverse (forall₂_zip args params)
  have left := List.forall₂_drop params.length args
  unfold argumentEnv at entered
  dsimp only at entered
  split at entered
  · cases entered
  · cases entered
    refine FitsAll.append (List.rel_append ?_ named) around
    cases star with
    | none => exact .nil
    | some name =>
      exact .cons ⟨rfl, .clear (Value.clear_tuple.2 (Fits.clears left (further rfl)))⟩ .nil

/-! ## Trails -/

/-- Whether nothing was assigned to expressions that were made after number `made`. -/
structure Trail.Spares (made : Nat) (t : Trail) : Prop where
  later : made ≤ t.supply
  settled : ∀ p o, (Ref.expression p, o) ∈ t.memory → p.root ≤ made

/-- A trail as if nothing had been made after number `made`. -/
def Trail.origin (made : Nat) (t : Trail) : Trail := { t with supply := made }

section

variable {made : Nat} {a b : Trail}

theorem Trail.Spares.isSettled (h : a.Spares made) : (a.origin made).IsSettled := h.settled

theorem Trail.Spares.since (h : a.Spares made) : (a.origin made).Since a := ⟨rfl, h.later⟩

theorem Trail.Spares.mono (h : a.Spares made) (since : a.Since b) : b.Spares made :=
  ⟨Nat.le_trans h.later since.later, fun p o among => h.settled p o (since.memory ▸ among)⟩

/-- What is recorded of clear expressions becomes a proxy that fits. -/
theorem Fits.recorded {e : Expr Value} {r : Value} (spares : a.Spares made) (clear : e.IsClear)
    (run : runOn (Value.own (.ok (Value.ofRecorded e))) a = (.ok r, b)) :
    b.Spares made ∧ Fits made (.proxy e.isMember) r := by
  obtain ⟨since, proxied⟩ := Script.proxied_of_own spares.since run
  exact ⟨spares.mono since, .proxy proxied rfl clear⟩

end

/-! ## What scripts give -/

/-- Whether capturing what is given to an operation on a sequence gives a clear lambda. -/
def Value.IsElement (w : World) (made : Nat) (r : Value) : Prop :=
  r = .none ∨ ∀ d a f b, a.Spares made →
    runOn (captureElement w (Value.callWithin w d) r) a = (.ok f, b) → b.Spares made ∧ f.IsClear

namespace Script

/-- Whether a script comes to what is tainted so, wherever its variables are as they are said to be.
-/
def Gives (w : World) (made : Nat) (Γ : Taints) (t : Script Value) (τ : Taint) : Prop :=
  ∀ d env a r b, a.Spares made → FitsAll made Γ env →
    runOn (t.run w (Value.callWithin w d) env) a = (.ok r, b) → b.Spares made ∧ Fits made τ r

/-- Whether several scripts come to what is tainted so. -/
def GivesAll (w : World) (made : Nat) (Γ : Taints) (ts : List (Script Value)) (τs : List Taint) :
    Prop :=
  ∀ d env a rs b, a.Spares made → FitsAll made Γ env →
    runOn (runList w (Value.callWithin w d) ts env) a = (.ok rs, b) →
      b.Spares made ∧ List.Forall₂ (Fits made) τs rs

/-- Whether several scripts come to missing values, or to functions that are captured as clear
lambdas. -/
def GivesFunctions (w : World) (made : Nat) (Γ : Taints) (ts : List (Script Value)) : Prop :=
  ∀ d env a rs b, a.Spares made → FitsAll made Γ env →
    runOn (runList w (Value.callWithin w d) ts env) a = (.ok rs, b) →
      b.Spares made ∧ ∀ r ∈ rs, r.IsElement w made

variable {w : World} {made : Nat} {Γ Δ : Taints} {t l r k f body : Script Value}
  {ts as : List (Script Value)} {τ σ : Taint} {τs : List Taint} {reads : Bool}

theorem gives_var {name : String} (known : Γ.lookup name = some τ) :
    Gives w made Γ (.var name) τ := by
  intro d env a r b spares around run
  rw [Script.run] at run
  split at run
  · next found =>
    cases run
    exact ⟨spares, around name τ _ known found⟩
  · cases run

theorem gives_lit {v : Value} (clear : v.Clear) : Gives w made Γ (.lit v) .clear := by
  intro d env a r b spares around run
  cases run
  exact ⟨spares, .clear clear⟩

theorem gives_const {v : Value} (clear : v.Clear) : Gives w made Γ (.const v) (.proxy false) := by
  intro d env a r b spares around run
  exact Fits.recorded spares (Expr.isClear_lit.2 clear) run

theorem gives_list (elements : GivesAll w made Γ ts τs) (clear : ∀ τ ∈ τs, τ = .clear) :
    Gives w made Γ (.list ts) .clear := by
  intro d env a r b spares around run
  obtain ⟨rs, m, first, run⟩ := bind_eq_ok run
  cases run
  obtain ⟨spares', fits⟩ := elements d env a rs _ spares around first
  exact ⟨spares', .clear (Value.clear_list.2 (Fits.clears fits clear))⟩

theorem gives_fn (params : List String) (star : Option String) (body : Script Value) :
    Gives w made Γ (.fn params star body) (.function params star body Γ) := by
  intro d env a r b spares around run
  obtain ⟨id, m, numbered, run⟩ := bind_eq_ok run
  cases numbered
  cases run
  exact ⟨spares.mono (Trail.since_next a), .function around⟩

/-! ### Reading and operators -/

/-- Reading a member of a proxy. -/
theorem fits_attr {u r : Value} {name : String} {a b : Trail} (spares : a.Spares made)
    (target : Fits made (.proxy reads) u) (named : isMemberName name = true)
    (run : runOn (do Value.own (Value.getAttr (← Making.now w) u name)) a = (.ok r, b)) :
    b.Spares made ∧ ∃ e, Proxied made r (.member e name) ∧ e.IsClear := by
  cases target with
  | @proxy _ _ e proxied _ clear =>
    obtain ⟨pos, mark, rfl, late⟩ := proxied
    obtain ⟨now, _, here, run⟩ := bind_eq_ok run
    cases here
    obtain ⟨v, read⟩ := own_ok run
    have written : Written (a.origin made).supply (.expr e pos) e := ⟨pos, rfl, .inr late⟩
    rw [read, getAttr_proxy spares.isSettled spares.since written named read] at run
    obtain ⟨since, proxied⟩ := proxied_of_own spares.since run
    exact ⟨spares.mono since, e, proxied, clear⟩

theorem gives_attr (target : Gives w made Γ t (.proxy reads)) {name : String}
    (named : isMemberName name = true) : Gives w made Γ (.attr t name) (.proxy true) := by
  intro d env a r b spares around run
  rw [Script.run] at run
  obtain ⟨u, m, first, run⟩ := bind_eq_ok run
  obtain ⟨spares', fits⟩ := target d env a u m spares around first
  obtain ⟨spares'', e, proxied, clear⟩ := fits_attr spares' fits named run
  exact ⟨spares'', .proxy proxied rfl (Expr.isClear_member.2 clear)⟩

theorem gives_item (target : Gives w made Γ t (.proxy reads)) (key : Gives w made Γ k τ)
    (operand : τ.isOperand = true) : Gives w made Γ (.item t k) (.proxy false) := by
  intro d env a r b spares around run
  obtain ⟨u, a₁, v, a₂, first, next, run⟩ := run_item run
  obtain ⟨spares₁, fits⟩ := target d env a u a₁ spares around first
  obtain ⟨spares₂, fits'⟩ := key d env a₁ v a₂ spares₁ around next
  obtain ⟨f, written', clear'⟩ := fits'.operand operand
  cases fits with
  | @proxy _ _ e proxied _ clear =>
    obtain ⟨pos, mark, rfl, late⟩ := proxied
    have written : Written (a₂.origin made).supply (.expr e pos) e := ⟨pos, rfl, .inr late⟩
    rw [readItem_proxy spares₂.isSettled spares₂.since written written'] at run
    exact Fits.recorded spares₂ (Expr.isClear_item.2 ⟨clear, clear'⟩) run

theorem gives_left (op : ScriptOp) (first : Gives w made Γ l (.proxy reads))
    (second : Gives w made Γ r τ) (operand : τ.isOperand = true) :
    Gives w made Γ (.bin op l r) (.proxy false) := by
  intro d env a x b spares around run
  obtain ⟨u, a₁, v, a₂, one, two, run⟩ := run_bin run
  obtain ⟨spares₁, fits⟩ := first d env a u a₁ spares around one
  obtain ⟨spares₂, fits'⟩ := second d env a₁ v a₂ spares₁ around two
  obtain ⟨f, written', clear'⟩ := fits'.operand operand
  cases fits with
  | @proxy _ _ e proxied _ clear =>
    obtain ⟨pos, mark, rfl, late⟩ := proxied
    have operated : Value.operate (w.after a₂) op (.proxy (.expr e pos) mark) v
        = .ok (.ofRecorded (.binary op.recorded e f)) :=
      recordBinary_written spares₂.isSettled spares₂.since ⟨pos, rfl, .inr late⟩ written'
        op.recorded
    rw [operated] at run
    exact Fits.recorded spares₂ (Expr.isClear_binary.2 ⟨clear, clear'⟩) run

theorem answersFirst_of_clear {op : ScriptOp} {v : Value} (clear : v.Clear) (other : op ≠ .mod)
    (now : World) (u : Value) : Value.answersFirst now op v u = none := by
  unfold Value.answersFirst
  split
  · exact absurd rfl other
  · exact absurd rfl other
  · exact absurd clear Value.not_clear_expr
  · exact absurd clear Value.not_clear_expr
  · rfl

theorem gives_right {op : ScriptOp} (first : Gives w made Γ l .clear)
    (second : Gives w made Γ r (.proxy reads)) (other : op ≠ .mod) :
    Gives w made Γ (.bin op l r) (.proxy false) := by
  intro d env a x b spares around run
  obtain ⟨u, a₁, v, a₂, one, two, run⟩ := run_bin run
  obtain ⟨spares₁, fits⟩ := first d env a u a₁ spares around one
  obtain ⟨spares₂, fits'⟩ := second d env a₁ v a₂ spares₁ around two
  cases fits with
  | clear clear =>
    have written := written_recorded (a₂.origin made).supply clear.isConstant
    cases fits' with
    | @proxy _ _ e proxied _ clear' =>
      obtain ⟨pos, mark, rfl, late⟩ := proxied
      have written' : Written (a₂.origin made).supply (.expr e pos) e := ⟨pos, rfl, .inr late⟩
      have here := Expr.isClear_lit.2 clear
      rw [Value.operate_proxy (w.after a₂) (ne_proxy_of_isConstant clear.isConstant)
        (answersFirst_of_clear clear other _ _)] at run
      -- a comparison is recorded from the side of the proxy
      cases exchanged : op.exchanged? with
      | none =>
        simp only [exchanged] at run
        rw [recordBinary_written spares₂.isSettled spares₂.since written written'] at run
        exact Fits.recorded spares₂ (Expr.isClear_binary.2 ⟨here, clear'⟩) run
      | some op' =>
        simp only [exchanged] at run
        rw [recordBinary_written spares₂.isSettled spares₂.since written' written] at run
        exact Fits.recorded spares₂ (Expr.isClear_binary.2 ⟨clear', here⟩) run

theorem gives_unary (op : UnaryOp) (inner : Gives w made Γ t (.proxy reads)) :
    Gives w made Γ (t.unary op) (.proxy false) := by
  intro d env a r b spares around run
  obtain ⟨u, m, first, run⟩ := run_unary op run
  obtain ⟨spares', fits⟩ := inner d env a u m spares around first
  cases fits with
  | @proxy _ _ e proxied _ clear =>
    obtain ⟨pos, mark, rfl, late⟩ := proxied
    have recorded := run _ _ rfl
    rw [recordUnary_written spares'.isSettled spares'.since ⟨pos, rfl, .inr late⟩] at recorded
    exact Fits.recorded spares' (Expr.isClear_unary.2 clear) recorded

/-! ### Several scripts -/

theorem givesAll_nil : GivesAll w made Γ [] [] := by
  intro d env a rs b spares around run
  cases run
  exact ⟨spares, .nil⟩

theorem givesAll_cons (first : Gives w made Γ t τ) (rest : GivesAll w made Γ ts τs) :
    GivesAll w made Γ (t :: ts) (τ :: τs) := by
  intro d env a rs b spares around run
  obtain ⟨r, a₁, one, run⟩ := bind_eq_ok run
  obtain ⟨rs, a₂, others, run⟩ := bind_eq_ok run
  cases run
  obtain ⟨spares₁, fits⟩ := first d env a r a₁ spares around one
  obtain ⟨spares₂, fits'⟩ := rest d env a₁ rs _ spares₁ around others
  exact ⟨spares₂, .cons fits fits'⟩

/-! ### Functions that are captured -/

/-- The parameters of a lambda are bound to proxies of their own. -/
theorem fits_params (ps : List Param) {a b : Trail} {rs : List Value} (spares : a.Spares made)
    (run : runOn ((ps.map (Value.ofTree ∘ Expr.param)).mapM Value.makeProxy) a = (.ok rs, b)) :
    b.Spares made ∧ List.Forall₂ (Fits made) (ps.map fun _ => .proxy false) rs := by
  induction ps generalizing a rs with
  | nil =>
    cases run
    exact ⟨spares, .nil⟩
  | cons p ps ih =>
    rw [List.map_cons, List.mapM_cons] at run
    obtain ⟨r, a₁, here, run⟩ := bind_eq_ok run
    obtain ⟨rs, a₂, next, run⟩ := bind_eq_ok run
    cases run
    obtain ⟨spares₁, fits⟩ := Fits.recorded spares (Expr.isClear_param p) here
    obtain ⟨spares₂, others⟩ := ih spares₁ next
    exact ⟨spares₂, .cons fits others⟩

/-- Calling a nested function goes through its body. -/
theorem fits_call {id : Nat} {params : List String} {star : Option String} {env : Env} {d : Nat}
    {a b : Trail} {rs : List Value} {r : Value} (spares : a.Spares made) (around : FitsAll made Δ env)
    (args : List.Forall₂ (Fits made) τs rs)
    (further : star.isSome = true → ∀ τ ∈ τs.drop params.length, τ = .clear)
    (result : Gives w made (Taints.entered params star τs Δ) body τ)
    (run : runOn (Value.callWithin w d (.function id params star body env) rs) a = (.ok r, b)) :
    b.Spares made ∧ Fits made τ r := by
  cases d with
  | zero => cases run
  | succ d =>
    obtain ⟨now, _, here, run⟩ := bind_eq_ok run
    cases here
    obtain ⟨inner, _, opened, run⟩ := bind_eq_ok run
    obtain ⟨entered, rfl⟩ := outcome_of_run opened
    exact result d inner _ r b spares (around.entered args further entered) run

/-- A function that keeps proxies apart is captured as a clear lambda. -/
theorem isClear_captured {id : Nat} {params : List String} {star : Option String} {env : Env}
    {d : Nat} {ps : List Param} {a b : Trail} {e : Expr Value} (spares : a.Spares made)
    (around : FitsAll made Δ env)
    (result : Gives w made (Taints.entered params star (ps.map fun _ => .proxy false) Δ) body τ)
    (operand : τ.isOperand = true)
    (run : runOn (captureLambda w (Value.callWithin w d) (.function id params star body env) ps) a
      = (.ok e, b)) : b.Spares made ∧ e.IsClear := by
  obtain ⟨arity, _, proxies, a₁, v, e', proxied, called, written, rfl⟩ := captureLambda_steps run
  have full : params.length = ps.length := Except.ok.inj arity
  obtain ⟨spares₁, fits⟩ := fits_params ps spares proxied
  have further : star.isSome = true →
      ∀ τ ∈ (ps.map fun _ => Taint.proxy false).drop params.length, τ = .clear := by
    intro _ τ among
    rw [full, ← List.length_map (fun _ => Taint.proxy false), List.drop_length] at among
    cases among
  obtain ⟨spares₂, fits'⟩ := fits_call spares₁ around fits further result called
  obtain ⟨f, recorded, clear⟩ := fits'.operand operand
  have recorded : Written (b.origin made).supply v.recorded f := recorded
  rw [recorded.treeAt spares₂.isSettled spares₂.since] at written
  cases written
  exact ⟨spares₂, Expr.isClear_lambda.2 clear⟩

theorem givesFunctions_nil : GivesFunctions w made Γ [] := by
  intro d env a rs b spares around run
  cases run
  exact ⟨spares, by simp⟩

theorem givesFunctions_missing (rest : GivesFunctions w made Γ ts) :
    GivesFunctions w made Γ (.lit .none :: ts) := by
  intro d env a rs b spares around run
  rw [runList, Script.run, pure_bind] at run
  obtain ⟨rs, m, others, run⟩ := bind_eq_ok run
  cases run
  obtain ⟨spares', fits⟩ := rest d env a rs _ spares around others
  exact ⟨spares', List.forall_mem_cons.2 ⟨.inl rfl, fits⟩⟩

theorem givesFunctions_cons {params : List String} {star : Option String}
    (function : Gives w made Γ t (.function params star body Δ))
    (result : Gives w made (Taints.entered params star [.proxy false] Δ) body τ)
    (operand : τ.isOperand = true) (rest : GivesFunctions w made Γ ts) :
    GivesFunctions w made Γ (t :: ts) := by
  intro d env a rs b spares around run
  obtain ⟨r, a₁, one, run⟩ := bind_eq_ok run
  obtain ⟨rs, a₂, others, run⟩ := bind_eq_ok run
  cases run
  obtain ⟨spares₁, fits⟩ := function d env a r a₁ spares around one
  obtain ⟨spares₂, fits'⟩ := rest d env a₁ rs _ spares₁ around others
  refine ⟨spares₂, List.forall_mem_cons.2 ⟨.inr ?_, fits'⟩⟩
  cases fits with
  | function around =>
    intro d' c f c' spares captured
    obtain ⟨_, _, here, captured⟩ := bind_eq_ok captured
    cases here
    obtain ⟨p, c₁, numbered, captured⟩ := bind_eq_ok captured
    cases numbered
    exact isClear_captured (spares.mono (Trail.since_next c)) around result operand captured

/-! ### Calls -/

/-- Functions of one element are captured one after the other, without what is missing. -/
theorem isClear_elements {rs : List Value} (each : ∀ r ∈ rs, r.IsElement w made) {d : Nat}
    {a b : Trail} {fs : List (Expr Value)} (spares : a.Spares made)
    (run : runOn ((rs.filter (!·.isNone)).mapM (captureElement w (Value.callWithin w d))) a
      = (.ok fs, b)) : b.Spares made ∧ ∀ f ∈ fs, f.IsClear := by
  induction rs generalizing a fs with
  | nil =>
    cases run
    exact ⟨spares, nofun⟩
  | cons r rs ih =>
    rw [List.forall_mem_cons] at each
    cases missing : r.isNone with
    | true =>
      rw [List.filter_cons_of_neg (by simp [missing])] at run
      exact ih each.2 spares run
    | false =>
      rw [List.filter_cons_of_pos (by simp [missing]), List.mapM_cons] at run
      obtain ⟨f, a₁, one, run⟩ := bind_eq_ok run
      obtain ⟨fs', a₂, more, run⟩ := bind_eq_ok run
      cases run
      obtain rfl | captures := each.1
      · cases missing
      · obtain ⟨spares₁, clear⟩ := captures d a f a₁ spares one
        obtain ⟨spares₂, clears⟩ := ih each.2 spares₁ more
        exact ⟨spares₂, List.forall_mem_cons.2 ⟨clear, clears⟩⟩

/-- What a call of a proxy records becomes a proxy that fits. -/
theorem fits_recordCall {u r : Value} {mark d : Nat} {rs : List Value} {a b : Trail}
    (run : runOn (Value.callWithin w d (.proxy u mark) rs) a = (.ok r, b))
    (clear : ∀ d f m, runOn (recordCall w (Value.callWithin w d) u rs) a = (.ok f, m) →
      m.Spares made ∧ f.isMember = false ∧ f.IsClear) : b.Spares made ∧ Fits made (.proxy false) r := by
  obtain ⟨d', f, m, rfl, recorded, run⟩ := call_proxy run
  obtain ⟨spares, shape, clear⟩ := clear d' f m recorded
  obtain ⟨since, proxied⟩ := proxied_of_makeProxy spares.since run
  exact ⟨spares.mono since, .proxy proxied shape clear⟩

theorem gives_func (callee : Gives w made Γ f (.proxy false)) (args : GivesAll w made Γ as τs)
    (operands : ∀ τ ∈ τs, τ.isOperand = true) : Gives w made Γ (.call f as) (.proxy false) := by
  intro d env a r b spares around run
  obtain ⟨u, a₁, rs, a₂, first, given, run⟩ := run_call run
  obtain ⟨spares₁, fits⟩ := callee d env a u a₁ spares around first
  obtain ⟨spares₂, fits'⟩ := args d env a₁ rs a₂ spares₁ around given
  obtain ⟨es, writtens, clears⟩ := Fits.operands fits' operands
  cases fits with
  | @proxy _ _ e proxied shape clear =>
    obtain ⟨pos, mark, rfl, late⟩ := proxied
    refine fits_recordCall run fun d' g m recorded => ?_
    obtain ⟨rfl, rfl⟩ := recordCall_func spares₂.isSettled spares₂.since ⟨pos, rfl, .inr late⟩ shape
      writtens recorded
    exact ⟨spares₂, rfl, Expr.isClear_func.2 ⟨clear, clears⟩⟩

theorem gives_call {params : List String} {star : Option String}
    (callee : Gives w made Γ f (.function params star body Δ)) (args : GivesAll w made Γ as τs)
    (further : star.isSome = true → ∀ τ ∈ τs.drop params.length, τ = .clear)
    (result : Gives w made (Taints.entered params star τs Δ) body τ) :
    Gives w made Γ (.call f as) τ := by
  intro d env a r b spares around run
  obtain ⟨u, a₁, rs, a₂, first, given, run⟩ := run_call run
  obtain ⟨spares₁, fits⟩ := callee d env a u a₁ spares around first
  obtain ⟨spares₂, fits'⟩ := args d env a₁ rs a₂ spares₁ around given
  cases fits with
  | function around => exact fits_call spares₂ around fits' further result run

/-- The target of a call of a member is read first. -/
theorem run_member {d : Nat} {env : Env} {name : String} {a b : Trail} {r : Value}
    (target : Gives w made Γ t (.proxy reads)) (named : isMemberName name = true)
    (spares : a.Spares made) (around : FitsAll made Γ env)
    (run : runOn ((call (attr t name) as).run w (Value.callWithin w d) env) a = (.ok r, b)) :
    ∃ e pos mark m rs m', made < pos.root ∧ e.IsClear ∧ m.Spares made
      ∧ runOn (runList w (Value.callWithin w d) as env) m = (.ok rs, m')
      ∧ runOn (Value.callWithin w d (.proxy (.expr (.member e name) pos) mark) rs) m'
        = (.ok r, b) := by
  rw [Script.run, Script.run] at run
  obtain ⟨v, a₂, read, run⟩ := bind_eq_ok run
  obtain ⟨u, a₁, first, read⟩ := bind_eq_ok read
  obtain ⟨rs, a₃, given, run⟩ := bind_eq_ok run
  obtain ⟨spares₁, fits⟩ := target d env a u a₁ spares around first
  obtain ⟨spares₂, e, ⟨pos, mark, rfl, late⟩, clear⟩ := fits_attr spares₁ fits named read
  exact ⟨e, pos, mark, a₂, rs, a₃, late, clear, spares₂, given, run⟩

theorem gives_member {name : String} (target : Gives w made Γ t (.proxy reads))
    (named : isMemberName name = true)
    (values : (SeqOp.ofSymbol? name).any SeqOp.takesFunction = false)
    (args : GivesAll w made Γ as τs) (operands : ∀ τ ∈ τs, τ.isOperand = true) :
    Gives w made Γ (.call (.attr t name) as) (.proxy false) := by
  intro d env a r b spares around run
  obtain ⟨e, pos, mark, m, rs, m', late, clear, spares₁, given, run⟩ :=
    run_member target named spares around run
  obtain ⟨spares₂, fits⟩ := args d env m rs m' spares₁ around given
  obtain ⟨es, writtens, clears⟩ := Fits.operands fits operands
  have written : Written (m'.origin made).supply (.expr (.member e name) pos) (.member e name) :=
    ⟨pos, rfl, .inr late⟩
  refine fits_recordCall run fun d' f m'' recorded => ?_
  cases sequence : SeqOp.ofSymbol? name with
  | some op =>
    rw [sequence] at values
    obtain ⟨g, rfl, rfl, rfl⟩ := recordCall_counted spares₂.isSettled spares₂.since written writtens
      sequence values recorded
    exact ⟨spares₂, rfl, Expr.isClear_seq.2 ⟨clear, clears⟩⟩
  | none =>
    cases membership : membership? name with
    | some op =>
      obtain ⟨g, rfl, rfl, rfl⟩ := recordCall_membership spares₂.isSettled spares₂.since written
        writtens sequence membership recorded
      exact ⟨spares₂, rfl, Expr.isClear_binary.2 ⟨clear, clears g (List.mem_singleton_self g)⟩⟩
    | none =>
      obtain ⟨rfl, rfl⟩ := recordCall_method spares₂.isSettled spares₂.since written writtens
        sequence membership recorded
      exact ⟨spares₂, rfl, Expr.isClear_method.2 ⟨clear, clears⟩⟩

theorem gives_elements {name : String} (target : Gives w made Γ t (.proxy reads))
    (named : isMemberName name = true)
    (functions : (SeqOp.ofSymbol? name).any SeqOp.takesFunction = true)
    (args : GivesFunctions w made Γ as) :
    Gives w made Γ (.call (.attr t name) as) (.proxy false) := by
  intro d env a r b spares around run
  obtain ⟨e, pos, mark, m, rs, m', late, clear, spares₁, given, run⟩ :=
    run_member target named spares around run
  obtain ⟨spares₂, each⟩ := args d env m rs m' spares₁ around given
  have written : Written (m'.origin made).supply (.expr (.member e name) pos) (.member e name) :=
    ⟨pos, rfl, .inr late⟩
  obtain ⟨op, sequence, takes⟩ := (Option.any_eq_true _ _).1 functions
  refine fits_recordCall run fun d' f m'' recorded => ?_
  obtain ⟨fs, captured, -, rfl⟩ :=
    recordCall_elements spares₂.isSettled spares₂.since written sequence takes recorded
  obtain ⟨spares₃, clears⟩ := isClear_elements each spares₂ captured
  exact ⟨spares₃, rfl, Expr.isClear_seq.2 ⟨clear, clears⟩⟩

/-! ## All scripts -/

mutual

/-- A script that keeps proxies apart comes to what it is tainted as. -/
theorem Apart.gives {Γ : Taints} {t : Script Value} {τ : Taint} :
    Apart Γ t τ → Gives w made Γ t τ
  | .var known => gives_var known
  | .lit clear => gives_lit clear
  | .const clear => gives_const clear
  | .list elements clear => gives_list elements.gives clear
  | .attr target named => gives_attr target.gives named
  | .item target key operand => gives_item target.gives key.gives operand
  | .left op first second operand => gives_left op first.gives second.gives operand
  | .right first second other => gives_right first.gives second.gives other
  | .inv inner => gives_unary .not inner.gives
  | .neg inner => gives_unary .neg inner.gives
  | .fn params star body => gives_fn params star body
  | .member target named values args operands =>
    gives_member target.gives named values args.gives operands
  | .elements target named functions args => gives_elements target.gives named functions args.gives
  | .func callee args operands => gives_func callee.gives args.gives operands
  | .call callee args further result => gives_call callee.gives args.gives further result.gives

/-- Several scripts that keep proxies apart come to what they are tainted as. -/
theorem ApartAll.gives {Γ : Taints} {ts : List (Script Value)} {τs : List Taint} :
    ApartAll Γ ts τs → GivesAll w made Γ ts τs
  | .nil => givesAll_nil
  | .cons first rest => givesAll_cons first.gives rest.gives

/-- Functions that keep proxies apart are captured as clear lambdas. -/
theorem ApartFunctions.gives {Γ : Taints} {ts : List (Script Value)} :
    ApartFunctions Γ ts → GivesFunctions w made Γ ts
  | .nil => givesFunctions_nil
  | .missing rest => givesFunctions_missing rest.gives
  | .cons function result operand rest =>
    givesFunctions_cons function.gives result.gives operand rest.gives

end

end Script

/-! ## Whole functions -/

/-- Whether a computation gives a result that passes a test. -/
def passes {α : Type} (x : Making α) (t : Trail) (test : α → Trail → Bool) : Bool :=
  match runOn x t with
  | (.ok a, t') => test a t'
  | (.error _, _) => false

theorem exists_of_passes {α : Type} {x : Making α} {t : Trail} {test : α → Trail → Bool}
    (h : passes x t test = true) : ∃ a t', runOn x t = (.ok a, t') ∧ test a t' = true := by
  unfold passes at h
  split at h
  · next a t' run => exact ⟨a, t', run, h⟩
  · cases h

namespace World

/-- No proxy survives the capture of a function that keeps proxies apart: whatever the lambda holds
is clear, at any depth. So evaluating the lambda for clear arguments gives clear values, and fails
neither since a proxy was asked whether it holds nor since one was asked for its elements. -/
theorem capture_clear {w : World} {id : Nat} {params : List String} {star : Option String}
    {body : Script Value} {env : Env} {Γ : Taints} {τ : Taint} {ps : List Param} {t t' : Trail}
    {e : Expr Value} (settled : t.IsSettled) (around : FitsAll t.supply Γ env)
    (apart : Script.Apart (Taints.entered params star (ps.map fun _ => .proxy false) Γ) body τ)
    (operand : τ.isOperand = true)
    (captured : runOn (w.capture (.function id params star body env) ps) t = (.ok e, t')) :
    e.IsClear ∧ ∀ (u : Trail) (args : List Value), w.IsClear → u.IsClear → (∀ a ∈ args, a.Clear) →
      ∀ x u', runOn (e.applyLambda w.host args) u = (x, u') →
        (∀ v, x = .ok v → v.Clear) ∧ x ≠ .error .proxyTruth ∧ x ≠ .error .proxyIteration
          ∧ u'.IsClear := by
  have clear : e.IsClear :=
    (Script.isClear_captured ⟨Nat.le_refl _, settled⟩ around apart.gives operand captured).2
  refine ⟨clear, fun u args hw hu hargs x u' run => ?_⟩
  obtain ⟨calm, after, brings⟩ := hw.applied clear hargs u hu
  rw [run] at calm after brings
  exact ⟨brings, fun asked => (calm _ asked).1 rfl, fun asked => (calm _ asked).2 rfl, after⟩

/-- A function with numbers to look among and a function of its own around it, and with another one
in it. -/
theorem sample_capture_clear :
    let among : Script Value := .call (.attr (.attr (.var "u") "id") "in_") [.var "allowed"]
    let own : Script Value := .bin .eq (.attr (.var "p") "owner") (.attr (.var "q") "id")
    let inner : Script Value := .call (.var "own") [.var "x", .var "u"]
    let body : Script Value := .bin .and among
      (.call (.attr (.attr (.var "u") "parts") "any") [.fn ["x"] none inner])
    let env : Env := [("allowed", .list [.int 1, .int 3]), ("own", .function 0 ["p", "q"] none own [])]
    let Γ : Taints := [("allowed", .clear), ("own", .function ["p", "q"] none own [])]
    let w : World := default
    let t : Trail := ⟨1, [], []⟩
    let p : Param := ⟨1, "u"⟩
    let user : Value :=
      .record "User" [("id", .int 3), ("parts", .list [.record "Part" [("owner", .int 3)]])]
    ∃ e t' v u', t.IsSettled ∧ FitsAll t.supply Γ env
      ∧ Script.Apart (Taints.entered ["u"] none [.proxy false] Γ) body (.proxy false)
      ∧ runOn (w.capture (.function 0 ["u"] none body env) [p]) t = (.ok e, t')
      ∧ e.constants.length = 1 ∧ e.IsClear
      ∧ w.IsClear ∧ t.IsClear ∧ user.Clear
      ∧ runOn (e.applyLambda w.host [user]) t = (.ok v, u') ∧ v.asInt? = some 1 ∧ v.Clear
      ∧ u'.IsClear := by
  intro among own inner body env Γ w t p user
  have settled : t.IsSettled := nofun
  have around : FitsAll t.supply Γ env := by
    show FitsAll _ (Γ ++ []) (env ++ [])
    refine FitsAll.append (.cons ⟨rfl, ?_⟩ (.cons ⟨rfl, ?_⟩ .nil)) nofun
    · exact .clear (.list (List.forall_mem_cons.2 ⟨.atom rfl, List.forall_mem_singleton.2 (.atom rfl)⟩))
    · exact .function nofun
  have apart : Script.Apart (Taints.entered ["u"] none [.proxy false] Γ) body (.proxy false) := by
    have id {Δ : Taints} {n : String} (known : Δ.lookup n = some (.proxy false)) :
        Script.Apart Δ (.attr (.var n) "id") (.proxy true) := .attr (.var known) (by decide +kernel)
    have looked : Script.Apart (("u", .proxy false) :: Γ) among (.proxy false) :=
      .member (id rfl) (by decide +kernel) rfl (.cons (.var rfl) .nil) (by simp [Taint.isOperand])
    have called : Script.Apart (("x", .proxy false) :: ("u", .proxy false) :: Γ) inner
        (.proxy false) :=
      .call (.var rfl) (.cons (.var rfl) (.cons (.var rfl) .nil)) nofun
        (.left .eq (.attr (.var rfl) (by decide +kernel)) (id rfl) rfl)
    exact .left .and looked (.elements (.attr (.var rfl) (by decide +kernel)) (by decide +kernel) rfl
      (.cons (.fn ["x"] none inner) called rfl .nil)) rfl
  have shown : passes (w.capture (.function 0 ["u"] none body env) [p]) t (fun e _ =>
      e.constants.length == 1
        && passes (e.applyLambda w.host [user]) t fun v _ => v.asInt? == some 1) = true := by
    decide +kernel
  obtain ⟨e, t', captured, both⟩ := exists_of_passes shown
  obtain ⟨one, evaluates⟩ := Bool.and_eq_true_iff.1 both
  obtain ⟨v, u', evaluated, holds⟩ := exists_of_passes evaluates
  obtain ⟨clear, applied⟩ := capture_clear settled around apart rfl captured
  have three : (Value.int 3).Clear := .atom rfl
  have plain : user.Clear := by simp [user, three]
  have world : w.IsClear := ⟨nofun, nofun, nofun⟩
  have trail : t.IsClear := ⟨nofun, nofun⟩
  have after := applied t [user] world trail (List.forall_mem_singleton.2 plain) _ u' evaluated
  exact ⟨e, t', v, u', settled, around, apart, captured, eq_of_beq one, clear, world, trail, plain,
    evaluated, eq_of_beq holds, after.1 v rfl, after.2.2.2⟩

end World

namespace Value

/-- Whether a value is a list with a proxy or an expression in it. -/
def listsRecorded : Value → Bool
  | .list vs => vs.any (!·.isConstant)
  | _ => false

theorem not_clear_of_listsRecorded {v : Value} (h : v.listsRecorded = true) : ¬ v.Clear := by
  unfold listsRecorded at h
  split at h
  · obtain ⟨u, among, recorded⟩ := List.any_eq_true.1 h
    intro clear
    rw [(clear_list.1 clear u among).isConstant] at recorded
    cases recorded
  · cases h

end Value

/-- Whether a computation failed since a proxy was asked whether it holds. -/
def asksProxy {α : Type} : Outcome α → Bool
  | .error .proxyTruth => true
  | _ => false

namespace World

/-- A list among the operands, or in place of the result, gets into the lambda with the proxies in it:
looking for a number in the list fails, since a proxy is asked whether it equals it, and a list that
is the result is given back as it is. -/
theorem listed_proxies_survive :
    let listed : Script Value := .list [.attr (.var "v") "id", .lit (.int 3)]
    let f : Value :=
      .function 0 ["u", "v"] none (.call (.attr (.attr (.var "u") "id") "in_") [listed]) []
    let g : Value :=
      .function 0 ["u"] none (.list [.attr (.var "u") "id", .attr (.var "u") "name"]) []
    let w : World := default
    let t : Trail := ⟨2, [], []⟩
    let user : Value := .record "User" [("id", .int 1), ("name", .str "Ann")]
    (∃ e t', runOn (w.capture f [⟨1, "u"⟩, ⟨2, "v"⟩]) t = (.ok e, t') ∧ ¬ e.IsClear
        ∧ asksProxy (runOn (e.applyLambda w.host [user, user]) t').1 = true)
      ∧ ∃ e t' r t'', runOn (w.capture g [⟨1, "u"⟩]) t = (.ok e, t')
        ∧ runOn (e.applyLambda w.host [user]) t' = (.ok r, t'') ∧ ¬ r.Clear := by
  intro listed f g w t user
  have compared : passes (w.capture f [⟨1, "u"⟩, ⟨2, "v"⟩]) t (fun e t' =>
      e.constants.any Value.listsRecorded
        && asksProxy (runOn (e.applyLambda w.host [user, user]) t').1) = true := by
    decide +kernel
  have returned : passes (w.capture g [⟨1, "u"⟩]) t (fun e t' =>
      passes (e.applyLambda w.host [user]) t' fun r _ => r.listsRecorded) = true := by
    decide +kernel
  obtain ⟨e, t₁, captured, shown⟩ := exists_of_passes compared
  obtain ⟨e', t₂, captured', evaluates⟩ := exists_of_passes returned
  obtain ⟨r, t₃, evaluated, leaks⟩ := exists_of_passes evaluates
  obtain ⟨holds, asks⟩ := Bool.and_eq_true_iff.1 shown
  obtain ⟨v, among, leaks'⟩ := List.any_eq_true.1 holds
  exact ⟨⟨e, t₁, captured, fun clear => Value.not_clear_of_listsRecorded leaks' (clear v among), asks⟩,
    e', t₂, r, t₃, captured', evaluated, Value.not_clear_of_listsRecorded leaks⟩

end World

end EntityGraph
