import EntityGraph.Proofs.Capture.Making
import EntityGraph.Script.Run

/-!
# Lambdas while a function is captured

A lambda is made by calling a function with proxies of the parameters of the lambda. The variables of
the function then stand for these parameters, and those of the functions around it for what they stood
for before. This module says so of a single lambda, whatever calling the function does: its parameters
are known while it is captured, and no longer afterwards.
-/

namespace EntityGraph

/-! ## What lambdas are captured from -/

namespace Value

/-- Whether a value is a proxy of a parameter. -/
def IsParam (p : Param) (v : Value) : Prop := ∃ pos mark, v = proxy (expr (.param p) pos) mark

/-- What is called when a value is called: functions may be supplied by others. -/
def underlying : Value → Value
  | supplied f => f.underlying
  | v => v

/-- Whether a value is a function with a script. -/
def isScripted : Value → Bool
  | function .. => true
  | _ => false

end Value

/-- Whether the body of a lambda is what a value records when it is called with proxies of the
parameters of the lambda, which leaves a trail behind. If the value is a function with a script, the
variables that it declares stand for the parameters at their places and hide what has the same name;
every other variable is as in the functions around it, and if it stands for a parameter then for a
known one. -/
inductive World.IsCapture (w : World) (f : Value) (known ps : List Param) (body : Expr Value)
    (b : Trail) : Prop
  | script {id : Nat} {names : List String} {star : Option String} {script : Script Value}
      {env inner : Env} {depth : Nat} {a : Trail} {v : Value}
      (called : f.underlying = .function id names star script env)
      (own : ∀ (i : Nat) name p, names[i]? = some name → ps[i]? = some p →
        name ∉ names.drop (i + 1) → star ≠ some name →
        ∃ u, inner.lookup name = some u ∧ u.IsParam p)
      (other : ∀ name, name ∉ names → star ≠ some name → inner.lookup name = env.lookup name)
      (outer : ∀ name u p, env.lookup name = some u → u.IsParam p → p ∈ known)
      (ran : runOn (script.run w (Value.callWithin w depth) inner) a = (.ok v, b))
      (recorded : v.recorded.tree? (w.after b) = some body)
  | value {depth : Nat} {args : List Value} {a : Trail} {v : Value}
      (called : f.underlying.isScripted = false)
      (params : List.Forall₂ Value.IsParam ps args)
      (ran : runOn (Value.callWithin w depth f args) a = (.ok v, b))
      (recorded : v.recorded.tree? (w.after b) = some body)

/-- What is asked of the lambdas in captured expressions: each was captured in its turn. -/
def World.asked (w : World) : Expr.Asked Value := fun known ps body =>
  ∃ f depth a b, runOn (captureLambda w (Value.callWithin w depth) f ps) a = (.ok (.lambda ps body), b)
    ∧ w.IsCapture f known ps body b

theorem World.IsCapture.mono {w : World} {f : Value} {known known' ps : List Param}
    {body : Expr Value} {b : Trail} (h : w.IsCapture f known ps body b) (more : known ⊆ known') :
    w.IsCapture f known' ps body b := by
  cases h with
  | script called own other outer ran recorded =>
    exact .script called own other (fun n u p found is => more (outer n u p found is)) ran recorded
  | value called params ran recorded => exact .value called params ran recorded

theorem World.asked_mono {w : World} {known known' ps : List Param} {body : Expr Value}
    (more : known ⊆ known') (h : w.asked known ps body) : w.asked known' ps body := by
  obtain ⟨f, depth, a, b, captured, is⟩ := h
  exact ⟨f, depth, a, b, captured, is.mono more⟩

/-! ## Variables inside functions -/

section

variable {names : List String} {star : Option String} {args : List Value} {env inner : Env}

theorem lookup_append_of_none {l l' : Env} {name : String} (absent : l.lookup name = none) :
    (l ++ l').lookup name = l'.lookup name := by
  rw [List.lookup_append, absent]
  rfl

theorem lookup_zip_reverse_of_notMem {name : String} (absent : name ∉ names) :
    ((names.zip args).reverse).lookup name = none := by
  rw [List.lookup_eq_none_iff]
  intro e he
  have mem := (List.of_mem_zip (List.mem_reverse.1 he)).1
  rw [bne_iff_ne]
  rintro rfl
  exact absent mem

/-- The last parameter with a name stands for the argument at its place. -/
theorem lookup_zip_reverse {i : Nat} {name : String} {v : Value} (here : names[i]? = some name)
    (given : args[i]? = some v) (last : name ∉ names.drop (i + 1)) :
    ((names.zip args).reverse).lookup name = some v := by
  induction names generalizing i args with
  | nil => cases here
  | cons n names ih =>
    cases args with
    | nil => cases given
    | cons u args =>
      rw [List.zip_cons_cons, List.reverse_cons]
      cases i with
      | zero =>
        cases here
        cases given
        have absent : name ∉ names := last
        rw [lookup_append_of_none (lookup_zip_reverse_of_notMem absent)]
        simp
      | succ i =>
        rw [List.lookup_append, ih here given last]
        rfl

/-- What stands in front of the variables around a function once it is called. -/
theorem argumentEnv_eq (entered : argumentEnv names star args env = .ok inner) :
    inner = ((star.toList.map fun name => (name, Value.tuple (args.drop names.length)))
      ++ (names.zip args).reverse) ++ env := by
  unfold argumentEnv at entered
  dsimp only at entered
  split at entered
  · cases entered
  · cases entered
    cases star <;> rfl

theorem lookup_star_of_ne {name : String} {v : Value} (ne : star ≠ some name) :
    (star.toList.map fun n => (n, v)).lookup name = none := by
  cases star with
  | none => rfl
  | some n =>
    have other : (name == n) = false := by
      rw [beq_eq_false_iff_ne]
      rintro rfl
      exact ne rfl
    simp [List.lookup_cons, other]

theorem argumentEnv_own (entered : argumentEnv names star args env = .ok inner) {i : Nat}
    {name : String} {v : Value} (here : names[i]? = some name) (given : args[i]? = some v)
    (last : name ∉ names.drop (i + 1)) (ne : star ≠ some name) : inner.lookup name = some v := by
  rw [argumentEnv_eq entered, List.append_assoc, lookup_append_of_none (lookup_star_of_ne ne),
    List.lookup_append, lookup_zip_reverse here given last]
  rfl

theorem argumentEnv_other (entered : argumentEnv names star args env = .ok inner) {name : String}
    (absent : name ∉ names) (ne : star ≠ some name) : inner.lookup name = env.lookup name := by
  rw [argumentEnv_eq entered, List.append_assoc, lookup_append_of_none (lookup_star_of_ne ne),
    lookup_append_of_none (lookup_zip_reverse_of_notMem absent)]

theorem argumentEnv_within {c : Stage} (entered : argumentEnv names star args env = .ok inner)
    (around : ∀ b ∈ env, b.2.Within c) (hargs : ∀ a ∈ args, a.Within c) :
    ∀ b ∈ inner, b.2.Within c := by
  rw [argumentEnv_eq entered]
  intro b hb
  rcases List.mem_append.1 hb with hb | hb
  · rcases List.mem_append.1 hb with hb | hb
    · obtain ⟨n, -, rfl⟩ := List.mem_map.1 hb
      exact Value.within_tuple.2 fun v hv => hargs v (List.mem_of_mem_drop hv)
    · exact hargs _ (List.of_mem_zip (List.mem_reverse.1 hb)).2
  · exact around b hb

end

/-! ## What is called -/

section

variable {w : World} {f v : Value} {args : List Value} {ps : List Param} {depth : Nat} {a b : Trail}

/-- A function with a script runs it, even if it is supplied by others. -/
theorem callWithin_script {id : Nat} {names : List String} {star : Option String}
    {script : Script Value} {env : Env} (called : f.underlying = .function id names star script env)
    (run : runOn (Value.callWithin w depth f args) a = (.ok v, b)) :
    ∃ depth' inner, argumentEnv names star args env = .ok inner ∧
      runOn (script.run w (Value.callWithin w depth') inner) a = (.ok v, b) := by
  induction depth generalizing f with
  | zero => cases run
  | succ depth ih =>
    obtain ⟨_, _, here, run⟩ := bind_eq_ok run
    cases here
    cases f with
    | function =>
      cases called
      obtain ⟨inner, _, here, run⟩ := bind_eq_ok run
      obtain ⟨entered, rfl⟩ := outcome_of_run here
      exact ⟨depth, inner, entered, run⟩
    | supplied g =>
      exact ih (f := g) called run
    | _ => cases called

theorem within_underlying {c : Stage} (f : Value) (hf : f.Within c) : f.underlying.Within c := by
  cases f with
  | supplied g => exact within_underlying g (Value.within_supplied.1 hf)
  | _ => exact hf

theorem isCapture_of_run {c : Stage} {body : Expr Value} (hf : f.Within c)
    (params : List.Forall₂ Value.IsParam ps args)
    (ran : runOn (Value.callWithin w depth f args) a = (.ok v, b))
    (recorded : v.recorded.tree? (w.after b) = some body) : w.IsCapture f c.known ps body b := by
  cases scripted : f.underlying.isScripted with
  | false => exact .value scripted params ran recorded
  | true =>
    obtain ⟨id, names, star, script, env, called⟩ : ∃ id names star script env,
        f.underlying = .function id names star script env := by
      cases called : f.underlying with
      | function id names star script env => exact ⟨id, names, star, script, env, rfl⟩
      | _ => rw [called] at scripted; cases scripted
    obtain ⟨depth', inner, entered, ran⟩ := callWithin_script called ran
    have around := (Value.within_function.1 (called ▸ within_underlying f hf)).2.1
    refine .script called (fun i name p here at_i last ne => ?_)
      (fun name absent ne => argumentEnv_other entered absent ne) (fun name u p found is => ?_) ran
      recorded
    · obtain ⟨inside, rfl⟩ := List.getElem?_eq_some_iff.1 at_i
      have given : i < args.length := params.length_eq ▸ inside
      exact ⟨args[i], argumentEnv_own entered here (List.getElem?_eq_getElem given) last ne,
        params.get inside given⟩
    · obtain ⟨pos, mark, rfl⟩ := is
      have hu := Value.holds_lookup (R := c.realm) around found
      rcases Value.within_proxy.1 hu with hu | ⟨e, q, same, tree, -⟩
      · exact absurd hu Value.not_within_expr
      · cases same
        cases tree with
        | param mem => exact mem

end

/-! ## Capturing a lambda -/

/-- A stage of capturing inside a lambda over parameters. -/
def Stage.inside (c : Stage) (ps : List Param) : Stage := { c with known := ps ++ c.known }

/-- Whether calling values at hand leads to values at hand. -/
def Stage.Calls (c : Stage) (w : World) (call : Calling) : Prop :=
  ∀ t f args, (c.at t).Covers (w.after t) → f.Within (c.at t) → (∀ a ∈ args, a.Within (c.at t)) →
    Stays c w (fun d v => v.Within d) t (call f args)

section

variable {c : Stage} {w : World} {t : Trail} {f : Value} {ps : List Param} {depth : Nat}

theorem params_made {a b : Trail} {args : List Value}
    (run : runOn ((ps.map (Value.ofTree ∘ .param)).mapM Value.makeProxy) a = (.ok args, b)) :
    List.Forall₂ Value.IsParam ps args := by
  induction ps generalizing a args with
  | nil =>
    cases run
    exact .nil
  | cons p ps ih =>
    rw [List.map_cons, List.mapM_cons] at run
    obtain ⟨v, a₁, here, run⟩ := bind_eq_ok run
    obtain ⟨vs, a₂, next, run⟩ := bind_eq_ok run
    cases run
    rw [Function.comp, runOn_makeProxy] at here
    cases here
    exact .cons ⟨_, _, rfl⟩ (ih next)

theorem stays_params (covers : (c.at t).Covers (w.after t)) (known : ∀ p ∈ ps, p ∈ c.known) :
    Stays c w (fun d args => ∀ a ∈ args, a.Within d) t
      ((ps.map (Value.ofTree ∘ .param)).mapM Value.makeProxy) := by
  refine stays_mapM (P := fun d (v : Value) => v.Within d) covers
    (fun d e v more hv => hv.mono more) fun v hv u covers' more => ?_
  obtain ⟨p, hp, rfl⟩ := List.mem_map.1 hv
  exact Value.stays_makeProxy covers' (Value.operand_param (known p hp))

/-- A function is captured inside the lambda that it becomes. -/
theorem captured_inside (known : ∀ p ∈ ps, p ∈ c.known) (covers : (c.at t).Covers (w.after t))
    (calls : c.Calls w (Value.callWithin w depth)) (hf : f.Within (c.at t)) {e : Expr Value}
    {u : Trail} (run : runOn (captureLambda w (Value.callWithin w depth) f ps) t = (.ok e, u)) :
    (c.at u).Covers (w.after u) ∧ (c.at t).Extends (c.at u) ∧ ∃ args a v b,
      e = .lambda ps b ∧ b.Within (c.at u) ∧ List.Forall₂ Value.IsParam ps args
        ∧ runOn (Value.callWithin w depth f args) a = (.ok v, u)
        ∧ v.recorded.tree? (w.after u) = some b := by
  obtain ⟨_, _, args, a, v, b, proxied, called, written, rfl⟩ := captureLambda_steps run
  obtain ⟨covers₁, more₁, hargs⟩ := stays_params covers known args a proxied
  obtain ⟨covers₂, more₂, hv⟩ := calls a f args covers₁ (hf.mono more₁) hargs v u called
  have recorded : v.recorded.tree? (w.after u) = some b := by
    unfold Value.treeAt at written
    cases is : v.recorded.tree? (w.after u) with
    | none => rw [is] at written; cases written
    | some b' => rw [is] at written; cases written; rfl
  have within := Value.tree_within covers₂ (Value.recorded_operand hv) recorded
  exact ⟨covers₂, more₁.trans more₂, args, a, v, b, rfl, within, params_made proxied, called, recorded⟩

/-- Outside of a lambda its parameters are not known. -/
theorem extends_outside {d : Stage} (h : c.Extends (d.inside ps)) (known : d.known = c.known) :
    c.Extends d where
  base := h.base
  asked := h.asked
  top := h.top
  known := known ▸ List.Subset.refl _
  late _ hp other := absurd (known ▸ hp) other
  held := h.held

theorem covers_outside (h : (c.inside ps).Covers w) : c.Covers w :=
  { h with made := fun p hp => h.made p (List.mem_append_right ps hp) }

theorem lambda_within {b : Expr Value} (new : ∀ p ∈ ps, p ∉ c.known) (made : ∀ p ∈ ps, p.id < c.top)
    (asks : c.asked c.known ps b) (within : b.Within (c.inside ps)) :
    (Expr.lambda ps b).Within c :=
  .lambda new ⟨made, asks⟩ within

/-- The stage inside of a lambda over a new parameter extends the one around it. -/
theorem extends_fresh (c : Stage) (t : Trail) (name : String) :
    (c.at t).Extends ((c.inside [⟨t.supply + 1, name⟩]).at t.next) :=
  { extends_next c t with
    known := List.subset_append_right _ _
    late := fun p hp other => by
      rcases List.mem_append.1 hp with hp | hp
      · cases List.mem_singleton.1 hp
        exact Nat.le_refl _
      · exact absurd hp other }

theorem covers_fresh (covers : (c.at t).Covers (w.after t)) (name : String) :
    ((c.inside [⟨t.supply + 1, name⟩]).at t.next).Covers (w.after t.next) :=
  have later := covers_next covers
  { later with
    made := fun p hp => by
      rcases List.mem_append.1 hp with hp | hp
      · cases List.mem_singleton.1 hp
        exact Nat.lt_succ_self _
      · exact later.made p hp }

/-- A new parameter is not known yet, so that a lambda over it can be captured wherever that happens.
-/
theorem stays_captureElement (asks : c.asked = w.asked)
    (calls : ∀ d : Stage, d.asked = w.asked → d.Calls w (Value.callWithin w depth))
    (covers : (c.at t).Covers (w.after t)) (hf : f.Within (c.at t)) :
    Stays c w (fun d e => e.Within d) t (captureElement w (Value.callWithin w depth) f) := by
  refine stays_now ?_
  split
  · next is => exact stays_pure covers (Value.tree_within covers (.inl hf) is)
  · intro e u run
    obtain ⟨p, t', numbered, run⟩ := bind_eq_ok run
    obtain ⟨rfl, rfl⟩ : p = ⟨t.supply + 1, elementName⟩ ∧ t' = t.next := by
      cases numbered
      exact ⟨rfl, rfl⟩
    have enter := extends_fresh c t elementName
    have inside := covers_fresh covers elementName
    obtain ⟨covers', more, args, a, v, b, rfl, within, params, ran, recorded⟩ := captured_inside
      (by simp [Stage.inside]) inside (calls _ asks) (hf.mono enter) run
    have captured := isCapture_of_run hf params ran recorded
    have made := covers'.made _ (List.mem_append_left c.known (List.mem_singleton_self _))
    refine ⟨covers_outside covers', extends_outside (enter.trans more) rfl, lambda_within ?_ ?_ ?_
      within⟩
    · intro p hp known
      cases List.mem_singleton.1 hp
      exact absurd (covers.made _ known) (Nat.lt_irrefl _)
    · intro p hp
      cases List.mem_singleton.1 hp
      exact made
    · rw [show (c.at u).asked = w.asked from asks]
      exact ⟨f, depth, t.next, u, run, captured⟩

end

end EntityGraph
