import EntityGraph.Proofs.Script.Meaning
import EntityGraph.Proofs.Value.Mirrored
import EntityGraph.Proofs.Run

/-!
# What becomes of a script when it is captured

Each part of a captured script is recorded, or stays the constant that it is, or is a nested function
that is captured where it is used. Which of these it is can be told from the script: this module runs
scripts on kinds instead of values. A script has no kind if capturing it does more than recording,
that is if it calls a constant, reads a member of one, computes with constants only, reads a member
of a proxy that is not recorded, or uses a nested function as a value.

Two restrictions are less obvious. A nested function is called with names only, that is with variables
and constants, since its body is recorded with the argument in the place of the parameter, and what
stands there is computed each time. And a comparison has plain data on its left if it has a constant
there, since it is recorded from the other side.
-/

namespace EntityGraph

/-- What becomes of a part of a script. -/
inductive Kind where
  /-- It is recorded, possibly as the reading of a member. -/
  | recorded (reads : Bool)
  | constant (v : Value)
  /-- It is a nested function, with the kinds of the variables around it. -/
  | function (params : List String) (star : Option String) (body : Script Value)
      (env : List (String × Kind))

/-- The kinds of variables. -/
abbrev Kinds := List (String × Kind)

namespace Kind

/-- Whether something is part of an expression when it is recorded. -/
def isOperand : Kind → Bool
  | recorded _ | constant _ => true
  | function .. => false

/-- Whether something is the missing value. -/
def isMissing : Kind → Bool
  | constant v => v.isNone
  | _ => false

/-- The kinds of the variables inside a function that is called with as many arguments as it has
parameters. -/
def argumentKinds (params : List String) (star : Option String) (args : List Kind) (env : Kinds) :
    Kinds :=
  star.toList.map (fun name => (name, constant (.tuple []))) ++ (params.zip args).reverse ++ env

end Kind

/-- Whether a value is neither a proxy nor an expression. -/
def Value.isConstant : Value → Bool
  | proxy .. | expr .. => false
  | _ => true

/-- Whether reading an attribute of a proxy is recorded: the proxy does not have it itself, and it is
none of the host's protocols. -/
def isMemberName (name : String) : Bool :=
  !Value.isProtocol name && !(["_expression", "_binary", "_reflected_binary"].contains name)

/-- Whether an operator with a constant on its left is recorded as it stands, or from the other side
without a difference. -/
def ScriptOp.records (op : ScriptOp) (v : Value) : Bool :=
  match op, v with
  | .mod, .str _ | .mod, .bytes _ => false
  | op, v => op.exchanged?.isNone || v.isData

namespace Script

/-- Whether a script is a variable, a constant or a nested function. -/
def isName : Script Value → Bool
  | var _ | lit _ | const _ | fn .. => true
  | _ => false

/-- The name of the attribute that a script reads. -/
def readName? : Script Value → Option String
  | attr _ n => some n
  | _ => none

/-- Whether the arguments of a call of a member are recorded: as functions of one element if the
member is named like an operation that takes one, and as operands otherwise. -/
def argumentsFit (apply : Kind → List Kind → Option Kind) (name : String) (ks : List Kind) : Bool :=
  if (SeqOp.ofSymbol? name).any SeqOp.takesFunction then
    ks.all fun k => k.isMissing || (apply k [.recorded false]).any Kind.isOperand
  else ks.all Kind.isOperand

mutual

/-- The kind of a script. -/
def kind (apply : Kind → List Kind → Option Kind) : Script Value → Kinds → Option Kind
  | var n, env => env.lookup n
  | lit v, _ => if v.isConstant then some (.constant v) else none
  | const _, _ => some (.recorded false)
  | attr t n, env =>
    match t.kind apply env with
    | some (.recorded _) => if isMemberName n then some (.recorded true) else none
    | _ => none
  | item t k, env =>
    match t.kind apply env, k.kind apply env with
    | some (.recorded _), some k => if k.isOperand then some (.recorded false) else none
    | _, _ => none
  | call f as, env =>
    match f.kind apply env, kindList apply as env with
    | some (.recorded reads), some ks =>
      match f.readName? with
      | some n => if argumentsFit apply n ks then some (.recorded false) else none
      | none => if !reads && ks.all Kind.isOperand then some (.recorded false) else none
    | some (.function ps star body around), some ks =>
      if as.all isName then apply (.function ps star body around) ks else none
    | _, _ => none
  | bin op l r, env =>
    match l.kind apply env, r.kind apply env with
    | some (.recorded _), some k => if k.isOperand then some (.recorded false) else none
    | some (.constant v), some (.recorded _) =>
      if op.records v then some (.recorded false) else none
    | _, _ => none
  | inv e, env | neg e, env =>
    match e.kind apply env with
    | some (.recorded _) => some (.recorded false)
    | _ => none
  | fn ps star body, env => some (.function ps star body env)
  | _, _ => none

/-- The kinds of several scripts. -/
def kindList (apply : Kind → List Kind → Option Kind) : List (Script Value) → Kinds →
    Option (List Kind)
  | [], _ => some []
  | e :: es, env =>
    match e.kind apply env, kindList apply es env with
    | some k, some ks => some (k :: ks)
    | _, _ => none

end

theorem kindList_cons {apply : Kind → List Kind → Option Kind} {e : Script Value}
    {es : List (Script Value)} {env : Kinds} {ks : List Kind}
    (h : kindList apply (e :: es) env = some ks) :
    ∃ k rest, ks = k :: rest ∧ e.kind apply env = some k ∧ kindList apply es env = some rest := by
  rw [kindList] at h
  split at h
  · next k rest first later =>
    cases h
    exact ⟨k, rest, rfl, first, later⟩
  · cases h

end Script

/-- The kind of what a nested function gives, with a bound on how deep such functions are called. -/
def Kind.applyWithin : Nat → Kind → List Kind → Option Kind
  | depth + 1, function ps star body env, ks =>
    if ks.length == ps.length then
      body.kind (applyWithin depth) (argumentKinds ps star ks env)
    else none
  | _, _, _ => none

/-- Whether all that capturing a function does is recording. -/
def Script.isRecorded (depth : Nat) (params : List String) (star : Option String)
    (body : Script Value) : Bool :=
  (Kind.applyWithin depth (.function params star body [])
    (params.map fun _ => .recorded false)).any Kind.isOperand

end EntityGraph

/-!
## Variables of captured scripts

While a script is captured, its variables are proxies of parameters or of literals, constants, and
nested functions with variables of their own. When it runs on values they mean the values of these
parameters, the same constants, and the same nested functions. The relation of the one to the other is
the invariant that capturing and running keep; what it demands of a parameter and its value is left
open, so that it serves before there are any values as well.
-/

namespace EntityGraph

mutual

/-- Whether something of a kind stands for what a part of a script means. Proxies are of expressions
that were made after all those with a number up to `made`. -/
inductive StandsFor (made : Nat) (R : Param → Value → Prop) : Kind → Value → Meaning → Prop
  | param {p : Param} {v : Value} {pos : Position} {mark : Nat} (here : R p v)
      (late : made < pos.root) :
      StandsFor made R (.recorded false) (.proxy (.expr (.param p) pos) mark) (.value v)
  | literal {v : Value} {pos : Position} {mark : Nat} (late : made < pos.root) :
      StandsFor made R (.recorded false) (.proxy (.expr (.lit v) pos) mark) (.value v)
  | constant {v : Value} (plain : v.isConstant = true) : StandsFor made R (.constant v) v (.value v)
  | function {id : Nat} {ps : List String} {star : Option String} {body : Script Value}
      {kinds : Kinds} {env : Env} {means : Meanings} (around : StandAll made R kinds env means) :
      StandsFor made R (.function ps star body kinds) (.function id ps star body env)
        (.function ps star body means)

/-- Whether variables of these kinds stand for what they mean. -/
inductive StandAll (made : Nat) (R : Param → Value → Prop) : Kinds → Env → Meanings → Prop
  | nil : StandAll made R [] [] []
  | cons {name : String} {k : Kind} {v : Value} {m : Meaning} {kinds : Kinds} {env : Env}
      {means : Meanings} (first : StandsFor made R k v m) (rest : StandAll made R kinds env means) :
      StandAll made R ((name, k) :: kinds) ((name, v) :: env) ((name, m) :: means)

end

/-- Whether arguments of these kinds stand for what they mean. -/
inductive StandEach (made : Nat) (R : Param → Value → Prop) :
    List Kind → List Value → List Meaning → Prop
  | nil : StandEach made R [] [] []
  | cons {k : Kind} {v : Value} {m : Meaning} {ks : List Kind} {vs : List Value}
      {ms : List Meaning} (first : StandsFor made R k v m) (rest : StandEach made R ks vs ms) :
      StandEach made R (k :: ks) (v :: vs) (m :: ms)

variable {made : Nat} {R R' : Param → Value → Prop}

mutual

theorem StandsFor.mono (sub : ∀ p v, R p v → R' p v) {k : Kind} {v : Value} {m : Meaning}
    (h : StandsFor made R k v m) : StandsFor made R' k v m := by
  cases h with
  | param here late => exact .param (sub _ _ here) late
  | literal late => exact .literal late
  | constant plain => exact .constant plain
  | function around => exact .function (around.mono sub)

theorem StandAll.mono (sub : ∀ p v, R p v → R' p v) {kinds : Kinds} {env : Env} {means : Meanings}
    (h : StandAll made R kinds env means) : StandAll made R' kinds env means := by
  cases h with
  | nil => exact .nil
  | cons first rest => exact .cons (first.mono sub) (rest.mono sub)

end

theorem StandAll.lookup {kinds : Kinds} {env : Env} {means : Meanings}
    (h : StandAll made R kinds env means) {name : String} {k : Kind}
    (found : kinds.lookup name = some k) :
    ∃ v m, env.lookup name = some v ∧ means.lookup name = some m ∧ StandsFor made R k v m := by
  induction kinds generalizing env means with
  | nil => cases found
  | cons _ kinds ih =>
    cases h with
    | @cons name' k' v m _ env means first rest =>
      rw [List.lookup_cons] at found ⊢
      rw [List.lookup_cons]
      cases same : name == name' with
      | true =>
        rw [same] at found
        cases found
        exact ⟨v, m, rfl, rfl, first⟩
      | false =>
        rw [same] at found
        exact ih rest found

theorem StandAll.append {kinds kinds' : Kinds} {env env' : Env} {means means' : Meanings}
    (h : StandAll made R kinds env means) (h' : StandAll made R kinds' env' means') :
    StandAll made R (kinds ++ kinds') (env ++ env') (means ++ means') := by
  induction kinds generalizing env means with
  | nil =>
    cases h
    exact h'
  | cons _ kinds ih =>
    cases h with
    | cons first rest => exact .cons first (ih rest)

theorem StandAll.reverse {kinds : Kinds} {env : Env} {means : Meanings}
    (h : StandAll made R kinds env means) :
    StandAll made R kinds.reverse env.reverse means.reverse := by
  induction kinds generalizing env means with
  | nil =>
    cases h
    exact .nil
  | cons _ kinds ih =>
    cases h with
    | cons first rest =>
      rw [List.reverse_cons, List.reverse_cons, List.reverse_cons]
      exact (ih rest).append (.cons first .nil)

theorem StandEach.lengths {ks : List Kind} {vs : List Value} {ms : List Meaning}
    (h : StandEach made R ks vs ms) : vs.length = ks.length ∧ ms.length = ks.length := by
  induction h with
  | nil => exact ⟨rfl, rfl⟩
  | cons _ _ ih => exact ⟨congrArg (· + 1) ih.1, congrArg (· + 1) ih.2⟩

theorem StandEach.zip {ks : List Kind} {vs : List Value} {ms : List Meaning}
    (h : StandEach made R ks vs ms) (names : List String) :
    StandAll made R (names.zip ks) (names.zip vs) (names.zip ms) := by
  induction h generalizing names with
  | nil =>
    simp only [List.zip_nil_right]
    exact .nil
  | cons first _ ih =>
    cases names with
    | nil => exact .nil
    | cons name names => exact .cons first (ih names)

/-! ## Inside functions -/

/-- A function with as many arguments as parameters is entered in the same way on both sides. -/
theorem StandEach.enter {ps : List String} {star : Option String} {ks : List Kind} {vs : List Value}
    {ms : List Meaning} {kinds : Kinds} {env : Env} {means : Meanings}
    (args : StandEach made R ks vs ms) (around : StandAll made R kinds env means)
    (full : ks.length = ps.length) :
    ∃ env' means', argumentEnv ps star vs env = .ok env'
      ∧ Meaning.argumentVariables ps star ms means = pure means'
      ∧ StandAll made R (Kind.argumentKinds ps star ks kinds) env' means' := by
  obtain ⟨values, meanings⟩ := args.lengths
  have further : StandAll made R (star.toList.map fun name => (name, Kind.constant (.tuple [])))
      (star.toList.map fun name => (name, Value.tuple []))
      (star.toList.map fun name => (name, Meaning.value (.tuple []))) := by
    cases star with
    | none => exact .nil
    | some name => exact .cons (.constant rfl) .nil
  have inside := (further.append (args.zip ps).reverse).append around
  refine ⟨_, _, ?_, ?_, inside⟩
  · unfold argumentEnv
    have none_left : vs.drop ps.length = [] := by
      rw [List.drop_eq_nil_iff]
      omega
    simp only [none_left]
    rw [if_neg (by simp; omega)]
    cases star <;> rfl
  · unfold Meaning.argumentVariables
    have none_left : ms.drop ps.length = [] := by
      rw [List.drop_eq_nil_iff]
      omega
    simp only [none_left]
    rw [if_neg (by simp; omega)]
    cases star <;> rfl

end EntityGraph
