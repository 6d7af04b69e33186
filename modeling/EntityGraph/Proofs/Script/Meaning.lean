import EntityGraph.Script.Run
import EntityGraph.Proofs.Run

/-!
# What scripts mean

A function of the application is called with proxies when it is captured, and the operators, members
and calls in it are recorded. This module says what the same script means when it is read as it
stands and runs on values: operators are those of expressions, what is read of the missing value is
missing, and calling a member that is named like an operation on sequences is this operation.

A nested function keeps the variables around it. It is no value by itself; it becomes one where a
value is needed, such as the argument of a method.
-/

namespace EntityGraph

/-- What a part of a script means: a value, or a nested function with the variables around it. -/
inductive Meaning where
  | value (v : Value)
  | function (params : List String) (star : Option String) (body : Script Value)
      (env : List (String × Meaning))

/-- What variables mean. -/
abbrev Meanings := List (String × Meaning)

namespace Meaning

mutual

/-- The value of a part of a script. A nested function becomes a function of the application. -/
def settle : Meaning → Making Value
  | value v => return v
  | function ps star body env => do
    let env ← settleVariables env
    return .function (← Making.newNumber) ps star body env

/-- The values of variables. -/
def settleVariables : List (String × Meaning) → Making Env
  | [] => return []
  | (n, m) :: env => do return (n, ← m.settle) :: (← settleVariables env)

end

/-- Whether something is the missing value. -/
def isMissing : Meaning → Bool
  | value v => v.isNone
  | function .. => false

/-- The variables inside a function: its arguments by place, then all further ones as a tuple if it
takes them, then the variables around it. -/
def argumentVariables (params : List String) (star : Option String) (args : List Meaning)
    (env : Meanings) : Making Meanings := do
  let rest := args.drop params.length
  if args.length < params.length || (star.isNone && !rest.isEmpty) then
    throw (.wrongType ("takes " ++ toString params.length ++ " positional arguments but "
      ++ toString args.length ++ " were given"))
  else
    let further ← star.toList.mapM fun name => do
      return (name, value (.tuple (← rest.mapM settle)))
    return further ++ (params.zip args).reverse ++ env

end Meaning

namespace Script

/-- What calling a part of a script gives. -/
abbrev Applying := Meaning → List Meaning → Making Meaning

/-- What a member of a value is; the missing value has the missing one for each. -/
def readMember (w : World) (v : Value) (name : String) : Making Value := do
  if v.isNone then return .none else Value.own (Value.getAttr (← Making.now w) v name)

/-- What a value holds at a key. Nothing is looked for in the missing value. -/
def readKey (w : World) (v : Value) (key : Making Value) : Making Value := do
  if v.isNone then return .none
  else do
    let k ← key
    Value.own (Value.readItem (← Making.now w) v k)

/-- An operator on two operands. The right one of `&` and `|` only counts if the left one does not
decide. -/
def combine (w : World) (op : BinaryOp) (v : Value) (right : Making Value) : Making Value := do
  match op with
  | .and =>
    if ← Value.truth (← Making.now w) v then do
      let u ← right
      return ← BinaryOp.apply (← Making.now w) .and v u
    else return .bool false
  | .or =>
    if ← Value.truth (← Making.now w) v then return .bool true
    else do
      let u ← right
      return ← BinaryOp.apply (← Making.now w) .or v u
  | op => do
    let u ← right
    Value.own (op.apply (← Making.now w) v u)

/-- An operation on the elements of a sequence. Its function is the first argument that is there; the
count of elements is its first argument. -/
def overSequence (w : World) (apply : Applying) (op : SeqOp) (v : Value)
    (args : Making (List Meaning)) : Making Value := do
  if v.isNone then
    if op.passesMissing then return .none else throw (.missingSequence op .null)
  else do
    let vs ← Value.elements (← Making.now w) v
    let ms ← args
    if op.takesFunction then
      let function := (ms.filter (!·.isMissing)).head?
      Eval.applyFunction w op .null
        (function.map fun m x => do (← apply m [.value x]).settle) vs
    else do
      let count ← (ms.headD (.value .none)).settle
      return ← Eval.slice (← Making.now w) op vs count

/-- Calling a member of a value. -/
def callMember (w : World) (apply : Applying) (v : Value) (name : String)
    (args : Making (List Meaning)) : Making Value := do
  match SeqOp.ofSymbol? name with
  | some op => overSequence w apply op v args
  | none =>
    match membership? name with
    | some op => combine w op v do
      match ← args with
      | [m] => m.settle
      | _ => throw (.membershipArgs name [])
    | none =>
      if v.isNone then return .none
      else do
        let vs ← (← args).mapM Meaning.settle
        Value.call w (← Value.own (Value.getAttr (← Making.now w) v name)) vs

mutual

/-- What a script means. Its parts that cannot be recorded mean nothing. -/
def meaning (w : World) (apply : Applying) : Script Value → Meanings → Making Meaning
  | var n, env =>
    match env.lookup n with
    | some m => return m
    | none => throw (.host .unboundName ("name '" ++ n ++ "' is not defined"))
  | lit v, _ => return .value v
  | const v, _ => return .value v
  | attr t n, env => do
    let v ← (← t.meaning w apply env).settle
    return .value (← readMember w v n)
  | item t k, env => do
    let v ← (← t.meaning w apply env).settle
    return .value (← readKey w v do (← k.meaning w apply env).settle)
  | call (attr t n) as, env => do
    let v ← (← t.meaning w apply env).settle
    return .value (← callMember w apply v n (meaningList w apply as env))
  | call f as, env => do
    let m ← f.meaning w apply env
    apply m (← meaningList w apply as env)
  | bin op l r, env => do
    let v ← (← l.meaning w apply env).settle
    return .value (← combine w op.recorded v do (← r.meaning w apply env).settle)
  | inv e, env => do
    let v ← (← e.meaning w apply env).settle
    return .value (← Value.own (UnaryOp.not.apply (← Making.now w) v))
  | neg e, env => do
    let v ← (← e.meaning w apply env).settle
    return .value (← Value.own (UnaryOp.neg.apply (← Making.now w) v))
  | fn ps star body, env => return .function ps star body env
  | _, _ => throw (.wrongType "this is not recorded")

/-- What several scripts mean, one after the other. -/
def meaningList (w : World) (apply : Applying) : List (Script Value) → Meanings →
    Making (List Meaning)
  | [], _ => return []
  | e :: es, env => do
    let m ← e.meaning w apply env
    return m :: (← meaningList w apply es env)

end

end Script

/-- What calling a part of a script gives, with a bound on how deep nested functions are called. -/
def Meaning.applyWithin (w : World) : Nat → Script.Applying
  | 0, function .., _ => throw (.host .tooDeep "maximum recursion depth exceeded")
  | depth + 1, function ps star body env, ms => do
    body.meaning w (applyWithin w depth) (← argumentVariables ps star ms env)
  | _, value f, ms => do return .value (← Value.call w f (← ms.mapM settle))

/-- What a function of the application gives for values if its script is read as it stands. -/
def World.means (w : World) (depth : Nat) (params : List String) (star : Option String)
    (body : Script Value) (vs : List Value) : Making Value := do
  (← Meaning.applyWithin w depth (.function params star body []) (vs.map .value)).settle

end EntityGraph

/-!
## Computations that follow others

One computation follows another if it gives the same result and leaves behind the same wherever the
other one succeeds. What a script means is followed by the evaluation of what was captured of it,
part by part: an operation of expressions follows the same operation of scripts if its operands do.
-/

namespace EntityGraph

variable {α β : Type}

/-- Whether a computation does what another one does wherever that succeeds. -/
def Follows (x y : Making α) : Prop :=
  ∀ c a d, runOn x c = (.ok a, d) → runOn y c = (.ok a, d)

theorem follows_refl (x : Making α) : Follows x x := fun _ _ _ run => run

theorem follows_trans {x y z : Making α} (h : Follows x y) (h' : Follows y z) : Follows x z :=
  fun c a d run => h' c a d (h c a d run)

theorem follows_bind {x y : Making α} {f g : α → Making β} (first : Follows x y)
    (rest : ∀ a, Follows (f a) (g a)) : Follows (x >>= f) (y >>= g) := by
  intro c b d run
  obtain ⟨a, m, run, later⟩ := bind_eq_ok run
  rw [runOn_bind_ok (first c a m run)]
  exact rest a m b d later

theorem follows_ite {p : Prop} [Decidable p] {x y x' y' : Making α} (yes : p → Follows x x')
    (no : ¬p → Follows y y') : Follows (if p then x else y) (if p then x' else y') := by
  split
  · next h => exact yes h
  · next h => exact no h

/-- What fails is followed by everything. -/
theorem follows_of_throw {f : Fault} (x : Making α) : Follows (throw f) x := by
  intro c a d run
  cases run

theorem follows_mapM {f g : α → Making β} (as : List α) (each : ∀ a, Follows (f a) (g a)) :
    Follows (as.mapM f) (as.mapM g) := by
  induction as with
  | nil => exact follows_refl _
  | cons a as ih =>
    rw [List.mapM_cons, List.mapM_cons]
    exact follows_bind (each a) fun b => follows_bind ih fun bs => follows_refl _

/-! ## Operations of expressions -/

namespace Script

variable (w : World)

theorem follows_readKey (v : Value) {key key' : Making Value} (h : Follows key key') :
    Follows (readKey w v key) (readKey w v key') := by
  unfold readKey
  exact follows_ite (fun _ => follows_refl _) fun _ => follows_bind h fun k => follows_refl _

theorem follows_combine (op : BinaryOp) (v : Value) {right right' : Making Value}
    (h : Follows right right') : Follows (combine w op v right) (combine w op v right') := by
  have truth (x y x' y' : Making Value) (yes : Follows x x') (no : Follows y y') :
      Follows (do if ← Value.truth (← Making.now w) v then x else y)
        (do if ← Value.truth (← Making.now w) v then x' else y') := by
    refine follows_bind (follows_refl _) fun now => follows_bind (follows_refl _) fun b => ?_
    exact follows_ite (fun _ => yes) fun _ => no
  cases op with
  | and => exact truth _ _ _ _ (follows_bind h fun u => follows_refl _) (follows_refl _)
  | or => exact truth _ _ _ _ (follows_refl _) (follows_bind h fun u => follows_refl _)
  | _ => exact follows_bind h fun u => follows_refl _

end Script

namespace Eval

variable {w : World}

theorem follows_keep {test test' : Value → Making Value} (h : ∀ x, Follows (test x) (test' x))
    (vs : List Value) : Follows (keep w test vs) (keep w test' vs) := by
  induction vs with
  | nil => exact follows_refl _
  | cons v vs ih =>
    rw [keep, keep]
    refine follows_bind (h v) fun u => follows_bind (follows_refl _) fun now => ?_
    refine follows_bind (follows_refl _) fun b => follows_ite (fun _ => ?_) fun _ => ih
    exact follows_bind ih fun us => follows_refl _

theorem follows_sorted {key key' : Value → Making Value} (h : ∀ x, Follows (key x) (key' x))
    (down : Bool) (vs : List Value) : Follows (sorted w key down vs) (sorted w key' down vs) := by
  unfold sorted
  refine follows_bind (follows_mapM vs fun v => ?_) fun keyed => follows_refl _
  exact follows_bind (h v) fun k => follows_refl _

/-- The expression of an operation only matters to its faults. -/
theorem conclude_of_ok {op : SeqOp} {self : Expr Value} {vs : List Value} {v : Value}
    (h : conclude op self vs = .ok v) (other : Expr Value) : conclude op other vs = .ok v := by
  cases op with
  | first =>
    cases vs with
    | nil => cases h
    | cons u us => exact h
  | _ => exact h

theorem follows_conclude (op : SeqOp) (self other : Expr Value) (vs : List Value) :
    Follows (liftM (conclude op self vs)) (liftM (conclude op other vs)) := by
  intro c v d run
  rw [runOn_outcome] at run ⊢
  obtain ⟨ok, rfl⟩ := Prod.ext_iff.1 run
  exact Prod.ext (conclude_of_ok ok other) rfl

theorem follows_applyFunction (op : SeqOp) (self other : Expr Value)
    {f g : Option (Value → Making Value)}
    (h : Option.Rel (fun f g => ∀ x, Follows (f x) (g x)) f g) (vs : List Value) :
    Follows (applyFunction w op self f vs) (applyFunction w op other g vs) := by
  have concluded := follows_conclude op self other
  cases h with
  | none => cases op <;> exact concluded vs
  | some h =>
    cases op with
    | select => exact follows_bind (follows_mapM vs h) fun us => follows_refl _
    | orderBy => exact follows_sorted h false vs
    | orderByDescending => exact follows_sorted h true vs
    | _ => exact follows_bind (follows_keep h vs) concluded

end Eval

end EntityGraph
