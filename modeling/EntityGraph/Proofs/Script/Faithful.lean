import EntityGraph.Proofs.Eval.Renaming
import EntityGraph.Proofs.Script.Called

/-!
# Capturing is faithful

A function of an application that does nothing but record what it is given can be read in two ways:
as it stands, on values, and as the expression that it is captured as. This module shows that the
expression gives every value that the function gives.

The induction goes over scripts, for one number of calls that may still be nested, and over that
number, since a nested function that is called has a body of its own.
-/

namespace EntityGraph

namespace Script

variable {w : World} {base : Trail} {d n m : Nat}

/-- What is not recorded has no kind, so nothing is claimed of it. -/
theorem faithful_of_no_kind {t : Script Value}
    (none : ∀ (apply : Kind → List Kind → Option Kind) kinds, t.kind apply kinds = none) :
    Faithful w base d n m t := by
  intro top kinds k env a r b _ _ _ kind _
  rw [none] at kind
  cases kind

mutual

theorem faithful (settled : base.IsSettled) (calls : ∀ d' ≤ d, CallsFaithful w base d' n m)
    (t : Script Value) : Faithful w base d n m t := by
  cases t with
  | var | lit | const | fn => exact faithful_name rfl
  | attr t name => exact faithful_attr settled (faithful settled calls t) name
  | item t key =>
    exact faithful_item settled (faithful settled calls t) (faithful settled calls key)
  | bin op l r => exact faithful_bin settled op (faithful settled calls l) (faithful settled calls r)
  | inv t => exact faithful_unary settled .not (faithful settled calls t)
  | neg t => exact faithful_unary settled .neg (faithful settled calls t)
  | call f as =>
    have each := faithful_each settled calls as
    cases f with
    | attr t name =>
      exact faithful_call_member settled (fun d' less => calls d' (Nat.le_of_lt less))
        (faithful settled calls t) each name
    | _ => exact faithful_call settled calls rfl (faithful settled calls _) each
  | _ => exact faithful_of_no_kind fun apply kinds => rfl

theorem faithful_each (settled : base.IsSettled) (calls : ∀ d' ≤ d, CallsFaithful w base d' n m)
    (as : List (Script Value)) : ∀ t ∈ as, Faithful w base d n m t := by
  cases as with
  | nil =>
    rintro t ⟨⟩
  | cons a as =>
    exact List.forall_mem_cons.2 ⟨faithful settled calls a, faithful_each settled calls as⟩

end

end Script

theorem callsFaithful {w : World} {base : Trail} (settled : base.IsSettled) (d n m : Nat) :
    CallsFaithful w base d n m := by
  induction d using Nat.strongRecOn generalizing n m with
  | ind d ih =>
    cases d with
    | zero => exact callsFaithful_zero w base n m
    | succ d =>
      refine callsFaithful_succ (fun n m t => Script.faithful settled ?_ t) n m
      exact fun d' le => ih d' (Nat.lt_succ_of_le le) n m

/-! ## Whole functions -/

/-- A scope binds distinct parameters to their values. -/
theorem binds_bindList {top : Nat} {ps : List Param} {vs : List Value}
    (distinct : Expr.areDistinct ps = true) (given : ∀ p ∈ ps, p.id ≤ top)
    (len : vs.length = ps.length) (s : Scope Value) :
    List.Forall₂ (Binds (s.bindList ps vs) top) ps vs := by
  induction ps generalizing vs s with
  | nil =>
    rw [List.length_nil, List.length_eq_zero_iff] at len
    rw [len]
    exact .nil
  | cons p ps ih =>
    obtain ⟨v, vs, rfl⟩ := List.exists_cons_of_length_eq_add_one len
    rw [Expr.areDistinct, Bool.and_eq_true, Bool.not_eq_true'] at distinct
    rw [List.forall_mem_cons] at given
    have once : p ∉ ps := by simpa using distinct.1
    refine .cons ⟨given.1, ?_⟩ (ih distinct.2 given.2 (Nat.succ.inj len) (.bind p v s))
    rw [Scope.bindList, Scope.lookup?_bindList_of_notMem once, Scope.lookup?, beq_self_eq_true]
    rfl

/-- The lambda that a function was captured as gives every value that the function gives if its
script is read as it stands, and leaves the same behind. -/
theorem World.capture_faithful {w : World} {id n m : Nat} {names : List String}
    {star : Option String} {body : Script Value} {ps : List Param} {a b c d : Trail}
    {e : Expr Value} {vs : List Value} {v : Value} (settled : a.IsSettled)
    (given : ∀ p ∈ ps, p.id ≤ a.supply) (recorded : Script.isRecorded n names star body = true)
    (captured : runOn (w.capture (.function id names star body []) ps) a = (.ok e, b))
    (len : vs.length = ps.length)
    (direct : runOn (w.means m names star body vs) c = (.ok v, d)) :
    runOn (e.applyLambda w.host vs) c = (.ok v, d) := by
  have arity : names.length = ps.length := Except.ok.inj (captureLambda_steps captured).1
  have known (R : Param → Value → Prop) : StandsFor a.supply R (.function names star body [])
      (.function id names star body []) (.function names star body []) := .function .nil
  have kind : (Kind.applyWithin n (.function names star body [])
      (ps.map fun _ => .recorded false)).any Kind.isOperand = true := by
    unfold Script.isRecorded at recorded
    rwa [List.map_const', ← arity, ← List.map_const']
  obtain ⟨_, e', rfl, distinct, yields⟩ := captured_lambda settled (callsFaithful settled _ n m)
    (Trail.since_refl a) (Nat.le_refl _) given ⟨_, known _⟩ kind captured
  have bound := binds_bindList distinct given len .empty
  have opened : Scope.empty.bindAll ps vs = .ok (Scope.empty.bindList ps vs) := by
    unfold Scope.bindAll Scope.bindAll?
    rw [len, beq_self_eq_true]
    rfl
  rw [Expr.applyLambda, Expr.applyTo, opened]
  exact (yields _ _ vs (known _) bound).settled c v d direct

/-- A function whose parts are all recorded: a nested function that uses a variable around it, a
comparison from the other side, and operations on sequences. -/
theorem World.sample_capture_faithful :
    let within : Script Value := .fn ["x"] none
      (.bin .and (.bin .lt (.lit (.int 2)) (.var "x")) (.bin .le (.var "x") (.var "most")))
    let body : Script Value :=
      .call (.attr (.call (.attr (.var "xs") "where") [within]) "count") []
    let function := .function 0 ["xs", "most"] none body []
    let w : World := default
    let a : Trail := ⟨2, [], []⟩
    ∃ e b, a.IsSettled ∧ runOn (w.capture function [⟨1, "xs"⟩, ⟨2, "most"⟩]) a = (.ok e, b)
      ∧ runOn (e.applyLambda w.host [.list [.int 1, .int 3, .int 5], .int 4]) b
        = (.ok (.int 1), b) := by
  intro within body function w a
  have settled : a.IsSettled := by
    intro p o among
    cases among
  have succeeds : (runOn (w.capture function [⟨1, "xs"⟩, ⟨2, "most"⟩]) a).1.isOk = true := by
    decide +kernel
  cases run : runOn (w.capture function [⟨1, "xs"⟩, ⟨2, "most"⟩]) a with
  | mk r b =>
    rw [run] at succeeds
    cases r with
    | error => cases succeeds
    | ok e =>
      have recorded : Script.isRecorded 2 ["xs", "most"] none body = true := by decide +kernel
      exact ⟨e, b, settled, rfl, World.capture_faithful settled (by decide) recorded run rfl
        (m := 2) rfl⟩

/-! ## Functions that do more than recording -/

namespace World

/-- Whether a function is captured and gives a value as it stands, but its lambda does not give this
value. -/
def Distorts (w : World) (t : Trail) (names : List String) (body : Script Value)
    (vs : List Value) : Prop :=
  ∃ e b v d,
    runOn (w.capture (.function 0 names none body []) (names.mapIdx fun i n => ⟨i, n⟩)) t = (.ok e, b)
      ∧ runOn (w.means 2 names none body vs) b = (.ok v, d)
      ∧ ∀ d', runOn (e.applyLambda w.host vs) b ≠ (.ok v, d')

/-- What a value is told apart by here: a function by its number, texts and bytes by their characters,
everything else as it is shown. -/
def mark (w : World) (v : Value) : String :=
  match v with
  | .function id .. => toString id
  | .str s => s
  | .bytes bs => String.ofList (bs.map fun b => Char.ofNat b.toNat)
  | v =>
    match v.tellShown w with
    | .ok s => s
    | .error _ => ""

/-- Whether a function is seen to be distorted. -/
def showsDistortion (w : World) (t : Trail) (names : List String) (body : Script Value)
    (vs : List Value) : Bool :=
  match runOn (w.capture (.function 0 names none body []) (names.mapIdx fun i n => ⟨i, n⟩)) t with
  | (.ok e, b) =>
    match (runOn (w.means 2 names none body vs) b).1, (runOn (e.applyLambda w.host vs) b).1 with
    | .ok v, .ok u => w.mark v != w.mark u
    | .ok _, .error _ => true
    | .error _, _ => false
  | (.error _, _) => false

theorem distorts_of_shown {w : World} {t : Trail} {names : List String} {body : Script Value}
    {vs : List Value} (h : w.showsDistortion t names body vs = true) : w.Distorts t names body vs := by
  unfold showsDistortion at h
  split at h
  · next e b captured =>
    cases direct : runOn (w.means 2 names none body vs) b with
    | mk r d =>
      cases r with
      | error => simp [direct] at h
      | ok v =>
        refine ⟨e, b, v, d, captured, direct, fun d' evaluated => ?_⟩
        simp [direct, evaluated] at h
  · cases h

/-- Each of these functions does something that is not recorded as it means: it reads a protocol, calls
a constant with what it was given, reads a member of the missing value, reads an item of a constant,
puts a computed argument in the place of a parameter, fills in bytes, passes a nested function on,
gives one back, hands a class to an operation on a sequence, calls what a nested function read, or has
a dictionary on the left of a comparison. -/
theorem unrecorded_distorted :
    let x : Script Value := .var "x"
    let y : Script Value := .var "y"
    let t : Trail := ⟨1, [(.made 1, ⟨.builtin .object, [("count", .type (.builtin .int))]⟩)], []⟩
    let entry : Value := .proxy (.ofTree .null) 0
    ∀ c ∈ [(["x"], .attr x "__class__", [.int 5]),
        (["x"], .call (.lit (.type (.builtin .str))) [x], [.int 5]),
        (["x"], .attr (.lit .none) "__class__", [.int 5]),
        (["x"], .item (.lit (.type (.builtin .list))) x, [.type (.builtin .int)]),
        (["x"], .call (.fn ["y"] none (.bin .eq y y)) [.call x []], [.type (.builtin .object)]),
        (["x"], .bin .mod (.lit (.bytes [37, 97])) x, [.int 5]),
        (["x", "y"], .call x [.fn [] none y],
          [.function 0 ["f"] none (.call (.var "f") []) [], .int 3]),
        (["x"], .fn ["y"] none x, [.int 5]),
        (["x"], .attr (.call (.attr (.call (.attr x "select") [.lit (.type (.builtin .celsius))])
          "first") []) "degrees", [.list [.int 5]]),
        (["x"], .call (.call (.fn ["y"] none (.attr y "count")) [x]) [], [.object (.made 1)]),
        (["x"], .bin .eq (.lit (.dict [(.int 1, .int 5), (.int 2, .int 5)])) x,
          [.dict [(.int 2, entry), (.int 1, .int 6)]])],
      (default : World).Distorts t c.1 c.2.1 c.2.2 := by
  intro x y t entry c among
  refine distorts_of_shown ?_
  revert c
  rw [← List.all_eq_true]
  decide +kernel

end World

end EntityGraph
