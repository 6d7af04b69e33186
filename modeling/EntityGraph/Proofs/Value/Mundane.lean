import EntityGraph.Expr.Checked
import EntityGraph.Proofs.Fails
import EntityGraph.Request.Compose

/-!
# Mundane faults

Values can be of the wrong class, too long to be shown, or no parts of an expression. Such faults are
mundane: they say nothing of a request, and nothing of the library. Showing values, coercing them,
and making instances and nodes of them give no other faults, so every sort of faults that has the
mundane ones has theirs.
-/

set_option linter.unusedSectionVars false

namespace EntityGraph

/-- Whether a fault is one of values, of classes, or of lambdas that cannot be built. -/
def Fault.IsMundane (e : Fault) : Prop :=
  match e with
  | host kind _ => kind ≠ .missingKey ∧ kind ≠ .compilation
  | tree _ | captureArity .. | proxyTruth | proxyIteration | wireValue .. | queryLambda _
  | fieldLambda .. => True
  | _ => False

/-- Whether a fault is another one than that of a parameter without a value. -/
def Fault.IsBound (e : Fault) : Prop := ∀ p, e ≠ .unbound p

/-- Whether a fault has nothing to do with scopes, nor with proxies that are asked for what they
cannot tell. -/
structure Fault.IsOrdinary (e : Fault) : Prop where
  bound : e.IsBound
  truth : e ≠ .proxyTruth
  iteration : e ≠ .proxyIteration

/-- Whether a fault is ordinary, by the way it was made. -/
def Fault.isOrdinary : Fault → Bool
  | .unbound _ | .proxyTruth | .proxyIteration => false
  | _ => true

/-- What a fault is about does not matter for whether it is ordinary. -/
theorem Fault.IsOrdinary.told {e : Fault} (h : e.isOrdinary = true) : e.IsOrdinary where
  bound p same := by rw [same] at h; cases h
  truth same := by rw [same] at h; cases h
  iteration same := by rw [same] at h; cases h

variable {α : Type} {P : Fault → Prop}

theorem mundane_host {kind : FaultKind} {text : String}
    (other : kind ≠ .missingKey ∧ kind ≠ .compilation) : (Fault.host kind text).IsMundane :=
  other

@[simp, grind .] theorem ordinary_host (kind : FaultKind) (text : String) :
    (Fault.host kind text).IsOrdinary := .told rfl

theorem mundane_wrongType (text : String) : (Fault.wrongType text).IsMundane :=
  mundane_host (by decide)

theorem faultsIn_ofTree (x : Except (TreeFault Value) α) :
    FaultsIn Fault.IsMundane (ofTree x) := by
  cases x with
  | ok a => exact faultsIn_ok a
  | error f => exact faultsIn_error trivial

theorem faultsIn_refuse (f : TreeFault Value) : FaultsIn Fault.IsMundane (refuse f : Outcome α) :=
  faultsIn_error trivial

/-! ## Texts of values

A value that cannot be shown gives a fault of the host. -/

/-- Whether a fault that may be there is mundane and ordinary. -/
def MundaneFault (e : Option Fault) : Prop := ∀ f, e = some f → f.IsMundane ∧ f.IsOrdinary

theorem mundaneFault_none : MundaneFault none := nofun

theorem mundaneFault_host {kind : FaultKind} {text : String}
    (other : kind ≠ .missingKey ∧ kind ≠ .compilation) :
    MundaneFault (some (.host kind text)) := by
  rintro _ ⟨rfl⟩
  exact ⟨mundane_host other, ordinary_host kind text⟩

theorem mundaneFault_findSome {as : List α} {f : α → Option Fault}
    (h : ∀ a ∈ as, MundaneFault (f a)) : MundaneFault (as.findSome? f) := by
  intro e found
  obtain ⟨a, among, faulty⟩ := List.exists_of_findSome?_eq_some found
  exact h a among e faulty

theorem mundaneFault_or {e f : Option Fault} (he : MundaneFault e) (hf : MundaneFault f) :
    MundaneFault (e.or f) := by
  cases e with
  | none => exact hf
  | some x => exact he

namespace Value

theorem mundane_digitsFault (n : Int) : MundaneFault (digitsFault? n) := by
  unfold digitsFault?
  split
  · exact mundaneFault_none
  · exact mundaneFault_host (by decide)

variable {object : Ref → Option Fault} (objects : ∀ r, MundaneFault (object r))

include objects

mutual

theorem mundane_illegibleWith (v : Value) : MundaneFault (illegibleWith object v) := by
  cases v <;> unfold illegibleWith
  case int n => exact mundane_digitsFault n
  case list vs => exact mundane_illegibleList vs
  case tuple vs => exact mundane_illegibleList vs
  case set vs => exact mundane_illegibleList vs
  case generic t vs => exact mundane_illegibleList vs
  case dict es => exact mundane_illegibleEntries es
  case orderedDict es m => exact mundane_illegibleEntries es
  case object r => exact objects r
  case record t fs => exact mundane_illegibleFields fs
  case supplied v => exact mundane_illegibleWith v
  case proxy v m => exact mundane_illegibleWith v
  case expr e p => exact mundane_illegibleExpr e
  all_goals exact mundaneFault_none

theorem mundane_illegibleList (vs : List Value) : MundaneFault (illegibleList object vs) := by
  cases vs with
  | nil => exact mundaneFault_none
  | cons v vs => exact mundaneFault_or (mundane_illegibleWith v) (mundane_illegibleList vs)

theorem mundane_illegibleEntries (es : List (Value × Value)) :
    MundaneFault (illegibleEntries object es) := by
  cases es with
  | nil => exact mundaneFault_none
  | cons e es =>
    obtain ⟨k, v⟩ := e
    refine mundaneFault_or (mundane_illegibleWith k) ?_
    exact mundaneFault_or (mundane_illegibleWith v) (mundane_illegibleEntries es)

theorem mundane_illegibleFields (fs : List (String × Value)) :
    MundaneFault (illegibleFields object fs) := by
  cases fs with
  | nil => exact mundaneFault_none
  | cons f fs =>
    obtain ⟨n, v⟩ := f
    exact mundaneFault_or (mundane_illegibleWith v) (mundane_illegibleFields fs)

theorem mundane_illegibleExpr (e : Expr Value) : MundaneFault (illegibleExpr object e) := by
  cases e with
  | param p => exact mundaneFault_none
  | null => exact mundaneFault_none
  | lit v => exact mundane_illegibleWith v
  | member t n => exact mundane_illegibleExpr t
  | item t k => exact mundaneFault_or (mundane_illegibleExpr t) (mundane_illegibleExpr k)
  | method t n as => exact mundaneFault_or (mundane_illegibleExpr t) (mundane_illegibleExprs as)
  | func f as => exact mundaneFault_or (mundane_illegibleExpr f) (mundane_illegibleExprs as)
  | invoke f as => exact mundaneFault_or (mundane_illegibleExpr f) (mundane_illegibleExprs as)
  | seq op s as => exact mundaneFault_or (mundane_illegibleExpr s) (mundane_illegibleExprs as)
  | unary op e => exact mundane_illegibleExpr e
  | lambda ps b => exact mundane_illegibleExpr b
  | binary op l r => exact mundaneFault_or (mundane_illegibleExpr l) (mundane_illegibleExpr r)
  | cond p y n =>
    refine mundaneFault_or (mundane_illegibleExpr p) ?_
    exact mundaneFault_or (mundane_illegibleExpr y) (mundane_illegibleExpr n)
  | record t fs => exact mundaneFault_or (mundane_illegibleWith t) (mundane_illegibleMembers fs)

theorem mundane_illegibleExprs (es : List (Expr Value)) :
    MundaneFault (illegibleExprs object es) := by
  cases es with
  | nil => exact mundaneFault_none
  | cons e es => exact mundaneFault_or (mundane_illegibleExpr e) (mundane_illegibleExprs es)

theorem mundane_illegibleMembers (fs : List (Value × Expr Value)) :
    MundaneFault (illegibleMembers object fs) := by
  cases fs with
  | nil => exact mundaneFault_none
  | cons f fs =>
    obtain ⟨n, e⟩ := f
    refine mundaneFault_or (mundane_illegibleWith n) ?_
    exact mundaneFault_or (mundane_illegibleExpr e) (mundane_illegibleMembers fs)

end

omit objects

theorem mundane_illegibleObject (w : World) (depth : Nat) (around : List Ref) (r : Ref) :
    MundaneFault (illegibleObject? w depth around r) := by
  induction depth generalizing around r with
  | zero => exact mundaneFault_none
  | succ depth ih =>
    unfold illegibleObject?
    split
    · exact mundaneFault_none
    · split
      case h_3 => exact mundaneFault_none
      -- A named tuple shows its members as a record does.
      all_goals
        refine mundaneFault_findSome fun x _ => ?_
        obtain ⟨m, v⟩ := x
        cases v with
        | some v => exact mundane_illegibleWith (fun r' => ih _ r') v
        | none => exact mundaneFault_host (by decide)

theorem mundane_illegible (w : World) (v : Value) : MundaneFault (v.illegible? w) :=
  mundane_illegibleWith (fun r => mundane_illegibleObject w _ _ r) v

theorem faultsIn_tellShown (w : World) (v : Value) : FaultsIn Fault.IsMundane (v.tellShown w) := by
  unfold tellShown
  cases fault : v.illegible? w with
  | none => exact faultsIn_ok _
  | some f => exact faultsIn_error (mundane_illegible w v f fault).1

theorem faultsIn_arity (w : World) (v : Value) : FaultsIn Fault.IsMundane (v.arity w) := by
  have silent (n : Option Nat) :
      FaultsIn Fault.IsMundane (n.elim (.error arity.silentFault) .ok : Outcome Nat) := by
    cases n with
    | none => exact faultsIn_error (mundane_host (by decide))
    | some n => exact faultsIn_ok n
  unfold arity
  split
  · exact faultsIn_ok _
  · exact faultsIn_ok _
  · exact faultsIn_ok _
  · split
    · exact faultsIn_ok _
    · exact faultsIn_ok _
  · exact silent _
  · exact silent _
  · exact silent _
  · exact faultsIn_error trivial
  · exact faultsIn_bind (faultsIn_tellShown w _) fun s _ => faultsIn_error (mundane_wrongType _)

/-- A value that has no elements is a fault of its class. -/
theorem faultsIn_elements (w : World) (v : Value) : FaultsIn Fault.IsMundane (v.elements w) := by
  unfold elements
  split
  · exact faultsIn_error trivial
  · exact faultsIn_ok _
  · split
    · exact faultsIn_ok _
    · exact faultsIn_error (mundane_wrongType _)

end Value

theorem faultsIn_treeAt (w : World) (place : Place) (v : Value) :
    FaultsIn Fault.IsMundane (v.treeAt w place) := by
  unfold Value.treeAt
  cases v.tree? w with
  | none => exact faultsIn_refuse _
  | some e => exact faultsIn_ok e

theorem faultsIn_lambda (w : World) (params body : Value) :
    FaultsIn Fault.IsMundane (Node.lambda w params body) := by
  unfold Node.lambda
  split
  · next vs _ =>
    refine faultsIn_bind (faultsIn_mapM vs fun v _ => ?_) fun ps _ => ?_
    · split
      · exact faultsIn_ok _
      · exact faultsIn_refuse _
    · refine faultsIn_bind (faultsIn_ofTree _) fun _ _ => ?_
      exact faultsIn_bind (faultsIn_treeAt w _ _) fun e _ => faultsIn_ok _
  · exact faultsIn_refuse _

theorem WireKind.faultsIn_coerce (kind : WireKind) (raw : Value) :
    FaultsIn Fault.IsMundane (kind.coerce raw) := by
  unfold coerce
  split
  · exact faultsIn_ok _
  · exact faultsIn_ok _
  · refine faultsIn_bind ?_ fun x _ => faultsIn_ok _
    unfold Value.toFloat
    split
    · exact faultsIn_ok _
    · exact faultsIn_error (mundane_host (by decide))
  · exact faultsIn_ok _
  · exact faultsIn_ok _
  · exact faultsIn_error trivial

/-! ## What never fails -/

theorem failsWith_newParam (name : String) : FailsWith P (newParam name) :=
  failsWith_total fun _ => ⟨_, _, rfl⟩

theorem failsWith_now (w : World) : FailsWith P (Making.now w) :=
  failsWith_total fun _ => ⟨_, _, rfl⟩

theorem failsWith_newObject (t : HostType) (as : List (String × Value)) :
    FailsWith P (Making.newObject t as) :=
  failsWith_total fun _ => ⟨_, _, rfl⟩

theorem failsWith_passOver (n : Nat) : FailsWith P (Making.passOver n) :=
  failsWith_total fun _ => ⟨_, _, rfl⟩

namespace Value

theorem failsWith_owned (v : Value) : FailsWith P v.owned := by
  unfold owned
  split
  · exact failsWith_total fun _ => ⟨_, _, rfl⟩
  · exact failsWith_pure _

mutual

theorem failsWith_settled (v : Value) : FailsWith P v.settled := by
  cases v
  case list vs => exact failsWith_then (failsWith_settledList vs) fun _ => failsWith_pure _
  case tuple vs => exact failsWith_then (failsWith_settledList vs) fun _ => failsWith_pure _
  case dict es => exact failsWith_then (failsWith_settledEntries es) fun _ => failsWith_pure _
  case orderedDict es m =>
    exact failsWith_then (failsWith_settledEntries es) fun _ => failsWith_owned _
  all_goals exact failsWith_owned _

theorem failsWith_settledList (vs : List Value) : FailsWith P (settledList vs) := by
  cases vs with
  | nil => exact failsWith_pure _
  | cons v vs =>
    refine failsWith_then (failsWith_settled v) fun u => ?_
    exact failsWith_then (failsWith_settledList vs) fun us => failsWith_pure _

theorem failsWith_settledEntries (es : List (Value × Value)) :
    FailsWith P (settledEntries es) := by
  cases es with
  | nil => exact failsWith_pure _
  | cons e es =>
    obtain ⟨k, v⟩ := e
    refine failsWith_then (failsWith_settled k) fun k => ?_
    refine failsWith_then (failsWith_settled v) fun v => ?_
    exact failsWith_then (failsWith_settledEntries es) fun es => failsWith_pure _

end

theorem failsWith_own {x : Outcome Value} (h : FaultsIn P x) : FailsWith P (own x) := by
  refine failsWith_then (failsWith_outcome h) fun v => ?_
  exact failsWith_ite (fun _ => failsWith_settled v) fun _ => failsWith_pure _

/-! ## Instances -/

theorem failsWith_filledFields (fields : List MemberDecl) (given : List (String × Value)) :
    FailsWith Fault.IsMundane (filledFields fields given) := by
  refine failsWith_mapM _ fun m _ => ?_
  split
  · exact failsWith_pure _
  · exact failsWith_then (failsWith_own (faultsIn_ok _)) fun _ => failsWith_pure _
  · exact failsWith_throw (mundane_wrongType _)

theorem failsWith_makeInstance (w : World) (className : String) (given : List (String × Value)) :
    FailsWith Fault.IsMundane (makeInstance w className given) := by
  have record : FailsWith Fault.IsMundane (do
      if given.any fun e => !(w.classes.fields className).any (·.name == e.1) then
        throw (.wrongType "got an unexpected keyword argument")
      Making.newObject (.declared className)
        (← filledFields (w.classes.fields className) given)) := by
    refine failsWith_guard (fun _ => mundane_wrongType _) fun _ => ?_
    exact failsWith_then (failsWith_filledFields _ _) fun _ => failsWith_newObject _ _
  unfold makeInstance
  simp only []
  split
  · exact record
  · exact record
  · exact failsWith_guard (fun _ => mundane_wrongType _) fun _ => failsWith_newObject _ _

end Value

end EntityGraph
