import EntityGraph.Proofs.Expr.Open

/-!
# What replacing parameters gives

Replacing parameters rebuilds the nodes above every use of one. Each sort of node is rebuilt in its
own way, but two facts are the same for all of them: the parts of the rebuilt node are the parts of
the old one with parameters replaced, in their order, and whatever else the node says stays. They
are proved sort by sort once (`parts_substitute`, `shell_substitute`). Everything further goes by
induction on the parts and does not look at sorts any more.

Only a parameter is not covered by them. What is put in its place is not looked into, so that
replacing twice is replacing once, by replacements in which the second replacing was done.
-/

namespace EntityGraph.Expr

variable {V : Type}

/-! ## Nodes and their parts -/

/-- The expressions that a node is made of, in the order of a walk. -/
def parts : Expr V → List (Expr V)
  | param _ | lit _ | null => []
  | member e _ | unary _ e | lambda _ e => [e]
  | item e e' | binary _ e e' => [e, e']
  | cond p y n => [p, y, n]
  | method e _ as | func e as | invoke e as | seq _ e as => e :: as
  | record _ fs => fs.map Prod.snd

/-- A node with nothing in the places of its parts. What is left of a lambda are the parameters that
it declares, what is left of a record its class and the names of its members. -/
def shell : Expr V → Expr V
  | param p => param p
  | lit v => lit v
  | null => null
  | member _ name => member null name
  | item _ _ => item null null
  | method _ name as => method null name (.replicate as.length null)
  | func _ as => func null (.replicate as.length null)
  | unary op _ => unary op null
  | binary op _ _ => binary op null null
  | cond _ _ _ => cond null null null
  | lambda ps _ => lambda ps null
  | invoke _ as => invoke null (.replicate as.length null)
  | seq op _ as => seq op null (.replicate as.length null)
  | record type fs => record type (fs.map fun f => (f.1, null))

/-- What a node asks of its own name, its parameters and the number and sorts of its parts. -/
def isBuilt : Expr V → Bool
  | member _ name | method _ name _ => !name.isEmpty
  | lambda ps _ => areDistinct ps
  | invoke g as => g.isLambdaOf as.length
  | seq op _ as =>
    op.minArgs ≤ as.length && as.length ≤ 1 && (!op.takesFunction || as.all (isLambdaOf 1))
  | _ => true

theorem sizeOf_parts {e p : Expr V} (hp : p ∈ e.parts) : sizeOf p < sizeOf e := by
  cases e with
  | param | lit | null => cases hp
  | member | unary | lambda =>
    obtain rfl := List.mem_singleton.1 hp
    simp +arith
  | item | binary =>
    simp only [parts, List.mem_cons, List.not_mem_nil, or_false] at hp
    rcases hp with rfl | rfl <;> simp +arith
  | cond =>
    simp only [parts, List.mem_cons, List.not_mem_nil, or_false] at hp
    rcases hp with rfl | rfl | rfl <;> simp +arith
  | method _ _ as | func _ as | invoke _ as | seq _ _ as =>
    rcases List.mem_cons.1 hp with rfl | hp
    · simp +arith
    · have := List.sizeOf_lt_of_mem hp
      simp +arith
      omega
  | record type fs =>
    obtain ⟨f, hf, rfl⟩ := List.mem_map.1 hp
    have := List.sizeOf_lt_of_mem hf
    cases f
    simp +arith at this ⊢
    omega

/-- Induction on the parts of expressions, whatever sorts of nodes they stand in. -/
theorem parts_induction {P : Expr V → Prop} (step : ∀ e, (∀ p ∈ e.parts, P p) → P e) (e : Expr V) :
    P e :=
  step e fun p hp => by
    have := sizeOf_parts hp
    exact parts_induction step p
termination_by e

theorem fields_ext {fs fs' : List (V × Expr V)}
    (names : fs.map (fun f => (f.1, (null : Expr V))) = fs'.map fun f => (f.1, null))
    (values : fs.map Prod.snd = fs'.map Prod.snd) : fs = fs' := by
  induction fs generalizing fs' with
  | nil => simpa using values.symm
  | cons f fs ih =>
    cases fs' with
    | nil => cases values
    | cons f' fs' =>
      simp only [List.map_cons, List.cons.injEq, Prod.mk.injEq, and_true] at names values
      rw [ih names.2 values.2, Prod.ext names.1 values.1]

/-- A node is its shell and its parts. -/
theorem ext_parts {e e' : Expr V} (shells : e.shell = e'.shell) (each : e.parts = e'.parts) :
    e = e' := by
  cases e <;> cases e' <;> simp_all [shell, parts]
  exact fields_ext shells.2 each

/-- The nodes of a part are nodes of the whole. -/
theorem nodes_of_parts {e p n : Expr V} (hp : p ∈ e.parts) (hn : n ∈ p.nodes) : n ∈ e.nodes := by
  cases e with
  | param | lit | null => cases hp
  | member | unary | lambda =>
    obtain rfl := List.mem_singleton.1 hp
    simp [nodes, hn]
  | item | binary | cond =>
    simp only [parts, List.mem_cons, List.not_mem_nil, or_false] at hp
    simp only [nodes, List.mem_append]
    grind
  | method | func | invoke | seq =>
    simp only [parts, List.mem_cons] at hp
    simp only [nodes, List.mem_append, mem_nodesList]
    grind
  | record =>
    obtain ⟨f, hf, rfl⟩ := List.mem_map.1 hp
    simp only [nodes, List.mem_append, mem_nodesFields]
    exact .inl ⟨f, hf, hn⟩

/-- How many parts a node has can be told from its shell. -/
theorem length_parts {e e' : Expr V} (shells : e.shell = e'.shell) :
    e.parts.length = e'.parts.length := by
  cases e <;> cases e' <;> simp_all [shell, parts]
  simpa using congrArg List.length shells.2

/-! ## What a substitution does to a node -/

section

variable {r : Param → Option (Expr V)}

/-- The parts of a rebuilt node are the rebuilt parts of the node, in their order. -/
theorem parts_substitute {e : Expr V} (other : e.used? = none) :
    (e.substitute r).parts = e.parts.map (·.substitute r) := by
  cases e with
  | param => cases other
  | method | func | invoke | seq => simp [substitute, parts, substituteList_eq_map]
  | record => simp [substitute, parts, substituteFields_eq_map]
  | _ => simp [substitute, parts]

/-- A rebuilt node says what the node said. -/
theorem shell_substitute {e : Expr V} (other : e.used? = none) :
    (e.substitute r).shell = e.shell := by
  cases e with
  | param => cases other
  | method | func | invoke | seq => simp [substitute, shell, substituteList_eq_map]
  | record => simp [substitute, shell, substituteFields_eq_map]
  | _ => simp [substitute, shell]

/-- A rebuilt node meets the demands of its sort, if the node did. -/
theorem isBuilt_substitute {e : Expr V} (other : e.used? = none) (built : e.isBuilt = true) :
    (e.substitute r).isBuilt = true := by
  cases e with
  | param => cases other
  | invoke g as =>
    simpa [substitute, isBuilt, substituteList_eq_map]
      using isLambdaOf_substitute_of_isLambdaOf r built
  | seq op s as =>
    simp only [isBuilt, Bool.and_eq_true, Bool.or_eq_true, List.all_eq_true] at built
    obtain ⟨count, functions⟩ := built
    simp only [substitute, isBuilt, substituteList_eq_map, List.length_map, Bool.and_eq_true,
      Bool.or_eq_true, List.all_map, List.all_eq_true]
    exact ⟨count, functions.imp_right fun each a ha =>
      isLambdaOf_substitute_of_isLambdaOf r (each a ha)⟩
  | _ => exact built

theorem used?_substitute {e : Expr V} (other : e.used? = none) :
    (e.substitute r).used? = none := by
  cases e with
  | param => cases other
  | _ => rfl

theorem exists_param {e : Expr V} (uses : ¬e.used? = none) : ∃ p, e = param p := by
  cases e with
  | param p => exact ⟨p, rfl⟩
  | _ => exact absurd rfl uses

end

/-! ## Well-formed expressions -/

theorem areWellFormed_iff {es : List (Expr V)} :
    areWellFormed es = true ↔ ∀ e ∈ es, e.isWellFormed = true := by
  induction es with
  | nil => simp [areWellFormed]
  | cons e es ih => simp [areWellFormed, ih]

theorem fieldsWellFormed_iff {fs : List (V × Expr V)} :
    fieldsWellFormed fs = true ↔ ∀ f ∈ fs, f.2.isWellFormed = true := by
  induction fs with
  | nil => simp [fieldsWellFormed]
  | cons f fs ih => simp [fieldsWellFormed, ih]

/-- An expression is well formed if its root meets the demands of its sort and its parts are well
formed. -/
theorem isWellFormed_iff {e : Expr V} :
    e.isWellFormed = true ↔ e.isBuilt = true ∧ ∀ p ∈ e.parts, p.isWellFormed = true := by
  cases e with
  | record _ fs => simp [isWellFormed, isBuilt, parts, fieldsWellFormed_iff, @forall_comm V]
  | _ => simp [isWellFormed, isBuilt, parts, areWellFormed_iff, and_assoc]

/-- Well-formed expressions in the places of parameters leave an expression well formed. -/
theorem isWellFormed_replaced {r : Param → Option (Expr V)}
    (valid : ∀ p e, r p = some e → e.isWellFormed = true) {e : Expr V}
    (formed : e.isWellFormed = true) : (e.substitute r).isWellFormed = true := by
  induction e using parts_induction with
  | step e ih =>
    by_cases other : e.used? = none
    · obtain ⟨built, each⟩ := isWellFormed_iff.1 formed
      refine isWellFormed_iff.2 ⟨isBuilt_substitute other built, ?_⟩
      rw [parts_substitute other, List.forall_mem_map]
      exact fun p hp => ih p hp (each p hp)
    · obtain ⟨p, rfl⟩ := exists_param other
      rw [substitute]
      cases found : r p with
      | none => rfl
      | some e => exact valid p e found

/-! ## Composing substitutions -/

/-- One replacing after another: what the first one puts in is replaced by the second one, and so
are the parameters that the first one leaves. -/
def andThen (S T : Param → Option (Expr V)) (p : Param) : Option (Expr V) :=
  match S p with
  | some e => (e.replaceParams T).toOption
  | none => T p

section

variable {S T : Param → Option (Expr V)}

theorem andThen_some {p : Param} {e : Expr V} (found : S p = some e)
    (formed : e.isWellFormed = true) : andThen S T p = some (e.substitute T) := by
  simp only [andThen, found]
  rw [replaceParams_eq_substitute T formed]
  rfl

theorem andThen_none {p : Param} (found : S p = none) : andThen S T p = T p := by
  simp only [andThen, found]

/-- Substituting twice is substituting once. -/
theorem substitute_substitute (valid : ∀ p e, S p = some e → e.isWellFormed = true) (e : Expr V) :
    (e.substitute S).substitute T = e.substitute (andThen S T) := by
  induction e using parts_induction with
  | step e ih =>
    -- Only at a parameter do the replacements matter; any other node is its shell and its parts.
    by_cases other : e.used? = none
    · have still : (e.substitute S).used? = none := by rw [used?_substitute other]
      refine ext_parts ?_ ?_
      · rw [shell_substitute still, shell_substitute other, shell_substitute other]
      · rw [parts_substitute still, parts_substitute other, parts_substitute other, List.map_map]
        exact List.map_congr_left ih
    · obtain ⟨p, rfl⟩ := exists_param other
      rw [substitute, substitute]
      cases found : S p with
      | none => rw [andThen_none found, Option.getD_none, substitute]
      | some e => rw [andThen_some found (valid p e found), Option.getD_some, Option.getD_some]

/-- Where no parameter that is replaced is used, nothing changes. -/
theorem substitute_unused {e : Expr V} (unused : ∀ p, param p ∈ e.nodes → S p = none) :
    e.substitute S = e := by
  induction e using parts_induction with
  | step e ih =>
    by_cases other : e.used? = none
    · refine ext_parts (shell_substitute other) ?_
      rw [parts_substitute other]
      refine (List.map_congr_left fun p hp => ?_).trans (List.map_id' e.parts)
      exact ih p hp fun q hq => unused q (nodes_of_parts hp hq)
    · obtain ⟨p, rfl⟩ := exists_param other
      rw [substitute, unused p (by simp [nodes])]
      rfl

end

/-! ## Replacing at every place -/

/-- What stands at a place of an expression. A place is the way there: for each node on the way,
which of its parts comes next. -/
def at? : List Nat → Expr V → Option (Expr V)
  | [], e => some e
  | i :: way, e => e.parts[i]?.bind (at? way)

/-- Whether an expression is another one with parameters replaced. -/
structure Replaced (r : Param → Option (Expr V)) (e e' : Expr V) : Prop where
  /-- In the place of a parameter stands what was given for it, as it was given, or the parameter
  itself if nothing was given. -/
  uses : ∀ way p, e.at? way = some (param p) → e'.at? way = some ((r p).getD (param p))
  /-- In the place of any other node stands one that says the same. -/
  others : ∀ way n, e.at? way = some n → n.used? = none →
    ∃ n', e'.at? way = some n' ∧ n'.shell = n.shell

section

variable {r : Param → Option (Expr V)} {e e' : Expr V}

theorem at?_cons {way : List Nat} {i : Nat} {p : Expr V} (found : e.parts[i]? = some p) :
    e.at? (i :: way) = p.at? way := by
  rw [at?, found, Option.bind_some]

/-- What is substituted in an expression is substituted at each of its places. -/
theorem at?_substitute {way : List Nat} {n : Expr V} (there : e.at? way = some n) :
    (e.substitute r).at? way = some (n.substitute r) := by
  induction way generalizing e with
  | nil => exact congrArg (Option.map (substitute r)) there
  | cons i way ih =>
    obtain ⟨p, found, there⟩ := Option.bind_eq_some_iff.1 there
    have other : e.used? = none := by
      cases e with
      | param => cases found
      | _ => rfl
    have rebuilt : (e.substitute r).parts[i]? = some (p.substitute r) := by
      rw [parts_substitute other, List.getElem?_map, found, Option.map_some]
    rw [at?_cons rebuilt]
    exact ih there

theorem Replaced.part (h : Replaced r e e') {i : Nat} {p p' : Expr V} (hp : e.parts[i]? = some p)
    (hp' : e'.parts[i]? = some p') : Replaced r p p' where
  uses way q there := by
    rw [← at?_cons hp']
    exact h.uses (i :: way) q (by rw [at?_cons hp, there])
  others way n there other := by
    rw [← at?_cons hp']
    exact h.others (i :: way) n (by rw [at?_cons hp, there]) other

/-- A substitution replaces parameters, and nothing else does. -/
theorem replaced_iff : Replaced r e e' ↔ e' = e.substitute r := by
  constructor
  · intro h
    -- The empty way leads to the root, and a way that is longer leads into one of the parts.
    induction e using parts_induction generalizing e' with
    | step e ih =>
      by_cases other : e.used? = none
      · obtain ⟨n, there, shells⟩ := h.others [] e rfl other
        obtain rfl : e' = n := Option.some.inj there
        refine ext_parts (shells.trans (shell_substitute other).symm) ?_
        have many : e'.parts.length = e.parts.length := length_parts shells
        refine List.ext_getElem (by simp [parts_substitute other, many]) fun i hi hi' => ?_
        have found : e.parts[i]? = some (e.parts[i]) := List.getElem?_eq_getElem (many ▸ hi)
        simp only [parts_substitute other, List.getElem_map]
        exact ih _ (List.getElem_mem _) (h.part found (List.getElem?_eq_getElem hi))
      · obtain ⟨p, rfl⟩ := exists_param other
        exact Option.some.inj (h.uses [] p rfl)
  · rintro rfl
    constructor
    · intro way p there
      exact at?_substitute there
    · intro way n there other
      exact ⟨_, at?_substitute there, shell_substitute other⟩

end

/-! ## Replacing is total and composes -/

/-- Replacing parameters of a well-formed expression by well-formed expressions never fails. What it
gives is well formed again, so that lambdas that are applied stay lambdas of as many parameters. It
is the expression with each use of a parameter replaced, all at once: what is put in is not looked
into, and what any other node says, the parameters that a lambda declares among it, stays. It is the
expression itself if none of the parameters is used. Replacing once more never fails either, and
gives what replacing by the replacements in which the second replacing was done gives in one go. -/
theorem replaceParams_composes {e : Expr V} (formed : e.isWellFormed = true)
    {S : Param → Option (Expr V)} (valid : ∀ p r, S p = some r → r.isWellFormed = true) :
    ∃ e', e.replaceParams S = .ok e' ∧ e'.isWellFormed = true ∧ Replaced S e e' ∧
      ((∀ p, param p ∈ e.nodes → S p = none) → e' = e) ∧
      ∀ T : Param → Option (Expr V),
        (∀ p r, S p = some r → ∃ r', r.replaceParams T = .ok r' ∧ andThen S T p = some r') ∧
        (∀ p, S p = none → andThen S T p = T p) ∧
        ∃ e'', e'.replaceParams T = .ok e'' ∧ e.replaceParams (andThen S T) = .ok e'' := by
  have formed' := isWellFormed_replaced valid formed
  refine ⟨_, replaceParams_eq_substitute S formed, formed', replaced_iff.2 rfl,
    substitute_unused, fun T => ⟨fun p r found => ?_, fun p => andThen_none, ?_⟩⟩
  · have formed := valid p r found
    exact ⟨_, replaceParams_eq_substitute T formed, andThen_some found formed⟩
  · refine ⟨_, replaceParams_eq_substitute T formed', ?_⟩
    rw [replaceParams_eq_substitute _ formed, substitute_substitute valid]

/-- The sum of every element of a sequence and a number. -/
def raised : Expr Nat := seq .select (param .x) [lambda [.z] (binary .add (param .z) (param .y))]

/-- Puts two parameters in the places of each other, one of them inside a node. -/
def crossing (p : Param) : Option (Expr Nat) :=
  if p = .x then some (member (param .y) "values") else if p = .y then some (param .x) else none

theorem raised_crossed : raised.isWellFormed = true ∧
    (∀ p r, crossing p = some r → r.isWellFormed = true) ∧
    ∃ e', raised.replaceParams crossing = .ok e' ∧ Replaced crossing raised e' := by
  have formed : raised.isWellFormed = true := by decide
  have valid : ∀ p r, crossing p = some r → r.isWellFormed = true := by
    intro p r found
    unfold crossing at found
    split at found
    · cases found
      decide
    · split at found
      · cases found
        rfl
      · cases found
  obtain ⟨e', replaced, -, whole, -⟩ := replaceParams_composes formed valid
  exact ⟨formed, valid, e', replaced, whole⟩

/-- The parameter that was put in is not replaced again. -/
example : raised.replaceParams crossing = .ok (seq .select (member (param .y) "values")
    [lambda [.z] (binary .add (param .z) (param .x))]) := rfl

end EntityGraph.Expr
