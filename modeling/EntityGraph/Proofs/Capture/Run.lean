import EntityGraph.Proofs.Capture.Lambda

/-!
# Captured expressions are well scoped

A function that reaches for no expression is captured as a well-scoped one. Running a script goes from
one stage of capturing to the next, by induction over the script; calling a value does, by induction
over the number of calls that may still be nested. A lambda inside is captured with one parameter
known more. All the expressions that are recorded on the way are well scoped where they were recorded,
and stay so wherever they are put.
-/

namespace EntityGraph

variable {c : Stage} {w : World} {t : Trail}

/-! ## Calls of proxies -/

/-- What was recorded of functions that were captured after a look at the world can be put into what
was recorded before. -/
theorem covers_raised {u : Trail} (covers : (c.at t).Covers (w.after t))
    (covers' : (c.at u).Covers (w.after u)) (more : (c.at t).Extends (c.at u)) :
    ({ c.at u with memory := t.memory } : Stage).Covers (w.after t) :=
  { covers with
    fresh := fun r o found later => covers.fresh r o found (by
      cases r with
      | made n => exact Nat.le_trans more.top later
      | _ => exact later)
    low := covers'.low
    made := covers'.made }

theorem stays_recordCall {depth : Nat} (asks : c.asked = w.asked)
    (calls : ∀ d : Stage, d.asked = w.asked → d.Calls w (Value.callWithin w depth))
    (covers : (c.at t).Covers (w.after t)) {u : Value} (hu : u.IsOperand (c.at t))
    {args : List Value} (hargs : ∀ a ∈ args, a.Within (c.at t)) :
    Stays c w (fun d e => e.Within d) t (recordCall w (Value.callWithin w depth) u args) := by
  have recorded : ∀ v ∈ args.map Value.recorded, v.IsOperand (c.at t) := by
    intro v hv
    obtain ⟨a, ha, rfl⟩ := List.mem_map.1 hv
    exact Value.recorded_operand (hargs a ha)
  refine stays_now ?_
  dsimp only
  split
  · next target name is =>
    have target_within : target.Within (c.at t) := by
      cases Value.tree_within covers hu is with
      | member target _ => exact target
    have ht := Value.operand_ofTree target_within
    split
    · split
      · refine (stays_mapM (P := fun d (e : Expr Value) => e.Within d) covers
          (fun d e f more hf => hf.mono more) fun a ha t' covers' more => ?_).bind
          fun es t' covers' more hes => ?_
        · exact stays_captureElement asks calls covers'
            ((hargs a (List.mem_filter.1 ha).1).mono more)
        · have functions : ∀ v ∈ es.map Value.ofTree,
              v.IsOperand { c.at t' with memory := t.memory } := by
            intro v hv
            obtain ⟨e, he, rfl⟩ := List.mem_map.1 hv
            exact Value.operand_ofTree (hes e he)
          have later : target.Within (c.at t') := target_within.mono more
          refine stays_outcome covers' ?_
          exact Node.brings_seqOf (covers_raised covers covers' more) _
            (Value.operand_ofTree later) functions
      · exact stays_outcome covers (Node.brings_seqOf covers _ ht recorded)
    · split
      · next arg _ =>
        exact stays_outcome covers
          (Node.brings_binaryOf covers _ ht (Value.recorded_operand (hargs arg (by simp))))
      · exact stays_throw _
      · exact stays_outcome covers (Node.brings_method covers ht recorded)
  · exact stays_outcome covers (Node.brings_func covers hu recorded)

/-! ## Scripts -/

namespace Script

variable {calling : Calling} {literal : Value → Prop} (literals : ∀ v, literal v → v.Within c.bare)
  (calls : c.Calls w calling)

/-- Whether running a script leads to a value at hand, whatever variables at hand it has. -/
def StaysAtHand (c : Stage) (w : World) (calling : Calling) (s : Script Value) : Prop :=
  ∀ t env, (c.at t).Covers (w.after t) → (∀ b ∈ env, b.2.Within (c.at t)) →
    Stays c w (fun d v => v.Within d) t (s.run w calling env)

theorem stays_runList {es : List (Script Value)} (each : ∀ e ∈ es, e.StaysAtHand c w calling)
    {env : Env} (covers : (c.at t).Covers (w.after t)) (around : ∀ b ∈ env, b.2.Within (c.at t)) :
    Stays c w (fun d vs => ∀ v ∈ vs, v.Within d) t (runList w calling es env) := by
  induction es generalizing t with
  | nil => exact stays_pure covers fun _ hv => (List.not_mem_nil hv).elim
  | cons e es ih =>
    rw [List.forall_mem_cons] at each
    refine (each.1 t env covers around).bind fun v u covers₁ more₁ hv => ?_
    refine (ih each.2 covers₁ fun b hb => (around b hb).mono more₁).bind
      fun vs u' covers₂ more₂ hvs => ?_
    exact stays_pure covers₂ (List.forall_mem_cons.2 ⟨hv.mono more₂, hvs⟩)

include literals calls

theorem stays_run {s : Script Value} (plain : s.Plain literal) : s.StaysAtHand c w calling := by
  induction plain with
  | var name =>
    intro t env covers around
    unfold run
    split
    · next found => exact stays_pure covers (Value.holds_lookup (R := (c.at t).realm) around found)
    · exact stays_throw _
  | lit fits =>
    intro t env covers around
    exact stays_pure covers ((literals _ fits).of_bare rfl)
  | const v =>
    intro t env covers around
    exact Value.stays_makeProxy covers (Value.operand_ofTree (.lit v))
  | attr _ plain ih =>
    intro t env covers around
    refine (ih t env covers around).bind fun v u covers' _ hv => stays_now ?_
    exact Value.stays_own covers' (Value.brings_getAttr covers'.realm hv plain)
  | item _ _ ih ih' =>
    intro t env covers around
    refine (ih t env covers around).bind fun v u covers₁ more₁ hv => ?_
    refine (ih' u env covers₁ fun b hb => (around b hb).mono more₁).bind
      fun k u' covers₂ more₂ hk => stays_now ?_
    exact Value.stays_own covers₂ (Value.brings_readItem covers₂.realm (hv.mono more₂) hk)
  | call _ _ ih ihs =>
    intro t env covers around
    refine (ih t env covers around).bind fun f u covers₁ more₁ hf => ?_
    refine (stays_runList ihs covers₁ fun b hb => (around b hb).mono more₁).bind
      fun args u' covers₂ more₂ hargs => ?_
    exact calls u' f args covers₂ (hf.mono more₂) hargs
  | bin op _ _ ih ih' =>
    intro t env covers around
    refine (ih t env covers around).bind fun a u covers₁ more₁ ha => ?_
    refine (ih' u env covers₁ fun b hb => (around b hb).mono more₁).bind
      fun b u' covers₂ more₂ hb => stays_now ?_
    exact Value.stays_own covers₂ (Value.brings_operate covers₂.realm op (ha.mono more₂) hb)
  | inv _ ih =>
    intro t env covers around
    refine (ih t env covers around).bind fun v u covers' _ hv => stays_now ?_
    exact Value.stays_own covers' (Value.brings_invert covers'.realm hv)
  | neg _ ih =>
    intro t env covers around
    refine (ih t env covers around).bind fun v u covers' _ hv => stays_now ?_
    exact Value.stays_own covers' (Value.brings_negate covers'.realm hv)
  | fn ps star plain =>
    intro t env covers around
    -- The body is not run yet: a function is at hand if it is plain and its environment is at hand.
    refine (stays_newNumber covers).bind fun n u covers' more hn => stays_pure covers' ?_
    obtain ⟨rfl, same⟩ := hn
    obtain ⟨has, holds⟩ := new_made covers
    exact .function plain literals (fun b hb => (around b hb).mono more) (same ▸ has) (same ▸ holds)
  | list _ ihs =>
    intro t env covers around
    refine (stays_runList ihs covers around).bind fun vs u covers' _ hvs => ?_
    exact stays_pure covers' (Value.within_list.2 hvs)
  | and _ _ ih ih' =>
    intro t env covers around
    refine (ih t env covers around).bind fun v u covers' more hv => stays_now ?_
    refine stays_find fun b _ => ?_
    split
    · exact ih' u env covers' fun b hb => (around b hb).mono more
    · exact stays_pure covers' hv
  | not _ ih =>
    intro t env covers around
    refine (ih t env covers around).bind fun v u covers' _ hv => stays_now ?_
    exact stays_find fun b _ => stays_pure covers' (Value.within_bool _ (!b))
  | iter _ ih =>
    intro t env covers around
    refine (ih t env covers around).bind fun v u covers' _ hv => stays_now ?_
    refine stays_find fun vs is => stays_pure covers' ?_
    exact Value.within_list.2 (Value.brings_elements covers'.realm hv vs is)
  | len _ ih =>
    intro t env covers around
    refine (ih t env covers around).bind fun v u covers' _ hv => stays_now ?_
    exact stays_find fun n _ => stays_pure covers' (Value.within_int _ n)
  | isIn _ _ ih ih' =>
    intro t env covers around
    refine (ih t env covers around).bind fun v u covers₁ more₁ _ => ?_
    refine (ih' u env covers₁ fun b hb => (around b hb).mono more₁).bind
      fun k u' covers₂ _ _ => stays_now ?_
    exact stays_find fun b _ => stays_pure covers₂ (Value.within_bool _ b)
  | setAttr _ name fits ih =>
    intro t env covers around
    refine (ih t env covers around).bind fun v u covers₁ _ hv => ?_
    refine (Value.stays_assign (literals _ fits) covers₁ hv).bind fun _ u' covers₂ _ _ => ?_
    exact stays_pure covers₂ (Value.within_none _)
  | shown _ ih =>
    intro t env covers around
    refine (ih t env covers around).bind fun v u covers' _ hv => stays_now ?_
    exact stays_find fun s _ => stays_pure covers' (Value.within_str _ s)

end Script

/-! ## Calls -/

/-- Calling a value at hand leads to a value at hand, however deep calls are nested. -/
theorem Value.calls_callWithin (w : World) (depth : Nat) (c : Stage) (asks : c.asked = w.asked) :
    c.Calls w (callWithin w depth) := by
  induction depth generalizing c with
  | zero => exact fun t f args _ _ _ => stays_throw _
  | succ depth ih =>
    intro t f args covers hf hargs
    refine stays_now ?_
    split
    · next script env =>
      obtain ⟨plain, around, -⟩ := within_function.1 hf
      refine stays_find fun inner entered => ?_
      exact Script.stays_run (fun _ h => h) (ih c asks) plain t inner covers
        (argumentEnv_within entered around hargs)
    · exact ih c asks t _ args covers (within_supplied.1 hf) hargs
    · exact absurd hf not_within_closure
    · refine (stays_recordCall asks ih covers (within_proxy.1 hf) hargs).bind
        fun e u covers' _ he => ?_
      exact stays_makeProxy covers' (operand_ofTree he)
    · next u m name =>
      obtain ⟨receiver, plain⟩ := within_method.1 hf
      split
      · refine (stays_recordCall asks ih covers (within_proxy.1 receiver) hargs).bind
          fun e u covers' _ he => ?_
        exact stays_makeProxy covers' (operand_ofTree he)
      · exact stays_own covers
          (brings_callProxyMethod covers hargs (within_proxy.1 receiver) m plain)
    · obtain ⟨receiver, plain⟩ := within_method.1 hf
      exact stays_own covers (brings_callMethod covers.realm hargs receiver plain)
    · exact stays_instantiate covers (within_type.1 hf) hargs
    · exact stays_instantiate covers (within_generic.1 hf).1 hargs
    · exact Primitive.stays_apply covers _ hargs
    · exact stays_throw _

/-! ## Whole functions -/

namespace World

/-- The stage at which capturing begins after a trail. -/
def stage (w : World) (t : Trail) : Stage :=
  ⟨t.supply + 1, Nat.succ_pos _, t.supply + 1, t.memory, [], w.asked, asked_mono⟩

/-- Whether no expression is within reach: classes, objects and what was assigned to them have none,
and whatever was assigned to has been made. -/
structure IsTreeless (w : World) (t : Trail) : Prop where
  classes : ∀ k ∈ w.classes, k.Declares treeNames (·.Within (w.stage t).bare)
  objects : ∀ name o, w.objects.lookup name = some o →
    o.type.IsPlain ∧ ∀ a ∈ o.attributes, a.2.Within (w.stage t).bare
  assigned : ∀ r o, t.memory.lookup r = some o →
    o.type.IsPlain ∧ ∀ a ∈ o.attributes, a.2.Within (w.stage t).bare
  settled : t.IsSettled
  made : ∀ r o, t.memory.lookup r = some o → ¬ r.IsFrom (t.supply + 1)

theorem covers_inside {w : World} {t : Trail} (treeless : w.IsTreeless t) {ps : List Param}
    (given : ∀ p ∈ ps, p.id ≤ t.supply) :
    (((w.stage t).inside ps).at t).Covers (w.after t) where
  memory := rfl
  classes := treeless.classes
  objects := treeless.objects
  early r o found _ := (treeless.assigned r o found).2
  types r o found := (treeless.assigned r o found).1
  trees q o among := Nat.lt_succ_of_le (treeless.settled q o among)
  fresh := treeless.made
  low := Nat.le_refl _
  made p hp := by
    rcases List.mem_append.1 hp with hp | hp
    · exact Nat.lt_succ_of_le (given p hp)
    · cases hp

end World

end EntityGraph
