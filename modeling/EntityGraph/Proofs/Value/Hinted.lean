import EntityGraph.Proofs.Host.Alike
import EntityGraph.Proofs.Run
import EntityGraph.Value.Method

/-!
# Values that a hint admits

A class says of its members what their values are: a hint admits some values and no others. Of a
hint only a member type is kept, the host type of the value, or of its elements, and whether the
value is a sequence. What a hint admits fits the member type that is read off it, apart from
sequences with several places, of which only the first is read.

What it takes to be a value of a host type is left open here. It may be no more than to be an
instance of it, or it may be that also the members of the instance are as its class says, and theirs
in turn.
-/

set_option linter.unusedSectionVars false

namespace EntityGraph

/-- Whether a host type says nothing of its values. -/
def HostType.isUniversal (t : HostType) : Bool := t == .builtin .object || t == .any

namespace Value

/-- Whether a value is an instance of a host type. The missing value is the only one of its
class. -/
def IsA (w : World) (v : Value) (t : HostType) : Prop :=
  match t with
  | .builtin .noneType => v = none
  | .builtin b => v.isInstance w b ∨ .builtin b ∈ w.classes.ancestry (v.typeIn w)
  | t => t = v.typeIn w ∨ t ∈ w.classes.ancestry (v.typeIn w)

/-- Whether a value fits a member type, where the values of each host type are as given: it is
missing, or one of them, or a sequence in which every element is missing or one of them. -/
def Fits (w : World) (values : HostType → Value → Prop) (m : MemberType) (v : Value) : Prop :=
  v = none ∨ m.host.isUniversal
    ∨ if m.isList then ∃ vs, v.elements w = .ok vs ∧ ∀ u ∈ vs, u = none ∨ values m.host u
      else values m.host v

variable {w : World} {values values' : HostType → Value → Prop} {m : MemberType} {v : Value}

theorem Fits.mono (h : v.Fits w values m) (sub : ∀ t u, values t u → values' t u) :
    v.Fits w values' m := by
  refine h.imp_right (Or.imp_right fun typed => ?_)
  split
  · next list =>
    obtain ⟨vs, elements, each⟩ := (if_pos list).mp typed
    exact ⟨vs, elements, fun u hu => (each u hu).imp_right (sub _ _)⟩
  · next single => exact sub _ _ ((if_neg single).mp typed)

theorem fits_unknown : v.Fits w values .unknown := .inr (.inl rfl)

end Value

namespace Hint

/-- Whether a hint admits a value, where the values of each host type are as given. A sequence has
all its elements of one hint, or one element for each of several hints. -/
inductive Admits (w : World) (values : HostType → Value → Prop) : Hint → Value → Prop
  | missing : Admits w values missing .none
  | universal {t : HostType} {v : Value} : t.isUniversal → Admits w values (type t) v
  | value {t : HostType} {v : Value} : values t v → Admits w values (type t) v
  | union {hs : List Hint} {h : Hint} {v : Value} :
      h ∈ hs → Admits w values h v → Admits w values (union hs) v
  | bar {hs : List Hint} {h : Hint} {v : Value} :
      h ∈ hs → Admits w values h v → Admits w values (bar hs) v
  | bare {form : String} {generic : Bool} {v : Value} {vs : List Value} :
      v.elements w = .ok vs → Admits w values (sequence form generic []) v
  | elements {form : String} {generic : Bool} {h : Hint} {v : Value} {vs : List Value} :
      v.elements w = .ok vs → (∀ u ∈ vs, Admits w values h u) →
      Admits w values (sequence form generic [h]) v
  | places {form : String} {generic : Bool} {hs : List Hint} {v : Value} {vs : List Value} :
      v.elements w = .ok vs → vs.length = hs.length →
      (∀ (i : Nat) (h : Hint) (u : Value), hs[i]? = some h → vs[i]? = some u →
        Admits w values h u) →
      Admits w values (sequence form generic hs) v
  | classVar {h : Hint} {v : Value} : Admits w values (classVar h) v
  | other {form : String} {generic : Bool} {hs : List Hint} {v : Value} :
      Admits w values (other form generic hs) v

mutual

/-- Whether no sequence inside a hint has several places. -/
def isUniform : Hint → Bool
  | union hs | bar hs => areUniform hs
  | sequence _ _ hs => hs.length ≤ 1 && areUniform hs
  | _ => true

/-- Whether no sequence inside one of several hints has several places. -/
def areUniform : List Hint → Bool
  | [] => true
  | h :: hs => h.isUniform && areUniform hs

end

section

variable {w : World} {values values' : HostType → Value → Prop} {v : Value}

theorem Admits.mono {h : Hint} (admits : h.Admits w values v)
    (sub : ∀ t u, values t u → values' t u) : h.Admits w values' v := by
  induction admits with
  | missing => exact .missing
  | universal universal => exact .universal universal
  | value typed => exact .value (sub _ _ typed)
  | union member _ ih => exact .union member ih
  | bar member _ ih => exact .bar member ih
  | bare elements => exact .bare elements
  | elements elements _ ih => exact .elements elements ih
  | places elements count _ ih => exact .places elements count ih
  | classVar => exact .classVar
  | other => exact .other

/-- A sequence admits what another one does whose arguments admit no more. -/
theorem Admits.with_args {form : String} {generic : Bool} {hs gs : List Hint}
    (same : List.Forall₂ (fun h g : Hint => ∀ u, h.Admits w values u → g.Admits w values u) hs gs)
    (admits : (sequence form generic hs).Admits w values v) :
    (sequence form generic gs).Admits w values v := by
  cases admits with
  | bare elements =>
    cases same
    exact .bare elements
  | elements elements each =>
    cases same with
    | cons sub rest =>
      cases rest
      exact .elements elements fun u hu => sub u (each u hu)
  | @places _ _ _ _ vs elements count each =>
    refine .places elements (count.trans same.length_eq) fun i g u hg hu => ?_
    obtain ⟨inside, rfl⟩ := List.getElem?_eq_some_iff.1 hg
    have inside' : i < hs.length := same.length_eq ▸ inside
    exact same.get inside' inside u (each i _ u (List.getElem?_eq_getElem inside') hu)

/-! ## Hints that are the same type admit the same values -/

section

variable (nothing : ∀ u, values missingType u ↔ u = .none)

include nothing

theorem admits_missingType : (type missingType).Admits w values v ↔ v = .none := by
  constructor
  · intro admits
    cases admits with
    | universal universal => cases universal
    | value typed => exact (nothing v).1 typed
  · exact fun absent => .value ((nothing v).2 absent)

mutual

/-- A hint admits what one of its members does. -/
theorem admits_members (h : Hint) :
    h.Admits w values v ↔ ∃ m ∈ h.members, m.Admits w values v := by
  cases h with
  | union hs =>
    rw [members, ← admits_membersList hs]
    constructor
    · intro admits
      cases admits with
      | union member admits => exact ⟨_, member, admits⟩
    · rintro ⟨h, member, admits⟩
      exact .union member admits
  | bar hs =>
    rw [members, ← admits_membersList hs]
    constructor
    · intro admits
      cases admits with
      | bar member admits => exact ⟨_, member, admits⟩
    · rintro ⟨h, member, admits⟩
      exact .bar member admits
  | missing =>
    simp only [members, List.mem_singleton, exists_eq_left, admits_missingType nothing]
    constructor
    · rintro ⟨⟩
      rfl
    · rintro rfl
      exact .missing
  | _ => simp [members]

theorem admits_membersList (hs : List Hint) :
    (∃ h ∈ hs, h.Admits w values v) ↔ ∃ m ∈ membersList hs, m.Admits w values v := by
  cases hs with
  | nil => simp [membersList]
  | cons h hs =>
    simp only [membersList, List.mem_append, or_and_right, exists_or, List.mem_cons,
      exists_eq_left, admits_members h, admits_membersList hs]

end

/-- A hint admits what another one does that is the same type. -/
theorem Admits.alike {h g : Hint} (same : h.alike g) (admits : h.Admits w values v) :
    g.Admits w values v := by
  induction h using args_induction generalizing g v with
  | step h ih =>
    obtain ⟨m, hm, admits⟩ := (admits_members nothing h).1 admits
    obtain ⟨m', hm', same⟩ := (alike_iff.1 same).1 m hm
    refine (admits_members nothing g).2 ⟨m', hm', ?_⟩
    have member := isMember_of_mem hm
    have member' := isMember_of_mem hm'
    obtain ⟨heads, args⟩ := (alike_members member member').1 same
    cases m with
    | type t => rwa [eq_type_of_head member' heads]
    | sequence form generic hs =>
      rw [eq_sequence_of_head heads]
      have each := (List.forall₂_and_left _ _).2 ⟨fun a ha => @ih _ hm a ha, args⟩
      exact admits.with_args (each.imp fun a b same u => same.1 same.2.2)
    | classVar h =>
      cases m' <;> cases heads
      exact .classVar
    | other form generic hs =>
      cases m' <;> cases heads
      exact .other
    | _ => cases member

/-! ## What is admitted fits -/

/-- What one of the members of a union admits fits the type of the only one, if there is only one
apart from the missing value. -/
theorem fits_choose {ps : List (Hint × MemberType)} {p : Hint × MemberType} (hp : p ∈ ps)
    (admits : p.1.Admits w values v)
    (each : ∀ q ∈ ps, q.1.Admits w values v → v.Fits w values q.2) :
    v.Fits w values (choose ps) := by
  by_cases present : IsPresent p
  · by_cases only : ∀ q ∈ ps, IsPresent q → q.1.alike p.1
    · obtain ⟨q, hq, same, chosen⟩ := choose_only hp present only
      rw [chosen]
      exact each q hq (admits.alike nothing (alike_symm same))
    · simp only [not_forall] at only
      obtain ⟨q, hq, present', different⟩ := only
      rw [choose_several hq present' hp present different]
      exact Value.fits_unknown
  · exact .inl ((admits_missingType nothing).1 (admits.alike nothing (not_not.1 present)))

theorem fits_chooseBar (generic : Bool) {ps : List (Hint × MemberType)} {p : Hint × MemberType}
    (hp : p ∈ ps) (admits : p.1.Admits w values v)
    (each : ∀ q ∈ ps, q.1.Admits w values v → v.Fits w values q.2) :
    v.Fits w values (chooseBar generic ps) := by
  unfold chooseBar
  split
  · exact fits_choose nothing hp admits each
  · split
    · next q only =>
      obtain ⟨q', hq, same⟩ := mem_distinct hp
      rw [only, List.mem_singleton] at hq
      rw [← hq]
      have known : q' ∈ ps := distinct_subset ps (by simp [only, hq])
      exact each q' known (admits.alike nothing (alike_symm same))
    · exact Value.fits_unknown

end

/-- A sequence fits if its elements do. Sequences of sequences say nothing of their elements. -/
theorem fits_sequenceOf {vs : List Value} {m : MemberType} (elements : v.elements w = .ok vs)
    (each : ∀ u ∈ vs, u.Fits w values m) : v.Fits w values (sequenceOf m) := by
  unfold sequenceOf
  cases nested : m.isList with
  | true => exact .inr (.inl rfl)
  | false =>
    by_cases universal : m.host.isUniversal
    · exact .inr (.inl universal)
    · refine .inr (.inr ⟨vs, elements, fun u hu => ?_⟩)
      simpa [Value.Fits, universal, nested] using each u hu

/-- A uniform sequence with an argument has all its elements of this one hint. -/
theorem Admits.each {form : String} {generic : Bool} {a : Hint} {args : List Hint}
    (uniform : (sequence form generic (a :: args)).isUniform)
    (admits : (sequence form generic (a :: args)).Admits w values v) :
    a.isUniform ∧ args = [] ∧ ∃ vs, v.elements w = .ok vs ∧ ∀ u ∈ vs, a.Admits w values u := by
  simp only [isUniform, areUniform, List.length_cons, Bool.and_eq_true,
    decide_eq_true_eq] at uniform
  obtain ⟨few, this, -⟩ := uniform
  obtain rfl := List.length_eq_zero_iff.1 (by omega : args.length = 0)
  refine ⟨this, rfl, ?_⟩
  cases admits with
  | elements elements each => exact ⟨_, elements, each⟩
  | @places _ _ _ _ vs elements count each =>
    obtain ⟨u, rfl⟩ := List.length_eq_one_iff.1 count
    refine ⟨_, elements, fun u' hu => ?_⟩
    obtain rfl := List.mem_singleton.1 hu
    exact each 0 a u' rfl rfl

/-- The elements of a sequence fit the type that is read off its argument. -/
theorem Admits.fits_element (generic : Bool) {a : Hint} (admits : a.Admits w values v)
    (fits : v.Fits w values a.memberType) : v.Fits w values (elementType generic [a]) := by
  cases a with
  | missing =>
    cases admits
    exact .inl rfl
  | _ => exact fits

/-- What a member of a union admits fits its type once this holds of its arguments. -/
theorem Admits.fits_member {m : Hint} (member : m.isMember) (uniform : m.isUniform)
    (ih : ∀ a ∈ m.args, a.isUniform → ∀ u, a.Admits w values u → u.Fits w values a.memberType)
    (admits : m.Admits w values v) : v.Fits w values m.memberType := by
  cases m with
  | type t =>
    cases admits with
    | universal universal => exact .inr (.inl universal)
    | value typed => exact .inr (.inr typed)
  | sequence form generic args =>
    cases args with
    | nil => exact .inr (.inl rfl)
    | cons a args =>
      obtain ⟨inner, rfl, vs, elements, each⟩ := admits.each uniform
      refine fits_sequenceOf elements fun u hu => ?_
      exact (each u hu).fits_element generic (ih a List.mem_cons_self inner u (each u hu))
  | classVar h => exact Value.fits_unknown
  | other form generic args => exact Value.fits_unknown
  | _ => cases member

mutual

theorem isUniform_of_mem {h m : Hint} (uniform : h.isUniform) (hm : m ∈ h.members) :
    m.isUniform := by
  cases h with
  | union hs => exact isUniform_of_memList uniform hm
  | bar hs => exact isUniform_of_memList uniform hm
  | missing => rw [List.mem_singleton.1 hm]; rfl
  | _ => rwa [List.mem_singleton.1 hm]

theorem isUniform_of_memList {hs : List Hint} {m : Hint} (uniform : areUniform hs)
    (hm : m ∈ membersList hs) : m.isUniform := by
  cases hs with
  | nil => cases hm
  | cons h hs =>
    simp only [areUniform, Bool.and_eq_true] at uniform
    exact (List.mem_append.1 hm).elim (isUniform_of_mem uniform.1) (isUniform_of_memList uniform.2)

end

/-- What a hint admits fits the type that is read off it, if nothing but the missing value is of its
class. -/
theorem Admits.fits_of_iff (nothing : ∀ u, values missingType u ↔ u = .none) {h : Hint}
    (uniform : h.isUniform) (admits : h.Admits w values v) : v.Fits w values h.memberType := by
  induction h using args_induction generalizing v with
  | step h ih =>
    have each (m : Hint) (hm : m ∈ h.members) (admits : m.Admits w values v) :
        v.Fits w values m.memberType := by
      refine admits.fits_member (isMember_of_mem hm) (isUniform_of_mem uniform hm) ?_
      exact fun a ha inner u admits => ih m hm a ha inner admits
    have part (p : Hint × MemberType) (hp : p ∈ h.parts) (admits : p.1.Admits w values v) :
        v.Fits w values p.2 := by
      rw [(mem_parts.1 hp).2]
      exact each p.1 (mem_parts.1 hp).1 admits
    obtain ⟨m, hm, chosen⟩ := (admits_members nothing h).1 admits
    have hp : (m, m.memberType) ∈ h.parts := mem_parts.2 ⟨hm, rfl⟩
    cases h with
    | union hs => exact fits_choose nothing hp chosen part
    | bar hs => exact fits_chooseBar nothing _ hp chosen part
    | missing => exact Value.fits_unknown
    | _ => exact each _ (List.mem_singleton_self _) admits

theorem Admits.fits (nothing : ∀ u, values missingType u → u = .none) {h : Hint}
    (uniform : h.isUniform) (admits : h.Admits w values v) : v.Fits w values h.memberType := by
  -- The missing value fits every type, so it may be counted among the values of each.
  let optional (t : HostType) (u : Value) : Prop := u = .none ∨ values t u
  have wider : h.Admits w optional v := admits.mono fun _ _ => .inr
  have fits : v.Fits w optional h.memberType :=
    wider.fits_of_iff (fun u => ⟨fun typed => typed.elim id (nothing u), .inl⟩) uniform
  rcases fits with absent | universal | typed
  · exact .inl absent
  · exact .inr (.inl universal)
  · split at typed
    · next list =>
      obtain ⟨vs, elements, each⟩ := typed
      refine .inr (.inr ((if_pos list).symm ▸ ⟨vs, elements, fun u hu => ?_⟩))
      exact (each u hu).elim .inl id
    · next single =>
      exact typed.imp_right fun typed => .inr ((if_neg single).symm ▸ typed)

end

end Hint

end EntityGraph
