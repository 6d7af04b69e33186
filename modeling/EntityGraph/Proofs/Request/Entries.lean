import EntityGraph.Proofs.Run
import EntityGraph.Request.Materialize
import Mathlib.Data.List.Basic
import Mathlib.Data.List.Induction

/-!
# Entries of records

Filling in a record puts entries into it, each under its name and at its place, and then puts all of
them into another order. Names stay different by that, and no entry is lost or changed but the one
that is put in.
-/

namespace EntityGraph

namespace Document

variable {α : Type} {es : List (String × α)} {name : String} {x : α}

theorem mem_putNamed {e : String × α} :
    e ∈ putNamed es name x ↔ e = (name, x) ∨ e ∈ es ∧ e.1 ≠ name := by
  unfold putNamed
  split
  · next known =>
    obtain ⟨old, among, named⟩ := List.any_eq_true.1 known
    rw [List.mem_map]
    constructor
    · rintro ⟨e', among', rfl⟩
      by_cases same : e'.1 = name
      · simp [same]
      · simp [same, among']
    · rintro (rfl | ⟨among', other⟩)
      · exact ⟨old, among, by rw [if_pos named]⟩
      · exact ⟨e, among', by simp [other]⟩
  · next unknown =>
    have others : ∀ e ∈ es, e.1 ≠ name := fun e among named =>
      unknown (List.any_eq_true.2 ⟨e, among, by simpa using named⟩)
    rw [List.mem_append, List.mem_singleton, or_comm]
    exact or_congr_right ⟨fun among => ⟨among, others e among⟩, (·.1)⟩

theorem names_putNamed {n : String} :
    n ∈ (putNamed es name x).map (·.1) ↔ n = name ∨ n ∈ es.map (·.1) := by
  simp only [List.mem_map, mem_putNamed]
  constructor
  · rintro ⟨e, rfl | ⟨old, _⟩, rfl⟩
    · exact .inl rfl
    · exact .inr ⟨e, old, rfl⟩
  · by_cases same : n = name
    · exact fun _ => ⟨(name, x), .inl rfl, same.symm⟩
    · rintro (is | ⟨e, old, rfl⟩)
      · exact absurd is same
      · exact ⟨e, .inr ⟨old, same⟩, rfl⟩

theorem nodup_putNamed (nodup : (es.map (·.1)).Nodup) :
    ((putNamed es name x).map (·.1)).Nodup := by
  unfold putNamed
  split
  · have same :
        (es.map fun e => if e.1 == name then (name, x) else e).map (·.1) = es.map (·.1) := by
      rw [List.map_map]
      refine List.map_congr_left fun e _ => ?_
      by_cases same : e.1 = name <;> simp [same]
    rw [same]
    exact nodup
  · next unknown =>
    have others : ∀ e ∈ es, e.1 ≠ name := fun e among named =>
      unknown (List.any_eq_true.2 ⟨e, among, by simpa using named⟩)
    rw [List.map_append, List.map_singleton, List.nodup_append]
    refine ⟨nodup, by simp, fun n hn n' hn' => ?_⟩
    obtain ⟨e, among, rfl⟩ := List.mem_map.1 hn
    rw [List.mem_singleton.1 hn']
    exact others e among

/-- Replacing the entries of a name changes what is found under it, if anything is. -/
theorem lookup_replaced (n : String) :
    (es.map fun e => if e.1 == name then (name, x) else e).lookup n
      = if n = name then (es.lookup name).map fun _ => x else es.lookup n := by
  induction es with
  | nil => simp
  | cons e es ih =>
    obtain ⟨k, y⟩ := e
    rw [List.map_cons, List.lookup_cons, ih, List.lookup_cons, List.lookup_cons]
    by_cases replaced : k = name
    · subst replaced
      by_cases same : n = k
      · simp [same]
      · simp [same, beq_false_of_ne same]
    · have kept : (name == k) = false := by simpa using Ne.symm replaced
      by_cases same : n = name <;> simp [same, kept, replaced]

theorem lookup_putNamed (n : String) :
    (putNamed es name x).lookup n = if n = name then some x else es.lookup n := by
  unfold putNamed
  split
  · next known =>
    have found : (es.lookup name).isSome := by
      obtain ⟨e, among, named⟩ := List.any_eq_true.1 known
      exact List.lookup_isSome_iff.2 ⟨e, among, by rw [beq_iff_eq.1 named, beq_self_eq_true]⟩
    rw [lookup_replaced]
    split
    · obtain ⟨y, here⟩ := Option.isSome_iff_exists.1 found
      rw [here]
      rfl
    · rfl
  · next unknown =>
    have free : es.lookup name = none := by
      rw [List.lookup_eq_none_iff]
      intro e among
      rw [bne_iff_ne]
      rintro rfl
      exact unknown (List.any_eq_true.2 ⟨e, among, beq_self_eq_true _⟩)
    rw [List.lookup_append, List.lookup_cons, List.lookup_nil]
    by_cases same : n = name
    · rw [same, free, beq_self_eq_true, if_pos rfl]
      rfl
    · rw [show (n == name) = false by simpa using same, if_neg same]
      exact Option.or_none

end Document

/-- Where names are different, what is found under a name is its entry. -/
theorem lookup_eq_some_iff {α : Type} {es : List (String × α)} (nodup : (es.map (·.1)).Nodup)
    {name : String} {x : α} : es.lookup name = some x ↔ (name, x) ∈ es := by
  induction es with
  | nil => simp
  | cons e es ih =>
    obtain ⟨n, y⟩ := e
    rw [List.map_cons, List.nodup_cons] at nodup
    rw [List.lookup_cons, List.mem_cons]
    by_cases same : name = n
    · subst same
      have only : (name, x) ∉ es := fun among => nodup.1 (List.mem_map.2 ⟨_, among, rfl⟩)
      simp [only, eq_comm]
    · have differ : (name == n) = false := by simpa using same
      rw [differ, ih nodup.2]
      simp [same]

namespace Materialize

/-- Each name once, in the order in which they come first. -/
theorem distinct_names (names found : List String) (nodup : found.Nodup) :
    let distinct := names.foldl (fun ns n => if ns.contains n then ns else ns ++ [n]) found
    distinct.Nodup ∧ ∀ n, n ∈ distinct ↔ n ∈ found ∨ n ∈ names := by
  induction names generalizing found with
  | nil => simpa using nodup
  | cons name names ih =>
    rw [List.foldl_cons]
    split
    · next known =>
      obtain ⟨different, mem⟩ := ih found nodup
      have among : name ∈ found := by simpa using known
      refine ⟨different, fun n => (mem n).trans ?_⟩
      rw [List.mem_cons]
      grind
    · next unknown =>
      have new : name ∉ found := by simpa using unknown
      have more : (found ++ [name]).Nodup := by
        rw [List.nodup_append]
        refine ⟨nodup, by simp, fun n hn n' hn' => ?_⟩
        rw [List.mem_singleton.1 hn']
        rintro rfl
        exact new hn
      obtain ⟨different, mem⟩ := ih _ more
      refine ⟨different, fun n => (mem n).trans ?_⟩
      rw [List.mem_append, List.mem_singleton, List.mem_cons, or_assoc]

variable {names : List String} {es : List (String × Value)}

theorem mem_reorder (nodup : (es.map (·.1)).Nodup) {e : String × Value} :
    e ∈ reorder names es ↔ e ∈ es := by
  obtain ⟨n, v⟩ := e
  unfold reorder
  obtain ⟨_, mem⟩ := distinct_names names [] List.nodup_nil
  generalize names.foldl _ [] = distinct at mem
  simp only [List.mem_append, List.mem_filter, List.mem_filterMap, Option.map_eq_some_iff,
    lookup_eq_some_iff nodup]
  constructor
  · rintro (⟨among, _⟩ | ⟨n', _, u, among, same⟩)
    · exact among
    · cases same
      exact among
  · intro among
    by_cases asked : n ∈ distinct
    · exact .inr ⟨n, asked, v, among, rfl⟩
    · exact .inl ⟨among, by simpa using asked⟩

theorem names_found (ns : List String) :
    (ns.filterMap fun n => (es.lookup n).map fun v => (n, v)).map (·.1)
      = ns.filter fun n => (es.lookup n).isSome := by
  rw [List.map_filterMap, ← List.filterMap_eq_filter]
  congr 1
  funext n
  cases looked : es.lookup n <;> simp [Option.guard, looked]

theorem distinct_eq_eraseDups (names : List String) :
    names.foldl (fun ns n => if ns.contains n then ns else ns ++ [n]) [] = names.eraseDups := by
  induction names using List.reverseRecOn with
  | nil => rfl
  | append_singleton names name ih =>
    rw [List.foldl_append, ih, List.foldl_cons, List.foldl_nil, List.eraseDups_append]
    by_cases known : name ∈ names <;> simp [known, List.removeAll, List.eraseDups_cons]

theorem nodup_eraseDups (names : List String) : names.eraseDups.Nodup := by
  rw [← distinct_eq_eraseDups]
  exact (distinct_names names [] List.nodup_nil).1

/-- Where entries have the names that were asked for, their names come in the order in which they
were asked for first. -/
theorem names_reorder (asked : ∀ e ∈ es, e.1 ∈ names) (has : ∀ n ∈ names, n ∈ es.map (·.1)) :
    (reorder names es).map (·.1) = names.eraseDups := by
  have rest : es.filter (fun e => !names.eraseDups.contains e.1) = [] := by
    rw [List.filter_eq_nil_iff]
    intro e he
    simp [List.mem_eraseDups, asked e he]
  unfold reorder
  dsimp only
  rw [distinct_eq_eraseDups, rest, List.nil_append, names_found, List.filter_eq_self]
  intro n hn
  obtain ⟨e, he, rfl⟩ := List.mem_map.1 (has n (List.mem_eraseDups.1 hn))
  exact List.lookup_isSome_iff.2 ⟨e, he, beq_self_eq_true _⟩

theorem distinct_of_nodup {names found : List String} (nodup : (found ++ names).Nodup) :
    names.foldl (fun ns n => if ns.contains n then ns else ns ++ [n]) found = found ++ names := by
  induction names generalizing found with
  | nil => simp
  | cons name names ih =>
    have new : name ∉ found := fun old => by
      rw [List.nodup_append] at nodup
      exact nodup.2.2 name old name (by simp) rfl
    rw [List.append_cons] at nodup ⊢
    rw [List.foldl_cons, if_neg (by simpa using new), ih nodup]

/-- Entries that were all asked for come in the order in which they were. -/
theorem reorder_eq {found : List (String × Value)} (nodup : names.Nodup)
    (order : found.map (·.1) = names) (same : ∀ n, es.lookup n = found.lookup n) :
    reorder names es = found := by
  have rest : es.filter (fun e => !names.contains e.1) = [] := by
    rw [List.filter_eq_nil_iff]
    intro e he
    have known : (es.lookup e.1).isSome := List.lookup_isSome_iff.2 ⟨e, he, beq_self_eq_true _⟩
    rw [same, List.lookup_isSome_iff] at known
    obtain ⟨e', he', here⟩ := known
    have asked : e.1 ∈ names := by
      rw [← order, beq_iff_eq.1 here]
      exact List.mem_map_of_mem he'
    simp [asked]
  have distinct : names.foldl (fun ns n => if ns.contains n then ns else ns ++ [n]) []
      = [] ++ names := distinct_of_nodup (by simpa using nodup)
  unfold reorder
  dsimp only
  rw [distinct, List.nil_append, rest, List.nil_append, ← order, List.filterMap_map]
  rw [← order] at nodup
  refine (List.filterMap_eq_map_iff_forall_eq_some.2 fun e he => ?_).trans (List.map_id found)
  show (es.lookup e.1).map _ = some e
  rw [same, (lookup_eq_some_iff nodup).2 he]
  rfl

end Materialize

end EntityGraph
