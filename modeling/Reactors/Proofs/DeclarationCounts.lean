import Reactors.Proofs.Comparisons
import Reactors.Proofs.Nesting
import Reactors.Proofs.OrderedMaps
import Reactors.Proofs.Subtrees

/-!
# How many declarations an instance keeps

Every instance of an elaborated tree has a child for each site of its definition, and a trigger
for each declared one besides the startup timer: names that come twice among the sites or among
the triggers are refused.  With parameters it is otherwise.  They are set one after the other in a
map, and a name that is set again takes the new value in the old place.  Of the declarations with
one name only the last one counts, and an instance has as many parameters as there are different
names; it keeps all the declarations exactly when no name is declared twice.

## Main definitions

* `Instance.Keeps` — what an instance keeps of the declarations of its definition.

## Main results

* `Component.keeps_outermost` — what the outermost instance of a component keeps.
* `elaborate_keeps_declarations` — what the instances of a tree keep.
-/

namespace Reactors

/-! ### What an instance keeps -/

/-- What an instance keeps of the declarations of a definition. -/
structure Instance.Keeps (startupName : String) (r : ReactorDecl) (i : Instance) : Prop where
  /-- There is a child for every site. -/
  children : i.children.length = r.sites.length
  /-- No two sites have one name. -/
  sites : (r.sites.map Site.name).Nodup
  /-- There is a trigger for every declared one, and the startup timer. -/
  triggers : i.triggers.length =
    1 + r.inputs.length + r.outputs.length + r.timers.length + r.actions.length
  /-- No two triggers have one name, that of the startup timer included. -/
  triggerNames : (startupName :: r.triggerNames).Nodup
  /-- Of every parameter name the last declaration counts: its default or an override is evaluated
  in some scope. -/
  parameters : ∃ overrides scope, ∀ name, i.parameters.get? name =
    (r.parameters.reverse.find? (·.name == name)).map (·.boundIn overrides scope)
  /-- There are as many parameters as there are names of parameters. -/
  names : i.parameters.size = (r.parameters.map ParameterDecl.name).dedup.length

/-- The value of a parameter is that of the last declaration with its name. -/
theorem ReactorDecl.get?_parametersIn (r : ReactorDecl) (overrides : OrderedMap Expr)
    (scope : Scope) (name : String) : (r.parametersIn overrides scope).get? name =
      (r.parameters.reverse.find? (·.name == name)).map (·.boundIn overrides scope) := by
  unfold parametersIn
  rw [OrderedMap.get?_ofList, ← List.map_reverse, List.find?_map, Option.map_map]
  rfl

theorem ReactorDecl.mem_keys_parametersIn (r : ReactorDecl) (overrides : OrderedMap Expr)
    (scope : Scope) (name : String) :
    name ∈ (r.parametersIn overrides scope).keys ↔ name ∈ r.parameters.map ParameterDecl.name := by
  rw [OrderedMap.mem_keys_iff, get?_parametersIn, ← Option.isSome_iff_exists, Option.isSome_map,
    List.find?_isSome]
  simp

namespace Component

theorem length_numbers (next : Nat) (cs : List Component) :
    (numbers next cs).length = cs.length := by
  induction cs generalizing next with
  | nil => rfl
  | cons c cs ih => rw [numbers, List.length_cons, List.length_cons, ih]

/-- The outermost instance of an unrolled definition keeps its sites and triggers, and the
parameters up to repeated names. -/
theorem keeps_outermost {e : Elaborator} {t : Definitions} {around : List String}
    {path name : String} {r : ReactorDecl} {overrides : OrderedMap Expr} {scope : Scope}
    {c : Component} (h : e.expand t around path name r overrides scope = .ok c) (id : Nat)
    (parent : Option Nat) (depth : Nat) (path' : String) :
    (c.outermost id parent depth path').Keeps e.config.startupName r := by
  obtain ⟨-, own, children, triggers, hown, hchildren, htriggers, rfl⟩ :=
    Elaborator.expand_eq_ok.1 h
  obtain ⟨-, hdistinct, hmade⟩ := Elaborator.expandSites_eq_ok.1 hchildren
  obtain ⟨declared, hdeclared, hnames, rfl⟩ := Elaborator.triggers_eq_ok.1 htriggers
  obtain ⟨-, -, rfl⟩ := resolveParameters_eq_ok.1 hown
  refine ⟨?_, hdistinct, ?_, hnames, ⟨overrides, scope, ?_⟩, ?_⟩
  · show (numbers (id + 1) children).length = r.sites.length
    rw [length_numbers, hmade.length_eq]
  · show ((e.startup :: declared).map (·.ownedBy id)).length = _
    have hlength := congrArg List.length (Elaborator.names_of_declaredTriggers hdeclared)
    unfold ReactorDecl.triggerNames at hlength
    simp only [List.length_map, List.length_append] at hlength
    rw [List.length_map, List.length_cons, hlength]
    omega
  · exact r.get?_parametersIn overrides scope
  · exact OrderedMap.size_eq_of_mem_keys_iff (r.mem_keys_parametersIn overrides scope)

end Component

/-! ### Elaborated trees -/

/-- Every instance of a tree keeps the declarations of the definition of its reactor. -/
theorem exists_keeps {p : Program} {config : Config} {tree : InstanceTree}
    (h : elaborate p config = .ok tree) {i : Instance} (hi : i ∈ tree.instances) :
    ∃ r, p.reactor? i.reactor = some r ∧ i.Keeps config.startupName r := by
  obtain ⟨t, r, b, _, _, _, _, _, htable, hget, -, -, hb, houtermost⟩ := exists_outermost h
    (fun _ _ _ => True) (fun _ _ => trivial) (fun _ _ _ _ _ _ _ _ _ => trivial) hi
  refine ⟨r, ?_, ?_⟩
  · rw [Program.reactor?_eq_get? htable]
    exact hget
  · rw [houtermost]
    exact Component.keeps_outermost hb _ _ _ _

/-- **What the instances of a tree keep.**  The definition of the reactor of an instance has no name
twice among its sites or among its triggers, and the instance has a child for every site and a
trigger for every declared one and for the startup.  Of every parameter name it has the value of the
last declaration, so that it has as many parameters as are declared exactly when no name is
declared twice. -/
theorem elaborate_keeps_declarations {p : Program} {config : Config} {tree : InstanceTree}
    (h : elaborate p config = .ok tree) :
    ∀ i ∈ tree.instances, ∃ r, p.reactor? i.reactor = some r ∧ i.Keeps config.startupName r ∧
      (i.parameters.size = r.parameters.length ↔
        (r.parameters.map ParameterDecl.name).Nodup) := by
  intro i hi
  obtain ⟨r, hr, hkeeps⟩ := exists_keeps h hi
  refine ⟨r, hr, hkeeps, ?_⟩
  rw [hkeeps.names, ← length_dedup_eq_iff, List.length_map]

/-- A main reactor with two parameters. -/
def twoParameters (first second : String) : Program where
  main := "Main"
  reactors :=
    [((ReactorDecl.named "Main").withParameter first (.int 1)).withParameter second (.int 2)]

/-- Two parameters with different names are kept. -/
theorem two_parameters_kept : ∃ tree, elaborate (twoParameters "p" "q") {} = .ok tree ∧
    ∀ i ∈ tree.instances, ∃ r, (twoParameters "p" "q").reactor? i.reactor = some r ∧
      i.Keeps "startup" r ∧ (i.parameters.size = r.parameters.length ↔
        (r.parameters.map ParameterDecl.name).Nodup) := by
  have hruns : ∃ tree, elaborate (twoParameters "p" "q") {} = .ok tree :=
    exists_elaborate_of_within (by decide +kernel)
  obtain ⟨tree, h⟩ := hruns
  exact ⟨tree, h, elaborate_keeps_declarations h⟩

/-- Two parameters with one name are not refused: one is left, with the value of the second. -/
theorem repeated_parameter_lost : ∃ tree i, elaborate (twoParameters "p" "p") {} = .ok tree ∧
    i ∈ tree.instances ∧
      ((twoParameters "p" "p").reactor? i.reactor).map (·.parameters.length) = some 2 ∧
      i.parameters.size = 1 ∧ ((i.parameters.get? "p").bind (·.value.asInt?)) = some 2 := by
  have hrun : ((elaborate (twoParameters "p" "p") {}).toOption.map fun tree =>
      (tree.get? 0).map fun i =>
        (i.reactor, i.parameters.size, (i.parameters.get? "p").bind (·.value.asInt?))) =
      some (some ("Main", 1, some 2)) := by
    rw [elaborate_eq_within]
    decide +kernel
  have hruns : ∃ tree, elaborate (twoParameters "p" "p") {} = .ok tree :=
    exists_elaborate_of_within (by decide +kernel)
  obtain ⟨tree, h⟩ := hruns
  rw [h] at hrun
  obtain ⟨i, hi, hview⟩ := Option.map_eq_some_iff.1 (Option.some.inj hrun)
  obtain ⟨hreactor, hrest⟩ := Prod.mk.inj hview
  obtain ⟨hsize, hvalue⟩ := Prod.mk.inj hrest
  refine ⟨tree, i, h, List.mem_of_getElem? hi, ?_, hsize, hvalue⟩
  rw [hreactor]
  rfl

end Reactors
