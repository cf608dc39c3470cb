import Reactors.Proofs.NumberedTrees
import Reactors.Proofs.TriggerFields

/-!
# What a subtree depends on

The instances inside an instance are made from the definition of its reactor and the values of
its parameters.  Nothing else is handed down: neither where these values came from, nor the
expressions that gave them, nor what lies around or beside the instance.  Two instances of one
reactor with the same values therefore have the same subtree, up to the numbers, the depth and
the path at which it begins, and this across the trees of different main reactors too.

The argument has three steps.  Two unrollings of one definition whose parameters have the same
values yield the same triggers and the same components inside.  Every instance of a tree is the
outermost one of some component, which is laid out from there on.  And one component laid out
at two places yields instances that correspond.

## Main definitions

* `Scope.SameValues` — two scopes give the same names the same values.
* `Component.Within` — the components inside a component.
* `Instance.Corresponds`, `Instance.CorrespondsBelow` — instances at the same place in two
  subtrees.

## Main results

* `Elaborator.triggers_eq_ok_congr` — triggers depend on the values of parameters.
* `Elaborator.inside_eq_of_expand` — two unrollings of one definition.
* `Component.exists_layout_prefix` — every instance begins a component.
* `elaborate_subtrees_correspond` — the subtrees of two instances.
-/

namespace Reactors

/-! ### Scopes with the same values -/

/-- Two scopes give the same names the same values, wherever the values came from. -/
def Scope.SameValues (a b : Scope) : Prop :=
  ∀ name, (a.get? name).map Parameter.value = (b.get? name).map Parameter.value

namespace Scope.SameValues

variable {a b : Scope}

theorem refl (a : Scope) : a.SameValues a := fun _ => rfl

theorem mem_keys_iff (h : a.SameValues b) (name : String) : name ∈ a.keys ↔ name ∈ b.keys := by
  have hname := h name
  rw [OrderedMap.mem_keys_iff, OrderedMap.mem_keys_iff]
  cases ha : a.get? name <;> cases hb : b.get? name <;> simp_all

mutual

/-- The value of an expression depends on the values of the scope. -/
theorem valueIn_eq (h : a.SameValues b) : ∀ x : Expr, x.valueIn a = x.valueIn b
  | .int _ => rfl
  | .float _ => rfl
  | .bool _ => rfl
  | .str _ => rfl
  | .time _ => rfl
  | .code _ => rfl
  | .paramRef name => by
    have hinitial : ∀ s : Scope, (s.get? name).map (fun p => p.value.initial) =
        ((s.get? name).map Parameter.value).map Value.initial := fun s => by
      rw [Option.map_map]
      rfl
    rw [Expr.valueIn, Expr.valueIn, hinitial, hinitial, h name]
  | .list items => by rw [Expr.valueIn, Expr.valueIn, itemValues_eq h items]

theorem itemValues_eq (h : a.SameValues b) : ∀ xs : List Expr,
    Expr.itemValues a xs = Expr.itemValues b xs
  | [] => rfl
  | x :: xs => by rw [Expr.itemValues, Expr.itemValues, valueIn_eq h x, itemValues_eq h xs]

end

/-- The parameters of an instance depend on the values of the scope around it. -/
theorem parametersIn_eq (h : a.SameValues b) (r : ReactorDecl) (overrides : OrderedMap Expr) :
    r.parametersIn overrides a = r.parametersIn overrides b := by
  simp only [ReactorDecl.parametersIn, ParameterDecl.boundIn, h.valueIn_eq]

end Scope.SameValues

/-! ### Triggers -/

/-- Steps that yield the same for every item of a list yield the same for the list. -/
theorem mapM_eq_ok_congr {ε α β : Type} {f g : α → Except ε β} {as : List α}
    (h : ∀ a b, f a = .ok b ↔ g a = .ok b) {bs : List β} :
    as.mapM f = .ok bs ↔ as.mapM g = .ok bs := by
  simp only [mapM_eq_ok, h]

namespace Elaborator

variable {e e' : Elaborator} {owner owner' : Owner}

theorem timeOf_eq_ok_congr (h : owner.parameters.SameValues owner'.parameters) {trigger : String}
    {field : TriggerField} {x : Expr} {t : TimeValue} :
    e.timeOf owner trigger field x = .ok t ↔ e'.timeOf owner' trigger field x = .ok t := by
  simp only [timeOf_eq_ok, h.mem_keys_iff, h.valueIn_eq]

theorem widthOf_eq_ok_congr (h : owner.parameters.SameValues owner'.parameters) {port : String}
    {x : Expr} {width : UInt64} :
    e.widthOf owner port x = .ok width ↔ e'.widthOf owner' port x = .ok width := by
  simp only [widthOf_eq_ok, h.mem_keys_iff, h.valueIn_eq]

theorem timeField_eq_ok_congr (h : owner.parameters.SameValues owner'.parameters)
    {trigger : String} {field : TriggerField} {default t : TimeValue} {field? : Option Expr} :
    e.timeField owner trigger field default field? = .ok t ↔
      e'.timeField owner' trigger field default field? = .ok t := by
  cases field? with
  | none => rfl
  | some x => exact timeOf_eq_ok_congr h

theorem optionalField_eq_ok_congr {α : Type} {resolve resolve' : Expr → Except ElaborationError α}
    (h : ∀ x a, resolve x = .ok a ↔ resolve' x = .ok a) {field? : Option Expr} {a : Option α} :
    optionalField resolve field? = .ok a ↔ optionalField resolve' field? = .ok a := by
  cases field? with
  | none => rfl
  | some x => simp only [optionalField, map_eq_ok, h]

/-- The triggers of an instance depend on the values of its parameters. -/
theorem triggers_eq_ok_congr (hconfig : e.config = e'.config)
    (h : owner.parameters.SameValues owner'.parameters) {r : ReactorDecl} {ts : List Trigger} :
    e.triggers owner r = .ok ts ↔ e'.triggers owner' r = .ok ts := by
  have hports : ∀ direction (d : PortDecl) t,
      e.port owner direction d = .ok t ↔ e'.port owner' direction d = .ok t := fun _ d t => by
    have hwidth : ∀ x w, e.widthOf owner d.name x = .ok w ↔ e'.widthOf owner' d.name x = .ok w :=
      fun _ _ => widthOf_eq_ok_congr h
    simp only [port_eq_ok, optionalField_eq_ok_congr hwidth]
  have htimes : ∀ name field default (x? : Option Expr) time,
      e.timeField owner name field default x? = .ok time ↔
        e'.timeField owner' name field default x? = .ok time :=
    fun _ _ _ _ _ => timeField_eq_ok_congr h
  have htimers : ∀ (d : TimerDecl) t, e.timer owner d = .ok t ↔ e'.timer owner' d = .ok t :=
    fun d t => by simp only [timer_eq_ok, htimes, hconfig]
  have hactions : ∀ (d : ActionDecl) t, e.action owner d = .ok t ↔ e'.action owner' d = .ok t :=
    fun d t => by
      have hspacing : ∀ x s, e.timeOf owner d.name .minSpacing x = .ok s ↔
          e'.timeOf owner' d.name .minSpacing x = .ok s := fun _ _ => timeOf_eq_ok_congr h
      simp only [action_eq_ok, htimes, optionalField_eq_ok_congr hspacing]
  have hstartup : e.startup = e'.startup := by rw [startup, startup, hconfig]
  simp only [triggers_eq_ok, declaredTriggers_eq_ok, mapM_eq_ok_congr (hports _),
    mapM_eq_ok_congr htimers, mapM_eq_ok_congr hactions, hconfig, hstartup]

/-! ### Two unrollings of one definition -/

variable {t : Definitions}

/-- Two lists are equal if they are related to one list item by item, and no item has different
partners in the two relations. -/
theorem eq_of_forall₂_of_forall₂ {α β : Type} {R S : α → β → Prop} {as : List α}
    {bs cs : List β} (hb : List.Forall₂ R as bs) (hc : List.Forall₂ S as cs)
    (h : ∀ a b c, R a b → S a c → b = c) : bs = cs := by
  induction hb generalizing cs with
  | nil => exact (List.forall₂_nil_left_iff.1 hc).symm
  | cons hab _ ih =>
    obtain ⟨c, cs', hac, hrest, rfl⟩ := List.forall₂_cons_left_iff.1 hc
    rw [h _ _ _ hab hac, ih hrest]

/-- **Two unrollings of one definition** whose parameters have the same values have the same
triggers and the same components inside.  The induction is on the first of them: the components
at a site get the same parameters in both, since the scopes around them have the same values. -/
theorem inside_eq_of_expand (hconfig : e.config = e'.config) {around around' : List String}
    {path path' name name' : String} {r : ReactorDecl} {overrides overrides' : OrderedMap Expr}
    {scope scope' : Scope} {c c' : Component}
    (h : e.expand t around path name r overrides scope = .ok c)
    (h' : e'.expand t around' path' name' r overrides' scope' = .ok c')
    (hvalues : c.parameters.SameValues c'.parameters) :
    c.triggers = c'.triggers ∧ c.children = c'.children := by
  refine expand_induction (e := e) (t := t)
    (P := fun _ _ _ r _ _ c => ∀ around' path' name' overrides' scope' c',
      e'.expand t around' path' name' r overrides' scope' = .ok c' →
      c.parameters.SameValues c'.parameters →
      c.triggers = c'.triggers ∧ c.children = c'.children) ?_ h _ _ _ _ _ _ h' hvalues
  intro around path name r _ _ parameters triggers children _ _ ht _ hchildren
    around' path' name' overrides' scope' c' h' hvalues
  obtain ⟨-, parameters', children', triggers', -, hc', ht', rfl⟩ := expand_eq_ok.1 h'
  obtain ⟨-, -, hchildren'⟩ := expandSites_eq_ok.1 hc'
  have hvalues : parameters.SameValues parameters' := hvalues
  have htriggers : triggers = triggers' := by
    have hother : e'.triggers ⟨path', parameters'⟩ r = .ok triggers :=
      (triggers_eq_ok_congr hconfig hvalues).1 ht
    rw [hother] at ht'
    exact Except.ok.inj ht'
  refine ⟨htriggers, eq_of_forall₂_of_forall₂ hchildren hchildren' ?_⟩
  rintro s c c' ⟨d, hget, -, hrun, hbelow⟩ ⟨d', hget', -, hrun'⟩
  rw [hget, Option.some.injEq] at hget'
  subst hget'
  have hinside := hbelow _ _ _ _ _ _ hrun'
  -- both take the expressions of one site and evaluate them in scopes with the same values
  obtain ⟨-, own, _, _, hp, -, -, rfl⟩ := expand_eq_ok.1 hrun
  obtain ⟨-, own', _, _, hp', -, -, rfl⟩ := expand_eq_ok.1 hrun'
  have hown : own = own' := by
    rw [(resolveParameters_eq_ok.1 hp).2.2, (resolveParameters_eq_ok.1 hp').2.2,
      hvalues.parametersIn_eq]
  subst hown
  obtain ⟨rfl, rfl⟩ := hinside (.refl own)
  rfl

end Elaborator

/-! ### Components and the instances that begin them -/

/-- A component is another one, or lies somewhere inside it. -/
inductive Component.Within : Component → Component → Prop where
  | refl (c : Component) : Within c c
  | inside {b c d : Component} : c ∈ d.children → Within b c → Within b d

/-- What lies inside an unrolled definition is unrolled from definitions of the table; and what
passes from a definition to those of its sites, which have its parameters as their scope, holds of
them. -/
theorem Elaborator.exists_expand_of_within_of_passes {e : Elaborator} {t : Definitions}
    (P : ReactorDecl → OrderedMap Expr → Scope → Prop)
    (hpasses : ∀ r overrides scope s d, t.get? r.name = some r → P r overrides scope →
      s ∈ r.sites → t.get? s.reactor = some d → P d s.overrides (r.parametersIn overrides scope))
    {b c : Component} (hwithin : b.Within c) {around : List String} {path name : String}
    {r : ReactorDecl} {overrides : OrderedMap Expr} {scope : Scope}
    (hget : t.get? r.name = some r) (hP : P r overrides scope)
    (h : e.expand t around path name r overrides scope = .ok c) :
    ∃ d, t.get? b.reactor = some d ∧ ∃ around path name overrides scope, P d overrides scope ∧
      e.expand t around path name d overrides scope = .ok b := by
  induction hwithin generalizing around path name r overrides scope with
  | refl =>
    refine ⟨r, ?_, around, path, name, overrides, scope, hP, h⟩
    obtain ⟨-, _, _, _, -, -, -, rfl⟩ := expand_eq_ok.1 h
    exact hget
  | inside hc _ ih =>
    obtain ⟨-, _, children, _, hown, hchildren, -, rfl⟩ := expand_eq_ok.1 h
    obtain ⟨-, -, rfl⟩ := resolveParameters_eq_ok.1 hown
    obtain ⟨-, -, hmade⟩ := expandSites_eq_ok.1 hchildren
    obtain ⟨s, hs, d, hd, -, hrun⟩ := exists_of_forall₂_left hmade.flip hc
    have hself : t.get? d.name = some d := by rwa [Definitions.name_of_get? hd]
    exact ih hself (hpasses r overrides scope s d hget hP hs hd) hrun

theorem Elaborator.exists_expand_of_within {e : Elaborator} {t : Definitions} {b c : Component}
    (hwithin : b.Within c) {around : List String} {path name : String} {r : ReactorDecl}
    {overrides : OrderedMap Expr} {scope : Scope} (hget : t.get? r.name = some r)
    (h : e.expand t around path name r overrides scope = .ok c) :
    ∃ d, t.get? b.reactor = some d ∧ ∃ around path name overrides scope,
      e.expand t around path name d overrides scope = .ok b := by
  obtain ⟨d, hd, around, path, name, overrides, scope, -, hrun⟩ :=
    exists_expand_of_within_of_passes (fun _ _ _ => True) (fun _ _ _ _ _ _ _ _ _ => trivial)
      hwithin hget trivial h
  exact ⟨d, hd, around, path, name, overrides, scope, hrun⟩

namespace Component

/-- The outermost instance of a component with a number, inside a parent, at a depth and a path. -/
def outermost (id : Nat) (parent : Option Nat) (depth : Nat) (path : String) (c : Component) :
    Instance where
  id := id
  name := c.name
  reactor := c.reactor
  parent := parent
  depth := depth
  path := path
  children := numbers (id + 1) c.children
  parameters := c.parameters
  triggers := c.triggers.map (·.ownedBy id)

/-- A component is laid out as its outermost instance and the components inside behind it. -/
theorem layout_eq (id : Nat) (parent : Option Nat) (depth : Nat) (path : String) (c : Component) :
    c.layout id parent depth path =
      c.outermost id parent depth path :: layoutAll (id + 1) id (depth + 1) path c.children := by
  cases c
  rfl

mutual

/-- Every instance of a component is the outermost one of a component inside it, which is laid out
from there on. -/
theorem exists_layout_prefix (id : Nat) (parent : Option Nat) (depth : Nat) (path : String) :
    ∀ (c : Component) (k : Nat) (i : Instance), (c.layout id parent depth path)[k]? = some i →
      ∃ b : Component, b.Within c ∧
        b.layout i.id i.parent i.depth i.path <+: (c.layout id parent depth path).drop k
  | .mk name reactor parameters triggers children => by
    intro k i hi
    cases k with
    | zero =>
      rw [layout, List.getElem?_cons_zero, Option.some.injEq] at hi
      subst hi
      exact ⟨_, .refl _, List.prefix_refl _⟩
    | succ k =>
      rw [layout, List.getElem?_cons_succ] at hi
      obtain ⟨c, hc, b, hb, hprefix⟩ :=
        exists_layoutAll_prefix (id + 1) id (depth + 1) path children k i hi
      exact ⟨b, .inside hc hb, by rwa [layout, List.drop_succ_cons]⟩

theorem exists_layoutAll_prefix (next parent depth : Nat) (path : String) :
    ∀ (cs : List Component) (k : Nat) (i : Instance),
      (layoutAll next parent depth path cs)[k]? = some i →
      ∃ c ∈ cs, ∃ b : Component, b.Within c ∧
        b.layout i.id i.parent i.depth i.path <+: (layoutAll next parent depth path cs).drop k
  | [], _, _ => by
    intro hi
    cases hi
  | c :: cs, k, i => by
    intro hi
    rw [layoutAll] at hi ⊢
    by_cases hk : k < (c.layout next (some parent) depth (Elaborator.sitePath path c.name)).length
    · rw [List.getElem?_append_left hk] at hi
      obtain ⟨b, hb, hprefix⟩ := exists_layout_prefix next (some parent) depth _ c k i hi
      refine ⟨c, List.mem_cons_self, b, hb, ?_⟩
      rw [List.drop_append_of_le_length (Nat.le_of_lt hk)]
      exact hprefix.trans (List.prefix_append _ _)
    · -- the instance belongs to one of the components behind the first
      have hk := Nat.not_lt.1 hk
      rw [List.getElem?_append_right hk] at hi
      obtain ⟨d, hd, b, hb, hprefix⟩ :=
        exists_layoutAll_prefix (next + c.size) parent depth path cs _ i hi
      refine ⟨d, List.mem_cons_of_mem _ hd, b, hb, ?_⟩
      rwa [List.drop_append, List.drop_eq_nil_of_le hk, List.nil_append]

end

end Component

/-! ### Corresponding instances -/

/-- Two numbers are equally far behind two others. -/
def EquallyFar (base base' n n' : Nat) : Prop := ∃ k, n = base + k ∧ n' = base' + k

namespace EquallyFar

variable {base base' n n' : Nat}

theorem refl (base base' : Nat) : EquallyFar base base' base base' := ⟨0, rfl, rfl⟩

theorem add (h : EquallyFar base base' n n') (m : Nat) :
    EquallyFar base base' (n + m) (n' + m) := by
  obtain ⟨k, rfl, rfl⟩ := h
  exact ⟨k + m, Nat.add_assoc .., Nat.add_assoc ..⟩

theorem succ (h : EquallyFar base base' n n') : EquallyFar base base' (n + 1) (n' + 1) := h.add 1

end EquallyFar

/-- Two instances are at the same place in the subtrees of two others, and of one make: their
reactors are the same, and so are their numbers and those of their children, their depths and
their paths when they are counted from the top; and they own the same triggers. -/
structure Instance.Corresponds (top top' i i' : Instance) : Prop where
  id : EquallyFar top.id top'.id i.id i'.id
  reactor : i.reactor = i'.reactor
  depth : EquallyFar top.depth top'.depth i.depth i'.depth
  path : ∃ rest, i.path = top.path ++ rest ∧ i'.path = top'.path ++ rest
  children : List.Forall₂ (EquallyFar top.id top'.id) i.children i'.children
  triggers : ∃ ts : List Trigger,
    i.triggers = ts.map (·.ownedBy i.id) ∧ i'.triggers = ts.map (·.ownedBy i'.id)

/-- Two instances correspond below the top, where their sites have one name, their parameters are
the same in values and provenance, and their parents are at the same place as well. -/
structure Instance.CorrespondsBelow (top top' i i' : Instance) : Prop
    extends Instance.Corresponds top top' i i' where
  name : i.name = i'.name
  parameters : i.parameters = i'.parameters
  parent : ∃ m m', i.parent = some m ∧ i'.parent = some m' ∧ EquallyFar top.id top'.id m m'

namespace Component

section

variable {top top' : Instance}

/-- Components that are laid out at equally far places have equally far numbers. -/
theorem numbers_equallyFar {next next' : Nat} (h : EquallyFar top.id top'.id next next')
    (cs : List Component) :
    List.Forall₂ (EquallyFar top.id top'.id) (numbers next cs) (numbers next' cs) := by
  induction cs generalizing next next' with
  | nil => exact .nil
  | cons c cs ih => exact .cons h (ih (h.add c.size))

/-- The outermost instances of two components with the same triggers and the same components inside
correspond, if they are put at corresponding places. -/
theorem outermost_corresponds {c c' : Component} (hreactor : c.reactor = c'.reactor)
    (htriggers : c.triggers = c'.triggers) (hchildren : c.children = c'.children)
    {id id' depth depth' : Nat} {parent parent' : Option Nat} {path path' : String}
    (hid : EquallyFar top.id top'.id id id')
    (hdepth : EquallyFar top.depth top'.depth depth depth')
    (hpath : ∃ rest, path = top.path ++ rest ∧ path' = top'.path ++ rest) :
    Instance.Corresponds top top' (c.outermost id parent depth path)
      (c'.outermost id' parent' depth' path') where
  id := hid
  reactor := hreactor
  depth := hdepth
  path := hpath
  children := by
    rw [outermost, outermost, hchildren]
    exact numbers_equallyFar hid.succ _
  triggers := ⟨c.triggers, rfl, by rw [htriggers]; rfl⟩

mutual

/-- One component laid out at two places that correspond has instances that correspond. -/
theorem layout_corresponds {id id' parent parent' depth depth' : Nat} {path path' : String}
    (hid : EquallyFar top.id top'.id id id') (hparent : EquallyFar top.id top'.id parent parent')
    (hdepth : EquallyFar top.depth top'.depth depth depth')
    (hpath : ∃ rest, path = top.path ++ rest ∧ path' = top'.path ++ rest) :
    ∀ c : Component, List.Forall₂ (Instance.CorrespondsBelow top top')
      (c.layout id (some parent) depth path) (c.layout id' (some parent') depth' path')
  | .mk name reactor parameters triggers children => by
    rw [layout_eq, layout_eq]
    refine .cons ⟨outermost_corresponds rfl rfl rfl hid hdepth hpath, rfl, rfl, ?_⟩ ?_
    · exact ⟨parent, parent', rfl, rfl, hparent⟩
    · exact layoutAll_corresponds hid.succ hid hdepth.succ hpath children

theorem layoutAll_corresponds {next next' parent parent' depth depth' : Nat} {path path' : String}
    (hnext : EquallyFar top.id top'.id next next')
    (hparent : EquallyFar top.id top'.id parent parent')
    (hdepth : EquallyFar top.depth top'.depth depth depth')
    (hpath : ∃ rest, path = top.path ++ rest ∧ path' = top'.path ++ rest) :
    ∀ cs : List Component, List.Forall₂ (Instance.CorrespondsBelow top top')
      (layoutAll next parent depth path cs) (layoutAll next' parent' depth' path' cs)
  | [] => .nil
  | c :: cs => by
    rw [layoutAll, layoutAll]
    have hsite : ∃ rest, Elaborator.sitePath path c.name = top.path ++ rest ∧
        Elaborator.sitePath path' c.name = top'.path ++ rest := by
      obtain ⟨rest, rfl, rfl⟩ := hpath
      refine ⟨rest ++ "." ++ c.name, ?_, ?_⟩ <;>
        simp only [Elaborator.sitePath, String.append_assoc]
    exact List.rel_append (layout_corresponds hnext hparent hdepth hsite c)
      (layoutAll_corresponds (hnext.add c.size) hparent hdepth hpath cs)

end

end

/-- Every instance of the tree of a component is the outermost one of a component inside it, which
is laid out from there on. -/
theorem exists_within {c : Component} {n : Nat} {i : Instance} (hi : c.toTree.get? n = some i) :
    ∃ b : Component, b.Within c ∧ i = b.outermost i.id i.parent i.depth i.path ∧
      b.layout i.id i.parent i.depth i.path <+: (c.layout 0 none 0 c.name).drop n := by
  obtain ⟨b, hwithin, rest, hrest⟩ := exists_layout_prefix 0 none 0 c.name c n i hi
  have hhead : ((c.layout 0 none 0 c.name).drop n).head? = some i := by
    rw [List.head?_drop]
    exact hi
  rw [← hrest, layout_eq, List.cons_append, List.head?_cons, Option.some.injEq] at hhead
  exact ⟨b, hwithin, hhead.symm, rest, hrest⟩

/-- The walk from an instance of the tree of an unrolled definition yields a component that is
unrolled from the definition of its reactor, with the instance as its outermost one. -/
theorem exists_subtree {e : Elaborator} {t : Definitions} {around : List String}
    {path name : String} {r : ReactorDecl} {overrides : OrderedMap Expr} {scope : Scope}
    {c : Component} (hget : t.get? r.name = some r)
    (h : e.expand t around path name r overrides scope = .ok c) {n : Nat} {i : Instance}
    (hi : c.toTree.get? n = some i) :
    ∃ d b, t.get? i.reactor = some d ∧
      (∃ around path name overrides scope,
        e.expand t around path name d overrides scope = .ok b) ∧
      i = b.outermost i.id i.parent i.depth i.path ∧
      c.toTree.preorderFrom n = i :: layoutAll (i.id + 1) i.id (i.depth + 1) i.path b.children := by
  obtain ⟨b, hwithin, hhead, hprefix⟩ := exists_within hi
  obtain ⟨d, hd, hrun⟩ := Elaborator.exists_expand_of_within hwithin hget h
  have hid : i.id = n := id_of_get?_toTree hi
  have hwalk : c.toTree.preorderFrom n = b.layout i.id i.parent i.depth i.path := by
    rw [hid] at hprefix ⊢
    exact preorderFrom_eq_layout c.descends_toTree n i.parent i.depth i.path b hprefix
  -- the walk begins with the instance itself
  rw [layout_eq, ← hhead] at hwalk
  have hreactor : i.reactor = b.reactor := congrArg Instance.reactor hhead
  exact ⟨d, b, hreactor ▸ hd, hrun, hhead, hwalk⟩

end Component

/-! ### Subtrees -/

/-- Every instance of an elaborated tree is the outermost one of a component, which is unrolled from
the definition of its reactor; and what passes from the definitions of a program to those of
their sites holds of this definition, with the overrides and the scope that it has there. -/
theorem exists_outermost {p : Program} {config : Config} {tree : InstanceTree}
    (h : elaborate p config = .ok tree) (P : ReactorDecl → OrderedMap Expr → Scope → Prop)
    (hmain : ∀ r ∈ p.reactors, P r .empty .empty)
    (hpasses : ∀ r ∈ p.reactors, ∀ overrides scope, P r overrides scope → ∀ s ∈ r.sites,
      ∀ d ∈ p.reactors, P d s.overrides (r.parametersIn overrides scope))
    {i : Instance} (hi : i ∈ tree.instances) :
    ∃ t r b around path name overrides scope, p.definitions = .ok t ∧
      t.get? i.reactor = some r ∧ r ∈ p.reactors ∧ P r overrides scope ∧
      Elaborator.expand ⟨config, Expr.text⟩ t around path name r overrides scope = .ok b ∧
      i = b.outermost i.id i.parent i.depth i.path := by
  obtain ⟨t, main, c, htable, hget, hrun, rfl⟩ := elaborate_eq_ok.1 h
  have hdefined (name : String) (d : ReactorDecl) (hd : t.get? name = some d) :
      d ∈ p.reactors := by
    rw [← Program.definitions_eq_ok.1 htable]
    exact List.mem_of_find?_eq_some hd
  have hself : t.get? main.name = some main := by rwa [Definitions.name_of_get? hget]
  -- the instance is the outermost one of a component that sites lead to from the main one
  obtain ⟨n, hn⟩ := List.mem_iff_getElem?.1 hi
  obtain ⟨b, hwithin, houtermost, -⟩ := Component.exists_within hn
  obtain ⟨r, hr, around, path, name, overrides, scope, hP, hb⟩ :=
    Elaborator.exists_expand_of_within_of_passes P
      (fun r overrides scope s d hr hP hs hd => hpasses r (hdefined _ r hr) overrides scope hP s hs
        d (hdefined _ d hd))
      hwithin hself (hmain main (hdefined _ main hget)) hrun
  have hreactor : i.reactor = b.reactor := congrArg Instance.reactor houtermost
  rw [← hreactor] at hr
  exact ⟨t, r, b, around, path, name, overrides, scope, htable, hr, hdefined _ r hr, hP, hb,
    houtermost⟩

/-- **A subtree depends only on the reactor and the values of its parameters.**  Take two instances
of one reactor whose parameters have the same names and values, in the trees of main reactors of
one table under one configuration, which may be the same tree.  Then the instances inside them
correspond one by one in the order of the walk: their names, reactors, parameters and triggers
are the same, and their numbers, depths and paths differ only by those of the two instances. -/
theorem elaborate_subtrees_correspond {e e' : Elaborator} (hconfig : e.config = e'.config)
    {t : Definitions} {main main' : String} {tree tree' : InstanceTree}
    (h : e.elaborate t main = .ok tree) (h' : e'.elaborate t main' = .ok tree') {n n' : Nat}
    {i i' : Instance} (hi : tree.get? n = some i) (hi' : tree'.get? n' = some i')
    (hreactor : i.reactor = i'.reactor) (hvalues : i.parameters.SameValues i'.parameters) :
    ∃ below below', tree.preorderFrom n = i :: below ∧ tree'.preorderFrom n' = i' :: below' ∧
      Instance.Corresponds i i' i i' ∧
      List.Forall₂ (Instance.CorrespondsBelow i i') below below' := by
  obtain ⟨r, c, hr, hc, rfl⟩ := Elaborator.elaborate_eq_ok.1 h
  obtain ⟨r', c', hr', hc', rfl⟩ := Elaborator.elaborate_eq_ok.1 h'
  -- each instance is the head of a component that is unrolled from its reactor
  obtain ⟨d, b, hd, ⟨_, _, _, _, _, hrun⟩, hhead, hwalk⟩ :=
    Component.exists_subtree (Definitions.name_of_get? hr ▸ hr) hc hi
  obtain ⟨d', b', hd', ⟨_, _, _, _, _, hrun'⟩, hhead', hwalk'⟩ :=
    Component.exists_subtree (Definitions.name_of_get? hr' ▸ hr') hc' hi'
  rw [← hreactor, hd, Option.some.injEq] at hd'
  subst hd'
  have hparameters : b.parameters.SameValues b'.parameters := by
    have hown : i.parameters = b.parameters := congrArg Instance.parameters hhead
    have hown' : i'.parameters = b'.parameters := congrArg Instance.parameters hhead'
    rwa [← hown, ← hown']
  have hmakes : b.reactor = b'.reactor := by
    have hown : i.reactor = b.reactor := congrArg Instance.reactor hhead
    have hown' : i'.reactor = b'.reactor := congrArg Instance.reactor hhead'
    rw [← hown, ← hown', hreactor]
  -- overrides and scopes of the two runs differ, but what comes inside depends on the values alone
  obtain ⟨htriggers, hchildren⟩ := Elaborator.inside_eq_of_expand hconfig hrun hrun' hparameters
  have hpath : ∃ rest, i.path = i.path ++ rest ∧ i'.path = i'.path ++ rest :=
    ⟨"", by simp, by simp⟩
  refine ⟨_, _, hwalk, hwalk', ?_, ?_⟩
  · have houtermost : Instance.Corresponds i i' (b.outermost i.id i.parent i.depth i.path)
        (b'.outermost i'.id i'.parent i'.depth i'.path) :=
      Component.outermost_corresponds hmakes htriggers hchildren (.refl _ _) (.refl _ _) hpath
    rwa [← hhead, ← hhead'] at houtermost
  · rw [hchildren]
    exact Component.layoutAll_corresponds (EquallyFar.refl _ _).succ (.refl _ _)
      (EquallyFar.refl _ _).succ hpath b'.children

/-- A box has a number and hands it to the part inside.  The main reactor holds one box, whose
number its site gives, and a shelf with another one, whose number is the default. -/
def boxes : Definitions where
  reactors :=
    [((ReactorDecl.named "Main").withInstance "a" "Box" [("n", .int 2)]).withInstance "s" "Shelf"
        [],
      (ReactorDecl.named "Shelf").withInstance "b" "Box" [],
      ((ReactorDecl.named "Box").withParameter "n" (.int 2)).withInstance "part" "Part"
        [("m", .paramRef "n")],
      (ReactorDecl.named "Part").withParameter "m" (.int 0)]
  distinct := by decide

/-- The reactor of an instance, and its parameters as far as they are integers. -/
def Instance.counts (i : Instance) : String × List (String × Option Int64) :=
  (i.reactor, i.parameters.entries.map fun e => (e.1, e.2.value.asInt?))

/-- Scopes with a single parameter of one name, which is the same integer in both. -/
theorem Scope.SameValues.of_single {a b : Scope} {name : String} {n : Int64}
    (ha : a.entries.map (fun e => (e.1, e.2.value.asInt?)) = [(name, some n)])
    (hb : b.entries.map (fun e => (e.1, e.2.value.asInt?)) = [(name, some n)]) :
    a.SameValues b := by
  have hvalue : ∀ {s : Scope}, s.entries.map (fun e => (e.1, e.2.value.asInt?)) =
      [(name, some n)] → ∀ k, (s.get? k).map Parameter.value =
        if name = k then some (.int n) else none := by
    intro s hs k
    obtain ⟨⟨key, p⟩, hentries, hview⟩ := List.map_eq_singleton_iff.1 hs
    obtain ⟨rfl, hint⟩ := Prod.mk.inj hview
    have hp : p.value = .int n := by
      cases hv : p.value <;> simp_all [Value.asInt?]
    rw [OrderedMap.get?, hentries]
    by_cases hk : key = k
    · simp [OrderedMap.lookup?, hk, hp]
    · simp [OrderedMap.lookup?, hk]
  intro k
  rw [hvalue ha, hvalue hb]

/-- The box of the main reactor has the same inside as the one on a shelf that is elaborated by
itself, although one number is given by a site and the other one is the default. -/
theorem boxes_correspond : ∃ tree tree' i i',
    Elaborator.elaborate ⟨{}, Expr.text⟩ boxes "Main" = .ok tree ∧
    Elaborator.elaborate ⟨{}, Expr.text⟩ boxes "Shelf" = .ok tree' ∧
    tree.get? 1 = some i ∧ tree'.get? 1 = some i' ∧ i.path = "Main.a" ∧ i'.path = "Shelf.b" ∧
    ∃ below below', tree.preorderFrom 1 = i :: below ∧ tree'.preorderFrom 1 = i' :: below' ∧
      Instance.Corresponds i i' i i' ∧
      List.Forall₂ (Instance.CorrespondsBelow i i') below below' := by
  have hbox : ∀ main path, (elaborateWithin 4 ⟨main, boxes.reactors⟩ {}).toOption.bind
      (fun tree => (tree.get? 1).map fun i => (i.path, i.counts)) =
        some (path, "Box", [("n", some 2)]) →
      ∃ tree i, Elaborator.elaborate ⟨{}, Expr.text⟩ boxes main = .ok tree ∧
        tree.get? 1 = some i ∧ i.path = path ∧ i.counts = ("Box", [("n", some 2)]) := by
    intro main path hview
    have hwithin := boxes.elaborate_eq_within main {}
    cases hrun : elaborateWithin 4 ⟨main, boxes.reactors⟩ {} with
    | error cause =>
      rw [hrun] at hview
      cases hview
    | ok tree =>
      rw [hrun] at hview
      obtain ⟨i, hi, heq⟩ := Option.map_eq_some_iff.1 hview
      obtain ⟨hpath, hcounts⟩ := Prod.mk.inj heq
      exact ⟨tree, i, hwithin.trans hrun, hi, hpath, hcounts⟩
  obtain ⟨tree, i, h, hi, hpath, hcounts⟩ := hbox "Main" "Main.a" (by decide +kernel)
  obtain ⟨tree', i', h', hi', hpath', hcounts'⟩ := hbox "Shelf" "Shelf.b" (by decide +kernel)
  obtain ⟨hreactor, hnumber⟩ := Prod.mk.inj hcounts
  obtain ⟨hreactor', hnumber'⟩ := Prod.mk.inj hcounts'
  exact ⟨tree, tree', i, i', h, h', hi, hi', hpath, hpath', elaborate_subtrees_correspond rfl h h'
    hi hi' (hreactor.trans hreactor'.symm) (.of_single hnumber hnumber')⟩

end Reactors
