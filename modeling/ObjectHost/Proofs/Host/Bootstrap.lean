-- SUMMARY: What a realm has from its start on, in its registry, its builtin namespace and its exception table.
import ObjectHost.Host.Realm
import ObjectHost.Proofs.Class.Installation
import ObjectHost.Proofs.Class.Order

/-!
# Starting a realm

A realm is started with its builtin classes, and a builtin class is found in
three places: in the registry, in the builtin namespace and, if it is an
exception class, in the exception table. At the start the three agree on every
name. They go on to agree when classes are defined later, since a name that is
in use is not defined again.
-/

namespace ObjectHost

/-! ## Descent -/

theorem ClassNode.mem_ancestors_of_mem_forestClasses {parent : Class} {index : Nat} {forest : List ClassNode}
    {c : Class} (hc : c ∈ forestClasses parent index forest) : parent ∈ c.ancestors := by
  induction forest using forest_induction generalizing parent index with
  | nil => cases hc
  | cons name children trees ihc iht =>
    rw [forestClasses_cons, List.mem_cons, List.mem_append] at hc
    have hnode : parent ∈ (Class.sub index name parent).ancestors :=
      List.mem_cons_of_mem _ parent.self_mem_ancestors
    rcases hc with rfl | hbelow | hrest
    · exact hnode
    · exact Class.ancestors_trans (ihc hbelow) hnode
    · exact iht hrest

/-! ## Builtin names -/

namespace Builtin

/-- The names of the exception classes, the base first. -/
def exceptionNames : List String := baseException :: exceptions.names

/-- The names of all builtin classes in the order they are defined. -/
def names : List String := Class.rootName :: functionClass :: methodClass :: moduleClass :: exceptionNames

theorem nodup_exceptionNames : exceptionNames.Nodup := by decide +kernel

theorem mem_names_of_mem_exceptionNames {name : String} (h : name ∈ exceptionNames) : name ∈ names :=
  List.mem_append_right [Class.rootName, functionClass, methodClass, moduleClass] h

end Builtin

/-! ## Started realms -/

/-- The realm `id` has its builtin classes, the same in all of its tables. -/
structure Realm.Sound (id : RealmId) (r : Realm) : Prop where
  wellFormed : r.classes.WellFormed
  home : r.classes.home = id
  defined : ∀ name ∈ Builtin.names, r.classes.contains name = true
  builtins : ∀ name, r.builtins.get? name =
    if name ∈ Builtin.names then (r.classes.get? name).map Value.cls else none
  taxonomy : ∀ name, r.taxonomy.class? name =
    if name ∈ Builtin.exceptionNames then r.classes.get? name else none
  base : r.classes.get? Builtin.baseException = some r.taxonomy.base
  descend : ∀ name ∈ Builtin.exceptionNames, ∀ c, r.classes.get? name = some c → r.taxonomy.base ∈ c.ancestors

namespace Installation

variable {i : Installation}

theorem home_including (i : Installation) (made : List Class) : (i.including made).classes.home = i.classes.home := by
  induction made generalizing i with
  | nil => rfl
  | cons c made ih => exact ih (i.enter c)

theorem names_enter (i : Installation) (c : Class) : (i.enter c).classes.names = i.classes.names ++ [c.name] := by
  simp [enter, Registry.names, Registry.classes_append]

theorem names_including (i : Installation) (made : List Class) :
    (i.including made).classes.names = i.classes.names ++ made.map Class.name := by
  induction made generalizing i with
  | nil => exact (List.append_nil _).symm
  | cons c made ih =>
    refine (ih (i.enter c)).trans ?_
    rw [names_enter, List.append_assoc, List.map_cons, List.singleton_append]

/-- A class with a name that is not known yet can be defined beneath any class that is there. -/
theorem define_next {known : List String} {name : String} {parent : Class} (hwf : i.classes.WellFormed)
    (hnames : i.classes.names = known) (hname : name ∉ known) (hparent : parent ∈ i.classes.classes) :
    ∃ c, (define name parent).run i = (.ok c, i.enter c) ∧ c.name = name ∧
      (i.enter c).classes.WellFormed ∧ (i.enter c).classes.names = known ++ [name] := by
  subst hnames
  have hnew := hwf.contains_of_not_mem hname
  exact ⟨_, define_of_owned hnew (hwf.owns_iff.2 hparent), rfl, hwf.enter hnew hparent, names_enter _ _⟩

end Installation

/-- Nor is any class of a forest refused whose names are all new and distinct. -/
theorem Forest.install_next {forest : Forest} {i : Installation} {known : List String} {base : Class}
    (hwf : i.classes.WellFormed) (hnames : i.classes.names = known) (hdistinct : forest.names.Nodup)
    (hnew : ∀ name ∈ forest.names, name ∉ known) (hbase : base ∈ i.classes.classes) :
    ∃ made, (forest.install base).run i = (.ok made, i.including made) ∧ made.map Class.name = forest.names ∧
      (∀ c ∈ made, base ∈ c.ancestors) ∧ (i.including made).classes.WellFormed := by
  subst hnames
  have hfree : ∀ name ∈ forest.names, i.classes.contains name = false :=
    fun name hname => hwf.contains_of_not_mem (hnew name hname)
  obtain ⟨hrun, hwf'⟩ := run_install_of_free hwf hbase (Registry.not_clashes hdistinct hfree)
  exact ⟨_, hrun, forest.names_classes _ _, fun _ hc => ClassNode.mem_ancestors_of_mem_forestClasses hc, hwf'⟩

/-- A table of distinct classes has each under its name. -/
theorem Taxonomy.class?_new {base : Class} {qualifier : String} {made : List Class} {r : Registry}
    (hdistinct : ((base :: made).map Class.name).Nodup) (hfound : ∀ c ∈ base :: made, r.get? c.name = some c)
    (name : String) :
    (Taxonomy.new base qualifier made).class? name =
      if name ∈ (base :: made).map Class.name then r.get? name else none := by
  obtain ⟨-, hrest⟩ := List.nodup_cons.1 hdistinct
  have hentries : ((made.map fun c => (c.name, c)).map Prod.fst).Nodup := by rwa [List.map_map]
  refine (Table.get?_insert _ _ _ _).trans ?_
  split
  next hbase =>
    subst hbase
    rw [if_pos (List.mem_map_of_mem List.mem_cons_self), hfound base List.mem_cons_self]
  next hbase =>
    split
    next hname =>
      obtain ⟨c, hc, rfl⟩ := List.mem_map.1 hname
      rw [hfound c hc]
      refine (Table.get?_ofList_eq_some_iff hentries).2 (List.mem_map.2 ⟨c, ?_, rfl⟩)
      exact (List.mem_cons.1 hc).resolve_left fun h => hbase (congrArg Class.name h)
    next hname =>
      refine Option.eq_none_iff_forall_ne_some.2 fun c hc => hname ?_
      obtain ⟨d, hd, heq⟩ := List.mem_map.1 ((Table.get?_ofList_eq_some_iff hentries).1 hc)
      cases heq
      exact List.mem_map_of_mem (List.mem_cons_of_mem _ hd)

namespace Realm

/-- What the builtin classes are installed into. -/
def blank (id : RealmId) : Installation :=
  ⟨.new id, Table.empty.insert (Class.root id).name (.cls (.root id))⟩

/-- The builtin classes are installed one by one, and none is refused. -/
theorem run_installBuiltins (id : RealmId) :
    ∃ core base made, (installBuiltins (.root id)).run (blank id) =
        (.ok (core, base, made), (blank id).including (core.function :: core.method :: core.module :: base :: made)) ∧
      ((blank id).including (core.function :: core.method :: core.module :: base :: made)).classes.WellFormed ∧
      (core.function :: core.method :: core.module :: base :: made).map Class.name = Builtin.names.tail ∧
      base.name = Builtin.baseException ∧ made.map Class.name = Builtin.exceptions.names ∧
      (∀ c ∈ made, base ∈ c.ancestors) ∧ core.object = .root id := by
  have hwf : (blank id).classes.WellFormed := .new id
  have hroot : Class.root id ∈ (blank id).classes.classes := hwf.root_mem
  have hnames : (blank id).classes.names = [Class.rootName] := rfl
  obtain ⟨function, hfunction, hname₁, hwf, hnames⟩ :=
    Installation.define_next hwf hnames (by decide : Builtin.functionClass ∉ _) hroot
  have hroot := Installation.mem_enter_of_mem hroot function
  obtain ⟨method, hmethod, hname₂, hwf, hnames⟩ :=
    Installation.define_next hwf hnames (by decide : Builtin.methodClass ∉ _) hroot
  have hroot := Installation.mem_enter_of_mem hroot method
  obtain ⟨module, hmodule, hname₃, hwf, hnames⟩ :=
    Installation.define_next hwf hnames (by decide : Builtin.moduleClass ∉ _) hroot
  have hroot := Installation.mem_enter_of_mem hroot module
  obtain ⟨base, hbase, hname₄, hwf, hnames⟩ :=
    Installation.define_next hwf hnames (by decide : Builtin.baseException ∉ _) hroot
  obtain ⟨made, hexceptions, hnames₅, hdescend, hwf⟩ :=
    Forest.install_next hwf hnames (by decide +kernel : Builtin.exceptions.names.Nodup) (by decide +kernel)
      (Installation.mem_classes_enter _ base)
  refine ⟨⟨.root id, function, method, module⟩, base, made, ?_, hwf, ?_, hname₄, hnames₅, hdescend, rfl⟩
  · unfold installBuiltins
    exact (Install.run_bind_ok hfunction _).trans ((Install.run_bind_ok hmethod _).trans
      ((Install.run_bind_ok hmodule _).trans ((Install.run_bind_ok hbase _).trans (Install.run_bind_ok hexceptions _))))
  · simp only [List.map_cons, hname₁, hname₂, hname₃, hname₄, hnames₅]
    rfl

theorem bootstrap_of_run {id : RealmId} {core : CoreClasses} {base : Class} {made : List Class} {j : Installation}
    (h : (installBuiltins (.root id)).run (blank id) = (.ok (core, base, made), j)) (config : Config) :
    bootstrap id config = .ok {
      config := config
      classes := j.classes
      core := core
      builtins := j.builtins
      taxonomy := .new base config.qualifier made
      factories := ∅
      loader := .empty } := by
  unfold blank at h
  simp only [bootstrap, h]

/-- A realm can always be started, and starts with its builtin classes. -/
theorem sound_bootstrap (id : RealmId) (config : Config) : ∃ r, bootstrap id config = .ok r ∧ r.Sound id := by
  obtain ⟨core, base, made, hrun, hwf, hall, hbase, hmade, hdescend, -⟩ := run_installBuiltins id
  generalize hlist : core.function :: core.method :: core.module :: base :: made = all at hrun hwf hall
  generalize hinstalled : (blank id).including all = j at hrun hwf
  have hnames : j.classes.names = Builtin.names := by
    rw [← hinstalled, Installation.names_including, hall]
    rfl
  have hfound : ∀ c ∈ base :: made, j.classes.get? c.name = some c := by
    intro c hc
    have hmem : c ∈ all := by
      rw [← hlist]
      exact List.mem_cons_of_mem _ (List.mem_cons_of_mem _ (List.mem_cons_of_mem _ hc))
    rw [← hinstalled] at hwf ⊢
    exact hwf.get?_of_mem ((blank id).mem_including hmem)
  have hlisted : (base :: made).map Class.name = Builtin.exceptionNames := by
    rw [List.map_cons, hbase, hmade]
    rfl
  refine ⟨_, bootstrap_of_run hrun config, ?_⟩
  exact {
    wellFormed := hwf
    home := hinstalled ▸ (blank id).home_including all
    defined := fun name hname => hwf.mem_names_iff.1 (hnames ▸ hname)
    builtins := by
      intro name
      by_cases hin : name ∈ all.map Class.name
      · have hname : name ∈ Builtin.names := List.mem_of_mem_tail (hall ▸ hin)
        rw [if_pos hname, ← hinstalled]
        exact Installation.builtins_including hin
      · -- All that the builtin namespace has of its own is the root.
        obtain ⟨hclass, hbuiltin⟩ := Installation.get?_including (i := blank id) hin
        rw [hinstalled] at hclass hbuiltin
        rw [hclass, hbuiltin]
        rw [hall] at hin
        by_cases hroot : name = Class.rootName
        · subst hroot
          rfl
        · rw [if_neg (show name ∉ Builtin.names from fun hname => (List.mem_cons.1 hname).elim hroot hin)]
          exact (Table.get?_insert _ _ _ _).trans (if_neg hroot)
    taxonomy := by
      intro name
      rw [← hlisted]
      exact Taxonomy.class?_new (by rw [hlisted]; exact Builtin.nodup_exceptionNames) hfound name
    base := hbase ▸ hfound base List.mem_cons_self
    descend := by
      intro name hname c hget
      obtain ⟨d, hd, rfl⟩ := List.mem_map.1 (hlisted ▸ hname)
      cases (hfound d hd).symm.trans hget
      rcases List.mem_cons.1 hd with rfl | hd
      · exact Class.self_mem_ancestors _
      · exact hdescend _ hd }

end Realm

end ObjectHost
