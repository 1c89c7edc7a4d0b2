-- SUMMARY: That arguments written for a command, in any of the ways to write them, are read back as that command.
import Mathlib.Data.List.TakeDrop
import ObjectHost.CommandLine.Arguments

/-!
# Written arguments

A command is written as arguments: the subcommand, its settings in any order,
each with its value attached, and the positional behind what ends the options.
The shared settings stand in front of the subcommand, behind it, or on both
sides. Nothing in the texts matters to the reading, since a value is attached to
its setting and the positional comes where everything is positional.
-/

namespace ObjectHost

theorem CyclePolicy.ofLabel?_label (policy : CyclePolicy) : ofLabel? policy.label = some policy := by
  cases policy <;> rfl

namespace CommandLine

/-- A setting and the value given for it. -/
abbrev Given := Setting × String

/-! ## Writing -/

namespace Given

/-- A setting with its value attached. -/
def text (g : Given) : String := "--" ++ g.1.name ++ "=" ++ g.2

/-- The values given for a setting, in order. -/
def values (given : List Given) (s : Setting) : List String :=
  given.filterMap fun g => if g.1 = s then some g.2 else none

end Given

namespace Command

def subcommand : Command → Subcommand
  | .taxonomy _ => .taxonomy
  | .ancestry _ => .ancestry
  | .resolve .. => .resolve
  | .moduleName .. => .moduleName

/-- The settings of the subcommand, as the command has them. -/
def settings : Command → List Given
  | .taxonomy root => [(.root, root)]
  | .ancestry _ => []
  | .resolve _ caller modules => (.caller, caller) :: modules.map (.module, ·)
  | .moduleName _ base => [(.base, base)]

def positional? : Command → Option String
  | .taxonomy _ => none
  | .ancestry cls => some cls
  | .resolve name .. => some name
  | .moduleName path _ => some path

/-- The positional behind what ends the options. -/
def positionalArguments (command : Command) : List String :=
  match command.positional? with
  | some value => ["--", value]
  | none => []

/-- A path is not empty. -/
def HasPaths : Command → Prop
  | .moduleName path base => path ≠ "" ∧ base ≠ ""
  | _ => True

end Command

/-- The shared settings, as the configuration has them. -/
def sharedSettings (config : Config) : List Given :=
  [(.qualifier, config.qualifier), (.cycles, config.cycles.label)]

/-- Shared settings that can stand on one side of a subcommand. -/
structure OneSide (given : List Given) : Prop where
  shared : ∀ g ∈ given, g.1 ∈ Setting.shared
  once : (given.map Prod.fst).Nodup
  accepted : ∀ g ∈ given, g.1.accepts g.2 = true

/-- The arguments of a command: settings in front of the subcommand, settings behind it, and the positional. -/
def writeArguments (command : Command) (front back : List Given) : List String :=
  front.map Given.text ++ command.subcommand.name :: (back.map Given.text ++ command.positionalArguments)

/-! ## Values -/

namespace Given

theorem values_append (given more : List Given) (s : Setting) :
    values (given ++ more) s = values given s ++ values more s :=
  List.filterMap_append

theorem mem_values_iff {given : List Given} {s : Setting} {value : String} :
    value ∈ values given s ↔ (s, value) ∈ given := by
  simp only [values, List.mem_filterMap, Option.ite_none_right_eq_some, Option.some.injEq]
  constructor
  · rintro ⟨g, hg, rfl, rfl⟩
    exact hg
  · intro h
    exact ⟨_, h, rfl, rfl⟩

theorem values_eq_nil {given : List Given} {s : Setting} (h : ∀ g ∈ given, g.1 ≠ s) : values given s = [] := by
  refine List.eq_nil_iff_forall_not_mem.2 fun value hvalue => ?_
  exact h _ (mem_values_iff.1 hvalue) rfl

theorem length_values_le_one {given : List Given} (h : (given.map Prod.fst).Nodup) (s : Setting) :
    (values given s).length ≤ 1 := by
  induction given with
  | nil => simp [values]
  | cons g given ih =>
    obtain ⟨hnew, hrest⟩ := List.nodup_cons.1 h
    by_cases hs : g.1 = s
    · have hnone : values given s = [] := values_eq_nil fun other hother heq =>
        hnew (List.mem_map.2 ⟨other, hother, heq.trans hs.symm⟩)
      simp only [values] at hnone
      simp [values, hs, hnone]
    · simpa [values, hs] using ih hrest

end Given

/-! ## One setting -/

theorem Setting.name_injective {s t : Setting} (h : s.name = t.name) : s = t := by
  revert h
  cases s <;> cases t <;> decide

theorem Setting.find?_name {s : Setting} {known : List Setting} (h : s ∈ known) :
    (known.find? fun t => decide (t.name = s.name)) = some s := by
  induction known with
  | nil => cases h
  | cons t known ih =>
    by_cases hname : t.name = s.name
    · rw [List.find?_cons_of_pos (by simpa using hname), Setting.name_injective hname]
    · have hrest : s ∈ known := (List.mem_cons.1 h).resolve_left fun heq => hname (by rw [heq])
      rw [List.find?_cons_of_neg (by simpa using hname), ih hrest]

theorem splitValue_append {name : List Char} (h : '=' ∉ name) (value : List Char) :
    splitValue (name ++ '=' :: value) = (String.ofList name, some (String.ofList value)) := by
  have hname : ∀ c ∈ name, decide (c ≠ '=') = true := fun c hc => decide_eq_true fun heq => h (heq ▸ hc)
  have hspan : (name ++ '=' :: value).span (fun c => decide (c ≠ '=')) = (name, '=' :: value) := by
    rw [List.span_eq_takeWhile_dropWhile, List.takeWhile_append_of_pos hname, List.dropWhile_append_of_pos hname]
    simp
  simp only [splitValue, hspan]

/-- An attached value is taken as it is, whatever it looks like. -/
theorem Token.ofArgument_given (g : Given) : Token.ofArgument (Given.text g) = .long g.1.name (some g.2) := by
  have hname : '=' ∉ g.1.name.toList := by
    cases g.1 <;> decide
  have htext : (Given.text g).toList = '-' :: '-' :: (g.1.name.toList ++ '=' :: g.2.toList) := by
    simp [Given.text]
  have hsplit := splitValue_append hname g.2.toList
  rw [String.ofList_toList, String.ofList_toList] at hsplit
  obtain ⟨c, cs, hrest⟩ : ∃ c cs, g.1.name.toList ++ '=' :: g.2.toList = c :: cs :=
    List.exists_cons_of_ne_nil (by simp)
  rw [hrest] at htext hsplit
  simp only [Token.ofArgument, htext, hsplit]

namespace Progress

variable {level : Level} {p : Progress} {g : Given}

/-- A setting that the level knows is settled at once, if it can be given and is not given twice. -/
theorem long_given (hpending : p.pending = none) (hknown : g.1 ∈ level.settings) (haccepted : g.1.accepts g.2 = true)
    (hnew : g.1.isRepeatable = false → Given.values p.settled g.1 = []) :
    p.long level g.1.name (some g.2) = .ok { p with settled := p.settled ++ [g] } := by
  have hhelp : g.1.name ≠ "help" := by
    cases g.1 <;> decide
  have hversion : g.1.name ≠ "version" := by
    cases g.1 <;> decide
  have hsettled : (!g.1.isRepeatable && p.settled.any fun given => decide (given.1 = g.1)) = false := by
    cases hrepeatable : g.1.isRepeatable with
    | true => rfl
    | false =>
      -- A setting given before would have left its value.
      rw [Bool.not_false, Bool.true_and, List.any_eq_false]
      intro given hgiven hsame
      have hvalue : given.2 ∈ Given.values p.settled g.1 :=
        Given.mem_values_iff.2 (of_decide_eq_true hsame ▸ hgiven)
      rw [hnew hrepeatable] at hvalue
      cases hvalue
  have hbegin : p.begin level (.setting g.1) (some g.2) = .ok { p with pending := some (.setting g.1, some g.2) } := by
    simp only [begin, settle, hpending]
    rfl
  have hsettle : settle level { p with pending := some (.setting g.1, some g.2) } =
      .ok { p with settled := p.settled ++ [g] } := by
    simp only [settle, hsettled, haccepted]
    rw [← hpending]
    rfl
  simp only [long, hhelp, hversion, Setting.find?_name hknown, hbegin]
  exact hsettle

end Progress

/-! ## Settings in a row -/

/-- Settings that a level can read one after another. -/
structure Readable (level : Level) (given : List Given) : Prop where
  known : ∀ g ∈ given, g.1 ∈ level.settings
  accepted : ∀ g ∈ given, g.1.accepts g.2 = true
  once : ∀ s : Setting, s.isRepeatable = false → (Given.values given s).length ≤ 1

section Row

variable {level : Level} {settled given : List Given} {g : Given} {positional : Option String}

theorem Readable.long (h : Readable level (settled ++ g :: given)) (positional : Option String) :
    Progress.long level ⟨settled, positional, none⟩ g.1.name (some g.2) = .ok ⟨settled ++ [g], positional, none⟩ := by
  have hmem : g ∈ settled ++ g :: given := by simp
  refine Progress.long_given rfl (h.known g hmem) (h.accepted g hmem) fun hrepeatable => ?_
  have honce := h.once g.1 hrepeatable
  have hvalue : g.2 ∈ Given.values (g :: given) g.1 := Given.mem_values_iff.2 List.mem_cons_self
  rw [Given.values_append, List.length_append] at honce
  have hpos := List.length_pos_of_mem hvalue
  have hnone : (Given.values settled g.1).length = 0 := by omega
  exact List.length_eq_zero_iff.1 hnone

theorem readLevel_cons_given {s : Subcommand} {p p' : Progress}
    (h : p.long (some s) g.1.name (some g.2) = .ok p') (args : List String) :
    readLevel s false p (Given.text g :: args) = readLevel s false p' args := by
  simp only [readLevel, Token.ofArgument_given, Bool.false_eq_true, if_false, h]
  rfl

theorem readTool_cons_given {p p' : Progress} (h : p.long none g.1.name (some g.2) = .ok p') (args : List String) :
    readTool p (Given.text g :: args) = readTool p' args := by
  simp only [readTool, Token.ofArgument_given, h]
  rfl

/-- A row of settings is settled, and the rest is read after it. -/
theorem readLevel_given {s : Subcommand} (h : Readable (some s) (settled ++ given)) (args : List String) :
    readLevel s false ⟨settled, positional, none⟩ (given.map Given.text ++ args) =
      readLevel s false ⟨settled ++ given, positional, none⟩ args := by
  induction given generalizing settled with
  | nil => rw [List.append_nil, List.map_nil, List.nil_append]
  | cons g given ih =>
    -- What is settled grows from the front of what is still to be read, and together they stay the same row.
    have hstep := readLevel_cons_given (h.long positional) (given.map Given.text ++ args)
    rw [List.append_cons] at h ⊢
    exact hstep.trans (ih h)

theorem readTool_given (h : Readable none (settled ++ given)) (args : List String) :
    readTool ⟨settled, positional, none⟩ (given.map Given.text ++ args) =
      readTool ⟨settled ++ given, positional, none⟩ args := by
  induction given generalizing settled with
  | nil => rw [List.append_nil, List.map_nil, List.nil_append]
  | cons g given ih =>
    have hstep := readTool_cons_given (h.long positional) (given.map Given.text ++ args)
    rw [List.append_cons] at h ⊢
    exact hstep.trans (ih h)

theorem readLevel_positional {s : Subcommand} {value : String} (htakes : s.takesPositional = true)
    (haccepts : s.acceptsPositional value = true) (settled : List Given) :
    readLevel s false ⟨settled, none, none⟩ ["--", value] = .ok ⟨settled, some value, none⟩ := by
  have hescape : Token.ofArgument "--" = .escape := rfl
  have hsettle : Progress.settle (some s) ⟨settled, none, some (.positional, some value)⟩ =
      .ok ⟨settled, some value, none⟩ := by
    simp only [Progress.settle, Level.acceptsPositional, haccepts, if_true]
  simp only [readLevel, hescape, htakes]
  exact hsettle

end Row

/-! ## A command and its configuration -/

theorem Subcommand.not_mem_shared (s : Subcommand) : ∀ t ∈ s.settings, t ∉ Setting.shared := by
  cases s <;> decide

namespace Command

variable {command : Command}

theorem own_settings (command : Command) : ∀ g ∈ command.settings, g.1 ∈ command.subcommand.settings := by
  cases command with
  | resolve name caller modules =>
    intro g hg
    rcases List.mem_cons.1 hg with rfl | hg
    · simp [subcommand, Subcommand.settings]
    · obtain ⟨fqName, -, rfl⟩ := List.mem_map.1 hg
      simp [subcommand, Subcommand.settings]
  | _ => simp [settings, subcommand, Subcommand.settings]

theorem accepted_settings (h : command.HasPaths) : ∀ g ∈ command.settings, g.1.accepts g.2 = true := by
  cases command with
  | moduleName path base => simpa [settings, Setting.accepts] using h.2
  | _ => simp [settings, Setting.accepts]

theorem values_shared (command : Command) {s : Setting} (hs : s ∈ Setting.shared) :
    Given.values command.settings s = [] := by
  refine Given.values_eq_nil fun g hg heq => ?_
  exact Subcommand.not_mem_shared _ _ (command.own_settings g hg) (heq ▸ hs)

theorem values_resolve (name caller : String) (modules : List String) (s : Setting) :
    Given.values (Command.resolve name caller modules).settings s =
      Given.values [(.caller, caller)] s ++ if s = .module then modules else [] := by
  have hmodules : Given.values (modules.map (.module, ·)) s = if s = .module then modules else [] := by
    unfold Given.values
    rw [List.filterMap_map]
    split
    next hs =>
      subst hs
      exact List.filterMap_some
    next hs =>
      refine List.filterMap_eq_nil_iff.2 fun fqName _ => ?_
      exact if_neg (Ne.symm hs)
  rw [← hmodules]
  exact Given.values_append [_] _ _

/-- Modules apart, a command has each of its settings once. -/
theorem length_values_le_one (command : Command) {s : Setting} (hs : s.isRepeatable = false) :
    (Given.values command.settings s).length ≤ 1 := by
  cases command with
  | resolve name caller modules =>
    have hmodule : s ≠ .module := by
      rintro rfl
      cases hs
    rw [values_resolve, if_neg hmodule, List.append_nil]
    exact Given.length_values_le_one (by simp) s
  | _ => exact Given.length_values_le_one (by simp [settings]) s

theorem readLevel_positionalArguments (h : command.HasPaths) (settled : List Given) :
    readLevel command.subcommand false ⟨settled, none, none⟩ command.positionalArguments =
      .ok ⟨settled, command.positional?, none⟩ := by
  cases command with
  | taxonomy root => rfl
  | ancestry cls => exact readLevel_positional rfl rfl settled
  | resolve name caller modules => exact readLevel_positional rfl rfl settled
  | moduleName path base =>
    have hpath : Subcommand.acceptsPositional .moduleName path = true := decide_eq_true h.1
    exact readLevel_positional rfl hpath settled

/-- The command is made of the values for its own settings, whatever else was settled. -/
theorem commandOf_eq (command : Command) {settled : List Given}
    (h : ∀ s ∈ command.subcommand.settings, Given.values settled s = Given.values command.settings s) :
    commandOf command.subcommand ⟨settled, command.positional?, none⟩ = .ok command := by
  have hvalues : ∀ s ∈ command.subcommand.settings, ∀ positional,
      Progress.values ⟨settled, positional, none⟩ s = Given.values command.settings s := fun s hs _ => h s hs
  cases command with
  | taxonomy root =>
    have hroot := hvalues .root List.mem_cons_self
    simp only [commandOf, subcommand, Progress.value?, hroot]
    rfl
  | ancestry cls => rfl
  | resolve name caller modules =>
    have hcaller := hvalues .caller List.mem_cons_self
    have hmodule := hvalues .module (List.mem_cons_of_mem _ List.mem_cons_self)
    simp only [values_resolve] at hcaller hmodule
    simp only [commandOf, subcommand, Progress.value?, hcaller, hmodule]
    rfl
  | moduleName path base =>
    have hbase := hvalues .base List.mem_cons_self
    simp only [commandOf, subcommand, Progress.value?, hbase]
    rfl

end Command

/-- The last value given for a shared setting is the one in the configuration. -/
theorem configOf_eq {config : Config} {front back after : List Given} {positional : Option String}
    (hconfig : ∀ g ∈ sharedSettings config, (Given.values (front ++ after) g.1).getLast? = some g.2)
    (hback : ∀ s ∈ Setting.shared, Given.values back s = Given.values after s) :
    configOf ⟨front, none, none⟩ ⟨back, positional, none⟩ = config := by
  have hvalue : ∀ g ∈ sharedSettings config, g.1 ∈ Setting.shared →
      (Progress.value? ⟨back, positional, none⟩ g.1).or (Progress.value? ⟨front, none, none⟩ g.1) = some g.2 := by
    intro g hg hs
    have hlast := hconfig g hg
    rw [Given.values_append, List.getLast?_append, ← hback g.1 hs] at hlast
    exact hlast
  have hqualifier := hvalue _ List.mem_cons_self List.mem_cons_self
  have hcycles := hvalue _ (List.mem_cons_of_mem _ List.mem_cons_self) (List.mem_cons_of_mem _ List.mem_cons_self)
  simp only [configOf, hqualifier, hcycles, Option.bind_some, CyclePolicy.ofLabel?_label, Option.getD_some]

/-! ## Reading back -/

theorem OneSide.length_values_le_one {given : List Given} (h : OneSide given) (s : Setting) :
    (Given.values given s).length ≤ 1 :=
  Given.length_values_le_one h.once s

theorem OneSide.readable {given : List Given} (h : OneSide given) : Readable none given :=
  ⟨h.shared, h.accepted, fun s _ => h.length_values_le_one s⟩

theorem OneSide.values_own {given : List Given} (h : OneSide given) {s : Subcommand} {t : Setting}
    (ht : t ∈ s.settings) : Given.values given t = [] :=
  Given.values_eq_nil fun g hg heq => s.not_mem_shared t ht (heq ▸ h.shared g hg)

theorem readTool_subcommand {s : Subcommand} {p sub : Progress} {command : Command} {args : List String}
    (hpending : p.pending = none) (hsub : readLevel s false .start args = .ok sub)
    (hcommand : commandOf s sub = .ok command) :
    readTool p (s.name :: args) = .ok ⟨configOf p sub, command⟩ := by
  have htoken : Token.ofArgument s.name = .word s.name := by
    cases s <;> rfl
  have hawaits : p.awaitsValue = false := by
    simp only [Progress.awaitsValue, hpending]
  have hhelp : s.name ≠ helpName := by
    cases s <;> decide
  have hname : Subcommand.ofName? s.name = some s := by
    cases s <;> rfl
  have hsettle : p.settle none = .ok p := by
    simp only [Progress.settle, hpending]
  simp only [readTool, htoken, hawaits, hhelp, hname, hsub]
  change (commandOf s sub >>= fun read => p.settle none >>= fun tool => pure (Invocation.mk (configOf tool sub) read)) = _
  rw [hcommand, hsettle]
  rfl

/-- Settings in any order can be read if they are those of a command and some shared ones. -/
theorem readable_written {command : Command} {after back : List Given} (hpaths : command.HasPaths)
    (hafter : OneSide after) (hback : ∀ s, Given.values back s = Given.values (command.settings ++ after) s) :
    Readable (some command.subcommand) back := by
  have hmem : ∀ g ∈ back, g ∈ command.settings ∨ g ∈ after := by
    intro g hg
    have hvalue : g.2 ∈ Given.values back g.1 := Given.mem_values_iff.2 hg
    rw [hback] at hvalue
    exact List.mem_append.1 (Given.mem_values_iff.1 hvalue)
  refine ⟨fun g hg => ?_, fun g hg => ?_, fun s hs => ?_⟩
  · rcases hmem g hg with hown | hshared
    · exact List.mem_append_left _ (command.own_settings g hown)
    · exact List.mem_append_right _ (hafter.shared g hshared)
  · rcases hmem g hg with hown | hshared
    · exact Command.accepted_settings hpaths g hown
    · exact hafter.accepted g hshared
  · -- A setting is shared or the command's own, so only one of the two lists has values for it.
    rw [hback, Given.values_append, List.length_append]
    by_cases hshared : s ∈ Setting.shared
    · rw [command.values_shared hshared]
      simpa using hafter.length_values_le_one s
    · have hnone : Given.values after s = [] :=
        Given.values_eq_nil fun g hg heq => hshared (heq ▸ hafter.shared g hg)
      rw [hnone]
      exact command.length_values_le_one hs

/-- Written arguments are read back, whatever the texts in them. The settings behind the subcommand are those of the
    command and the shared ones `after`, mixed in any order that keeps the values of each setting in theirs; the shared
    settings `before` stand in front of it. Then the command is read back, with the configuration that has the last
    value given for each shared setting: the only one, or the one behind the subcommand if there are two. -/
theorem written_arguments_are_read_back (config : Config) (command : Command) (before after back : List Given)
    (hpaths : command.HasPaths) (hbefore : OneSide before) (hafter : OneSide after)
    (hconfig : ∀ g ∈ sharedSettings config, (Given.values (before ++ after) g.1).getLast? = some g.2)
    (hback : ∀ s, Given.values back s = Given.values (command.settings ++ after) s) :
    Invocation.parse (writeArguments command before back) = .ok ⟨config, command⟩ := by
  have hshared : ∀ s ∈ Setting.shared, Given.values back s = Given.values after s := by
    intro s hs
    rw [hback, Given.values_append, command.values_shared hs, List.nil_append]
  have hown : ∀ s ∈ command.subcommand.settings, Given.values back s = Given.values command.settings s := by
    intro s hs
    rw [hback, Given.values_append, hafter.values_own hs, List.append_nil]
  have hsub : readLevel command.subcommand false .start (back.map Given.text ++ command.positionalArguments) =
      .ok ⟨back, command.positional?, none⟩ := by
    have hread : Readable (some command.subcommand) ([] ++ back) := readable_written hpaths hafter hback
    exact (readLevel_given hread _).trans (Command.readLevel_positionalArguments hpaths back)
  have htool : Readable none ([] ++ before) := hbefore.readable
  unfold Invocation.parse writeArguments
  refine (readTool_given htool _).trans ?_
  rw [List.nil_append, readTool_subcommand rfl hsub (command.commandOf_eq hown), configOf_eq hconfig hshared]

/-- Modules that look like options around a shared setting, the other shared setting on both sides, and a positional
    that looks like what ends the options. -/
theorem written_arguments_are_read_back_dashes :
    Invocation.parse ["--cycles=reenter", "--qualifier=app", "resolve", "--module=--from=x", "--cycles=fail-fast",
        "--from=", "--module=a=b", "--", "--"] =
      .ok ⟨⟨"app", .failFast⟩, .resolve "--" "" ["--from=x", "a=b"]⟩ := by
  refine written_arguments_are_read_back ⟨"app", .failFast⟩ (.resolve "--" "" ["--from=x", "a=b"])
    [(.cycles, "reenter"), (.qualifier, "app")] [(.cycles, "fail-fast")]
    [(.module, "--from=x"), (.cycles, "fail-fast"), (.caller, ""), (.module, "a=b")] trivial ?_ ?_ ?_ ?_
  · exact ⟨by decide, by decide, by decide⟩
  · exact ⟨by decide, by decide, by decide⟩
  · decide
  · intro s
    cases s <;> rfl

end CommandLine

end ObjectHost
