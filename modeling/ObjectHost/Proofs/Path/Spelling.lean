-- SUMMARY: The ways to write a path, and that a module name depends on none of them and gives back its segments.
import Mathlib.Logic.Relation
import ObjectHost.Proofs.Path.Layout

/-!
# Spellings of paths

One path can be written in many ways: slashes can be repeated, and a `.` can
stand between two components. The module name of a file is the same for all of
them. Where the directories and the stem have no dots, it gives them back when
it is cut at its dots, so that it belongs to one module only.
-/

namespace ObjectHost.Path

/-! ## Padding -/

/-- The second text is the first with one slash or one `.` more, in a place where it stands for nothing. -/
inductive Padded : String → String → Prop
  | slash (front back : String) : Padded (front ++ "/" ++ back) (front ++ "//" ++ back)
  | here (front back : String) : Padded (front ++ "/" ++ back) (front ++ "/./" ++ back)
  | lastHere (front : String) : Padded (front ++ "/") (front ++ "/.")
  | lastSlash (path : String) : Padded path (path ++ "/")

/-- The components of a text that follows a slash. -/
def trail (text : String) : Path := (Text.splitAll '/' text.toList).filterMap component?

theorem trail_slash (text : String) : trail ("/" ++ text) = trail text := by
  rw [trail, String.toList_append]
  rfl

theorem trail_here (text : String) : trail ("./" ++ text) = trail text := by
  rw [trail, String.toList_append]
  rfl

/-- A slash cuts a path in two: what follows it is read by itself. -/
theorem parse_slash (front back : String) : parse (front ++ "/" ++ back) = parse (front ++ "/") ++ trail back := by
  have hpieces : ∀ text : String, Text.splitAll '/' (front ++ "/" ++ text).toList =
      Text.splitAll '/' front.toList ++ Text.splitAll '/' text.toList := fun text => by
    rw [← Text.splitAll_append_cons]
    simp
  have hfront : parse (front ++ "/") = ofPieces (Text.splitAll '/' front.toList ++ [[]]) := by
    have hend := hpieces ""
    rw [String.append_empty] at hend
    rw [parse, hend]
    rfl
  rw [hfront, parse, hpieces, ofPieces_append (Text.splitAll_ne_nil _) (Text.splitAll_ne_nil _)]
  rfl

theorem parse_append_slash {path : String} (hne : path ≠ "") : parse (path ++ "/") = parse path := by
  have hpieces : Text.splitAll '/' path.toList ≠ [[]] :=
    Text.splitAll_ne_singleton_nil fun hnil => hne (String.toList_inj.1 hnil)
  have hslash : Text.splitAll '/' (path ++ "/").toList = Text.splitAll '/' path.toList ++ [[]] := by
    rw [String.toList_append]
    exact Text.splitAll_append_cons _ _
  rw [parse, hslash, ofPieces_append_nil (Text.splitAll_ne_nil _) hpieces]
  rfl

namespace Padded

variable {path path' base base' : String}

/-- Padding leaves the components alone, as long as it does not make the empty path absolute. -/
theorem parse_eq (h : Padded path path') (hne : path ≠ "") : parse path' = parse path := by
  cases h with
  | slash front back =>
    have htext : front ++ "//" ++ back = front ++ "/" ++ ("/" ++ back) := String.toList_inj.1 (by simp)
    rw [htext, parse_slash, trail_slash, ← parse_slash]
  | here front back =>
    have htext : front ++ "/./" ++ back = front ++ "/" ++ ("./" ++ back) := String.toList_inj.1 (by simp)
    rw [htext, parse_slash, trail_here, ← parse_slash]
  | lastHere front =>
    have htext : front ++ "/." = front ++ "/" ++ "." := String.toList_inj.1 (by simp)
    rw [htext, parse_slash]
    exact List.append_nil _
  | lastSlash => exact parse_append_slash hne

theorem ne_empty (h : Padded path path') : path' ≠ "" := by
  cases h <;> simp

end Padded

/-! ## Module names of padded paths -/

/-- Where no file is named there is no module. -/
theorem moduleName?_of_fileName?_eq_none {path : Path} (h : fileName? path = none) (base : Path) :
    moduleName? path base = none := by
  refine Option.eq_none_iff_forall_ne_some.2 fun name hname => ?_
  obtain ⟨relative, segments, rfl, hsegments, -, -⟩ := moduleName?_eq_some_iff.1 hname
  obtain ⟨file, hfile, -⟩ := Option.map_eq_some_iff.1 hsegments
  have hne : relative ≠ [] := by
    rintro rfl
    cases hfile
  rw [fileName?_append base hne, hfile] at h
  cases h

/-- Padding makes the empty path absolute, and still names no file. -/
theorem Padded.moduleName?_eq {path path' : String} (h : Padded path path') (base : Path) :
    moduleName? (parse path') base = moduleName? (parse path) base := by
  by_cases hempty : path = ""
  · have hroot : path' = "/" := by
      cases h <;> simp_all
    subst hempty hroot
    rw [moduleName?_of_fileName?_eq_none rfl, moduleName?_of_fileName?_eq_none rfl]
  · rw [h.parse_eq hempty]

open Relation (ReflTransGen)

section Closure

variable {path path' base base' : String}

theorem moduleName?_eq_of_padded (h : ReflTransGen Padded path path') (base : Path) :
    moduleName? (parse path') base = moduleName? (parse path) base := by
  induction h with
  | refl => rfl
  | tail _ hstep ih => exact (hstep.moduleName?_eq base).trans ih

theorem parse_eq_of_padded (h : ReflTransGen Padded base base') (hempty : base = "" → base' = "") :
    parse base' = parse base := by
  -- A text that is not empty stays so, and then no step changes the components.
  have hpadded : ∀ {text}, ReflTransGen Padded base text → base ≠ "" → text ≠ "" ∧ parse text = parse base := by
    intro text htext hne
    induction htext with
    | refl => exact ⟨hne, rfl⟩
    | tail _ hstep ih => exact ⟨hstep.ne_empty, (hstep.parse_eq ih.1).trans ih.2⟩
  by_cases hbase : base = ""
  · rw [hempty hbase, hbase]
  · exact (hpadded h hbase).2

end Closure

/-! ## Files of a module -/

/-- Segments that name a module, each of which can stand in a path, and an extension for its file. -/
structure Nameable (segments : List String) (extension : Option String) : Prop where
  nonempty : segments ≠ []
  plain : ∀ segment ∈ segments, PlainStem segment
  notPackage : segments.getLast? ≠ some packageStem
  extension : ∀ e ∈ extension, IsExtension e

instance (segments : List String) (extension : Option String) : Decidable (Nameable segments extension) :=
  decidable_of_iff
    (segments ≠ [] ∧ (∀ segment ∈ segments, PlainStem segment) ∧ segments.getLast? ≠ some packageStem ∧
      ∀ e ∈ extension.toList, IsExtension e)
    ⟨fun ⟨h₁, h₂, h₃, h₄⟩ => ⟨h₁, h₂, h₃, fun e he => h₄ e (Option.mem_toList.2 he)⟩,
      fun ⟨h₁, h₂, h₃, h₄⟩ => ⟨h₁, h₂, h₃, fun e he => h₄ e (Option.mem_toList.1 he)⟩⟩

/-- The files a module can lie in: the one with the path of its segments, and the package file in the directory with
    that path. -/
def moduleFiles (base : String) (segments : List String) (extension : Option String) : List String :=
  [fileText (joinAll base segments) extension, joinAll base segments ++ "/" ++ fileText packageStem extension]

theorem fileText_join (base : String) {stem : String} (hne : stem ≠ "") (extension : Option String) :
    fileText (join base stem) extension = join base (fileText stem extension) := by
  cases extension with
  | none => rfl
  | some extension =>
    have hhead : (stem ++ "." ++ extension).toList.head? = stem.toList.head? := by
      cases hstem : stem.toList with
      | nil => exact absurd (String.toList_inj.1 hstem) hne
      | cons c cs => simp [hstem]
    simp only [fileText, join, hhead]
    split
    next => rfl
    next => split <;> simp only [String.append_assoc]

theorem trail_of_plain {text : String} (h : Plain (parse text)) : trail text = parse text := h.ofPieces_eq.symm

namespace Nameable

variable {segments : List String} {extension : Option String}

theorem ordinary (h : Nameable segments extension) : ∀ segment ∈ segments, Ordinary segment := by
  intro segment hsegment
  have hfile : Ordinary (fileText segment none) := (h.plain segment hsegment).ordinary_fileText (by simp)
  exact hfile

theorem joinAll_ne_empty (h : Nameable segments extension) (base : String) : joinAll base segments ≠ "" := by
  intro hempty
  have hparse := parse_joinAll base h.ordinary
  rw [hempty] at hparse
  obtain ⟨-, hsegments⟩ := List.append_eq_nil_iff.1 hparse.symm
  exact h.nonempty (List.map_eq_nil_iff.1 hsegments)

/-- The path of the file beneath any base: its directories and its stem are the segments. -/
theorem exists_relative (h : Nameable segments extension) :
    ∃ relative, segments? relative = some segments ∧ Plain relative ∧
      ∀ base, parse (fileText (joinAll base segments) extension) = parse base ++ relative := by
  obtain ⟨dirs, hsegments⟩ := List.getLast?_eq_some_iff.1 (List.getLast?_eq_some_getLast h.nonempty)
  generalize segments.getLast h.nonempty = last at hsegments
  subst hsegments
  have hlast : PlainStem last := h.plain last (by simp)
  have hstem : last ≠ packageStem := fun heq => h.notPackage (by rw [heq, List.getLast?_concat])
  have hplain : Plain (parse (fileText last extension)) := (hlast.ordinary_fileText h.extension).plain
  have hnamed := hlast.segments?_fileText h.extension
  rw [if_neg hstem] at hnamed
  refine ⟨dirs.map .name ++ parse (fileText last extension), segments?_append dirs hnamed, ?_, fun base => ?_⟩
  · intro c hc
    rcases List.mem_append.1 hc with hc | hc
    · obtain ⟨dir, -, rfl⟩ := List.mem_map.1 hc
      exact ⟨dir, rfl⟩
    · exact hplain c hc
  · have hfile : fileText (joinAll base (dirs ++ [last])) extension =
        join (joinAll base dirs) (fileText last extension) := by
      rw [← fileText_join _ hlast.nonempty, joinAll, List.foldl_append]
      rfl
    have hdirs : ∀ dir ∈ dirs, Ordinary dir := fun dir hdir => h.ordinary dir (List.mem_append_left _ hdir)
    rw [hfile, parse_join _ hplain, parse_joinAll base hdirs, List.append_assoc]

theorem moduleName?_fileText (h : Nameable segments extension) (base : String) :
    moduleName? (parse (fileText (joinAll base segments) extension)) (parse base) =
      some (Text.joinWith "." segments) := by
  obtain ⟨relative, hnamed, -, hparse⟩ := h.exists_relative
  exact moduleName?_eq_some_iff.2 ⟨relative, segments, hparse base, hnamed, h.nonempty, rfl⟩

/-- The package file: all of its directories are segments, and its stem is none. -/
theorem moduleName?_packageFile (h : Nameable segments extension) (base : String) :
    moduleName? (parse (joinAll base segments ++ "/" ++ fileText packageStem extension)) (parse base) =
      some (Text.joinWith "." segments) := by
  have hfile : Ordinary (fileText packageStem extension) := PlainStem.packageStem.ordinary_fileText h.extension
  have hparse : parse (joinAll base segments ++ "/" ++ fileText packageStem extension) =
      parse base ++ (segments.map .name ++ parse (fileText packageStem extension)) := by
    rw [parse_slash, parse_append_slash (h.joinAll_ne_empty base), parse_joinAll base h.ordinary,
      trail_of_plain hfile.plain, List.append_assoc]
  have hnamed := segments?_append segments (PlainStem.packageStem.segments?_fileText h.extension)
  rw [if_pos rfl, List.append_nil] at hnamed
  exact moduleName?_eq_some_iff.2 ⟨_, _, hparse, hnamed, h.nonempty, rfl⟩

theorem moduleName?_eq (h : Nameable segments extension) (base : String) {file : String}
    (hfile : file ∈ moduleFiles base segments extension) :
    moduleName? (parse file) (parse base) = some (Text.joinWith "." segments) := by
  simp only [moduleFiles, List.mem_cons, List.not_mem_nil, or_false] at hfile
  rcases hfile with rfl | rfl
  · exact h.moduleName?_fileText base
  · exact h.moduleName?_packageFile base

/-- The dots of the name stand between the segments and nowhere else. -/
theorem split_joinWith (h : Nameable segments extension) :
    (Text.splitAll '.' (Text.joinWith "." segments).toList).map String.ofList = segments := by
  have hsplit := Text.splitAll_joinWith '.' h.nonempty fun segment hsegment => (h.plain segment hsegment).noDot
  have htexts : (segments.map String.toList).map String.ofList = segments := by simp
  exact (congrArg _ hsplit).trans htexts

end Nameable

/-- A module name can be read back. Of segments without dots and slashes, the last of which is no package stem, both
    files that can hold the module have a name, and cutting it at its dots gives exactly the segments; so two such files
    have one name if and only if they have the same segments, whatever their bases, kinds and extensions. The name does
    not depend on how the path and the base are written: slashes can be repeated or added at the end, and a `.` put
    behind any slash, except that an empty base must stay empty. And a path whose components do not begin with those of
    the base has no name. -/
theorem module_names_give_back_segments :
    (∀ base segments extension, Nameable segments extension →
      ∀ file ∈ moduleFiles base segments extension, ∃ name, moduleName? (parse file) (parse base) = some name ∧
        (Text.splitAll '.' name.toList).map String.ofList = segments) ∧
    (∀ base base' segments segments' extension extension',
      Nameable segments extension → Nameable segments' extension' →
      ∀ file ∈ moduleFiles base segments extension, ∀ file' ∈ moduleFiles base' segments' extension',
        (moduleName? (parse file) (parse base) = moduleName? (parse file') (parse base') ↔ segments = segments')) ∧
    (∀ path path' base base', ReflTransGen Padded path path' → ReflTransGen Padded base base' →
      (base = "" → base' = "") →
      moduleName? (parse path') (parse base') = moduleName? (parse path) (parse base)) ∧
    (∀ path base, ¬ parse base <+: parse path → moduleName? (parse path) (parse base) = none) := by
  refine ⟨?_, ?_, ?_, ?_⟩
  · intro base segments extension h file hfile
    exact ⟨_, h.moduleName?_eq base hfile, h.split_joinWith⟩
  · intro base base' segments segments' extension extension' h h' file hfile file' hfile'
    rw [h.moduleName?_eq base hfile, h'.moduleName?_eq base' hfile', Option.some.injEq]
    refine ⟨fun hname => ?_, fun hsegments => by rw [hsegments]⟩
    rw [← h.split_joinWith, hname, h'.split_joinWith]
  · intro path path' base base' hpath hbase hempty
    rw [parse_eq_of_padded hbase hempty]
    exact moduleName?_eq_of_padded hpath _
  · intro path base hbase
    refine Option.eq_none_iff_forall_ne_some.2 fun name hname => hbase ?_
    obtain ⟨relative, -, hpath, -⟩ := moduleName?_eq_some_iff.1 hname
    exact ⟨relative, hpath.symm⟩

/-- The package `app.models` beneath `src`: its name, that the module `app` has another one, the same file written
    otherwise, and a file beneath `src2`. -/
theorem module_names_give_back_segments_package :
    "src/app/models/__init__.py" ∈ moduleFiles "src" ["app", "models"] (some "py") ∧
      (∃ name, moduleName? (parse "src/app/models/__init__.py") (parse "src") = some name ∧
        (Text.splitAll '.' name.toList).map String.ofList = ["app", "models"]) ∧
      moduleName? (parse "src/app/models/__init__.py") (parse "src") ≠ moduleName? (parse "src/app") (parse "src") ∧
      moduleName? (parse "src//app/./models/__init__.py/") (parse "src/") =
        moduleName? (parse "src/app/models/__init__.py") (parse "src") ∧
      ¬ parse "src" <+: parse "src2/app.py" ∧ moduleName? (parse "src2/app.py") (parse "src") = none := by
  obtain ⟨hname, hsame, hpadded, houtside⟩ := module_names_give_back_segments
  have hmodels : Nameable ["app", "models"] (some "py") := by decide
  have happ : Nameable ["app"] none := by decide
  have hfile : "src/app/models/__init__.py" ∈ moduleFiles "src" ["app", "models"] (some "py") := by decide
  have hpath : ReflTransGen Padded "src/app/models/__init__.py" "src//app/./models/__init__.py/" :=
    .tail (.tail (.single (.slash "src" "app/models/__init__.py")) (.here "src//app" "models/__init__.py"))
      (.lastSlash "src//app/./models/__init__.py")
  have hsrc : ¬ parse "src" <+: parse "src2/app.py" := by decide
  refine ⟨hfile, hname _ _ _ hmodels _ hfile, fun heq => ?_,
    hpadded _ _ _ _ hpath (.single (.lastSlash "src")) (by simp), hsrc, houtside _ _ hsrc⟩
  have hsegments := (hsame "src" "src" _ _ _ _ hmodels happ _ hfile "src/app" (by decide)).1 heq
  simp at hsegments

end ObjectHost.Path
