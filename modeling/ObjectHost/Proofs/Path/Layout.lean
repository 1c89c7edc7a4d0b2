-- SUMMARY: That the names files get by where they lie are the names by which they find one another.
import ObjectHost.Proofs.Name.Resolution
import ObjectHost.Proofs.Path.Join

/-!
# The layout of files

A file gets its module name from the directories it lies in, and a module finds
others by names beside it and beneath it. The two go together: what lies beside
a file is its sibling, and what lies beside a package file is a child of the
package, however deep in directories of its own.
-/

namespace ObjectHost

namespace Path

/-! ## File names -/

/-- The name of a file with this stem, and this extension if it has one. -/
def fileText (stem : String) : Option String → String
  | none => stem
  | some extension => stem ++ "." ++ extension

/-- A stem that no dot cuts short. -/
structure PlainStem (text : String) : Prop where
  nonempty : text ≠ ""
  noSlash : '/' ∉ text.toList
  noDot : '.' ∉ text.toList

/-- What can stand behind the last dot of a file name. -/
structure IsExtension (text : String) : Prop where
  noSlash : '/' ∉ text.toList
  noDot : '.' ∉ text.toList

instance : DecidablePred PlainStem := fun text =>
  decidable_of_iff (text ≠ "" ∧ '/' ∉ text.toList ∧ '.' ∉ text.toList)
    ⟨fun ⟨h₁, h₂, h₃⟩ => ⟨h₁, h₂, h₃⟩, fun ⟨h₁, h₂, h₃⟩ => ⟨h₁, h₂, h₃⟩⟩

instance : DecidablePred IsExtension := fun text =>
  decidable_of_iff ('/' ∉ text.toList ∧ '.' ∉ text.toList) ⟨fun ⟨h₁, h₂⟩ => ⟨h₁, h₂⟩, fun ⟨h₁, h₂⟩ => ⟨h₁, h₂⟩⟩

namespace PlainStem

variable {text : String}

theorem packageStem : PlainStem Path.packageStem := ⟨by decide, by decide, by decide⟩

theorem exists_cons (h : PlainStem text) : ∃ c cs, text.toList = c :: cs ∧ c ≠ '.' := by
  cases htext : text.toList with
  | nil => exact absurd (String.toList_inj.1 htext) h.nonempty
  | cons c cs =>
    refine ⟨c, cs, rfl, ?_⟩
    rintro rfl
    exact h.noDot (htext ▸ List.mem_cons_self)

theorem ordinary_of_cons {c : Char} {cs : List Char} (hc : c ≠ '.') (hslash : '/' ∉ text.toList)
    (htext : text.toList = c :: cs) : Ordinary text := by
  refine ⟨?_, hslash, ?_, ?_⟩
  · rintro rfl
    cases htext
  all_goals
    rintro rfl
    cases htext
    exact hc rfl

theorem ordinary_fileText (h : PlainStem text) {extension : Option String}
    (hextension : ∀ e ∈ extension, IsExtension e) : Ordinary (fileText text extension) := by
  obtain ⟨c, cs, htext, hc⟩ := h.exists_cons
  cases extension with
  | none => exact ordinary_of_cons hc h.noSlash htext
  | some extension =>
    have hslash := (hextension extension rfl).noSlash
    have hfile : (fileText text (some extension)).toList = c :: (cs ++ '.' :: extension.toList) := by
      simp [fileText, htext]
    refine ordinary_of_cons hc ?_ hfile
    simp [fileText, h.noSlash, hslash]

/-- The extension is taken off, and nothing else. -/
theorem stem_fileText (h : PlainStem text) {extension : Option String}
    (hextension : ∀ e ∈ extension, IsExtension e) : stem (fileText text extension) = text := by
  cases extension with
  | none =>
    have hnone : Text.splitLast '.' text.toList = none := Text.splitLast_eq_none_iff.2 h.noDot
    simp only [stem, fileText, hnone]
  | some extension =>
    obtain ⟨c, cs, htext, -⟩ := h.exists_cons
    have hsplit : Text.splitLast '.' (fileText text (some extension)).toList = some (c :: cs, extension.toList) := by
      rw [← htext, ← Text.splitLast_append (hextension extension rfl).noDot]
      simp [fileText]
    simp only [stem, hsplit]
    rw [← htext, String.ofList_toList]

end PlainStem

/-! ## Module names -/

theorem moduleName?_eq_some_iff {path base : Path} {name : String} :
    moduleName? path base = some name ↔
      ∃ relative segments, path = base ++ relative ∧ segments? relative = some segments ∧ segments ≠ [] ∧
        name = Text.joinWith "." segments := by
  unfold moduleName?
  constructor
  · intro h
    split at h
    next segment rest hsegments =>
      cases h
      obtain ⟨relative, hstrip, hrelative⟩ := Option.bind_eq_some_iff.1 hsegments
      exact ⟨relative, _, strip?_eq_some_iff.1 hstrip, hrelative, by simp, rfl⟩
    next => cases h
  · rintro ⟨relative, segments, hpath, hrelative, hne, rfl⟩
    obtain ⟨segment, rest, rfl⟩ := List.exists_cons_of_ne_nil hne
    rw [strip?_eq_some_iff.2 hpath, Option.bind_some, hrelative]

theorem fileName?_append (front : Path) {rest : Path} (hne : rest ≠ []) : fileName? (front ++ rest) = fileName? rest := by
  rw [fileName?, fileName?, List.getLast?_append, List.getLast?_eq_some_getLast hne, Option.some_or]

/-- Components in front of a path give segments in front of its own. -/
theorem segments?_beneath (front : Path) {relative : Path} {segments : List String}
    (h : segments? relative = some segments) :
    segments? (front ++ relative) = some (front.map Component.text ++ segments) := by
  obtain ⟨file, hfile, rfl⟩ := Option.map_eq_some_iff.1 h
  have hne : relative ≠ [] := by
    rintro rfl
    cases hfile
  have hlast : fileName? (front ++ relative) = some file := (fileName?_append front hne).trans hfile
  rw [segments?, hlast, Option.map_some, List.dropLast_append_of_ne_nil hne, List.map_append, List.append_assoc]

/-- Directories in front of a path are segments in front of its own. -/
theorem segments?_append (dirs : List String) {relative : Path} {segments : List String}
    (h : segments? relative = some segments) :
    segments? (dirs.map .name ++ relative) = some (dirs ++ segments) := by
  have htexts : (dirs.map Component.name).map Component.text = dirs := by
    rw [List.map_map]
    exact List.map_id _
  rw [segments?_beneath _ h, htexts]

/-- A file gives the last segment by its stem, unless it stands for its directory. -/
theorem PlainStem.segments?_fileText {text : String} (h : PlainStem text) {extension : Option String}
    (hextension : ∀ e ∈ extension, IsExtension e) :
    segments? (parse (fileText text extension)) = some (if text = Path.packageStem then [] else [text]) := by
  rw [(h.ordinary_fileText hextension).parse]
  simp only [segments?, fileName?, List.getLast?_singleton, Option.map_some, List.dropLast_singleton, List.map_nil,
    List.nil_append, h.stem_fileText hextension]

/-- What has a name of its own has the same name beneath directories, with the directories in front. -/
theorem moduleName?_beneath (base : String) {dirs segments : List String} (hdirs : ∀ dir ∈ dirs, Ordinary dir)
    (hne : dirs ≠ []) {rest : String} (hplain : Plain (parse rest)) (hrest : segments? (parse rest) = some segments) :
    moduleName? (parse (join (joinAll base dirs) rest)) (parse base) =
      some (Text.joinWith "." (dirs ++ segments)) := by
  refine moduleName?_eq_some_iff.2 ⟨dirs.map .name ++ parse rest, dirs ++ segments, ?_, segments?_append dirs hrest,
    by simp [hne], rfl⟩
  rw [parse_join _ hplain, parse_joinAll base hdirs, List.append_assoc]

theorem joinWith_ne_empty {dirs : List String} (hne : dirs ≠ []) (hdirs : ∀ dir ∈ dirs, Ordinary dir) :
    Text.joinWith "." dirs ≠ "" := by
  cases dirs with
  | nil => exact absurd rfl hne
  | cons dir dirs =>
    have hdir := (hdirs dir List.mem_cons_self).nonempty
    cases dirs with
    | nil => exact hdir
    | cons next dirs => simp [Text.joinWith, hdir]

end Path

/-- Modules find one another by where their files lie. Let `stem` be the stem of a file that is no package file, in
    directories `dirs` beneath a base, and let the file at `rest`, a path of ordinary names, be called `requested` when
    named by itself. To the module of the first file, the one at `rest` in the same directories is the sibling
    `requested`; to the package of these directories it is the child `requested`. So wherever this module is registered
    and no candidate of an earlier tier is, the request is resolved to it, in the tier of siblings or of children. The
    stem has no dot, and an extension is what follows the last one. -/
theorem layout_agrees_with_resolution (base : String) (dirs : List String) (stem : String)
    (extension : Option String) (rest requested : String) (hne : dirs ≠ []) (hdirs : ∀ dir ∈ dirs, Path.Ordinary dir)
    (hstem : Path.PlainStem stem) (hpackage : stem ≠ "__init__")
    (hextension : ∀ e ∈ extension, Path.IsExtension e) (hplain : Path.Plain (Path.parse rest))
    (hrequested : Path.moduleName? (Path.parse rest) (Path.parse "") = some requested) :
    let nameOf (file : String) : Option String :=
      Path.moduleName? (Path.parse (Path.join (Path.joinAll base dirs) file)) (Path.parse base)
    ∃ caller package target,
      nameOf (Path.fileText stem extension) = some caller ∧
      nameOf (Path.fileText "__init__" extension) = some package ∧
      nameOf rest = some target ∧
      Name.sibling? caller requested = some target ∧
      Name.child package requested = target ∧
      ∀ isRegistered : String → Bool, isRegistered target = true →
        ((∀ c, Name.Candidate requested caller c → c.tier.rank < Name.Tier.sibling.rank →
            isRegistered c.name = false) →
          Name.resolve? isRegistered requested caller = some ⟨target, .sibling⟩) ∧
        ((∀ c, Name.Candidate requested package c → c.tier.rank < Name.Tier.child.rank →
            isRegistered c.name = false) →
          Name.resolve? isRegistered requested package = some ⟨target, .child⟩) := by
  intro nameOf
  obtain ⟨relative, segments, hrelative, hsegments, hsome, rfl⟩ := Path.moduleName?_eq_some_iff.1 hrequested
  obtain rfl : Path.parse rest = relative := hrelative
  have hnameOf : ∀ {file segments}, Path.Plain (Path.parse file) → Path.segments? (Path.parse file) = some segments →
      nameOf file = some (Text.joinWith "." (dirs ++ segments)) :=
    fun hplain hfile => Path.moduleName?_beneath base hdirs hne hplain hfile
  have hcaller : nameOf (Path.fileText stem extension) = some (Name.child (Text.joinWith "." dirs) stem) := by
    have hfile := hstem.segments?_fileText hextension
    rw [if_neg (show stem ≠ Path.packageStem from hpackage)] at hfile
    rw [hnameOf (hstem.ordinary_fileText hextension).plain hfile, Text.joinWith_append "." hne (by simp)]
    rfl
  have hinit : nameOf (Path.fileText "__init__" extension) = some (Text.joinWith "." dirs) := by
    have hfile := Path.PlainStem.packageStem.segments?_fileText hextension
    rw [if_pos rfl] at hfile
    rw [← List.append_nil dirs]
    exact hnameOf (Path.PlainStem.packageStem.ordinary_fileText hextension).plain hfile
  have htarget : nameOf rest = some (Name.child (Text.joinWith "." dirs) (Text.joinWith "." segments)) := by
    rw [hnameOf hplain hsegments, Text.joinWith_append "." hne hsome]
    rfl
  refine ⟨_, _, _, hcaller, hinit, htarget, ?_, rfl,
    fun isRegistered hregistered => ⟨fun hearlier => ?_, fun hearlier => ?_⟩⟩
  · rw [Name.sibling?, Name.parent?_child _ hstem.noDot, Option.map_some]
  · exact Name.resolve?_eq_some_iff.2 ⟨.sibling _ stem hstem.noDot rfl, hregistered, hearlier⟩
  · exact Name.resolve?_eq_some_iff.2 ⟨.child (Path.joinWith_ne_empty hne hdirs), hregistered, hearlier⟩

/-- The module `x.y` beside the module `mod` of the package `pkg.sub`: both find it by its short name. -/
theorem layout_agrees_with_resolution_nested :
    let named (path : String) : Option String := Path.moduleName? (Path.parse path) (Path.parse "src")
    let isRegistered (name : String) : Bool := decide (name = "pkg.sub.x.y")
    Path.moduleName? (Path.parse "x//y.py") (Path.parse "") = some "x.y" ∧
      named "src/pkg/sub/mod.py" = some "pkg.sub.mod" ∧ named "src/pkg/sub/__init__.py" = some "pkg.sub" ∧
      named "src/pkg/sub/x//y.py" = some "pkg.sub.x.y" ∧
      Name.resolve? isRegistered "x.y" "pkg.sub.mod" = some ⟨"pkg.sub.x.y", .sibling⟩ ∧
      Name.resolve? isRegistered "x.y" "pkg.sub" = some ⟨"pkg.sub.x.y", .child⟩ := by
  intro named isRegistered
  have hrequested : Path.moduleName? (Path.parse "x//y.py") (Path.parse "") = some "x.y" := by decide
  have hcaller : named "src/pkg/sub/mod.py" = some "pkg.sub.mod" := by decide
  have hpackage : named "src/pkg/sub/__init__.py" = some "pkg.sub" := by decide
  have htarget : named "src/pkg/sub/x//y.py" = some "pkg.sub.x.y" := by decide
  have hplain : Path.Plain (Path.parse "x//y.py") := by
    intro c hc
    have hnames : Path.parse "x//y.py" = ["x", "y.py"].map .name := by decide
    rw [hnames] at hc
    obtain ⟨text, -, rfl⟩ := List.mem_map.1 hc
    exact ⟨text, rfl⟩
  have hearlier : ∀ tier caller, (∀ c ∈ Name.candidates "x.y" caller, c.tier.rank < tier →
      isRegistered c.name = false) → ∀ c, Name.Candidate "x.y" caller c → c.tier.rank < tier →
      isRegistered c.name = false := fun tier caller h c hc => h c (Name.mem_candidates_iff.2 hc)
  obtain ⟨caller, package, target, hcaller', hpackage', htarget', -, -, hresolves⟩ :=
    layout_agrees_with_resolution "src" ["pkg", "sub"] "mod" (some "py") "x//y.py" "x.y" (by decide)
      (by decide) ⟨by decide, by decide, by decide⟩ (by decide)
      (by rintro e ⟨⟩; exact ⟨by decide, by decide⟩) hplain hrequested
  cases hcaller.symm.trans hcaller'
  cases hpackage.symm.trans hpackage'
  cases htarget.symm.trans htarget'
  obtain ⟨hsibling, hchild⟩ := hresolves isRegistered (by decide)
  exact ⟨hrequested, hcaller, hpackage, htarget, hsibling (hearlier _ _ (by decide)),
    hchild (hearlier _ _ (by decide))⟩

end ObjectHost
