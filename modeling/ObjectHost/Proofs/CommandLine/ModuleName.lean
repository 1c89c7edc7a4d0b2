-- SUMMARY: What the command for module names answers beneath the current directory.
import ObjectHost.CommandLine.Command
import ObjectHost.Proofs.Path.Spelling

/-!
# Module names on the command line

The current directory is the default base of the command. It is replaced by the
empty base, which opens every path, so that no component of a path is taken off:
a leading `.` or slash is not refused but becomes a segment of the answer.
-/

namespace ObjectHost

/-! ## Slashes -/

namespace Path

/-- What a component of a path can come from. -/
theorem of_mem_parse {path : String} {c : Component} (hc : c ∈ parse path) :
    (c = .root ∧ path.toList.head? = some '/') ∨ c = .here ∨
      ∃ piece ∈ Text.splitAll '/' path.toList, component? piece = some c := by
  unfold parse at hc
  generalize hpieces : Text.splitAll '/' path.toList = pieces at hc ⊢
  have hlater : ∀ {rest : List (List Char)}, rest ⊆ pieces → c ∈ rest.filterMap component? →
      ∃ piece ∈ pieces, component? piece = some c := by
    intro rest hsubset hrest
    obtain ⟨piece, hmem, hpiece⟩ := List.mem_filterMap.1 hrest
    exact ⟨piece, hsubset hmem, hpiece⟩
  unfold ofPieces at hc
  split at hc
  next => cases hc
  next hne =>
    rcases List.mem_cons.1 hc with rfl | hc
    · exact .inl ⟨rfl, Text.head?_of_splitAll hpieces hne⟩
    · exact .inr (.inr (hlater (List.subset_cons_self _ _) hc))
  next =>
    rcases List.mem_cons.1 hc with rfl | hc
    · exact .inr (.inl rfl)
    · exact .inr (.inr (hlater (List.subset_cons_self _ _) hc))
  next => exact .inr (.inr (hlater (fun _ hmem => hmem) hc))

/-- A component is written with a slash only if it is the root of an absolute path. -/
theorem head?_of_slash_mem_text {path : String} {c : Component} (hc : c ∈ parse path) (hslash : '/' ∈ c.text.toList) :
    path.toList.head? = some '/' := by
  rcases of_mem_parse hc with ⟨-, hhead⟩ | rfl | ⟨piece, hmem, hpiece⟩
  · exact hhead
  · simp [Component.text] at hslash
  · have hnot := Text.not_mem_of_mem_splitAll hmem
    unfold component? at hpiece
    split at hpiece
    next => cases hpiece
    next => cases hpiece
    next =>
      cases hpiece
      simp [Component.text] at hslash
    next =>
      cases hpiece
      simp only [Component.text, String.toList_ofList] at hslash
      exact absurd hslash hnot

theorem mem_of_mem_stem {file : String} {c : Char} (h : c ∈ (stem file).toList) : c ∈ file.toList := by
  unfold stem at h
  split at h
  next front back hsplit =>
    obtain ⟨hfile, -⟩ := Text.eq_append_of_splitLast hsplit
    rw [String.toList_ofList] at h
    rw [hfile]
    exact List.mem_append_left _ h
  next => exact h

/-- A name has a slash in it exactly if it is the name of an absolute path by its own components. -/
theorem slash_mem_joinWith_iff {path : String} {segments : List String}
    (h : segments? (parse path) = some segments) :
    '/' ∈ (Text.joinWith "." segments).toList ↔ path.toList.head? = some '/' := by
  obtain ⟨file, hfile, rfl⟩ := Option.map_eq_some_iff.1 h
  have hlast : (parse path).getLast? = some (.name file) := by
    unfold fileName? at hfile
    split at hfile
    next text htext =>
      cases hfile
      exact htext
    next => cases hfile
  obtain ⟨dirs, hparse⟩ := List.getLast?_eq_some_iff.1 hlast
  rw [Text.mem_joinWith_iff (by decide), hparse, List.dropLast_concat]
  constructor
  · rintro ⟨segment, hsegment, hslash⟩
    rcases List.mem_append.1 hsegment with hdir | hstem
    · obtain ⟨c, hc, rfl⟩ := List.mem_map.1 hdir
      exact head?_of_slash_mem_text (hparse ▸ List.mem_append_left _ hc) hslash
    · have hmem : segment = stem file := by
        split at hstem
        next => cases hstem
        next => exact List.mem_singleton.1 hstem
      subst hmem
      have hname : Component.name file ∈ parse path := hparse ▸ List.mem_append_right _ List.mem_cons_self
      exact head?_of_slash_mem_text hname (mem_of_mem_stem hslash)
  · intro hhead
    have hroot := root_mem_parse hhead
    rw [hparse] at hroot
    have hdirs : Component.root ∈ dirs := by simpa using hroot
    refine ⟨Component.root.text, List.mem_append_left _ (List.mem_map_of_mem hdirs), ?_⟩
    simp [Component.text]

end Path

/-! ## The current directory -/

namespace CommandLine

theorem moduleName_here (path : String) :
    moduleName path "." =
      match Path.moduleName? (Path.parse path) [] with
      | some name => .ok (name ++ "\n")
      | none => .error (.notAModule path "") :=
  rfl

theorem moduleName_here_of_segments {path : String} {segments : List String}
    (h : Path.segments? (Path.parse path) = some segments) (hne : segments ≠ []) :
    moduleName path "." = .ok (Text.joinWith "." segments ++ "\n") := by
  have hname : Path.moduleName? (Path.parse path) [] = some (Text.joinWith "." segments) :=
    Path.moduleName?_eq_some_iff.2 ⟨Path.parse path, segments, rfl, h, hne, rfl⟩
  rw [moduleName_here, hname]

/-- What stands in front of the file of a module is kept in the answer. -/
theorem moduleName_here_of_front {segments : List String} {file path : String} (hne : segments ≠ [])
    (hnamed : Path.segments? (Path.parse file) = some segments) (front : Path)
    (hpath : Path.parse path = front ++ Path.parse file) :
    moduleName path "." = .ok (Text.joinWith "." (front.map Path.Component.text ++ segments) ++ "\n") := by
  refine moduleName_here_of_segments ?_ (List.append_ne_nil_of_right_ne_nil _ hne)
  rw [hpath]
  exact Path.segments?_beneath front hnamed

theorem slash_mem_answer_iff {path answer : String} (h : moduleName path "." = .ok answer) :
    '/' ∈ answer.toList ↔ path.toList.head? = some '/' := by
  rw [moduleName_here] at h
  split at h
  next name hname =>
    cases h
    obtain ⟨_, segments, rfl, hsegments, -, rfl⟩ := Path.moduleName?_eq_some_iff.1 hname
    rw [← Path.slash_mem_joinWith_iff hsegments]
    simp
  next => cases h

/-- Beneath the current directory, what opens a path is kept. The file of a module, written plainly, has the segments of
    the module for an answer; written with a `.` in front it has two empty segments in front of them, and as an absolute
    path a segment with a slash, and neither is refused. An answer has a slash in it exactly if the path is absolute. -/
theorem module_name_keeps_what_opens_path (segments : List String) (extension : Option String)
    (h : Path.Nameable segments extension) :
    let file := Path.fileText (Path.joinAll "" segments) extension
    moduleName file "." = .ok (Text.joinWith "." segments ++ "\n") ∧
      moduleName ("./" ++ file) "." = .ok (".." ++ Text.joinWith "." segments ++ "\n") ∧
      moduleName ("/" ++ file) "." = .ok ("/." ++ Text.joinWith "." segments ++ "\n") ∧
      ∀ path answer, moduleName path "." = .ok answer → ('/' ∈ answer.toList ↔ path.toList.head? = some '/') := by
  intro file
  obtain ⟨relative, hnamed, hplain, hparse⟩ := h.exists_relative
  obtain rfl : Path.parse file = relative := hparse ""
  have hopened : ∀ front : String, Path.parse (front ++ "/" ++ file) =
      Path.parse (front ++ "/") ++ Path.parse file := fun front => by
    rw [Path.parse_slash, Path.trail_of_plain hplain]
  refine ⟨moduleName_here_of_front h.nonempty hnamed [] rfl, ?_, ?_, fun path answer => slash_mem_answer_iff⟩
  · have hhere : Path.parse ("./" ++ file) = [.here] ++ Path.parse file := hopened "."
    rw [moduleName_here_of_front h.nonempty hnamed [.here] hhere, Text.joinWith_append "." (by simp) h.nonempty]
    rfl
  · have hroot : Path.parse ("/" ++ file) = [.root] ++ Path.parse file := hopened ""
    rw [moduleName_here_of_front h.nonempty hnamed [.root] hroot, Text.joinWith_append "." (by simp) h.nonempty]
    rfl

/-- The module `app.models`, written in three ways. -/
theorem module_name_keeps_what_opens_path_nested :
    Path.Nameable ["app", "models"] (some "py") ∧
      moduleName "app/models.py" "." = .ok "app.models\n" ∧
      moduleName "./app/models.py" "." = .ok "..app.models\n" ∧
      moduleName "/app/models.py" "." = .ok "/.app.models\n" := by
  have hmodels : Path.Nameable ["app", "models"] (some "py") := by decide
  obtain ⟨hplain, hhere, hroot, -⟩ := module_name_keeps_what_opens_path _ _ hmodels
  exact ⟨hmodels, hplain, hhere, hroot⟩

/-- A `.` in front of a file does not leave its module name alone, and a slash there does not rule a name out. -/
theorem module_name_depends_on_what_opens_path :
    moduleName "a/b.py" "." = .ok "a.b\n" ∧ moduleName "./a/b.py" "." ≠ .ok "a.b\n" ∧
      ∀ e, moduleName "/a/b.py" "." ≠ .error e := by
  have hhere : moduleName "./a/b.py" "." = .ok "..a.b\n" := rfl
  have hroot : moduleName "/a/b.py" "." = .ok "/.a.b\n" := rfl
  refine ⟨rfl, ?_, ?_⟩
  · rw [hhere]
    simp
  · intro e
    rw [hroot]
    simp

end CommandLine

end ObjectHost
