import OpenUnion.Code.StoragePaths
import OpenUnion.Safety.Artifacts

/-!
# Where the files of artifacts lie

The file of an artifact lies in a directory of its own if its name is a proper segment of a path.
`sanitizeFilename` takes the last component of a name, and the last component may be `.` or `..`.

* `lastPart_append`: what the last component of a text is.
* `sanitizeFilename_dots_iff`: the names whose last component is `.` or `..`.
* `resolveKey_eq`: the path of a storage key.
* `files_apart_iff`: the files of any sequence of uploads lie strictly inside their own
  directories, and apart, just if no name ends in `.` or `..`.
-/

namespace OpenUnion.Storage

open Text

section Statement

variable (env : StorageEnv) (files : List PresignedFile)

/-- Names that are not refused, with distinct ids of `nanoid`. -/
structure Presigned : Prop where
  sanitized : ∀ f ∈ files, (sanitizeFilename f.filename).isSome
  ids : ∀ f ∈ files, f.artifactId ≠ "" ∧ f.artifactId.toList.all isIdChar
  distinct : (files.map (·.artifactId)).Nodup

/-- A path below a directory. -/
def StrictlyInside (path dir : String) : Prop :=
  ∃ rest, rest ≠ [] ∧ segments path.toList = segments dir.toList ++ rest

/-- The files lie in the directories of their artifacts, and no two are one. -/
structure FilesApart : Prop where
  inside : ∀ f ∈ files, ∃ path, f.path env = some path ∧
    StrictlyInside path (env.rootDir ++ "/artifacts/" ++ f.artifactId)
  distinct : files.Pairwise fun f g => f.path env ≠ g.path env

/-- Up to white space around it the name is `.` or `..`, or ends so behind a slash or a
backslash. -/
def EndsInDots (filename : String) : Prop :=
  ∃ dir dots, (trimmed filename).toList = dir ++ dots ∧ (dots = ['.'] ∨ dots = ['.', '.']) ∧
    (dir = [] ∨ dir.getLast? = some '/' ∨ dir.getLast? = some '\\')

end Statement

/-! ## The last component -/

variable {sep : Char} {s front last : List Char}

/-- The text behind the last separator. -/
theorem lastPart_append (hfront : front = [] ∨ front.getLast? = some sep) (hlast : sep ∉ last) :
    lastPart sep (front ++ last) = last := by
  unfold lastPart
  rcases hfront with rfl | hsep
  · simp [List.splitOn_eq_singleton hlast]
  · obtain ⟨front, rfl⟩ := List.getLast?_eq_some_iff.mp hsep
    have hsplit : (front ++ [sep] ++ last).splitOn sep = front.splitOn sep ++ [last] := by
      rw [List.append_assoc, List.singleton_append, List.splitOn_append_cons_self,
        List.splitOn_eq_singleton hlast]
    simp only [hsplit, List.getLast_concat]

/-- Every text has a last component. -/
theorem lastPart_spec (sep : Char) (s : List Char) : ∃ front, s = front ++ lastPart sep s ∧
    (front = [] ∨ front.getLast? = some sep) ∧ sep ∉ lastPart sep s := by
  have hsplit : ∃ front last, s = front ++ last ∧
      (front = [] ∨ front.getLast? = some sep) ∧ sep ∉ last := by
    by_cases hmem : sep ∈ s
    · obtain ⟨as, bs, hrev, has⟩ := List.eq_append_cons_of_mem (List.mem_reverse.mpr hmem)
      refine ⟨bs.reverse ++ [sep], as.reverse, ?_, .inr (by simp), by simpa using has⟩
      have hs := congrArg List.reverse hrev
      simpa using hs
    · exact ⟨[], s, rfl, .inl rfl, hmem⟩
  obtain ⟨front, last, rfl, hfront, hlast⟩ := hsplit
  rw [lastPart_append hfront hlast]
  exact ⟨front, rfl, hfront, hlast⟩

/-- Text without the separator is added to the last component. -/
theorem lastPart_extend (hlast : sep ∉ last) :
    lastPart sep (s ++ last) = lastPart sep s ++ last := by
  obtain ⟨front, hs, hfront, hnot⟩ := lastPart_spec sep s
  have hboth : sep ∉ lastPart sep s ++ last := by
    rw [List.mem_append, not_or]
    exact ⟨hnot, hlast⟩
  calc lastPart sep (s ++ last) = lastPart sep (front ++ (lastPart sep s ++ last)) := by
        rw [← List.append_assoc, ← hs]
    _ = lastPart sep s ++ last := lastPart_append hfront hboth

/-! ## Names -/

variable {filename name : String}

/-- The component that `sanitizeFilename` keeps. -/
theorem sanitizeFilename_eq (h : sanitizeFilename filename = some name) :
    name.toList = lastPart '\\' (lastPart '/' (trimmed filename).toList) ∧ name ≠ "" := by
  simp only [sanitizeFilename] at h
  split_ifs at h with hempty hlong
  obtain rfl := Option.some.inj h
  exact ⟨String.toList_ofList, hempty⟩

/-- A sanitised name is no path. -/
theorem sanitizeFilename_segment (h : sanitizeFilename filename = some name) :
    name.toList ≠ [] ∧ '/' ∉ name.toList := by
  obtain ⟨hname, hempty⟩ := sanitizeFilename_eq h
  obtain ⟨-, -, -, hslash⟩ := lastPart_spec '/' (trimmed filename).toList
  obtain ⟨front, hbase, -, -⟩ := lastPart_spec '\\' (lastPart '/' (trimmed filename).toList)
  constructor
  · exact fun hnil => hempty (String.toList_eq_nil_iff.mp hnil)
  · intro hmem
    rw [hname] at hmem
    rw [hbase] at hslash
    exact hslash (List.mem_append_right _ hmem)

/-- Dots behind a separator, or alone, are the last component. -/
theorem lastPart_dots {dir dots : List Char} (hdots : dots = ['.'] ∨ dots = ['.', '.'])
    (hdir : dir = [] ∨ dir.getLast? = some '/' ∨ dir.getLast? = some '\\') :
    lastPart '\\' (lastPart '/' (dir ++ dots)) = dots := by
  have hslash : '/' ∉ dots := by rcases hdots with rfl | rfl <;> decide
  have hback : '\\' ∉ dots := by rcases hdots with rfl | rfl <;> decide
  rw [lastPart_extend hslash]
  refine lastPart_append ?_ hback
  obtain ⟨front, hsplit, hfront, hnot⟩ := lastPart_spec '/' dir
  -- what is left of `dir` behind its last slash is empty or ends as `dir` does
  cases hrest : lastPart '/' dir with
  | nil => exact .inl rfl
  | cons c rest =>
      right
      have hlast : dir.getLast? = (lastPart '/' dir).getLast? := by
        have hsome : (lastPart '/' dir).getLast?.isSome := by simp [hrest]
        obtain ⟨x, hx⟩ := Option.isSome_iff_exists.mp hsome
        calc dir.getLast? = (front ++ lastPart '/' dir).getLast? := by rw [← hsplit]
          _ = (lastPart '/' dir).getLast? := by rw [List.getLast?_append, hx, Option.some_or]
      rw [← hrest, ← hlast]
      rcases hdir with rfl | hdir | hdir
      · rw [hrest, List.getLast?_nil, List.getLast?_cons] at hlast
        cases hlast
      · rw [hlast] at hdir
        exact absurd (List.mem_of_getLast? hdir) hnot
      · exact hdir

/-- The names whose last component is `.` or `..`. -/
theorem sanitizeFilename_dots_iff (h : sanitizeFilename filename = some name) :
    name.toList = ['.'] ∨ name.toList = ['.', '.'] ↔ EndsInDots filename := by
  obtain ⟨hname, -⟩ := sanitizeFilename_eq h
  rw [hname]
  constructor
  · intro hdots
    obtain ⟨front, htext, hfront, -⟩ := lastPart_spec '/' (trimmed filename).toList
    obtain ⟨inner, hbase, hinner, -⟩ := lastPart_spec '\\' (lastPart '/' (trimmed filename).toList)
    refine ⟨front ++ inner, _, ?_, hdots, ?_⟩
    · rw [List.append_assoc, ← hbase, ← htext]
    · rcases hinner with rfl | hinner
      · rw [List.append_nil]
        exact hfront.imp_right .inl
      · rw [List.getLast?_append, hinner]
        exact .inr (.inr rfl)
  · rintro ⟨dir, dots, htext, hdots, hdir⟩
    rw [htext, lastPart_dots hdots hdir]
    exact hdots

/-! ## Paths -/

variable {env : StorageEnv} {cwd localDir id : String} {f g : PresignedFile}
  {files : List PresignedFile}

/-- An id is a proper segment. -/
theorem proper_id (hne : id ≠ "") (hid : id.toList.all isIdChar) : Proper id.toList := by
  have hchar : ∀ c, c ∈ id.toList → isIdChar c := List.all_eq_true.mp hid
  have hdot : '.' ∉ id.toList := fun hmem => absurd (hchar '.' hmem) (by decide)
  constructor
  · exact fun hnil => hne (String.toList_eq_nil_iff.mp hnil)
  · intro heq
    exact hdot (heq ▸ by decide)
  · intro heq
    exact hdot (heq ▸ by decide)
  · exact fun hmem => absurd (hchar '/' hmem) (by decide)

theorem storageKeyOf_split (hid : Proper id.toList) (hname : '/' ∉ name.toList) :
    (storageKeyOf id name).toList.splitOn '/' =
      ["artifacts".toList, id.toList, name.toList] := by
  have hkey : (storageKeyOf id name).toList =
      "artifacts".toList ++ '/' :: (id.toList ++ '/' :: name.toList) := by
    simp [storageKeyOf, String.toList_append]
  rw [hkey, List.splitOn_append_cons_self_of_not_mem (by decide),
    List.splitOn_append_cons_self_of_not_mem hid.noSlash, List.splitOn_eq_singleton hname]

/-- The segments of the root directory. -/
def rootSegments (env : StorageEnv) : List Segment := segments env.rootDir.toList

theorem rootSegments_proper : ∀ s ∈ rootSegments env, Proper s := segments_proper

/-- The root directory is a normalised path. -/
theorem rootDir_eq : (env.inDirectory cwd localDir).rootDir.toList =
    render (rootSegments (env.inDirectory cwd localDir)) := by
  obtain ⟨segs, hsegs, hproper⟩ : ∃ segs, resolve cwd.toList localDir.toList = render segs ∧
      ∀ s ∈ segs, Proper s := resolve_normal
  have hroot : (env.inDirectory cwd localDir).rootDir.toList = render segs := by
    rw [← hsegs]
    exact String.toList_ofList
  rw [rootSegments, hroot, segments_render hproper]

/-- The segments of the directory of an artifact below the root. -/
theorem dir_proper (hid : Proper id.toList) :
    ∀ s ∈ ["artifacts".toList, id.toList], Proper s := by
  intro s hs
  rcases List.mem_cons.mp hs with rfl | hs
  · exact ⟨by decide, by decide, by decide, by decide⟩
  · exact List.mem_singleton.mp hs ▸ hid

/-- The directory of an artifact. -/
theorem segments_dir (hid : Proper id.toList) :
    segments (env.rootDir ++ "/artifacts/" ++ id).toList =
      rootSegments env ++ ["artifacts".toList, id.toList] := by
  have hdir : (env.rootDir ++ "/artifacts/" ++ id).toList =
      env.rootDir.toList ++ '/' :: ("artifacts".toList ++ '/' :: id.toList) := by
    simp [String.toList_append]
  rw [hdir, segments_below, List.splitOn_append_cons_self_of_not_mem (by decide),
    List.splitOn_eq_singleton hid.noSlash]
  exact foldl_proper (dir_proper hid)

/-- The path of a storage key. -/
theorem resolveKey_eq (hid : Proper id.toList) (hname : '/' ∉ name.toList) :
    ((env.inDirectory cwd localDir).resolveKey (storageKeyOf id name)).toList =
      render (pushSegment (rootSegments (env.inDirectory cwd localDir) ++
        ["artifacts".toList, id.toList]) name.toList) := by
  have hhead : (storageKeyOf id name).toList.head? = some 'a' := by
    simp [storageKeyOf, String.toList_append]
  have hne : (storageKeyOf id name).toList ≠ [] := by
    intro hnil
    rw [hnil] at hhead
    cases hhead
  have hdirs : ["artifacts".toList, id.toList].foldl pushSegment
      (rootSegments (env.inDirectory cwd localDir)) =
      rootSegments (env.inDirectory cwd localDir) ++ ["artifacts".toList, id.toList] :=
    foldl_proper (dir_proper hid)
  change (pathResolve _ _).toList = _
  rw [pathResolve, String.toList_ofList, resolve, if_neg hne, if_neg (by rw [hhead]; decide),
    segments_below, storageKeyOf_split hid hname, ← hdirs]
  rfl

/-- An upload writes the file of the key its row has been given; downloads, scans and deletions
take the path of the key as it is. -/
theorem uploadPath_presigned {key : String} {row : Artifact} (hkey : f.key = some key)
    (hrow : row.storageKey = some key) : env.uploadPath f.artifactId row = f.path env := by
  rw [StorageEnv.uploadPath, hrow, Option.getD_some, PresignedFile.path, hkey, Option.bind_some]

/-- What the path of a file is made of. -/
theorem segments_path {path : String} (hid : Proper f.artifactId.toList)
    (hname : sanitizeFilename f.filename = some name)
    (hpath : f.path (env.inDirectory cwd localDir) = some path) :
    segments path.toList = pushSegment (rootSegments (env.inDirectory cwd localDir) ++
      ["artifacts".toList, f.artifactId.toList]) name.toList := by
  obtain ⟨-, hslash⟩ := sanitizeFilename_segment hname
  have hkey : f.key = some (storageKeyOf f.artifactId name) := by
    rw [PresignedFile.key, hname, Option.map_some]
  rw [PresignedFile.path, hkey, Option.bind_some, StorageEnv.localPath] at hpath
  split_ifs at hpath
  have hsegs : ∀ s ∈ pushSegment (rootSegments (env.inDirectory cwd localDir) ++
      ["artifacts".toList, f.artifactId.toList]) name.toList, Proper s := by
    have hdirs : ∀ s ∈ rootSegments (env.inDirectory cwd localDir) ++
        ["artifacts".toList, f.artifactId.toList], Proper s :=
      fun s hs => (List.mem_append.mp hs).elim (rootSegments_proper s) (dir_proper hid s)
    exact foldl_keeps hdirs (fun s hs => List.mem_singleton.mp hs ▸ hslash)
  rw [← Option.some.inj hpath, resolveKey_eq hid hslash, segments_render hsegs]

/-- A file whose name is a proper segment has a path. -/
theorem path_isSome (hid : Proper f.artifactId.toList)
    (hname : sanitizeFilename f.filename = some name) (hproper : Proper name.toList) :
    (f.path (env.inDirectory cwd localDir)).isSome := by
  have hkey : f.key = some (storageKeyOf f.artifactId name) := by
    rw [PresignedFile.key, hname, Option.map_some]
  have hstart : startsWith ((env.inDirectory cwd localDir).resolveKey
      (storageKeyOf f.artifactId name)) (env.inDirectory cwd localDir).rootDir = true := by
    rw [startsWith, resolveKey_eq hid hproper.noSlash, rootDir_eq, pushSegment_proper hproper,
      List.append_assoc]
    exact decide_eq_true render_prefix
  rw [PresignedFile.path, hkey, Option.bind_some, StorageEnv.localPath]
  simp only [hstart, if_true, Option.isSome_some]

/-- The files of any sequence of uploads lie strictly inside the directories of their artifacts,
and apart, just if no name ends in `.` or `..`. -/
theorem files_apart_iff (h : Presigned files) :
    FilesApart (env.inDirectory cwd localDir) files ↔ ∀ f ∈ files, ¬ EndsInDots f.filename := by
  have hid : ∀ f ∈ files, Proper f.artifactId.toList := fun f hf =>
    proper_id (h.ids f hf).1 (h.ids f hf).2
  constructor
  · intro hapart f hf hdots
    obtain ⟨name, hname⟩ := Option.isSome_iff_exists.mp (h.sanitized f hf)
    obtain ⟨path, hpath, rest, hne, hrest⟩ := hapart.inside f hf
    rw [segments_dir (hid f hf), segments_path (hid f hf) hname hpath] at hrest
    have hlen := congrArg List.length hrest
    have hpos : 0 < rest.length := List.length_pos_iff.mpr hne
    rcases (sanitizeFilename_dots_iff hname).mpr hdots with hdot | hdot
    · rw [hdot, pushSegment, if_pos (.inr rfl)] at hlen
      have hsum := hlen.trans List.length_append
      omega
    · rw [hdot, pushSegment, if_neg (by decide), if_pos rfl] at hlen
      simp only [List.length_dropLast, List.length_append] at hlen
      omega
  · intro hnodots
    have hfile : ∀ f ∈ files, ∃ name path, Proper name ∧
        f.path (env.inDirectory cwd localDir) = some path ∧
        segments path.toList = (rootSegments (env.inDirectory cwd localDir) ++
          ["artifacts".toList, f.artifactId.toList]) ++ [name] := by
      intro f hf
      obtain ⟨name, hname⟩ := Option.isSome_iff_exists.mp (h.sanitized f hf)
      obtain ⟨hne, hslash⟩ := sanitizeFilename_segment hname
      have hnot := (sanitizeFilename_dots_iff hname).not.mpr (hnodots f hf)
      rw [not_or] at hnot
      have hproper : Proper name.toList := ⟨hne, hnot.1, hnot.2, hslash⟩
      obtain ⟨path, hpath⟩ := Option.isSome_iff_exists.mp (path_isSome (hid f hf) hname hproper)
      refine ⟨name.toList, path, hproper, hpath, ?_⟩
      rw [segments_path (hid f hf) hname hpath, pushSegment_proper hproper]
    constructor
    · intro f hf
      obtain ⟨name, path, -, hpath, hsegs⟩ := hfile f hf
      refine ⟨path, hpath, [name], List.cons_ne_nil name [], ?_⟩
      rw [hsegs, segments_dir (hid f hf)]
    · have hids : files.Pairwise fun f g => f.artifactId ≠ g.artifactId :=
        List.pairwise_map.mp h.distinct
      refine hids.imp_of_mem fun {f g} hf hg hne heq => hne ?_
      obtain ⟨name, path, -, hpath, hsegs⟩ := hfile f hf
      obtain ⟨name', path', -, hpath', hsegs'⟩ := hfile g hg
      rw [hpath, hpath'] at heq
      rw [Option.some.inj heq, hsegs'] at hsegs
      have hdir := (List.append_inj' hsegs rfl).1
      have hboth := List.append_cancel_left hdir
      exact String.toList_injective (by simpa using hboth.symm)

/-- A server with the default directory. -/
def defaultDirectory : StorageEnv := StorageEnv.disk.inDirectory "/srv/app" "./var/uploads"

/-- Two files with directories in their names. -/
def pictureAndNotes : List PresignedFile :=
  [⟨"V1StGXR8_Z5j", "shots/home.png"⟩, ⟨"8xKp2LmQ_w-4", " ..\\notes.txt"⟩]

/-- Directories in names do no harm. -/
theorem pictureAndNotes_apart : FilesApart defaultDirectory pictureAndNotes := by
  have hpicture : sanitizeFilename "shots/home.png" = some "home.png" := by decide
  have hnotes : sanitizeFilename " ..\\notes.txt" = some "notes.txt" := by decide
  have hpresigned : Presigned pictureAndNotes := by
    constructor
    · simp [pictureAndNotes, hpicture, hnotes]
    · decide
    · decide
  refine (files_apart_iff hpresigned).mpr ?_
  intro f hf
  rcases List.mem_cons.mp hf with rfl | hf
  · exact (sanitizeFilename_dots_iff hpicture).not.mp (by decide)
  · obtain rfl := List.mem_singleton.mp hf
    exact (sanitizeFilename_dots_iff hnotes).not.mp (by decide)

/-- Two names that are not refused, for the directory of all artifacts. -/
def twoDots : List PresignedFile := [⟨"V1StGXR8_Z5j", "shots/.."⟩, ⟨"8xKp2LmQ_w-4", ".."⟩]

/-- Both files are the directory of all artifacts. -/
theorem twoDots_collide : Presigned twoDots ∧
    (∀ f ∈ twoDots, f.path defaultDirectory = some "/srv/app/var/uploads/artifacts") ∧
    ¬ FilesApart defaultDirectory twoDots := by
  have hpaths : ∀ f ∈ twoDots, f.path defaultDirectory = some "/srv/app/var/uploads/artifacts" := by
    decide
  refine ⟨⟨by decide, by decide, by decide⟩, hpaths, fun hapart => ?_⟩
  have hne := List.rel_of_pairwise_cons hapart.distinct (List.mem_singleton_self _)
  have hsecond := hpaths _ (List.mem_cons_of_mem _ (List.mem_singleton_self _))
  rw [hpaths _ List.mem_cons_self, hsecond] at hne
  exact hne rfl

end OpenUnion.Storage
