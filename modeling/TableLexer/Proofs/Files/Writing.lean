import TableLexer.Files.Tree
import TableLexer.Proofs.Text.Chars
namespace TableLexer

namespace Path

theorem splitSegments_ne_nil (cs : List Char) : splitSegments cs ≠ [] := by
  cases cs with
  | nil => simp [splitSegments]
  | cons c rest =>
    rw [splitSegments]
    split
    · simp
    · split <;> simp

theorem splitSegments_append_slash (xs ys : List Char) :
    splitSegments (xs ++ '/' :: ys) = splitSegments xs ++ splitSegments ys := by
  induction xs with
  | nil => rfl
  | cons c xs ih =>
    rw [List.cons_append, splitSegments, splitSegments, ih]
    split
    · rfl
    · obtain ⟨s, more, hs⟩ := List.exists_cons_of_ne_nil (splitSegments_ne_nil xs)
      rw [hs]
      rfl

theorem splitSegments_of_not_mem {cs : List Char} (h : '/' ∉ cs) : splitSegments cs = [cs] := by
  induction cs with
  | nil => rfl
  | cons c cs ih =>
    obtain ⟨hc, hcs⟩ := List.ne_and_not_mem_of_not_mem_cons h
    rw [splitSegments, if_neg (Ne.symm hc), ih hcs]

theorem segments_append_slash (directory name : String) :
    segments (directory ++ "/" ++ name) = segments directory ++ segments name := by
  have hlist : (directory ++ "/" ++ name).toList = directory.toList ++ '/' :: name.toList := by
    simp
  rw [segments, hlist, splitSegments_append_slash, List.map_append]
  rfl

theorem segments_of_not_mem {name : String} (h : '/' ∉ name.toList) : segments name = [name] := by
  rw [segments, splitSegments_of_not_mem h]
  simp

/-- What stands in front of a name that is joined to a directory does not depend on the name. -/
theorem exists_segments_join (directory : String) :
    ∃ front, ∀ name : String, '/' ∉ name.toList →
      segments (join directory name) = front ++ [name] := by
  rcases directory.toList.eq_nil_or_concat with hnil | ⟨before, c, hlast⟩
  · refine ⟨[], fun name h => ?_⟩
    rw [join, hnil]
    exact segments_of_not_mem h
  · rw [List.concat_eq_append] at hlast
    have hget : directory.toList.getLast? = some c := by rw [hlast, List.getLast?_concat]
    by_cases hc : c = '/'
    · have hdirectory : directory = String.ofList before ++ "/" := by
        apply String.toList_inj.mp
        rw [hlast, hc]
        simp
      refine ⟨segments (String.ofList before), fun name h => ?_⟩
      simp only [join, hget, if_pos hc]
      rw [hdirectory, segments_append_slash, segments_of_not_mem h]
    · refine ⟨segments directory, fun name h => ?_⟩
      simp only [join, hget, if_neg hc]
      rw [segments_append_slash, segments_of_not_mem h]

theorem slash_not_mem_splitSegments (cs : List Char) : ∀ s ∈ splitSegments cs, '/' ∉ s := by
  induction cs with
  | nil => simp [splitSegments]
  | cons c cs ih =>
    obtain ⟨first, more, hcs⟩ := List.exists_cons_of_ne_nil (splitSegments_ne_nil cs)
    rw [hcs] at ih
    obtain ⟨hfirst, hmore⟩ := List.forall_mem_cons.mp ih
    rw [splitSegments, hcs]
    split
    · exact List.forall_mem_cons.mpr ⟨by simp, ih⟩
    · next hc => exact List.forall_mem_cons.mpr ⟨by simp [Ne.symm hc, hfirst], hmore⟩

theorem slash_not_mem_of_fileName? {path name : String} (h : fileName? path = some name) :
    '/' ∉ name.toList := by
  have hbody : name ∈ body path := List.mem_of_getLast? (Option.filter_eq_some_iff.mp h).1
  have hkept := (List.dropWhile_sublist _).subset (List.mem_reverse.mp hbody)
  have hsegment := List.mem_reverse.mp hkept
  obtain ⟨cs, hcs, rfl⟩ := List.mem_map.mp hsegment
  rw [String.toList_ofList]
  exact slash_not_mem_splitSegments _ cs hcs

theorem subset_stemOf (name : String) : ∀ c ∈ (stemOf name).toList, c ∈ name.toList := by
  intro c hc
  unfold stemOf at hc
  split at hc
  · next d e before hdrop =>
    rw [String.toList_ofList, List.mem_reverse] at hc
    have hmem : c ∈ name.toList.reverse.dropWhile fun c => c != '.' := by
      rw [hdrop]
      exact List.mem_cons_of_mem d hc
    exact List.mem_reverse.mp ((List.dropWhile_sublist _).subset hmem)
  · exact hc

theorem slash_not_mem_of_fileStem? {path stem : String} (h : fileStem? path = some stem) :
    '/' ∉ stem.toList := by
  obtain ⟨name, hname, rfl⟩ := Option.map_eq_some_iff.mp h
  exact fun hmem => slash_not_mem_of_fileName? hname (subset_stemOf name _ hmem)

end Path

namespace FileTree

variable {t : FileTree} {l location : Location} {path : String} {content : ByteArray}

theorem ne_nil_of_get? (h : t.get? l ≠ some .directory) : l ≠ [] := by
  rintro rfl
  exact h rfl

theorem lookup_filter_ne {nodes : List (Location × FileNode)} (h : l ≠ location) :
    (nodes.filter fun entry => entry.1 != location).lookup l = nodes.lookup l := by
  induction nodes with
  | nil => rfl
  | cons entry nodes ih =>
    obtain ⟨m, node⟩ := entry
    by_cases hm : m = location
    · subst hm
      have hne : (l == m) = false := beq_eq_false_iff_ne.mpr h
      rw [List.filter_cons_of_neg (by simp), ih, List.lookup_cons, hne]
    · rw [List.filter_cons_of_pos (by simpa using hm), List.lookup_cons, List.lookup_cons, ih]

theorem get?_put (h : location ≠ []) (node : FileNode) (l : Location) :
    (t.put location node).get? l = if l = location then some node else t.get? l := by
  unfold get? put
  by_cases hl : l = location
  · subst hl
    rw [if_pos rfl, if_neg (by simpa using h), List.lookup_cons_self]
  · have hne : (l == location) = false := beq_eq_false_iff_ne.mpr hl
    rw [if_neg hl, List.lookup_cons, hne, lookup_filter_ne hl]

theorem put_put (t : FileTree) (location : Location) (first second : FileNode) :
    (t.put location first).put location second = t.put location second := by
  simp [put, List.filter_filter]

theorem walk_append (t : FileTree) (l : Location) (xs ys : List String) :
    t.walk l (xs ++ ys) = (t.walk l xs).bind fun m => t.walk m ys := by
  induction xs generalizing l with
  | nil => rfl
  | cons s xs ih =>
    rw [List.cons_append, walk, walk]
    split
    · rfl
    · rfl
    · split
      · exact ih l
      · split
        · exact ih _
        · exact ih _

/-- Where a segment leads from a directory. -/
def follow (l : Location) (s : String) : Location :=
  if Path.isVoid s then l else if s = ".." then l.dropLast else l ++ [s]

theorem walk_cons_eq_ok_iff {s : String} {xs : List String} {m : Location} :
    t.walk l (s :: xs) = .ok m ↔ t.get? l = some .directory ∧ t.walk (follow l s) xs = .ok m := by
  rw [walk, follow]
  split
  · next hget => simp [hget]
  · next hget => simp [hget]
  · next hget =>
    rw [hget]
    split
    · simp
    · split <;> simp

/-- A walk passes through directories only, so it notices no change that keeps them. -/
theorem walk_mono {u : FileTree} (h : ∀ l, t.get? l = some .directory → u.get? l = some .directory)
    {xs : List String} {m : Location} (hw : t.walk l xs = .ok m) : u.walk l xs = .ok m := by
  induction xs generalizing l with
  | nil => exact hw
  | cons s xs ih =>
    obtain ⟨hl, hrest⟩ := walk_cons_eq_ok_iff.mp hw
    exact walk_cons_eq_ok_iff.mpr ⟨h l hl, ih hrest⟩

theorem get?_put_directory_iff (h : t.get? location ≠ some .directory) :
    (t.put location (.file content)).get? l = some .directory ↔ t.get? l = some .directory := by
  rw [get?_put (ne_nil_of_get? h)]
  split
  · next hl =>
    subst hl
    simp [h]
  · rfl

theorem walk_put (h : t.get? location ≠ some .directory) {xs : List String} {m : Location}
    (hw : t.walk l xs = .ok m) : (t.put location (.file content)).walk l xs = .ok m :=
  walk_mono (fun _ => (get?_put_directory_iff h).mpr) hw

theorem walk_concat {front : List String} {directory : Location} {name : String}
    (h : t.walk l (front ++ [""]) = .ok directory) (hvoid : Path.isVoid name = false)
    (hup : name ≠ "..") : t.walk l (front ++ [name]) = .ok (directory ++ [name]) := by
  rw [walk_append] at h ⊢
  cases hfront : t.walk l front with
  | error e =>
    rw [hfront] at h
    cases h
  | ok m =>
    rw [hfront] at h
    simp only [Except.bind, walk] at h ⊢
    split at h
    · cases h
    · cases h
    · next hm =>
      obtain rfl : m = directory := Except.ok.inj h
      simp [hvoid, hup]

/-- The path ends in the name of an entry that a directory has, or could take. -/
def Names (t : FileTree) (path : String) (location : Location) : Prop :=
  ∃ front name directory, Path.segments path = front ++ [name] ∧
    t.walk [] (front ++ [""]) = .ok directory ∧ Path.isVoid name = false ∧ name ≠ ".." ∧
    location = directory ++ [name]

namespace Names

theorem path_ne (h : t.Names path location) : path ≠ "" := by
  obtain ⟨front, name, _, hsegments, _, hvoid, _⟩ := h
  rintro rfl
  have hempty : [] ++ [""] = front ++ [name] := hsegments
  obtain ⟨_, hname⟩ := List.append_inj' hempty rfl
  rw [← (List.cons.inj hname).1] at hvoid
  cases hvoid

theorem unique (h : t.Names path location) (hl : t.Names path l) : location = l := by
  obtain ⟨front, name, directory, hsegments, hwalk, _, _, rfl⟩ := h
  obtain ⟨front', name', directory', hsegments', hwalk', _, _, rfl⟩ := hl
  obtain ⟨rfl, hname⟩ := List.append_inj' (hsegments.symm.trans hsegments') rfl
  rw [Except.ok.inj (hwalk.symm.trans hwalk'), hname]

theorem exists_place (h : t.Names path location) :
    ∃ p, t.place path = .ok p ∧ p.isNew ∧ p.bare ∧ p.location = location := by
  have hne := h.path_ne
  obtain ⟨front, name, directory, hsegments, hwalk, hvoid, hup, rfl⟩ := h
  have hname : name ≠ "" := by
    rintro rfl
    cases hvoid
  have hcore : ((front ++ [name]).reverse.dropWhile fun s => s = "").reverse =
      front ++ [name] := by
    rw [List.reverse_concat, List.dropWhile_cons_of_neg (by simpa using hname),
      ← List.reverse_concat, List.reverse_reverse]
  refine ⟨⟨directory, name, true⟩, ?_, ?_, rfl, rfl⟩
  · rw [place, if_neg hne]
    simp only [hsegments, hcore, List.dropLast_concat, hwalk]
    simp [bind, Except.bind, pure, Except.pure]
  · simp [Place.isNew, hvoid, hup]

theorem write_eq (h : t.Names path location) (hl : t.get? location ≠ some .directory)
    (content : ByteArray) : t.write path content = .ok (t.put location (.file content)) := by
  obtain ⟨p, hplace, hnew, hbare, rfl⟩ := h.exists_place
  rw [write, hplace]
  change (if !p.isNew || !p.bare then _ else _) = _
  rw [if_neg (by simp [hnew, hbare])]
  split
  · next hdirectory => exact absurd hdirectory hl
  · rfl

theorem read_eq (h : t.Names path location) : t.read path =
    match t.get? location with
    | none => .error .notFound
    | some .directory => .error .isDirectory
    | some (.file content) => .ok content := by
  have hne := h.path_ne
  obtain ⟨front, name, directory, hsegments, hwalk, hvoid, hup, rfl⟩ := h
  rw [read, if_neg hne, hsegments, walk_concat hwalk hvoid hup]
  rcases hget : t.get? (directory ++ [name]) with _ | _ | _ <;>
    simp only [bind, Except.bind, hget] <;> rfl

theorem put {m : Location} (h : t.Names path location) (hm : t.get? m ≠ some .directory)
    (content : ByteArray) : (t.put m (.file content)).Names path location := by
  obtain ⟨front, name, directory, hsegments, hwalk, hname⟩ := h
  exact ⟨front, name, directory, hsegments, walk_put hm hwalk, hname⟩

theorem exists_of_join {directory name : String} (h : t.Names (Path.join directory name) location)
    (hname : '/' ∉ name.toList) :
    ∃ m, ∀ name : String, '/' ∉ name.toList → Path.isVoid name = false → name ≠ ".." →
      t.Names (Path.join directory name) (m ++ [name]) := by
  obtain ⟨front, hjoin⟩ := Path.exists_segments_join directory
  obtain ⟨front', _, m, hsegments, hwalk, _⟩ := h
  obtain ⟨rfl, _⟩ := List.append_inj' ((hjoin name hname).symm.trans hsegments) rfl
  refine ⟨m, fun name hslash hvoid hup => ?_⟩
  exact ⟨front, name, m, hjoin name hslash, hwalk, hvoid, hup, rfl⟩

end Names

theorem names_of_place {p : Place} (h : t.place path = .ok p) (hnew : p.isNew) (hbare : p.bare) :
    t.Names path p.location := by
  rw [place] at h
  split at h
  · cases h
  · let core := ((Path.segments path).reverse.dropWhile fun s => s = "").reverse
    cases hwalk : t.walk [] (core.dropLast ++ [""]) with
    | error e =>
      simp only [bind, Except.bind, pure, core] at h hwalk
      rw [hwalk] at h
      cases h
    | ok directory =>
      have hp : p = ⟨directory, core.getLastD "", Path.segments path = core⟩ := by
        simp only [bind, Except.bind, pure, core] at h hwalk
        rw [hwalk] at h
        exact (Except.ok.inj h).symm
      subst hp
      have hsegments : Path.segments path = core := of_decide_eq_true hbare
      obtain ⟨hvoid, hup⟩ : Path.isVoid (core.getLastD "") = false ∧ core.getLastD "" ≠ ".." := by
        simpa [Place.isNew] using hnew
      refine ⟨core.dropLast, core.getLastD "", directory, ?_, hwalk, hvoid, hup, rfl⟩
      rcases core.eq_nil_or_concat with hnil | ⟨front, name, hcore⟩
      · rw [hnil] at hvoid
        cases hvoid
      · rw [hsegments, hcore]
        simp

/-- Any content can be written to the path. -/
def Writable (t : FileTree) (path : String) : Prop :=
  ∀ content, ∃ next, t.write path content = .ok next

/-- The path names a location that a file can be put at. -/
structure Takes (t : FileTree) (path : String) (location : Location) : Prop where
  names : t.Names path location
  free : t.get? location ≠ some .directory

/-- A file is written at the location that its path names. -/
theorem exists_takes_of_write {u : FileTree} (h : t.write path content = .ok u) :
    ∃ location, t.Takes path location ∧ u = t.put location (.file content) := by
  rw [write] at h
  cases hplace : t.place path with
  | error e =>
    rw [hplace] at h
    cases h
  | ok p =>
    rw [hplace] at h
    change (if !p.isNew || !p.bare then _ else _) = _ at h
    split at h
    · cases h
    · next hp =>
      obtain ⟨hnew, hbare⟩ : p.isNew = true ∧ p.bare = true := by simpa using hp
      have hnames := names_of_place hplace hnew hbare
      split at h
      · cases h
      · next hfree => exact ⟨p.location, ⟨hnames, hfree⟩, (Except.ok.inj h).symm⟩

theorem Writable.exists_takes (h : t.Writable path) : ∃ location, t.Takes path location := by
  obtain ⟨_, h⟩ := h .empty
  obtain ⟨location, htakes, _⟩ := exists_takes_of_write h
  exact ⟨location, htakes⟩

theorem get?_put_ne_directory (hl : t.get? location ≠ some .directory)
    (h : t.get? l ≠ some .directory) :
    (t.put location (.file content)).get? l ≠ some .directory :=
  mt (get?_put_directory_iff hl).mp h

theorem Takes.put (h : t.Takes path location) (hl : t.get? l ≠ some .directory)
    (content : ByteArray) : (t.put l (.file content)).Takes path location :=
  ⟨h.names.put hl content, get?_put_ne_directory hl h.free⟩

theorem read_of_get? (h : t.Names path location) (hl : t.get? location = some (.file content)) :
    t.read path = .ok content := by
  rw [h.read_eq, hl]

theorem readText_of_get? {text : String} (h : t.Names path location)
    (hl : t.get? location = some (.file text.toUTF8)) : t.readText path = .ok text := by
  rw [readText, read_of_get? h hl]
  simp only [ReadError.textOf, Text.fromUTF8?_toUTF8]

theorem Takes.append_eq (h : t.Takes path location) (text more : String) :
    (t.put location (.file text.toUTF8)).append path more.toUTF8 =
      .ok (t.put location (.file (text ++ more).toUTF8)) := by
  have hnames := h.names.put h.free text.toUTF8
  have hget : (t.put location (.file text.toUTF8)).get? location = some (.file text.toUTF8) := by
    rw [get?_put (ne_nil_of_get? h.free), if_pos rfl]
  have hcontent : text.toUTF8 ++ more.toUTF8 = (text ++ more).toUTF8 :=
    String.toByteArray_append.symm
  rw [append, read_of_get? hnames hget]
  change FileTree.write _ _ _ = _
  rw [hnames.write_eq (get?_put_ne_directory h.free h.free), hcontent, put_put]

theorem names_of_root {name : String} (hslash : '/' ∉ name.toList)
    (hvoid : Path.isVoid name = false) (hup : name ≠ "..") : t.Names name [name] :=
  ⟨[], name, [], Path.segments_of_not_mem hslash, rfl, hvoid, hup, rfl⟩

theorem get?_single_ne_directory (h : l ≠ []) :
    (⟨[(location, .file content)]⟩ : FileTree).get? l ≠ some .directory := by
  rw [get?, if_neg (by simpa using h), List.lookup_cons]
  split <;> simp

/-- Files that are written one after the other. -/
def putTexts (t : FileTree) (files : List (Location × String)) : FileTree :=
  files.foldl (fun t f => t.put f.1 (.file f.2.toUTF8)) t

section PutTexts

variable {files : List (Location × String)}

theorem putTexts_cons (t : FileTree) (f : Location × String) (files : List (Location × String)) :
    t.putTexts (f :: files) = (t.put f.1 (.file f.2.toUTF8)).putTexts files := rfl

variable (hfiles : ∀ f ∈ files, t.get? f.1 ≠ some .directory)
include hfiles

theorem Names.putTexts (h : t.Names path location) : (t.putTexts files).Names path location := by
  induction files generalizing t with
  | nil => exact h
  | cons f files ih =>
    obtain ⟨hf, hrest⟩ := List.forall_mem_cons.mp hfiles
    exact ih (fun g hg => get?_put_ne_directory hf (hrest g hg)) (h.put hf _)

theorem get?_putTexts_of_not_mem (h : l ∉ files.map Prod.fst) :
    (t.putTexts files).get? l = t.get? l := by
  induction files generalizing t with
  | nil => rfl
  | cons f files ih =>
    obtain ⟨hf, hrest⟩ := List.forall_mem_cons.mp hfiles
    obtain ⟨hl, hnot⟩ := List.ne_and_not_mem_of_not_mem_cons h
    rw [putTexts_cons, ih (fun g hg => get?_put_ne_directory hf (hrest g hg)) hnot,
      get?_put (ne_nil_of_get? hf), if_neg hl]

theorem get?_putTexts_of_mem (hdistinct : (files.map Prod.fst).Nodup) {text : String}
    (h : (l, text) ∈ files) : (t.putTexts files).get? l = some (.file text.toUTF8) := by
  induction files generalizing t with
  | nil => cases h
  | cons f files ih =>
    obtain ⟨hf, hrest⟩ := List.forall_mem_cons.mp hfiles
    obtain ⟨hnot, hdistinct⟩ := List.nodup_cons.mp hdistinct
    have hlater : ∀ g ∈ files, (t.put f.1 (.file f.2.toUTF8)).get? g.1 ≠ some .directory :=
      fun g hg => get?_put_ne_directory hf (hrest g hg)
    rcases List.mem_cons.mp h with rfl | h
    · rw [putTexts_cons, get?_putTexts_of_not_mem hlater hnot, get?_put (ne_nil_of_get? hf),
        if_pos rfl]
    · exact ih hlater hdistinct h

end PutTexts

end FileTree

end TableLexer
