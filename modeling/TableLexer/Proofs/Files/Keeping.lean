import TableLexer.Proofs.Files.Writing
namespace TableLexer

namespace Path

theorem getLast?_segments_drop {path : String} (h : path ≠ ".") :
    (segments (String.ofList (path.toList.drop (head path).length))).getLast? =
      (segments path).getLast? := by
  have hcons (s : List Char) (cs : List Char) :
      (s :: splitSegments cs).getLast? = (splitSegments cs).getLast? := by
    obtain ⟨first, more, hcs⟩ := List.exists_cons_of_ne_nil (splitSegments_ne_nil cs)
    rw [hcs, List.getLast?_cons_cons]
  rw [segments, segments, String.toList_ofList, List.getLast?_map, List.getLast?_map, head]
  split
  · next rest hpath =>
    have hsplit : splitSegments ('/' :: rest) = [] :: splitSegments rest := rfl
    rw [hpath, hsplit, hcons]
    rfl
  · next hpath => exact absurd (String.toList_inj.mp hpath) h
  · next rest hpath =>
    have hsplit : splitSegments ('.' :: '/' :: rest) = ['.'] :: splitSegments rest := rfl
    have hdrop : splitSegments ('/' :: rest) = [] :: splitSegments rest := rfl
    rw [hpath, hsplit, hcons]
    exact congrArg _ (hdrop ▸ hcons [] rest)
  · rfl

theorem fileName?_of_segments {path name : String} {front : List String}
    (h : segments path = front ++ [name]) (hvoid : isVoid name = false) (hup : name ≠ "..") :
    fileName? path = some name := by
  have hpath : path ≠ "." := by
    rintro rfl
    have hdot : [] ++ ["."] = front ++ [name] := h
    obtain ⟨_, hname⟩ := List.append_inj' hdot rfl
    rw [← (List.cons.inj hname).1] at hvoid
    cases hvoid
  have hlast := getLast?_segments_drop hpath
  rw [h, List.getLast?_concat] at hlast
  obtain ⟨before, hbefore⟩ := List.getLast?_eq_some_iff.mp hlast
  have hbody : body path = before ++ [name] := by
    rw [body, hbefore, trimVoid, List.reverse_concat,
      List.dropWhile_cons_of_neg (by simp [hvoid]), ← List.reverse_concat, List.reverse_reverse]
  rw [fileName?, hbody, List.getLast?_concat]
  simp [hup]

theorem fileName?_join {directory name : String} (hslash : '/' ∉ name.toList)
    (hvoid : isVoid name = false) (hup : name ≠ "..") :
    fileName? (join directory name) = some name := by
  obtain ⟨front, hfront⟩ := exists_segments_join directory
  exact fileName?_of_segments (hfront name hslash) hvoid hup

theorem extensionOf?_eq_some {name extension : String} (h : name = stemOf name ++ "." ++ extension)
    (hdot : '.' ∉ extension.toList) : extensionOf? name = some extension := by
  have hreverse : name.toList.reverse =
      extension.toList.reverse ++ '.' :: (stemOf name).toList.reverse := by
    have htext := congrArg (fun s => s.toList.reverse) h
    simpa using htext
  have hclean : ∀ c ∈ extension.toList.reverse, (c != '.') = true := by
    intro c hc
    rw [bne_iff_ne]
    rintro rfl
    exact hdot (List.mem_reverse.mp hc)
  have hdrop : (name.toList.reverse.dropWhile fun c => c != '.') =
      '.' :: (stemOf name).toList.reverse := by
    rw [hreverse, List.dropWhile_append_of_pos hclean]
    rfl
  have htake : (name.toList.reverse.takeWhile fun c => c != '.') = extension.toList.reverse := by
    rw [hreverse, List.takeWhile_append_of_pos hclean]
    simp
  -- a name that only begins with a dot is its own stem, with nothing behind it
  obtain ⟨c, before, hstem⟩ : ∃ c before, (stemOf name).toList.reverse = c :: before := by
    cases hstem : (stemOf name).toList.reverse with
    | cons c before => exact ⟨c, before, rfl⟩
    | nil =>
      rw [hstem] at hdrop
      have hself : stemOf name = name := by
        unfold stemOf
        rw [hdrop]
      rw [hself, List.reverse_eq_nil_iff] at hstem
      rw [hstem] at hreverse
      simp at hreverse
  rw [hstem] at hdrop
  unfold extensionOf?
  rw [hdrop, htake]
  simp

end Path

namespace FileTree

variable {t u v : FileTree} {l m location : Location} {path other : String}
  {content : ByteArray}

/-- Where a path leads, whether or not something is there. -/
def Leads (t : FileTree) (path : String) (l : Location) : Prop :=
  t.walk [] (Path.segments path) = .ok l

/-- Two spellings of one location. -/
def SameFile (t : FileTree) (path other : String) : Prop := ∃ l, t.Leads path l ∧ t.Leads other l

theorem Names.leads (h : t.Names path l) : t.Leads path l := by
  obtain ⟨front, name, directory, hsegments, hwalk, hvoid, hup, rfl⟩ := h
  rw [Leads, hsegments]
  exact walk_concat hwalk hvoid hup

theorem Leads.unique (h : t.Leads path l) (hm : t.Leads path m) : l = m :=
  Except.ok.inj (h.symm.trans hm)

/-- The empty path leads to the root, which is no file. -/
theorem read_eq_ok_iff :
    t.read path = .ok content ↔ ∃ l, t.Leads path l ∧ t.get? l = some (.file content) := by
  by_cases hpath : path = ""
  · subst hpath
    have hroot : t.Leads "" [] := rfl
    constructor
    · exact nofun
    · rintro ⟨l, hl, hfile⟩
      rw [hl.unique hroot] at hfile
      cases hfile
  · rw [read, if_neg hpath]
    unfold Leads
    cases t.walk [] (Path.segments path) with
    | error e => simp [bind, Except.bind]
    | ok l =>
      simp only [bind, Except.bind, pure, Except.pure]
      rcases hget : t.get? l with _ | _ | _ <;> simp [hget]

theorem SameFile.symm (h : t.SameFile path other) : t.SameFile other path := by
  obtain ⟨l, hpath, hother⟩ := h
  exact ⟨l, hother, hpath⟩

theorem SameFile.read_eq (h : t.SameFile path other) (hread : t.read path = .ok content) :
    t.read other = .ok content := by
  obtain ⟨l, hl, hfile⟩ := read_eq_ok_iff.mp hread
  obtain ⟨m, hm, hother⟩ := h
  rw [hl.unique hm] at hfile
  exact read_eq_ok_iff.mpr ⟨m, hother, hfile⟩

/-- All that a location lies in is a directory. -/
def Rooted (t : FileTree) (l : Location) : Prop :=
  ∀ m, m <+: l → m ≠ l → t.get? m = some .directory

theorem Rooted.get?_above (h : t.Rooted l) (hl : t.get? l = some .directory) (hm : m <+: l) :
    t.get? m = some .directory := by
  by_cases he : m = l
  · rw [he, hl]
  · exact h m hm he

theorem Rooted.follow (h : t.Rooted l) (hl : t.get? l = some .directory) (s : String) :
    t.Rooted (follow l s) := by
  unfold FileTree.follow
  split
  · exact h
  · split
    · exact fun m hm _ => h.get?_above hl (hm.trans (List.dropLast_prefix l))
    · exact fun m hm hne => h.get?_above hl ((List.prefix_concat_iff.mp hm).resolve_left hne)

theorem Rooted.walk (h : t.Rooted l) {xs : List String} (hw : t.walk l xs = .ok m) :
    t.Rooted m := by
  induction xs generalizing l with
  | nil => rwa [← Except.ok.inj hw]
  | cons s xs ih =>
    obtain ⟨hl, hrest⟩ := walk_cons_eq_ok_iff.mp hw
    exact ih (h.follow hl s) hrest

/-- Only a path that ends in a name leads to a file. -/
theorem Leads.names (h : t.Leads path l) (hl : t.get? l ≠ some .directory) : t.Names path l := by
  have hroot : t.Rooted [] := fun m hm hne => absurd (List.prefix_nil.mp hm) hne
  obtain hnil | ⟨front, s, hsegments⟩ := (Path.segments path).eq_nil_or_concat
  · rw [Leads, hnil] at h
    rw [← Except.ok.inj h] at hl
    exact absurd rfl hl
  rw [List.concat_eq_append] at hsegments
  rw [Leads, hsegments, walk_append] at h
  cases hfront : t.walk [] front with
  | error e =>
    rw [hfront] at h
    cases h
  | ok m =>
    rw [hfront] at h
    obtain ⟨hm, hlast⟩ := walk_cons_eq_ok_iff.mp h
    have hfollow : follow m s = l := Except.ok.inj hlast
    -- a void segment and a way up end at directories, as a walk passes through nothing else
    unfold follow at hfollow
    split at hfollow
    · exact absurd (hfollow ▸ hm) hl
    · next hvoid =>
      split at hfollow
      · rw [← hfollow] at hl
        exact absurd ((hroot.walk hfront).get?_above hm (List.dropLast_prefix m)) hl
      · next hup =>
        refine ⟨front, s, m, hsegments, ?_, by simpa using hvoid, hup, hfollow.symm⟩
        rw [walk_append, hfront]
        exact walk_cons_eq_ok_iff.mpr ⟨hm, rfl⟩

theorem Names.fileName? (h : t.Names path l) : Path.fileName? path = l.getLast? := by
  obtain ⟨front, name, directory, hsegments, _, hvoid, hup, rfl⟩ := h
  rw [Path.fileName?_of_segments hsegments hvoid hup, List.getLast?_concat]

theorem SameFile.fileName? (h : t.SameFile path other) (hread : t.read path = .ok content) :
    Path.fileName? path = Path.fileName? other := by
  obtain ⟨l, hl, hfile⟩ := read_eq_ok_iff.mp hread
  obtain ⟨m, hm, hother⟩ := h
  obtain rfl := hl.unique hm
  have hfree : t.get? l ≠ some .directory := by simp [hfile]
  rw [(hl.names hfree).fileName?, (hother.names hfree).fileName?]

section Within

/-- What is there in one tree is also there in the other. -/
def Within (t u : FileTree) : Prop := ∀ l node, t.get? l = some node → u.get? l = some node

theorem Within.refl (t : FileTree) : t.Within t := fun _ _ => id

theorem Within.trans (h : t.Within u) (h' : u.Within v) : t.Within v :=
  fun l node hl => h' l node (h l node hl)

theorem Within.leads (h : t.Within u) (hl : t.Leads path l) : u.Leads path l :=
  walk_mono (fun l => h l .directory) hl

theorem Within.read (h : t.Within u) (hread : t.read path = .ok content) :
    u.read path = .ok content := by
  obtain ⟨l, hl, hfile⟩ := read_eq_ok_iff.mp hread
  exact read_eq_ok_iff.mpr ⟨l, h.leads hl, h l _ hfile⟩

theorem within_makeDirectory (h : t.makeDirectory path = .ok u) : t.Within u := by
  rw [makeDirectory] at h
  cases hplace : t.place path with
  | error e =>
    rw [hplace] at h
    cases h
  | ok p =>
    rw [hplace] at h
    change (if !p.isNew || (t.get? p.location).isSome then _ else _) = _ at h
    split at h
    · cases h
    · next hp =>
      obtain ⟨_, hnone⟩ : p.isNew = true ∧ t.get? p.location = none := by simpa using hp
      have hfree : t.get? p.location ≠ some .directory := by simp [hnone]
      obtain rfl := Except.ok.inj h
      intro l node hl
      have hne : l ≠ p.location := by
        rintro rfl
        rw [hnone] at hl
        cases hl
      rw [get?_put (ne_nil_of_get? hfree), if_neg hne, hl]

theorem within_unlessDirectory (t : FileTree) (path : String) (e : OsError) :
    t.Within (t.unlessDirectory path e).1 := by
  unfold unlessDirectory
  split <;> exact .refl t

theorem within_makeUpwards (t : FileTree) (paths : List String) :
    t.Within (t.makeUpwards paths).1 := by
  induction paths generalizing t with
  | nil => exact .refl t
  | cons path above ih =>
    rw [makeUpwards]
    split
    · next hmade => exact within_makeDirectory hmade
    · have habove := ih t
      -- what was made above stays, whatever comes of the second attempt
      split
      · next heq => rwa [heq] at habove
      · next u heq =>
        rw [heq] at habove
        split
        · next hmade => exact habove.trans (within_makeDirectory hmade)
        · exact habove.trans (within_unlessDirectory u path _)
    · exact within_unlessDirectory t path _

theorem within_makeDirectories (t : FileTree) (path : String) :
    t.Within (t.makeDirectories path).1 := within_makeUpwards t _

end Within

section WrittenAt

variable {written : String → Prop}

/-- Where these paths lead there may be other files. All else is as it was. -/
structure WrittenAt (written : String → Prop) (t u : FileTree) : Prop where
  directories : ∀ l, u.get? l = some .directory ↔ t.get? l = some .directory
  others : ∀ l, (∀ path, written path → ¬ t.Leads path l) → u.get? l = t.get? l

namespace WrittenAt

theorem refl (written : String → Prop) (t : FileTree) : WrittenAt written t t :=
  ⟨fun _ => Iff.rfl, fun _ _ => rfl⟩

theorem leads_iff (h : WrittenAt written t u) : u.Leads path l ↔ t.Leads path l :=
  ⟨walk_mono fun l => (h.directories l).mp, walk_mono fun l => (h.directories l).mpr⟩

theorem sameFile_iff (h : WrittenAt written t u) : u.SameFile path other ↔ t.SameFile path other :=
  exists_congr fun _ => and_congr h.leads_iff h.leads_iff

theorem trans (h : WrittenAt written t u) (h' : WrittenAt written u v) :
    WrittenAt written t v where
  directories l := (h'.directories l).trans (h.directories l)
  others l hl := by
    rw [h'.others l fun path hpath => mt h.leads_iff.mp (hl path hpath), h.others l hl]

theorem read (h : WrittenAt written t u) (hapart : ∀ p, written p → ¬ t.SameFile p path)
    (hread : t.read path = .ok content) : u.read path = .ok content := by
  obtain ⟨l, hl, hfile⟩ := read_eq_ok_iff.mp hread
  refine read_eq_ok_iff.mpr ⟨l, h.leads_iff.mpr hl, ?_⟩
  rw [h.others l fun p hp hpl => hapart p hp ⟨l, hpl, hl⟩, hfile]

end WrittenAt

theorem writtenAt_of_write (hpath : written path) (h : t.write path content = .ok u) :
    WrittenAt written t u := by
  obtain ⟨location, htakes, rfl⟩ := exists_takes_of_write h
  refine ⟨fun l => get?_put_directory_iff htakes.free, fun l hl => ?_⟩
  have hne : l ≠ location := by
    rintro rfl
    exact hl path hpath htakes.names.leads
  rw [get?_put (ne_nil_of_get? htakes.free), if_neg hne]

theorem writtenAt_of_append (hpath : written path) (h : t.append path content = .ok u) :
    WrittenAt written t u := by
  rw [append] at h
  cases hread : t.read path with
  | error e =>
    rw [hread] at h
    cases h
  | ok before =>
    rw [hread] at h
    exact writtenAt_of_write hpath h

end WrittenAt

end FileTree

end TableLexer
