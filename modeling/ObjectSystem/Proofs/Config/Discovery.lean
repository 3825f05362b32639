import Mathlib.Data.List.Infix
import ObjectSystem.Config.Discovery
import ObjectSystem.Proofs.Steps

/-! # Settings are taken from the nearest file that can be read

A path is read as its parts: the names in it that are neither empty nor a dot, and a dot at its
start.  The directory above a path is the text before its last part, and a search climbs from
directory to directory until no part is left (`FileTree.climb_upward`), be the path absolute or not.
On the way it stops at the first file that is there and can be read, and tells of those that are
there and cannot (`Settings.discover_nearest`). -/

namespace ObjectSystem

namespace FileTree

/-! ### Paths as names -/

theorem names_eq (path : String) : names path = (path.toList.splitOn '/').map String.ofList :=
  String.toList_split_char

theorem names_intercalate {ns : List String} (hns : ns ≠ []) (h : ∀ n ∈ ns, '/' ∉ n.toList) :
    names ("/".intercalate ns) = ns := by
  have hsplit := String.toList_split_intercalate h
  rw [if_neg hns] at hsplit
  exact hsplit

theorem intercalate_names (path : String) : "/".intercalate (names path) = path := by
  apply String.toList_injective
  have hid : String.toList ∘ String.ofList = id := funext fun _ => String.toList_ofList
  rw [String.toList_intercalate, names_eq, List.map_map, hid, List.map_id]
  exact List.intercalate_splitOn '/'

theorem slash_not_mem_splitOn (l : List Char) : ∀ n ∈ l.splitOn '/', '/' ∉ n := by
  induction l with
  | nil => simp
  | cons c l ih =>
    rw [List.splitOn_cons_eq_if_modifyHead]
    by_cases hc : c = '/'
    · simpa [hc] using ih
    · rcases hl : l.splitOn '/' with _ | ⟨first, rest⟩
      · simp [hc]
      · rw [hl] at ih
        simpa [hc, Ne.symm hc] using ih

theorem slash_not_mem {path n : String} (hn : n ∈ names path) : '/' ∉ n.toList := by
  rw [names_eq] at hn
  obtain ⟨l, hl, rfl⟩ := List.mem_map.1 hn
  rw [String.toList_ofList]
  exact slash_not_mem_splitOn _ l hl

theorem names_append_slash (a b : String) : names (a ++ "/" ++ b) = names a ++ names b := by
  have hlist : (a ++ "/" ++ b).toList = a.toList ++ '/' :: b.toList := by simp
  rw [names_eq, hlist, List.splitOn_append_cons_self, List.map_append, ← names_eq, ← names_eq]

@[simp] theorem names_empty : names "" = [""] := by
  simp [names_eq]

/-! ### Parts

The parts of a path are the names in it that name a directory of their own or the end: those that are
neither empty nor a dot, and a dot at the start. -/

/-- The parts among names, both given last one first. -/
def partsOf : List String → List String
  | [] => []
  | n :: ns => if isPart ns n then n :: partsOf ns else partsOf ns

/-- The parts of a path. -/
def parts (path : String) : List String := (partsOf (names path).reverse).reverse

theorem partsOf_trimmed (ns : List String) : partsOf (trimmed ns) = partsOf ns := by
  induction ns with
  | nil => rfl
  | cons n ns ih =>
    rw [trimmed, partsOf]
    split
    · rename_i hpart
      rw [partsOf, if_pos hpart]
    · exact ih

theorem trimmed_suffix (ns : List String) : trimmed ns <:+ ns := by
  induction ns with
  | nil => exact List.suffix_rfl
  | cons n ns ih =>
    rw [trimmed]
    split
    · exact List.suffix_rfl
    · exact ih.trans (List.suffix_cons n ns)

theorem isPart_of_trimmed {ns rest : List String} {n : String} (h : trimmed ns = n :: rest) :
    isPart rest n = true := by
  induction ns with
  | nil => cases h
  | cons k ns ih =>
    rw [trimmed] at h
    split at h
    · rename_i hpart
      cases h
      exact hpart
    · exact ih h

@[simp] theorem isPart_empty (before : List String) : isPart before "" = false := by
  cases before with
  | nil => rfl
  | cons k before => rfl

/-! ### Directories above a path -/

/-- A directory is the one right above a path: its text is what stands before the last part of the
path, and the two start at the same place. -/
structure IsParent (parent path : String) : Prop where
  text : parent.toList <+: path.toList
  part : ∃ name, parts path = parts parent ++ [name]
  trimmed : parent = "" ∨ parent = "/" ∨
    ∃ n rest, (names parent).reverse = n :: rest ∧ isPart rest n = true
  start : isAbsolute parent = isAbsolute path

/-- The directories from a path upward: each one is right above the one before, and the last one
has no parts left. -/
inductive Climb : String → List String → Prop
  | top {d : String} (h : parts d = []) : Climb d [d]
  | up {d p : String} {ds : List String} (h : IsParent p d) (rest : Climb p ds) : Climb d (d :: ds)

theorem intercalate_begins (l m : List String) :
    ("/".intercalate l).toList <+: ("/".intercalate (l ++ m)).toList := by
  rcases l with _ | ⟨n, l⟩
  · simp
  · rcases m with _ | ⟨k, m⟩
    · rw [List.append_nil]
    · rw [String.intercalate_append_of_ne_nil (List.cons_ne_nil _ _) (List.cons_ne_nil _ _),
        String.append_assoc, String.toList_append]
      exact List.prefix_append _ _

theorem intercalate_begins_of_suffix {ms ns : List String} (h : ms <:+ ns) :
    ("/".intercalate ms.reverse).toList <+: ("/".intercalate ns.reverse).toList := by
  obtain ⟨dropped, rfl⟩ := h
  rw [List.reverse_append]
  exact intercalate_begins _ _

theorem isAbsolute_of_begins {p d : String} (hp : p ≠ "") (h : p.toList <+: d.toList) :
    isAbsolute p = isAbsolute d := by
  obtain ⟨rest, hrest⟩ := h
  unfold isAbsolute
  rw [Bool.eq_iff_iff, String.startsWith_string_iff, String.startsWith_string_iff, ← hrest]
  rcases hl : p.toList with _ | ⟨c, l⟩
  · exact absurd (String.toList_eq_nil_iff.1 hl) hp
  · simp

theorem parts_of_isTop {top : String} (h : top = "" ∨ top = "/") : parts top = [] := by
  rcases h with rfl | rfl
  · rw [parts, names_empty]
    decide
  · have hnames : names "/" = ["", ""] := by
      simpa using names_append_slash "" ""
    rw [parts, hnames]
    decide

/-! ### Files in a directory -/

section Join
variable (directory : String) {name : String}

theorem names_append_empty : names (directory ++ "/") = names directory ++ [""] := by
  rw [← String.append_empty (s := directory ++ "/"), names_append_slash, names_empty]

theorem isPart_of_not_isIdle (h : isIdle name = false) (before : List String) :
    isPart before name = true := by
  rw [isIdle, Bool.or_eq_false_iff] at h
  cases before with
  | nil => simpa [isPart] using h.1
  | cons k before => simpa [isPart, isIdle] using h

theorem parts_of_names {path : String} {before : List String} (hidle : isIdle name = false)
    (h : names path = before ++ [name]) : parts path = (partsOf before.reverse).reverse ++ [name] := by
  rw [parts, h, List.reverse_append, List.reverse_singleton, List.singleton_append, partsOf,
    if_pos (isPart_of_not_isIdle hidle _), List.reverse_cons]

theorem parts_append_empty : parts (directory ++ "/") = parts directory := by
  rw [parts, names_append_empty, List.reverse_append, List.reverse_singleton, List.singleton_append,
    partsOf, if_neg (by simp)]
  rfl

/-- A name behind a directory is a part after those of the directory. -/
theorem parts_join (hslash : '/' ∉ name.toList) (hidle : isIdle name = false) :
    parts (join directory name) = parts directory ++ [name] := by
  have hname : names name = [name] := by
    have hnames := names_intercalate (List.cons_ne_nil name []) (List.forall_mem_singleton.2 hslash)
    rwa [String.intercalate_singleton] at hnames
  have hbehind (d : String) : parts (d ++ "/" ++ name) = parts d ++ [name] :=
    parts_of_names hidle ((names_append_slash d name).trans (congrArg _ hname))
  unfold join
  split
  · rename_i h
    rw [Bool.or_eq_true, decide_eq_true_eq] at h
    rcases h with rfl | h
    · rw [String.empty_append, parts_of_isTop (.inl rfl)]
      exact parts_of_names hidle (hname.trans (List.nil_append _).symm)
    · have h : directory.toSlice.endsWith "/" = true := h
      rw [String.Slice.endsWith_string_iff, String.copy_toSlice] at h
      obtain ⟨before, hbefore⟩ := h
      obtain rfl : directory = String.ofList before ++ "/" := by
        apply String.toList_injective
        simpa using hbefore.symm
      rw [hbehind, parts_append_empty]
  · exact hbehind directory

/-- A name behind a directory is a path that starts as the directory does. -/
theorem isAbsolute_join (hslash : '/' ∉ name.toList) :
    isAbsolute (join directory name) = isAbsolute directory := by
  by_cases hempty : directory = ""
  · subst hempty
    have hjoin : join "" name = name := by simp [join]
    rw [hjoin, isAbsolute, isAbsolute, Bool.eq_iff_iff, String.startsWith_string_iff,
      String.startsWith_string_iff]
    refine ⟨fun h => absurd (h.subset List.mem_cons_self) hslash, ?_⟩
    rintro ⟨rest, hrest⟩
    cases hrest
  · refine (isAbsolute_of_begins hempty ?_).symm
    unfold join
    split
    · exact String.toList_append ▸ List.prefix_append _ _
    · rw [String.append_assoc, String.toList_append]
      exact List.prefix_append _ _

end Join

/-! ### A search upward -/

section PathUpTo
variable {top k : String} {ns rest : List String}

theorem pathUpTo_of_trimmed (htrim : trimmed ns = k :: rest) :
    pathUpTo top ns = "/".intercalate (k :: rest).reverse := by
  rw [pathUpTo, htrim]

theorem names_pathUpTo (hslash : ∀ n ∈ ns, '/' ∉ n.toList) (htrim : trimmed ns = k :: rest) :
    names (pathUpTo top ns) = (k :: rest).reverse := by
  have hsuffix := htrim ▸ trimmed_suffix ns
  rw [pathUpTo_of_trimmed htrim]
  exact names_intercalate (List.reverse_ne_nil_iff.2 (List.cons_ne_nil k rest)) fun m hm =>
    hslash m (hsuffix.subset (List.mem_reverse.1 hm))

theorem pathUpTo_ne_empty (hslash : ∀ n ∈ ns, '/' ∉ n.toList) (htrim : trimmed ns = k :: rest) :
    pathUpTo top ns ≠ "" := by
  intro hempty
  have hnames : names (pathUpTo top ns) = (k :: rest).reverse := names_pathUpTo hslash htrim
  have hlast := isPart_of_trimmed htrim
  rw [hempty, names_empty, List.reverse_cons] at hnames
  obtain rfl : k = "" := by simpa using (congrArg List.getLast? hnames).symm
  rw [isPart_empty] at hlast
  cases hlast

/-- The path up to the last part among names has all parts among them. -/
theorem parts_pathUpTo (htop : top = "" ∨ top = "/") (hslash : ∀ n ∈ ns, '/' ∉ n.toList) :
    parts (pathUpTo top ns) = (partsOf ns).reverse := by
  rw [← partsOf_trimmed]
  rcases htrim : trimmed ns with _ | ⟨k, rest⟩
  · rw [pathUpTo, htrim]
    exact parts_of_isTop htop
  · rw [parts, names_pathUpTo hslash htrim, List.reverse_reverse]

end PathUpTo

/-- Names, given last one first, spell a path that starts at `top` as far as its parts go. -/
structure Spells (top : String) (ns : List String) (path : String) : Prop where
  slash : ∀ n ∈ ns, '/' ∉ n.toList
  parts : parts path = (partsOf ns).reverse
  text : ("/".intercalate (trimmed ns).reverse).toList <+: path.toList
  begins : top.toList <+: path.toList
  start : isAbsolute top = isAbsolute path

namespace Spells

variable {top path n : String} {ns : List String}

theorem names (path : String) : Spells (topOf path) (names path).reverse path where
  slash _ hn := slash_not_mem (List.mem_reverse.1 hn)
  parts := rfl
  text := by
    have hbegin := intercalate_begins_of_suffix (trimmed_suffix (FileTree.names path).reverse)
    rwa [List.reverse_reverse, intercalate_names] at hbegin
  begins := by
    unfold topOf
    split
    · rename_i h
      exact String.startsWith_string_iff.1 h
    · exact List.nil_prefix
  start := by
    unfold topOf
    split
    · rename_i h
      exact (String.startsWith_string_iff.2 List.prefix_rfl).trans h.symm
    · rename_i h
      exact (Bool.not_eq_true _ ▸ h).symm

theorem skip (h : Spells top (n :: ns) path) (hpart : ¬ isPart ns n = true) :
    Spells top ns path where
  slash k hk := h.slash k (List.mem_cons_of_mem _ hk)
  parts := by
    have hparts := h.parts
    rwa [partsOf, if_neg hpart] at hparts
  text := by
    have htext := h.text
    rwa [FileTree.trimmed, if_neg hpart] at htext
  begins := h.begins
  start := h.start

theorem pathUpTo_begins (h : Spells top (n :: ns) path) (hpart : isPart ns n = true) :
    (pathUpTo top ns).toList <+: path.toList := by
  have htext := h.text
  rw [FileTree.trimmed, if_pos hpart] at htext
  rcases htrim : FileTree.trimmed ns with _ | ⟨k, rest⟩
  · rw [pathUpTo, htrim]
    exact h.begins
  · have hsuffix := htrim ▸ trimmed_suffix ns
    rw [pathUpTo_of_trimmed htrim]
    exact (intercalate_begins_of_suffix (hsuffix.trans (List.suffix_cons n ns))).trans htext

/-- Before a part stands the path of the directory above, spelled by the names before. -/
theorem above (htop : top = "" ∨ top = "/") (h : Spells top (n :: ns) path)
    (hpart : isPart ns n = true) :
    Spells top ns (pathUpTo top ns) ∧ IsParent (pathUpTo top ns) path := by
  have hslash : ∀ k ∈ ns, '/' ∉ k.toList := fun k hk => h.slash k (List.mem_cons_of_mem _ hk)
  have hsame := parts_pathUpTo htop hslash
  have hparts : FileTree.parts path = FileTree.parts (pathUpTo top ns) ++ [n] := by
    rw [h.parts, hsame, partsOf, if_pos hpart, List.reverse_cons]
  have hbegin := h.pathUpTo_begins hpart
  rcases htrim : FileTree.trimmed ns with _ | ⟨k, rest⟩
  · have heq : pathUpTo top ns = top := by rw [pathUpTo, htrim]
    rw [heq] at hsame hparts hbegin ⊢
    refine ⟨⟨hslash, hsame, ?_, List.prefix_rfl, rfl⟩, hbegin, ⟨n, hparts⟩, ?_, h.start⟩
    · simp [htrim]
    · exact htop.imp_right .inl
  · have hne : pathUpTo top ns ≠ "" := pathUpTo_ne_empty hslash htrim
    have hstart := isAbsolute_of_begins hne hbegin
    refine ⟨⟨hslash, hsame, ?_, ?_, h.start.trans hstart.symm⟩, hbegin, ⟨n, hparts⟩, ?_, hstart⟩
    · rw [htrim, pathUpTo_of_trimmed htrim]
    · refine List.prefix_of_prefix_length_le h.begins hbegin ?_
      have hlength := List.length_pos_iff.2 (String.toList_eq_nil_iff.not.2 hne)
      rcases htop with rfl | rfl
      · exact Nat.zero_le _
      · exact hlength
    · refine .inr (.inr ⟨k, rest, ?_, isPart_of_trimmed htrim⟩)
      rw [names_pathUpTo hslash htrim, List.reverse_reverse]

theorem climb (htop : top = "" ∨ top = "/") (h : Spells top ns path) :
    Climb path (path :: directoriesAbove top ns) := by
  induction ns generalizing path with
  | nil => exact .top h.parts
  | cons n ns ih =>
    rw [directoriesAbove]
    split
    · rename_i hpart
      obtain ⟨habove, hparent⟩ := above htop h hpart
      exact .up hparent (ih habove)
    · rename_i hpart
      exact ih (h.skip hpart)

end Spells

theorem climb_upward (path : String) : Climb path (upward path) := by
  refine (Spells.names path).climb ?_
  unfold topOf
  split
  · exact .inr rfl
  · exact .inl rfl

example : upward "/srv/a//b/." = ["/srv/a//b/.", "/srv/a", "/srv", "/"] := by cbv

/-! ### What stands at the end of a path -/

theorem exists_of_hasPath (t : FileTree) {path : String} (h : t.hasPath path = true) :
    ∃ place e, t.resolve path = .ok place ∧ t.entry? place = some e := by
  unfold hasPath at h
  split at h
  · rename_i place hplace
    obtain ⟨e, he⟩ := Option.isSome_iff_exists.1 h
    exact ⟨place, e, hplace, he⟩
  · cases h

end FileTree

namespace Settings

variable {σ : Type} (read : TextReader) (t : FileTree)

/-- There is a file at the end of the path, and these settings are read from it. -/
def Loads (path : String) (found : Settings) : Prop :=
  t.hasPath path = true ∧ load read t path = .ok found

/-- What is told of a path: that there is something at its end which cannot be read. -/
def ignored (path : String) : Option Event :=
  if t.hasPath path then
    match load read t path with
    | .ok _ => none
    | .error c => some (.configIgnored c.message)
  else none

/-- What is looked at in some directories, in order. -/
def pathsIn (dirs : List String) : List String :=
  dirs.flatMap fun d => [FileTree.join d "cfish.toml", FileTree.join d ".cfishrc"]

/-- Paths from which nothing can be loaded are passed over, and those at which there is something
are told. -/
theorem discoverAmong_append {before : List String}
    (h : ∀ path ∈ before, ∀ found, ¬ Loads read t path found) (rest : List String) (s : σ) :
    discoverAmong read t (before ++ rest) s =
      ⟨(discoverAmong read t rest s).state, (discoverAmong read t rest s).answer,
        before.filterMap (ignored read t) ++ (discoverAmong read t rest s).events⟩ := by
  induction before with
  | nil => rfl
  | cons path before ih =>
    have hrest := ih fun p hp => h p (List.mem_cons_of_mem _ hp)
    rw [List.cons_append, discoverAmong, List.filterMap_cons, ignored]
    by_cases hpath : t.hasPath path = true
    · rw [if_pos hpath, if_pos hpath]
      rcases hload : load read t path with c | found
      · have hemit : (Step.emit (.configIgnored c.message) : Step σ Unit).Gives s () s := ⟨rfl, rfl⟩
        refine (hemit.bind_apply fun _ => discoverAmong read t (before ++ rest)).trans ?_
        rw [hrest]
        rfl
      · exact absurd ⟨hpath, hload⟩ (h path List.mem_cons_self found)
    · rw [if_neg hpath, if_neg hpath]
      exact hrest

theorem discoverAmong_of_loads {path : String} {found : Settings} (h : Loads read t path found)
    (rest : List String) (s : σ) :
    discoverAmong read t (path :: rest) s = ⟨s, .ok found, []⟩ := by
  rw [discoverAmong, if_pos h.1, h.2]
  rfl

/-- Among some paths the first one that loads is taken, and of those before it the ones at which
there is something are told.  When none loads, the defaults hold. -/
theorem discoverAmong_cases (paths : List String) (s : σ) :
    (∃ before path after found, paths = before ++ path :: after ∧ Loads read t path found ∧
        (∀ p ∈ before, ∀ other, ¬ Loads read t p other) ∧
        discoverAmong read t paths s = ⟨s, .ok found, before.filterMap (ignored read t)⟩) ∨
      (∀ p ∈ paths, ∀ other, ¬ Loads read t p other) ∧
        discoverAmong read t paths s = ⟨s, .ok {}, paths.filterMap (ignored read t)⟩ := by
  induction paths with
  | nil => exact .inr ⟨fun _ hp => absurd hp List.not_mem_nil, rfl⟩
  | cons path paths ih =>
    by_cases hload : ∃ found, Loads read t path found
    · obtain ⟨found, hload⟩ := hload
      exact .inl ⟨[], path, paths, found, rfl, hload, fun _ hp => absurd hp List.not_mem_nil,
        discoverAmong_of_loads read t hload paths s⟩
    · have hpath : ∀ p ∈ [path], ∀ other, ¬ Loads read t p other := by
        intro p hp other hother
        exact hload ⟨other, List.mem_singleton.1 hp ▸ hother⟩
      have hpass := discoverAmong_append read t hpath paths s
      rcases ih with ⟨before, p, after, found, rfl, hfound, hbefore, heq⟩ | ⟨hnone, heq⟩
      · refine .inl ⟨path :: before, p, after, found, rfl, hfound, ?_, ?_⟩
        · exact List.forall_mem_cons.2 ⟨hpath path List.mem_cons_self, hbefore⟩
        · rw [heq, ← List.filterMap_append] at hpass
          exact hpass
      · refine .inr ⟨?_, ?_⟩
        · exact List.forall_mem_cons.2 ⟨hpath path List.mem_cons_self, hnone⟩
        · rw [heq, ← List.filterMap_append] at hpass
          exact hpass

/-- What is at the end of a path, and what comes of reading it: a directory and a file that is no
text are complained of by their path, and everything else is up to the reader. -/
theorem load_of_hasPath {path : String} (h : t.hasPath path = true) :
    ∃ place e, t.resolve path = .ok place ∧ t.entry? place = some e ∧ load read t path =
      match e with
      | .directory => .error (.configRead path FileProblem.isDirectory.message)
      | .file content =>
        match String.fromUTF8? content with
        | none => .error (.configRead path FileProblem.notText.message)
        | some text => read text := by
  obtain ⟨place, e, hplace, he⟩ := t.exists_of_hasPath h
  refine ⟨place, e, hplace, he, ?_⟩
  cases e with
  | directory =>
    have hread : t.readText path = .error .isDirectory := by
      simp only [FileTree.readText, hplace, bind, Except.bind, he]
    rw [load, hread]
  | file content =>
    cases htext : String.fromUTF8? content with
    | none =>
      have hread : t.readText path = .error .notText := by
        simp only [FileTree.readText, hplace, bind, Except.bind, he, htext]
      simp only [load, hread, htext]
    | some text =>
      have hread : t.readText path = .ok text := by
        simp only [FileTree.readText, hplace, bind, Except.bind, he, htext]
      simp only [load, hread, htext]

/-- Settings come from the nearest file that can be read.  From a directory, at the end of any path, a
search climbs to the directory above and so on, and in each of them `cfish.toml` is looked at before
`.cfishrc`.  The first file that is there and can be read gives the settings; when there is none, the
defaults hold.  What is there and cannot be read, because it is a directory or no text or because the
reader complains of the text, is told, in the order in which it is come upon, and changes nothing
else. -/
theorem discover_nearest (start : String) (s : σ) :
    let dirs := FileTree.upward start
    FileTree.Climb start dirs ∧
      ((∃ before path after found, pathsIn dirs = before ++ path :: after ∧
          Loads read t path found ∧ (∀ p ∈ before, ∀ other, ¬ Loads read t p other) ∧
          discover read t start s = ⟨s, .ok found, before.filterMap (ignored read t)⟩) ∨
        (∀ p ∈ pathsIn dirs, ∀ other, ¬ Loads read t p other) ∧
          discover read t start s = ⟨s, .ok {}, (pathsIn dirs).filterMap (ignored read t)⟩) ∧
      (∀ d, ∀ name ∈ fileNames, FileTree.parts (FileTree.join d name) = FileTree.parts d ++ [name] ∧
        FileTree.isAbsolute (FileTree.join d name) = FileTree.isAbsolute d) ∧
      ∀ path, t.hasPath path = true →
        ∃ place e, t.resolve path = .ok place ∧ t.entry? place = some e ∧ load read t path =
          match e with
          | .directory => .error (.configRead path FileProblem.isDirectory.message)
          | .file content =>
            match String.fromUTF8? content with
            | none => .error (.configRead path FileProblem.notText.message)
            | some text => read text := by
  refine ⟨FileTree.climb_upward start, discoverAmong_cases read t _ s, fun d name hname => ?_,
    fun path hpath => load_of_hasPath read t hpath⟩
  obtain ⟨hslash, hidle⟩ : '/' ∉ name.toList ∧ FileTree.isIdle name = false := by
    rcases List.mem_pair.1 hname with rfl | rfl
    · exact ⟨by decide, by decide⟩
    · exact ⟨by decide, by decide⟩
  exact ⟨FileTree.parts_join d hslash hidle, FileTree.isAbsolute_join d hslash⟩

end Settings

end ObjectSystem
