import Mathlib.Data.List.TakeWhile
import PlcTypes.Files.Store
import PlcTypes.Proofs.Success

/-!
# What happens to a file store

A text that is written to a path is read back from it, since the writing leaves all directories where
they are and so the path leads to the same place. Where a path from a directory on leads is found
from the place of the directory and the names behind it.
-/

namespace PlcTypes.FileStore

variable {store : FileStore} {place other : List String} {entry : Entry} {path : String}

/-- An entry that was put somewhere is there. -/
theorem entry?_put_self (entry : Entry) (h : place ≠ []) :
    FileStore.entry? (store.put place entry) place = some entry := by
  rw [ entry?, if_neg h, put, List.lookup_cons_self]

/-- An entry that is put somewhere leaves all other places as they are. -/
theorem entry?_put_of_ne (entry : Entry) (h : other ≠ place) :
    FileStore.entry? (store.put place entry) other = store.entry? other := by
  have hlookup (entries : List (List String × Entry)) :
      (entries.filter fun entry => entry.1 != place).lookup other = entries.lookup other := by
    induction entries with
    | nil => rfl
    | cons first entries ih =>
      by_cases hfirst : first.1 = place
      · rw [List.filter_cons_of_neg (by simp [hfirst]), ih, List.lookup_cons,
          beq_false_of_ne (hfirst ▸ h)]
      · rw [List.filter_cons_of_pos (by simpa using hfirst), List.lookup_cons, List.lookup_cons, ih]
  rw [ entry?, entry?, put, List.lookup_cons, beq_false_of_ne h, erase, hlookup]

/-- An entry that is put somewhere leaves the files at all other places as they are. -/
theorem content?_put_of_ne (entry : Entry) (h : other ≠ place) :
    (store.put place entry).content? other = store.content? other := by
  rw [content?, content?, entry?_put_of_ne entry h]

/-- What a name in a directory leads to, if it is not too long. -/
theorem child_eq_ok_iff {name : String} {found : Option Entry} :
    store.child place name = .ok found ↔
      name.utf8ByteSize ≤ nameLimit ∧ store.entry? (place ++ [name]) = found := by
  unfold child
  split
  · simp only [reduceCtorEq, false_iff, not_and]
    omega
  · rename_i hsize
    simp only [Except.ok.injEq, Nat.not_lt.mp hsize, true_and]

/-- A path may be written to if it leads to a name in a directory that is not the name of a directory
itself. -/
theorem writable_spec (h : store.writable path = .ok place) : ∃ parent name,
    store.target path = .ok (.name parent name false) ∧ place = parent ++ [name] ∧
      name.utf8ByteSize ≤ nameLimit ∧ store.entry? place ≠ some .directory := by
  unfold writable at h
  obtain ⟨target, htarget, h⟩ := bind_eq_ok_iff.mp h
  cases target with
  | directory found => simp at h
  | name parent name slash =>
    cases slash with
    | true => simp [bind, Except.bind] at h
    | false =>
      obtain ⟨found, hfound, h⟩ := bind_eq_ok_iff.mp h
      obtain ⟨hsize, hentry⟩ := child_eq_ok_iff.mp hfound
      have hplace : found ≠ some .directory ∧ parent ++ [name] = place := by
        split at h
        · simp at h
        · rename_i hdirectory
          exact ⟨hdirectory, Except.ok.inj h⟩
      exact ⟨parent, name, htarget, hplace.2.symm, hsize, by rw [← hplace.2, hentry]; exact hplace.1⟩

/-- A directory may be made where nothing is. -/
theorem entry?_of_makeable (h : store.makeable path = .ok place) :
    place ≠ [] ∧ store.entry? place = none := by
  unfold makeable at h
  obtain ⟨target, -, h⟩ := bind_eq_ok_iff.mp h
  cases target with
  | directory found => simp at h
  | name parent name slash =>
    obtain ⟨found, hfound, h⟩ := bind_eq_ok_iff.mp h
    obtain ⟨-, hentry⟩ := child_eq_ok_iff.mp hfound
    cases found with
    | some entry => simp at h
    | none =>
      rw [← Except.ok.inj h]
      exact ⟨by simp, hentry⟩

section Walk

/-- What a name leads to from the directory that the names before it led to. -/
def Target.of (names : List String) (last : String) (parent : List String) : Target :=
  if last = "." then .directory parent
  else if last = ".." then .directory parent.dropLast
  else .name parent last (names.reverse.head? == some "")

/-- What a list of names leads to from a directory. Empty names at the end do not count. -/
def walk (store : FileStore) (start : List String) (names : List String) :
    Except FileFault Target :=
  match names.reverse.dropWhile (· == "") with
  | [] => .ok (.directory start)
  | last :: before => (before.reverse.foldlM store.enter start).map (Target.of names last)

/-- Where the walk of a path starts. -/
def start (store : FileStore) (path : String) : List String :=
  if Path.isAbsolute path then [] else store.here

/-- A path that is neither empty nor too long leads to what its names lead to. -/
theorem target_eq_ok_iff {target : Target} : store.target path = .ok target ↔
    path ≠ "" ∧ '\x00' ∉ path.toList ∧ path.utf8ByteSize ≤ pathLimit ∧
      store.walk (store.start path) (Path.names path) = .ok target := by
  have hwalk : store.walk (store.start path) (Path.names path) =
      match (Path.names path).reverse.dropWhile (· == "") with
      | [] => pure (.directory (store.start path))
      | last :: before =>
        before.reverse.foldlM store.enter (store.start path) >>= fun parent =>
          if last = "." then pure (.directory parent)
          else if last = ".." then pure (.directory parent.dropLast)
          else pure (.name parent last ((Path.names path).reverse.head? == some "")) := by
    unfold walk
    split
    · rfl
    · rename_i last before _
      cases before.reverse.foldlM store.enter (store.start path) with
      | error fault => rfl
      | ok parent =>
        simp only [Except.map, Target.of, bind, Except.bind, pure, Except.pure]
        split_ifs <;> rfl
  unfold FileStore.target
  by_cases hempty : path = ""
  · simp [hempty, bind, Except.bind]
  · by_cases hzero : '\x00' ∈ path.toList
    · simp [hempty, hzero, bind, Except.bind]
    · by_cases hlong : pathLimit < path.utf8ByteSize
      · simp [hempty, hzero, hlong, Nat.not_le.mpr hlong, bind, Except.bind]
      · rw [hwalk]
        simp only [hempty, hzero, hlong, Nat.not_lt.mp hlong, if_false, ne_eq, not_false_eq_true,
          true_and]
        rfl

/-- A name leads on from a directory if it is that of a directory in it, or one that only moves. -/
theorem enter_eq_ok_iff {name : String} {found : List String} : store.enter place name = .ok found ↔
    if name = "" ∨ name = "." then found = place
    else if name = ".." then found = place.dropLast
    else found = place ++ [name] ∧ name.utf8ByteSize ≤ nameLimit ∧
      store.entry? (place ++ [name]) = some .directory := by
  unfold enter
  by_cases hstay : name = "" ∨ name = "."
  · rw [if_pos hstay, if_pos hstay]
    exact ⟨fun h => (Except.ok.inj h).symm, fun h => congrArg Except.ok h.symm⟩
  · by_cases hup : name = ".."
    · rw [if_neg hstay, if_neg hstay, if_pos hup, if_pos hup]
      exact ⟨fun h => (Except.ok.inj h).symm, fun h => congrArg Except.ok h.symm⟩
    · simp only [hstay, hup, if_false]
      constructor
      · intro h
        obtain ⟨entry, hentry, h⟩ := bind_eq_ok_iff.mp h
        obtain ⟨hsize, hplace⟩ := child_eq_ok_iff.mp hentry
        split at h
        · simp at h
        · simp at h
        · exact ⟨(Except.ok.inj h).symm, hsize, hplace⟩
      · rintro ⟨rfl, hsize, hplace⟩
        rw [child_eq_ok_iff.mpr ⟨hsize, hplace⟩]
        rfl

variable {store' : FileStore}

/-- All directories are still there, and the current one is the same. -/
def KeepsDirectories (store store' : FileStore) : Prop :=
  store'.here = store.here ∧
    ∀ place, store.entry? place = some .directory → store'.entry? place = some .directory

/-- A walk goes the same way as long as the directories are there. -/
theorem KeepsDirectories.foldlM_enter (h : KeepsDirectories store store') {names : List String}
    {found : List String} (hwalk : names.foldlM store.enter place = .ok found) :
    names.foldlM store'.enter place = .ok found := by
  induction names generalizing place with
  | nil => exact hwalk
  | cons name names ih =>
    rw [List.foldlM_cons] at hwalk ⊢
    obtain ⟨next, hnext, hwalk⟩ := bind_eq_ok_iff.mp hwalk
    refine bind_eq_ok_iff.mpr ⟨next, ?_, ih hwalk⟩
    rw [enter_eq_ok_iff] at hnext ⊢
    split_ifs at hnext ⊢ with hstay hup
    · exact hnext
    · exact hnext
    · exact ⟨hnext.1, hnext.2.1, h.2 _ hnext.2.2⟩

/-- A path leads to the same as long as the directories are there. -/
theorem KeepsDirectories.target (h : KeepsDirectories store store') {target : Target}
    (htarget : store.target path = .ok target) : store'.target path = .ok target := by
  rw [target_eq_ok_iff] at htarget ⊢
  obtain ⟨hempty, hzero, hlong, hwalk⟩ := htarget
  refine ⟨hempty, hzero, hlong, ?_⟩
  rw [start, h.1]
  unfold walk at hwalk ⊢
  split at hwalk
  · exact hwalk
  · obtain ⟨parent, hparent, hwalk⟩ := map_eq_ok_iff.mp hwalk
    exact map_eq_ok_iff.mpr ⟨parent, h.foldlM_enter hparent, hwalk⟩

/-- Putting a file where no directory is leaves the directories there. -/
theorem keepsDirectories_put_file (content : Content) (h : store.entry? place ≠ some .directory) :
    KeepsDirectories store (store.put place (.file content)) := by
  refine ⟨rfl, fun other hother => ?_⟩
  have hne : other ≠ place := by
    rintro rfl
    exact h hother
  rw [entry?_put_of_ne _ hne]
  exact hother

/-- A text that was written to a path is read back from it. -/
theorem read_write (text : String) (h : store.writable path = .ok place) :
    (store.put place (.file (.text text))).read path = .ok text := by
  obtain ⟨parent, name, htarget, rfl, hsize, hentry⟩ := writable_spec h
  have hfile : FileStore.entry? (store.put (parent ++ [name]) (.file (.text text)))
      (parent ++ [name]) = some (.file (.text text)) :=
    entry?_put_self _ (List.concat_ne_nil name parent)
  have htarget' := (keepsDirectories_put_file (.text text) hentry).target htarget
  have hchild : child (store.put (parent ++ [name]) (.file (.text text))) parent name = _ :=
    child_eq_ok_iff.mpr ⟨hsize, hfile⟩
  have hfind : (store.put (parent ++ [name]) (.file (.text text))).find path =
      .ok (.file (.text text)) := by
    simp only [find, htarget', hchild, bind, Except.bind]
    rfl
  rw [read, hfind]
  rfl

/-- The place a path leads to, whether or not something is there. -/
def placeOf (store : FileStore) (path : String) : Except FileFault (List String) :=
  (store.target path).map fun
    | .directory place => place
    | .name parent name _ => parent ++ [name]

/-- A path that may be written to leads to the place of the file. -/
theorem placeOf_of_writable (h : store.writable path = .ok place) :
    store.placeOf path = .ok place := by
  obtain ⟨parent, name, htarget, rfl, -⟩ := writable_spec h
  exact map_eq_ok_iff.mpr ⟨_, htarget, rfl⟩

/-- After the writing the path still leads to the place. -/
theorem placeOf_put (content : Content) (h : store.writable path = .ok place) :
    (store.put place (.file content)).placeOf path = .ok place := by
  obtain ⟨parent, name, htarget, rfl, -, hentry⟩ := writable_spec h
  exact map_eq_ok_iff.mpr ⟨_, (keepsDirectories_put_file content hentry).target htarget, rfl⟩

/-- A walk to a name follows all names but that one, which is the last. -/
theorem walk_eq_name {names : List String} {start parent : List String} {name : String}
    (h : store.walk start names = .ok (.name parent name false)) :
    ∃ front, names = front ++ [name] ∧ front.foldlM store.enter start = .ok parent := by
  unfold walk at h
  split at h
  · simp at h
  · rename_i last before hnames
    obtain ⟨found, hfound, h⟩ := map_eq_ok_iff.mp h
    unfold Target.of at h
    split_ifs at h with hstay hup
    obtain ⟨rfl, rfl, hlast⟩ := Target.name.inj h
    cases hreverse : names.reverse with
    | nil => simp [hreverse] at hnames
    | cons first others =>
      have hfirst : first ≠ "" := by simpa [hreverse] using hlast
      rw [hreverse, List.dropWhile_cons_of_neg (by simpa using hfirst)] at hnames
      obtain ⟨rfl, rfl⟩ := List.cons.inj hnames
      exact ⟨others.reverse, by rw [← List.reverse_cons, ← hreverse, List.reverse_reverse], hfound⟩

/-- Empty names lead nowhere else. -/
theorem foldlM_enter_empty {names : List String} (h : ∀ name ∈ names, name = "") :
    names.foldlM store.enter place = .ok place := by
  induction names with
  | nil => rfl
  | cons name names ih =>
    have hstay : store.enter place name = .ok place :=
      enter_eq_ok_iff.mpr (by rw [if_pos (Or.inl (h name List.mem_cons_self))])
    rw [List.foldlM_cons]
    exact bind_eq_ok_iff.mpr
      ⟨place, hstay, ih fun other hother => h other (List.mem_cons_of_mem _ hother)⟩

/-- What a path to a directory leads to is a directory. -/
theorem exists_target_of_isDirectory (h : store.isDirectory path = true) :
    ∃ target, store.target path = .ok target ∧ ∀ parent name slash,
      target = .name parent name slash → name.utf8ByteSize ≤ nameLimit ∧
        store.entry? (parent ++ [name]) = some .directory := by
  unfold isDirectory find at h
  cases htarget : store.target path with
  | error fault => simp [htarget, bind, Except.bind] at h
  | ok target =>
    refine ⟨target, rfl, ?_⟩
    rintro parent name slash rfl
    rw [htarget] at h
    cases hchild : store.child parent name with
    | error fault => simp [hchild, bind, Except.bind] at h
    | ok found =>
      obtain ⟨hsize, hplace⟩ := child_eq_ok_iff.mp hchild
      rw [hplace]
      refine ⟨hsize, ?_⟩
      cases found with
      | none => simp [hchild, bind, Except.bind] at h
      | some entry =>
        cases entry with
        | directory => rfl
        | file content => cases slash <;> simp [hchild, bind, Except.bind, pure, Except.pure] at h

/-- A path to a directory is none to write to. -/
theorem writable_ne_ok_of_isDirectory (h : store.isDirectory path = true) :
    store.writable path ≠ .ok place := by
  intro hwritable
  obtain ⟨parent, name, htarget, rfl, -, hentry⟩ := writable_spec hwritable
  obtain ⟨target, htarget', hdirectory⟩ := exists_target_of_isDirectory h
  exact hentry (hdirectory parent name false (Except.ok.inj (htarget'.symm.trans htarget))).2

/-- The names of a path to a directory lead to its place. -/
theorem foldlM_enter_of_isDirectory (h : store.isDirectory path = true) :
    ∃ place, store.placeOf path = .ok place ∧
      (Path.names path).foldlM store.enter (store.start path) = .ok place := by
  obtain ⟨target, htarget, hentry⟩ := exists_target_of_isDirectory h
  obtain ⟨-, -, -, hwalk⟩ := target_eq_ok_iff.mp htarget
  refine ⟨_, map_eq_ok_iff.mpr ⟨target, htarget, rfl⟩, ?_⟩
  have hempty : ∀ name ∈ ((Path.names path).reverse.takeWhile (· == "")).reverse,
      name = "" := by
    intro name hname
    simpa using List.mem_takeWhile_imp (List.mem_reverse.mp hname)
  have hnames : Path.names path = ((Path.names path).reverse.dropWhile (· == "")).reverse ++
      ((Path.names path).reverse.takeWhile (· == "")).reverse := by
    rw [← List.reverse_append, List.takeWhile_append_dropWhile, List.reverse_reverse]
  have hhead := List.head?_dropWhile_not (· == "") (Path.names path).reverse
  rw [hnames]
  unfold walk at hwalk
  split at hwalk
  · rename_i hnone
    rw [← Except.ok.inj hwalk, hnone]
    exact foldlM_enter_empty hempty
  · rename_i last before hsome
    obtain ⟨parent, hparent, rfl⟩ := map_eq_ok_iff.mp hwalk
    have hlast : last ≠ "" := by simpa [hsome] using hhead
    rw [hsome, List.reverse_cons, List.append_assoc, List.singleton_append, List.foldlM_append]
    refine bind_eq_ok_iff.mpr ⟨parent, hparent, ?_⟩
    rw [List.foldlM_cons]
    refine bind_eq_ok_iff.mpr ⟨_, ?_, foldlM_enter_empty hempty⟩
    rw [enter_eq_ok_iff]
    unfold Target.of at hentry ⊢
    by_cases hstay : last = "."
    · simp [hstay]
    · by_cases hup : last = ".."
      · simp [hup]
      · simp only [hstay, hup, hlast, if_false, or_self] at hentry ⊢
        exact ⟨trivial, hentry parent last _ rfl⟩

end Walk

section Join

/-- A text has at least one name. -/
theorem splitSlashes_ne_nil (text : List Char) : Path.splitSlashes text ≠ [] := by
  cases text with
  | nil => simp [Path.splitSlashes]
  | cons c text =>
    rw [Path.splitSlashes]
    split
    · simp
    · split <;> simp

/-- A text is split at a slash. -/
theorem splitSlashes_append_cons (left right : List Char) :
    Path.splitSlashes (left ++ '/' :: right) = Path.splitSlashes left ++ Path.splitSlashes right := by
  induction left with
  | nil => simp [Path.splitSlashes]
  | cons c left ih =>
    rw [List.cons_append, Path.splitSlashes, Path.splitSlashes, ih]
    split
    · rfl
    · cases h : Path.splitSlashes left with
      | nil => exact absurd h (splitSlashes_ne_nil left)
      | cons first others => simp

/-- A text without a slash is one name. -/
theorem names_of_notMem {path : String} (h : '/' ∉ path.toList) : Path.names path = [path] := by
  have hsplit (text : List Char) (htext : '/' ∉ text) : Path.splitSlashes text = [text] := by
    induction text with
    | nil => rfl
    | cons c text ih =>
      rw [List.mem_cons, not_or] at htext
      rw [Path.splitSlashes, if_neg (Ne.symm htext.1), ih htext.2]
  rw [Path.names, hsplit _ h, List.map_singleton, String.ofList_toList]

/-- A path from a directory on has one slash between the path to the directory and the rest. -/
theorem exists_toList_join {directory name : String} (hdirectory : directory ≠ "")
    (hname : Path.isAbsolute name = false) :
    ∃ left, (Path.join directory name).toList = left ++ '/' :: name.toList ∧
      (directory.toList = left ∨ directory.toList = left ++ ['/']) := by
  rw [Path.join, hname, if_neg (by simpa using hdirectory)]
  by_cases hslash : directory.toList.getLast? = some '/'
  · obtain ⟨left, hleft⟩ := List.getLast?_eq_some_iff.mp hslash
    exact ⟨left, by simp [hleft], Or.inr hleft⟩
  · exact ⟨directory.toList, by simp [hslash], Or.inl rfl⟩

/-- The names of a path from a directory on are those of the path to the directory, but for empty
ones at its end, and those behind it. -/
theorem exists_names_join (store : FileStore) {directory name : String} (hdirectory : directory ≠ "")
    (hname : Path.isAbsolute name = false) :
    ∃ front rest, Path.names directory = front ++ rest ∧ (∀ name ∈ rest, name = "") ∧
      Path.names (Path.join directory name) = front ++ Path.names name ∧
      store.start (Path.join directory name) = store.start directory := by
  obtain ⟨left, hjoin, hleft⟩ := exists_toList_join hdirectory hname
  have hne : directory.toList ≠ [] := fun hnil => hdirectory (String.toList_eq_nil_iff.mp hnil)
  refine ⟨(Path.splitSlashes left).map String.ofList,
    if directory.toList = left then [] else [""], ?_, ?_, ?_, ?_⟩
  · rcases hleft with hleft | hleft
    · rw [Path.names, hleft, if_pos rfl, List.append_nil]
    · rw [Path.names, hleft, if_neg (by simp), splitSlashes_append_cons, List.map_append]
      rfl
  · split <;> simp
  · rw [Path.names, hjoin, splitSlashes_append_cons, List.map_append, Path.names]
  · have hhead : (Path.join directory name).toList.head? = directory.toList.head? := by
      rcases hleft with hleft | hleft
      · rw [hjoin, List.head?_append_of_ne_nil _ (hleft ▸ hne), hleft]
      · rw [hjoin, List.append_cons, ← hleft, List.head?_append_of_ne_nil _ hne]
    rw [start, start, Path.isAbsolute, Path.isAbsolute, hhead]

/-- A path from a directory on that may be written to leads along the names that it goes on with. -/
theorem writable_join {directory name : String} (hdirectory : store.isDirectory directory = true)
    (h : store.writable (Path.join directory name) = .ok place) :
    ∃ base, store.placeOf directory = .ok base ∧ ∃ front last parent,
      Path.names name = front ++ [last] ∧ place = parent ++ [last] ∧
      front.foldlM store.enter (if Path.isAbsolute name then [] else base) = .ok parent := by
  obtain ⟨base, hbase, hwalk⟩ := foldlM_enter_of_isDirectory hdirectory
  obtain ⟨parent, last, htarget, rfl, -⟩ := writable_spec h
  obtain ⟨-, -, -, htarget⟩ := target_eq_ok_iff.mp htarget
  obtain ⟨front, hnames, hfront⟩ := walk_eq_name htarget
  refine ⟨base, hbase, ?_⟩
  cases habsolute : Path.isAbsolute name with
  | true =>
    have hjoin : Path.join directory name = name := by
      rw [Path.join, habsolute, Bool.true_or, if_pos rfl]
    rw [hjoin, start, habsolute, if_pos rfl] at hfront
    rw [hjoin] at hnames
    exact ⟨front, last, parent, hnames, rfl, hfront⟩
  | false =>
    have hne : directory ≠ "" := by
      rintro rfl
      obtain ⟨target, htarget, -⟩ := exists_target_of_isDirectory hdirectory
      exact (target_eq_ok_iff.mp htarget).1 rfl
    obtain ⟨above, rest, habove, hrest, hjoin, hstart⟩ :=
      exists_names_join store hne habsolute
    have hname : Path.names name ≠ [] := by simpa [Path.names] using splitSlashes_ne_nil name.toList
    obtain ⟨others, last', hothers⟩ := (List.eq_nil_or_concat' (Path.names name)).resolve_left hname
    rw [hjoin, hothers, ← List.append_assoc] at hnames
    -- the last name of the joined path is the last one behind the directory
    obtain ⟨rfl, hlast⟩ := List.append_inj' hnames rfl
    obtain rfl : last' = last := List.head_eq_of_cons_eq hlast
    rw [hstart, List.foldlM_append] at hfront
    rw [habove, List.foldlM_append] at hwalk
    obtain ⟨middle, hmiddle, hrestWalk⟩ := bind_eq_ok_iff.mp hwalk
    rw [foldlM_enter_empty hrest] at hrestWalk
    obtain rfl := Except.ok.inj hrestWalk
    obtain ⟨middle', hmiddle', hothersWalk⟩ := bind_eq_ok_iff.mp hfront
    obtain rfl := Except.ok.inj (hmiddle.symm.trans hmiddle')
    exact ⟨others, last', parent, hothers, rfl, hothersWalk⟩

/-- A path to a name in a directory leads to that name in the directory. -/
theorem writable_join_of_notMem {directory name : String}
    (hdirectory : store.isDirectory directory = true) (hname : '/' ∉ name.toList)
    (h : store.writable (Path.join directory name) = .ok place) :
    ∃ base, store.placeOf directory = .ok base ∧ place = base ++ [name] := by
  obtain ⟨base, hbase, front, last, parent, hnames, rfl, hwalk⟩ := writable_join hdirectory h
  have habsolute : Path.isAbsolute name = false := by
    rw [Path.isAbsolute, beq_eq_false_iff_ne]
    intro hhead
    exact hname (List.mem_of_head? hhead)
  rw [names_of_notMem hname] at hnames
  obtain ⟨rfl, hlast⟩ := List.append_inj' (hnames.symm.trans (List.nil_append [name]).symm) rfl
  rw [habsolute] at hwalk
  obtain rfl : base = parent := Except.ok.inj hwalk
  exact ⟨base, hbase, by rw [hlast]⟩

end Join

end PlcTypes.FileStore
