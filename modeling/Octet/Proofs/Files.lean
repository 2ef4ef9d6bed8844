import Octet.Command.Session
import Octet.Proofs.Lines
import Octet.Proofs.Results

/-!
# Files

What has been written to a file is read from it again. A path is walked through folders only, and
writing a file takes none of them away.
-/
namespace Octet

open Results

/-! ### Extensions -/

namespace Path

/-- A part that names something in its folder. -/
def IsName (part : List Char) : Prop := part ≠ [] ∧ part ≠ ['.'] ∧ part ≠ ['.', '.']

variable {path : String} {names : List (List Char)} {name : List Char}

lemma exists_parts (path : String) : ∃ names name, parts path = names ++ [name] := by
  have hne : parts path ≠ [] := by
    rw [parts, Text.pieces_eq_splitOn]
    exact List.splitOn_ne_nil _ _
  exact ⟨(parts path).dropLast, (parts path).getLast hne, (List.dropLast_append_getLast hne).symm⟩

/-- The parts in front of the last one have a slash behind them. -/
lemma intercalate_concat (names : List (List Char)) (name : List Char) :
    ['/'].intercalate (names ++ [name]) = names.flatMap (· ++ ['/']) ++ name := by
  induction names with
  | nil => simp
  | cons first names ih => simp [List.intercalate_cons_of_ne_nil, ih]

lemma toList_of_parts (hparts : parts path = names ++ [name]) :
    path.toList = names.flatMap (· ++ ['/']) ++ name := by
  rw [← intercalate_concat, ← hparts, parts, Text.pieces_eq_splitOn]
  exact (List.intercalate_splitOn _).symm

lemma slash_not_mem {part : List Char} (h : part ∈ parts path) : '/' ∉ part :=
  Text.separator_not_mem_of_mem_pieces h

/-- Another name in the same folder takes the place of the last part. -/
lemma parts_ofList {other : List Char} (hparts : parts path = names ++ [name])
    (hother : '/' ∉ other) :
    parts (String.ofList (names.flatMap (· ++ ['/']) ++ other)) = names ++ [other] := by
  have hnames : ∀ part ∈ names ++ [other], '/' ∉ part := by
    intro part hpart
    rcases List.mem_append.mp hpart with hpart | hpart
    · apply slash_not_mem
      rw [hparts]
      exact List.mem_append_left _ hpart
    · rwa [List.mem_singleton.mp hpart]
  rw [parts, String.toList_ofList, ← intercalate_concat, Text.pieces_eq_splitOn]
  exact List.splitOn_intercalate _ hnames (by simp)

lemma fileName?_of_isName (hparts : parts path = names ++ [name]) (h : IsName name) :
    fileName? path = some name := by
  unfold fileName?
  rw [hparts]
  simp [h.1, h.2.1, h.2.2]

/-! What stands behind the last dot is the extension, and no more than it is exchanged. -/

lemma splitName_ne_nil (h : name ≠ []) : (splitName name).1 ≠ [] := by
  unfold splitName
  split
  · simp
  · exact h

/-- What stands in front of the extension stands in the name. -/
lemma stem_subset (name : List Char) : (splitName name).1 ⊆ name := by
  unfold splitName
  split
  · next c cs hrest =>
    have hsuffix := List.dropWhile_suffix (l := name.reverse) (· != '.')
    rw [hrest] at hsuffix
    intro d hd
    apply List.mem_reverse.mp
    apply hsuffix.subset
    exact List.mem_cons_of_mem _ (List.mem_reverse.mp hd)
  · exact List.Subset.refl name

lemma splitName_dot {stem extension : List Char} (hstem : stem ≠ []) (hdot : '.' ∉ extension) :
    splitName (stem ++ '.' :: extension) = (stem, some extension) := by
  have hall : ∀ c ∈ extension.reverse, (c != '.') = true := by
    intro c hc
    have hne : c ≠ '.' := fun h => hdot (h ▸ List.mem_reverse.mp hc)
    simpa using hne
  obtain ⟨c, cs, hreverse⟩ := List.exists_cons_of_ne_nil (List.reverse_ne_nil_iff.mpr hstem)
  have hname : (stem ++ '.' :: extension).reverse = extension.reverse ++ '.' :: c :: cs := by
    simp [hreverse]
  have hback : (c :: cs).reverse = stem := by rw [← hreverse, List.reverse_reverse]
  unfold splitName
  rw [hname, List.dropWhile_append_of_pos hall, List.takeWhile_append_of_pos hall,
    List.dropWhile_cons_of_neg (by simp)]
  simpa using hback

lemma isName_dot {stem extension : List Char} (hstem : stem ≠ []) (hup : stem ≠ ['.']) :
    IsName (stem ++ '.' :: extension) := by
  obtain ⟨c, cs, rfl⟩ := List.exists_cons_of_ne_nil hstem
  refine ⟨by simp, by simp, fun hdots => ?_⟩
  cases cs with
  | nil => simp_all
  | cons d cs => simp at hdots

lemma parts_withExtension {extension : String} (hparts : parts path = names ++ [name])
    (hslash : '/' ∉ extension.toList) :
    parts (withExtension path extension) = names ++ [(splitName name).1 ++
      if (splitName name).1 = ['.'] then ['.'] else '.' :: extension.toList] := by
  have hlast : (parts path).getLastD [] = name := by rw [hparts, List.getLastD_concat]
  have hfolder : path.toList.take (path.toList.length - name.length) =
      names.flatMap (· ++ ['/']) := by
    rw [toList_of_parts hparts, List.length_append, Nat.add_sub_cancel, List.take_left]
  have hmem : name ∈ parts path := by simp [hparts]
  have hstem : '/' ∉ (splitName name).1 := fun h =>
    slash_not_mem hmem (stem_subset name h)
  dsimp only [withExtension]
  rw [hlast, hfolder, List.append_assoc]
  refine parts_ofList hparts ?_
  split_ifs with hup
  · simp [hup]
  · simp [hstem, hslash]

/-- Once the extension has been exchanged, it is the one that was put on, or else the path leads to
the folder above. -/
theorem extension?_withExtension {extension : String} (hparts : parts path = names ++ [name])
    (hname : name ≠ []) (hslash : '/' ∉ extension.toList) (hdot : '.' ∉ extension.toList) :
    parts (withExtension path extension) = names ++ [['.', '.']] ∨
      extension? (withExtension path extension) = some extension := by
  have hchanged := parts_withExtension hparts hslash
  have hstem := splitName_ne_nil hname
  by_cases hup : (splitName name).1 = ['.']
  · left
    rw [hchanged, if_pos hup, hup]
    rfl
  · right
    rw [if_neg hup] at hchanged
    rw [extension?, fileName?_of_isName hchanged (isName_dot hstem hup), Option.bind_some,
      splitName_dot hstem hdot]
    simp

end Path

namespace FileTree

variable {tree tree' : FileTree} {place reached : Place} {node : Node} {path : String}
  {bytes : List UInt8}

/-! ### Putting something at a place -/

lemma lookup_replace (entries : List (Place × Node)) (place other : Place) (node : Node) :
    (entries.map fun entry => if entry.1 = place then (place, node) else entry).lookup other =
      if other = place then (entries.lookup other).map fun _ => node else entries.lookup other := by
  induction entries with
  | nil => simp
  | cons entry entries ih =>
    rw [List.map_cons, List.lookup_cons, List.lookup_cons, ih]
    by_cases hentry : entry.1 = place
    · by_cases hother : other = place
      · simp [hentry, hother]
      · have hkey : (other == place) = false := beq_eq_false_iff_ne.mpr hother
        simp [hentry, hother, hkey]
    · by_cases hother : other = place
      · have hkey : (place == entry.1) = false := beq_eq_false_iff_ne.mpr (Ne.symm hentry)
        simp [hentry, hother, hkey]
      · simp [hentry, hother]

theorem lookup_insert (tree : FileTree) (place other : Place) (node : Node) :
    (tree.insert place node).entries.lookup other =
      if other = place then some node else tree.entries.lookup other := by
  unfold insert
  split_ifs with hthere hother hother
  · obtain ⟨old, hold⟩ := Option.isSome_iff_exists.mp hthere
    rw [lookup_replace, if_pos hother, hother, hold, Option.map_some]
  · rw [lookup_replace, if_neg hother]
  · have hnone := Option.not_isSome_iff_eq_none.mp hthere
    rw [hother, List.lookup_append, hnone]
    simp
  · have hkey : (other == place) = false := beq_eq_false_iff_ne.mpr hother
    rw [List.lookup_append, List.lookup_cons, hkey, List.lookup_nil, Option.or_none]

@[simp] theorem node?_insert_self (tree : FileTree) (place : Place) (node : Node) :
    (tree.insert place node).node? place = some node := by
  rw [node?, lookup_insert, if_pos rfl]

/-- Places are only added. -/
lemma exists_mem_insert {entry : Place × Node} (h : entry ∈ tree.entries) (place : Place)
    (node : Node) : ∃ entry' ∈ (tree.insert place node).entries, entry'.1 = entry.1 := by
  unfold insert
  split_ifs with hthere
  · refine ⟨_, List.mem_map_of_mem h, ?_⟩
    split_ifs with hentry
    · exact hentry.symm
    · rfl
  · exact ⟨entry, List.mem_append_left _ h, rfl⟩

/-- Whatever is a folder in one tree is a folder in the other. -/
def KeepsFolders (tree tree' : FileTree) : Prop :=
  ∀ place, tree.node? place = some .folder → tree'.node? place = some .folder

/-- What is put where no folder is takes no folder away. -/
theorem keepsFolders_insert (h : tree.node? place ≠ some .folder) (node : Node) :
    tree.KeepsFolders (tree.insert place node) := by
  intro other hother
  have hne : other ≠ place := fun heq => h (heq ▸ hother)
  unfold node? at hother ⊢
  rw [lookup_insert, if_neg hne]
  cases hlookup : tree.entries.lookup other with
  | some found =>
    rw [hlookup] at hother
    exact hother
  | none =>
    -- nothing was put there, so it is the root or on the way to an entry
    rw [hlookup] at hother
    simp only [ite_eq_left_iff, reduceCtorEq, imp_false, not_not, Bool.or_eq_true,
      decide_eq_true_eq, List.any_eq_true] at hother ⊢
    rcases hother with hroot | ⟨entry, hmem, hbelow⟩
    · exact .inl hroot
    · obtain ⟨entry', hmem', heq⟩ := exists_mem_insert hmem place node
      exact .inr ⟨entry', hmem', heq ▸ hbelow⟩

/-! ### Following a path -/

theorem walk_append (tree : FileTree) (place : Place) (parts more : List (List Char)) :
    tree.walk place (parts ++ more) =
      (tree.walk place parts).bind fun reached => tree.walk reached more := by
  induction parts generalizing place with
  | nil => rfl
  | cons part parts ih =>
    simp only [List.cons_append, walk, ih]
    split
    · rfl
    · split_ifs <;> rfl
    · rfl

/-- The part that stays where it is needs a folder there. -/
lemma walk_stay {parts : List (List Char)} {part : List Char} (hpart : part = [] ∨ part = ['.'])
    (h : tree.walk place (parts ++ [part]) = .ok reached) :
    tree.walk place parts = .ok reached ∧ tree.node? reached = some .folder := by
  rw [walk_append] at h
  obtain ⟨last, hwalk, hstay⟩ := bind_ok_iff.mp h
  rw [walk] at hstay
  split at hstay
  · cases hstay
  · next hfolder =>
    rw [if_pos (by simpa using hpart)] at hstay
    cases hstay
    exact ⟨hwalk, hfolder⟩
  · cases hstay

lemma follow_ok_iff {parts : List (List Char)} : tree.follow path parts = .ok reached ↔
    Path.isTooLong path = false ∧ tree.walk (origin path) parts = .ok reached := by
  unfold follow
  split_ifs with hlong
  · simp [hlong]
  · simp [hlong]

theorem KeepsFolders.walk (h : tree.KeepsFolders tree') {parts : List (List Char)}
    (hwalk : tree.walk place parts = .ok reached) : tree'.walk place parts = .ok reached := by
  induction parts generalizing place with
  | nil => exact hwalk
  | cons part parts ih =>
    rw [FileTree.walk] at hwalk ⊢
    split at hwalk
    · cases hwalk
    · next hfolder =>
      rw [h place hfolder]
      dsimp only
      split_ifs at hwalk ⊢
      · exact ih hwalk
      · exact ih hwalk
      · exact ih hwalk
    · cases hwalk

/-- A path leads to a name in a folder. -/
structure Leads (tree : FileTree) (path : String) (folder : Place) (name : List Char) : Prop where
  names : ∃ names, Path.parts path = names ++ [name] ∧ tree.walk (origin path) names = .ok folder
  isName : Path.IsName name
  isFolder : tree.node? folder = some .folder
  short : Path.isTooLong path = false
  shortName : Path.isTooLongName name = false

namespace Leads

variable {folder : Place} {name : List Char}

lemma keep (h : tree.Leads path folder name) (hkeeps : tree.KeepsFolders tree') :
    tree'.Leads path folder name := by
  obtain ⟨names, hparts, hwalk⟩ := h.names
  exact ⟨⟨names, hparts, hkeeps.walk hwalk⟩, h.isName, hkeeps _ h.isFolder, h.short, h.shortName⟩

lemma follow (h : tree.Leads path folder name) :
    tree.follow path (Path.parts path) = .ok (folder ++ [name]) := by
  obtain ⟨names, hparts, hwalk⟩ := h.names
  have hlast : tree.walk folder [name] = .ok (folder ++ [name]) := by
    simp [walk, h.isFolder, h.isName.1, h.isName.2.1, h.isName.2.2, h.shortName]
  rw [follow_ok_iff, hparts, walk_append, hwalk]
  exact ⟨h.short, hlast⟩

lemma read (h : tree.Leads path folder name)
    (hfile : tree.node? (folder ++ [name]) = some (.file bytes)) : tree.read path = .ok bytes := by
  have hfind : tree.find path = .ok (.file bytes) := by
    rw [find, h.follow]
    dsimp only [bind, Except.bind]
    rw [hfile]
  rw [FileTree.read, hfind]
  rfl

end Leads

/-- What is written to ends in a name, and the folder of that name is there. -/
theorem leads_of_target (h : tree.target path = .ok place) :
    ∃ folder name, tree.Leads path folder name ∧ place = folder ++ [name] := by
  obtain ⟨names, name, hparts⟩ := Path.exists_parts path
  obtain ⟨folder, hfollow, hplace⟩ := bind_ok_iff.mp h
  rw [hparts, List.reverse_append, List.reverse_singleton, List.singleton_append] at hfollow hplace
  by_cases hname : name = []
  · -- without the closing slashes there are fewer parts than before
    have hfewer := (List.dropWhile_sublist (l := names.reverse)
      (fun part : List Char => decide (part = []))).length_le
    have hslash : ((names ++ [name]).length !=
        (names.reverse.dropWhile fun part => part = []).length) = true := by
      rw [List.length_reverse] at hfewer
      rw [List.length_append, List.length_singleton, bne_iff_ne]
      omega
    rw [List.dropWhile_cons_of_pos (by simpa using hname), hslash] at hplace
    split at hplace
    · cases hplace
    · simp at hplace
  · -- no part is dropped, and the folder is where the parts in front of the name lead
    have hall : ((names ++ [name]).length != (name :: names.reverse).length) = false := by simp
    rw [List.dropWhile_cons_of_neg (by simpa using hname)] at hfollow hplace
    rw [List.tail_cons, List.reverse_reverse] at hfollow
    obtain ⟨hshort, hwalk⟩ := follow_ok_iff.mp hfollow
    obtain ⟨hwalk, hfolder⟩ := walk_stay (.inr rfl) hwalk
    rw [hall] at hplace
    dsimp only [List.head?_cons] at hplace
    split_ifs at hplace with hdots hlong
    cases hplace
    rw [Bool.false_or, Bool.or_eq_true, decide_eq_true_eq, decide_eq_true_eq, not_or] at hdots
    refine ⟨folder, name, ⟨⟨names, hparts, hwalk⟩, ⟨hname, hdots⟩, hfolder, hshort, ?_⟩, rfl⟩
    simpa using hlong

/-! ### Reading what was written -/

/-- A path to a file, or to a name that is free in its folder. -/
def Accepts (tree : FileTree) (path : String) : Prop :=
  ∃ place, tree.target path = .ok place ∧
    (tree.node? place = none ∨ ∃ bytes, tree.node? place = some (.file bytes))

/-- What is written to a path that can be written to is read from it again. -/
theorem Accepts.write (h : tree.Accepts path) (bytes : List UInt8) (out err : String) :
    ∃ tree', Session.write ⟨tree, out, err⟩ path bytes = .ok ⟨tree', out, err⟩ ∧
      tree'.read path = .ok bytes := by
  obtain ⟨place, htarget, hplace⟩ := h
  obtain ⟨folder, name, hleads, rfl⟩ := leads_of_target htarget
  have hfree : tree.node? (folder ++ [name]) ≠ some .folder := by
    rcases hplace with hplace | ⟨old, hplace⟩
    · simp [hplace]
    · simp [hplace]
  refine ⟨tree.insert (folder ++ [name]) (.file bytes), ?_, ?_⟩
  · unfold Session.write
    rw [htarget]
    dsimp only [bind, Except.bind]
    rcases hplace with hplace | ⟨old, hplace⟩
    · rw [hplace]
    · rw [hplace]
  · exact (hleads.keep (keepsFolders_insert hfree _)).read (node?_insert_self _ _ _)

/-- A path that ends in a slash leads to a folder, from which nothing is read. -/
lemma name_ne_nil_of_read {names : List (List Char)} {name : List Char}
    (hparts : Path.parts path = names ++ [name]) (h : tree.read path = .ok bytes) : name ≠ [] := by
  rintro rfl
  obtain ⟨node, hfind, hnode⟩ := bind_ok_iff.mp h
  obtain ⟨place, hfollow, hplace⟩ := bind_ok_iff.mp hfind
  rw [hparts] at hfollow
  obtain ⟨-, hfolder⟩ := walk_stay (.inl rfl) (follow_ok_iff.mp hfollow).2
  rw [hfolder] at hplace
  cases hplace
  cases hnode

/-- The file next to a readable one, with another extension, has that extension if it can be written
to. -/
theorem extension?_withExtension {extension : String} (hread : tree.read path = .ok bytes)
    (haccepts : tree.Accepts (Path.withExtension path extension))
    (hslash : '/' ∉ extension.toList) (hdot : '.' ∉ extension.toList) :
    Path.extension? (Path.withExtension path extension) = some extension := by
  obtain ⟨names, name, hparts⟩ := Path.exists_parts path
  rcases Path.extension?_withExtension hparts (name_ne_nil_of_read hparts hread) hslash hdot with
    hup | hext
  · -- the folder above is not written to
    obtain ⟨place, htarget, -⟩ := haccepts
    obtain ⟨folder, last, hleads, -⟩ := leads_of_target htarget
    obtain ⟨front, hfront, -⟩ := hleads.names
    have hlast : last = ['.', '.'] := by
      rw [hup] at hfront
      simpa using (List.append_inj' hfront rfl).2.symm
    exact absurd hlast hleads.isName.2.2
  · exact hext

end FileTree

end Octet
