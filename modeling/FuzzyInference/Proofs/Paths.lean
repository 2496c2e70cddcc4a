import FuzzyInference.Proofs.Files
import Mathlib.Data.List.Induction

/-! Paths from the working directory. A relative path and the absolute path that is made of it lead to
the same place, so what can be read under the absolute path can be read under the relative one. -/

namespace FuzzyInference

/-! ## Parts -/

namespace Path

/-- A part that names an entry of the directory it stands in, so not that directory nor the one above
it. -/
def IsName (part : String) : Prop := part ≠ "" ∧ part ≠ "." ∧ part ≠ ".." ∧ '/' ∉ part.toList

instance (part : String) : Decidable (IsName part) := inferInstanceAs (Decidable (_ ∧ _ ∧ _ ∧ _))

/-- Names with a slash behind each, as they stand in front of what they lead to. -/
def way (names : List String) : List Char := names.flatMap fun name => name.toList ++ ['/']

theorem IsName.toList_ne {name : String} (h : IsName name) :
    name.toList ≠ [] ∧ name.toList ≠ ['.'] :=
  ⟨fun hname => h.1 (String.toList_inj.mp hname), fun hname => h.2.1 (String.toList_inj.mp hname)⟩

theorem splitParts_append_slash {part : List Char} (hpart : '/' ∉ part) (rest : List Char) :
    splitParts (part ++ '/' :: rest) = part :: splitParts rest := by
  induction part with
  | nil => simp [splitParts]
  | cons c part ih =>
      rw [List.mem_cons, not_or] at hpart
      rw [List.cons_append, splitParts, if_neg (Ne.symm hpart.1), ih hpart.2]

variable {names : List String} {path : String}

theorem splitParts_way (hnames : ∀ name ∈ names, IsName name) (rest : List Char) :
    splitParts (way names ++ rest) = names.map String.toList ++ splitParts rest := by
  induction names with
  | nil => rfl
  | cons name names ih =>
      rw [List.forall_mem_cons] at hnames
      obtain ⟨-, -, -, hslash⟩ := hnames.1
      rw [way, List.flatMap_cons, List.append_assoc, List.append_assoc, List.singleton_append,
        splitParts_append_slash hslash]
      exact congrArg (name.toList :: ·) (ih hnames.2)

/-- A path that begins with a character other than a slash has a part that is not empty. -/
theorem filter_splitParts_ne_nil {c : Char} (hc : c ≠ '/') (rest : List Char) :
    (splitParts (c :: rest)).filter (· ≠ []) ≠ [] := by
  rw [splitParts, if_neg hc]
  cases splitParts rest <;> simp

/-- Joined by slashes, names end in the last of them. -/
theorem exists_last_name (hnames : ∀ name ∈ names, IsName name) (hne : names ≠ []) :
    ∃ front last, IsName last ∧ ("/".intercalate names).toList = front ++ last.toList ∧
      way names = front ++ last.toList ++ ['/'] := by
  induction names with
  | nil => exact absurd rfl hne
  | cons name names ih =>
      rw [List.forall_mem_cons] at hnames
      cases names with
      | nil => exact ⟨[], name, hnames.1, by simp, by simp [way]⟩
      | cons next names =>
          obtain ⟨front, last, hlast, hjoined, hway⟩ := ih hnames.2 (by simp)
          refine ⟨name.toList ++ '/' :: front, last, hlast, ?_, ?_⟩
          · rw [String.toList_intercalate] at hjoined ⊢
            simpa using hjoined
          · rw [way, List.flatMap_cons, ← way, hway]
            simp

theorem getLast?_ne_slash {name : String} (h : IsName name) (front : List Char) :
    (front ++ name.toList).getLast? ≠ some '/' := by
  obtain ⟨hne, -, -, hslash⟩ := h
  rw [List.getLast?_append_of_ne_nil _ (by simpa using hne)]
  exact fun hlast => hslash (List.mem_of_getLast? hlast)

/-- Behind the root, a way to a directory ends in a slash. -/
theorem getLast?_way (names : List String) : ('/' :: way names).getLast? = some '/' := by
  induction names using List.reverseRec with
  | nil => rfl
  | append_singleton names name _ =>
      have hway : '/' :: way (names ++ [name]) = ('/' :: way names ++ name.toList) ++ ['/'] := by
        simp [way]
      rw [hway, List.getLast?_concat]

theorem ending_ne_name (h : path.toList.getLast? = some '/') : ending path ≠ .name := by
  unfold ending
  split <;> simp [h]

end Path

/-! ## The absolute path -/

namespace Files

variable {files : Files} {path : String}

/-- The working directory is given by the names on the way to it, as a directory that one is in is. -/
def Placed (files : Files) : Prop := ∀ part ∈ files.workingDirectory, Path.IsName part

instance (files : Files) : Decidable files.Placed :=
  inferInstanceAs (Decidable (∀ part ∈ files.workingDirectory, Path.IsName part))

theorem exists_absolute (files : Files) (path : String) :
    ∃ front, files.absolute path = front ++ path := by
  unfold absolute Path.join
  split
  · exact ⟨"", by simp⟩
  · split
    · exact ⟨_, rfl⟩
    · exact ⟨_, rfl⟩

theorem isEmpty_root (names : List String) : ("/" ++ "/".intercalate names).isEmpty = false := by
  rw [Bool.eq_false_iff, Ne, String.isEmpty_iff]
  simp

theorem isAbsolute_absolute (files : Files) (path : String) :
    Path.isAbsolute (files.absolute path) = true := by
  unfold absolute Path.join
  split
  · rename_i h
    rwa [isEmpty_root, Bool.or_false] at h
  · split <;> simp [Path.isAbsolute]

theorem toList_absolute (hplaced : files.Placed) (hrelative : Path.isAbsolute path = false) :
    (files.absolute path).toList = '/' :: (Path.way files.workingDirectory ++ path.toList) := by
  unfold absolute Path.join
  rw [hrelative, isEmpty_root, Bool.or_self, if_neg Bool.false_ne_true]
  by_cases hempty : files.workingDirectory = []
  · simp [hempty, Path.way]
  · obtain ⟨front, last, hlast, hjoined, hway⟩ := Path.exists_last_name hplaced hempty
    have hdirectory : ("/" ++ "/".intercalate files.workingDirectory).toList =
        ('/' :: front) ++ last.toList := by simp [hjoined]
    have hslash := Path.getLast?_ne_slash hlast ('/' :: front)
    rw [hdirectory, if_neg (by simpa using hslash), String.toList_append, String.toList_append,
      hdirectory, hway]
    simp

theorem splitParts_absolute (hplaced : files.Placed) (hrelative : Path.isAbsolute path = false) :
    Path.splitParts (files.absolute path).toList =
      [] :: (files.workingDirectory.map String.toList ++ Path.splitParts path.toList) := by
  rw [toList_absolute hplaced hrelative, Path.splitParts, if_pos rfl, Path.splitParts_way hplaced]

theorem parts_absolute (hplaced : files.Placed) (hrelative : Path.isAbsolute path = false) :
    Path.parts (files.absolute path) = files.workingDirectory ++ Path.parts path := by
  have hnames : (files.workingDirectory.map String.toList).filter
      (fun p => p ≠ [] ∧ p ≠ ['.']) = files.workingDirectory.map String.toList := by
    rw [List.filter_eq_self, List.forall_mem_map]
    exact fun name hname => decide_eq_true (hplaced name hname).toList_ne
  rw [Path.parts, splitParts_absolute hplaced hrelative, List.filter_cons_of_neg (by simp),
    List.filter_append, hnames, List.map_append, List.map_map, Path.parts]
  simp [Function.comp_def]

theorem ending_absolute (hplaced : files.Placed) (hrelative : Path.isAbsolute path = false)
    (hne : path ≠ "") : Path.ending (files.absolute path) = Path.ending path := by
  have hchars : path.toList ≠ [] := by simpa using hne
  have hparts : (Path.splitParts path.toList).filter (· ≠ []) ≠ [] := by
    obtain ⟨c, rest, hpath⟩ := List.exists_cons_of_ne_nil hchars
    rw [Path.isAbsolute, hpath] at hrelative
    rw [hpath]
    exact Path.filter_splitParts_ne_nil (by simpa using hrelative) rest
  have hlast : (files.absolute path).toList.getLast? = path.toList.getLast? := by
    obtain ⟨front, habsolute⟩ := exists_absolute files path
    rw [habsolute, String.toList_append, List.getLast?_append_of_ne_nil _ hchars]
  rw [Path.ending, Path.ending, hlast, splitParts_absolute hplaced hrelative,
    List.filter_cons_of_neg (by simp), List.filter_append, List.getLast?_append_of_ne_nil _ hparts]

/-! ## Places -/

theorem follow_append (files : Files) (start ps qs : List String) :
    files.follow start (ps ++ qs) =
      files.follow start ps >>= fun place => files.follow place qs := by
  induction ps generalizing start with
  | nil => rfl
  | cons part ps ih =>
      rw [List.cons_append, follow, follow]
      cases files.enter start with
      | error e => rfl
      | ok u =>
          change (if _ then _ else _) = (if _ then _ else _) >>= _
          split
          · rfl
          · exact ih _

/-- Names lead down, each into the entry that it names. -/
theorem follow_names {names start place : List String}
    (hnames : ∀ name ∈ names, Path.IsName name) (h : files.follow start names = .ok place) :
    place = start ++ names := by
  induction names generalizing start with
  | nil =>
      cases h
      rw [List.append_nil]
  | cons name names ih =>
      rw [List.forall_mem_cons] at hnames
      rw [follow, bind_eq_ok] at h
      obtain ⟨-, -, h⟩ := h
      split at h
      · cases h
      · rw [if_neg hnames.1.2.2.1] at h
        rw [ih hnames.2 h, List.append_assoc, List.singleton_append]

theorem origin_eq_ok_iff {start : List String} : files.origin path = .ok start ↔
    '\x00' ∉ path.toList ∧ path.utf8ByteSize ≤ pathLimit ∧ path ≠ "" ∧
      start = if Path.isAbsolute path then [] else files.workingDirectory := by
  unfold origin
  split
  · rename_i hnul
    simp [hnul]
  · split
    · rename_i hsize
      simp [Nat.not_le_of_lt hsize]
    · split
      · rename_i hempty
        simp [String.isEmpty_iff.mp hempty]
      · rename_i hnul hsize hempty
        rw [String.isEmpty_iff] at hempty
        rw [Except.ok.injEq]
        constructor
        · rintro rfl
          exact ⟨hnul, Nat.le_of_not_lt hsize, hempty, rfl⟩
        · rintro ⟨-, -, -, rfl⟩
          rfl

theorem find_eq_ok_file_iff {content : ByteArray} : files.find path = .ok (.file content) ↔
    ∃ start place, files.origin path = .ok start ∧
      files.follow start (Path.parts path) = .ok place ∧
      files.entry? place = some (.file content) ∧ Path.ending path = .name := by
  simp only [find, bind_eq_ok]
  constructor
  · rintro ⟨start, hstart, place, hfollow, h⟩
    refine ⟨start, place, hstart, hfollow, ?_⟩
    cases hentry : files.entry? place with
    | none => simp [hentry] at h
    | some entry =>
        cases entry with
        | directory => simp [hentry] at h
        | file bytes =>
            simp only [hentry] at h
            split at h
            · cases h
              exact ⟨rfl, ‹_›⟩
            · cases h
  · rintro ⟨start, place, hstart, hfollow, hentry, hending⟩
    exact ⟨start, hstart, place, hfollow, by simp only [hentry, if_pos hending]⟩

theorem readText_eq_ok_iff {text : String} : files.readText path = .ok text ↔
    ∃ content, files.find path = .ok (.file content) ∧ String.fromUTF8? content = some text := by
  simp only [readText, readBytes, bind_eq_ok]
  constructor
  · rintro ⟨content, ⟨entry, hfind, hentry⟩, htext⟩
    cases entry with
    | directory => cases hentry
    | file bytes =>
        cases hentry
        refine ⟨content, hfind, ?_⟩
        split at htext
        · rename_i hutf8
          cases htext
          exact hutf8
        · cases htext
  · rintro ⟨content, hfind, hutf8⟩
    exact ⟨content, ⟨_, hfind, rfl⟩, by simp only [hutf8]⟩

/-- A file that is found by the absolute path is found by the relative one. -/
theorem find_of_absolute (hplaced : files.Placed) {content : ByteArray}
    (h : files.find (files.absolute path) = .ok (.file content)) :
    files.find path = .ok (.file content) := by
  cases hrelative : Path.isAbsolute path with
  | true => rwa [absolute, Path.join, hrelative, Bool.true_or, if_pos rfl] at h
  | false =>
      obtain ⟨start, place, hstart, hfollow, hentry, hending⟩ := find_eq_ok_file_iff.mp h
      obtain ⟨hnul, hsize, -, hroot⟩ := origin_eq_ok_iff.mp hstart
      rw [isAbsolute_absolute, if_pos rfl] at hroot
      rw [hroot, parts_absolute hplaced hrelative, follow_append, bind_eq_ok] at hfollow
      obtain ⟨directory, hway, hfollow⟩ := hfollow
      obtain rfl : directory = files.workingDirectory := follow_names hplaced hway
      have hne : path ≠ "" := by
        rintro rfl
        refine Path.ending_ne_name ?_ hending
        rw [toList_absolute hplaced hrelative]
        simpa using Path.getLast?_way files.workingDirectory
      rw [ending_absolute hplaced hrelative hne] at hending
      obtain ⟨front, habsolute⟩ := exists_absolute files path
      rw [habsolute] at hnul hsize
      rw [String.toList_append, List.mem_append, not_or] at hnul
      rw [String.utf8ByteSize_append] at hsize
      refine find_eq_ok_file_iff.mpr ⟨_, place, origin_eq_ok_iff.mpr ⟨hnul.2, by omega, hne, ?_⟩,
        hfollow, hentry, hending⟩
      rw [hrelative, if_neg Bool.false_ne_true]

/-- What a text file says is read by the relative path as by the absolute one. -/
theorem readText_of_absolute (hplaced : files.Placed) {text : String}
    (h : files.readText (files.absolute path) = .ok text) : files.readText path = .ok text := by
  obtain ⟨content, hfind, htext⟩ := readText_eq_ok_iff.mp h
  exact readText_eq_ok_iff.mpr ⟨content, find_of_absolute hplaced hfind, htext⟩

end Files

end FuzzyInference
