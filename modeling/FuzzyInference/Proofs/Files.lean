import FuzzyInference.Files.Basic
import FuzzyInference.Proofs.Fallible

/-! What is read from a file is what was last written to it. -/

namespace FuzzyInference.Files

variable {files files' : Files} {place other : List String} {entry : Entry}

/-! ## Entries -/

theorem entry?_put_self (hplace : place ≠ []) : entry? (files.put place entry) place = some entry := by
  unfold entry?
  rw [if_neg hplace, put, Keyed.insert]
  rw [Keyed.get?_upsert_self Prod.fst place (fun _ => (place, entry)) fun _ _ => rfl]
  rfl

theorem entry?_put_of_ne (hne : other ≠ place) :
    entry? (files.put place entry) other = files.entry? other := by
  unfold entry?
  rw [put, Keyed.insert]
  rw [Keyed.get?_upsert_of_ne Prod.fst hne (fun _ => (place, entry)) fun _ _ => rfl]

theorem enter_eq_ok_iff : files.enter place = .ok () ↔ files.entry? place = some .directory := by
  unfold enter
  cases files.entry? place with
  | none => simp
  | some entry => cases entry <;> simp

/-- The root is a directory whatever the entries are. -/
theorem ne_nil_of_not_directory (h : files.entry? place ≠ some .directory) : place ≠ [] := by
  intro hroot
  rw [hroot] at h
  exact h rfl

/-! ## Paths -/

/-- A way through directories stays open when something is put where no directory stands. -/
theorem follow_put (hplace : files.entry? place ≠ some .directory) {start : List String}
    {parts : List String} {goal : List String} (h : files.follow start parts = .ok goal) :
    (files.put place entry).follow start parts = .ok goal := by
  induction parts generalizing start with
  | nil => exact h
  | cons part rest ih =>
      rw [follow, bind_eq_ok] at h ⊢
      obtain ⟨⟨⟩, hdirectory, h⟩ := h
      refine ⟨(), ?_, ?_⟩
      · rw [enter_eq_ok_iff] at hdirectory ⊢
        rw [entry?_put_of_ne, hdirectory]
        intro hsame
        rw [hsame] at hdirectory
        exact hplace hdirectory
      · split at h
        · cases h
        · rename_i hsize
          rw [if_neg hsize]
          exact ih h

/-- Writing puts the bytes at the place that the path leads to. -/
theorem write_eq_ok {path : String} {content : ByteArray}
    (h : files.write path content = .ok files') :
    ∃ start place, files.origin path = .ok start ∧ Path.ending path = .name ∧
      files.follow start (Path.parts path) = .ok place ∧ files.entry? place ≠ some .directory ∧
      files' = files.put place (.file content) := by
  rw [write, bind_eq_ok] at h
  obtain ⟨start, hstart, h⟩ := h
  cases hending : Path.ending path with
  | name =>
      simp only [hending, bind_eq_ok] at h
      obtain ⟨place, hfollow, h⟩ := h
      refine ⟨start, place, hstart, rfl, hfollow, ?_⟩
      split at h
      · cases h
      · rename_i hplace
        cases h
        exact ⟨hplace, rfl⟩
  | slash | dots =>
      simp only [hending, bind_eq_ok, reduceCtorEq, and_false, exists_false] at h

/-! ## Reading after writing -/

/-- A file that was written holds the bytes written to it. -/
theorem readBytes_write {path : String} {content : ByteArray}
    (h : files.write path content = .ok files') : files'.readBytes path = .ok content := by
  obtain ⟨start, place, hstart, hending, hfollow, hplace, rfl⟩ := write_eq_ok h
  have hentry : entry? (files.put place (.file content)) place = some (.file content) :=
    entry?_put_self (ne_nil_of_not_directory hplace)
  have hfind : (files.put place (.file content)).find path = .ok (.file content) := by
    rw [find, bind_eq_ok]
    refine ⟨start, hstart, ?_⟩
    rw [bind_eq_ok]
    refine ⟨place, follow_put hplace hfollow, ?_⟩
    simp only [hentry, hending, if_true]
  rw [readBytes, bind_eq_ok]
  exact ⟨_, hfind, rfl⟩

/-- A text that was written is read back as it was. -/
theorem readText_writeText {path text : String} (h : files.writeText path text = .ok files') :
    files'.readText path = .ok text := by
  have htext : String.fromUTF8? text.toUTF8 = some text := by
    rw [String.toUTF8_eq_toByteArray, String.fromUTF8?, dif_pos text.isValidUTF8]
    rfl
  rw [readText, bind_eq_ok]
  refine ⟨_, readBytes_write h, ?_⟩
  simp only [htext]

end FuzzyInference.Files
