import FuzzyInference.Rule.Token
import FuzzyInference.Text.LowerCase

/-! Lower-casing as look-ups by name rely on it: the case of ASCII letters has no effect, a text of
word characters stays one, and a text in ASCII stands for its own spellings only, unless a Kelvin
sign hides in it. -/

namespace FuzzyInference.Text

/-! ## The case of ASCII letters -/

theorem toLower_eq_or_capital (c : Char) : c.toLower = c ∨ ∃ n < 26, c = Char.ofNat (65 + n) := by
  by_cases h : 65 ≤ c.toNat ∧ c.toNat ≤ 90
  · refine .inr ⟨c.toNat - 65, by omega, ?_⟩
    rw [Nat.add_sub_cancel' h.1, Char.ofNat_toNat]
  · refine .inl ?_
    have hne : ¬ (c.val ≥ 'A'.val ∧ c.val ≤ 'Z'.val) := by
      simpa [UInt32.le_iff_toNat_le] using h
    exact dif_neg hne

/-- What holds of the capitals A to Z holds of every character. -/
theorem apply_toLower {β : Type} (f : Char → β)
    (h : ∀ n < 26, f (Char.ofNat (65 + n)).toLower = f (Char.ofNat (65 + n))) (c : Char) :
    f c.toLower = f c := by
  rcases toLower_eq_or_capital c with hc | ⟨n, hn, rfl⟩
  · rw [hc]
  · exact h n hn

@[simp] theorem lowerChar_toLower (c : Char) : lowerChar c.toLower = lowerChar c :=
  apply_toLower lowerChar (by decide +kernel) c

@[simp] theorem isIgnorable_toLower (c : Char) : isIgnorable c.toLower = isIgnorable c :=
  apply_toLower isIgnorable (by decide +kernel) c

@[simp] theorem isCased_toLower (c : Char) : isCased c.toLower = isCased c :=
  apply_toLower isCased (by decide +kernel) c

/-- A character that is no letter is the lower-case form of itself alone. -/
theorem toLower_eq_iff {d : Char} (hd : d.isAlpha = false) (c : Char) : c.toLower = d ↔ c = d := by
  rcases toLower_eq_or_capital c with hc | ⟨n, hn, rfl⟩
  · rw [hc]
  · have halpha : ∀ n < 26, (Char.ofNat (65 + n)).isAlpha = true ∧
        (Char.ofNat (65 + n)).toLower.isAlpha = true := by decide +kernel
    have hcapital := halpha n hn
    constructor
    · intro heq
      rw [← heq, hcapital.2] at hd
      cases hd
    · intro heq
      rw [← heq, hcapital.1] at hd
      cases hd

@[simp] theorem opensCased_map_toLower (cs : List Char) :
    opensCased (cs.map Char.toLower) = opensCased cs := by
  induction cs with
  | nil => rfl
  | cons c cs ih =>
      by_cases h : isIgnorable c = true
      · simpa [opensCased, h] using ih
      · simp [opensCased, h]

/-- Neither the text nor what stands before it needs its ASCII capitals. -/
theorem lowerFrom_map_toLower (before cs : List Char) :
    lowerFrom (before.map Char.toLower) (cs.map Char.toLower) = lowerFrom before cs := by
  induction cs generalizing before with
  | nil => rfl
  | cons c cs ih =>
      simp only [List.map_cons, lowerFrom, lowerChar_toLower, opensCased_map_toLower,
        toLower_eq_iff (d := 'Σ') (by decide)]
      rw [← ih (c :: before), List.map_cons]

/-- Texts that differ in the case of ASCII letters only are lowered alike. -/
theorem lowerCase_eq_of_caseKey {s t : String} (h : caseKey s = caseKey t) :
    lowerCase s = lowerCase t := by
  have hs := lowerFrom_map_toLower [] s.toList
  have ht := lowerFrom_map_toLower [] t.toList
  unfold caseKey at h
  rw [lowerCase, lowerCase, ← hs, ← ht, h]

/-! ## Letters beyond ASCII -/

/-- No blank lies between two code points. -/
def blankFree (first last : Nat) : Bool :=
  blankRanges.all fun (a, b) => decide (last < a) || decide (b < first)

/-- The capitals of a run and their counterparts are no blanks, and the counterparts are characters
beyond ASCII or the letter k. -/
def cleanRun (first last : Nat) (offset : Int) : Bool :=
  let low := (first + offset).toNat
  let high := (last + offset).toNat
  blankFree first last && blankFree low high && (decide (127 < low) || decide (low = 107 ∧ high = 107))
    && (decide (high < 0xD800) || decide (0xDFFF < low ∧ high < 0x110000))

theorem lowerRuns_clean : ∀ run ∈ lowerRuns, cleanRun run.1 run.2.1 run.2.2.2 = true := by
  decide +kernel

theorem isBlank_of_blankFree {first last : Nat} (h : blankFree first last = true) {c : Char}
    (hfirst : first ≤ c.toNat) (hlast : c.toNat ≤ last) : isBlank c = false := by
  simp only [blankFree, List.all_eq_true, Bool.or_eq_true, decide_eq_true_eq] at h
  simp only [isBlank, List.any_eq_false, Bool.and_eq_true, decide_eq_true_eq, not_and]
  intro range hrange hge hle
  have := h range hrange
  omega

theorem toNat_ofNat_of_valid {n : Nat} (h : n < 0xD800 ∨ 0xDFFF < n ∧ n < 0x110000) :
    (Char.ofNat n).toNat = n := by
  have hvalid : n.isValidChar := h
  rw [Char.ofNat, dif_pos hvalid]
  rfl

/-- Lowering a character beyond ASCII gives the character itself, the dotted letter i, or a
character that is no blank and beyond ASCII or k. -/
theorem lowerChar_cases {c : Char} (hc : 128 ≤ c.toNat) :
    lowerChar c = [c] ∨ (c = 'İ' ∧ lowerChar c = ['i', '\u0307']) ∨
      ∃ x, lowerChar c = [x] ∧ isBlank c = false ∧ isBlank x = false ∧
        (128 ≤ x.toNat ∨ x = 'k') := by
  have hascii : ¬ c.toNat < 128 := by omega
  by_cases hdotted : c = 'İ'
  · subst hdotted
    exact .inr (.inl ⟨rfl, by decide⟩)
  · simp only [lowerChar, if_neg hascii, if_neg hdotted]
    split
    · rename_i first last step offset hrun
      refine .inr (.inr ⟨_, rfl, ?_⟩)
      have hmem := List.mem_of_find?_eq_some hrun
      have hrange := List.find?_some hrun
      have hclean := lowerRuns_clean _ hmem
      simp only [Bool.and_eq_true, decide_eq_true_eq] at hrange
      simp only [cleanRun, Bool.and_eq_true, Bool.or_eq_true, decide_eq_true_eq] at hclean
      obtain ⟨⟨⟨hcapital, hletter⟩, hbeyond⟩, hvalid⟩ := hclean
      have hn : (Char.ofNat (c.toNat + offset).toNat).toNat = (c.toNat + offset).toNat :=
        toNat_ofNat_of_valid (by omega)
      refine ⟨isBlank_of_blankFree hcapital hrange.1.1 hrange.1.2,
        isBlank_of_blankFree hletter (by omega) (by omega), ?_⟩
      rcases hbeyond with hbeyond | hk
      · exact .inl (by omega)
      · refine .inr ?_
        rw [← Char.toNat_inj, hn]
        change (c.toNat + offset).toNat = 107
        omega
    · exact .inl rfl

/-- What one character of a text becomes, given the text before it, nearest first, and behind it. -/
def lowerAt (before : List Char) (c : Char) (rest : List Char) : List Char :=
  if c = 'Σ' then [if opensCased before && !opensCased rest then 'ς' else 'σ'] else lowerChar c

theorem lowerFrom_cons (before : List Char) (c : Char) (rest : List Char) :
    lowerFrom before (c :: rest) = lowerAt before c rest ++ lowerFrom (c :: before) rest := rfl

theorem lowerAt_ascii {c : Char} (hc : c.toNat < 128) (before rest : List Char) :
    lowerAt before c rest = [c.toLower] := by
  have hsigma : c ≠ 'Σ' := by
    rintro rfl
    exact absurd hc (by decide)
  rw [lowerAt, if_neg hsigma, lowerChar, if_pos hc]

/-- Beyond ASCII, lowering leaves some character beyond ASCII or ends in k. -/
theorem exists_mem_lowerAt {c : Char} (hc : 128 ≤ c.toNat) (before rest : List Char) :
    ∃ x ∈ lowerAt before c rest, 128 ≤ x.toNat ∨ x = 'k' := by
  by_cases hsigma : c = 'Σ'
  · rw [lowerAt, if_pos hsigma]
    refine ⟨_, List.mem_singleton_self _, .inl ?_⟩
    split <;> decide
  · rw [lowerAt, if_neg hsigma]
    rcases lowerChar_cases hc with h | ⟨-, h⟩ | ⟨x, h, -, -, hx⟩
    · exact ⟨c, by simp [h], .inl hc⟩
    · exact ⟨'\u0307', by simp [h], .inl (by decide)⟩
    · exact ⟨x, by simp [h], hx⟩

theorem lowerAt_ne_nil (before : List Char) (c : Char) (rest : List Char) :
    lowerAt before c rest ≠ [] := by
  by_cases hc : c.toNat < 128
  · simp [lowerAt_ascii hc]
  · obtain ⟨x, hx, -⟩ := exists_mem_lowerAt (Nat.le_of_not_lt hc) before rest
    exact List.ne_nil_of_mem hx

theorem isWordChar_of_beyond {c : Char} (hc : 128 ≤ c.toNat) :
    Rule.isWordChar c = !isBlank c := by
  have hcomma : c ≠ ',' := by
    rintro rfl
    exact absurd hc (by decide)
  simp [Rule.isWordChar, hcomma]

/-- Lowering makes no word character of another one, nor the other way round. -/
theorem isWordChar_of_mem_lowerAt {c x : Char} {before rest : List Char}
    (hx : x ∈ lowerAt before c rest) : Rule.isWordChar x = Rule.isWordChar c := by
  by_cases hc : c.toNat < 128
  · rw [lowerAt_ascii hc, List.mem_singleton] at hx
    rw [hx]
    exact apply_toLower Rule.isWordChar (by decide +kernel) c
  · replace hc := Nat.le_of_not_lt hc
    by_cases hsigma : c = 'Σ'
    · rw [lowerAt, if_pos hsigma, List.mem_singleton] at hx
      subst hx hsigma
      split <;> decide
    · rw [lowerAt, if_neg hsigma] at hx
      rcases lowerChar_cases hc with h | ⟨rfl, h⟩ | ⟨y, h, hblank, hy, hbeyond⟩
      · rw [h, List.mem_singleton] at hx
        rw [hx]
      · rw [h, List.mem_cons, List.mem_singleton] at hx
        rcases hx with rfl | rfl <;> decide
      · rw [h, List.mem_singleton] at hx
        rw [hx, isWordChar_of_beyond hc, hblank]
        rcases hbeyond with hbeyond | rfl
        · rw [isWordChar_of_beyond hbeyond, hy]
        · decide

/-! ## Whole texts -/

theorem lowerFrom_eq_nil {before cs : List Char} (h : lowerFrom before cs = []) : cs = [] := by
  cases cs with
  | nil => rfl
  | cons c rest =>
      rw [lowerFrom_cons, List.append_eq_nil_iff] at h
      exact absurd h.1 (lowerAt_ne_nil before c rest)

/-- A text consists of word characters if and only if its lower-case form does. -/
theorem forall_isWordChar_lowerFrom (before cs : List Char) :
    (∀ x ∈ lowerFrom before cs, Rule.isWordChar x = true) ↔
      ∀ c ∈ cs, Rule.isWordChar c = true := by
  induction cs generalizing before with
  | nil => simp [lowerFrom]
  | cons c rest ih =>
      rw [lowerFrom_cons, List.forall_mem_append, ih, List.forall_mem_cons]
      apply and_congr_left
      intro _
      constructor
      · intro h
        obtain ⟨x, hx⟩ := List.exists_mem_of_ne_nil _ (lowerAt_ne_nil before c rest)
        rw [← isWordChar_of_mem_lowerAt hx]
        exact h x hx
      · intro h x hx
        rw [isWordChar_of_mem_lowerAt hx, h]

/-- A lower-case form in ASCII without the letter k comes from ASCII letters alone, as Kelvin is the
only sign beyond ASCII that is lowered into ASCII whole. -/
theorem lowerFrom_eq_map_toLower {before cs : List Char}
    (h : ∀ x ∈ lowerFrom before cs, x.toNat < 128 ∧ x ≠ 'k') :
    lowerFrom before cs = cs.map Char.toLower := by
  induction cs generalizing before with
  | nil => rfl
  | cons c rest ih =>
      rw [lowerFrom_cons, List.forall_mem_append] at h
      obtain ⟨hhead, htail⟩ := h
      have hc : c.toNat < 128 := by
        apply Nat.lt_of_not_le
        intro hc
        obtain ⟨x, hx, hbeyond⟩ := exists_mem_lowerAt hc before rest
        have := hhead x hx
        rcases hbeyond with hbeyond | hk
        · omega
        · exact this.2 hk
      rw [lowerFrom_cons, lowerAt_ascii hc, ih htail, List.map_cons, List.singleton_append]

theorem lowerFrom_ascii {before cs : List Char} (h : ∀ c ∈ cs, c.toNat < 128) :
    lowerFrom before cs = cs.map Char.toLower := by
  induction cs generalizing before with
  | nil => rfl
  | cons c rest ih =>
      rw [List.forall_mem_cons] at h
      rw [lowerFrom_cons, lowerAt_ascii h.1, ih h.2, List.map_cons, List.singleton_append]

theorem toNat_lt_of_toLower {c : Char} (h : c.toLower.toNat < 128) : c.toNat < 128 := by
  rcases toLower_eq_or_capital c with hc | ⟨n, hn, rfl⟩
  · rwa [hc] at h
  · rw [toNat_ofNat_of_valid (by omega)]
    omega

/-- Two names that look-ups take for the same are spellings of one ASCII word, if one of them is and
the word has no k. -/
theorem caseKey_eq_of_lowerCase_eq {s t : String}
    (hs : ∀ x ∈ caseKey s, x.toNat < 128 ∧ x ≠ 'k') (h : lowerCase s = lowerCase t) :
    caseKey t = caseKey s := by
  have hlower : lowerFrom [] s.toList = lowerFrom [] t.toList := String.ofList_injective h
  have hascii : lowerFrom [] s.toList = caseKey s := by
    refine lowerFrom_ascii fun c hc => toNat_lt_of_toLower ?_
    exact (hs c.toLower (List.mem_map_of_mem hc)).1
  rw [← hascii, hlower]
  refine (lowerFrom_eq_map_toLower ?_).symm
  rwa [← hlower, hascii]

end FuzzyInference.Text
