/-! Lists whose entries are found by a key. A new key goes to the end, a known key keeps its place,
so the order is that in which the keys first appeared. -/

namespace FuzzyInference.Keyed

variable {κ β : Type} [DecidableEq κ] (key : β → κ)

/-- The first entry with the key. -/
def get? (k : κ) (entries : List β) : Option β :=
  entries.find? fun b => decide (key b = k)

/-- Revises the entry with the key, or puts a new one at the end. -/
def upsert (k : κ) (f : Option β → β) : List β → List β
  | [] => [f none]
  | b :: rest => if key b = k then f (some b) :: rest else b :: upsert k f rest

/-- Puts an entry under its own key, in place of the one that is there. -/
def insert (b : β) (entries : List β) : List β := upsert key (key b) (fun _ => b) entries

/-- The entries in turn, later ones in place of earlier ones with the same key. -/
def collect (bs : List β) : List β := bs.foldl (fun entries b => insert key b entries) []

theorem get?_eq_some_key {k : κ} {entries : List β} {b : β} (h : get? key k entries = some b) :
    key b = k := by
  have := List.find?_some h
  simpa using this

/-- The revised entry must stay under its key; then only a new key changes the keys. -/
theorem map_key_upsert (k : κ) (f : Option β → β)
    (hf : ∀ o, (∀ b ∈ o, key b = k) → key (f o) = k) (entries : List β) :
    (upsert key k f entries).map key =
      if k ∈ entries.map key then entries.map key else entries.map key ++ [k] := by
  induction entries with
  | nil => simp [upsert, hf none]
  | cons b rest ih =>
    by_cases h : key b = k
    · simp [upsert, h, hf (some b)]
    · have hne : ¬ k = key b := fun e => h e.symm
      by_cases hr : k ∈ rest.map key
      · simp only [upsert, h, if_false, List.map_cons, ih, hr, if_true, List.mem_cons, or_true]
      · simp only [upsert, h, if_false, List.map_cons, ih, hr, List.mem_cons, hne, or_self,
          List.cons_append]

theorem get?_upsert_self (k : κ) (f : Option β → β)
    (hf : ∀ o, (∀ b ∈ o, key b = k) → key (f o) = k) (entries : List β) :
    get? key k (upsert key k f entries) = some (f (get? key k entries)) := by
  induction entries with
  | nil => simp [upsert, get?, hf none]
  | cons b rest ih =>
    by_cases h : key b = k
    · simp [upsert, get?, h, hf (some b)]
    · simpa [upsert, get?, h] using ih

theorem get?_upsert_of_ne {k j : κ} (hne : j ≠ k) (f : Option β → β)
    (hf : ∀ o, (∀ b ∈ o, key b = k) → key (f o) = k) (entries : List β) :
    get? key j (upsert key k f entries) = get? key j entries := by
  induction entries with
  | nil => simp [upsert, get?, hf none, Ne.symm hne]
  | cons b rest ih =>
    by_cases h : key b = k
    · have hb : ¬ key b = j := fun e => hne (e.symm.trans h)
      simp [upsert, get?, h, hf (some b), Ne.symm hne]
    · by_cases hb : key b = j
      · simp [upsert, get?, hb, hne]
      · simpa [upsert, get?, h, hb] using ih

end FuzzyInference.Keyed
