import FuzzyInference.Keyed
import Mathlib.Data.List.Find
import Mathlib.Data.List.Induction
import Mathlib.Data.List.Perm.Lattice

/-! Keyed lists as maps. Two lists that answer alike for every key differ in order only; a list into
which entries are put holds the last one under each key, at the place of the first; and a list to which
accounts are posted holds under each key just what was posted there. -/

namespace FuzzyInference.Keyed

variable {κ β : Type} [DecidableEq κ] {key : β → κ} {entries entries' : List β} {k : κ} {b : β}

/-! ## Lists without repeated keys -/

theorem get?_eq_some_of_mem (hsame : ∀ c ∈ entries, key c = key b → c = b) (hb : b ∈ entries) :
    get? key (key b) entries = some b := by
  cases hfound : get? key (key b) entries with
  | none =>
      rw [get?, List.find?_eq_none] at hfound
      simpa using hfound b hb
  | some c =>
      have hc : c ∈ entries := List.mem_of_find?_eq_some hfound
      rw [hsame c hc (get?_eq_some_key key hfound)]

theorem get?_eq_some_iff (hkeys : (entries.map key).Nodup) :
    get? key k entries = some b ↔ b ∈ entries ∧ key b = k := by
  constructor
  · intro h
    exact ⟨List.mem_of_find?_eq_some h, get?_eq_some_key key h⟩
  · rintro ⟨hb, rfl⟩
    exact get?_eq_some_of_mem (fun c hc => List.inj_on_of_nodup_map hkeys hc hb) hb

theorem isSome_get?_iff : (get? key k entries).isSome = true ↔ k ∈ entries.map key := by
  simp [get?]

/-- If look-ups tell what entries are made of, so does each entry. -/
theorem exists_of_mem {ν : Type} {source : κ → Option ν} {entry : κ → ν → β}
    (hkeys : (entries.map key).Nodup) (h : ∀ k, get? key k entries = (source k).map (entry k))
    (hb : b ∈ entries) : ∃ v, source (key b) = some v ∧ entry (key b) v = b := by
  have hfound := (get?_eq_some_iff hkeys).mpr ⟨hb, rfl⟩
  rwa [h, Option.map_eq_some_iff] at hfound

/-- The order of entries that differ in their keys does not show in look-ups. -/
theorem get?_perm (hperm : entries.Perm entries')
    (hsame : ∀ b ∈ entries, ∀ c ∈ entries, key c = key b → c = b) :
    get? key k entries = get? key k entries' := by
  refine List.find?_eq_find?_of_perm hperm ?_
  rintro b ⟨hb, hkb⟩ c ⟨hc, hkc⟩
  simp only [decide_eq_true_eq] at hkb hkc
  exact hsame c hc b hb (hkb.trans hkc.symm)

/-- Look-ups tell all but the order. -/
theorem perm_of_get?_eq (hkeys : (entries.map key).Nodup) (hkeys' : (entries'.map key).Nodup)
    (h : ∀ k, get? key k entries = get? key k entries') : entries.Perm entries' := by
  rw [List.perm_ext_iff_of_nodup hkeys.of_map hkeys'.of_map]
  intro b
  have hb := h (key b)
  constructor
  · intro hmem
    rw [(get?_eq_some_iff hkeys).mpr ⟨hmem, rfl⟩] at hb
    exact ((get?_eq_some_iff hkeys').mp hb.symm).1
  · intro hmem
    rw [(get?_eq_some_iff hkeys').mpr ⟨hmem, rfl⟩] at hb
    exact ((get?_eq_some_iff hkeys).mp hb).1

omit [DecidableEq κ] in
theorem nodup_of_nodup_map {γ : Type} {f : κ → γ} (h : (entries.map fun b => f (key b)).Nodup) :
    (entries.map key).Nodup := by
  rw [← Function.comp_def, ← List.map_map] at h
  exact h.of_map

theorem get?_map {γ : Type} {key' : γ → κ} {f : β → γ} (hf : ∀ b, key' (f b) = key b) :
    get? key' k (entries.map f) = (get? key k entries).map f := by
  simp only [get?, List.find?_map, Function.comp_def, hf]

theorem upsert_of_not_mem (f : Option β → β) (hk : k ∉ entries.map key) :
    upsert key k f entries = entries ++ [f none] := by
  induction entries with
  | nil => rfl
  | cons c rest ih =>
      rw [List.map_cons, List.mem_cons, not_or] at hk
      rw [upsert, if_neg (Ne.symm hk.1), ih hk.2, List.cons_append]

theorem map_upsert {γ : Type} {key' : γ → κ} {f : β → γ} (hf : ∀ b, key' (f b) = key b)
    {g : Option β → β} {g' : Option γ → γ} (hg : ∀ o, f (g o) = g' (o.map f)) :
    (upsert key k g entries).map f = upsert key' k g' (entries.map f) := by
  induction entries with
  | nil => exact congrArg ([·]) (hg none)
  | cons b rest ih =>
      rw [List.map_cons, upsert, upsert, hf]
      split
      · rw [List.map_cons, hg]
        rfl
      · rw [List.map_cons, ih]

/-- Entries with different keys are collected as they are. -/
theorem collect_eq_self (hkeys : (entries.map key).Nodup) : collect key entries = entries := by
  have hfold (before rest : List β) (h : ((before ++ rest).map key).Nodup) :
      rest.foldl (fun entries b => insert key b entries) before = before ++ rest := by
    induction rest generalizing before with
    | nil => rw [List.foldl_nil, List.append_nil]
    | cons b rest ih =>
        have hb : key b ∉ before.map key := by
          rw [List.map_append, List.nodup_append] at h
          exact fun hmem => h.2.2 _ hmem _ (by simp) rfl
        rw [List.append_cons] at h
        rw [List.foldl_cons, insert, upsert_of_not_mem _ hb, ih _ h, ← List.append_cons]
  exact hfold [] entries hkeys

/-! ## The order of keys -/

section Enlisting

variable {κ : Type} [DecidableEq κ] {known ks : List κ} {k : κ}

/-- Puts a key that is not known yet behind the others. -/
def enlist (known : List κ) (k : κ) : List κ := if k ∈ known then known else known ++ [k]

theorem mem_enlist {j : κ} : j ∈ enlist known k ↔ j ∈ known ∨ j = k := by
  unfold enlist
  split
  · rename_i hk
    exact ⟨.inl, fun h => h.elim id fun hj => hj ▸ hk⟩
  · simp

theorem mem_foldl_enlist : k ∈ ks.foldl enlist known ↔ k ∈ known ∨ k ∈ ks := by
  induction ks generalizing known with
  | nil => simp
  | cons j ks ih => rw [List.foldl_cons, ih, mem_enlist, List.mem_cons, or_assoc]

/-- Known keys are not enlisted again. -/
theorem foldl_enlist_of_subset (h : ∀ k ∈ ks, k ∈ known) : ks.foldl enlist known = known := by
  induction ks with
  | nil => rfl
  | cons k ks ih =>
      rw [List.foldl_cons, enlist, if_pos (h k List.mem_cons_self)]
      exact ih fun j hj => h j (List.mem_cons_of_mem k hj)

theorem foldl_enlist_nil (ks : List κ) : ks.foldl enlist [] = ks.eraseDups := by
  induction ks using List.reverseRec with
  | nil => rfl
  | append_singleton ks k ih =>
      rw [List.foldl_append, ih, List.eraseDups_append, List.foldl_cons, List.foldl_nil, enlist]
      by_cases hk : k ∈ ks <;> simp [hk, List.removeAll, List.eraseDups_cons]

theorem nodup_enlist (h : known.Nodup) (k : κ) : (enlist known k).Nodup := by
  unfold enlist
  split
  · exact h
  · rename_i hnew
    exact h.append (List.nodup_singleton k) (by simpa using hnew)

end Enlisting

/-! ## Entries put in turn -/

section Collecting

variable (b : β) (bs : List β)

theorem get?_insert (entries : List β) (k : κ) : get? key k (insert key b entries) =
    if key b = k then some b else get? key k entries := by
  split
  · rename_i h
    subst h
    exact get?_upsert_self key _ _ (fun _ _ => rfl) entries
  · rename_i h
    exact get?_upsert_of_ne key (Ne.symm h) _ (fun _ _ => rfl) entries

theorem map_key_insert (entries : List β) :
    (insert key b entries).map key = enlist (entries.map key) (key b) :=
  map_key_upsert key _ _ (fun _ _ => rfl) entries

theorem collect_append_singleton : collect key (bs ++ [b]) = insert key b (collect key bs) := by
  rw [collect, List.foldl_append]
  rfl

/-- Keys come in the order in which they first appeared. -/
theorem map_key_collect : (collect key bs).map key = (bs.map key).eraseDups := by
  rw [← foldl_enlist_nil, List.foldl_map]
  exact (List.foldl_hom (List.map key) fun entries b => (map_key_insert b entries).symm).symm

theorem nodup_keys_collect : ((collect key bs).map key).Nodup := by
  induction bs using List.reverseRec with
  | nil => exact List.nodup_nil
  | append_singleton bs b ih =>
      rw [collect_append_singleton, map_key_insert]
      exact nodup_enlist ih _

/-- Under a key stands what was put there last. -/
theorem get?_collect (k : κ) : get? key k (collect key bs) = get? key k bs.reverse := by
  induction bs using List.reverseRec with
  | nil => rfl
  | append_singleton bs b ih =>
      rw [collect_append_singleton, get?_insert, ih, List.reverse_append, List.reverse_singleton,
        List.singleton_append, get?, get?, List.find?_cons]
      by_cases h : key b = k <;> simp [h]

end Collecting

/-- Keys that differ lead to all entries. -/
theorem filterMap_get?_keys (hkeys : (entries.map key).Nodup) :
    ((entries.map key).filterMap fun k => get? key k entries) = entries := by
  rw [List.filterMap_map]
  refine (List.filterMap_congr fun b hb => ?_).trans List.filterMap_some
  exact (get?_eq_some_iff hkeys).mpr ⟨hb, rfl⟩

/-! ## Accounts -/

section Accounts

variable {ν δ : Type} (key) (name : ν → κ) (blank : ν → β) (credit : δ → β → β)

/-- Opens an account at its first mention, and credits it if there is something to credit. -/
def post (accounts : List β) (p : ν × Option δ) : List β :=
  upsert key (name p.1) (fun account => p.2.elim id credit (account.getD (blank p.1))) accounts

variable {key name blank credit} (hblank : ∀ v, key (blank v) = name v)
  (hcredit : ∀ d b, key (credit d b) = key b)

include hblank hcredit

omit [DecidableEq κ] in
theorem key_post (p : ν × Option δ) (account : Option β) (h : ∀ b ∈ account, key b = name p.1) :
    key (p.2.elim id credit (account.getD (blank p.1))) = name p.1 := by
  have hopened : key (account.getD (blank p.1)) = name p.1 := by
    cases account with
    | none => exact hblank p.1
    | some b => exact h b rfl
  cases p.2 with
  | none => exact hopened
  | some d => exact (hcredit d _).trans hopened

/-- One posting changes no other account. -/
theorem get?_post (accounts : List β) (p : ν × Option δ) (k : κ) :
    get? key k (post key name blank credit accounts p) =
      if name p.1 = k then
        some (p.2.elim id credit ((get? key k accounts).getD (blank p.1)))
      else get? key k accounts := by
  have hkey := key_post hblank hcredit p
  split
  · rename_i h
    subst h
    exact get?_upsert_self key _ _ hkey accounts
  · rename_i h
    exact get?_upsert_of_ne key (Ne.symm h) _ hkey accounts

theorem map_key_posts (ps : List (ν × Option δ)) (accounts : List β) :
    (ps.foldl (post key name blank credit) accounts).map key =
      (ps.map fun p => name p.1).foldl enlist (accounts.map key) := by
  rw [List.foldl_map]
  refine (List.foldl_hom (List.map key) fun accounts p => ?_).symm
  exact (map_key_upsert key _ _ (key_post hblank hcredit p) accounts).symm

theorem nodup_keys_posts (ps : List (ν × Option δ)) :
    ((ps.foldl (post key name blank credit) []).map key).Nodup := by
  induction ps using List.reverseRec with
  | nil => exact List.nodup_nil
  | append_singleton ps p ih =>
      rw [List.foldl_append, List.foldl_cons, List.foldl_nil, post,
        map_key_upsert key _ _ (key_post hblank hcredit p)]
      exact nodup_enlist ih _

/-- An account was opened by the first posting under its key and holds all credits under it. -/
theorem get?_posts (ps : List (ν × Option δ)) (k : κ) :
    get? key k (ps.foldl (post key name blank credit) []) =
      (ps.find? fun p => decide (name p.1 = k)).map fun p =>
        ((ps.filter fun q => decide (name q.1 = k)).filterMap Prod.snd).foldl
          (fun b d => credit d b) (blank p.1) := by
  induction ps using List.reverseRec with
  | nil => rfl
  | append_singleton ps p ih =>
      rw [List.foldl_append, List.foldl_cons, List.foldl_nil, get?_post hblank hcredit, ih,
        List.find?_append, List.filter_append]
      by_cases h : name p.1 = k
      · cases hfind : ps.find? fun p => decide (name p.1 = k) with
        | none =>
            have hempty : (ps.filter fun q => decide (name q.1 = k)) = [] := by
              rw [List.find?_eq_none] at hfind
              exact List.filter_eq_nil_iff.mpr hfind
            cases hp : p.2 <;> simp [h, hp, hempty]
        | some q => cases hp : p.2 <;> simp [h, hp, List.filterMap_append]
      · simp [h]

end Accounts

/-- If each account and each credit is turned into another, posting goes on as before. -/
theorem map_posts {ν δ δ' γ : Type} {key' : γ → κ} {name : ν → κ} {blank : ν → β} {blank' : ν → γ}
    {credit : δ → β → β} {credit' : δ' → γ → γ} {f : β → γ} {h : δ → δ'}
    (hkey : ∀ b, key' (f b) = key b) (hblank : ∀ v, f (blank v) = blank' v)
    (hcredit : ∀ d b, f (credit d b) = credit' (h d) (f b)) (ps : List (ν × Option δ)) :
    (ps.foldl (post key name blank credit) entries).map f =
      (ps.map fun p => (p.1, p.2.map h)).foldl (post key' name blank' credit') (entries.map f) := by
  rw [List.foldl_map]
  refine (List.foldl_hom (List.map f) fun accounts p => ?_).symm
  refine (map_upsert hkey fun account => ?_).symm
  have hopened : f (account.getD (blank p.1)) = (account.map f).getD (blank' p.1) := by
    cases account with
    | none => exact hblank p.1
    | some b => rfl
  cases hp : p.2 with
  | none => exact hopened
  | some d => exact (hcredit d _).trans (congrArg (credit' (h d)) hopened)

end FuzzyInference.Keyed
