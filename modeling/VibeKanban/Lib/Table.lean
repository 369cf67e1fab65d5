import Mathlib.Data.List.Basic
import Mathlib.Data.List.Forall2
import Mathlib.Data.List.Nodup

/-! Database tables as lists of rows: updates in place, appended rows, and how rows evolve. -/
namespace VibeKanban.Lib

variable {ρ : Type*} {R : ρ → ρ → Prop}

/-- `UPDATE … SET f WHERE p`. -/
def updateWhere (p : ρ → Bool) (f : ρ → ρ) (rows : List ρ) : List ρ :=
  rows.map fun r => if p r then f r else r

/-- The only row that satisfies a condition is the one found. -/
theorem find_unique {p : ρ → Bool} {rows : List ρ} {r : ρ} (hmem : r ∈ rows) (hp : p r = true)
    (huniq : ∀ x ∈ rows, p x = true → x = r) : rows.find? p = some r := by
  cases hf : rows.find? p with
  | none => exact absurd hp (by simpa using List.find?_eq_none.mp hf r hmem)
  | some x => rw [huniq x (List.mem_of_find?_eq_some hf) (List.find?_some hf)]

/-- Where keys are unique, the row found by its key is the row with the key. -/
theorem find_key_eq_some {κ : Type*} [DecidableEq κ] {key : ρ → κ} {rows : List ρ}
    (hunique : (rows.map key).Nodup) {k : κ} {r : ρ} :
    rows.find? (fun row => key row == k) = some r ↔ r ∈ rows ∧ key r = k := by
  constructor
  · intro hfind
    exact ⟨List.mem_of_find?_eq_some hfind, by simpa using List.find?_some hfind⟩
  · rintro ⟨hmem, hkey⟩
    apply find_unique hmem (by simpa using hkey)
    intro x hx hxkey
    exact List.inj_on_of_nodup_map hunique hx hmem ((by simpa using hxkey : key x = k).trans hkey.symm)

/-- Every row keeps its place and changes by `R`; other rows may be appended. -/
def Evolves (R : ρ → ρ → Prop) (rows rows' : List ρ) : Prop :=
  ∀ (i : ℕ) r, rows[i]? = some r → ∃ r', rows'[i]? = some r' ∧ R r r'

theorem Evolves.refl (hR : ∀ r, R r r) (rows : List ρ) : Evolves R rows rows :=
  fun _ r h => ⟨r, h, hR r⟩

theorem Evolves.trans (hR : ∀ a b c, R a b → R b c → R a c) {rows rows' rows'' : List ρ}
    (h : Evolves R rows rows') (h' : Evolves R rows' rows'') : Evolves R rows rows'' := by
  intro i r hr
  obtain ⟨r', hr', hstep⟩ := h i r hr
  obtain ⟨r'', hr'', hstep'⟩ := h' i r' hr'
  exact ⟨r'', hr'', hR r r' r'' hstep hstep'⟩

theorem evolves_updateWhere {p : ρ → Bool} {f : ρ → ρ} {rows : List ρ} (hR : ∀ r, R r r)
    (h : ∀ r ∈ rows, p r = true → R r (f r)) : Evolves R rows (updateWhere p f rows) := by
  intro i r hr
  refine ⟨if p r then f r else r, by simp [updateWhere, hr], ?_⟩
  split_ifs with hp
  · exact h r (List.mem_of_getElem? hr) hp
  · exact hR r

/-- An update that keeps a key keeps the list of keys. -/
theorem map_updateWhere {κ : Type*} {key : ρ → κ} {p : ρ → Bool} {f : ρ → ρ}
    (h : ∀ r, key (f r) = key r) (rows : List ρ) :
    (updateWhere p f rows).map key = rows.map key := by
  rw [updateWhere, List.map_map]
  refine List.map_congr_left fun r _ => ?_
  rw [Function.comp_apply]
  split_ifs with hp
  · exact h r
  · rfl

theorem mem_updateWhere {p : ρ → Bool} {f : ρ → ρ} {rows : List ρ} {r : ρ} :
    r ∈ updateWhere p f rows ↔
      (∃ x ∈ rows, p x = true ∧ r = f x) ∨ (r ∈ rows ∧ p r = false) := by
  rw [updateWhere, List.mem_map]
  constructor
  · rintro ⟨x, hx, rfl⟩
    cases hp : p x with
    | true => exact Or.inl ⟨x, hx, hp, by simp⟩
    | false => exact Or.inr ⟨by simpa using hx, by simpa using hp⟩
  · rintro (⟨x, hx, hp, rfl⟩ | ⟨hr, hp⟩)
    · exact ⟨x, hx, by simp [hp]⟩
    · exact ⟨r, hr, by simp [hp]⟩

/-- What the update keeps of a row is still there after it. -/
theorem exists_mem_updateWhere {p : ρ → Bool} {f : ρ → ρ} {P : ρ → Prop} {rows : List ρ}
    (hkeeps : ∀ r, P r → P (f r)) {r : ρ} (hr : r ∈ rows) (h : P r) :
    ∃ r' ∈ updateWhere p f rows, P r' := by
  cases hp : p r with
  | true => exact ⟨f r, mem_updateWhere.mpr (Or.inl ⟨r, hr, hp, rfl⟩), hkeeps r h⟩
  | false => exact ⟨r, mem_updateWhere.mpr (Or.inr ⟨hr, hp⟩), h⟩

/-- An update outside a selection. -/
theorem filter_updateWhere {p q : ρ → Bool} {f : ρ → ρ} {rows : List ρ}
    (h : ∀ r ∈ rows, p r = true → q r = false ∧ q (f r) = false) :
    (updateWhere p f rows).filter q = rows.filter q := by
  rw [updateWhere]
  induction rows with
  | nil => rfl
  | cons r rest ih =>
    rw [List.map_cons, List.filter_cons, List.filter_cons,
      ih fun x hx => h x (List.mem_cons_of_mem r hx)]
    split_ifs with hp hq hq' hq'
    · rw [(h r List.mem_cons_self hp).2] at hq
      cases hq
    · rw [(h r List.mem_cons_self hp).2] at hq
      cases hq
    · rw [(h r List.mem_cons_self hp).1] at hq'
      cases hq'
    · rfl
    · rfl
    · rfl

/-- Updates of different rows commute. -/
theorem updateWhere_comm {p q : ρ → Bool} {f g : ρ → ρ} {rows : List ρ}
    (hp : ∀ r ∈ rows, p r = true → q r = false ∧ q (f r) = false)
    (hq : ∀ r ∈ rows, q r = true → p r = false ∧ p (g r) = false) :
    updateWhere p f (updateWhere q g rows) = updateWhere q g (updateWhere p f rows) := by
  rw [updateWhere, updateWhere, updateWhere, updateWhere, List.map_map, List.map_map]
  refine List.map_congr_left fun r hr => ?_
  rw [Function.comp_apply, Function.comp_apply]
  cases hpr : p r with
  | true =>
    obtain ⟨hqr, hqf⟩ := hp r hr hpr
    simp [hqr, hqf, hpr]
  | false =>
    cases hqr : q r with
    | true => simp [(hq r hr hqr).2, hqr]
    | false => simp [hpr, hqr]

/-- An update has no effect that a later one of the same rows undoes. -/
theorem updateWhere_absorb {p q : ρ → Bool} {f g : ρ → ρ}
    (h : ∀ r, p r = true → q r = true ∧ q (f r) = true ∧ g (f r) = g r) (rows : List ρ) :
    updateWhere q g (updateWhere p f rows) = updateWhere q g rows := by
  rw [updateWhere, updateWhere, updateWhere, List.map_map]
  refine List.map_congr_left fun r _ => ?_
  rw [Function.comp_apply]
  cases hp : p r with
  | true =>
    obtain ⟨hq, hqf, hg⟩ := h r hp
    simp [hq, hqf, hg]
  | false => simp

/-- An update that keeps a key rewrites the row found under it. -/
theorem find_updateWhere {κ : Type*} [DecidableEq κ] (key : ρ → κ) {p : ρ → Bool} {f : ρ → ρ}
    (h : ∀ r, key (f r) = key r) (rows : List ρ) (k : κ) :
    (updateWhere p f rows).find? (fun r => key r = k) =
      (rows.find? fun r => key r = k).map fun r => if p r then f r else r := by
  induction rows with
  | nil => rfl
  | cons r rest ih =>
    have hkey : key (if p r then f r else r) = key r := by
      split_ifs
      · exact h r
      · rfl
    rw [updateWhere, List.map_cons, ← updateWhere]
    by_cases hk : key r = k
    · simp [hkey, hk]
    · rw [List.find?_cons_of_neg (by simpa [hkey] using hk),
        List.find?_cons_of_neg (by simpa using hk), ih]

/-- An update changes the rows one by one. -/
theorem forall₂_updateWhere {p : ρ → Bool} {f : ρ → ρ} {rows : List ρ} (hR : ∀ r, R r r)
    (h : ∀ r ∈ rows, p r = true → R r (f r)) : List.Forall₂ R rows (updateWhere p f rows) := by
  rw [updateWhere, List.forall₂_map_right_iff, List.forall₂_same]
  intro r hr
  split_ifs with hp
  · exact h r hr hp
  · exact hR r

/-- Rows that satisfy `p` turn into rows that satisfy `q`. -/
theorem countP_le_of_forall₂ {p q : ρ → Bool} {rows rows' : List ρ}
    (h : List.Forall₂ R rows rows') (hpq : ∀ r r', R r r' → p r = true → q r' = true) :
    rows.countP p ≤ rows'.countP q := by
  induction h with
  | nil => exact Nat.le_refl _
  | @cons r r' rest rest' hr _ ih =>
    rw [List.countP_cons, List.countP_cons]
    by_cases hp : p r = true
    · rw [if_pos hp, if_pos (hpq r r' hr hp)]
      omega
    · rw [if_neg hp]
      omega

/-- One row satisfies `q` only after the change. -/
theorem countP_lt_of_forall₂ {p q : ρ → Bool} {rows rows' : List ρ}
    (h : List.Forall₂ R rows rows') (hpq : ∀ r r', R r r' → p r = true → q r' = true) {r : ρ}
    (hr : r ∈ rows) (hp : p r = false) (hq : ∀ r', R r r' → q r' = true) :
    rows.countP p < rows'.countP q := by
  induction h with
  | nil => cases hr
  | @cons a a' rest rest' ha hrest ih =>
    have hle := countP_le_of_forall₂ hrest hpq
    rw [List.countP_cons, List.countP_cons]
    rcases List.mem_cons.mp hr with rfl | hr
    · rw [if_neg (by simp [hp]), if_pos (hq a' ha)]
      omega
    · have hlt := ih hr
      by_cases hpa : p a = true
      · rw [if_pos hpa, if_pos (hpq a a' ha hpa)]
        omega
      · rw [if_neg hpa]
        omega

/-- An update that turns no row into one that satisfies `q`, and turns one away from it. -/
theorem countP_updateWhere_lt {p q : ρ → Bool} {f : ρ → ρ} {rows : List ρ}
    (hq : ∀ r ∈ rows, p r = true → q (f r) = true → q r = true) {r : ρ} (hr : r ∈ rows)
    (hp : p r = true) (hbefore : q r = true) (hafter : q (f r) = false) :
    (updateWhere p f rows).countP q < rows.countP q := by
  have hle : ∀ l : List ρ, (∀ r ∈ l, p r = true → q (f r) = true → q r = true) →
      (updateWhere p f l).countP q ≤ l.countP q := by
    intro l hl
    unfold updateWhere
    rw [List.countP_map]
    refine List.countP_mono_left fun x hx => ?_
    rw [Function.comp_apply]
    split_ifs with hpx
    · exact hl x hx hpx
    · exact id
  obtain ⟨l₁, l₂, rfl⟩ := List.append_of_mem hr
  have h₁ := hle l₁ fun x hx => hq x (List.mem_append_left _ hx)
  have h₂ := hle l₂ fun x hx => hq x (List.mem_append_right _ (List.mem_cons_of_mem _ hx))
  unfold updateWhere at h₁ h₂ ⊢
  rw [List.map_append, List.map_cons, List.countP_append, List.countP_append, List.countP_cons,
    List.countP_cons, if_pos hp, if_neg (by simp [hafter]), if_pos hbefore]
  omega

theorem forall₂_mem_left {ρ' : Type*} {R : ρ → ρ' → Prop} {rows : List ρ} {rows' : List ρ'}
    (h : List.Forall₂ R rows rows') {r : ρ} (hr : r ∈ rows) : ∃ r' ∈ rows', R r r' := by
  induction h with
  | nil => cases hr
  | @cons a a' _ _ ha _ ih =>
    rcases List.mem_cons.mp hr with rfl | hr
    · exact ⟨a', List.mem_cons_self, ha⟩
    · obtain ⟨r', hr', hR⟩ := ih hr
      exact ⟨r', List.mem_cons_of_mem a' hr', hR⟩

theorem forall₂_mem_right {ρ' : Type*} {R : ρ → ρ' → Prop} {rows : List ρ} {rows' : List ρ'}
    (h : List.Forall₂ R rows rows') {r' : ρ'} (hr' : r' ∈ rows') : ∃ r ∈ rows, R r r' := by
  have hflip : List.Forall₂ (fun b a => R a b) rows' rows := h.flip
  exact forall₂_mem_left hflip hr'

theorem evolves_append (hR : ∀ r, R r r) (rows more : List ρ) : Evolves R rows (rows ++ more) := by
  intro i r hr
  obtain ⟨hlt, _⟩ := List.getElem?_eq_some_iff.mp hr
  exact ⟨r, by rw [List.getElem?_append_left hlt]; exact hr, hR r⟩

theorem Evolves.exists_mem {rows rows' : List ρ} (h : Evolves R rows rows') {r : ρ}
    (hr : r ∈ rows) : ∃ r' ∈ rows', R r r' := by
  obtain ⟨i, hi⟩ := List.mem_iff_getElem?.mp hr
  obtain ⟨r', hr', hstep⟩ := h i r hi
  exact ⟨r', List.mem_of_getElem? hr', hstep⟩

theorem Evolves.mono {R' : ρ → ρ → Prop} (hR : ∀ a b, R a b → R' a b) {rows rows' : List ρ}
    (h : Evolves R rows rows') : Evolves R' rows rows' := by
  intro i r hr
  obtain ⟨r', hr', hstep⟩ := h i r hr
  exact ⟨r', hr', hR r r' hstep⟩

/-- The first row with a key evolves into the first row with that key. -/
theorem Evolves.find_key {κ : Type*} [DecidableEq κ] (key : ρ → κ)
    (hkey : ∀ a b, R a b → key a = key b) {rows rows' : List ρ} (h : Evolves R rows rows')
    {k : κ} {r : ρ} (hr : rows.find? (fun r => key r = k) = some r) :
    ∃ r', rows'.find? (fun r => key r = k) = some r' ∧ R r r' := by
  induction rows generalizing rows' with
  | nil => simp at hr
  | cons a rows ih =>
    obtain ⟨a', ha', hstep⟩ := h 0 a rfl
    obtain ⟨b, rest, rfl⟩ : ∃ b rest, rows' = b :: rest := by
      cases rows' with
      | nil => simp at ha'
      | cons b rest => exact ⟨b, rest, rfl⟩
    obtain rfl : b = a' := by simpa using ha'
    by_cases hk : key a = k
    · obtain rfl : a = r := by simpa [hk] using hr
      exact ⟨b, by simp [← hkey _ _ hstep, hk], hstep⟩
    · have hb : key b ≠ k := by rwa [← hkey _ _ hstep]
      have hrest : Evolves R rows rest :=
        fun i r hi => by simpa using h (i + 1) r (by simpa using hi)
      rw [List.find?_cons_of_neg (by simpa using hk)] at hr
      obtain ⟨r', hr', hstep'⟩ := ih hrest hr
      exact ⟨r', by rw [List.find?_cons_of_neg (by simpa using hb)]; exact hr', hstep'⟩

/-- `ORDER BY before LIMIT 1`. -/
def firstRow (before : ρ → ρ → Bool) (rows : List ρ) : Option ρ :=
  rows.foldr (fun row best =>
    match best with
    | none => some row
    | some other => if before row other then some row else some other) none

theorem firstRow_eq_none {before : ρ → ρ → Bool} {rows : List ρ} :
    firstRow before rows = none ↔ rows = [] := by
  cases rows with
  | nil => exact iff_of_true rfl rfl
  | cons row rows =>
    refine iff_of_false ?_ (List.cons_ne_nil _ _)
    rw [firstRow, List.foldr_cons]
    split
    · exact nofun
    · split_ifs
      · exact nofun
      · exact nofun

/-- In a total order the row found comes before all others. -/
theorem firstRow_eq_some {before : ρ → ρ → Bool}
    (htotal : ∀ a b, before a b = true ∨ before b a = true)
    (htrans : ∀ a b c, before a b = true → before b c = true → before a c = true)
    {rows : List ρ} {row : ρ} (h : firstRow before rows = some row) :
    row ∈ rows ∧ ∀ other ∈ rows, before row other = true := by
  induction rows generalizing row with
  | nil => cases h
  | cons head rest ih =>
    have hself (a : ρ) : before a a = true := (htotal a a).elim id id
    change (match firstRow before rest with
      | none => some head
      | some other => if before head other then some head else some other) = some row at h
    cases hrest : firstRow before rest with
    | none =>
      rw [hrest] at h
      cases h
      rw [firstRow_eq_none.mp hrest]
      refine ⟨List.mem_cons_self, ?_⟩
      intro other hother
      rw [List.mem_singleton.mp hother]
      exact hself _
    | some best =>
      obtain ⟨hmem, hbest⟩ := ih hrest
      simp only [hrest] at h
      split_ifs at h with hhead
      · cases h
        refine ⟨List.mem_cons_self, ?_⟩
        intro other hother
        rcases List.mem_cons.mp hother with rfl | hother
        · exact hself _
        · exact htrans _ _ _ hhead (hbest other hother)
      · cases h
        refine ⟨List.mem_cons_of_mem _ hmem, ?_⟩
        intro other hother
        rcases List.mem_cons.mp hother with rfl | hother
        · exact (htotal _ _).resolve_left hhead
        · exact hbest other hother

end VibeKanban.Lib
